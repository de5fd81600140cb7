import ProjectMesh.Lib.Gossip
import ProjectMesh.Routing.AtomicStore
import ProjectMesh.Routing.DtnDelivery
import ProjectMesh.Routing.FfiDurableStore
import ProjectMesh.Routing.Inbox
import ProjectMesh.Routing.Restart
import ProjectMesh.Routing.SummaryBloom

namespace ProjectMesh.Routing

open ProjectMesh.Lib
open ProjectMesh.Crypto.FfiPrekey

variable {P : Primitives}

section Summaries

variable {s peer : Store P} {id : EnvelopeId} {ids : List EnvelopeId} {x : Envelope P}

theorem parseIds_toHex (ids : List EnvelopeId) : parseIds (ids.map EnvelopeId.toHex) = .ok ids := by
  induction ids with
  | nil => rfl
  | cons id ids ih =>
    rw [List.map_cons, parseIds, hexToId_toHex, ih]
    rfl

theorem FfiStore.missingFromHex_summaryIdsHex (s peer : Store P) :
    missingFromHex s (summaryIdsHex peer) =
      .ok ((s.missingFrom peer.summaryIds).map Envelope.toBytes) := by
  rw [missingFromHex, summaryIdsHex, parseIds_toHex]
  rfl

theorem FfiStore.containsHex_toHex (s : Store P) (id : EnvelopeId) :
    containsHex s id.toHex = .ok (s.contains id) := by
  rw [containsHex, hexToId_toHex]

end Summaries

namespace Store

variable {s : Store P} {id : EnvelopeId} {x : Envelope P} {now : UInt64}

theorem accept_dead (hdead : ¬ x.Lives now) : (s.accept x now).2 = s := by
  have hoffered := s.accept_offered x now
  generalize s.accept x now = result at hoffered
  cases hoffered with
  | duplicate | expired | ttlExhausted => rfl
  | refused _ hexp hhops | overfull _ hexp hhops | new _ hexp hhops | replaced _ hexp hhops =>
    exact absurd ⟨hexp, hhops⟩ hdead

theorem contains_accept_room (hroom : s.contains x.id = false → s.len < s.capacity) :
    (s.accept x now).2.contains id = true ↔
      s.contains id = true ∨ x.id = id ∧ x.Lives now := by
  cases hdup : s.contains x.id with
  | true =>
    rw [accept_duplicate hdup]
    refine ⟨.inl, ?_⟩
    rintro (h | ⟨rfl, -⟩)
    · exact h
    · exact hdup
  | false =>
    by_cases hlives : x.Lives now
    · rw [accept_room hdup hlives.1 hlives.2 (hroom hdup), contains_insert, or_comm, @eq_comm _ id,
        and_iff_left hlives]
    · rw [accept_dead hlives]
      exact ⟨.inl, fun h => h.resolve_right fun h => hlives h.2⟩

theorem accept_room_answer (hdup : s.contains x.id = false) (hhops : x.ttlHops ≠ 0)
    (hroom : s.len < s.capacity) :
    (s.accept x now).1.1 = .new ∨ (s.accept x now).1.1 = .expired := by
  cases hexp : x.isExpired now with
  | true =>
    refine .inr ?_
    rw [accept, if_neg (Bool.eq_false_iff.mp hdup), if_pos hexp]
  | false =>
    rw [accept_room hdup hexp hhops hroom]
    exact .inl rfl

end Store

theorem Envelope.length_sealed_lt {bytes : List UInt8} {x : Envelope P}
    (h : Envelope.fromBytes P bytes = .ok x) : x.sealed.length < 2 ^ 32 := by
  have hagain := Envelope.fromBytes_again h
  rw [Envelope.fromBytes_toBytes] at hagain
  split at hagain
  · assumption
  · cases hagain

section MasterKey

open Method (Triple)

variable {key : Bytes 32}

namespace EncryptedStore

def Keyed (key : Bytes 32) (s : EncryptedStore) : Prop := s.masterKey = key

theorem keyed_call {α : Type} (text : Stage → Option String)
    (use : Table → Except MeshError α × Table) :
    Triple (Keyed key) (call text use) (fun _ => Keyed key) (Keyed key) :=
  Triple.zoom (I := fun _ => True) (.of_after fun _ _ => trivial) (fun _ _ => trivial)
    fun _ _ h _ => h

theorem keyed_put (x : Envelope P) :
    Triple (Keyed key) (put P x) (fun _ => Keyed key) (Keyed key) := by
  refine Triple.bind (Q := fun _ => Keyed key) (.of_after fun s h => h) fun nonce => ?_
  refine Triple.bind (Q := fun _ => Keyed key) (.of_after fun s h => h) fun self => ?_
  exact (Triple.ofExcept (fun _ _ _ h => h) fun _ h => h).bind fun sealed => keyed_call _ _

theorem keyed_get (P : Primitives) (id : EnvelopeId) :
    Triple (Keyed key) (EncryptedStore.get P id) (fun _ => Keyed key) (Keyed key) := by
  refine (keyed_call _ _).bind fun record => ?_
  cases record with
  | none => exact .pure fun _ h => h
  | some sealed =>
    refine Triple.bind (Q := fun _ => Keyed key) (.of_after fun s h => h) fun self => ?_
    refine Triple.bind (Q := fun _ => Keyed key) (.of_after fun s h => ?_) fun plaintext => ?_
    · rwa [Method.after_ofExcept]
    · refine Triple.bind (Q := fun _ => Keyed key) (.of_after fun s h => ?_) fun envelope =>
        .pure fun _ h => h
      rwa [Method.after_ofExcept]

end EncryptedStore

namespace DurableStore

def Keyed (key : Bytes 32) (d : DurableStore P) : Prop := d.disk.Keyed key

theorem masterKey_of_keyed {α : Type} {x : Method MeshError (DurableStore P) α} {a : α}
    {d d' : DurableStore P} (h : ∀ key, Triple (Keyed key) x (fun _ => Keyed key) (Keyed key))
    (hrun : x.run d = .ok a d') : d'.disk.masterKey.1 = d.disk.masterKey.1 := by
  have hkeyed := h d.disk.masterKey d rfl
  rw [hrun] at hkeyed
  exact congrArg Subtype.val hkeyed

theorem keyed_onDisk {α : Type} {x : Method MeshError EncryptedStore α}
    (h : Triple (EncryptedStore.Keyed key) x (fun _ => EncryptedStore.Keyed key)
      (EncryptedStore.Keyed key)) :
    Triple (Keyed key) (onDisk x : Method MeshError (DurableStore P) α) (fun _ => Keyed key)
      (Keyed key) :=
  Triple.zoom h (fun _ h => h) fun _ _ _ h => h

theorem keyed_accept (x : Envelope P) (now : UInt64) :
    Triple (Keyed key) (DurableStore.accept x now) (fun _ => Keyed key) (Keyed key) := by
  refine .of_after fun d h => ?_
  obtain ⟨⟨⟨outcome, evicted⟩, memory⟩, hresult⟩ :
    ∃ result, d.memory.accept x now = result := ⟨_, rfl⟩
  rw [DurableStore.accept, EStateM.run_bind, EStateM.run_get]
  simp only [hresult]
  have htail : Triple (Keyed key) (if outcome = .new then do
      onDisk (EncryptedStore.put P x)
      pure outcome
    else pure outcome : Method MeshError (DurableStore P) Accept) (fun _ => Keyed key)
      (Keyed key) := by
    split
    · exact (keyed_onDisk (EncryptedStore.keyed_put x)).bind fun _ => .pure fun _ h => h
    · exact .pure fun _ h => h
  have hnext : Keyed key ⟨memory, d.disk⟩ := h
  cases evicted with
  | none => exact htail.after hnext
  | some victim =>
    exact ((keyed_onDisk (EncryptedStore.keyed_call _ _)).bind fun _ => htail).after hnext

theorem keyed_purgeExpired (now : UInt64) :
    Triple (Keyed key) (DurableStore.purgeExpired (P := P) now) (fun _ => Keyed key)
      (Keyed key) := by
  have hremove : ∀ ids : List EnvelopeId,
      Triple (Keyed key) (removeAll (P := P) ids) (fun _ => Keyed key) (Keyed key) := by
    intro ids
    induction ids with
    | nil => exact .pure fun _ h => h
    | cons id ids ih => exact (keyed_onDisk (EncryptedStore.keyed_call _ _)).bind fun _ => ih
  refine .of_after fun d h => ?_
  exact ((hremove (d.memory.purgeExpired now).1).bind (fun _ => .pure fun _ h => h) :
    Triple (Keyed key) _ (fun _ => Keyed key) (Keyed key)).after
      (s := ⟨(d.memory.purgeExpired now).2, d.disk⟩) h

theorem keyed_reload (now : UInt64) (id : EnvelopeId) :
    Triple (Keyed key) (reload (P := P) now id) (fun _ => Keyed key) (Keyed key) := by
  have hremove : ∀ victim : EnvelopeId, Triple (Keyed key)
      (onDisk (EncryptedStore.remove victim) : Method MeshError (DurableStore P) Unit)
      (fun _ => Keyed key) (Keyed key) := fun _ => keyed_onDisk (EncryptedStore.keyed_call _ _)
  refine .of_after fun d h => ?_
  rw [reload, EStateM.run_bind, EStateM.run_get]
  dsimp only
  have hget := EncryptedStore.keyed_get P id d.disk h
  cases hrun : (EncryptedStore.get P id).run d.disk with
  | error fault disk =>
    rw [hrun] at hget
    cases fault with
    | panic => exact hget
    | err err =>
      have hkey : disk.Keyed key := hget
      exact (EncryptedStore.keyed_call _ _).after hkey
  | ok found disk =>
    rw [hrun] at hget
    cases found with
    | none => exact hget
    | some x =>
      obtain ⟨⟨⟨outcome, evicted⟩, memory⟩, hresult⟩ :
        ∃ result, d.memory.accept x now = result := ⟨_, rfl⟩
      have hnext : Keyed key ⟨memory, disk⟩ := hget
      have htail : Triple (Keyed key) (if outcome ≠ .new then
          onDisk (EncryptedStore.remove id) else pure () : Method MeshError (DurableStore P) Unit)
          (fun _ => Keyed key) (Keyed key) := by
        split
        · exact hremove id
        · exact .pure fun _ h => h
      simp only [hresult]
      cases evicted with
      | none => exact htail.after hnext
      | some victim => exact ((hremove victim).bind fun _ => htail).after hnext

theorem keyed_openStore (now : UInt64) :
    Triple (Keyed key) (openStore (P := P) now) (fun _ => Keyed key) (Keyed key) := by
  have hreload : ∀ ids : List EnvelopeId,
      Triple (Keyed key) (reloadAll (P := P) now ids) (fun _ => Keyed key) (Keyed key) := by
    intro ids
    induction ids with
    | nil => exact .pure fun _ h => h
    | cons id ids ih => exact (keyed_reload now id).bind fun _ => ih
  exact (keyed_onDisk ((EncryptedStore.keyed_call _ _).bind fun _ =>
    EncryptedStore.keyed_call _ _)).bind fun _ =>
      (keyed_onDisk (EncryptedStore.keyed_call _ _)).bind hreload

end DurableStore

end MasterKey

section Devices

variable {offered : List (Envelope P)} {masterKey : List UInt8} {capacity : UInt32}
  {d peer : DurableStore P} {x : Envelope P} {id : EnvelopeId} {now : UInt64} {bytes : List UInt8}

structure Kept (offered : List (Envelope P)) (masterKey : List UInt8) (capacity : UInt32)
    (d : DurableStore P) : Prop where
  intact : d.Intact
  masterKey_eq : d.disk.masterKey.1 = masterKey
  capacity_eq : d.memory.capacity = capacity.toNat
  offered : ∀ id x, d.memory.get id = some x → x ∈ offered
  hops : ∀ id x, d.memory.get id = some x → x.ttlHops ≠ 0

structure Roomy (offered : List (Envelope P)) (capacity : UInt32) : Prop where
  parsed : ∀ x ∈ offered, Envelope.fromBytes P x.toBytes = .ok x
  card_le : (offered.map Envelope.id).toFinset.card ≤ capacity.toNat

namespace Kept

theorem room (h : Kept offered masterKey capacity d) (hroomy : Roomy offered capacity)
    (hx : x ∈ offered) (hnew : d.memory.contains x.id = false) :
    d.memory.len < d.memory.capacity := by
  have hsub : insert x.id d.memory.heldIds ⊆ (offered.map Envelope.id).toFinset := by
    intro id hid
    rw [List.mem_toFinset, List.mem_map]
    rcases Finset.mem_insert.mp hid with rfl | hid
    · exact ⟨x, hx, rfl⟩
    · obtain ⟨y, hy⟩ := Store.contains_iff.mp (Store.mem_heldIds.mp hid)
      exact ⟨y, h.offered id y hy, Store.id_of_get hy⟩
  have hnotMem : x.id ∉ d.memory.heldIds := fun hmem =>
    Bool.false_ne_true (hnew.symm.trans (Store.mem_heldIds.mp hmem))
  have hcard := Finset.card_le_card hsub
  rw [Finset.card_insert_of_notMem hnotMem, Store.card_heldIds] at hcard
  exact (h.capacity_eq ▸ hcard.trans hroomy.card_le : d.memory.len + 1 ≤ d.memory.capacity)

theorem accept (h : Kept offered masterKey capacity d) (hroomy : Roomy offered capacity)
    (hopens : P.Opens) (hseals : P.Seals) (hx : x ∈ offered) (now : UInt64) :
    ∃ d', (DurableStore.accept x now).run d = .ok (d.memory.accept x now).1.1 d' ∧
      Kept offered masterKey capacity d' ∧ d'.memory = (d.memory.accept x now).2 := by
  have hlt := Envelope.length_sealed_lt (hroomy.parsed x hx)
  obtain ⟨disk, hrun, hagrees, hsound⟩ :=
    h.intact.agrees.accept h.intact.sound hopens now
      fun _ => DurableStore.storable_of_length hseals hlt d
  refine ⟨_, hrun, ⟨⟨hagrees, hsound⟩, ?_, ?_, fun id y hy => ?_, fun id y hy => ?_⟩, rfl⟩
  · have hkey := DurableStore.masterKey_of_keyed (fun _ => DurableStore.keyed_accept x now) hrun
    exact hkey.trans h.masterKey_eq
  · exact (d.memory.accept_offered x now).capacity_eq.trans h.capacity_eq
  · rcases Store.get_accept hy with hy | ⟨rfl, -⟩
    · exact h.offered id y hy
    · exact hx
  · rcases Store.get_accept hy with hy | ⟨rfl, -, hnew⟩
    · exact h.hops id y hy
    · exact (Store.live_of_accept_new hnew).2.2

theorem purgeExpired (h : Kept offered masterKey capacity d) (now : UInt64) :
    ∃ n d', (DurableStore.purgeExpired now).run d = .ok n d' ∧
      Kept offered masterKey capacity d' ∧ d'.memory = (d.memory.purgeExpired now).2 := by
  obtain ⟨disk, hrun, hagrees, hsound⟩ := h.intact.agrees.purgeExpired h.intact.sound now
  have hget : ∀ id y, (d.memory.purgeExpired now).2.get id = some y → d.memory.get id = some y := by
    intro id y hy
    have hold := (Store.get_foldl_remove (d.memory.purgeExpired now).1).symm.trans hy
    split at hold
    · cases hold
    · exact hold
  refine ⟨_, _, hrun, ⟨⟨hagrees, hsound⟩, ?_, ?_, fun id y hy => h.offered id y (hget id y hy),
    fun id y hy => h.hops id y (hget id y hy)⟩, rfl⟩
  · have hkey := DurableStore.masterKey_of_keyed (fun _ => DurableStore.keyed_purgeExpired now) hrun
    exact hkey.trans h.masterKey_eq
  · exact (Store.capacity_foldl_remove (d.memory.purgeExpired now).1).trans h.capacity_eq

theorem reopen (h : Kept offered masterKey capacity d) (nonces : List (Bytes 12)) (now : UInt64) :
    ∃ d', FfiDurableStore.openStore P d.disk.db nonces masterKey capacity now = .ok d' ∧
      Kept offered masterKey capacity d' ∧
      ∀ id, d'.memory.get id = (d.memory.get id).filter fun x => decide (x.Lives now) := by
  obtain rfl := h.masterKey_eq
  let disk : EncryptedStore := { d.disk with nonces := nonces }
  have hrecord : ∀ id, disk.record P id = .ok (d.memory.get id) := fun id =>
    (EncryptedStore.record_congr rfl rfl).trans (h.intact.agrees.records id List.not_mem_nil)
  have hnamed : ∀ id x, disk.record P id = .ok (some x) → x.id = id := fun id x hx =>
    Store.id_of_get (Except.ok.inj ((hrecord id).symm.trans hx))
  have horderly : DurableStore.Orderly P disk capacity.toNat :=
    ⟨h.intact.agrees.tidy, hnamed, h.capacity_eq ▸ h.intact.agrees.orderly.size_le⟩
  obtain ⟨d', hrun, hagrees, hsound, hmemory⟩ := horderly.openStore_run h.intact.sound now
  have hget : ∀ id, d'.memory.get id = (d.memory.get id).filter fun x => decide (x.Lives now) := by
    intro id
    rw [hmemory, horderly.get_foldl_loads, EncryptedStore.loadable, hrecord]
    cases d.memory.get id with
    | none => rfl
    | some x =>
      rw [Option.filter_some]
      by_cases hlives : x.Lives now
      · simp only [hlives, if_true, decide_true]
      · simp only [hlives, if_false, decide_false, Bool.false_eq_true]
  have hold : ∀ id x, d'.memory.get id = some x → d.memory.get id = some x := fun id x hx =>
    (Option.filter_eq_some_iff.mp ((hget id).symm.trans hx)).1
  refine ⟨d', ?_, ⟨⟨hagrees, hsound⟩, ?_, ?_, fun id x hx => h.offered id x (hold id x hx),
    fun id x hx => h.hops id x (hold id x hx)⟩, hget⟩
  · rw [FfiDurableStore.openStore, dif_pos d.disk.masterKey.2]
    have hrun' : (DurableStore.openStore now).run ⟨Store.new P capacity.toNat,
        { db := d.disk.db, masterKey := ⟨d.disk.masterKey.1, d.disk.masterKey.2⟩,
          nonces := nonces }⟩ = .ok () d' := hrun
    rw [hrun']
  · have hkey := DurableStore.masterKey_of_keyed (fun _ => DurableStore.keyed_openStore now) hrun
    exact hkey
  · rw [hmemory, Store.capacity_foldl_insert]
    rfl

theorem acceptBytes (h : Kept offered masterKey capacity d) (hroomy : Roomy offered capacity)
    (hopens : P.Opens) (hseals : P.Seals) (hparse : Envelope.fromBytes P bytes = .ok x)
    (hx : x ∈ offered) (now : UInt64) :
    ∃ d', (FfiDurableStore.accept bytes now).run d = .ok (d.memory.accept x now).1.1 d' ∧
      Kept offered masterKey capacity d' ∧ d'.memory = (d.memory.accept x now).2 := by
  obtain ⟨d', hrun, hkept, hmemory⟩ := h.accept hroomy hopens hseals hx now
  refine ⟨d', ?_, hkept, hmemory⟩
  rw [FfiDurableStore.accept, hparse]
  exact Method.run_mapErr_ok hrun

theorem acceptAll (hroomy : Roomy offered capacity) (hopens : P.Opens) (hseals : P.Seals)
    (now : UInt64) {xs : List (Envelope P)} (hxs : ∀ x ∈ xs, x ∈ offered)
    (h : Kept offered masterKey capacity d) :
    let d' := (FfiDurableStore.acceptAll now (xs.map Envelope.toBytes) d).2
    Kept offered masterKey capacity d' ∧ ∀ id, d'.memory.contains id = true ↔
      d.memory.contains id = true ∨ ∃ x ∈ xs, x.id = id ∧ x.Lives now := by
  induction xs generalizing d with
  | nil => exact ⟨h, fun id => ⟨.inl, fun h => h.resolve_right (by rintro ⟨x, ⟨⟩, -⟩)⟩⟩
  | cons x xs ih =>
    obtain ⟨hx, hxs⟩ := List.forall_mem_cons.mp hxs
    obtain ⟨d', hrun, hkept, hmemory⟩ :=
      h.acceptBytes hroomy hopens hseals (hroomy.parsed x hx) hx now
    obtain ⟨hkept', hcontains⟩ := ih hxs hkept
    rw [List.map_cons, FfiDurableStore.acceptAll, hrun]
    refine ⟨hkept', fun id => (hcontains id).trans ?_⟩
    rw [hmemory, Store.contains_accept_room fun hnew => h.room hroomy hx hnew, or_assoc]
    refine or_congr_right ⟨?_, ?_⟩
    · rintro (hlives | ⟨y, hy, hlives⟩)
      · exact ⟨x, List.mem_cons_self, hlives⟩
      · exact ⟨y, List.mem_cons_of_mem x hy, hlives⟩
    · rintro ⟨y, hy, hlives⟩
      rcases List.mem_cons.mp hy with rfl | hy
      · exact .inl hlives
      · exact .inr ⟨y, hy, hlives⟩

theorem acceptAll_answers (hroomy : Roomy offered capacity) (hopens : P.Opens) (hseals : P.Seals)
    (now : UInt64) {xs : List (Envelope P)} (hxs : ∀ x ∈ xs, x ∈ offered)
    (hhops : ∀ x ∈ xs, x.ttlHops ≠ 0) (hnodup : (xs.map Envelope.id).Nodup)
    (hnew : ∀ x ∈ xs, d.memory.contains x.id = false) (h : Kept offered masterKey capacity d) :
    ∀ answer ∈ (FfiDurableStore.acceptAll now (xs.map Envelope.toBytes) d).1,
      answer = .ok .new ∨ answer = .ok .expired := by
  induction xs generalizing d with
  | nil =>
    intro answer hanswer
    cases hanswer
  | cons x xs ih =>
    obtain ⟨hx, hxs⟩ := List.forall_mem_cons.mp hxs
    obtain ⟨hhop, hhops⟩ := List.forall_mem_cons.mp hhops
    obtain ⟨hother, hnodup⟩ := List.nodup_cons.mp hnodup
    obtain ⟨hfresh, hnew⟩ := List.forall_mem_cons.mp hnew
    have hroom := h.room hroomy hx hfresh
    obtain ⟨d', hrun, hkept, hmemory⟩ :=
      h.acceptBytes hroomy hopens hseals (hroomy.parsed x hx) hx now
    rw [List.map_cons, FfiDurableStore.acceptAll, hrun]
    refine List.forall_mem_cons.mpr ⟨?_, ih hxs hhops hnodup (fun y hy => ?_) hkept⟩
    · exact (Store.accept_room_answer hfresh hhop hroom).imp (congrArg Except.ok)
        (congrArg Except.ok)
    · rw [Method.after_ok, hmemory, ← Bool.not_eq_true,
        Store.contains_accept_room fun _ => hroom, not_or]
      refine ⟨Bool.eq_false_iff.mp (hnew y hy), fun heq => hother ?_⟩
      exact heq.1 ▸ List.mem_map_of_mem hy

/-- A pull takes over what the peer holds alive, and is refused nothing else. -/
theorem pull (h : Kept offered masterKey capacity d) (hroomy : Roomy offered capacity)
    (hopens : P.Opens) (hseals : P.Seals) {masterKey' : List UInt8} {capacity' : UInt32}
    (hpeer : Kept offered masterKey' capacity' peer) (now : UInt64) :
    ∃ answers d', FfiDurableStore.pull d peer now = .ok (answers, d') ∧
      Kept offered masterKey capacity d' ∧
      (∀ id, d'.memory.contains id = true ↔ d.memory.contains id = true ∨
        ∃ x, peer.memory.get id = some x ∧ x.Lives now) ∧
      ∀ answer ∈ answers, answer = .ok .new ∨ answer = .ok .expired := by
  let missing := peer.memory.missingFrom d.memory.summaryIds
  have hmissing : ∀ x ∈ missing, peer.memory.get x.id = some x ∧
      d.memory.contains x.id = false := fun x hx => by
    obtain ⟨hheld, hnew⟩ := Store.mem_missingFrom_iff.mp hx
    exact ⟨Store.mem_envelopes_iff.mp hheld, hnew⟩
  have hxs : ∀ x ∈ missing, x ∈ offered := fun x hx => hpeer.offered x.id x (hmissing x hx).1
  have hpull : FfiDurableStore.pull d peer now =
      .ok (FfiDurableStore.acceptAll now (missing.map Envelope.toBytes) d) := by
    rw [FfiDurableStore.pull, FfiDurableStore.missingFromHex, FfiDurableStore.summaryIdsHex,
      FfiStore.missingFromHex_summaryIdsHex]
    rfl
  obtain ⟨hkept, hcontains⟩ := acceptAll hroomy hopens hseals now hxs h
  refine ⟨_, _, hpull, hkept, fun id => (hcontains id).trans ?_, ?_⟩
  · constructor
    · rintro (hheld | ⟨x, hx, rfl, hlives⟩)
      · exact .inl hheld
      · exact .inr ⟨x, (hmissing x hx).1, hlives⟩
    · rintro (hheld | ⟨x, hx, hlives⟩)
      · exact .inl hheld
      · obtain rfl := Store.id_of_get hx
        cases hnew : d.memory.contains x.id with
        | true => exact .inl rfl
        | false =>
          refine .inr ⟨x, Store.mem_missingFrom_iff.mpr ⟨?_, hnew⟩, rfl, hlives⟩
          exact Store.mem_envelopes_iff.mpr hx
  · refine acceptAll_answers hroomy hopens hseals now hxs
      (fun x hx => hpeer.hops x.id x (hmissing x hx).1) ?_ (fun x hx => (hmissing x hx).2) h
    exact Store.nodup_envelopes.sublist (List.filter_sublist.map _)

end Kept

end Devices

section Network

open Gossip (spread)

variable {ι : Type} {masterKey : ι → List UInt8} {capacity : ι → UInt32}
  {store : ι → DurableStore P} {offered : List (Envelope P)} {id : EnvelopeId}

namespace SyncEvent

def offer (P : Primitives) : SyncEvent ι → Option (Envelope P)
  | .accept _ envelopeBytes _ => (Envelope.fromBytes P envelopeBytes).toOption
  | .purgeExpired _ _ | .reopen _ _ _ | .pull _ _ _ => none

def offers (P : Primitives) (events : List (SyncEvent ι)) : List (Envelope P) :=
  events.filterMap (offer P)

def effect (P : Primitives) (id : EnvelopeId) : SyncEvent ι → Option (Gossip.Event ι)
  | .accept node envelopeBytes _ =>
    match Envelope.fromBytes P envelopeBytes with
    | .ok x => if x.id = id ∧ x.ttlHops ≠ 0 then some (.arise node) else none
    | .error _ => none
  | .pull giver asker _ => some (.ask giver asker)
  | .purgeExpired _ _ | .reopen _ _ _ => none

def Lasts (offered : List (Envelope P)) (id : EnvelopeId) (now : UInt64) : Prop :=
  ∀ x ∈ offered, x.id = id → x.isExpired now = false

theorem Lasts.lives {masterKey : List UInt8} {capacity : UInt32} {d : DurableStore P}
    {x : Envelope P} {now : UInt64} (hlasts : Lasts offered id now)
    (h : Kept offered masterKey capacity d) (hx : d.memory.get id = some x) : x.Lives now :=
  ⟨hlasts x (h.offered id x hx) (Store.id_of_get hx), h.hops id x hx⟩

def holders (store : ι → DurableStore P) (id : EnvelopeId) : Set ι :=
  {node | (store node).memory.contains id = true}

variable [DecidableEq ι]

omit [DecidableEq ι] in
theorem mem_holders_iff {node : ι} :
    node ∈ holders store id ↔ ∃ x, (store node).memory.get id = some x := Store.contains_iff

theorem holders_update {node : ι} {d : DurableStore P} {gets : Prop}
    (h : d.memory.contains id = true ↔ (store node).memory.contains id = true ∨ gets) :
    holders (Function.update store node d) id =
      {other | other ∈ holders store id ∨ other = node ∧ gets} := by
  ext other
  by_cases hother : other = node
  · subst hother
    have hself : (Function.update store other d other).memory.contains id = true ↔
        (store other).memory.contains id = true ∨ gets := by
      rwa [Function.update_self]
    exact hself.trans (or_congr_right (and_iff_right rfl).symm)
  · have hsame : (Function.update store node d other).memory.contains id = true ↔
        (store other).memory.contains id = true := by
      rw [Function.update_of_ne hother]
    exact hsame.trans (or_iff_left fun h => hother h.1).symm

theorem holders_update_self {node : ι} {d : DurableStore P}
    (h : ∀ x, d.memory.get id = some x ↔ (store node).memory.get id = some x) :
    holders (Function.update store node d) id = holders store id := by
  have hcontains : d.memory.contains id = true ↔
      (store node).memory.contains id = true ∨ False := by
    rw [or_false, Store.contains_iff, Store.contains_iff]
    exact exists_congr h
  rw [holders_update hcontains]
  exact Set.ext fun other => or_iff_left fun hother => hother.2

theorem kept_update {node : ι} {d : DurableStore P}
    (h : ∀ node, Kept offered (masterKey node) (capacity node) (store node))
    (hd : Kept offered (masterKey node) (capacity node) d) (other : ι) :
    Kept offered (masterKey other) (capacity other) (Function.update store node d other) :=
  Function.forall_update_iff store (p := fun node d =>
    Kept offered (masterKey node) (capacity node) d) |>.mpr ⟨hd, fun other _ => h other⟩ other

theorem step_accept (hopens : P.Opens) (hseals : P.Seals)
    (hroomy : ∀ node, Roomy offered (capacity node))
    (h : ∀ node, Kept offered (masterKey node) (capacity node) (store node))
    (node : ι) (envelopeBytes : List UInt8) (now : UInt64)
    (hevent : ∀ x, Envelope.fromBytes P envelopeBytes = .ok x → x ∈ offered) :
    ∃ store', step masterKey capacity store (.accept node envelopeBytes now) = some store' ∧
      (∀ node, Kept offered (masterKey node) (capacity node) (store' node)) ∧
      ∀ id, Lasts offered id now → holders store' id =
        (effect P id (.accept node envelopeBytes now)).toList.foldl spread (holders store id) := by
  cases hparse : Envelope.fromBytes P envelopeBytes with
  | error err =>
    refine ⟨store, ?_, h, fun id _ => ?_⟩
    · rw [step, FfiDurableStore.accept, hparse]
      exact congrArg some (Function.update_eq_self node store)
    · rw [effect, hparse]
      rfl
  | ok x =>
    have hx := hevent x hparse
    obtain ⟨d', hrun, hkept, hmemory⟩ :=
      (h node).acceptBytes (hroomy node) hopens hseals hparse hx now
    refine ⟨_, ?_, kept_update h hkept, fun id hlasts => ?_⟩
    · rw [step, hrun]
      rfl
    · have hcontains : d'.memory.contains id = true ↔
          (store node).memory.contains id = true ∨ x.id = id ∧ x.Lives now := by
        rw [hmemory]
        exact Store.contains_accept_room fun hnew => (h node).room (hroomy node) hx hnew
      rw [holders_update hcontains, effect, hparse]
      dsimp only
      by_cases hgets : x.id = id ∧ x.ttlHops ≠ 0
      · have hlives : x.Lives now := ⟨hlasts x hx hgets.1, hgets.2⟩
        rw [if_pos hgets]
        ext other
        change other ∈ holders store id ∨ other = node ∧ _ ↔ other = node ∨ other ∈ holders store id
        rw [and_iff_left ⟨hgets.1, hlives⟩, or_comm]
      · rw [if_neg hgets]
        ext other
        exact or_iff_left fun hother => hgets ⟨hother.2.1, hother.2.2.2⟩

theorem step_purgeExpired
    (h : ∀ node, Kept offered (masterKey node) (capacity node) (store node))
    (node : ι) (now : UInt64) :
    ∃ store', step masterKey capacity store (.purgeExpired node now) = some store' ∧
      (∀ node, Kept offered (masterKey node) (capacity node) (store' node)) ∧
      ∀ id, Lasts offered id now → holders store' id = holders store id := by
  obtain ⟨n, d', hrun, hkept, hmemory⟩ := (h node).purgeExpired now
  have hafter : Method.after ((FfiDurableStore.purgeExpired now).run (store node)) = d' := by
    rw [FfiDurableStore.purgeExpired, Method.after_bind_pure, Method.run_mapErr_ok hrun]
    rfl
  refine ⟨_, congrArg (fun d => some (Function.update store node d)) hafter,
    kept_update h hkept, fun id hlasts => ?_⟩
  have hget : ((store node).memory.purgeExpired now).2.get id = (store node).memory.get id := by
    refine (Store.get_foldl_remove ((store node).memory.purgeExpired now).1).trans
      (if_neg fun hmem => ?_)
    obtain ⟨x, hx, hexp⟩ := (DurableStore.mem_purged _ now id).mp hmem
    cases (hlasts.lives (h node) hx).1.symm.trans hexp
  exact holders_update_self fun x => by rw [hmemory, hget]

theorem step_reopen (h : ∀ node, Kept offered (masterKey node) (capacity node) (store node))
    (node : ι) (nonces : List (Bytes 12)) (now : UInt64) :
    ∃ store', step masterKey capacity store (.reopen node nonces now) = some store' ∧
      (∀ node, Kept offered (masterKey node) (capacity node) (store' node)) ∧
      ∀ id, Lasts offered id now → holders store' id = holders store id := by
  obtain ⟨d', hopen, hkept, hget⟩ := (h node).reopen nonces now
  refine ⟨_, ?_, kept_update h hkept, fun id hlasts => ?_⟩
  · rw [step, hopen]
  refine holders_update_self fun x => ?_
  rw [hget, Option.filter_eq_some_iff]
  exact and_iff_left_of_imp fun hx => decide_eq_true (hlasts.lives (h node) hx)

theorem step_pull (hopens : P.Opens) (hseals : P.Seals)
    (hroomy : ∀ node, Roomy offered (capacity node))
    (h : ∀ node, Kept offered (masterKey node) (capacity node) (store node))
    (giver asker : ι) (now : UInt64) :
    ∃ store', step masterKey capacity store (.pull giver asker now) = some store' ∧
      (∀ node, Kept offered (masterKey node) (capacity node) (store' node)) ∧
      ∀ id, Lasts offered id now →
        holders store' id = spread (holders store id) (.ask giver asker) := by
  obtain ⟨answers, d', hpull, hkept, hcontains, -⟩ :=
    (h asker).pull (hroomy asker) hopens hseals (h giver) now
  refine ⟨_, ?_, kept_update h hkept, fun id hlasts => ?_⟩
  · rw [step, hpull]
  rw [holders_update (hcontains id)]
  have hgives : (∃ x, (store giver).memory.get id = some x ∧ x.Lives now) ↔
      giver ∈ holders store id := by
    rw [mem_holders_iff]
    exact exists_congr fun x => and_iff_left_of_imp fun hx => hlasts.lives (h giver) hx
  simp only [hgives]
  rfl

theorem step_kept (hopens : P.Opens) (hseals : P.Seals)
    (hroomy : ∀ node, Roomy offered (capacity node))
    (h : ∀ node, Kept offered (masterKey node) (capacity node) (store node))
    (event : SyncEvent ι) (hevent : ∀ x, event.offer P = some x → x ∈ offered) :
    ∃ store', step masterKey capacity store event = some store' ∧
      (∀ node, Kept offered (masterKey node) (capacity node) (store' node)) ∧
      ∀ id, Lasts offered id event.now →
        holders store' id = (event.effect P id).toList.foldl spread (holders store id) := by
  cases event with
  | accept node envelopeBytes now =>
    refine step_accept hopens hseals hroomy h node envelopeBytes now fun x hparse => hevent x ?_
    rw [offer, hparse]
    rfl
  | purgeExpired node now => exact step_purgeExpired h node now
  | reopen node nonces now => exact step_reopen h node nonces now
  | pull giver asker now => exact step_pull hopens hseals hroomy h giver asker now

theorem run_snoc (store : ι → DurableStore P) (events : List (SyncEvent ι)) (event : SyncEvent ι) :
    run masterKey capacity store (events ++ [event]) =
      (run masterKey capacity store events).bind fun store =>
        step masterKey capacity store event := by
  rw [run, run, List.foldlM_append]
  cases events.foldlM (step masterKey capacity) store with
  | none => rfl
  | some store => exact bind_pure (step masterKey capacity store event)

theorem run_kept (hopens : P.Opens) (hseals : P.Seals)
    (hroomy : ∀ node, Roomy offered (capacity node))
    (h : ∀ node, Kept offered (masterKey node) (capacity node) (store node))
    {events : List (SyncEvent ι)} (hevents : ∀ x ∈ offers P events, x ∈ offered) :
    ∃ store', run masterKey capacity store events = some store' ∧
      (∀ node, Kept offered (masterKey node) (capacity node) (store' node)) ∧
      ∀ id, (∀ event ∈ events, Lasts offered id event.now) →
        holders store' id = (events.filterMap (effect P id)).foldl spread (holders store id) := by
  induction events using List.reverseRecOn with
  | nil => exact ⟨store, rfl, h, fun id _ => rfl⟩
  | append_singleton events event ih =>
    have hold : ∀ x ∈ offers P events, x ∈ offered := fun x hx => hevents x (by
      rw [offers, List.filterMap_append]
      exact List.mem_append_left _ hx)
    have hnew : ∀ x, event.offer P = some x → x ∈ offered := fun x hx => hevents x
      (List.mem_filterMap.mpr ⟨event, List.mem_append_right _ List.mem_cons_self, hx⟩)
    obtain ⟨store₁, hrun, hkept, hholders⟩ := ih hold
    obtain ⟨store₂, hstep, hkept', hspread⟩ := step_kept hopens hseals hroomy hkept event hnew
    refine ⟨store₂, ?_, hkept', fun id hlasts => ?_⟩
    · rw [run_snoc, hrun]
      exact hstep
    · rw [hspread id (hlasts event (List.mem_append_right _ List.mem_cons_self)),
        hholders id fun event hmem => hlasts event (List.mem_append_left _ hmem),
        List.filterMap_append, List.foldl_append]
      cases heffect : effect P id event with
      | none => rw [List.filterMap_cons_none heffect]; rfl
      | some effect => rw [List.filterMap_cons_some heffect]; rfl

omit [DecidableEq ι] in
theorem parsed_of_offer {event : SyncEvent ι} {x : Envelope P} (h : event.offer P = some x) :
    Envelope.fromBytes P x.toBytes = .ok x := by
  cases event with
  | accept node envelopeBytes now =>
    rw [offer] at h
    cases hparse : Envelope.fromBytes P envelopeBytes with
    | error err =>
      rw [hparse] at h
      cases h
    | ok y =>
      rw [hparse] at h
      cases h
      exact Envelope.fromBytes_again hparse
  | purgeExpired | reopen | pull => cases h

omit [DecidableEq ι] in
theorem kept_openStore {d : DurableStore P} {nonces : List (Bytes 12)} {masterKey : List UInt8}
    {capacity : UInt32} {opened : UInt64}
    (h : FfiDurableStore.openStore P { table := ∅, faults := [] } nonces masterKey capacity opened =
      .ok d) : Kept offered masterKey capacity d ∧ ∀ id, d.memory.get id = none := by
  rw [FfiDurableStore.openStore] at h
  split at h
  · next hkey =>
    let disk : EncryptedStore :=
      { db := { table := ∅, faults := [] }, masterKey := ⟨masterKey, hkey⟩, nonces := nonces }
    have hsound : disk.Sound := rfl
    have hempty : disk.table = ∅ := rfl
    obtain ⟨d', hrun, hintact, hcapacity⟩ : ∃ d' : DurableStore P,
        (DurableStore.openStore opened).run ⟨Store.new P capacity.toNat, disk⟩ = .ok () d' ∧
          d'.Intact ∧ d'.memory.capacity = capacity.toNat :=
      DurableStore.intact_openStore hsound hempty capacity.toNat opened
    have hmemory : d'.memory = Store.new P capacity.toNat := memory_openStore rfl hrun
    have hkey : d'.disk.masterKey.1 = masterKey :=
      DurableStore.masterKey_of_keyed (fun _ => DurableStore.keyed_openStore opened) hrun
    have hnone : ∀ id, d'.memory.get id = none := by
      rw [hmemory]
      exact fun id => rfl
    rw [hrun] at h
    obtain rfl : d' = d := Except.ok.inj h
    refine ⟨⟨hintact, hkey, hcapacity, fun id x hx => ?_, fun id x hx => ?_⟩, hnone⟩
    · cases (hnone id).symm.trans hx
    · cases (hnone id).symm.trans hx
  · cases h

/-- Between devices that exchange summaries and opened new files, with room for all that is
offered, an id that lasts is where some of the offers and pulls took it, one after another,
whatever is purged or opened again in between; and a pull is refused nothing but what has
expired. -/
theorem pulls_spread (hopens : P.Opens) (hseals : P.Seals) {nonces : ι → List (Bytes 12)}
    {opened : ι → UInt64}
    (hopen : ∀ node, FfiDurableStore.openStore P { table := ∅, faults := [] } (nonces node)
      (masterKey node) (capacity node) (opened node) = .ok (store node))
    (events : List (SyncEvent ι))
    (hroom : ∀ node, ((offers P events).map Envelope.id).toFinset.card ≤ (capacity node).toNat) :
    ∃ store', run masterKey capacity store events = some store' ∧
      (∀ id, (∀ event ∈ events, Lasts (offers P events) id event.now) → ∀ node,
        FfiDurableStore.containsHex (store' node) id.toHex = .ok true ↔
          ∃ path, path.Sublist (events.filterMap (effect P id)) ∧ Gossip.Path path node) ∧
      ∀ giver asker now, ∃ answers d,
        FfiDurableStore.pull (store' asker) (store' giver) now = .ok (answers, d) ∧
          ∀ answer ∈ answers, answer = .ok .new ∨ answer = .ok .expired := by
  have hroomy : ∀ node, Roomy (offers P events) (capacity node) := by
    refine fun node => ⟨fun x hx => ?_, hroom node⟩
    obtain ⟨event, -, hoffer⟩ := List.mem_filterMap.mp hx
    exact parsed_of_offer hoffer
  have hfresh : ∀ node, Kept (offers P events) (masterKey node) (capacity node) (store node) ∧
      ∀ id, (store node).memory.get id = none := fun node => kept_openStore (hopen node)
  obtain ⟨store', hrun, hkept, hholders⟩ :=
    run_kept hopens hseals hroomy (fun node => (hfresh node).1) fun x hx => hx
  refine ⟨store', hrun, fun id hlasts node => ?_, fun giver asker now => ?_⟩
  · have hnone : holders store id = ∅ := Set.eq_empty_iff_forall_notMem.mpr fun node hnode => by
      obtain ⟨x, hx⟩ := mem_holders_iff.mp hnode
      cases ((hfresh node).2 id).symm.trans hx
    have hset := hholders id hlasts
    rw [hnone] at hset
    rw [FfiDurableStore.containsHex, FfiStore.containsHex_toHex, Except.ok.injEq,
      ← Gossip.mem_foldl_spread_iff, ← hset]
    rfl
  · obtain ⟨answers, d, hpull, -, -, hanswers⟩ :=
      (hkept asker).pull (hroomy asker) hopens hseals (hkept giver) now
    exact ⟨answers, d, hpull, hanswers⟩

section Examples

def toySync : List (SyncEvent Bool) :=
  [.accept false (toyEnvelope 3).toBytes 5, .reopen false [] 6, .pull false true 7,
    .purgeExpired true 8]

theorem parsed_toyEnvelope :
    Envelope.fromBytes toyPrimitives (toyEnvelope 3).toBytes = .ok (toyEnvelope 3) := by
  rw [Envelope.fromBytes_toBytes]
  exact if_pos (by decide)

theorem offers_toySync : offers toyPrimitives toySync = [toyEnvelope 3] := by
  simp only [offers, toySync, offer, parsed_toyEnvelope, List.filterMap_cons, List.filterMap_nil,
    Except.toOption]

theorem effect_toySync : toySync.filterMap (effect toyPrimitives (toyEnvelope 3).id) =
    [.arise false, .ask false true] := by
  have hhops : (toyEnvelope 3).ttlHops ≠ 0 := by decide
  simp only [toySync, effect, parsed_toyEnvelope, List.filterMap_cons, List.filterMap_nil,
    ne_eq, hhops, not_false_eq_true, and_self, if_true]

theorem pulls_spread_toySync : ∃ store' : Bool → DurableStore toyPrimitives,
    run (fun _ => List.replicate 32 1) (fun _ => 10) (fun _ => toyStore) toySync = some store' ∧
      FfiDurableStore.containsHex (store' true) (toyEnvelope 3).id.toHex = .ok true := by
  have hopen : ∀ _ : Bool, FfiDurableStore.openStore toyPrimitives { table := ∅, faults := [] } []
      (List.replicate 32 1) 10 5 = .ok toyStore := fun _ => rfl
  have hroom : ∀ _ : Bool, ((offers toyPrimitives toySync).map Envelope.id).toFinset.card ≤
      (10 : UInt32).toNat := fun _ => by
    rw [offers_toySync]
    decide
  have hlasts : ∀ event ∈ toySync,
      Lasts (offers toyPrimitives toySync) (toyEnvelope 3).id event.now := by
    intro event hevent x hx _
    rw [offers_toySync, List.mem_singleton] at hx
    subst hx
    revert event
    decide
  obtain ⟨store', hrun, hspread, -⟩ := pulls_spread opens_toyPrimitives
    DurableStore.seals_toyPrimitives hopen toySync hroom
  refine ⟨store', hrun, (hspread _ hlasts true).mpr ⟨_, List.Sublist.refl _, ?_⟩⟩
  rw [effect_toySync]
  exact (.ask .arise : Gossip.Path ([.arise false] ++ [.ask false true]) true)

end Examples

end SyncEvent

end Network

end ProjectMesh.Routing
