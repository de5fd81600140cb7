import ProjectMesh.Routing.DeadTraffic
import ProjectMesh.Routing.EnvelopeIdentity

namespace ProjectMesh.Routing

open ProjectMesh.Lib

variable {P : Primitives}

/-- Encryption takes whatever ChaCha20 has key stream for. -/
def Primitives.Seals (P : Primitives) : Prop :=
  ∀ key nonce associatedData plaintext, plaintext.length < 2 ^ 38 - 64 →
    (P.chachaEncrypt key nonce associatedData plaintext).isSome

/-- Encryption adds its tag and nothing else. -/
def Primitives.Tags (P : Primitives) : Prop :=
  ∀ key nonce associatedData plaintext ciphertext,
    P.chachaEncrypt key nonce associatedData plaintext = some ciphertext →
    ciphertext.length = plaintext.length + 16

namespace EncryptedStore

variable {s : EncryptedStore} {e : Envelope P} {id id' : EnvelopeId}

theorem sealing_ok (hseals : P.Seals) (h : e.sealed.length < 2 ^ 32) (s : EncryptedStore) :
    ∃ sealed, s.sealing e = .ok sealed := by
  have hlength : e.toBytes.length < 2 ^ 38 - 64 := by
    have hle := ContactMessage.length_toBytes_le (e := e)
    omega
  obtain ⟨ciphertext, hsome⟩ := Option.isSome_iff_exists.mp
    (hseals s.masterKey s.nonce e.id.bytes.1 e.toBytes hlength)
  refine ⟨s.nonce.1 ++ ciphertext, ?_⟩
  rw [sealing, aeadSeal, hsome]

theorem length_lt_of_sealing (htags : P.Tags) {sealed : List UInt8}
    (h : s.sealing e = .ok sealed) : e.sealed.length < sealed.length := by
  rw [sealing, aeadSeal] at h
  split at h
  · next ciphertext hencrypt =>
    cases h
    have hlength := htags _ _ _ _ _ hencrypt
    have hbody : e.sealed.length ≤ e.toBytes.length := by
      simp only [Envelope.toBytes, Envelope.encodeBody, List.length_append, List.length_cons]
      omega
    rw [List.length_append, hlength, s.nonce.2]
    omega
  · cases h

theorem record_holding : (s.holding s.table).record P id = s.record P id := record_congr rfl rfl

theorem record_erase :
    (s.holding (s.table.erase id.bytes.1)).record P id' =
      if id' = id then .ok none else s.record P id' := by
  split
  · next h =>
    subst h
    exact record_absent (AList.lookup_erase _ _)
  · next h =>
    exact record_congr rfl (Assoc.lookup_erase_of_ne fun hkey => h (key_injective hkey))

theorem record_insert (hopens : P.Opens) {sealed : List UInt8} (hseal : s.sealing e = .ok sealed) :
    (s.drawn.holding (s.table.insert e.id.bytes.1 sealed)).record P id =
      if id = e.id then some <$> Envelope.fromBytes P e.toBytes else s.record P id := by
  split
  · next h =>
    subst h
    exact record_of_sealing (s := s) hopens rfl hseal (AList.lookup_insert _)
  · next h =>
    exact record_congr rfl (Assoc.lookup_insert_of_ne fun hkey => h (key_injective hkey))

end EncryptedStore

namespace Store

variable {s : Store P} {e : Envelope P} {id id' : EnvelopeId}

theorem get_insert_eq : (s.insert e).get id = if id = e.id then some e else s.get id := by
  split
  · next h =>
    subst h
    exact get_insert_self
  · next h => exact get_insert_of_ne h

theorem get_remove_eq : (s.remove id').get id = if id = id' then none else s.get id := by
  split
  · next h =>
    subst h
    exact get_remove_self
  · next h => exact get_remove_of_ne h

@[simp] theorem capacity_foldl_remove (ids : List EnvelopeId) :
    (ids.foldl remove s).capacity = s.capacity := by
  induction ids generalizing s with
  | nil => rfl
  | cons id ids ih => exact ih

theorem get_foldl_remove (ids : List EnvelopeId) :
    (ids.foldl remove s).get id = if id ∈ ids then none else s.get id := by
  induction ids generalizing s with
  | nil => rfl
  | cons id' ids ih =>
    rw [List.foldl_cons, ih, get_remove_eq]
    by_cases hmem : id ∈ ids
    · rw [if_pos hmem, if_pos (List.mem_cons_of_mem _ hmem)]
    · rw [if_neg hmem]
      by_cases heq : id = id'
      · rw [if_pos heq, if_pos (heq ▸ List.mem_cons_self)]
      · rw [if_neg heq, if_neg fun h => (List.mem_cons.mp h).elim heq hmem]

theorem Bounded.insert (hdup : s.contains e.id = false) (hroom : s.len < s.capacity) :
    (s.insert e).Bounded := (len_insert hdup).trans_le hroom

end Store

namespace DurableStore

variable {d : DurableStore P} {id : EnvelopeId} {rest : List EnvelopeId} {x e : Envelope P}

/-- Index and disk hold the same ids and the same envelopes. -/
structure Mirrors (d : DurableStore P) : Prop where
  bounded : d.memory.Bounded
  ids : ∀ key, key ∈ d.disk.table ↔ ∃ id, d.memory.contains id = true ∧ id.bytes.1 = key
  records : ∀ id x, d.memory.get id = some x → d.disk.record P id = .ok (some x)

/-- Index and disk agree but for the records of `rest`, which the index does not hold yet. -/
structure Agrees (rest : List EnvelopeId) (d : DurableStore P) : Prop where
  bounded : d.memory.Bounded
  tidy : ∀ key ∈ d.disk.table, key.length = 32
  records : ∀ id, id ∉ rest → d.disk.record P id = .ok (d.memory.get id)
  unread : ∀ id ∈ rest, d.memory.get id = none
  named : ∀ id x, d.disk.record P id = .ok (some x) → x.id = id

theorem mirrors_iff : d.Mirrors ↔ d.Agrees [] := by
  constructor
  · intro h
    have hrecord : ∀ id, d.disk.record P id = .ok (d.memory.get id) := by
      intro id
      cases hget : d.memory.get id with
      | some x => exact h.records id x hget
      | none =>
        refine EncryptedStore.record_eq_none_iff.mpr fun hmem => ?_
        obtain ⟨id', hheld, hkey⟩ := (h.ids _).mp hmem
        obtain ⟨x, hx⟩ := Store.contains_iff.mp hheld
        rw [EncryptedStore.key_injective hkey, hget] at hx
        cases hx
    refine ⟨h.bounded, fun key hkey => ?_, fun id _ => hrecord id, nofun, fun id x hx => ?_⟩
    · obtain ⟨id, -, rfl⟩ := (h.ids key).mp hkey
      exact id.bytes.2
    · rw [hrecord id] at hx
      exact Store.id_of_get (Except.ok.inj hx)
  · intro h
    have hrecord : ∀ id, d.disk.record P id = .ok (d.memory.get id) :=
      fun id => h.records id List.not_mem_nil
    refine ⟨h.bounded, fun key => ⟨fun hkey => ?_, ?_⟩, fun id x hx => ?_⟩
    · refine ⟨⟨⟨key, h.tidy key hkey⟩⟩, ?_, rfl⟩
      refine Bool.not_eq_false _ ▸ fun hnone => ?_
      rw [Store.contains_eq_false_iff] at hnone
      have habsent := (hrecord _).trans (congrArg Except.ok hnone)
      exact EncryptedStore.record_eq_none_iff.mp habsent hkey
    · rintro ⟨id, hheld, rfl⟩
      obtain ⟨x, hx⟩ := Store.contains_iff.mp hheld
      refine Decidable.not_not.mp fun hmem => ?_
      have habsent := EncryptedStore.record_eq_none_iff (P := P).mpr hmem
      rw [hrecord id, hx] at habsent
      cases habsent
    · rw [hrecord id, hx]

namespace Agrees

theorem evict (h : d.Agrees rest) (id : EnvelopeId) :
    Agrees rest ⟨d.memory.remove id, d.disk.holding (d.disk.table.erase id.bytes.1)⟩ where
  bounded := h.bounded.remove id
  tidy key hkey := h.tidy key (AList.mem_erase.mp hkey).2
  records id' hid' := by
    rw [EncryptedStore.record_erase, Store.get_remove_eq]
    split
    · rfl
    · exact h.records id' hid'
  unread id' hid' := by
    rw [Store.get_remove_eq, h.unread id' hid', ite_self]
  named id' x hx := by
    rw [EncryptedStore.record_erase] at hx
    split at hx
    · cases hx
    · exact h.named id' x hx

theorem drop (h : d.Agrees (id :: rest)) :
    Agrees rest ⟨d.memory, d.disk.holding (d.disk.table.erase id.bytes.1)⟩ where
  bounded := h.bounded
  tidy key hkey := h.tidy key (AList.mem_erase.mp hkey).2
  records id' hid' := by
    rw [EncryptedStore.record_erase]
    split
    · next heq => rw [heq, h.unread id List.mem_cons_self]
    · next hne => exact h.records id' fun hmem => hid' ((List.mem_cons.mp hmem).resolve_left hne)
  unread id' hid' := h.unread id' (List.mem_cons_of_mem _ hid')
  named id' x hx := by
    rw [EncryptedStore.record_erase] at hx
    split at hx
    · cases hx
    · exact h.named id' x hx

theorem skip (h : d.Agrees (id :: rest)) (hrecord : d.disk.record P id = .ok none) :
    Agrees rest ⟨d.memory, d.disk.holding d.disk.table⟩ where
  bounded := h.bounded
  tidy := h.tidy
  records id' hid' := by
    rw [EncryptedStore.record_holding]
    by_cases heq : id' = id
    · rw [heq, hrecord, h.unread id List.mem_cons_self]
    · exact h.records id' fun hmem => hid' ((List.mem_cons.mp hmem).resolve_left heq)
  unread id' hid' := h.unread id' (List.mem_cons_of_mem _ hid')
  named id' x hx := h.named id' x (EncryptedStore.record_holding ▸ hx)

theorem load (h : d.Agrees (id :: rest)) (hid : id ∉ rest)
    (hrecord : d.disk.record P id = .ok (some x)) (hroom : d.memory.len < d.memory.capacity) :
    Agrees rest ⟨d.memory.insert x, d.disk.holding d.disk.table⟩ where
  bounded := by
    refine Store.Bounded.insert (Store.contains_eq_false_iff.mpr ?_) hroom
    rw [h.named id x hrecord]
    exact h.unread id List.mem_cons_self
  tidy := h.tidy
  records id' hid' := by
    rw [EncryptedStore.record_holding, Store.get_insert_eq, h.named id x hrecord]
    split
    · next heq => rw [heq, hrecord]
    · next hne => exact h.records id' fun hmem => hid' ((List.mem_cons.mp hmem).resolve_left hne)
  unread id' hid' := by
    have hne : id' ≠ id := fun heq => hid (heq ▸ hid')
    rw [Store.get_insert_eq, h.named id x hrecord, if_neg hne]
    exact h.unread id' (List.mem_cons_of_mem _ hid')
  named id' x' hx := h.named id' x' (EncryptedStore.record_holding ▸ hx)

theorem store (h : d.Agrees []) (hopens : P.Opens) {sealed : List UInt8}
    (hseal : d.disk.sealing e = .ok sealed) (hlt : e.sealed.length < 2 ^ 32)
    (hdup : d.memory.contains e.id = false) (hroom : d.memory.len < d.memory.capacity) :
    Agrees [] ⟨d.memory.insert e,
      d.disk.drawn.holding (d.disk.table.insert e.id.bytes.1 sealed)⟩ where
  bounded := Store.Bounded.insert hdup hroom
  tidy key hkey := by
    rcases (AList.mem_insert _).mp hkey with rfl | hkey
    · exact e.id.bytes.2
    · exact h.tidy key hkey
  records id hid := by
    rw [EncryptedStore.record_insert hopens hseal, Store.get_insert_eq,
      Envelope.fromBytes_toBytes, if_pos hlt]
    split
    · rfl
    · exact h.records id hid
  unread := nofun
  named id x hx := by
    rw [EncryptedStore.record_insert hopens hseal, Envelope.fromBytes_toBytes, if_pos hlt] at hx
    split at hx
    · next heq =>
      cases hx
      exact heq.symm
    · exact h.named id x hx

end Agrees

section Reload

variable {now : UInt64}

inductive Reloaded (d : DurableStore P) (now : UInt64) (id : EnvelopeId) : DurableStore P → Prop
  | unreadable {err} : d.disk.record P id = .error err →
    Reloaded d now id ⟨d.memory, d.disk.holding (d.disk.table.erase id.bytes.1)⟩
  | absent : d.disk.record P id = .ok none →
    Reloaded d now id ⟨d.memory, d.disk.holding d.disk.table⟩
  | dropped {y} : d.disk.record P id = .ok (some y) →
    (y.isExpired now = false → y.ttlHops ≠ 0 → d.memory.capacity ≤ d.memory.len) →
    Reloaded d now id ⟨d.memory, d.disk.holding (d.disk.table.erase id.bytes.1)⟩
  | loaded {y} : d.disk.record P id = .ok (some y) → y.isExpired now = false → y.ttlHops ≠ 0 →
    d.memory.len < d.memory.capacity →
    Reloaded d now id ⟨d.memory.insert y, d.disk.holding d.disk.table⟩
  | replaced {y worst} : d.disk.record P id = .ok (some y) →
    d.memory.capacity ≤ d.memory.len → d.memory.worstEntry = some worst →
    (d.memory.remove worst.1).len < d.memory.capacity →
    Reloaded d now id ⟨(d.memory.remove worst.1).insert y,
      d.disk.holding (d.disk.table.erase worst.1.bytes.1)⟩

theorem reload_run (hsound : d.disk.Sound) (h : d.Agrees (id :: rest)) (now : UInt64) :
    ∃ d', (reload now id).run d = .ok () d' ∧ Reloaded d now id d' := by
  have hget := hsound.get_run (P := P) id
  have hremove : ∀ (memory : Store P) (victim : EnvelopeId),
      (onDisk (EncryptedStore.remove victim)).run ⟨memory, d.disk.holding d.disk.table⟩ =
        .ok () ⟨memory, d.disk.holding (d.disk.table.erase victim.bytes.1)⟩ :=
    fun memory victim => onDisk_run (EncryptedStore.sound_holding.remove_run victim)
  cases hrecord : d.disk.record P id with
  | error err =>
    rw [hrecord] at hget
    refine ⟨_, reload_unreadable hget, ?_⟩
    rw [EncryptedStore.sound_holding.remove_run]
    exact .unreadable hrecord
  | ok found =>
    rw [hrecord] at hget
    cases found with
    | none => exact ⟨_, reload_absent hget, .absent hrecord⟩
    | some x =>
      have hid : x.id = id := h.named id x hrecord
      have hnew : d.memory.contains x.id = false :=
        Store.contains_eq_false_iff.mpr (hid ▸ h.unread id List.mem_cons_self)
      have hoffered := d.memory.accept_offered x now
      generalize hresult : d.memory.accept x now = result at hoffered
      cases hoffered with
      | duplicate hdup =>
        rw [hnew] at hdup
        cases hdup
      | expired _ hexp =>
        refine ⟨_, (reload_turnedAway hget hresult (by decide)).trans (hremove _ id),
          .dropped hrecord fun hlive => ?_⟩
        rw [hexp] at hlive
        cases hlive
      | ttlExhausted _ _ httl =>
        exact ⟨_, (reload_turnedAway hget hresult (by decide)).trans (hremove _ id),
          .dropped hrecord fun _ hhops => absurd httl hhops⟩
      | refused _ _ _ hfull =>
        exact ⟨_, (reload_turnedAway hget hresult (by decide)).trans (hremove _ id),
          .dropped hrecord fun _ _ => hfull⟩
      | overfull _ _ _ hworst _ hover =>
        exact absurd hover (Store.Offered.not_overfull h.bounded hworst)
      | new _ hexp httl hroom =>
        exact ⟨_, reload_new hget hresult, .loaded hrecord hexp httl hroom⟩
      | @replaced worst _ _ _ hfull hworst _ hroom =>
        exact ⟨_, (reload_evicting hget hresult).trans (hremove _ worst.1),
          .replaced hrecord hfull hworst hroom⟩

theorem Reloaded.agrees {d' : DurableStore P} (hreloaded : Reloaded d now id d')
    (h : d.Agrees (id :: rest)) (hid : id ∉ rest) :
    d'.Agrees rest ∧ d'.disk.Sound ∧ d'.memory.capacity = d.memory.capacity ∧
      (∀ id x, d'.disk.record P id = .ok (some x) → d.disk.record P id = .ok (some x)) ∧
      ∀ id x, d'.memory.get id = some x →
        d.memory.get id = some x ∨ d.disk.record P id = .ok (some x) := by
  have herase : ∀ (victim id : EnvelopeId) (x : Envelope P),
      (d.disk.holding (d.disk.table.erase victim.bytes.1)).record P id = .ok (some x) →
        d.disk.record P id = .ok (some x) := by
    intro victim id x hx
    rw [EncryptedStore.record_erase] at hx
    split at hx
    · cases hx
    · exact hx
  cases hreloaded with
  | unreadable | dropped =>
    exact ⟨h.drop, EncryptedStore.sound_holding, rfl, herase id, fun id x => .inl⟩
  | absent hrecord =>
    refine ⟨h.skip hrecord, EncryptedStore.sound_holding, rfl, fun id x hx => ?_, fun id x => .inl⟩
    exact EncryptedStore.record_holding ▸ hx
  | loaded hrecord hexp httl hroom =>
    refine ⟨h.load hid hrecord hroom, EncryptedStore.sound_holding, rfl, fun id x hx => ?_, ?_⟩
    · exact EncryptedStore.record_holding ▸ hx
    · intro id' x' hx
      rw [Store.get_insert_eq, h.named id _ hrecord] at hx
      split at hx
      · next heq =>
        rw [heq, hrecord, ← hx]
        exact .inr rfl
      · exact .inl hx
  | @replaced x worst hrecord hfull hworst hroom =>
    have hevicted := h.evict worst.1
    have hrecord' : (d.disk.holding (d.disk.table.erase worst.1.bytes.1)).record P id =
        .ok (some x) := by
      have hne : id ≠ worst.1 := by
        rintro rfl
        have hheld := Store.contains_worstEntry hworst
        rw [Store.contains_eq_false_iff.mpr (h.unread _ List.mem_cons_self)] at hheld
        cases hheld
      rw [EncryptedStore.record_erase, if_neg hne, hrecord]
    refine ⟨hevicted.load hid hrecord' hroom, EncryptedStore.sound_holding, rfl, ?_, ?_⟩
    · exact herase worst.1
    · intro id' x' hx
      rw [Store.get_insert_eq, h.named id _ hrecord] at hx
      split at hx
      · next heq =>
        rw [heq, hrecord, ← hx]
        exact .inr rfl
      · exact .inl (Store.get_remove hx)

theorem reloadAll_run {ids : List EnvelopeId} (hnodup : ids.Nodup) (hsound : d.disk.Sound)
    (h : d.Agrees ids) (now : UInt64) :
    ∃ d', (reloadAll now ids).run d = .ok () d' ∧ d'.Agrees [] ∧ d'.disk.Sound ∧
      d'.memory.capacity = d.memory.capacity ∧
      ∀ id x, d'.memory.get id = some x →
        d.memory.get id = some x ∨ d.disk.record P id = .ok (some x) := by
  induction ids generalizing d with
  | nil => exact ⟨d, rfl, h, hsound, rfl, fun id x => .inl⟩
  | cons id ids ih =>
    obtain ⟨hid, hnodup⟩ := List.nodup_cons.mp hnodup
    obtain ⟨d₁, hrun, hreloaded⟩ := reload_run hsound h now
    obtain ⟨hagrees, hsound₁, hcapacity, hrecords, hget⟩ := hreloaded.agrees h hid
    obtain ⟨d', hrun', hagrees', hsound', hcapacity', hget'⟩ := ih hnodup hsound₁ hagrees
    refine ⟨d', ?_, hagrees', hsound', hcapacity'.trans hcapacity, fun id x hx => ?_⟩
    · exact Method.run_bind_ok.mpr ⟨(), d₁, hrun, hrun'⟩
    · rcases hget' id x hx with hx | hx
      · exact hget id x hx
      · exact .inr (hrecords id x hx)

theorem openStore_eq_reloadAll {disk : EncryptedStore} (hsound : disk.Sound) (memory : Store P)
    (now : UInt64) :
    (openStore now).run ⟨memory, disk⟩ = (reloadAll now (EncryptedStore.idsOf disk.table)).run
      ⟨memory, disk.holding disk.table⟩ := by
  rw [openStore, EStateM.run_bind, onDisk_run hsound.init_run]
  dsimp only
  rw [EStateM.run_bind, onDisk_run EncryptedStore.sound_holding.allIds_run]
  rfl

theorem agrees_idsOf {disk : EncryptedStore} (htidy : ∀ key ∈ disk.table, key.length = 32)
    (hnamed : ∀ id (x : Envelope P), disk.record P id = .ok (some x) → x.id = id)
    (capacity : Nat) :
    Agrees (EncryptedStore.idsOf disk.table)
      ⟨Store.new P capacity, disk.holding disk.table⟩ := by
  refine ⟨Nat.zero_le _, htidy, fun id hid => ?_, fun id _ => rfl, fun id x hx => ?_⟩
  · rw [EncryptedStore.mem_idsOf] at hid
    exact EncryptedStore.record_eq_none_iff.mpr hid
  · exact hnamed id x (EncryptedStore.record_holding ▸ hx)

theorem openStore_run {disk : EncryptedStore} (hsound : disk.Sound)
    (htidy : ∀ key ∈ disk.table, key.length = 32)
    (hnamed : ∀ id (x : Envelope P), disk.record P id = .ok (some x) → x.id = id)
    (capacity : Nat) (now : UInt64) :
    ∃ d', (openStore now).run ⟨Store.new P capacity, disk⟩ = .ok () d' ∧ d'.Agrees [] ∧
      d'.disk.Sound ∧ d'.memory.capacity = capacity ∧
      ∀ id x, d'.memory.get id = some x → disk.record P id = .ok (some x) := by
  obtain ⟨d', hrun, hagrees, hsound', hcapacity, hget⟩ := reloadAll_run
    (EncryptedStore.nodup_idsOf disk.table) EncryptedStore.sound_holding
    (agrees_idsOf htidy hnamed capacity) now
  refine ⟨d', (openStore_eq_reloadAll hsound _ now).trans hrun, hagrees, hsound', hcapacity,
    fun id x hx => ?_⟩
  rcases hget id x hx with hx | hx
  · cases hx
  · exact EncryptedStore.record_holding ▸ hx

end Reload

section Operations

variable {now : UInt64} {memory : Store P} {victim : EnvelopeId} {sealed : List UInt8}

theorem accept_run_new (hsound : d.disk.Sound) (h : d.memory.accept e now = ((.new, none), memory))
    (hseal : d.disk.sealing e = .ok sealed) :
    (accept e now).run d = .ok .new ⟨memory,
      d.disk.drawn.holding (d.disk.table.insert e.id.bytes.1 sealed)⟩ := by
  have hput : (onDisk (EncryptedStore.put P e)).run ⟨memory, d.disk⟩ = _ :=
    onDisk_run (hsound.put_run hseal)
  simp only [accept, EStateM.run_bind, EStateM.run_get, h, EStateM.run_set, if_true, hput,
    EStateM.run_pure]

/-- A put that fails leaves the envelope in the index. -/
theorem accept_run_unput (h : d.memory.accept e now = ((.new, none), memory))
    (hseal : d.disk.sealing e = .ok sealed) (hfails : d.disk.WriteFails) :
    ∃ err disk, (accept e now).run d = .error (.err err) ⟨memory, disk⟩ := by
  obtain ⟨err, hput⟩ := EncryptedStore.put_error hfails hseal
  refine ⟨err, d.disk.drawn.next d.disk.table, ?_⟩
  simp only [accept, EStateM.run_bind, EStateM.run_get, h, EStateM.run_set, if_true,
    onDisk_error hput]

theorem accept_run_replaced (hsound : d.disk.Sound)
    (h : d.memory.accept e now = ((.new, some victim), memory))
    (hseal : d.disk.sealing e = .ok sealed) :
    (accept e now).run d = .ok .new ⟨memory, d.disk.drawn.holding
      ((d.disk.table.erase victim.bytes.1).insert e.id.bytes.1 sealed)⟩ := by
  have hremove : (onDisk (EncryptedStore.remove victim)).run ⟨memory, d.disk⟩ = _ :=
    onDisk_run (hsound.remove_run victim)
  have hput : (onDisk (EncryptedStore.put P e)).run
      ⟨memory, d.disk.holding (d.disk.table.erase victim.bytes.1)⟩ = _ :=
    onDisk_run (EncryptedStore.sound_holding.put_run hseal)
  simp only [accept, EStateM.run_bind, EStateM.run_get, h, EStateM.run_set, if_true, hremove, hput,
    EStateM.run_pure]
  rfl

/-- The record of the envelope can be made, and reads as the envelope. -/
def Storable (d : DurableStore P) (e : Envelope P) : Prop :=
  ∃ sealed, d.disk.sealing e = .ok sealed ∧ e.sealed.length < 2 ^ 32

theorem storable_of_length (hseals : P.Seals) (h : e.sealed.length < 2 ^ 32)
    (d : DurableStore P) : d.Storable e := by
  obtain ⟨sealed, hseal⟩ := EncryptedStore.sealing_ok hseals h d.disk
  exact ⟨sealed, hseal, h⟩

theorem Agrees.accept (h : d.Agrees []) (hsound : d.disk.Sound) (hopens : P.Opens)
    (now : UInt64) (hstorable : (d.memory.accept e now).1.1 = .new → d.Storable e) :
    ∃ disk, (accept e now).run d =
        .ok (d.memory.accept e now).1.1 ⟨(d.memory.accept e now).2, disk⟩ ∧
      Agrees [] ⟨(d.memory.accept e now).2, disk⟩ ∧ disk.Sound := by
  have hoffered := d.memory.accept_offered e now
  generalize hresult : d.memory.accept e now = result at hoffered hstorable
  cases hoffered with
  | duplicate | expired | ttlExhausted | refused =>
    exact ⟨d.disk, accept_run_untouched hresult nofun, h, hsound⟩
  | overfull _ _ _ hworst _ hover =>
    exact absurd hover (Store.Offered.not_overfull h.bounded hworst)
  | new hdup _ _ hroom =>
    obtain ⟨sealed, hseal, hlt⟩ := hstorable rfl
    exact ⟨_, accept_run_new hsound hresult hseal, h.store hopens hseal hlt hdup hroom,
      EncryptedStore.sound_holding⟩
  | @replaced worst hdup _ _ _ hworst _ hroom =>
    obtain ⟨sealed, hseal, hlt⟩ := hstorable rfl
    have hdup' := Store.contains_remove_of hdup worst.1
    exact ⟨_, accept_run_replaced hsound hresult hseal,
      (h.evict worst.1).store hopens hseal hlt hdup' hroom, EncryptedStore.sound_holding⟩

theorem Agrees.removeAll {disk : EncryptedStore} {s : Store P} (h : Agrees [] ⟨s, disk⟩)
    (hsound : disk.Sound) (ids : List EnvelopeId) (memory : Store P) :
    ∃ disk', (removeAll ids).run ⟨memory, disk⟩ = .ok () ⟨memory, disk'⟩ ∧
      Agrees [] ⟨ids.foldl Store.remove s, disk'⟩ ∧ disk'.Sound := by
  induction ids generalizing disk s with
  | nil => exact ⟨disk, rfl, h, hsound⟩
  | cons id ids ih =>
    obtain ⟨disk', hrun, hagrees, hsound'⟩ := ih (h.evict id) EncryptedStore.sound_holding
    refine ⟨disk', ?_, hagrees, hsound'⟩
    exact Method.run_bind_ok.mpr ⟨(), _, onDisk_run (hsound.remove_run id), hrun⟩

theorem Agrees.purgeExpired (h : d.Agrees []) (hsound : d.disk.Sound) (now : UInt64) :
    ∃ disk, (purgeExpired now).run d =
        .ok (d.memory.purgeExpired now).1.length ⟨(d.memory.purgeExpired now).2, disk⟩ ∧
      Agrees [] ⟨(d.memory.purgeExpired now).2, disk⟩ ∧ disk.Sound := by
  obtain ⟨disk, hrun, hagrees, hsound'⟩ :=
    Agrees.removeAll (s := d.memory) h hsound (d.memory.purgeExpired now).1
      (d.memory.purgeExpired now).2
  refine ⟨disk, ?_, hagrees, hsound'⟩
  rw [DurableStore.purgeExpired, EStateM.run_bind, EStateM.run_get]
  dsimp only
  rw [EStateM.run_bind, EStateM.run_set]
  dsimp only
  rw [EStateM.run_bind, hrun]
  rfl

inductive Operation (P : Primitives) : Type
  | accept (envelope : Envelope P) (now : UInt64)
  | purgeExpired (now : UInt64)
  | reopen (capacity : Nat) (now : UInt64)

inductive Answer : Type
  | accepted (outcome : Accept)
  | purged (count : Nat)
  | opened
  deriving DecidableEq

namespace Operation

def run : Operation P → Method MeshError (DurableStore P) Answer
  | accept envelope now => return .accepted (← DurableStore.accept envelope now)
  | purgeExpired now => return .purged (← DurableStore.purgeExpired now)
  | reopen capacity now => do
    modify fun self => ⟨Store.new P capacity, self.disk⟩
    openStore now
    return .opened

def runAll : List (Operation P) → Method MeshError (DurableStore P) (List Answer)
  | [] => return []
  | op :: ops => return (← op.run) :: (← runAll ops)

def Fits : Operation P → Prop
  | accept envelope _ => envelope.sealed.length < 2 ^ 32
  | purgeExpired _ | reopen _ _ => True

def Stores (d : DurableStore P) : Operation P → Prop
  | accept envelope now => (d.memory.accept envelope now).1.1 = .new → d.Storable envelope
  | purgeExpired _ | reopen _ _ => True

/-- What is put on the disk can be sealed, and is not too long for the database. -/
def Succeeds (d : DurableStore P) : Operation P → Prop
  | accept envelope now => (d.memory.accept envelope now).1.1 = .new →
      ∃ sealed, d.disk.sealing envelope = .ok sealed ∧ sealed.length ≤ Database.valueLimit
  | purgeExpired _ | reopen _ _ => True

def Along (p : DurableStore P → Operation P → Prop) :
    DurableStore P → List (Operation P) → Prop
  | _, [] => True
  | d, op :: ops => p d op ∧ Along p (Method.after (op.run.run d)) ops

section Along

variable {p q : DurableStore P → Operation P → Prop} {d : DurableStore P} {op : Operation P}
  {ops : List (Operation P)}

theorem Along.mono (hpq : ∀ d op, p d op → q d op) (h : Along p d ops) : Along q d ops := by
  induction ops generalizing d with
  | nil => trivial
  | cons op ops ih => exact ⟨hpq d op h.1, ih h.2⟩

theorem along_of_forall (h : ∀ op ∈ ops, ∀ d, p d op) : Along p d ops := by
  induction ops generalizing d with
  | nil => trivial
  | cons op ops ih =>
    exact ⟨h op List.mem_cons_self d, ih fun o ho => h o (List.mem_cons_of_mem _ ho)⟩

theorem Fits.stores (hseals : P.Seals) (h : op.Fits) (d : DurableStore P) : op.Stores d := by
  cases op with
  | accept e now => exact fun _ => storable_of_length hseals h d
  | purgeExpired now => trivial
  | reopen capacity now => trivial

/-- A record the database takes is short enough for the length prefix of its envelope. -/
theorem Succeeds.stores (htags : P.Tags) (h : op.Succeeds d) : op.Stores d := by
  cases op with
  | accept e now =>
    intro hnew
    obtain ⟨sealed, hseal, hlimit⟩ := h hnew
    refine ⟨sealed, hseal, ?_⟩
    have hlt := EncryptedStore.length_lt_of_sealing htags hseal
    rw [Database.valueLimit] at hlimit
    omega
  | purgeExpired now => trivial
  | reopen capacity now => trivial

end Along

def Offers (id : EnvelopeId) : Operation P → Prop
  | accept envelope _ => envelope.id = id
  | purgeExpired _ | reopen _ _ => False

def capacityAfter (capacity : Nat) : Operation P → Nat
  | accept _ _ | purgeExpired _ => capacity
  | reopen capacity _ => capacity

/-- What the operation evicts, turns away, or purges. -/
def Drops (d : DurableStore P) (id : EnvelopeId) : Operation P → Prop
  | accept envelope now => (d.memory.accept envelope now).1.2 = some id ∨ envelope.id = id ∧
      (d.memory.accept envelope now).1.1 ≠ .new ∧ (d.memory.accept envelope now).1.1 ≠ .duplicate
  | purgeExpired now => id ∈ (d.memory.purgeExpired now).1
  | reopen capacity now => d.memory.contains id = true ∧
      (Method.after ((reopen capacity now).run d)).memory.contains id = false

theorem run_reopen {d d' : DurableStore P} {capacity : Nat} {now : UInt64}
    (h : (openStore now).run ⟨Store.new P capacity, d.disk⟩ = .ok () d') :
    (reopen capacity now).run.run d = .ok .opened d' := by
  have hmodify : (reopen capacity now).run.run d =
      (openStore now >>= fun _ => (pure .opened : Method MeshError (DurableStore P) Answer)).run
        ⟨Store.new P capacity, d.disk⟩ := rfl
  rw [hmodify, EStateM.run_bind, h]
  rfl

end Operation

structure Intact (d : DurableStore P) : Prop where
  agrees : d.Agrees []
  sound : d.disk.Sound

theorem Intact.accept_contains (hdrops : (Operation.accept e now).Drops d id) :
    (d.memory.accept e now).2.contains id = false := by
  have hoffered := d.memory.accept_offered e now
  simp only [Operation.Drops] at hdrops
  generalize d.memory.accept e now = result at hdrops hoffered
  cases hoffered with
  | duplicate => exact hdrops.elim nofun fun h => absurd rfl h.2.2
  | expired hdup | ttlExhausted hdup | refused hdup =>
    rcases hdrops with hdrops | ⟨rfl, -⟩
    · cases hdrops
    · exact hdup
  | overfull hdup =>
    rcases hdrops with hdrops | ⟨rfl, -⟩
    · cases hdrops
      exact Store.contains_eq_false_iff.mpr Store.get_remove_self
    · exact Store.contains_remove_of hdup _
  | new => exact hdrops.elim nofun fun h => absurd rfl h.2.1
  | @replaced worst hdup _ _ _ hworst =>
    rcases hdrops with hdrops | ⟨-, h, -⟩
    · cases hdrops
      have hne : worst.1 ≠ e.id := by
        rintro heq
        have hheld := Store.contains_worstEntry hworst
        rw [heq, hdup] at hheld
        cases hheld
      rw [Store.contains_eq_false_iff, Store.get_insert_of_ne hne, Store.get_remove_self]
    · exact absurd rfl h

theorem Intact.step (h : d.Intact) (hopens : P.Opens) {op : Operation P}
    (hstores : op.Stores d) :
    ∃ answer d', op.run.run d = .ok answer d' ∧ d'.Intact ∧
      d'.memory.capacity = op.capacityAfter d.memory.capacity ∧
      (∀ id, d'.memory.contains id = true → d.memory.contains id = true ∨ op.Offers id) ∧
      ∀ id, op.Drops d id → d'.memory.contains id = false := by
  cases op with
  | accept e now =>
    obtain ⟨disk, hrun, hagrees, hsound⟩ := h.agrees.accept h.sound hopens now hstores
    refine ⟨.accepted (d.memory.accept e now).1.1, ⟨_, disk⟩, ?_, ⟨hagrees, hsound⟩,
      (d.memory.accept_offered e now).capacity_eq, fun id hid => ?_, fun id => accept_contains⟩
    · rw [Operation.run, EStateM.run_bind, hrun]
      rfl
    · obtain ⟨x, hx⟩ := Store.contains_iff.mp hid
      rcases Store.get_accept hx with hx | ⟨-, rfl, -⟩
      · exact .inl (Store.contains_iff.mpr ⟨x, hx⟩)
      · exact .inr rfl
  | purgeExpired now =>
    obtain ⟨disk, hrun, hagrees, hsound⟩ := h.agrees.purgeExpired h.sound now
    refine ⟨.purged (d.memory.purgeExpired now).1.length, ⟨_, disk⟩, ?_, ⟨hagrees, hsound⟩,
      Store.capacity_foldl_remove _, fun id hid => .inl ?_, fun id hid => ?_⟩
    · rw [Operation.run, EStateM.run_bind, hrun]
      rfl
    · obtain ⟨x, hx⟩ := Store.contains_iff.mp hid
      have hget := (Store.get_foldl_remove (d.memory.purgeExpired now).1).symm.trans hx
      split at hget
      · cases hget
      · exact Store.contains_iff.mpr ⟨x, hget⟩
    · rw [Store.contains_eq_false_iff]
      exact (Store.get_foldl_remove _).trans (if_pos hid)
  | reopen capacity now =>
    obtain ⟨d', hrun, hagrees, hsound, hcapacity, hget⟩ :=
      openStore_run h.sound h.agrees.tidy h.agrees.named capacity now
    have hreopen := Operation.run_reopen hrun
    refine ⟨.opened, d', hreopen, ⟨hagrees, hsound⟩, hcapacity, fun id hid => .inl ?_,
      fun id hid => ?_⟩
    · obtain ⟨x, hx⟩ := Store.contains_iff.mp hid
      have hrecord := (h.agrees.records id List.not_mem_nil).symm.trans (hget id x hx)
      exact Store.contains_iff.mpr ⟨x, Except.ok.inj hrecord⟩
    · have hafter := hid.2
      have heq : Method.after ((Operation.reopen capacity now).run d) = d' :=
        congrArg Method.after hreopen
      rwa [heq] at hafter

theorem Intact.run (h : d.Intact) (hopens : P.Opens) {ops : List (Operation P)}
    (hstores : Operation.Along (fun d op => op.Stores d) d ops) :
    ∃ answers d', (Operation.runAll ops).run d = .ok answers d' ∧ d'.Intact ∧
      d'.memory.capacity = ops.foldl Operation.capacityAfter d.memory.capacity ∧
      ∀ id, d.memory.contains id = false → (∀ op ∈ ops, ¬ op.Offers id) →
        d'.memory.contains id = false := by
  induction ops generalizing d with
  | nil => exact ⟨[], d, rfl, h, rfl, fun id hid _ => hid⟩
  | cons op ops ih =>
    obtain ⟨hop, hops⟩ := hstores
    obtain ⟨answer, d₁, hrun, h₁, hcapacity, hheld, -⟩ := h.step hopens hop
    rw [hrun] at hops
    obtain ⟨answers, d', hruns, h', hcapacity', habsent⟩ := ih h₁ hops
    refine ⟨answer :: answers, d', ?_, h', ?_, fun id hid hoffers => ?_⟩
    · rw [Operation.runAll, EStateM.run_bind, hrun]
      dsimp only
      rw [EStateM.run_bind, hruns]
      rfl
    · rw [hcapacity', hcapacity, List.foldl_cons]
    · obtain ⟨hop', hops'⟩ := List.forall_mem_cons.mp hoffers
      refine habsent id (Bool.eq_false_iff.mpr fun hc => ?_) hops'
      rcases hheld id hc with hc | hc
      · rw [hid] at hc
        cases hc
      · exact hop' hc

theorem intact_openStore {disk : EncryptedStore} (hsound : disk.Sound) (hfresh : disk.table = ∅)
    (capacity : Nat) (now : UInt64) :
    ∃ d' : DurableStore P, (openStore now).run ⟨Store.new P capacity, disk⟩ = .ok () d' ∧
      d'.Intact ∧ d'.memory.capacity = capacity := by
  have hempty : ∀ key, key ∉ disk.table := by
    intro key hkey
    rw [hfresh] at hkey
    exact AList.notMem_empty key hkey
  have hnamed : ∀ id (x : Envelope P), disk.record P id = .ok (some x) → x.id = id := by
    intro id x hx
    rw [EncryptedStore.record_eq_none_iff.mpr (hempty _)] at hx
    cases hx
  obtain ⟨d', hrun, hagrees, hsound', hcapacity, -⟩ :=
    openStore_run hsound (fun key hkey => absurd hkey (hempty key)) hnamed capacity now
  exact ⟨d', hrun, ⟨hagrees, hsound'⟩, hcapacity⟩

/-- In every run in which nothing fails, index and disk hold the same after every operation,
and what was evicted, purged or refused stays away until it is offered again. -/
theorem memory_mirrors_disk (hopens : P.Opens) (htags : P.Tags) {disk : EncryptedStore}
    (hsound : disk.Sound) (hfresh : disk.table = ∅) {capacity : Nat} {now : UInt64}
    {ops : List (Operation P)}
    (hsucceeds : Operation.Along (fun d op => op.Succeeds d)
      (Method.after ((openStore now).run ⟨Store.new P capacity, disk⟩)) ops) :
    ∃ opened answers d, (openStore now).run ⟨Store.new P capacity, disk⟩ = .ok () opened ∧
      (Operation.runAll ops).run opened = .ok answers d ∧ d.Mirrors ∧
      d.memory.len ≤ ops.foldl Operation.capacityAfter capacity ∧
      ∀ (op : Operation P) (id : EnvelopeId) (later : List (Operation P)), op.Drops d id →
        Operation.Along (fun d op => op.Succeeds d) d (op :: later) →
        (∀ o ∈ later, ¬ o.Offers id) →
        ∃ answers' d', (Operation.runAll (op :: later)).run d = .ok answers' d' ∧
          d'.memory.contains id = false ∧ id.bytes.1 ∉ d'.disk.table := by
  have hstores {d : DurableStore P} {ops : List (Operation P)}
      (h : Operation.Along (fun d op => op.Succeeds d) d ops) :
      Operation.Along (fun d op => op.Stores d) d ops :=
    h.mono fun _ _ => Operation.Succeeds.stores htags
  obtain ⟨opened, hopen, hopened, hcapacity⟩ := intact_openStore (P := P) hsound hfresh capacity now
  rw [hopen] at hsucceeds
  obtain ⟨answers, d, hrun, hd, hcapacity', -⟩ := hopened.run hopens (hstores hsucceeds)
  refine ⟨opened, answers, d, hopen, hrun, mirrors_iff.mpr hd.agrees, ?_, ?_⟩
  · rw [← hcapacity, ← hcapacity']
    exact hd.agrees.bounded
  intro op id later hdrops hsucceeds' hoffers
  obtain ⟨hop, hlater⟩ := hstores hsucceeds'
  obtain ⟨answer, d₁, hstep, h₁, -, -, hgone⟩ := hd.step hopens hop
  rw [hstep] at hlater
  obtain ⟨answers', d', hruns, hd', -, habsent⟩ := h₁.run hopens hlater
  have hnot := habsent id (hgone id hdrops) hoffers
  refine ⟨answer :: answers', d', ?_, hnot, ?_⟩
  · rw [Operation.runAll, EStateM.run_bind, hstep]
    dsimp only
    rw [EStateM.run_bind, hruns]
    rfl
  · have hrecord := hd'.agrees.records id List.not_mem_nil
    rw [Store.contains_eq_false_iff.mp hnot] at hrecord
    exact EncryptedStore.record_eq_none_iff.mp hrecord

end Operations

section Examples

theorem seals_toyPrimitives : toyPrimitives.Seals := fun _ _ _ _ _ => rfl

theorem tags_toyPrimitives : toyPrimitives.Tags := by
  rintro key nonce associatedData plaintext ciphertext ⟨⟩
  rw [List.length_append, List.length_replicate]

theorem memory_mirrors_disk_toyStore :
    ∃ opened answers d, (openStore 0).run ⟨Store.new toyPrimitives 1, toyStore.disk⟩ =
        .ok () opened ∧
      (Operation.runAll [.accept (toyEnvelope 3) 0, .reopen 1 5]).run opened = .ok answers d ∧
      d.Mirrors := by
  have hsucceeds : Operation.Along (fun d op => op.Succeeds d)
      (Method.after ((openStore 0).run ⟨Store.new toyPrimitives 1, toyStore.disk⟩))
      [.accept (toyEnvelope 3) 0, .reopen 1 5] :=
    ⟨fun _ => ⟨_, rfl, by decide⟩, trivial, trivial⟩
  obtain ⟨opened, answers, d, hopen, hrun, hmirrors, -⟩ :=
    memory_mirrors_disk opens_toyPrimitives tags_toyPrimitives
      (show toyStore.disk.Sound from rfl) rfl hsucceeds
  exact ⟨opened, answers, d, hopen, hrun, hmirrors⟩

end Examples

end DurableStore

end ProjectMesh.Routing
