import ProjectMesh.Routing.DtnSim
import ProjectMesh.Routing.PersistenceLaws

namespace ProjectMesh.Routing

open ProjectMesh.Lib Relation

variable {P : Primitives} {n : Nat}

section Disk

/-- Encryption takes whatever a file can hold. -/
def Primitives.Encrypts (P : Primitives) : Prop :=
  ∀ key nonce associatedData plaintext, plaintext.length < 2 ^ 32 →
    (P.chachaEncrypt key nonce associatedData plaintext).isSome

def Succeeds (x : Method MeshError EncryptedStore α) : Prop :=
  ∀ s, s.Sound → ∃ a s', x.run s = .ok a s' ∧ s'.Sound

theorem succeeds_call {text : Stage → Option String} {use : Table → Except MeshError α × Table}
    (huse : ∀ table, ∃ a, (use table).1 = .ok a) : Succeeds (EncryptedStore.call text use) := by
  intro s hs
  obtain ⟨a, ha⟩ := huse s.table
  exact ⟨a, _, hs.call_run ha, EncryptedStore.sound_holding⟩

theorem Succeeds.bind {x : Method MeshError EncryptedStore α}
    {y : α → Method MeshError EncryptedStore β} (hx : Succeeds x) (hy : ∀ a, Succeeds (y a)) :
    Succeeds (x >>= y) := by
  intro s hs
  obtain ⟨a, s', hrun, hs'⟩ := hx s hs
  obtain ⟨b, s'', hrun', hs''⟩ := hy a s' hs'
  exact ⟨b, s'', Method.run_bind_ok.mpr ⟨a, s', hrun, hrun'⟩, hs''⟩

theorem succeeds_remove (id : EnvelopeId) : Succeeds (EncryptedStore.remove id) :=
  succeeds_call fun _ => ⟨(), rfl⟩

theorem succeeds_put (hencrypts : P.Encrypts) {e : Envelope P} (h : e.toBytes.length < 2 ^ 32) :
    Succeeds (EncryptedStore.put P e) := by
  refine Succeeds.bind (fun s hs => ⟨_, _, rfl, hs⟩) fun nonce =>
    Succeeds.bind (fun s hs => ⟨_, _, rfl, hs⟩) fun self =>
    Succeeds.bind (fun s hs => ?_) fun sealed => succeeds_call fun _ => ⟨(), rfl⟩
  obtain ⟨ciphertext, hsome⟩ := Option.isSome_iff_exists.mp
    (hencrypts self.masterKey nonce e.id.bytes.1 e.toBytes h)
  refine ⟨nonce.1 ++ ciphertext, s, ?_, hs⟩
  rw [aeadSeal, hsome]
  rfl

def Steady (memory : Store P) (a : α) (x : Method MeshError (DurableStore P) α) : Prop :=
  ∀ disk : EncryptedStore, disk.Sound →
    ∃ disk', x.run ⟨memory, disk⟩ = .ok a ⟨memory, disk'⟩ ∧ disk'.Sound

variable {memory : Store P} {a : α}

theorem steady_pure : Steady memory a (pure a) := fun disk hdisk => ⟨disk, rfl, hdisk⟩

theorem Steady.onDisk {x : Method MeshError EncryptedStore β}
    {y : β → Method MeshError (DurableStore P) α} (hx : Succeeds x)
    (hy : ∀ b, Steady memory a (y b)) : Steady memory a (DurableStore.onDisk x >>= y) := by
  intro disk hdisk
  obtain ⟨b, disk', hrun, hdisk'⟩ := hx disk hdisk
  rw [EStateM.run_bind, DurableStore.onDisk_run hrun]
  exact hy b disk' hdisk'

theorem DurableStore.accept_run_sound (hencrypts : P.Encrypts) {d : DurableStore P}
    (hd : d.disk.Sound) {e : Envelope P} (h : e.toBytes.length < 2 ^ 32) (now : UInt64) :
    ∃ disk, (accept e now).run d =
      .ok (d.memory.accept e now).1.1 ⟨(d.memory.accept e now).2, disk⟩ ∧ disk.Sound := by
  obtain ⟨⟨⟨outcome, evicted⟩, memory⟩, hresult⟩ :
    ∃ result, d.memory.accept e now = result := ⟨_, rfl⟩
  simp only [hresult, accept, EStateM.run_bind, EStateM.run_get, EStateM.run_set]
  have hput : Steady memory outcome (if outcome = Accept.new then do
      DurableStore.onDisk (EncryptedStore.put P e)
      pure outcome
    else pure outcome) := by
    split
    · exact Steady.onDisk (succeeds_put hencrypts h) fun _ => steady_pure
    · exact steady_pure
  cases evicted with
  | none => exact hput d.disk hd
  | some victim => exact Steady.onDisk (succeeds_remove victim) (fun _ => hput) d.disk hd

end Disk

namespace RelayEngine

variable {e : RelayEngine P} {peer now : UInt64} {bytes : List UInt8} {envelope : Envelope P}
  {nonce : UInt64}

def Sound (e : RelayEngine P) : Prop := e.store.disk.Sound

theorem length_toBytes_of_sendable (h : envelope.Sendable) :
    envelope.toBytes.length < 2 ^ 32 := by
  simp only [Envelope.Sendable, ContactMessage.Fits, ContactMessage.payload,
    List.length_append] at h
  omega

theorem onFrame_sound (hencrypts : P.Encrypts) (hsound : e.Sound)
    (hmsg : ContactMessage.fromBytes P bytes = .ok (.data envelope nonce))
    (hsendable : envelope.Sendable) (peer now : UInt64) :
    ∃ outbound next, (onFrame peer bytes now).run e = .ok outbound next ∧ next.Sound := by
  rw [onFrame_data hmsg]
  cases hverify : Puzzle.verify P envelope.id nonce e.puzzleDifficultyBits with
  | false => exact ⟨[], e, onData_unproven hverify, hsound⟩
  | true =>
    cases hbudget : (e.budget peer now bytes.length).1 with
    | false => exact ⟨[], _, onData_overBudget hverify hbudget, hsound⟩
    | true =>
      have hcharged : (e.charged peer now bytes.length).store.disk.Sound := hsound
      obtain ⟨disk, hrun, hdisk⟩ := DurableStore.accept_run_sound hencrypts hcharged
        (length_toBytes_of_sendable hsendable) now
      have honStore : (onStore (DurableStore.accept envelope now)).run
          (e.charged peer now bytes.length) =
          .ok ((e.charged peer now bytes.length).held.accept envelope now).1.1
            ((e.charged peer now bytes.length).offer now envelope disk) := onStore_ok hrun
      rw [onData_admitted hverify hbudget, EStateM.run_bind, honStore]
      dsimp only
      rw [EStateM.run_bind, EStateM.run_get]
      dsimp only
      split
      · exact ⟨_, _, rfl, hdisk⟩
      · exact ⟨_, _, rfl, hdisk⟩

theorem onFrame_summary_sound {filter : BloomFilter} {outbound : List Outbound}
    {next : RelayEngine P} (hsound : e.Sound)
    (hmsg : ContactMessage.fromBytes P bytes = .ok (.summary filter))
    (hrun : (onFrame peer bytes now).run e = .ok outbound next) : next.Sound := by
  have houtcome := onFrame_outcome e peer bytes now
  rw [hrun] at houtcome
  cases houtcome with
  | summary =>
    rw [greeted]
    split
    · exact hsound
    · exact hsound
  | unproven hmsg' | overBudget hmsg' | offered hmsg' =>
    rw [hmsg] at hmsg'
    cases hmsg'

end RelayEngine

theorem Answers.sound {ι : Type} {e next : RelayEngine P} {packet : Packet ι} {t : UInt64}
    {outbound : List Outbound} (h : Answers e packet t outbound next) (hencrypts : P.Encrypts)
    (hsound : e.Sound)
    (hreadable : (∃ filter, ContactMessage.fromBytes P packet.bytes = .ok (.summary filter)) ∨
      ∃ x nonce, ContactMessage.fromBytes P packet.bytes = .ok (.data x nonce) ∧ x.Sendable) :
    (RelayEngine.onFrame packet.fromPeer packet.bytes t).run e = .ok outbound next ∧
      next.Sound := by
  rcases hreadable with ⟨filter, hmsg⟩ | ⟨x, nonce, hmsg, hsendable⟩
  · cases h with
    | ok hrun => exact ⟨hrun, RelayEngine.onFrame_summary_sound hsound hmsg hrun⟩
    | diskFault hrun =>
      rw [RelayEngine.onFrame_summary hmsg] at hrun
      rcases RelayEngine.onSummary_run e packet.fromPeer filter with ⟨-, h⟩ | ⟨-, t, h⟩
      · rw [h] at hrun
        cases hrun
      · rw [h] at hrun
        cases hrun
  · obtain ⟨outbound', next', hrun', hnext⟩ :=
      RelayEngine.onFrame_sound hencrypts hsound hmsg hsendable packet.fromPeer t
    cases h with
    | ok hrun =>
      rw [hrun'] at hrun
      cases hrun
      exact ⟨hrun', hnext⟩
    | diskFault hrun =>
      rw [hrun'] at hrun
      cases hrun

/-- The sizes of the filters of small stores fit their header. -/
def Primitives.SmallFilters (P : Primitives) : Prop := ∀ items ≤ 1000, P.bloomBits items < 2 ^ 32

structure Idle (e : RelayEngine P) : Prop where
  peers : ∀ p, e.peers.lookup p = none
  difficulty : e.puzzleDifficultyBits = 0
  rateLimit : e.rateLimit = .default
  capacity : e.held.capacity = 1000
  hops : ∀ id x, e.held.get id = some x → x.ttlHops ≠ 0

/-- What one node gives another at a contact does not fill its store, has not expired, stays
within the rate limits, and is not hidden by a false positive. -/
structure Smooth (tick : UInt64) (giver receiver : RelayEngine P) : Prop where
  capacity : receiver.held.len + (giver.held.relayable receiver.held).length ≤
    receiver.held.capacity
  unexpired : ∀ e ∈ giver.held.envelopes, e.isExpired tick = false
  envelopes : (giver.held.relayable receiver.held).length ≤
    receiver.rateLimit.maxEnvelopesPerWindow
  bytes : frameBytes giver.puzzleDifficultyBits (giver.held.relayable receiver.held) ≤
    receiver.rateLimit.maxBytesPerWindow
  noFalsePositive : ∀ e ∈ giver.held.envelopes, receiver.held.contains e.id = false →
    receiver.held.summaryBloom.contains P e.id = false

instance (tick : UInt64) (giver receiver : RelayEngine P) :
    Decidable (Smooth tick giver receiver) :=
  decidable_of_iff (_ ∧ _ ∧ _ ∧ _ ∧ _)
    ⟨fun ⟨h₁, h₂, h₃, h₄, h₅⟩ => ⟨h₁, h₂, h₃, h₄, h₅⟩,
      fun h => ⟨h.capacity, h.unexpired, h.envelopes, h.bytes, h.noFalsePositive⟩⟩

section Smooth

variable {tick : UInt64} {giver receiver e : RelayEngine P} {peer : UInt64}
  {got : List (Envelope P)} {own other s : Store P} {id : EnvelopeId}

theorem BloomFilter.numBits_foldl_insert {ids : List EnvelopeId} {f : BloomFilter} :
    (ids.foldl (·.insert P ·) f).numBits = f.numBits := by
  induction ids generalizing f with
  | nil => rfl
  | cons id ids ih => exact ih

theorem Store.numBits_summaryBloom {s : Store P} (hsmall : P.SmallFilters)
    (hlen : s.len ≤ 1000) : s.summaryBloom.numBits < 2 ^ 32 := by
  rw [summaryBloom, BloomFilter.numBits_foldl_insert]
  exact Nat.max_lt.mpr ⟨hsmall _ (Nat.max_le.mpr ⟨hlen, by decide⟩), by decide⟩

theorem lookup_onPeerLost (h : ∀ p, p ≠ peer → e.peers.lookup p = none) (p : UInt64) :
    (e.onPeerLost peer).peers.lookup p = none := by
  by_cases hp : p = peer
  · subst hp
    exact AList.lookup_erase p _
  · rw [RelayEngine.onPeerLost, Assoc.lookup_erase_of_ne hp]
    exact h p hp

theorem Smooth.gives (h : Smooth tick giver receiver) (hgiver : Idle giver)
    (hreceiver : Idle receiver) : Gives {tick} tick giver receiver where
  difficulty := hgiver.difficulty.trans hreceiver.difficulty.symm
  solves x _ := by
    rw [hgiver.difficulty, Puzzle.solve_zero]
    rfl
  clock t ht _ _ := by rw [ht]
  capacity := Nat.le_trans (Nat.add_le_add_left (List.length_filter_le _ _) _) h.capacity
  envelopes := h.envelopes
  bytes := h.bytes
  noFalsePositive e he := h.noFalsePositive e (Store.mem_envelopes_iff.mpr he)

theorem sendable_of_frameBytes {bits : UInt8} {xs : List (Envelope P)} {x : Envelope P}
    (h : frameBytes bits xs < 2 ^ 32) (hx : x ∈ xs) : x.Sendable := by
  have hle : (RelayEngine.dataFrame bits x).length ≤ frameBytes bits xs :=
    List.le_sum_of_mem (List.mem_map.mpr ⟨x, hx, rfl⟩)
  have hfits : (ContactMessage.data x ((Puzzle.solve P x.id bits).getD 0)).Fits := by
    simp only [RelayEngine.dataFrame, ContactMessage.toBytes, List.length_cons,
      List.length_append] at hle
    rw [ContactMessage.Fits]
    omega
  exact RelayEngine.fits_data_iff.mp hfits

theorem Smooth.fits (h : Smooth tick giver receiver) (hsmall : P.SmallFilters)
    (hreceiver : Idle receiver) : Fits giver receiver where
  filter := by
    have hcapacity := h.capacity
    rw [hreceiver.capacity] at hcapacity
    exact Store.numBits_summaryBloom hsmall (Nat.le_trans (Nat.le_add_right _ _) hcapacity)
  envelopes x hx := by
    have hbytes := h.bytes
    rw [hreceiver.rateLimit] at hbytes
    exact sendable_of_frameBytes (Nat.lt_of_le_of_lt hbytes (by decide)) hx

theorem Idle.lost (hidle : Idle giver) (h : Received tick giver peer got e)
    (hgot : ∀ x ∈ got, x.ttlHops ≠ 0) : Idle (e.onPeerLost peer) where
  peers := lookup_onPeerLost h.alone
  difficulty := h.difficulty.trans hidle.difficulty
  rateLimit := h.rateLimit.trans hidle.rateLimit
  capacity := h.capacity.trans hidle.capacity
  hops id x hx := by
    rcases (h.get id x).mp hx with hx | ⟨hx, -, -⟩
    · exact hidle.hops id x hx
    · exact hgot x hx

theorem Merged.hops (h : Merged tick own other s)
    (hlive : ∀ x, other.get id = some x → x.isExpired tick = false) :
    (s.get id).map (fun x => x.ttlHops.toNat) =
      Flood.pass ((own.get id).map fun x => x.ttlHops.toNat)
        ((other.get id).map fun x => x.ttlHops.toNat) := by
  cases hown : own.get id with
  | some x => rw [(h id x).mpr (.inl hown), Option.map_some, Flood.pass_some]
  | none =>
    have hnone : (∀ x, s.get id ≠ some x) → s.get id = none :=
      Option.eq_none_iff_forall_ne_some.mpr
    cases hother : other.get id with
    | none =>
      rw [hnone fun x hx => ?_]
      · rfl
      · rcases (h id x).mp hx with hx | ⟨-, source, hx, -⟩
        · rw [hown] at hx
          cases hx
        · rw [hother] at hx
          cases hx
    | some source =>
      by_cases hle : 2 ≤ source.ttlHops.toNat
      · have hdec := decrementTtl_eq_some_iff.mpr ⟨hle, rfl⟩
        rw [(h id _).mpr (.inr ⟨hown, source, hother, hlive source hother, hle, rfl⟩),
          Option.map_some, Option.map_some, Option.map_none, Flood.pass_none_of_le hle,
          (ttlHops_decrementTtl hdec).1, Nat.add_sub_cancel]
      · rw [hnone fun x hx => ?_]
        · simp only [Option.map_none, Option.map_some, Flood.pass, Option.bind_some, if_neg hle]
        · rcases (h id x).mp hx with hx | ⟨-, source', hx, -, hle', -⟩
          · rw [hown] at hx
            cases hx
          · rw [hother] at hx
            cases hx
            exact hle hle'

end Smooth

namespace Simulation

section Converge

variable {l : Link (simTopology n)} {w₀ : Traffic P (Fin n)} {now : UInt64}
  {half : Bool → Half P} {order : Nat → Shuffle} {engine engine' : Fin n → RelayEngine P}
  {queue sent : List (Packet (Fin n))} {k : Nat}

theorem packets_shuffle (shuffle : Shuffle) (node : Fin n) (outbound : List Outbound) :
    ((simTopology n).packets node (shuffle.apply outbound)).Perm
      ((simTopology n).packets node outbound) := (shuffle.perm outbound).filterMap _

theorem sound_update {i : Fin n} {next : RelayEngine P} (h : ∀ j, (engine j).Sound)
    (hnext : next.Sound) (j : Fin n) : (Function.update engine i next j).Sound := by
  by_cases hj : j = i
  · subst hj
    rw [Function.update_self]
    exact hnext
  · rw [Function.update_of_ne hj]
    exact h j

variable (hgives : ∀ side, Gives {now} now (w₀.engine (l.node side)) (w₀.engine (l.node !side)))
  (hfits : ∀ side, Fits (w₀.engine (l.node side)) (w₀.engine (l.node !side)))
include hgives hfits

theorem underway_of_converge (h : Underway l w₀ now half ⟨engine, queue, sent⟩)
    (hrun : converge order now k engine queue = some engine') :
    ∃ half' sent', Underway l w₀ now half' ⟨engine', [], sent'⟩ := by
  induction k generalizing half engine queue sent with
  | zero =>
    rw [converge] at hrun
    split at hrun
    · next hempty =>
      cases hrun
      rw [List.isEmpty_iff.mp hempty] at h
      exact ⟨half, sent, h⟩
    · cases hrun
  | succ k ih =>
    rw [converge] at hrun
    cases hlast : queue.getLast? with
    | none =>
      simp only [hlast] at hrun
      cases hrun
      rw [List.getLast?_eq_none_iff.mp hlast] at h
      exact ⟨half, sent, h⟩
    | some packet =>
      simp only [hlast] at hrun
      have hperm : (packet :: queue.dropLast).Perm queue :=
        (List.perm_append_singleton _ _).symm.trans
          (List.Perm.of_eq (List.dropLast_append_getLast? packet hlast))
      obtain ⟨outbound, next, half', hanswers, -, hnext⟩ :=
        h.handle (Set.mem_singleton now) hgives hfits hperm
      cases hanswers with
      | ok honFrame =>
        rw [honFrame] at hrun
        refine ih (hnext _ rfl ?_ rfl) hrun
        exact (packets_shuffle _ _ _).append_left _
      | diskFault honFrame =>
        rw [honFrame] at hrun
        cases hrun

theorem converge_isSome (hencrypts : P.Encrypts)
    (h : Underway l w₀ now half ⟨engine, queue, sent⟩) (hleft : left l w₀ half ≤ k)
    (hsound : ∀ i, (engine i).Sound) :
    ∃ engine', converge order now k engine queue = some engine' ∧ ∀ i, (engine' i).Sound := by
  induction k generalizing half engine queue sent with
  | zero =>
    have hqueue : queue = [] := h.inFlight_of_left (Nat.le_zero.mp hleft)
    exact ⟨engine, by rw [converge, hqueue]; rfl, hsound⟩
  | succ k ih =>
    cases hlast : queue.getLast? with
    | none => exact ⟨engine, by simp only [converge, hlast], hsound⟩
    | some packet =>
      have hperm : (packet :: queue.dropLast).Perm queue :=
        (List.perm_append_singleton _ _).symm.trans
          (List.Perm.of_eq (List.dropLast_append_getLast? packet hlast))
      obtain ⟨outbound, next, half', hanswers, hless, hnext⟩ :=
        h.handle (Set.mem_singleton now) hgives hfits hperm
      obtain ⟨hrun, hnextSound⟩ := hanswers.sound hencrypts (hsound _)
        (h.readable hfits (hperm.mem_iff.mp (List.mem_cons_self ..)))
      simp only [converge, hlast]
      rw [hrun]
      exact ih (hnext ⟨_, _, _⟩ rfl ((packets_shuffle _ _ _).append_left _) rfl) (by omega)
        (sound_update hsound hnextSound)

end Converge

section Contact

variable {sim sim' : Simulation P n} {order : Nat → Shuffle} {tick : UInt64} {a b : Fin n}

def traffic (sim : Simulation P n) : Traffic P (Fin n) where
  engine := sim.engine
  inFlight := []
  sent := []

def copies (sim : Simulation P n) (id : EnvelopeId) : Flood.Copies (Fin n) := fun i =>
  ((sim.engine i).held.get id).map fun x => x.ttlHops.toNat

def parted (sim : Simulation P n) (a b : Fin n) (engine : Fin n → RelayEngine P) :
    Simulation P n :=
  { sim with
    engine := Function.update (Function.update engine a ((engine a).onPeerLost (nodeId b))) b
      ((engine b).onPeerLost (nodeId a)) }

theorem contact_eq (order : Nat → Shuffle) (tick : UInt64) (sim : Simulation P n) (h : a ≠ b) :
    ∃ w, sim.traffic.connect (simLink sim.size_le h) = some w ∧
      sim.contact order tick a b =
        (converge order tick maxContactIterations w.engine w.inFlight).map (sim.parted a b) := by
  refine ⟨_, connect_eq _ _, ?_⟩
  rw [contact, if_neg h]
  simp only [RelayEngine.onPeerConnected, setEngine, Function.update_of_ne h.symm]
  exact bind_pure_comp (sim.parted a b) _

theorem engine_parted_left {engine : Fin n → RelayEngine P} (h : a ≠ b) :
    (sim.parted a b engine).engine a = (engine a).onPeerLost (nodeId b) := by
  simp only [parted, Function.update_of_ne h, Function.update_self]

theorem engine_parted_right {engine : Fin n → RelayEngine P} :
    (sim.parted a b engine).engine b = (engine b).onPeerLost (nodeId a) :=
  Function.update_self ..

theorem engine_parted_of_ne {engine : Fin n → RelayEngine P} {i : Fin n} (ha : i ≠ a)
    (hb : i ≠ b) : (sim.parted a b engine).engine i = engine i := by
  simp only [parted, Function.update_of_ne hb, Function.update_of_ne ha]

variable (hidle : ∀ i, Idle (sim.engine i)) (hne : a ≠ b)
  (hab : Smooth tick (sim.engine a) (sim.engine b))
  (hba : Smooth tick (sim.engine b) (sim.engine a))

include hidle hab hba in
theorem meeting {w : Traffic P (Fin n)}
    (hconnects : sim.traffic.connect (simLink sim.size_le hne) = some w) :
    Meeting (simLink sim.size_le hne) {tick} tick sim.traffic w where
  inFlight := rfl
  sent := rfl
  alone _ p _ := (hidle _).peers p
  gives
    | false => hab.gives (hidle a) (hidle b)
    | true => hba.gives (hidle b) (hidle a)
  connects := hconnects

variable (hsmall : P.SmallFilters)

include hidle hab hba hsmall in
theorem fits_meeting (side : Bool) :
    Fits (sim.traffic.engine ((simLink sim.size_le hne).node side))
      (sim.traffic.engine ((simLink sim.size_le hne).node !side)) :=
  match side with
  | false => hab.fits hsmall (hidle b)
  | true => hba.fits hsmall (hidle a)

include hidle hne hab hba hsmall

/-- A contact leaves its nodes idle, and passes copies on as when two nodes meet. -/
theorem contact_some (hrun : sim.contact order tick a b = some sim') :
    (∀ i, Idle (sim'.engine i)) ∧
      ∀ id, sim'.copies id = Flood.meet (sim.copies id) a b := by
  obtain ⟨w, hconnects, heq⟩ := contact_eq order tick sim hne
  rw [heq] at hrun
  obtain ⟨engine, hconverge, rfl⟩ := Option.map_eq_some_iff.mp hrun
  have hmeeting := meeting hidle hne hab hba hconnects
  have hfits := fits_meeting hidle hne hab hba hsmall
  obtain ⟨half, sent, hunderway⟩ :=
    underway_of_converge hmeeting.gives hfits hmeeting.underway hconverge
  have hothers : ∀ i, i ≠ a → i ≠ b → engine i = sim.engine i := by
    intro i ha hb
    exact hunderway.others i fun side => by
      cases side
      · exact ha
      · exact hb
  have hhops : ∀ side, ∀ x ∈ (half side).got, x.ttlHops ≠ 0 := fun side x hx =>
    Store.ttlHops_of_mem_relayable (hunderway.got_due hx)
  have hmergedA : Merged tick (sim.engine a).held (sim.engine b).held (engine a).held :=
    hunderway.merged rfl false
  have hmergedB : Merged tick (sim.engine b).held (sim.engine a).held (engine b).held :=
    hunderway.merged rfl true
  have hlive : ∀ i id x, (∀ e ∈ (sim.engine i).held.envelopes, e.isExpired tick = false) →
      (sim.engine i).held.get id = some x → x.isExpired tick = false := by
    intro i id x hunexpired hget
    exact hunexpired x (Store.mem_envelopes_of_get hget)
  constructor
  · intro i
    by_cases hb : i = b
    · subst hb
      rw [engine_parted_right]
      exact (hidle i).lost (hunderway.received true) (hhops _)
    · by_cases ha : i = a
      · subst ha
        rw [engine_parted_left hb]
        exact (hidle i).lost (hunderway.received false) (hhops _)
      · rw [engine_parted_of_ne ha hb, hothers i ha hb]
        exact hidle i
  · intro id
    funext i
    by_cases hb : i = b
    · subst hb
      rw [Flood.meet_right, copies, engine_parted_right]
      exact hmergedB.hops fun x hx => hlive a id x hab.unexpired hx
    · by_cases ha : i = a
      · subst ha
        rw [Flood.meet_left hb, copies, engine_parted_left hb]
        exact hmergedA.hops fun x hx => hlive b id x hba.unexpired hx
      · rw [Flood.meet_of_ne ha hb, copies, engine_parted_of_ne ha hb, hothers i ha hb, copies]

theorem contact_isSome (hencrypts : P.Encrypts) (hsound : ∀ i, (sim.engine i).Sound) :
    ∃ sim', sim.contact order tick a b = some sim' ∧ ∀ i, (sim'.engine i).Sound := by
  obtain ⟨w, hconnects, heq⟩ := contact_eq order tick sim hne
  have hmeeting := meeting hidle hne hab hba hconnects
  have hfits := fits_meeting hidle hne hab hba hsmall
  have hsound' : ∀ i, (w.engine i).Sound := by
    rw [connect_eq] at hconnects
    cases hconnects
    exact sound_update (sound_update hsound (hsound a)) (hsound b)
  have hleft : left (simLink sim.size_le hne) sim.traffic (fun _ => .waiting) ≤
      maxContactIterations := by
    have henvelopes := hab.envelopes
    have henvelopes' := hba.envelopes
    rw [(hidle b).rateLimit] at henvelopes
    rw [(hidle a).rateLimit] at henvelopes'
    have hdue : (due (simLink sim.size_le hne) sim.traffic false).length ≤ 120 := henvelopes
    have hdue' : (due (simLink sim.size_le hne) sim.traffic true).length ≤ 120 := henvelopes'
    rw [left, Half.left, Half.left, maxContactIterations]
    omega
  obtain ⟨engine, hconverge, hengine⟩ :=
    converge_isSome hmeeting.gives hfits hencrypts hmeeting.underway hleft hsound'
  refine ⟨sim.parted a b engine, by rw [heq, hconverge, Option.map_some], ?_⟩
  exact sound_update (sound_update hengine (hengine a)) (hengine b)

end Contact

section Schedule

variable {sim sim' : Simulation P n} {orders : Nat → Nat → Shuffle}
  {events : List (UInt64 × Fin n × Fin n)} {envelope : Envelope P} {origin node : Fin n}

def SmoothRun (orders : Nat → Nat → Shuffle) :
    Simulation P n → List (UInt64 × Fin n × Fin n) → Prop
  | _, [] => True
  | sim, (tick, a, b) :: events =>
    a ≠ b ∧ Smooth tick (sim.engine a) (sim.engine b) ∧
      Smooth tick (sim.engine b) (sim.engine a) ∧
      ∀ sim', sim.contact (orders 0) tick a b = some sim' →
        SmoothRun (fun i => orders (i + 1)) sim' events

instance decidableSmoothRun : ∀ (orders : Nat → Nat → Shuffle) (sim : Simulation P n)
    (events : List (UInt64 × Fin n × Fin n)), Decidable (SmoothRun orders sim events)
  | _, _, [] => .isTrue trivial
  | orders, sim, (tick, a, b) :: events =>
    have : Decidable (∀ sim', sim.contact (orders 0) tick a b = some sim' →
        SmoothRun (fun i => orders (i + 1)) sim' events) :=
      match sim.contact (orders 0) tick a b with
      | none => .isTrue nofun
      | some next =>
        have := decidableSmoothRun (fun i => orders (i + 1)) next events
        decidable_of_iff (SmoothRun (fun i => orders (i + 1)) next events)
          ⟨fun h _ heq => Option.some.inj heq ▸ h, fun h => h next rfl⟩
    inferInstanceAs (Decidable (_ ∧ _ ∧ _ ∧ _))

theorem copies_runSchedule (hsmall : P.SmallFilters) (hidle : ∀ i, Idle (sim.engine i))
    (hsmooth : sim.SmoothRun orders events) (hrun : sim.runSchedule orders events = some sim')
    (id : EnvelopeId) : sim'.copies id = Flood.run (sim.copies id) (events.map (·.2)) := by
  induction events generalizing sim orders with
  | nil =>
    cases hrun
    rfl
  | cons event events ih =>
    obtain ⟨tick, a, b⟩ := event
    obtain ⟨hne, hab, hba, hrest⟩ := hsmooth
    simp only [runSchedule, Option.bind_eq_bind, Option.bind_eq_some_iff] at hrun
    obtain ⟨next, hcontact, hrun⟩ := hrun
    obtain ⟨hnext, hcopies⟩ := contact_some hidle hne hab hba hsmall hcontact
    rw [ih hnext (hrest next hcontact) hrun, hcopies]
    rfl

theorem runSchedule_isSome (hsmall : P.SmallFilters) (hencrypts : P.Encrypts)
    (hidle : ∀ i, Idle (sim.engine i)) (hsound : ∀ i, (sim.engine i).Sound)
    (hsmooth : sim.SmoothRun orders events) : (sim.runSchedule orders events).isSome := by
  induction events generalizing sim orders with
  | nil => rfl
  | cons event events ih =>
    obtain ⟨tick, a, b⟩ := event
    obtain ⟨hne, hab, hba, hrest⟩ := hsmooth
    obtain ⟨next, hcontact, hnextSound⟩ :=
      contact_isSome hidle hne hab hba hsmall hencrypts hsound
    have hnext := (contact_some hidle hne hab hba hsmall hcontact).1
    rw [runSchedule, hcontact]
    exact ih hnext hnextSound (hrest next hcontact)

theorem hasEnvelope_iff {id : EnvelopeId} :
    sim.hasEnvelope node id = (sim.copies id node).isSome := by
  rw [hasEnvelope, Store.contains, copies, Option.isSome_map]

theorem positive_copies (hidle : ∀ i, Idle (sim.engine i)) (id : EnvelopeId) :
    Flood.Positive (sim.copies id) := by
  intro i hops h
  obtain ⟨x, hx, rfl⟩ := Option.map_eq_some_iff.mp h
  have hne : x.ttlHops.toNat ≠ 0 := fun hz =>
    (hidle i).hops id x hx (UInt8.toNat_inj.mp hz)
  omega

end Schedule

end Simulation

section Start

variable {d d' : DurableStore P} {now : UInt64} {e next : RelayEngine P} {disk : EncryptedStore}

theorem memory_openStore (hfresh : d.disk.db.table = ∅)
    (h : (DurableStore.openStore now).run d = .ok () d') : d'.memory = d.memory := by
  obtain ⟨⟨⟩, d₁, hinit, h⟩ := Method.run_bind_ok.mp h
  obtain ⟨ids, d₂, hids, hreload⟩ := Method.run_bind_ok.mp h
  obtain ⟨disk₁, hinit₁, rfl⟩ := Method.run_zoom_ok.mp hinit
  obtain ⟨disk₂, hids₂, rfl⟩ := Method.run_zoom_ok.mp hids
  obtain ⟨⟨⟩, s, hcreate, htable⟩ := Method.run_bind_ok.mp hinit₁
  have hempty : disk₁.table = ∅ :=
    (EncryptedStore.call_ok htable).2.trans ((EncryptedStore.call_ok hcreate).2.trans hfresh)
  have hnone := (EncryptedStore.call_ok hids₂).1
  rw [hempty] at hnone
  cases hnone
  cases hreload
  rfl

theorem idle_openNode (hfresh : disk.db.table = ∅) (h : Simulation.openNode P disk = some e) :
    Idle e := by
  rw [Simulation.openNode] at h
  split at h
  · next store hrun =>
    cases h
    have hmemory : (RelayEngine.new store).held = .new P 1000 := memory_openStore hfresh hrun
    refine ⟨fun _ => rfl, rfl, rfl, by rw [hmemory]; rfl, fun id x hx => ?_⟩
    rw [hmemory, Store.get_new] at hx
    cases hx
  · cases h

theorem Idle.offer (h : Idle e) (x : Envelope P) : Idle (e.offer now x disk) where
  peers := h.peers
  difficulty := h.difficulty
  rateLimit := h.rateLimit
  capacity := (Store.accept_offered e.held x now).capacity_eq.trans h.capacity
  hops id y hy := by
    rcases RelayEngine.held_offer_cases hy with hy | ⟨rfl, hne⟩
    · exact h.hops id y hy
    · exact hne

namespace Simulation

variable {sim sim₀ : Simulation P n} {compositions : List (Fin n × Envelope P × UInt64)}
  {size_le : n ≤ UInt64.size} {faults : Fin n → List (Option Stage)}
  {nonces : Fin n → List (Bytes 12)}

theorem idle_new (h : new P size_le faults nonces = some sim) (i : Fin n) :
    Idle (sim.engine i) := by
  rw [new] at h
  split at h
  · cases h
    have hfresh : (freshDisk i (faults i) (nonces i)).db.table = ∅ := rfl
    exact idle_openNode hfresh (Option.some_get _).symm
  · cases h

theorem idle_composeAt {i : Fin n} {x : Envelope P} (hidle : ∀ j, Idle (sim₀.engine j))
    (h : sim₀.composeAt i x now = some sim) (j : Fin n) : Idle (sim.engine j) := by
  have houtcome := RelayEngine.composeLocal_outcome (sim₀.engine i) x now
  rw [composeAt] at h
  generalize (RelayEngine.composeLocal x now).run (sim₀.engine i) = result at h houtcome
  cases houtcome with
  | unsolvable | diskFault => cases h
  | offered =>
    cases h
    by_cases hj : j = i
    · subst hj
      simp only [setEngine, Function.update_self]
      exact (hidle j).offer x
    · simp only [setEngine, Function.update_of_ne hj]
      exact hidle j

theorem idle_composeAll (hidle : ∀ i, Idle (sim₀.engine i))
    (h : sim₀.composeAll compositions = some sim) : ∀ i, Idle (sim.engine i) := by
  induction compositions generalizing sim₀ with
  | nil =>
    cases h
    exact hidle
  | cons composition compositions ih =>
    simp only [composeAll, Option.bind_eq_bind, Option.bind_eq_some_iff] at h
    obtain ⟨next, hcompose, hrest⟩ := h
    exact ih (idle_composeAt hidle hcompose) hrest

/-- What a node holds when the schedule starts reaches everyone it can reach by contacts one
after the other, as long as no node on the way can be reached sooner with fewer hops left.
Without disk faults the schedule comes to its end. -/
theorem delivers (hsmall : P.SmallFilters)
    (hnew : Simulation.new P size_le faults nonces = some sim₀)
    (hcompose : sim₀.composeAll compositions = some sim) {orders : Nat → Nat → Shuffle}
    {events : List (UInt64 × Fin n × Fin n)} (hsmooth : sim.SmoothRun orders events)
    {origin : Fin n} {envelope : Envelope P}
    (horigin : (sim.engine origin).held.get envelope.id = some envelope) :
    (∀ sim', sim.runSchedule orders events = some sim' → ∀ node length,
      Flood.Arrives (sim.copies envelope.id) origin envelope.ttlHops.toNat (events.map (·.2))
        length node →
      length ≤ envelope.ttlHops.toNat - 1 → sim'.hasEnvelope node envelope.id = true) ∧
      (P.Encrypts → (∀ i, (sim.engine i).Sound) → (sim.runSchedule orders events).isSome) := by
  have hidle := idle_composeAll (idle_new hnew) hcompose
  refine ⟨fun sim' hrun node length harrives hle => ?_, fun hencrypts hsound =>
    runSchedule_isSome hsmall hencrypts hidle hsound hsmooth⟩
  have hcopy : sim.copies envelope.id origin = some envelope.ttlHops.toNat := by
    rw [copies, horigin, Option.map_some]
  have hpositive := positive_copies hidle envelope.id
  have hhops := hpositive origin _ hcopy
  rw [hasEnvelope_iff, copies_runSchedule hsmall hidle hsmooth hrun]
  exact harrives.copy hpositive hcopy (by omega)

section Examples

def inOrder (_ _ : Nat) : Shuffle where
  apply frames := frames
  perm _ := .refl _

def toySim₀ : Simulation toyPrimitives 4 :=
  (new toyPrimitives (by decide) (fun _ => []) (fun _ => [])).get (by decide +kernel)

def toySim : Simulation toyPrimitives 4 :=
  (toySim₀.composeAll [(0, toyEnvelope 3, 0)]).get (by decide +kernel)

def toySchedule : List (UInt64 × Fin 4 × Fin 4) := [(1, 0, 1), (2, 1, 2), (3, 0, 2), (4, 2, 3)]

def toySimAfter : Simulation toyPrimitives 4 :=
  (toySim.runSchedule inOrder toySchedule).get (by decide +kernel)

theorem smallFilters_toyPrimitives : toyPrimitives.SmallFilters := by
  intro items h
  have hbits : toyPrimitives.bloomBits items = (items * 9585059 + 999999) / 1000000 := rfl
  omega

theorem smoothRun_toySim : toySim.SmoothRun inOrder toySchedule := by decide +kernel

theorem delivers_toySim : toySimAfter.hasEnvelope 2 (toyEnvelope 3).id = true := by
  have horigin : (toySim.engine 0).held.get (toyEnvelope 3).id = some (toyEnvelope 3) := by
    decide +kernel
  have hcopies : toySim.copies (toyEnvelope 3).id 1 = none := by decide +kernel
  have hunshadowed : Flood.Unshadowed (toySim.copies (toyEnvelope 3).id) [] 2 1 := by
    intro other budget length hother hjourney
    rw [← hjourney.eq_of_nil, hcopies] at hother
    cases hother
  have hclear : Flood.Clear (toySim.copies (toyEnvelope 3).id) 0 3 ([] ++ [(0, 1)]) 1 1 :=
    .hop .start (.inl rfl) hunshadowed
  have harrives : Flood.Arrives (toySim.copies (toyEnvelope 3).id) 0 3
      (([] ++ [(0, 1)]) ++ [(1, 2)]) 2 2 := .hop hclear (.inl rfl)
  have hdelivers := delivers (n := 4) smallFilters_toyPrimitives (Option.some_get _).symm
    (Option.some_get _).symm smoothRun_toySim horigin
  exact hdelivers.1 toySimAfter (Option.some_get _).symm 2 2 harrives.wait.wait (by decide)

/-- Without the condition on the way there, not everyone is reached: node 2 takes the copy that
came over two contacts, and has no hop left for node 3 when the copy from node 0 comes along. -/
theorem not_delivers : ¬ ∀ (P : Primitives) (n : Nat) (size_le : n ≤ UInt64.size)
    (faults : Fin n → List (Option Stage)) (nonces : Fin n → List (Bytes 12))
    (compositions : List (Fin n × Envelope P × UInt64)) (sim₀ sim sim' : Simulation P n)
    (orders : Nat → Nat → Shuffle) (events : List (UInt64 × Fin n × Fin n))
    (origin node : Fin n) (envelope : Envelope P) (length : Nat), P.SmallFilters →
    new P size_le faults nonces = some sim₀ → sim₀.composeAll compositions = some sim →
    sim.SmoothRun orders events →
    (sim.engine origin).held.get envelope.id = some envelope →
    sim.runSchedule orders events = some sim' →
    Flood.Journey origin (events.map (·.2)) length node →
    length ≤ envelope.ttlHops.toNat - 1 → sim'.hasEnvelope node envelope.id = true := by
  intro hdelivers
  have hbridge : Flood.Journey (0 : Fin 4) ([(0, 1), (1, 2)] ++ [(0, 2)]) 1 2 :=
    .hop .start (.inl rfl)
  have hjourney : Flood.Journey (0 : Fin 4) (toySchedule.map (·.2)) 2 3 :=
    .hop hbridge (.inl rfl)
  have hmissed : toySimAfter.hasEnvelope 3 (toyEnvelope 3).id = false := by decide +kernel
  have hreached := hdelivers toyPrimitives 4 _ _ _ _ _ toySim toySimAfter inOrder toySchedule 0 3
    (toyEnvelope 3) 2 smallFilters_toyPrimitives (Option.some_get _).symm (Option.some_get _).symm
    smoothRun_toySim (by decide +kernel) (Option.some_get _).symm hjourney (by decide)
  rw [hmissed] at hreached
  cases hreached

end Examples

end Simulation

end Start

end ProjectMesh.Routing
