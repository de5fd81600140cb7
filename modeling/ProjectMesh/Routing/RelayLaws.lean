import ProjectMesh.Routing.EngineLaws
import ProjectMesh.Routing.Relay

namespace ProjectMesh.Routing

open ProjectMesh.Lib

variable {P : Primitives}

namespace ContactMessage

variable {e : Envelope P} {nonce : UInt64} {f : BloomFilter} {m : ContactMessage P}

/-- A frame's length prefix is a `u32`: a longer payload makes a frame nobody accepts. -/
def Fits (m : ContactMessage P) : Prop := m.payload.length < 2 ^ 32

instance : Decidable m.Fits := inferInstanceAs (Decidable (_ < _))

theorem leNat_leBytes_cons {n : Nat} {b₀ b₁ b₂ b₃ : UInt8} {rest payload : List UInt8}
    (h : leBytes 4 n ++ payload = b₀ :: b₁ :: b₂ :: b₃ :: rest) :
    leNat [b₀, b₁, b₂, b₃] = n % 2 ^ 32 ∧ rest = payload := by
  have hlen : (leBytes 4 n).length = ([b₀, b₁, b₂, b₃] : List UInt8).length := length_leBytes 4 n
  have happ : leBytes 4 n ++ payload = [b₀, b₁, b₂, b₃] ++ rest := h
  obtain ⟨hhead, htail⟩ := List.append_inj happ hlen
  rw [← hhead, leNat_leBytes, htail]
  exact ⟨rfl, rfl⟩

theorem fromBytes_toBytes (m : ContactMessage P) :
    fromBytes P m.toBytes =
      if m.Fits then
        if m.tag = 0 then .summary <$> BloomFilter.fromBytes m.payload
        else readData P m.payload
      else .error (.malformed "contact message length mismatch") := by
  have htag : m.tag = 0 ∨ m.tag = 1 := by cases m <;> simp [tag]
  obtain ⟨b₀, b₁, b₂, b₃, rest, hrest⟩ : ∃ b₀ b₁ b₂ b₃ rest,
      leBytes 4 m.payload.length ++ m.payload = b₀ :: b₁ :: b₂ :: b₃ :: rest :=
    ⟨_, _, _, _, _, rfl⟩
  obtain ⟨hnum, rfl⟩ := leNat_leBytes_cons hrest
  rw [toBytes, hrest, fromBytes, hnum]
  simp only [ne_eq, not_true_eq_false, if_false]
  by_cases hfits : m.Fits
  · have hmod : m.payload.length % 2 ^ 32 = m.payload.length := Nat.mod_eq_of_lt hfits
    simp only [hmod, not_true_eq_false, if_false, if_pos hfits]
    rcases htag with h | h <;> simp [h]
  · have hmod : m.payload.length ≠ m.payload.length % 2 ^ 32 := by
      have hle : 2 ^ 32 ≤ m.payload.length := Nat.not_lt.mp hfits
      omega
    simp only [hmod, not_false_eq_true, if_true, if_neg hfits]

theorem readData_payload (h : e.sealed.length < 2 ^ 32) :
    readData P (data e nonce).payload = .ok (data e nonce) := by
  have hnum : UInt64.ofNat (leNat (leBytes 8 nonce.toNat)) = nonce := Envelope.ofNat_leNat_expiry _
  simp only [payload, readData, Cursor.split_append_of_length (length_leBytes 8 _), bind,
    Except.bind, Envelope.fromBytes_toBytes, if_pos h, hnum]
  rfl

theorem length_sealed_lt (h : (data e nonce).Fits) : e.sealed.length < 2 ^ 32 := by
  have hlen : e.sealed.length ≤ (data e nonce).payload.length := by
    simp only [payload, Envelope.toBytes, Envelope.encodeBody, List.length_append,
      List.length_cons]
    omega
  exact Nat.lt_of_le_of_lt hlen h

theorem fromBytes_data (h : (data e nonce).Fits) :
    fromBytes P (data e nonce).toBytes = .ok (data e nonce) := by
  rw [fromBytes_toBytes, if_pos h]
  exact readData_payload (length_sealed_lt h)

theorem fromBytes_data_of_not_fits (h : ¬ (data e nonce).Fits) :
    fromBytes P (data e nonce).toBytes =
      .error (.malformed "contact message length mismatch") := by
  rw [fromBytes_toBytes, if_neg h]

theorem eq_of_fromBytes_data (h : fromBytes P (data e nonce).toBytes = .ok m) :
    m = data e nonce ∧ (data e nonce).Fits := by
  by_cases hfits : (data e nonce).Fits
  · rw [fromBytes_data hfits] at h
    exact ⟨(Except.ok.inj h).symm, hfits⟩
  · rw [fromBytes_data_of_not_fits hfits] at h
    cases h

theorem fromBytes_summary (h : f.numBits < 2 ^ 32) :
    fromBytes P (summary (P := P) f).toBytes = .ok (summary f) := by
  have hfits : (summary (P := P) f).Fits := by
    simp only [Fits, payload, BloomFilter.toBytes, List.length_append, length_leBytes,
      List.length_cons, f.length]
    omega
  rw [fromBytes_toBytes, if_pos hfits]
  simp only [tag, if_true, payload, BloomFilter.fromBytes_toBytes h]
  rfl

theorem summary_of_fromBytes (h : fromBytes P (summary (P := P) f).toBytes = .ok m) :
    ∃ g, m = summary g := by
  rw [fromBytes_toBytes] at h
  split at h
  · simp only [tag, if_true] at h
    cases hf : BloomFilter.fromBytes (summary (P := P) f).payload with
    | error err =>
      rw [hf] at h
      cases h
    | ok g =>
      rw [hf] at h
      cases h
      exact ⟨g, rfl⟩
  · cases h

end ContactMessage

/-- A frame can hold the envelope: the length prefix is a `u32`. -/
def Envelope.Sendable (e : Envelope P) : Prop := (ContactMessage.data e 0).Fits

namespace RelayEngine

variable {now : UInt64}

theorem fits_data_iff {envelope : Envelope P} {nonce : UInt64} :
    (ContactMessage.data envelope nonce).Fits ↔ envelope.Sendable := by
  simp [ContactMessage.Fits, Envelope.Sendable, ContactMessage.payload]

theorem sendable_decrementTtl {envelope relayed : Envelope P}
    (h : decrementTtl envelope = some relayed) : relayed.Sendable ↔ envelope.Sendable := by
  obtain ⟨-, rfl⟩ := decrementTtl_eq_some_iff.mp h
  simp [ContactMessage.Fits, Envelope.Sendable, ContactMessage.payload, Envelope.toBytes,
    Envelope.encodeBody]

theorem isExpired_decrementTtl {envelope relayed : Envelope P}
    (h : decrementTtl envelope = some relayed) :
    relayed.isExpired now = envelope.isExpired now := by
  rw [Envelope.isExpired, expiresAt_decrementTtl h, Envelope.isExpired]

end RelayEngine

section Disk

open Method (Returns)

theorem returns_call (text : Stage → Option String) (use : Table → Except MeshError α × Table) :
    Returns (EncryptedStore.call text use) := by
  refine Returns.zoom fun db db' h => ?_
  simp only [Database.call, EStateM.run_bind, EStateM.run_get] at h
  split at h
  · cases h
  · cases hresult : (use db.table).1 with
    | ok a =>
      simp only [hresult] at h
      cases h
    | error err =>
      simp only [hresult] at h
      cases h

theorem returns_remove (id : EnvelopeId) : Returns (EncryptedStore.remove id) := returns_call _ _

theorem returns_put (e : Envelope P) : Returns (EncryptedStore.put P e) := by
  refine Returns.bind ?_ fun nonce => Returns.bind ?_ fun self => Returns.bind ?_ fun sealed => ?_
  · rintro s t ⟨⟩
  · exact Method.returns_get
  · exact Method.returns_ofExcept _
  · exact returns_call _ _

end Disk

namespace DurableStore

variable {d : DurableStore P} {e : Envelope P} {now : UInt64}

def Gives (memory : Store P) (a : α) (x : Method MeshError (DurableStore P) α) : Prop :=
  ∀ disk, (∃ disk', x.run ⟨memory, disk⟩ = .ok a ⟨memory, disk'⟩) ∨
    ∃ err disk', x.run ⟨memory, disk⟩ = .error (.err err) ⟨memory, disk'⟩

variable {memory : Store P} {a : α}

theorem gives_pure : Gives memory a (pure a) := fun disk => .inl ⟨disk, rfl⟩

theorem Gives.onDisk {x : Method MeshError EncryptedStore β}
    {y : β → Method MeshError (DurableStore P) α} (hx : Method.Returns x)
    (hy : ∀ b, Gives memory a (y b)) : Gives memory a (onDisk x >>= y) := by
  intro disk
  rw [EStateM.run_bind]
  cases hrun : x.run disk with
  | ok b disk' =>
    rw [onDisk_run hrun]
    exact hy b disk'
  | error f disk' =>
    cases f with
    | panic => exact absurd hrun (hx _ _)
    | err err =>
      rw [onDisk_error hrun]
      exact .inr ⟨err, disk', rfl⟩

theorem accept_run (d : DurableStore P) (e : Envelope P) (now : UInt64) :
    (∃ disk, (accept e now).run d =
        .ok (d.memory.accept e now).1.1 ⟨(d.memory.accept e now).2, disk⟩) ∨
      ∃ err disk, (accept e now).run d =
        .error (.err err) ⟨(d.memory.accept e now).2, disk⟩ := by
  obtain ⟨⟨⟨outcome, evicted⟩, memory⟩, hresult⟩ :
    ∃ result, d.memory.accept e now = result := ⟨_, rfl⟩
  simp only [hresult, accept, EStateM.run_bind, EStateM.run_get, EStateM.run_set]
  have hput : Gives memory outcome (if outcome = Accept.new then do
      DurableStore.onDisk (EncryptedStore.put P e)
      pure outcome
    else pure outcome) := by
    split
    · exact Gives.onDisk (returns_put e) fun _ => gives_pure
    · exact gives_pure
  cases evicted with
  | none => exact hput d.disk
  | some victim => exact Gives.onDisk (returns_remove victim) (fun _ => hput) d.disk

end DurableStore

namespace RelayEngine

variable (e : RelayEngine P) (fromPeer : UInt64) (bytes : List UInt8) (now : UInt64)
  (envelope : Envelope P)

/-- The engine after its index was offered an envelope, whatever the disk is like now. -/
def offer (disk : EncryptedStore) : RelayEngine P :=
  { e with store := ⟨(e.held.accept envelope now).2, disk⟩ }

/-- What a summary is answered with before anything is pushed. -/
def reply : List Outbound :=
  if (e.peerState fromPeer).summarySent then [] else [(fromPeer, e.summary)]

def greeted : RelayEngine P :=
  if (e.peerState fromPeer).summarySent then e
  else e.setPeer fromPeer { e.peerState fromPeer with summarySent := true }

/-- The search for a nonce ends for every envelope that would be pushed. -/
def Solvable (envelopes : List (Envelope P)) : Prop :=
  ∀ relayed ∈ envelopes.filterMap decrementTtl,
    (Puzzle.solve P relayed.id e.puzzleDifficultyBits).isSome

def pushFrames (envelopes : List (Envelope P)) : List Outbound :=
  (envelopes.filterMap decrementTtl).map fun relayed =>
    (fromPeer, (ContactMessage.data relayed
      ((Puzzle.solve P relayed.id e.puzzleDifficultyBits).getD 0)).toBytes)

def budget (size : Nat) : Bool × RateLimiter :=
  (e.peerState fromPeer).rate.allow now size e.rateLimit

def charged (size : Nat) : RelayEngine P :=
  e.setPeer fromPeer { e.peerState fromPeer with rate := (e.budget fromPeer now size).2 }

inductive FrameOutcome :
    EStateM.Result (Fault MeshError) (RelayEngine P) (List Outbound) → Prop
  | malformed {err} : ContactMessage.fromBytes P bytes = .error err →
    FrameOutcome (.error (.err err) e)
  | unsolvable {filter t} : ContactMessage.fromBytes P bytes = .ok (.summary filter) →
    ¬ e.Solvable (e.held.missingFromBloom filter) → FrameOutcome (.error .panic t)
  | summary {filter} : ContactMessage.fromBytes P bytes = .ok (.summary filter) →
    e.Solvable (e.held.missingFromBloom filter) →
    FrameOutcome (.ok (e.reply fromPeer ++ e.pushFrames fromPeer (e.held.missingFromBloom filter))
      (e.greeted fromPeer))
  | unproven {envelope : Envelope P} {nonce : UInt64} :
    ContactMessage.fromBytes P bytes = .ok (.data envelope nonce) →
    Puzzle.verify P envelope.id nonce e.puzzleDifficultyBits = false → FrameOutcome (.ok [] e)
  | overBudget {envelope : Envelope P} {nonce : UInt64} :
    ContactMessage.fromBytes P bytes = .ok (.data envelope nonce) →
    Puzzle.verify P envelope.id nonce e.puzzleDifficultyBits = true →
    (e.budget fromPeer now bytes.length).1 = false →
    FrameOutcome (.ok [] (e.charged fromPeer now bytes.length))
  | offered {envelope : Envelope P} {nonce : UInt64} {disk : EncryptedStore} :
    ContactMessage.fromBytes P bytes = .ok (.data envelope nonce) →
    Puzzle.verify P envelope.id nonce e.puzzleDifficultyBits = true →
    (e.budget fromPeer now bytes.length).1 = true →
    FrameOutcome (.ok
      (if (e.held.accept envelope now).1.1 = .new then
        (e.charged fromPeer now bytes.length).relayToOthers envelope nonce fromPeer
      else [])
      ((e.charged fromPeer now bytes.length).offer now envelope disk))
  | diskFault {envelope : Envelope P} {nonce : UInt64} {err : MeshError}
    {disk : EncryptedStore} :
    ContactMessage.fromBytes P bytes = .ok (.data envelope nonce) →
    Puzzle.verify P envelope.id nonce e.puzzleDifficultyBits = true →
    (e.budget fromPeer now bytes.length).1 = true →
    FrameOutcome (.error (.err err)
      ((e.charged fromPeer now bytes.length).offer now envelope disk))

variable {e fromPeer bytes now envelope}

theorem solvable_cons {envelopes : List (Envelope P)} :
    e.Solvable (envelope :: envelopes) ↔
      (∀ relayed, decrementTtl envelope = some relayed →
        (Puzzle.solve P relayed.id e.puzzleDifficultyBits).isSome) ∧ e.Solvable envelopes := by
  cases h : decrementTtl envelope with
  | none => simp [Solvable, h]
  | some relayed => simp [Solvable, h]

theorem solve_run_some {id : EnvelopeId} {nonce : UInt64}
    (h : Puzzle.solve P id e.puzzleDifficultyBits = some nonce) :
    (e.solve id).run e = .ok nonce e := by
  rw [solve, h]
  rfl

theorem solve_run_none {id : EnvelopeId} (h : Puzzle.solve P id e.puzzleDifficultyBits = none) :
    (e.solve id).run e = .error .panic e := by
  rw [solve, h]
  rfl

theorem push_cons_none {envelopes : List (Envelope P)} (h : decrementTtl envelope = none) :
    (push fromPeer (envelope :: envelopes)).run e = (push fromPeer envelopes).run e := by
  rw [push, EStateM.run_bind, EStateM.run_get, h]

theorem push_cons_some {relayed : Envelope P} {envelopes : List (Envelope P)}
    (h : decrementTtl envelope = some relayed) :
    (push fromPeer (envelope :: envelopes)).run e = (e.solve relayed.id >>= fun nonce =>
      push fromPeer envelopes >>= fun outbound =>
        pure ((fromPeer, (ContactMessage.data relayed nonce).toBytes) :: outbound)).run e := by
  rw [push, EStateM.run_bind, EStateM.run_get, h]

theorem pushFrames_cons_none {envelopes : List (Envelope P)} (h : decrementTtl envelope = none) :
    e.pushFrames fromPeer (envelope :: envelopes) = e.pushFrames fromPeer envelopes := by
  rw [pushFrames, List.filterMap_cons_none h, pushFrames]

theorem pushFrames_cons_some {relayed : Envelope P} {envelopes : List (Envelope P)}
    {nonce : UInt64} (h : decrementTtl envelope = some relayed)
    (hsolve : Puzzle.solve P relayed.id e.puzzleDifficultyBits = some nonce) :
    e.pushFrames fromPeer (envelope :: envelopes) =
      (fromPeer, (ContactMessage.data relayed nonce).toBytes) ::
        e.pushFrames fromPeer envelopes := by
  rw [pushFrames, List.filterMap_cons_some h, List.map_cons, hsolve, Option.getD_some, pushFrames]

theorem push_run (e : RelayEngine P) (fromPeer : UInt64) (envelopes : List (Envelope P)) :
    (e.Solvable envelopes ∧
        (push fromPeer envelopes).run e = .ok (e.pushFrames fromPeer envelopes) e) ∨
      ¬ e.Solvable envelopes ∧ (push fromPeer envelopes).run e = .error .panic e := by
  induction envelopes with
  | nil => exact .inl ⟨fun _ h => absurd h List.not_mem_nil, rfl⟩
  | cons envelope envelopes ih =>
    rw [solvable_cons]
    cases hdec : decrementTtl envelope with
    | none =>
      rw [push_cons_none hdec, pushFrames_cons_none hdec]
      rcases ih with ⟨hsolvable, hrun⟩ | ⟨hsolvable, hrun⟩
      · exact .inl ⟨⟨nofun, hsolvable⟩, hrun⟩
      · exact .inr ⟨fun h => hsolvable h.2, hrun⟩
    | some relayed =>
      rw [push_cons_some hdec, EStateM.run_bind]
      cases hsolve : Puzzle.solve P relayed.id e.puzzleDifficultyBits with
      | none =>
        rw [solve_run_none hsolve]
        refine .inr ⟨fun h => ?_, rfl⟩
        have hsome := h.1 relayed rfl
        rw [hsolve] at hsome
        cases hsome
      | some nonce =>
        rw [solve_run_some hsolve, pushFrames_cons_some hdec hsolve]
        dsimp only
        rw [EStateM.run_bind]
        rcases ih with ⟨hsolvable, hrun⟩ | ⟨hsolvable, hrun⟩
        · rw [hrun]
          refine .inl ⟨⟨fun r hr => ?_, hsolvable⟩, rfl⟩
          cases hr
          rw [hsolve]
          rfl
        · rw [hrun]
          exact .inr ⟨fun h => hsolvable h.2, rfl⟩

theorem pushFrames_congr {t : RelayEngine P} (h : t.puzzleDifficultyBits = e.puzzleDifficultyBits)
    (envelopes : List (Envelope P)) :
    t.pushFrames fromPeer envelopes = e.pushFrames fromPeer envelopes := by
  rw [pushFrames, pushFrames, h]

theorem solvable_congr {t : RelayEngine P} (h : t.puzzleDifficultyBits = e.puzzleDifficultyBits)
    (envelopes : List (Envelope P)) : t.Solvable envelopes ↔ e.Solvable envelopes := by
  rw [Solvable, Solvable, h]

theorem onSummary_run (e : RelayEngine P) (fromPeer : UInt64) (filter : BloomFilter) :
    (e.Solvable (e.held.missingFromBloom filter) ∧
      (onSummary fromPeer filter).run e =
        .ok (e.reply fromPeer ++ e.pushFrames fromPeer (e.held.missingFromBloom filter))
          (e.greeted fromPeer)) ∨
      ¬ e.Solvable (e.held.missingFromBloom filter) ∧
        ∃ t, (onSummary fromPeer filter).run e = .error .panic t := by
  have hbits : (e.greeted fromPeer).puzzleDifficultyBits = e.puzzleDifficultyBits := by
    rw [greeted]
    split <;> rfl
  have hpush := push_run (e.greeted fromPeer) fromPeer (e.held.missingFromBloom filter)
  rw [solvable_congr hbits, pushFrames_congr hbits] at hpush
  have hrun : (onSummary fromPeer filter).run e =
      (do
        let pushed ← push fromPeer (e.held.missingFromBloom filter)
        return e.reply fromPeer ++ pushed).run (e.greeted fromPeer) := by
    simp only [onSummary, EStateM.run_bind, EStateM.run_get, reply, greeted]
    cases (e.peerState fromPeer).summarySent <;> rfl
  rcases hpush with ⟨hsolvable, hpush⟩ | ⟨hsolvable, hpush⟩
  · refine .inl ⟨hsolvable, ?_⟩
    rw [hrun, EStateM.run_bind, hpush]
    rfl
  · refine .inr ⟨hsolvable, e.greeted fromPeer, ?_⟩
    rw [hrun, EStateM.run_bind, hpush]

theorem onStore_ok {x : Method MeshError (DurableStore P) α} {a : α} {store : DurableStore P}
    (h : x.run e.store = .ok a store) : (onStore x).run e = .ok a { e with store := store } :=
  Method.run_zoom_ok.mpr ⟨store, h, rfl⟩

theorem onStore_error {x : Method MeshError (DurableStore P) α} {f : Fault MeshError}
    {store : DurableStore P} (h : x.run e.store = .error f store) :
    (onStore x).run e = .error f { e with store := store } :=
  Method.run_zoom_error.mpr ⟨store, h, rfl⟩

section OnData

variable {size : Nat} {nonce : UInt64}

theorem onData_unproven
    (hverify : Puzzle.verify P envelope.id nonce e.puzzleDifficultyBits = false) :
    (onData fromPeer size envelope nonce now).run e = .ok [] e := by
  simp only [onData, EStateM.run_bind, EStateM.run_get, hverify, Bool.not_false, if_true,
    EStateM.run_pure]

theorem onData_overBudget
    (hverify : Puzzle.verify P envelope.id nonce e.puzzleDifficultyBits = true)
    (hbudget : (e.budget fromPeer now size).1 = false) :
    (onData fromPeer size envelope nonce now).run e = .ok [] (e.charged fromPeer now size) := by
  have hallow : ((e.peerState fromPeer).rate.allow now size e.rateLimit).1 = false := hbudget
  simp only [onData, EStateM.run_bind, EStateM.run_get, hverify, Bool.not_true,
    Bool.false_eq_true, if_false, EStateM.run_set, hallow, Bool.not_false, if_true,
    EStateM.run_pure]
  rfl

theorem onData_admitted
    (hverify : Puzzle.verify P envelope.id nonce e.puzzleDifficultyBits = true)
    (hbudget : (e.budget fromPeer now size).1 = true) :
    (onData fromPeer size envelope nonce now).run e =
      (onStore (DurableStore.accept envelope now) >>= fun outcome => do
        let self ← get
        if outcome = .new then return self.relayToOthers envelope nonce fromPeer
        else return []).run (e.charged fromPeer now size) := by
  have hallow : ((e.peerState fromPeer).rate.allow now size e.rateLimit).1 = true := hbudget
  simp only [onData, EStateM.run_bind, EStateM.run_get, hverify, Bool.not_true,
    Bool.false_eq_true, if_false, EStateM.run_set, hallow]
  rfl

theorem onData_ok {outcome : Accept} {store : DurableStore P}
    (hverify : Puzzle.verify P envelope.id nonce e.puzzleDifficultyBits = true)
    (hbudget : (e.budget fromPeer now size).1 = true)
    (hrun : (DurableStore.accept envelope now).run e.store = .ok outcome store) :
    (onData fromPeer size envelope nonce now).run e =
      .ok (if outcome = .new then
          (e.charged fromPeer now size).relayToOthers envelope nonce fromPeer
        else []) { e.charged fromPeer now size with store := store } := by
  have hstore : (DurableStore.accept envelope now).run (e.charged fromPeer now size).store =
    .ok outcome store := hrun
  rw [onData_admitted hverify hbudget, EStateM.run_bind, onStore_ok hstore]
  dsimp only
  rw [EStateM.run_bind, EStateM.run_get]
  by_cases hnew : outcome = .new
  · simp only [if_pos hnew]
    rfl
  · simp only [if_neg hnew]
    rfl

theorem onData_error {fault : Fault MeshError} {store : DurableStore P}
    (hverify : Puzzle.verify P envelope.id nonce e.puzzleDifficultyBits = true)
    (hbudget : (e.budget fromPeer now size).1 = true)
    (hrun : (DurableStore.accept envelope now).run e.store = .error fault store) :
    (onData fromPeer size envelope nonce now).run e =
      .error fault { e.charged fromPeer now size with store := store } := by
  have hstore : (DurableStore.accept envelope now).run (e.charged fromPeer now size).store =
    .error fault store := hrun
  rw [onData_admitted hverify hbudget, EStateM.run_bind, onStore_error hstore]

theorem onFrame_malformed {err : MeshError} (h : ContactMessage.fromBytes P bytes = .error err) :
    (onFrame fromPeer bytes now).run e = .error (.err err) e := by
  rw [onFrame, h, EStateM.run_bind, Method.run_ofExcept_error]

theorem onFrame_summary {filter : BloomFilter}
    (h : ContactMessage.fromBytes P bytes = .ok (.summary filter)) :
    (onFrame fromPeer bytes now).run e = (onSummary fromPeer filter).run e := by
  rw [onFrame, h, EStateM.run_bind, Method.run_ofExcept_ok]

theorem onFrame_data (h : ContactMessage.fromBytes P bytes = .ok (.data envelope nonce)) :
    (onFrame fromPeer bytes now).run e =
      (onData fromPeer bytes.length envelope nonce now).run e := by
  rw [onFrame, h, EStateM.run_bind, Method.run_ofExcept_ok]

end OnData

theorem onFrame_outcome (e : RelayEngine P) (fromPeer : UInt64) (bytes : List UInt8)
    (now : UInt64) : FrameOutcome e fromPeer bytes now ((onFrame fromPeer bytes now).run e) := by
  cases hmsg : ContactMessage.fromBytes P bytes with
  | error err =>
    rw [onFrame_malformed hmsg]
    exact .malformed hmsg
  | ok message =>
    cases message with
    | summary filter =>
      rw [onFrame_summary hmsg]
      rcases onSummary_run e fromPeer filter with ⟨hsolvable, h⟩ | ⟨hsolvable, t, h⟩
      · rw [h]
        exact .summary hmsg hsolvable
      · rw [h]
        exact .unsolvable hmsg hsolvable
    | data envelope nonce =>
      rw [onFrame_data hmsg]
      cases hverify : Puzzle.verify P envelope.id nonce e.puzzleDifficultyBits with
      | false =>
        rw [onData_unproven hverify]
        exact .unproven hmsg hverify
      | true =>
        cases hbudget : (e.budget fromPeer now bytes.length).1 with
        | false =>
          rw [onData_overBudget hverify hbudget]
          exact .overBudget hmsg hverify hbudget
        | true =>
          rcases DurableStore.accept_run e.store envelope now with ⟨disk, h⟩ | ⟨err, disk, h⟩
          · rw [onData_ok hverify hbudget h]
            exact .offered hmsg hverify hbudget
          · rw [onData_error hverify hbudget h]
            exact .diskFault hmsg hverify hbudget

inductive ComposeOutcome (e : RelayEngine P) (envelope : Envelope P) (now : UInt64) :
    EStateM.Result (Fault MeshError) (RelayEngine P) (Accept × List Outbound) → Prop
  | unsolvable : Puzzle.solve P envelope.id e.puzzleDifficultyBits = none →
    ComposeOutcome e envelope now (.error .panic e)
  | offered {nonce : UInt64} {disk : EncryptedStore} :
    Puzzle.solve P envelope.id e.puzzleDifficultyBits = some nonce →
    ComposeOutcome e envelope now (.ok
      ((e.held.accept envelope now).1.1,
        if (e.held.accept envelope now).1.1 = .new then e.relayToAll envelope nonce else [])
      (e.offer now envelope disk))
  | diskFault {nonce : UInt64} {err : MeshError} {disk : EncryptedStore} :
    Puzzle.solve P envelope.id e.puzzleDifficultyBits = some nonce →
    ComposeOutcome e envelope now (.error (.err err) (e.offer now envelope disk))

theorem composeLocal_unsolvable
    (h : Puzzle.solve P envelope.id e.puzzleDifficultyBits = none) :
    (composeLocal envelope now).run e = .error .panic e := by
  rw [composeLocal, EStateM.run_bind, EStateM.run_get]
  dsimp only
  rw [EStateM.run_bind, solve_run_none h]

theorem composeLocal_ok {nonce : UInt64} {outcome : Accept} {store : DurableStore P}
    (hsolve : Puzzle.solve P envelope.id e.puzzleDifficultyBits = some nonce)
    (hrun : (DurableStore.accept envelope now).run e.store = .ok outcome store) :
    (composeLocal envelope now).run e =
      .ok (outcome, if outcome = .new then e.relayToAll envelope nonce else [])
        { e with store := store } := by
  rw [composeLocal, EStateM.run_bind, EStateM.run_get]
  dsimp only
  rw [EStateM.run_bind, solve_run_some hsolve]
  dsimp only
  rw [EStateM.run_bind, onStore_ok hrun]
  dsimp only
  rw [EStateM.run_bind, EStateM.run_get]
  by_cases hnew : outcome = .new
  · simp only [if_pos hnew]
    rfl
  · simp only [if_neg hnew]
    rfl

theorem composeLocal_error {nonce : UInt64} {fault : Fault MeshError} {store : DurableStore P}
    (hsolve : Puzzle.solve P envelope.id e.puzzleDifficultyBits = some nonce)
    (hrun : (DurableStore.accept envelope now).run e.store = .error fault store) :
    (composeLocal envelope now).run e = .error fault { e with store := store } := by
  rw [composeLocal, EStateM.run_bind, EStateM.run_get]
  dsimp only
  rw [EStateM.run_bind, solve_run_some hsolve]
  dsimp only
  rw [EStateM.run_bind, onStore_error hrun]

theorem composeLocal_outcome (e : RelayEngine P) (envelope : Envelope P) (now : UInt64) :
    ComposeOutcome e envelope now ((composeLocal envelope now).run e) := by
  cases hsolve : Puzzle.solve P envelope.id e.puzzleDifficultyBits with
  | none =>
    rw [composeLocal_unsolvable hsolve]
    exact .unsolvable hsolve
  | some nonce =>
    rcases DurableStore.accept_run e.store envelope now with ⟨disk, h⟩ | ⟨err, disk, h⟩
    · rw [composeLocal_ok hsolve h]
      exact .offered hsolve
    · rw [composeLocal_error hsolve h]
      exact .diskFault hsolve

end RelayEngine

end ProjectMesh.Routing
