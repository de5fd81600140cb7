import ProjectMesh.Routing.ContactMerge
import ProjectMesh.Routing.DurableMirror
import ProjectMesh.Routing.MissedSends

namespace ProjectMesh.Routing

open ProjectMesh.Lib

variable {P : Primitives}

def Proven (P : Primitives) (difficultyBits : UInt8) (frame : List UInt8) : Prop :=
  ∃ (envelope : Envelope P) (nonce : UInt64),
    frame = (ContactMessage.data envelope nonce).toBytes ∧
      Puzzle.verify P envelope.id nonce difficultyBits = true

def Call.DropsUnproven (call : Call P) : Prop :=
  ∃ fromPeer bytes now envelope nonce, call.event = .frame fromPeer bytes now ∧
    ContactMessage.fromBytes P bytes = .ok (.data envelope nonce) ∧
      Puzzle.verify P envelope.id nonce call.before.puzzleDifficultyBits = false

def RelayEngine.KeepsDifficulty (e : RelayEngine P) (events : List (Event P))
    (difficultyBits : UInt8) : Prop :=
  e.puzzleDifficultyBits = difficultyBits ∧
    ∀ bits, Event.setPuzzleDifficulty bits ∈ events → bits = difficultyBits

namespace RelayEngine

variable {e next : RelayEngine P} {event : Event P} {outbound : List Outbound}
  {events : List (Event P)} {calls : List (Call P)} {call : Call P} {o : Outbound}
  {bits : UInt8}

theorem proven_relayTo {envelope : Envelope P} {nonce : UInt64} {exclude : UInt64 → Bool}
    (hverify : Puzzle.verify P envelope.id nonce bits = true)
    (h : o ∈ e.relayTo envelope nonce exclude) : Proven P bits o.2 := by
  obtain ⟨relayed, hdec, hframe⟩ := exists_of_mem_relayTo h
  refine ⟨relayed, nonce, hframe, ?_⟩
  rw [id_decrementTtl hdec]
  exact hverify

theorem proven_pushFrames {peer : UInt64} {envelopes : List (Envelope P)}
    (hsolvable : e.Solvable envelopes) (h : o ∈ e.pushFrames peer envelopes) :
    Proven P e.puzzleDifficultyBits o.2 := by
  obtain ⟨relayed, hrelayed, rfl⟩ := List.mem_map.mp h
  obtain ⟨nonce, hnonce⟩ := Option.isSome_iff_exists.mp (hsolvable relayed hrelayed)
  refine ⟨relayed, nonce, ?_, Puzzle.verify_of_solve hnonce⟩
  rw [hnonce, Option.getD_some]

/-- Every frame of a call is a summary, or proven at the difficulty of the call: the nonce was
searched for, or checked, in it. -/
theorem proven_act (hact : e.act event = some (outbound, next)) (ho : o ∈ outbound) :
    (∃ filter, o.2 = (ContactMessage.summary (P := P) filter).toBytes) ∨
      Proven P e.puzzleDifficultyBits o.2 := by
  cases event with
  | connected peer =>
    cases hact
    rw [List.mem_singleton.mp ho]
    exact .inl ⟨_, rfl⟩
  | lost | setPuzzleDifficulty | setRateLimits =>
    cases hact
    cases ho
  | compose envelope now =>
    rcases compose_acted hact with ⟨answer, h⟩ | ⟨rfl, err, h⟩
    · cases h with
      | offered hsolve =>
        split at ho
        · exact .inr (proven_relayTo (Puzzle.verify_of_solve hsolve) ho)
        · cases ho
    · cases ho
  | frame fromPeer bytes now =>
    rcases frame_acted hact with h | ⟨rfl, err, h⟩
    · cases h with
      | unproven | overBudget => cases ho
      | offered hmsg hverify =>
        split at ho
        · exact .inr (proven_relayTo hverify ho)
        · cases ho
      | summary hmsg hsolvable =>
        rcases List.mem_append.mp ho with ho | ho
        · rw [reply] at ho
          split at ho
          · cases ho
          · rw [List.mem_singleton.mp ho]
            exact .inl ⟨_, rfl⟩
        · exact .inr (proven_pushFrames hsolvable ho)
    · cases ho

theorem KeepsDifficulty.act (h : e.KeepsDifficulty (event :: events) bits)
    (hact : e.act event = some (outbound, next)) : next.KeepsDifficulty events bits := by
  refine ⟨?_, fun other hmem => h.2 other (List.mem_cons_of_mem _ hmem)⟩
  cases acted hact with
  | setPuzzleDifficulty => exact h.2 _ List.mem_cons_self
  | asked =>
    rw [← h.1, greeted]
    split <;> rfl
  | _ => exact h.1

theorem KeepsDifficulty.run (h : e.KeepsDifficulty events bits)
    (hrun : e.run events = some calls) (hcall : call ∈ calls) :
    call.before.puzzleDifficultyBits = bits := by
  induction events generalizing e calls with
  | nil =>
    cases hrun
    cases hcall
  | cons event events ih =>
    obtain ⟨outbound, next, rest, hact, hrest, rfl⟩ := run_cons_iff.mp hrun
    rcases List.mem_cons.mp hcall with rfl | hcall
    · exact h.1
    · exact ih (h.act hact) hrest hcall

/-- Every frame of every run is a summary, or reads as an envelope with a nonce that proves it at
the difficulty of its call, as long as it can say its length; and no engine of the same constant
difficulty drops it at its puzzle check. -/
theorem frames_are_proven (hrun : e.run events = some calls) (hcall : call ∈ calls)
    (ho : o ∈ call.outbound) :
    ((∃ filter, o.2 = (ContactMessage.summary (P := P) filter).toBytes) ∨
        ∃ (envelope : Envelope P) (nonce : UInt64),
          o.2 = (ContactMessage.data envelope nonce).toBytes ∧
            Puzzle.verify P envelope.id nonce call.before.puzzleDifficultyBits = true ∧
            ContactMessage.fromBytes P o.2 =
              if (ContactMessage.data envelope nonce).Fits then .ok (.data envelope nonce)
              else .error (.malformed "contact message length mismatch")) ∧
      ∀ (bits : UInt8) (e' : RelayEngine P) (events' : List (Event P)) (calls' : List (Call P)),
        e.KeepsDifficulty events bits → e'.KeepsDifficulty events' bits →
          e'.run events' = some calls' → ∀ call' ∈ calls', ∀ fromPeer now,
            call'.event = .frame fromPeer o.2 now → ¬ call'.DropsUnproven := by
  obtain ⟨next, hact⟩ := act_of_mem_run hrun call hcall
  have hproven := proven_act hact ho
  constructor
  · refine hproven.imp_right ?_
    rintro ⟨envelope, nonce, hframe, hverify⟩
    refine ⟨envelope, nonce, hframe, hverify, ?_⟩
    by_cases hfits : (ContactMessage.data envelope nonce).Fits
    · rw [hframe, ContactMessage.fromBytes_data hfits, if_pos hfits]
    · rw [hframe, ContactMessage.fromBytes_data_of_not_fits hfits, if_neg hfits]
  · rintro bits e' events' calls' hkeeps hkeeps' hrun' call' hcall' fromPeer now hevent
      ⟨_, _, _, envelope, nonce, hevent', hparse, hdrops⟩
    cases hevent.symm.trans hevent'
    rcases hproven with ⟨filter, hframe⟩ | ⟨envelope', nonce', hframe, hverify⟩
    · rw [hframe] at hparse
      obtain ⟨other, heq⟩ := ContactMessage.summary_of_fromBytes hparse
      cases heq
    · rw [hframe] at hparse
      cases (ContactMessage.eq_of_fromBytes_data hparse).1
      rw [hkeeps.run hrun hcall] at hverify
      rw [hkeeps'.run hrun' hcall', hverify] at hdrops
      cases hdrops

theorem composeLocal_new {envelope : Envelope P} {now nonce : UInt64} {store : DurableStore P}
    (hsolve : Puzzle.solve P envelope.id e.puzzleDifficultyBits = some nonce)
    (haccept : (DurableStore.accept envelope now).run e.store = .ok .new store) :
    (composeLocal envelope now).run e =
      .ok (.new, e.relayToAll envelope nonce) { e with store := store } := by
  rw [composeLocal, EStateM.run_bind, EStateM.run_get]
  dsimp only
  rw [EStateM.run_bind, solve_run_some hsolve]
  dsimp only
  rw [EStateM.run_bind, onStore_ok haccept]
  rfl

section Examples

def provenCompose : List (Event toyPrimitives) := [.connected 1, .compose (toyEnvelope 3) 0]

def provenComposeCalls : List (Call toyPrimitives) :=
  ((new toyStore).run provenCompose).getD []

theorem run_provenCompose : (new toyStore).run provenCompose = some provenComposeCalls :=
  run_getD (by decide)

theorem frames_are_proven_provenCompose : ∃ call ∈ provenComposeCalls, ∃ o ∈ call.outbound,
    (∃ filter, o.2 = (ContactMessage.summary (P := toyPrimitives) filter).toBytes) ∨
      ∃ (envelope : Envelope toyPrimitives) (nonce : UInt64),
        o.2 = (ContactMessage.data envelope nonce).toBytes ∧
          Puzzle.verify toyPrimitives envelope.id nonce call.before.puzzleDifficultyBits = true ∧
          ContactMessage.fromBytes toyPrimitives o.2 =
            if (ContactMessage.data envelope nonce).Fits then .ok (.data envelope nonce)
            else .error (.malformed "contact message length mismatch") := by
  have hframes : 0 < (provenComposeCalls.flatMap (·.outbound)).length := by decide
  obtain ⟨o, ho⟩ := List.exists_mem_of_length_pos hframes
  obtain ⟨call, hcall, ho⟩ := List.mem_flatMap.mp ho
  exact ⟨call, hcall, o, ho, (frames_are_proven run_provenCompose hcall ho).1⟩

/-- A database that does not take the next record, as it does not take one that is too long. -/
def refusingStore : DurableStore toyPrimitives :=
  { toyStore with
    disk := { toyStore.disk with db := { toyStore.disk.db with faults := [some .operation] } } }

def connectedEngine : RelayEngine toyPrimitives := ((new refusingStore).onPeerConnected 1).2

theorem accept_heavy (length : Nat) : ∃ err disk,
    (DurableStore.accept (heavy toyPrimitives length) 0).run connectedEngine.store =
      .error (.err err) ⟨toyStore.memory.insert (heavy toyPrimitives length), disk⟩ := by
  have hroom : toyStore.memory.accept (heavy toyPrimitives length) 0 = ((.new, none), _) :=
    Store.accept_room rfl rfl (by decide : (2 : UInt8) ≠ 0) (by decide)
  have hseal : refusingStore.disk.sealing (heavy toyPrimitives length) = .ok _ := rfl
  exact DurableStore.accept_run_unput (d := refusingStore) hroom hseal (by decide)

/-- An envelope of 4 GiB stays in the index although it is not stored, and is pushed in a frame
that nobody reads. -/
theorem not_frames_parse : ¬ ∀ (P : Primitives) (e : RelayEngine P) (events : List (Event P))
    (calls : List (Call P)), e.run events = some calls → ∀ call ∈ calls, ∀ o ∈ call.outbound,
      (∃ (envelope : Envelope P) (nonce : UInt64),
        o.2 = (ContactMessage.data envelope nonce).toBytes) →
      ∃ (envelope : Envelope P) (nonce : UInt64),
        ContactMessage.fromBytes P o.2 = .ok (.data envelope nonce) ∧
          Puzzle.verify P envelope.id nonce call.before.puzzleDifficultyBits = true := by
  intro hclaim
  obtain ⟨err, disk, haccept⟩ := accept_heavy (2 ^ 32)
  let next : RelayEngine toyPrimitives :=
    { connectedEngine with
      store := ⟨toyStore.memory.insert (heavy toyPrimitives (2 ^ 32)), disk⟩ }
  have hcompose : connectedEngine.act (.compose (heavy toyPrimitives (2 ^ 32)) 0) =
      some ([], next) := by
    rw [act, composeLocal_error Puzzle.solve_zero haccept]
  have hsolvable : next.Solvable (next.held.missingFromBloom emptyFilter) := by
    intro relayed _
    rw [show next.puzzleDifficultyBits = 0 from rfl, Puzzle.solve_zero]
    rfl
  have hframe : next.act (.frame 1
        (ContactMessage.summary (P := toyPrimitives) emptyFilter).toBytes 0) =
      some (next.reply 1 ++ next.pushFrames 1 (next.held.missingFromBloom emptyFilter),
        next.greeted 1) := by
    rw [act, (onFrame_of_summary fromBytes_emptyFilter).mpr ⟨hsolvable, rfl, rfl⟩]
  have hlast : (next.greeted 1).run [] = some [] := rfl
  have hrun := run_cons_iff.mpr ⟨_, _, _, hcompose,
    run_cons_iff.mpr ⟨_, _, [], hframe, hlast, rfl⟩, rfl⟩
  have hget : next.held.get (heavy toyPrimitives (2 ^ 32)).id =
      some (heavy toyPrimitives (2 ^ 32)) := Store.get_insert_self
  have hmissing : heavy toyPrimitives (2 ^ 32) ∈ next.held.missingFromBloom emptyFilter :=
    Store.mem_missingFromBloom_iff.mpr ⟨hget, BloomFilter.contains_new⟩
  have httl : 2 ≤ (heavy toyPrimitives (2 ^ 32)).ttlHops.toNat := by decide
  have hdec := decrementTtl_eq_some_iff.mpr ⟨httl, rfl⟩
  have hpushed : _ ∈ next.pushFrames 1 (next.held.missingFromBloom emptyFilter) :=
    List.mem_map.mpr ⟨_, List.mem_filterMap.mpr ⟨_, hmissing, hdec⟩, rfl⟩
  obtain ⟨envelope, nonce, hparse, -⟩ := hclaim toyPrimitives connectedEngine _ _ hrun _
    (List.mem_cons_of_mem _ List.mem_cons_self) _ (List.mem_append_right _ hpushed) ⟨_, _, rfl⟩
  have hfits := (ContactMessage.eq_of_fromBytes_data hparse).2
  have hsendable := (sendable_decrementTtl hdec).mp (fits_data_iff.mp hfits)
  exact not_sendable_heavy (Nat.le_refl _) hsendable

end Examples

end RelayEngine

end ProjectMesh.Routing
