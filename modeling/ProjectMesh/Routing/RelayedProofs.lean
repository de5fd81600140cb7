import ProjectMesh.Routing.MissedSends
import ProjectMesh.Routing.RelayOnce

namespace ProjectMesh.Routing

open ProjectMesh.Lib

variable {P : Primitives}

namespace Call

/-- A data frame of the call carries the envelope, with this nonce. -/
def Sends (call : Call P) (envelope : Envelope P) (nonce : UInt64) : Prop :=
  ∃ peer, (peer, (ContactMessage.data envelope nonce).toBytes) ∈ call.outbound

/-- The call takes in the envelope of a data frame, with this nonce. -/
def Takes (call : Call P) (envelope : Envelope P) (nonce : UInt64) : Prop :=
  call.accepted = some envelope.id ∧ ∃ fromPeer bytes now,
    call.event = .frame fromPeer bytes now ∧
      ContactMessage.fromBytes P bytes = .ok (.data envelope nonce)

end Call

namespace RelayEngine

variable {e next : RelayEngine P} {event : Event P} {outbound : List Outbound}
  {events : List (Event P)} {calls : List (Call P)} {id : EnvelopeId} {x y : Envelope P}
  {n m : UInt64}

theorem sends_relayTo {exclude : UInt64 → Bool} {peer : UInt64}
    (h : (peer, (ContactMessage.data y m).toBytes) ∈ e.relayTo x n exclude) :
    decrementTtl x = some y ∧ m = n := by
  obtain ⟨relayed, hdec, hframe⟩ := exists_of_mem_relayTo h
  obtain ⟨rfl, rfl⟩ := ContactMessage.data_injective hframe
  exact ⟨hdec, rfl⟩

theorem sends_pushFrames {peer peer' : UInt64} {envelopes : List (Envelope P)}
    (hsolvable : e.Solvable envelopes)
    (h : (peer', (ContactMessage.data y m).toBytes) ∈ e.pushFrames peer envelopes) :
    (∃ source ∈ envelopes, decrementTtl source = some y) ∧
      Puzzle.solve P y.id e.puzzleDifficultyBits = some m := by
  obtain ⟨relayed, hrelayed, heq⟩ := List.mem_map.mp h
  obtain ⟨rfl, rfl⟩ := ContactMessage.data_injective (Prod.mk.inj heq).2
  obtain ⟨nonce, hnonce⟩ := Option.isSome_iff_exists.mp (hsolvable relayed hrelayed)
  refine ⟨List.mem_filterMap.mp hrelayed, ?_⟩
  rw [hnonce, Option.getD_some]

/-- A call that takes an envelope in relays it with the nonce it came with. -/
theorem sends_of_takes (hact : e.act event = some (outbound, next))
    (htakes : Call.Takes ⟨e, event, outbound⟩ x n) (hsends : Call.Sends ⟨e, event, outbound⟩ y m) :
    decrementTtl x = some y ∧ m = n := by
  obtain ⟨-, fromPeer, bytes, now, rfl, hmsg⟩ := htakes
  obtain ⟨peer, hmem⟩ := hsends
  rcases frame_acted hact with h | ⟨rfl, err, h⟩
  · cases h with
    | summary hmsg' => cases hmsg.symm.trans hmsg'
    | unproven | overBudget => cases hmem
    | offered hmsg' =>
      cases hmsg.symm.trans hmsg'
      dsimp only at hmem
      split at hmem
      · exact sends_relayTo hmem
      · cases hmem
  · cases hmem

theorem sends_of_not_accepted (hact : e.act event = some (outbound, next))
    (hne : Call.accepted ⟨e, event, outbound⟩ ≠ some y.id)
    (hsends : Call.Sends ⟨e, event, outbound⟩ y m) :
    (∃ source, e.held.get y.id = some source ∧ decrementTtl source = some y) ∧
      Puzzle.solve P y.id e.puzzleDifficultyBits = some m := by
  obtain ⟨peer, hmem⟩ := hsends
  -- a live relay is of what the call takes in
  have hrelay : ∀ {relay : RelayEngine P} {exclude : UInt64 → Bool} {z : Envelope P}
      {now nonce : UInt64}, e.offering event = some (z, now) →
      (peer, (ContactMessage.data y m).toBytes) ∉
        if (e.held.accept z now).1.1 = .new then relay.relayTo z nonce exclude else [] := by
    intro relay exclude z now nonce hoffering hmem
    split at hmem
    · next hnew =>
      rw [accepted_of_offering hoffering, if_pos hnew,
        ← id_decrementTtl (sends_relayTo hmem).1] at hne
      exact hne rfl
    · cases hmem
  cases event with
  | connected other =>
    cases hact
    exact absurd (Prod.mk.inj (List.mem_singleton.mp hmem)).2 data_ne_summary
  | lost | setPuzzleDifficulty | setRateLimits =>
    cases hact
    cases hmem
  | compose z now =>
    rcases compose_acted hact with ⟨answer, h⟩ | ⟨rfl, err, h⟩
    · cases h with
      | offered hsolve => exact absurd hmem (hrelay (offering_compose hsolve))
    · cases hmem
  | frame fromPeer bytes now =>
    rcases frame_acted hact with h | ⟨rfl, err, h⟩
    · cases h with
      | unproven | overBudget => cases hmem
      | offered hmsg hverify hbudget =>
        exact absurd hmem (hrelay (offering_frame hmsg hverify hbudget))
      | summary hmsg hsolvable =>
        obtain ⟨⟨source, hsource, hdec⟩, hsolve⟩ := sends_pushFrames hsolvable
          ((List.mem_append.mp hmem).resolve_left not_mem_reply)
        refine ⟨⟨source, ?_, hdec⟩, hsolve⟩
        rw [id_decrementTtl hdec]
        exact (Store.mem_missingFromBloom_iff.mp hsource).1
    · cases hmem

theorem held_of_not_accepted (hact : e.act event = some (outbound, next))
    (hne : Call.accepted ⟨e, event, outbound⟩ ≠ some id) (h : next.held.get id = some y) :
    e.held.get id = some y := by
  have hhandled := handled hact
  generalize hstore : next.held = store at h hhandled
  cases hhandled with
  | untouched => exact h
  | failed hoffering | answered _ _ _ hoffering =>
    refine (Store.get_accept h).resolve_right ?_
    rintro ⟨-, rfl, hnew⟩
    rw [accepted_of_offering hoffering, if_pos hnew] at hne
    exact hne rfl

theorem held_run_of_not_accepted {past later : List (Call P)} {call : Call P}
    (hrun : e.run events = some (past ++ call :: later))
    (hne : ∀ call ∈ past, call.accepted ≠ some id) (h : call.before.held.get id = some y) :
    e.held.get id = some y := by
  induction past generalizing e events with
  | nil =>
    cases events with
    | nil => cases hrun
    | cons event events =>
      obtain ⟨outbound, next, rest, -, -, heq⟩ := run_cons_iff.mp hrun
      cases heq
      exact h
  | cons first past ih =>
    cases events with
    | nil => cases hrun
    | cons event events =>
      obtain ⟨outbound, next, rest, hact, hrest, heq⟩ := run_cons_iff.mp hrun
      cases heq
      rw [List.forall_mem_cons] at hne
      exact held_of_not_accepted hact hne.1 (ih hrest hne.2)

theorem held_of_takes (hact : e.act event = some (outbound, next))
    (htakes : Call.Takes ⟨e, event, outbound⟩ x n) (h : next.held.get x.id = some y) : y = x := by
  obtain ⟨haccepted, fromPeer, bytes, now, rfl, hmsg⟩ := htakes
  have hhandled := handled hact
  generalize hstore : next.held = store at h hhandled
  cases hhandled with
  | untouched hoffering =>
    rw [accepted_of_untouched hoffering] at haccepted
    cases haccepted
  | @failed z _ hoffering hoffers | @answered z _ _ _ _ hoffering hoffers =>
    have hz : z = x := by
      cases hoffers with
      | frame hmsg' =>
        cases hmsg.symm.trans hmsg'
        rfl
    subst hz
    rw [accepted_of_offering hoffering] at haccepted
    split at haccepted
    · next hnew =>
      rcases Store.get_accept h with hold | ⟨rfl, -⟩
      · have hdup := (Store.live_of_accept_new hnew).1
        rw [Store.contains_eq_false_iff, hold] at hdup
        cases hdup
      · rfl
    · cases haccepted

/-- An envelope that came with a nonce is relayed with that nonce and one hop less, and pushed
later on with one hop less, and that nonce just if it is the least that meets the difficulty
the engine has by then. -/
theorem forwarded_nonce_iff {past between later : List (Call P)} {taking sending : Call P}
    (hrun : e.run events = some (past ++ taking :: (between ++ sending :: later)))
    (htakes : taking.Takes x n)
    (hkept : ∀ call ∈ between ++ [sending], call.accepted ≠ some x.id) :
    (∀ y m, taking.Sends y m → y = { x with ttlHops := x.ttlHops - 1 } ∧ m = n) ∧
      ∀ y m, y.id = x.id → sending.Sends y m →
        y = { x with ttlHops := x.ttlHops - 1 } ∧
          (m = n ↔ Puzzle.Least P x.id sending.before.puzzleDifficultyBits n) ∧
          ∀ bits ≤ sending.before.puzzleDifficultyBits, Puzzle.verify P x.id m bits = true := by
  obtain ⟨e', events', -, hrun'⟩ := run_later hrun
  cases events' with
  | nil => cases hrun'
  | cons event events' =>
    obtain ⟨outbound, next, rest, hact, hrest, heq⟩ := run_cons_iff.mp hrun'
    cases heq
    constructor
    · intro y m hsends
      obtain ⟨hdec, rfl⟩ := sends_of_takes hact htakes hsends
      exact ⟨(decrementTtl_eq_some_iff.mp hdec).2, rfl⟩
    · intro y m hid hsends
      obtain ⟨_, hact'⟩ := act_of_mem_run hrest sending (by simp)
      have hne := hkept sending (List.mem_append_right _ (List.mem_singleton_self _))
      obtain ⟨⟨source, hget, hdec⟩, hsolve⟩ :=
        sends_of_not_accepted hact' (hid.symm ▸ hne) hsends
      rw [hid] at hget hsolve
      have hbetween : ∀ call ∈ between, call.accepted ≠ some x.id := fun call hcall =>
        hkept call (List.mem_append_left _ hcall)
      obtain rfl := held_of_takes hact htakes (held_run_of_not_accepted hrest hbetween hget)
      refine ⟨(decrementTtl_eq_some_iff.mp hdec).2, ?_, fun bits hle => ?_⟩
      · rw [← Puzzle.solve_eq_some_iff, hsolve, Option.some.injEq]
      · exact Puzzle.verify_of_le (Puzzle.verify_of_solve hsolve) hle

section Proven

def provenFrame : List UInt8 := (ContactMessage.data (toyEnvelope 3) 5).toBytes

def provenEvents : List (Event toyPrimitives) :=
  [.frame 7 provenFrame 0, .frame 8 (new toyStore).summary 0]

def provenCalls : List (Call toyPrimitives) := ((new toyStore).run provenEvents).getD []

theorem length_provenCalls : provenCalls.length = 2 := by decide

def takingCall : Call toyPrimitives := provenCalls.get ⟨0, by rw [length_provenCalls]; decide⟩

def sendingCall : Call toyPrimitives := provenCalls.get ⟨1, by rw [length_provenCalls]; decide⟩

theorem run_provenEvents : (new toyStore).run provenEvents =
    some ([] ++ takingCall :: ([] ++ sendingCall :: [])) := by
  have hcalls : provenCalls = [takingCall, sendingCall] := by
    obtain ⟨taking, sending, hcalls⟩ := List.length_eq_two.mp length_provenCalls
    simp only [takingCall, sendingCall, hcalls, List.get_eq_getElem, List.getElem_cons_zero,
      List.getElem_cons_succ]
  have hrun : (new toyStore).run provenEvents = some provenCalls := run_getD (by decide)
  rw [hrun, hcalls]
  rfl

theorem takes_takingCall : takingCall.Takes (toyEnvelope 3) 5 := by
  have hfits : (ContactMessage.data (toyEnvelope 3) 5).Fits := by decide
  exact ⟨by decide, 7, provenFrame, 0, (List.cons.inj (map_event_run run_provenEvents)).1,
    ContactMessage.fromBytes_data hfits⟩

theorem forwarded_nonce_iff_sendingCall :
    (∀ y m, takingCall.Sends y m → y = toyEnvelope 2 ∧ m = 5) ∧
      ∀ y m, y.id = (toyEnvelope 3).id → sendingCall.Sends y m → y = toyEnvelope 2 ∧
        (m = 5 ↔ Puzzle.Least toyPrimitives (toyEnvelope 3).id
          sendingCall.before.puzzleDifficultyBits 5) ∧
        ∀ bits ≤ sendingCall.before.puzzleDifficultyBits,
          Puzzle.verify toyPrimitives (toyEnvelope 3).id m bits = true :=
  forwarded_nonce_iff run_provenEvents takes_takingCall (by decide)

/-- A proof that met difficulty 20 is replaced on a push by one that does not. -/
theorem proof_is_replaced :
    (new toyStore).run provenEvents = some ([] ++ takingCall :: ([] ++ sendingCall :: [])) ∧
      takingCall.Takes (toyEnvelope 3) 5 ∧
      Puzzle.verify toyPrimitives (toyEnvelope 3).id 5 20 = true ∧
      sendingCall.Sends (toyEnvelope 2) 0 ∧
      Puzzle.verify toyPrimitives (toyEnvelope 2).id 0 20 = false := by
  refine ⟨run_provenEvents, takes_takingCall, by decide, ⟨8, ?_⟩, by decide⟩
  decide

end Proven

end RelayEngine

end ProjectMesh.Routing
