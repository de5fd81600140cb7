import ProjectMesh.Routing.RelayRun
import ProjectMesh.Routing.StoreOrder

namespace ProjectMesh.Routing

open ProjectMesh.Lib

variable {P : Primitives}

/-- What a call hands to `Store::accept`, if it gets that far. -/
def RelayEngine.offering (e : RelayEngine P) : Event P → Option (Envelope P × UInt64)
  | .frame fromPeer bytes now =>
    match ContactMessage.fromBytes P bytes with
    | .ok (.data envelope nonce) =>
      if Puzzle.verify P envelope.id nonce e.puzzleDifficultyBits &&
          (e.budget fromPeer now bytes.length).1 then some (envelope, now)
      else none
    | _ => none
  | .compose envelope now =>
    if (Puzzle.solve P envelope.id e.puzzleDifficultyBits).isSome then some (envelope, now)
    else none
  | _ => none

namespace Call

def answer (call : Call P) : Option (EnvelopeId × Accept) :=
  (call.before.offering call.event).map fun offer =>
    (offer.1.id, (call.before.held.accept offer.1 offer.2).1.1)

def accepted (call : Call P) : Option EnvelopeId :=
  call.answer.bind fun answer => if answer.2 = .new then some answer.1 else none

/-- The frames of a live relay: not those that answer a summary. -/
def relayed (call : Call P) : List Outbound :=
  match call.event with
  | .compose _ _ => call.outbound
  | .frame _ bytes _ =>
    match ContactMessage.fromBytes P bytes with
    | .ok (.data _ _) => call.outbound
    | _ => []
  | _ => []

end Call

def carried (P : Primitives) (frame : Outbound) : Option (UInt64 × EnvelopeId) :=
  match ContactMessage.fromBytes P frame.2 with
  | .ok (.data envelope _) => some (frame.1, envelope.id)
  | _ => none

def Call.brings (call : Call P) : List (UInt64 × EnvelopeId) := call.relayed.filterMap (carried P)

namespace RelayEngine

variable {e next : RelayEngine P} {event : Event P} {outbound : List Outbound} {id : EnvelopeId}

theorem carried_data {peer : UInt64} {x : Envelope P} {nonce : UInt64} {p : UInt64 × EnvelopeId}
    (h : carried P (peer, (ContactMessage.data x nonce).toBytes) = some p) : p = (peer, x.id) := by
  rw [carried] at h
  split at h
  · next envelope nonce' hparse =>
    obtain ⟨heq, -⟩ := ContactMessage.eq_of_fromBytes_data hparse
    cases heq
    exact (Option.some.inj h).symm
  · cases h

theorem brings_relayTo (e : RelayEngine P) (x : Envelope P) (nonce : UInt64)
    (exclude : UInt64 → Bool) :
    ((e.relayTo x nonce exclude).filterMap (carried P)).Nodup ∧
      ∀ p ∈ (e.relayTo x nonce exclude).filterMap (carried P), p.2 = x.id := by
  rw [relayTo]
  split
  · exact ⟨List.nodup_nil, fun p hp => absurd hp List.not_mem_nil⟩
  · next y hy =>
    rw [List.filterMap_map]
    constructor
    · refine (e.peers.keys_nodup.filter _).filterMap ?_
      intro peer peer' p hp hp'
      have h := carried_data hp
      rw [carried_data hp'] at h
      exact congrArg Prod.fst h.symm
    · intro p hp
      obtain ⟨peer, -, hcarried⟩ := List.mem_filterMap.mp hp
      rw [carried_data hcarried]
      exact id_decrementTtl hy

inductive Handled (e : RelayEngine P) (event : Event P) (outbound : List Outbound) :
    Store P → Prop
  | untouched : e.offering event = none → Call.relayed ⟨e, event, outbound⟩ = [] →
    Handled e event outbound e.held
  | failed {x now} : e.offering event = some (x, now) → Offers x event →
    Call.relayed ⟨e, event, outbound⟩ = [] → Handled e event outbound (e.held.accept x now).2
  | answered {x now} (relay : RelayEngine P) (nonce : UInt64) (exclude : UInt64 → Bool) :
    e.offering event = some (x, now) → Offers x event →
    Call.relayed ⟨e, event, outbound⟩ =
      (if (e.held.accept x now).1.1 = .new then relay.relayTo x nonce exclude else []) →
    Handled e event outbound (e.held.accept x now).2

theorem offering_frame {x : Envelope P} {fromPeer now nonce : UInt64} {bytes : List UInt8}
    (hmsg : ContactMessage.fromBytes P bytes = .ok (.data x nonce))
    (hverify : Puzzle.verify P x.id nonce e.puzzleDifficultyBits = true)
    (hbudget : (e.budget fromPeer now bytes.length).1 = true) :
    e.offering (.frame fromPeer bytes now) = some (x, now) := by
  simp only [offering, hmsg, hverify, hbudget, Bool.and_self, if_true]

theorem offering_compose {x : Envelope P} {now nonce : UInt64}
    (hsolve : Puzzle.solve P x.id e.puzzleDifficultyBits = some nonce) :
    e.offering (.compose x now) = some (x, now) := by
  simp only [offering, hsolve, Option.isSome_some, if_true]

theorem offering_cases {x : Envelope P} {now : UInt64} (h : e.offering event = some (x, now)) :
    (∃ nonce, event = .compose x now ∧ Puzzle.solve P x.id e.puzzleDifficultyBits = some nonce) ∨
      ∃ fromPeer bytes nonce, event = .frame fromPeer bytes now ∧
        ContactMessage.fromBytes P bytes = .ok (.data x nonce) ∧
        Puzzle.verify P x.id nonce e.puzzleDifficultyBits = true ∧
        (e.budget fromPeer now bytes.length).1 = true := by
  cases event with
  | connected | lost | setPuzzleDifficulty | setRateLimits => cases h
  | compose envelope time =>
    rw [offering] at h
    split at h
    · next hsolve =>
      cases h
      obtain ⟨nonce, hnonce⟩ := Option.isSome_iff_exists.mp hsolve
      exact .inl ⟨nonce, rfl, hnonce⟩
    · cases h
  | frame fromPeer bytes time =>
    rw [offering] at h
    split at h
    · next envelope nonce hmsg =>
      split at h
      · next hpassed =>
        cases h
        rw [Bool.and_eq_true] at hpassed
        exact .inr ⟨fromPeer, bytes, nonce, rfl, hmsg, hpassed.1, hpassed.2⟩
      · cases h
    · cases h

theorem handled_frame {fromPeer now : UInt64} {bytes : List UInt8}
    (hact : e.act (.frame fromPeer bytes now) = some (outbound, next)) :
    Handled e (.frame fromPeer bytes now) outbound next.held := by
  rcases frame_acted hact with h | ⟨rfl, err, h⟩
  · cases h with
    | summary hmsg =>
      rw [held_greeted]
      refine .untouched ?_ ?_
      · simp only [offering, hmsg]
      · simp only [Call.relayed, hmsg]
    | unproven hmsg hverify =>
      refine .untouched ?_ ?_
      · simp only [offering, hmsg, hverify, Bool.false_and, Bool.false_eq_true, if_false]
      · simp only [Call.relayed, hmsg]
    | overBudget hmsg hverify hbudget =>
      have hheld : (e.charged fromPeer now bytes.length).held = e.held := rfl
      rw [hheld]
      refine .untouched ?_ ?_
      · simp only [offering, hmsg, hbudget, Bool.and_false, Bool.false_eq_true, if_false]
      · simp only [Call.relayed, hmsg]
    | @offered x nonce disk hmsg hverify hbudget =>
      refine .answered (e.charged fromPeer now bytes.length) nonce (· == fromPeer)
        (offering_frame hmsg hverify hbudget) (.frame hmsg) ?_
      simp only [Call.relayed, hmsg, relayToOthers]
  · cases h with
    | malformed hmsg =>
      refine .untouched ?_ ?_
      · simp only [offering, hmsg]
      · simp only [Call.relayed, hmsg]
    | diskFault hmsg hverify hbudget =>
      refine .failed (offering_frame hmsg hverify hbudget) (.frame hmsg) ?_
      simp only [Call.relayed, hmsg]

theorem handled_compose {x : Envelope P} {now : UInt64}
    (hact : e.act (.compose x now) = some (outbound, next)) :
    Handled e (.compose x now) outbound next.held := by
  rcases compose_acted hact with ⟨answer, h⟩ | ⟨rfl, err, h⟩
  · cases h with
    | @offered nonce disk hsolve =>
      exact .answered e nonce (fun _ => false) (offering_compose hsolve) .compose rfl
  · cases h with
    | diskFault hsolve => exact .failed (offering_compose hsolve) .compose rfl

theorem handled (hact : e.act event = some (outbound, next)) :
    Handled e event outbound next.held := by
  cases event with
  | frame fromPeer bytes now => exact handled_frame hact
  | compose x now => exact handled_compose hact
  | connected peer | lost peer | setPuzzleDifficulty bits | setRateLimits limits =>
    cases hact
    exact .untouched rfl rfl

section Run

variable {prio : EnvelopeId → Priority} {seen : Finset EnvelopeId}

def seenAfterCall (seen : Finset EnvelopeId) (call : Call P) : Finset EnvelopeId :=
  match call.accepted with
  | some id => insert id seen
  | none => seen

structure Selecting (prio : EnvelopeId → Priority) (seen : Finset EnvelopeId)
    (e : RelayEngine P) : Prop where
  ranked : e.held.Ranked prio
  selects : Selects (Store.urgency prio) e.held.capacity seen e.held.heldIds

theorem accepted_of_offering {x : Envelope P} {now : UInt64}
    (h : e.offering event = some (x, now)) (outbound : List Outbound) :
    Call.accepted ⟨e, event, outbound⟩ =
      if (e.held.accept x now).1.1 = .new then some x.id else none := by
  simp only [Call.accepted, Call.answer, h, Option.map_some, Option.bind_some]

theorem accepted_of_untouched (h : e.offering event = none) (outbound : List Outbound) :
    Call.accepted ⟨e, event, outbound⟩ = none := by
  simp only [Call.accepted, Call.answer, h, Option.map_none, Option.bind_none]

/-- An offer keeps the selection, and answers `New` only to what was never held. -/
theorem Selecting.accept {x : Envelope P} {now : UInt64} (h : Selecting prio seen e)
    (hx : x.priority = prio x.id) (hoffering : e.offering event = some (x, now))
    (hheld : next.held = (e.held.accept x now).2) (outbound : List Outbound) :
    Selecting prio (seenAfterCall seen ⟨e, event, outbound⟩) next ∧
      ∀ id, Call.accepted ⟨e, event, outbound⟩ = some id → id ∉ seen := by
  have hoffered := Store.accept_offered e.held x now
  obtain ⟨hsel, hnew⟩ := hoffered.selects h.ranked hx h.selects
  have haccepted := accepted_of_offering hoffering outbound
  refine ⟨⟨?_, ?_⟩, fun id hid => ?_⟩
  · rw [hheld]
    exact h.ranked.accept hx
  · rw [hheld, hoffered.capacity_eq, seenAfterCall, haccepted]
    rw [Store.seenAfter] at hsel
    split at hsel
    · next heq =>
      rw [if_pos heq]
      exact hsel
    · next hne =>
      rw [if_neg hne]
      exact hsel
  · rw [haccepted] at hid
    split at hid
    · next heq =>
      cases hid
      exact hnew heq
    · cases hid

theorem Selecting.act (h : Selecting prio seen e)
    (hprio : ∀ x, Offers x event → x.priority = prio x.id)
    (hact : e.act event = some (outbound, next)) :
    Selecting prio (seenAfterCall seen ⟨e, event, outbound⟩) next ∧
      ∀ id, Call.accepted ⟨e, event, outbound⟩ = some id → id ∉ seen := by
  have hhandled := handled hact
  generalize hstore : next.held = store at hhandled
  cases hhandled with
  | untouched hoffering =>
    have haccepted := accepted_of_untouched hoffering outbound
    rw [seenAfterCall, haccepted]
    refine ⟨⟨?_, ?_⟩, nofun⟩
    · rw [hstore]
      exact h.ranked
    · rw [hstore]
      exact h.selects
  | failed hoffering hoffers | answered _ _ _ hoffering hoffers =>
    exact h.accept (hprio _ hoffers) hoffering hstore outbound

theorem brings_act (hact : e.act event = some (outbound, next)) :
    (Call.brings ⟨e, event, outbound⟩).Nodup ∧
      ∀ p ∈ Call.brings ⟨e, event, outbound⟩, Call.accepted ⟨e, event, outbound⟩ = some p.2 := by
  have hnil : Call.relayed ⟨e, event, outbound⟩ = [] →
      (Call.brings ⟨e, event, outbound⟩).Nodup ∧
        ∀ p ∈ Call.brings ⟨e, event, outbound⟩, Call.accepted ⟨e, event, outbound⟩ = some p.2 := by
    intro hrelayed
    rw [Call.brings, hrelayed]
    exact ⟨List.nodup_nil, fun p hp => absurd hp List.not_mem_nil⟩
  have hhandled := handled hact
  generalize next.held = store at hhandled
  cases hhandled with
  | untouched _ hrelayed => exact hnil hrelayed
  | failed _ _ hrelayed => exact hnil hrelayed
  | @answered x now relay nonce exclude hoffering _ hrelayed =>
    split at hrelayed
    · next hnew =>
      obtain ⟨hnodup, hids⟩ := brings_relayTo relay x nonce exclude
      rw [Call.brings, hrelayed, accepted_of_offering hoffering, if_pos hnew]
      exact ⟨hnodup, fun p hp => congrArg some (hids p hp).symm⟩
    · exact hnil hrelayed

theorem run_accepted {events : List (Event P)} {calls : List (Call P)}
    (h : Selecting prio seen e)
    (hprio : ∀ event ∈ events, ∀ x, Offers x event → x.priority = prio x.id)
    (hrun : e.run events = some calls) :
    (calls.filterMap Call.accepted).Nodup ∧ ∀ id ∈ calls.filterMap Call.accepted, id ∉ seen := by
  induction events generalizing e seen calls with
  | nil =>
    cases hrun
    exact ⟨List.nodup_nil, fun id hid => absurd hid List.not_mem_nil⟩
  | cons event events ih =>
    obtain ⟨outbound, next, rest, hact, hrest, heq⟩ := run_cons_iff.mp hrun
    cases heq
    obtain ⟨hnext, hfirst⟩ := h.act (hprio event List.mem_cons_self) hact
    obtain ⟨hnodup, hfresh⟩ :=
      ih hnext (fun event' hmem => hprio event' (List.mem_cons_of_mem event hmem)) hrest
    cases haccepted : Call.accepted ⟨e, event, outbound⟩ with
    | none =>
      rw [List.filterMap_cons_none haccepted]
      rw [seenAfterCall, haccepted] at hfresh
      exact ⟨hnodup, hfresh⟩
    | some id =>
      rw [List.filterMap_cons_some haccepted]
      rw [seenAfterCall, haccepted] at hfresh
      refine ⟨List.nodup_cons.mpr ⟨fun hid => ?_, hnodup⟩, ?_⟩
      · exact hfresh id hid (Finset.mem_insert_self _ _)
      · refine List.forall_mem_cons.mpr ⟨hfirst id haccepted, fun id' hid' hseen => ?_⟩
        exact hfresh id' hid' (Finset.mem_insert_of_mem hseen)

theorem nodup_brings {calls : List (Call P)} (hnodup : (calls.filterMap Call.accepted).Nodup)
    (hcalls : ∀ call ∈ calls, call.brings.Nodup ∧
      ∀ p ∈ call.brings, call.accepted = some p.2) : (calls.flatMap Call.brings).Nodup := by
  induction calls with
  | nil => exact List.nodup_nil
  | cons call calls ih =>
    obtain ⟨⟨hfirst, haccepted⟩, hrest⟩ := List.forall_mem_cons.mp hcalls
    have htail : (calls.filterMap Call.accepted).Nodup :=
      hnodup.sublist ((List.sublist_cons_self call calls).filterMap _)
    rw [List.flatMap_cons, List.nodup_append]
    refine ⟨hfirst, ih htail hrest, ?_⟩
    rintro p hp q hq rfl
    obtain ⟨call', hmem, hq⟩ := List.mem_flatMap.mp hq
    rw [List.filterMap_cons_some (haccepted p hp), List.nodup_cons] at hnodup
    exact hnodup.1 (List.mem_filterMap.mpr ⟨call', hmem, (hrest call' hmem).2 p hq⟩)

/-- Over a run, the index answers `New` to each id at most once, even after an eviction; only
then is anything relayed, and each peer is sent each id at most once. -/
theorem accepts_once {store : DurableStore P} {events : List (Event P)} {calls : List (Call P)}
    (prio : EnvelopeId → Priority) (hheld : store.memory.Ranked prio)
    (hprio : ∀ event ∈ events, ∀ x, Offers x event → x.priority = prio x.id)
    (hrun : (new store).run events = some calls) :
    (calls.filterMap Call.accepted).Nodup ∧
      (∀ call ∈ calls, call.accepted = none → call.relayed = []) ∧
      (calls.flatMap Call.brings).Nodup := by
  have hstart : Selecting prio store.memory.heldIds (new store) := ⟨hheld, Selects.refl⟩
  obtain ⟨hnodup, -⟩ := run_accepted hstart hprio hrun
  refine ⟨hnodup, ?_, ?_⟩
  · refine run_forall hrun fun e event outbound next hact hnone => ?_
    have hhandled := handled hact
    generalize next.held = store at hhandled
    cases hhandled with
    | untouched _ hrelayed | failed _ _ hrelayed => exact hrelayed
    | answered relay nonce exclude hoffering _ hrelayed =>
      rw [accepted_of_offering hoffering] at hnone
      split at hnone
      · cases hnone
      · next hne => rw [hrelayed, if_neg hne]
  · exact nodup_brings hnodup (run_forall hrun fun e event outbound next hact => brings_act hact)

def onceEvents : List (Event toyPrimitives) :=
  [.connected 7, .compose (toyEnvelope 3) 0, .compose (toyEnvelope 3) 5]

def onceCalls : List (Call toyPrimitives) := ((new toyStore).run onceEvents).getD []

theorem accepts_once_onceCalls :
    (onceCalls.filterMap Call.accepted).Nodup ∧
      (∀ call ∈ onceCalls, call.accepted = none → call.relayed = []) ∧
      (onceCalls.flatMap Call.brings).Nodup := by
  have hrun : (new toyStore).run onceEvents = some onceCalls := run_getD (by decide)
  have hheld : toyStore.memory.Ranked fun _ => .normal := by
    intro id x hx
    cases hx
  refine accepts_once (fun _ => .normal) hheld ?_ hrun
  rintro event hevent x hoffers
  simp only [onceEvents, List.mem_cons, List.not_mem_nil, or_false] at hevent
  rcases hevent with rfl | rfl | rfl <;> cases hoffers <;> rfl

end Run

end RelayEngine

end ProjectMesh.Routing
