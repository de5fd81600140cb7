import ProjectMesh.Routing.RelayLaws

namespace ProjectMesh.Routing

open ProjectMesh.Lib

variable {P : Primitives}

inductive Event (P : Primitives) : Type
  | connected (peer : UInt64)
  | lost (peer : UInt64)
  | frame (fromPeer : UInt64) (bytes : List UInt8) (now : UInt64)
  | compose (envelope : Envelope P) (now : UInt64)
  | setPuzzleDifficulty (difficultyBits : UInt8)
  | setRateLimits (limits : RateLimitConfig)

/-- A call of an engine, with the engine before it and the frames it returned. -/
structure Call (P : Primitives) where
  before : RelayEngine P
  event : Event P
  outbound : List Outbound

namespace RelayEngine

/-- One call.  An `Err` returns no frames but keeps its changes; a call that panics or never
returns has no next state. -/
def act (e : RelayEngine P) : Event P → Option (List Outbound × RelayEngine P)
  | .connected peer =>
    let (hello, e) := e.onPeerConnected peer
    some ([(peer, hello)], e)
  | .lost peer => some ([], e.onPeerLost peer)
  | .frame fromPeer bytes now =>
    match (onFrame fromPeer bytes now).run e with
    | .ok outbound e => some (outbound, e)
    | .error (.err _) e => some ([], e)
    | .error .panic _ => none
  | .compose envelope now =>
    match (composeLocal envelope now).run e with
    | .ok (_, outbound) e => some (outbound, e)
    | .error (.err _) e => some ([], e)
    | .error .panic _ => none
  | .setPuzzleDifficulty difficultyBits => some ([], e.setPuzzleDifficulty difficultyBits)
  | .setRateLimits limits => some ([], e.setRateLimits limits)

inductive Acted (e : RelayEngine P) : Event P → List Outbound → RelayEngine P → Prop
  | connected {peer} : Acted e (.connected peer) [(peer, e.summary)] (e.onPeerConnected peer).2
  | lost {peer} : Acted e (.lost peer) [] (e.onPeerLost peer)
  | malformed {fromPeer bytes now err} : ContactMessage.fromBytes P bytes = .error err →
    Acted e (.frame fromPeer bytes now) [] e
  | asked {fromPeer bytes now filter} :
    ContactMessage.fromBytes P bytes = .ok (.summary filter) →
    Acted e (.frame fromPeer bytes now)
      (e.reply fromPeer ++ e.pushFrames fromPeer (e.held.missingFromBloom filter))
      (e.greeted fromPeer)
  | unproven {fromPeer bytes now envelope nonce} :
    ContactMessage.fromBytes P bytes = .ok (.data envelope nonce) →
    Acted e (.frame fromPeer bytes now) [] e
  | overBudget {fromPeer bytes now envelope nonce} :
    ContactMessage.fromBytes P bytes = .ok (.data envelope nonce) →
    Acted e (.frame fromPeer bytes now) [] (e.charged fromPeer now bytes.length)
  | offered {fromPeer bytes now envelope nonce disk} :
    ContactMessage.fromBytes P bytes = .ok (.data envelope nonce) →
    Acted e (.frame fromPeer bytes now)
      (if (e.held.accept envelope now).1.1 = .new then
        (e.charged fromPeer now bytes.length).relayToOthers envelope nonce fromPeer
      else [])
      ((e.charged fromPeer now bytes.length).offer now envelope disk)
  | offerFault {fromPeer bytes now envelope nonce disk} :
    ContactMessage.fromBytes P bytes = .ok (.data envelope nonce) →
    Acted e (.frame fromPeer bytes now) []
      ((e.charged fromPeer now bytes.length).offer now envelope disk)
  | composed {envelope now nonce disk} :
    Acted e (.compose envelope now)
      (if (e.held.accept envelope now).1.1 = .new then e.relayToAll envelope nonce else [])
      (e.offer now envelope disk)
  | composeFault {envelope now disk} :
    Acted e (.compose envelope now) [] (e.offer now envelope disk)
  | setPuzzleDifficulty {difficultyBits} :
    Acted e (.setPuzzleDifficulty difficultyBits) [] (e.setPuzzleDifficulty difficultyBits)
  | setRateLimits {limits} : Acted e (.setRateLimits limits) [] (e.setRateLimits limits)

section Acted

variable {e next : RelayEngine P} {event : Event P} {outbound : List Outbound}
  {envelope : Envelope P} {fromPeer now : UInt64} {bytes : List UInt8}

theorem frame_acted (hact : e.act (.frame fromPeer bytes now) = some (outbound, next)) :
    FrameOutcome e fromPeer bytes now (.ok outbound next) ∨
      outbound = [] ∧ ∃ err, FrameOutcome e fromPeer bytes now (.error (.err err) next) := by
  have houtcome := onFrame_outcome e fromPeer bytes now
  rw [act] at hact
  split at hact
  · next hrun =>
    cases hact
    exact .inl (hrun ▸ houtcome)
  · next err _ hrun =>
    cases hact
    exact .inr ⟨rfl, err, hrun ▸ houtcome⟩
  · cases hact

theorem compose_acted (hact : e.act (.compose envelope now) = some (outbound, next)) :
    (∃ answer, ComposeOutcome e envelope now (.ok (answer, outbound) next)) ∨
      outbound = [] ∧ ∃ err, ComposeOutcome e envelope now (.error (.err err) next) := by
  have houtcome := composeLocal_outcome e envelope now
  rw [act] at hact
  split at hact
  · next answer _ _ hrun =>
    cases hact
    exact .inl ⟨answer, hrun ▸ houtcome⟩
  · next err _ hrun =>
    cases hact
    exact .inr ⟨rfl, err, hrun ▸ houtcome⟩
  · cases hact

theorem acted (hact : e.act event = some (outbound, next)) : Acted e event outbound next := by
  cases event with
  | connected peer =>
    cases hact
    exact .connected
  | lost peer =>
    cases hact
    exact .lost
  | setPuzzleDifficulty bits =>
    cases hact
    exact .setPuzzleDifficulty
  | setRateLimits limits =>
    cases hact
    exact .setRateLimits
  | frame fromPeer bytes now =>
    rcases frame_acted hact with h | ⟨rfl, err, h⟩
    · cases h with
      | summary hmsg => exact .asked hmsg
      | unproven hmsg => exact .unproven hmsg
      | overBudget hmsg => exact .overBudget hmsg
      | offered hmsg => exact .offered hmsg
    · cases h with
      | malformed hmsg => exact .malformed hmsg
      | diskFault hmsg => exact .offerFault hmsg
  | compose envelope now =>
    rcases compose_acted hact with ⟨answer, h⟩ | ⟨rfl, err, h⟩
    · cases h with
      | offered => exact .composed
    · cases h with
      | diskFault => exact .composeFault

end Acted

def run (e : RelayEngine P) : List (Event P) → Option (List (Call P))
  | [] => some []
  | event :: events => do
    let (outbound, next) ← e.act event
    let calls ← next.run events
    return { before := e, event := event, outbound := outbound } :: calls

theorem run_cons_iff {e : RelayEngine P} {event : Event P} {events : List (Event P)}
    {calls : List (Call P)} :
    e.run (event :: events) = some calls ↔ ∃ outbound next rest,
      e.act event = some (outbound, next) ∧ next.run events = some rest ∧
        calls = { before := e, event := event, outbound := outbound } :: rest := by
  rw [run]
  simp only [Option.bind_eq_bind, Option.bind_eq_some_iff, Prod.exists]
  constructor
  · rintro ⟨outbound, next, hact, rest, hrest, heq⟩
    exact ⟨outbound, next, rest, hact, hrest, (Option.some.inj heq).symm⟩
  · rintro ⟨outbound, next, rest, hact, hrest, rfl⟩
    exact ⟨outbound, next, hact, rest, hrest, rfl⟩

theorem run_getD {e : RelayEngine P} {events : List (Event P)} (h : (e.run events).isSome) :
    e.run events = some ((e.run events).getD []) := by
  obtain ⟨calls, hcalls⟩ := Option.isSome_iff_exists.mp h
  rw [hcalls]
  rfl

theorem run_forall {e : RelayEngine P} {events : List (Event P)} {calls : List (Call P)}
    {Q : Call P → Prop} (hrun : e.run events = some calls)
    (hstep : ∀ (e : RelayEngine P) event outbound next, e.act event = some (outbound, next) →
      Q { before := e, event := event, outbound := outbound }) : ∀ call ∈ calls, Q call := by
  induction events generalizing e calls with
  | nil =>
    cases hrun
    exact fun call h => nomatch h
  | cons event events ih =>
    obtain ⟨outbound, next, rest, hact, hrest, heq⟩ := run_cons_iff.mp hrun
    cases heq
    intro call hcall
    rcases List.mem_cons.mp hcall with rfl | hcall
    · exact hstep e event outbound next hact
    · exact ih hrest call hcall

theorem run_invariant_of_mem {e : RelayEngine P} {events : List (Event P)} {calls : List (Call P)}
    {Q : RelayEngine P → Prop} (hstart : Q e) (hrun : e.run events = some calls)
    (hstep : ∀ (e : RelayEngine P), ∀ event ∈ events, ∀ outbound next, Q e →
      e.act event = some (outbound, next) → Q next) : ∀ call ∈ calls, Q call.before := by
  induction events generalizing e calls with
  | nil =>
    cases hrun
    exact fun call h => absurd h List.not_mem_nil
  | cons event events ih =>
    obtain ⟨outbound, next, rest, hact, hrest, heq⟩ := run_cons_iff.mp hrun
    cases heq
    refine List.forall_mem_cons.mpr ⟨hstart, ?_⟩
    exact ih (hstep e event List.mem_cons_self outbound next hstart hact) hrest
      fun e event hevent => hstep e event (List.mem_cons_of_mem _ hevent)

theorem run_invariant {e : RelayEngine P} {events : List (Event P)} {calls : List (Call P)}
    {Q : RelayEngine P → Prop} (hstart : Q e) (hrun : e.run events = some calls)
    (hstep : ∀ (e : RelayEngine P) event outbound next, Q e →
      e.act event = some (outbound, next) → Q next) : ∀ call ∈ calls, Q call.before :=
  run_invariant_of_mem hstart hrun fun e event _ => hstep e event

section Stretch

variable {e : RelayEngine P} {events : List (Event P)} {calls calls' : List (Call P)}

theorem map_event_run (hrun : e.run events = some calls) : calls.map Call.event = events := by
  induction events generalizing e calls with
  | nil =>
    cases hrun
    rfl
  | cons event events ih =>
    obtain ⟨outbound, next, rest, -, hrest, heq⟩ := run_cons_iff.mp hrun
    cases heq
    rw [List.map_cons, ih hrest]

theorem run_later (hrun : e.run events = some (calls ++ calls')) :
    ∃ (e' : RelayEngine P) (events' : List (Event P)), events' <:+ events ∧
      e'.run events' = some calls' := by
  induction calls generalizing e events with
  | nil => exact ⟨e, events, List.suffix_rfl, hrun⟩
  | cons call calls ih =>
    cases events with
    | nil => cases hrun
    | cons event events =>
      obtain ⟨outbound, next, rest, -, hrest, heq⟩ := run_cons_iff.mp hrun
      cases heq
      obtain ⟨e', events', hsuffix, hrun'⟩ := ih hrest
      exact ⟨e', events', hsuffix.trans (List.suffix_cons event events), hrun'⟩

theorem run_earlier (hrun : e.run events = some (calls ++ calls')) :
    ∃ events', events' <+: events ∧ e.run events' = some calls := by
  induction calls generalizing e events with
  | nil => exact ⟨[], List.nil_prefix, rfl⟩
  | cons call calls ih =>
    cases events with
    | nil => cases hrun
    | cons event events =>
      obtain ⟨outbound, next, rest, hact, hrest, heq⟩ := run_cons_iff.mp hrun
      cases heq
      obtain ⟨events', hprefix, hrun'⟩ := ih hrest
      refine ⟨event :: events', (List.prefix_cons_inj event).mpr hprefix, ?_⟩
      exact run_cons_iff.mpr ⟨outbound, next, calls, hact, hrun', rfl⟩

end Stretch

section Step

variable {e next : RelayEngine P} {event : Event P} {outbound : List Outbound}
  {envelope : Envelope P} {id : EnvelopeId}

/-- The call offers the envelope to the store: it was composed, or came in a frame. -/
inductive Offers (envelope : Envelope P) : Event P → Prop
  | frame {fromPeer bytes now nonce} :
    ContactMessage.fromBytes P bytes = .ok (.data envelope nonce) →
    Offers envelope (.frame fromPeer bytes now)
  | compose {now} : Offers envelope (.compose envelope now)

theorem held_offer_cases {e : RelayEngine P} {offered x : Envelope P} {now : UInt64}
    {disk : EncryptedStore} (h : (e.offer now offered disk).held.get id = some x) :
    e.held.get id = some x ∨ x = offered ∧ x.ttlHops ≠ 0 := by
  rcases Store.get_accept h with h | ⟨rfl, -, hnew⟩
  · exact .inl h
  · exact .inr ⟨rfl, (Store.live_of_accept_new hnew).2.2⟩

@[simp] theorem held_greeted {peer : UInt64} : (e.greeted peer).held = e.held := by
  rw [greeted]
  split <;> rfl

theorem held_act (hact : e.act event = some (outbound, next))
    (h : next.held.get id = some envelope) :
    e.held.get id = some envelope ∨ Offers envelope event ∧ envelope.ttlHops ≠ 0 := by
  cases acted hact with
  | connected | lost | malformed | unproven | overBudget | setPuzzleDifficulty | setRateLimits =>
    exact .inl h
  | asked => exact .inl (held_greeted (e := e) ▸ h)
  | offered hmsg | offerFault hmsg =>
    rcases held_offer_cases h with h | ⟨rfl, httl⟩
    · exact .inl h
    · exact .inr ⟨.frame hmsg, httl⟩
  | composed | composeFault =>
    rcases held_offer_cases h with h | ⟨rfl, httl⟩
    · exact .inl h
    · exact .inr ⟨.compose, httl⟩

theorem held_act_eq (hact : e.act event = some (outbound, next)) :
    next.held = e.held ∨ ∃ x now, next.held = (e.held.accept x now).2 := by
  cases acted hact with
  | connected | lost | malformed | unproven | overBudget | setPuzzleDifficulty | setRateLimits =>
    exact .inl rfl
  | asked => exact .inl held_greeted
  | offered | offerFault | composed | composeFault => exact .inr ⟨_, _, rfl⟩

theorem exists_of_mem_relayTo {peer : UInt64} {frame : List UInt8} {nonce : UInt64}
    {exclude : UInt64 → Bool} {source : Envelope P}
    (h : (peer, frame) ∈ e.relayTo source nonce exclude) :
    ∃ relayed, decrementTtl source = some relayed ∧
      frame = (ContactMessage.data relayed nonce).toBytes := by
  rw [relayTo] at h
  split at h
  · cases h
  · next relayed hrelayed =>
    obtain ⟨p, -, heq⟩ := List.mem_map.mp h
    cases heq
    exact ⟨relayed, hrelayed, rfl⟩

theorem mem_relayTo_of_decrementTtl {peer nonce : UInt64} {exclude : UInt64 → Bool}
    {source relayed : Envelope P} (hdec : decrementTtl source = some relayed)
    (hpeer : peer ∈ e.peers) (hkeep : exclude peer = false) :
    (peer, (ContactMessage.data relayed nonce).toBytes) ∈ e.relayTo source nonce exclude := by
  rw [relayTo, hdec]
  refine List.mem_map.mpr ⟨peer, List.mem_filter.mpr ⟨AList.mem_keys.mp hpeer, ?_⟩, rfl⟩
  rw [hkeep, Bool.not_false]

theorem exists_of_mem_pushFrames {peer peer' : UInt64} {frame : List UInt8}
    {envelopes : List (Envelope P)} (h : (peer', frame) ∈ e.pushFrames peer envelopes) :
    ∃ source ∈ envelopes, ∃ relayed nonce, decrementTtl source = some relayed ∧
      frame = (ContactMessage.data relayed nonce).toBytes := by
  obtain ⟨relayed, hmem, heq⟩ := List.mem_map.mp h
  cases heq
  obtain ⟨source, hsource, hrelayed⟩ := List.mem_filterMap.mp hmem
  exact ⟨source, hsource, relayed, _, hrelayed, rfl⟩

theorem mem_relayTo {peer : UInt64} {frame : List UInt8} {nonce nonce' : UInt64}
    {exclude : UInt64 → Bool} {source : Envelope P}
    (h : (peer, frame) ∈ e.relayTo source nonce exclude)
    (hparse : ContactMessage.fromBytes P frame = .ok (.data envelope nonce')) :
    decrementTtl source = some envelope ∧ (ContactMessage.data envelope nonce').Fits := by
  obtain ⟨relayed, hrelayed, rfl⟩ := exists_of_mem_relayTo h
  obtain ⟨heq, hfits⟩ := ContactMessage.eq_of_fromBytes_data hparse
  cases heq
  exact ⟨hrelayed, hfits⟩

theorem mem_pushFrames {peer peer' : UInt64} {frame : List UInt8} {nonce : UInt64}
    {envelopes : List (Envelope P)} (h : (peer', frame) ∈ e.pushFrames peer envelopes)
    (hparse : ContactMessage.fromBytes P frame = .ok (.data envelope nonce)) :
    (∃ source ∈ envelopes, decrementTtl source = some envelope) ∧
      (ContactMessage.data envelope nonce).Fits := by
  obtain ⟨source, hsource, relayed, nonce', hrelayed, rfl⟩ := exists_of_mem_pushFrames h
  obtain ⟨heq, hfits⟩ := ContactMessage.eq_of_fromBytes_data hparse
  cases heq
  exact ⟨⟨source, hsource, hrelayed⟩, hfits⟩

theorem not_data_summary {nonce : UInt64} :
    ContactMessage.fromBytes P e.summary ≠ .ok (.data envelope nonce) := by
  intro h
  obtain ⟨g, hg⟩ := ContactMessage.summary_of_fromBytes h
  cases hg

theorem not_data_reply {peer peer' : UInt64} {frame : List UInt8} {nonce : UInt64}
    (h : (peer', frame) ∈ e.reply peer) :
    ContactMessage.fromBytes P frame ≠ .ok (.data envelope nonce) := by
  rw [reply] at h
  split at h
  · cases h
  · cases List.mem_singleton.mp h
    exact not_data_summary

/-- A frame that a call sends to a peer: the summary that the peer has not had, or one hop less
of an envelope that was held or offered. -/
inductive Emits (e : RelayEngine P) (event : Event P) (peer : UInt64) : List UInt8 → Prop
  | summary : event = .connected peer ∨ (e.peerState peer).summarySent = false →
    Emits e event peer e.summary
  | data {source relayed : Envelope P} {nonce : UInt64} : decrementTtl source = some relayed →
    e.held.get source.id = some source ∨ Offers source event →
    Emits e event peer (ContactMessage.data relayed nonce).toBytes

theorem emits_act (hact : e.act event = some (outbound, next)) {peer : UInt64}
    {frame : List UInt8} (hmem : (peer, frame) ∈ outbound) : Emits e event peer frame := by
  cases acted hact with
  | connected =>
    cases List.mem_singleton.mp hmem
    exact .summary (.inl rfl)
  | lost | setPuzzleDifficulty | setRateLimits | malformed | unproven | overBudget | offerFault
  | composeFault => cases hmem
  | asked =>
    rcases List.mem_append.mp hmem with hmem | hmem
    · rw [reply] at hmem
      split at hmem
      · cases hmem
      · next hsent =>
        cases List.mem_singleton.mp hmem
        exact .summary (.inr (Bool.eq_false_iff.mpr hsent))
    · obtain ⟨source, hsource, relayed, nonce, hdec, rfl⟩ := exists_of_mem_pushFrames hmem
      exact .data hdec (.inl (Store.mem_missingFromBloom_iff.mp hsource).1)
  | offered hmsg =>
    split at hmem
    · obtain ⟨relayed, hdec, rfl⟩ := exists_of_mem_relayTo hmem
      exact .data hdec (.inr (.frame hmsg))
    · cases hmem
  | composed =>
    split at hmem
    · obtain ⟨relayed, hdec, rfl⟩ := exists_of_mem_relayTo hmem
      exact .data hdec (.inr .compose)
    · cases hmem

/-- What an engine sends is one hop less of what it held, or of what it was offered. -/
theorem outbound_act (hact : e.act event = some (outbound, next)) {peer : UInt64}
    {frame : List UInt8} (hmem : (peer, frame) ∈ outbound) {nonce : UInt64}
    (hparse : ContactMessage.fromBytes P frame = .ok (.data envelope nonce)) :
    ∃ source, decrementTtl source = some envelope ∧
      (e.held.get source.id = some source ∨ Offers source event) ∧
      (ContactMessage.data envelope nonce).Fits := by
  cases emits_act hact hmem with
  | summary => exact absurd hparse not_data_summary
  | data hdec hsource =>
    obtain ⟨heq, hfits⟩ := ContactMessage.eq_of_fromBytes_data hparse
    cases heq
    exact ⟨_, hdec, hsource, hfits⟩

end Step

end RelayEngine

def toyId : List UInt8 :=
  [110, 131, 252, 235, 71, 82, 36, 61, 129, 76, 238, 6, 16, 39, 7, 145,
    127, 47, 159, 125, 108, 230, 179, 29, 5, 15, 16, 45, 224, 167, 140, 165]

def toyIdDigest : List UInt8 :=
  [34, 129, 106, 99, 138, 82, 248, 255, 125, 160, 135, 52, 37, 178, 187, 181,
    144, 100, 188, 159, 235, 104, 77, 50, 101, 106, 123, 64, 81, 240, 62, 6]

def toyProofDigest : List UInt8 :=
  [196, 70, 208, 179, 110, 31, 15, 86, 193, 81, 26, 162, 126, 176, 82, 69,
    125, 123, 69, 180, 125, 107, 33, 43, 99, 89, 2, 160, 48, 18, 2, 179]

/-- The primitives at the inputs of the examples: what BLAKE3 gives for the content of
`toyEnvelope`, for its id, and for the id with nonce 0. -/
def toyPrimitives : Primitives where
  blake3 bs :=
    if bs = [1, 0, 2, 100, 0, 0, 0, 0, 0, 0, 0, 4, 0, 0, 0, 1, 1, 1, 1] then ⟨toyId, rfl⟩
    else if bs = toyId then ⟨toyIdDigest, rfl⟩
    else if bs = toyId ++ leBytes 8 0 then ⟨toyProofDigest, rfl⟩
    else ⟨List.replicate 32 0, rfl⟩
  chachaEncrypt _ _ _ plaintext := some (plaintext ++ List.replicate 16 0)
  chachaDecrypt _ _ _ ciphertext := some (ciphertext.take (ciphertext.length - 16))
  bloomBits n := (n * 9585059 + 999999) / 1000000
  bloomHashes m n := (2 * m * 693147 + n * 1000000) / (2 * n * 1000000)

def toyEnvelope (ttlHops : UInt8) : Envelope toyPrimitives :=
  .new toyPrimitives .broadcast .normal ttlHops 100 [1, 1, 1, 1]

def toyStore : DurableStore toyPrimitives where
  memory := .new toyPrimitives 10
  disk := { db := { table := ∅, faults := [] }, masterKey := ⟨List.replicate 32 1, rfl⟩,
            nonces := [] }

end ProjectMesh.Routing
