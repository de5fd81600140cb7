import ProjectMesh.Routing.FfiNode

namespace ProjectMesh.Routing

open ProjectMesh.Lib
open ProjectMesh.Crypto.FfiPrekey

variable {P : Primitives}

namespace RelayEngine

def frames (e : RelayEngine P) (event : Event P) : List Outbound :=
  ((e.act event).map Prod.fst).getD []

instance {e : RelayEngine P} {envelopes : List (Envelope P)} :
    Decidable (e.Solvable envelopes) := inferInstanceAs (Decidable (∀ _ ∈ _, _))

/-- The peers that the frames for an event are for, in the order of the frames. -/
def recipients (e : RelayEngine P) : Event P → List UInt64
  | .connected peer => [peer]
  | .frame fromPeer bytes now =>
    match ContactMessage.fromBytes P bytes with
    | .ok (.summary filter) =>
      let wanted := e.held.missingFromBloom filter
      if e.Solvable wanted then
        List.replicate ((if (e.peerState fromPeer).summarySent then 0 else 1) +
          (wanted.filterMap decrementTtl).length) fromPeer
      else []
    | _ =>
      if e.spreads (.frame fromPeer bytes now) then e.peers.keys.filter (· != fromPeer) else []
  | .compose envelope now => if e.spreads (.compose envelope now) then e.peers.keys else []
  | _ => []

section Recipients

variable {e : RelayEngine P} {envelope : Envelope P} {fromPeer nonce now : UInt64}
  {bytes : List UInt8} {store : DurableStore P} {event : Event P}

theorem spreads_of_offering (h : e.offering event = some (envelope, now)) :
    e.spreads event = true ↔ e.Stores envelope now ∧ 2 ≤ envelope.ttlHops.toNat := by
  rw [spreads, h, Option.any_some, decide_eq_true_iff]

theorem spreads_of_not_offering (h : e.offering event = none) : e.spreads event = false := by
  rw [spreads, h, Option.any_none]

theorem keys_charged (e : RelayEngine P) (fromPeer now : UInt64) (size : Nat) :
    (e.charged fromPeer now size).peers.keys.filter (!· == fromPeer) =
      e.peers.keys.filter (· != fromPeer) := by
  have hkeys : (e.charged fromPeer now size).peers.keys = fromPeer :: e.peers.keys.erase fromPeer :=
    AList.keys_insert _
  simp only [hkeys, List.filter_cons, beq_self_eq_true, Bool.not_true, Bool.false_eq_true,
    if_false, e.peers.keys_nodup.erase_eq_filter, List.filter_filter]
  exact List.filter_congr fun peer _ => Bool.and_self _

theorem frames_compose (hsolve : Puzzle.solve P envelope.id e.puzzleDifficultyBits = some nonce) :
    e.frames (.compose envelope now) =
      if e.Stores envelope now then e.relayToAll envelope nonce else [] := by
  rw [frames, act]
  rcases e.stores_or envelope now with ⟨hstores, store, haccept⟩ |
    ⟨hstores, ⟨outcome, store, hnew, haccept⟩ | ⟨f, store, haccept⟩⟩
  · rw [composeLocal_ok hsolve haccept, if_pos rfl, if_pos hstores]
    rfl
  · rw [composeLocal_ok hsolve haccept, if_neg hnew, if_neg hstores]
    rfl
  · rw [composeLocal_error hsolve haccept, if_neg hstores]
    cases f <;> rfl

theorem frames_unparsed {err : MeshError} (h : ContactMessage.fromBytes P bytes = .error err) :
    e.frames (.frame fromPeer bytes now) = [] := by
  rw [frames, act, onFrame_malformed h]
  rfl

theorem frames_summary {filter : BloomFilter}
    (h : ContactMessage.fromBytes P bytes = .ok (.summary filter)) :
    e.frames (.frame fromPeer bytes now) =
      if e.Solvable (e.held.missingFromBloom filter) then
        e.reply fromPeer ++ e.pushFrames fromPeer (e.held.missingFromBloom filter)
      else [] := by
  rw [frames, act, onFrame_summary h]
  rcases onSummary_run e fromPeer filter with ⟨hsolvable, hrun⟩ | ⟨hsolvable, t, hrun⟩
  · rw [hrun, if_pos hsolvable]
    rfl
  · rw [hrun, if_neg hsolvable]
    rfl

theorem frames_data (h : ContactMessage.fromBytes P bytes = .ok (.data envelope nonce)) :
    e.frames (.frame fromPeer bytes now) =
      if e.offering (.frame fromPeer bytes now) = some (envelope, now) ∧ e.Stores envelope now then
        (e.charged fromPeer now bytes.length).relayToOthers envelope nonce fromPeer
      else [] := by
  rw [frames, act, onFrame_data h]
  cases hverify : Puzzle.verify P envelope.id nonce e.puzzleDifficultyBits with
  | false =>
    rw [onData_unproven hverify, if_neg]
    · rfl
    · rintro ⟨hoffering, -⟩
      simp [offering, h, hverify] at hoffering
  | true =>
    cases hbudget : (e.budget fromPeer now bytes.length).1 with
    | false =>
      rw [onData_overBudget hverify hbudget, if_neg]
      · rfl
      · rintro ⟨hoffering, -⟩
        simp [offering, h, hbudget] at hoffering
    | true =>
      have hoffering := offering_frame h hverify hbudget
      rcases e.stores_or envelope now with ⟨hstores, store, haccept⟩ |
        ⟨hstores, ⟨outcome, store, hnew, haccept⟩ | ⟨f, store, haccept⟩⟩
      · rw [onData_ok hverify hbudget haccept, if_pos rfl, if_pos ⟨hoffering, hstores⟩]
        rfl
      · rw [onData_ok hverify hbudget haccept, if_neg hnew, if_neg fun h => hstores h.2]
        rfl
      · rw [onData_error hverify hbudget haccept, if_neg fun h => hstores h.2]
        cases f <;> rfl

theorem addresses_reply :
    (e.reply fromPeer).map Prod.fst =
      List.replicate (if (e.peerState fromPeer).summarySent then 0 else 1) fromPeer := by
  rw [reply]
  split <;> rfl

theorem addresses_pushFrames (envelopes : List (Envelope P)) :
    (e.pushFrames fromPeer envelopes).map Prod.fst =
      List.replicate (envelopes.filterMap decrementTtl).length fromPeer := by
  rw [pushFrames, List.map_map]
  exact List.map_const'

theorem spreads_compose
    (hsolve : Puzzle.solve P envelope.id e.puzzleDifficultyBits = some nonce) :
    e.spreads (.compose envelope now) = true ↔
      e.Stores envelope now ∧ 2 ≤ envelope.ttlHops.toNat :=
  spreads_of_offering (offering_compose hsolve)

theorem spreads_data (h : ContactMessage.fromBytes P bytes = .ok (.data envelope nonce)) :
    e.spreads (.frame fromPeer bytes now) = true ↔
      (e.offering (.frame fromPeer bytes now) = some (envelope, now) ∧ e.Stores envelope now) ∧
        2 ≤ envelope.ttlHops.toNat := by
  cases hoffering : e.offering (.frame fromPeer bytes now) with
  | none => simp [spreads_of_not_offering hoffering]
  | some offer =>
    have hoffer : offer = (envelope, now) := by
      simp only [offering, h, Option.ite_none_right_eq_some] at hoffering
      exact (Option.some.inj hoffering.2).symm
    rw [hoffer] at hoffering ⊢
    rw [spreads_of_offering hoffering, eq_self, true_and]

theorem addresses_flood {keep : Prop} [Decidable keep] {exclude : UInt64 → Bool}
    (h : e.spreads event = true ↔ keep ∧ 2 ≤ envelope.ttlHops.toNat) (t : RelayEngine P) :
    (if keep then t.relayTo envelope nonce exclude else []).map Prod.fst =
      if e.spreads event then t.peers.keys.filter fun peer => !exclude peer else [] := by
  by_cases hkeep : keep
  · by_cases httl : 2 ≤ envelope.ttlHops.toNat
    · rw [if_pos hkeep, if_pos (h.mpr ⟨hkeep, httl⟩), addresses_relayTo httl]
    · rw [if_pos hkeep, if_neg fun hs => httl (h.mp hs).2, relayTo_of_spent httl]
      rfl
  · rw [if_neg hkeep, if_neg fun hs => hkeep (h.mp hs).1]
    rfl

theorem addresses_frames (e : RelayEngine P) (event : Event P) :
    (e.frames event).map Prod.fst = e.recipients event := by
  cases event with
  | connected peer | lost peer | setPuzzleDifficulty bits | setRateLimits limits => rfl
  | compose envelope now =>
    rw [recipients]
    cases hsolve : Puzzle.solve P envelope.id e.puzzleDifficultyBits with
    | none =>
      have hoffering : e.offering (.compose envelope now) = none := by
        rw [offering, hsolve]
        rfl
      rw [spreads_of_not_offering hoffering, frames, act, composeLocal_unsolvable hsolve]
      rfl
    | some nonce =>
      rw [frames_compose hsolve]
      refine (addresses_flood (spreads_compose hsolve) e).trans ?_
      rw [Bool.not_false, List.filter_true]
  | frame fromPeer bytes now =>
    rw [recipients]
    cases hmsg : ContactMessage.fromBytes P bytes with
    | error err =>
      have hoffering : e.offering (.frame fromPeer bytes now) = none := by
        simp only [offering, hmsg]
      rw [frames_unparsed hmsg, spreads_of_not_offering hoffering]
      rfl
    | ok message =>
      cases message with
      | summary filter =>
        rw [frames_summary hmsg]
        dsimp only
        by_cases hsolvable : e.Solvable (e.held.missingFromBloom filter)
        · rw [if_pos hsolvable, if_pos hsolvable, List.map_append, addresses_reply,
            addresses_pushFrames, List.replicate_append_replicate]
        · rw [if_neg hsolvable, if_neg hsolvable]
          rfl
      | data envelope nonce =>
        rw [frames_data hmsg]
        refine (addresses_flood (spreads_data hmsg) _).trans ?_
        rw [keys_charged]

theorem mem_frames {relayed : Envelope P} {peer : UInt64}
    (hoffering : e.offering event = some (envelope, now)) (hstores : e.Stores envelope now)
    (hdec : decrementTtl envelope = some relayed) (hpeer : peer ∈ e.peers)
    (hsender : Call.sender ⟨e, event, []⟩ ≠ some peer) :
    ∃ nonce, (peer, (ContactMessage.data relayed nonce).toBytes) ∈ e.frames event := by
  cases event with
  | connected | lost | setPuzzleDifficulty | setRateLimits => cases hoffering
  | compose x time =>
    rw [offering, Option.ite_none_right_eq_some] at hoffering
    obtain ⟨hsolve, heq⟩ := hoffering
    obtain ⟨nonce, hsolve⟩ := Option.isSome_iff_exists.mp hsolve
    cases heq
    refine ⟨nonce, ?_⟩
    rw [frames_compose hsolve, if_pos hstores]
    exact mem_relayTo_of_decrementTtl hdec hpeer rfl
  | frame fromPeer bytes time =>
    cases hmsg : ContactMessage.fromBytes P bytes with
    | error err => simp only [offering, hmsg, reduceCtorEq] at hoffering
    | ok message =>
      cases message with
      | summary filter => simp only [offering, hmsg, reduceCtorEq] at hoffering
      | data x nonce =>
        have heq := hoffering
        simp only [offering, hmsg, Option.ite_none_right_eq_some] at heq
        cases heq.2
        refine ⟨nonce, ?_⟩
        rw [frames_data hmsg, if_pos ⟨hoffering, hstores⟩]
        refine mem_relayTo_of_decrementTtl hdec (mem_peers_setPeer.mpr (.inr hpeer))
          (beq_eq_false_iff_ne.mpr ?_)
        exact fun h => hsender (congrArg some h.symm)

end Recipients

end RelayEngine

def NodeEvent.asked (P : Primitives) : NodeEvent → Option (Event P)
  | .connected peerHandle => some (.connected peerHandle)
  | .lost peerHandle => some (.lost peerHandle)
  | .frame peerHandle bytes now => some (.frame peerHandle bytes now)
  | .compose envelopeBytes now => (Envelope.fromBytes P envelopeBytes).toOption.map (.compose · now)

namespace FfiMeshNode

def outbound (self : FfiMeshNode P) (event : NodeEvent) : List Outbound :=
  ((event.asked P).map self.engine.frames).getD []

def recipients (self : FfiMeshNode P) (event : NodeEvent) : List UInt64 :=
  ((event.asked P).map self.engine.recipients).getD []

def sends (self : FfiMeshNode P) (event : NodeEvent) : List Outbound :=
  (Method.after ((perform event).run self)).transport.handed.drop self.transport.handed.length

def HandsAll (self : FfiMeshNode P) (event : NodeEvent) : Prop :=
  (self.sends event).Perm (self.outbound event)

/-- An envelope stored as new is handed to `send` for each connected peer whose link works, if
it can go on and the peer did not bring it. -/
def ReachesHealthy (self : FfiMeshNode P) (event : NodeEvent) : Prop :=
  ∀ asked envelope now relayed peer, event.asked P = some asked →
    self.engine.offering asked = some (envelope, now) → self.engine.Stores envelope now →
    decrementTtl envelope = some relayed → peer ∈ self.engine.peers →
    Call.sender ⟨self.engine, asked, []⟩ ≠ some peer →
    (∀ k, self.transport.answer k peer = .ok ()) →
    ∃ nonce, (peer, (ContactMessage.data relayed nonce).toBytes) ∈ self.sends event

section Sends

variable {self : FfiMeshNode P}

theorem onTransport_sendAll (self : FfiMeshNode P) (outbound : List Outbound) :
    (Method.after ((onTransport (FfiMeshTransport.sendAll outbound)).run self)).transport =
      { self.transport with
        handed := self.transport.handed ++
          FfiMeshTransport.upToFailure self.transport.answer self.transport.handed.length
            outbound } := by
  rw [← FfiMeshTransport.after_sendAll, onTransport, Method.run_zoom]
  cases (FfiMeshTransport.sendAll outbound).run self.transport with
  | ok _ transport => rfl
  | error _ transport => rfl

theorem onEngine_ok {x : Method MeshError (RelayEngine P) α} {a : α} {engine : RelayEngine P}
    (h : x.run self.engine = .ok a engine) :
    (onEngine x).run self = .ok a { self with engine := engine } :=
  Method.run_zoom_ok.mpr ⟨engine, Method.run_mapErr_ok h, rfl⟩

theorem onEngine_error {x : Method MeshError (RelayEngine P) α} {f : Fault MeshError}
    {engine : RelayEngine P} (h : x.run self.engine = .error f engine) :
    ∃ f', (onEngine x).run self = .error f' { self with engine := engine } := by
  obtain ⟨f', h⟩ := Method.run_mapErr_error h
  exact ⟨f', Method.run_zoom_error.mpr ⟨engine, h, rfl⟩⟩

theorem frames_frame_ok {e engine : RelayEngine P} {fromPeer now : UInt64} {bytes : List UInt8}
    {outbound : List Outbound}
    (h : (RelayEngine.onFrame fromPeer bytes now).run e = .ok outbound engine) :
    e.frames (.frame fromPeer bytes now) = outbound := by
  rw [RelayEngine.frames, RelayEngine.act, h]
  rfl

theorem frames_frame_error {e engine : RelayEngine P} {fromPeer now : UInt64}
    {bytes : List UInt8} {f : Fault MeshError}
    (h : (RelayEngine.onFrame fromPeer bytes now).run e = .error f engine) :
    e.frames (.frame fromPeer bytes now) = [] := by
  rw [RelayEngine.frames, RelayEngine.act, h]
  cases f <;> rfl

theorem frames_compose_ok {e engine : RelayEngine P} {envelope : Envelope P} {now : UInt64}
    {outcome : Accept} {outbound : List Outbound}
    (h : (RelayEngine.composeLocal envelope now).run e = .ok (outcome, outbound) engine) :
    e.frames (.compose envelope now) = outbound := by
  rw [RelayEngine.frames, RelayEngine.act, h]
  rfl

theorem frames_compose_error {e engine : RelayEngine P} {envelope : Envelope P} {now : UInt64}
    {f : Fault MeshError}
    (h : (RelayEngine.composeLocal envelope now).run e = .error f engine) :
    e.frames (.compose envelope now) = [] := by
  rw [RelayEngine.frames, RelayEngine.act, h]
  cases f <;> rfl

theorem after_onEngine (self : FfiMeshNode P) {x : Method MeshError (RelayEngine P) α}
    {frames : α → List Outbound} {outbound : List Outbound}
    (hok : ∀ a engine, x.run self.engine = .ok a engine → outbound = frames a)
    (herror : ∀ f engine, x.run self.engine = .error f engine → outbound = []) :
    (Method.after ((onEngine x >>= fun a =>
        onTransport (FfiMeshTransport.sendAll (frames a))).run self)).transport =
      { self.transport with
        handed := self.transport.handed ++
          FfiMeshTransport.upToFailure self.transport.answer self.transport.handed.length
            outbound } := by
  rw [EStateM.run_bind]
  cases hrun : x.run self.engine with
  | ok a engine =>
    rw [onEngine_ok hrun, hok a engine hrun]
    exact onTransport_sendAll _ (frames a)
  | error f engine =>
    obtain ⟨f', hf⟩ := onEngine_error hrun
    rw [hf, herror f engine hrun, FfiMeshTransport.upToFailure, List.append_nil]
    rfl

theorem after_connected (self : FfiMeshNode P) (peerHandle : UInt64) :
    (Method.after ((perform (.connected peerHandle)).run self)).transport =
      { self.transport with
        handed := self.transport.handed ++
          FfiMeshTransport.upToFailure self.transport.answer self.transport.handed.length
            [(peerHandle, self.engine.summary)] } := by
  let connected : FfiMeshNode P :=
    { self with engine := (self.engine.onPeerConnected peerHandle).2 }
  refine Eq.trans ?_ (onTransport_sendAll connected [(peerHandle, self.engine.summary)])
  have hrun : (perform (.connected peerHandle)).run self =
      (onTransport (FfiMeshTransport.send peerHandle self.engine.summary)).run connected := rfl
  rw [hrun, onTransport, onTransport, Method.run_zoom, Method.run_zoom]
  simp only [FfiMeshTransport.sendAll, FfiMeshTransport.send, EStateM.run_bind,
    EStateM.run_get, EStateM.run_set]
  cases connected.transport.answer connected.transport.handed.length peerHandle <;> rfl

theorem after_perform (self : FfiMeshNode P) (event : NodeEvent) :
    (Method.after ((perform event).run self)).transport =
      { self.transport with
        handed := self.transport.handed ++
          FfiMeshTransport.upToFailure self.transport.answer self.transport.handed.length
            (self.outbound event) } := by
  have hnone : self.transport = { self.transport with
      handed := self.transport.handed ++
        FfiMeshTransport.upToFailure self.transport.answer self.transport.handed.length [] } := by
    rw [FfiMeshTransport.upToFailure, List.append_nil]
  cases event with
  | connected peerHandle => exact after_connected self peerHandle
  | lost peerHandle => exact hnone
  | frame peerHandle bytes now =>
    exact after_onEngine self (fun _ _ hrun => frames_frame_ok hrun)
      fun _ _ hrun => frames_frame_error hrun
  | compose envelopeBytes now =>
    rw [perform, Method.after_bind_pure, composeLocal, outbound, NodeEvent.asked]
    cases hparse : Envelope.fromBytes P envelopeBytes with
    | error err => exact hnone
    | ok envelope =>
      have hok : (Method.mapErr FfiError.ofMeshError (Method.ofExcept (.ok envelope))).run self =
        .ok envelope self := rfl
      have hlast := Method.after_bind_congr (x := onEngine (RelayEngine.composeLocal envelope now))
        (fun answer => Method.after_bind_pure
          (onTransport (FfiMeshTransport.sendAll answer.2)) fun _ => answer.1) self
      rw [EStateM.run_bind, hok]
      refine (congrArg transport hlast).trans ?_
      exact after_onEngine self (fun _ _ hrun => frames_compose_ok hrun)
        fun _ _ hrun => frames_compose_error hrun

theorem sends_eq (self : FfiMeshNode P) (event : NodeEvent) : self.sends event =
    FfiMeshTransport.upToFailure self.transport.answer self.transport.handed.length
      (self.outbound event) := by
  rw [sends, after_perform]
  exact List.drop_left

theorem handsAll_iff {event : NodeEvent} : self.HandsAll event ↔
    FfiMeshTransport.AllAnswer self.transport.answer self.transport.handed.length
      (self.recipients event).dropLast := by
  have haddresses : (self.outbound event).map Prod.fst = self.recipients event := by
    rw [outbound, recipients]
    cases event.asked P with
    | none => rfl
    | some asked => exact self.engine.addresses_frames asked
  rw [HandsAll, sends_eq, FfiMeshTransport.upToFailure_perm_iff, haddresses]

theorem HandsAll.reachesHealthy {event : NodeEvent} (h : self.HandsAll event) :
    self.ReachesHealthy event := by
  intro asked envelope now relayed peer hasked hoffering hstores hdec hpeer hsender _
  obtain ⟨nonce, hmem⟩ := RelayEngine.mem_frames hoffering hstores hdec hpeer hsender
  refine ⟨nonce, (List.Perm.mem_iff h).mpr ?_⟩
  rw [outbound, hasked]
  exact hmem

/-- Bad links leave the others their frames if and only if no send fails but the last one. -/
theorem handsAll_and_reachesHealthy_iff (self : FfiMeshNode P) (event : NodeEvent) :
    self.HandsAll event ∧ self.ReachesHealthy event ↔
      FfiMeshTransport.AllAnswer self.transport.answer self.transport.handed.length
        (self.recipients event).dropLast := by
  rw [← handsAll_iff]
  exact and_iff_left_of_imp HandsAll.reachesHealthy

section Examples

def halfDeaf : FfiMeshNode toyPrimitives where
  transport :=
    { answer := fun _ peer =>
        if peer = 1 then .error (.invalidState "simulated send failure") else .ok ()
      handed := [] }
  engine := ((RelayEngine.new toyStore).onPeerConnected 2).2.onPeerConnected 1 |>.2

def composed : NodeEvent := .compose (toyEnvelope 3).toBytes 0

theorem not_handsAll_and_reachesHealthy :
    ¬ ∀ (P : Primitives) (self : FfiMeshNode P) (event : NodeEvent),
      self.HandsAll event ∧ self.ReachesHealthy event := by
  intro hclaim
  have hall := (handsAll_iff.mp (hclaim toyPrimitives halfDeaf composed).1) 0 1 (by decide)
  cases hall

end Examples

end Sends

end FfiMeshNode

end ProjectMesh.Routing
