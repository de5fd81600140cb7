import Mathlib.Data.Set.Card
import Mathlib.Logic.Function.Basic
import Mathlib.Logic.Relation
import ProjectMesh.Lib.WorkList
import ProjectMesh.Routing.RelayRun

namespace ProjectMesh.Routing

open ProjectMesh.Lib Relation

variable {P : Primitives} {ι : Type}

def isSummary (frame : List UInt8) : Bool := frame[1]? == some 0

/-- What a frame can still lead to: a summary to anything, a data frame to its hops. -/
def frameRank (P : Primitives) (frame : List UInt8) : Nat :=
  match ContactMessage.fromBytes P frame with
  | .ok (.summary _) => 256
  | .ok (.data envelope _) => envelope.ttlHops.toNat
  | .error _ => 0

theorem isSummary_data {envelope : Envelope P} {nonce : UInt64} :
    isSummary (ContactMessage.data envelope nonce).toBytes = false := rfl

theorem frameRank_data (envelope : Envelope P) (nonce : UInt64) :
    frameRank P (ContactMessage.data envelope nonce).toBytes ≤ envelope.ttlHops.toNat := by
  rw [frameRank]
  split
  · next h => cases (ContactMessage.eq_of_fromBytes_data h).1
  · next h =>
    cases (ContactMessage.eq_of_fromBytes_data h).1
    exact Nat.le_refl _
  · exact Nat.zero_le _

namespace RelayEngine

section Sent

variable {e next : RelayEngine P} {peer fromPeer : UInt64} {frame bytes : List UInt8}
  {state : PeerState} {now : UInt64} {event : Event P} {outbound : List Outbound}
  {envelope : Envelope P}

@[simp] theorem peerState_setPeer_self : (e.setPeer peer state).peerState peer = state := by
  simp [peerState, setPeer]

theorem peerState_setPeer_of_ne (h : peer ≠ fromPeer) :
    (e.setPeer fromPeer state).peerState peer = e.peerState peer := by
  simp only [peerState, setPeer, Assoc.lookup_insert_of_ne h]

@[simp] theorem summarySent_charged {size : Nat} :
    ((e.charged fromPeer now size).peerState peer).summarySent =
      (e.peerState peer).summarySent := by
  by_cases h : peer = fromPeer
  · subst h
    rw [charged, peerState_setPeer_self]
  · rw [charged, peerState_setPeer_of_ne h]

theorem summarySent_greeted_self : ((e.greeted peer).peerState peer).summarySent = true := by
  rw [greeted]
  split
  · next h => exact h
  · rw [peerState_setPeer_self]

theorem summarySent_greeted (h : (e.peerState peer).summarySent = true) :
    ((e.greeted fromPeer).peerState peer).summarySent = true := by
  by_cases hpeer : peer = fromPeer
  · subst hpeer
    exact summarySent_greeted_self
  · rw [greeted]
    split
    · exact h
    · rw [peerState_setPeer_of_ne hpeer]
      exact h

theorem summarySent_act (hact : e.act event = some (outbound, next))
    (hsent : (e.peerState peer).summarySent = true) (hconnected : event ≠ .connected peer)
    (hlost : event ≠ .lost peer) : (next.peerState peer).summarySent = true := by
  cases acted hact with
  | @connected other =>
    have hne : peer ≠ other := fun h => hconnected (h ▸ rfl)
    exact (peerState_setPeer_of_ne hne).symm ▸ hsent
  | @lost other =>
    have hne : peer ≠ other := fun h => hlost (h ▸ rfl)
    rw [peerState, onPeerLost, Assoc.lookup_erase_of_ne hne]
    exact hsent
  | malformed | unproven | setPuzzleDifficulty | setRateLimits | composed | composeFault =>
    exact hsent
  | asked => exact summarySent_greeted hsent
  | overBudget | offered | offerFault =>
    exact summarySent_charged.trans hsent

theorem data_or_summary_of_act (hact : e.act event = some (outbound, next))
    (hmem : (peer, frame) ∈ outbound) :
    isSummary frame = false ∨
      event = .connected peer ∨ (e.peerState peer).summarySent = false := by
  cases emits_act hact hmem with
  | summary hsent => exact .inr hsent
  | data => exact .inl isSummary_data

/-- A frame raises the sender's flag, or leads only to frames that rank below it. -/
theorem frameRank_act (hact : e.act (.frame fromPeer bytes now) = some (outbound, next)) :
    ((e.peerState fromPeer).summarySent = false ∧
        (next.peerState fromPeer).summarySent = true) ∨
      ∀ o ∈ outbound, frameRank P o.2 < frameRank P bytes := by
  cases acted hact with
  | malformed | unproven | overBudget | offerFault =>
    right
    intro o h
    cases h
  | asked hmsg =>
    cases hsent : (e.peerState fromPeer).summarySent with
    | false => exact .inl ⟨rfl, summarySent_greeted_self⟩
    | true =>
      right
      rintro ⟨peer, frame⟩ hmem
      rw [reply, hsent, if_pos rfl, List.nil_append] at hmem
      obtain ⟨-, -, relayed, nonce, -, rfl⟩ := exists_of_mem_pushFrames hmem
      have hrank : frameRank P bytes = 256 := by rw [frameRank, hmsg]
      have hlt := relayed.ttlHops.toNat_lt
      have hle := frameRank_data relayed nonce
      dsimp only
      omega
  | @offered _ _ _ source nonce _ hmsg =>
    right
    rintro ⟨peer, frame⟩ hmem
    split at hmem
    · obtain ⟨relayed, hrelayed, rfl⟩ := exists_of_mem_relayTo hmem
      have hrank : frameRank P bytes = source.ttlHops.toNat := by rw [frameRank, hmsg]
      have httl := (ttlHops_decrementTtl hrelayed).1
      have hle := frameRank_data relayed nonce
      dsimp only
      omega
    · cases hmem

theorem puzzleDifficultyBits_act_frame
    (hact : e.act (.frame fromPeer bytes now) = some (outbound, next)) :
    next.puzzleDifficultyBits = e.puzzleDifficultyBits := by
  cases acted hact with
  | asked =>
    rw [greeted]
    split <;> rfl
  | malformed | unproven | overBudget | offered | offerFault => rfl

theorem act_frame_isSome
    (hsolve : ∀ id, (Puzzle.solve P id e.puzzleDifficultyBits).isSome) (fromPeer : UInt64)
    (bytes : List UInt8) (now : UInt64) : (e.act (.frame fromPeer bytes now)).isSome := by
  have houtcome := onFrame_outcome e fromPeer bytes now
  simp only [act]
  generalize (onFrame fromPeer bytes now).run e = result at houtcome ⊢
  cases houtcome with
  | unsolvable _ hsolvable => exact absurd (fun _ _ => hsolve _) hsolvable
  | _ => rfl

theorem countP_isSummary_run {events : List (Event P)} {calls : List (Call P)}
    (hsent : (e.peerState peer).summarySent = true)
    (hevents : ∀ event ∈ events, event ≠ .connected peer ∧ event ≠ .lost peer)
    (hrun : e.run events = some calls) :
    (calls.flatMap Call.outbound).countP (fun o => o.1 = peer ∧ isSummary o.2) = 0 := by
  induction events generalizing e calls with
  | nil =>
    cases hrun
    rfl
  | cons event events ih =>
    obtain ⟨outbound, next, rest, hact, hrest, heq⟩ := run_cons_iff.mp hrun
    cases heq
    obtain ⟨hconnected, hlost⟩ := hevents event (List.mem_cons_self ..)
    rw [List.flatMap_cons, List.countP_append, ih (summarySent_act hact hsent hconnected hlost)
      (fun event h => hevents event (List.mem_cons_of_mem _ h)) hrest, Nat.add_zero,
      List.countP_eq_zero]
    rintro ⟨p, frame⟩ hmem hcounted
    obtain ⟨rfl, hsummary⟩ : p = peer ∧ isSummary frame = true := of_decide_eq_true hcounted
    rcases data_or_summary_of_act hact hmem with h | h | h
    · exact absurd (h.symm.trans hsummary) Bool.false_ne_true
    · exact hconnected h
    · exact absurd (h.symm.trans hsent) Bool.false_ne_true

end Sent

end RelayEngine

structure Packet (ι : Type) where
  receiver : ι
  fromPeer : UInt64
  bytes : List UInt8
  deriving DecidableEq

/-- Which node a handle of a node stands for, and what that one calls the node in turn. -/
abbrev Topology (ι : Type) := ι → UInt64 → Option (ι × UInt64)

/-- Where the frames of a node go.  One for a handle that stands for nothing goes nowhere. -/
def Topology.packets (route : Topology ι) (node : ι) (outbound : List Outbound) :
    List (Packet ι) :=
  outbound.filterMap fun (peer, bytes) => (route node peer).map fun (receiver, fromPeer) =>
    { receiver := receiver, fromPeer := fromPeer, bytes := bytes }

/-- Engines, and links that deliver each frame once, in any order. -/
structure Traffic (P : Primitives) (ι : Type) where
  engine : ι → RelayEngine P
  inFlight : List (Packet ι)
  /-- Every frame so far, in flight or not. -/
  sent : List (Packet ι)

namespace Traffic

section Deliver

variable [DecidableEq ι]

def call (route : Topology ι) (node : ι) (event : Event P) (w : Traffic P ι) :
    Option (Traffic P ι) := do
  let (outbound, next) ← (w.engine node).act event
  return {
    engine := Function.update w.engine node next
    inFlight := w.inFlight ++ route.packets node outbound
    sent := w.sent ++ route.packets node outbound }

def deliver (route : Topology ι) (k : Nat) (now : UInt64) (w : Traffic P ι) :
    Option (Traffic P ι) := do
  let packet ← w.inFlight[k]?
  call route packet.receiver (.frame packet.fromPeer packet.bytes now)
    { w with inFlight := w.inFlight.eraseIdx k }

def Delivers (route : Topology ι) (clock : Set UInt64) (w w' : Traffic P ι) : Prop :=
  ∃ k, ∃ now ∈ clock, w.deliver route k now = some w'

end Deliver

def unsent (w : Traffic P ι) : Set (ι × UInt64) :=
  {x | ((w.engine x.1).peerState x.2).summarySent = false}

theorem mem_unsent {w : Traffic P ι} {node : ι} {peer : UInt64} :
    (node, peer) ∈ w.unsent ↔ ((w.engine node).peerState peer).summarySent = false := Iff.rfl

noncomputable def work (w : Traffic P ι) : Nat × List (Packet ι) := (w.unsent.ncard, w.inFlight)

section Quiescence

variable [DecidableEq ι] {route : Topology ι} {clock : Set UInt64} {w w' : Traffic P ι}

instance : Finite UInt64 := Finite.of_injective UInt64.toFin fun _ _ h => UInt64.toFin_inj.mp h

theorem deliver_cases {k : Nat} {now : UInt64} (h : w.deliver route k now = some w') :
    ∃ packet outbound next, w.inFlight[k]? = some packet ∧
      (w.engine packet.receiver).act (.frame packet.fromPeer packet.bytes now) =
        some (outbound, next) ∧
      w' = {
        engine := Function.update w.engine packet.receiver next
        inFlight := w.inFlight.eraseIdx k ++ route.packets packet.receiver outbound
        sent := w.sent ++ route.packets packet.receiver outbound } := by
  simp only [deliver, call, Option.bind_eq_bind, Option.bind_eq_some_iff] at h
  obtain ⟨packet, hpacket, ⟨outbound, next⟩, hact, heq⟩ := h
  cases heq
  exact ⟨packet, outbound, next, hpacket, hact, rfl⟩

omit [DecidableEq ι] in
theorem frame_of_mem_packets {node : ι} {outbound : List Outbound} {packet : Packet ι}
    (h : packet ∈ route.packets node outbound) :
    ∃ peer, (peer, packet.bytes) ∈ outbound ∧
      route node peer = some (packet.receiver, packet.fromPeer) := by
  obtain ⟨⟨peer, bytes⟩, hmem, heq⟩ := List.mem_filterMap.mp h
  obtain ⟨⟨receiver, fromPeer⟩, hroute, rfl⟩ := Option.map_eq_some_iff.mp heq
  exact ⟨peer, hmem, hroute⟩

/-- A delivery raises a flag, or replaces a frame by frames that rank below it. -/
theorem less_of_delivers [Finite ι] (h : w.Delivers route clock w') :
    WorkList.Less (fun packet : Packet ι => frameRank P packet.bytes) w'.work w.work := by
  obtain ⟨k, now, -, hdeliver⟩ := h
  obtain ⟨packet, outbound, next, hpacket, hact, rfl⟩ := deliver_cases hdeliver
  have hupdate : ∀ node, node ≠ packet.receiver →
      Function.update w.engine packet.receiver next node = w.engine node :=
    fun node hne => Function.update_of_ne hne _ _
  have hsubset : unsent (P := P) { w with
      engine := Function.update w.engine packet.receiver next } ⊆ w.unsent := by
    rintro ⟨node, peer⟩ hunsent
    by_cases hnode : node = packet.receiver
    · subst hnode
      refine Bool.eq_false_iff.mpr fun hsent => ?_
      have hnext := RelayEngine.summarySent_act hact hsent nofun nofun
      simp only [mem_unsent, Function.update_self] at hunsent
      exact absurd (hunsent.symm.trans hnext) Bool.false_ne_true
    · simp only [mem_unsent, hupdate node hnode] at hunsent
      exact hunsent
  have hfinite : w.unsent.Finite := Set.toFinite _
  rcases RelayEngine.frameRank_act hact with ⟨hdown, hup⟩ | hrank
  · refine .spend (Set.ncard_lt_ncard ⟨hsubset, fun hsuperset => ?_⟩ hfinite)
    have hmem : (packet.receiver, packet.fromPeer) ∈ w.unsent := hdown
    have hunsent := hsuperset hmem
    simp only [mem_unsent, Function.update_self] at hunsent
    exact absurd (hunsent.symm.trans hup) Bool.false_ne_true
  · have hlower : ∀ x ∈ route.packets packet.receiver outbound,
        frameRank P x.bytes < frameRank P packet.bytes := by
      intro x hx
      obtain ⟨peer, hmem, -⟩ := frame_of_mem_packets hx
      exact hrank _ hmem
    rcases Nat.lt_or_eq_of_le (Set.ncard_le_ncard hsubset hfinite) with hlt | heq
    · exact .spend hlt
    · rw [work, work, ← heq]
      exact .replace hpacket hlower

theorem exists_delivers (hsolve : ∀ node id,
      (Puzzle.solve P id (w.engine node).puzzleDifficultyBits).isSome)
    (hclock : clock.Nonempty) (hflight : w.inFlight ≠ []) :
    ∃ w', w.Delivers route clock w' := by
  obtain ⟨now, hnow⟩ := hclock
  obtain ⟨packet, rest, hcons⟩ := List.exists_cons_of_ne_nil hflight
  obtain ⟨⟨outbound, next⟩, hact⟩ := Option.isSome_iff_exists.mp
    (RelayEngine.act_frame_isSome (hsolve packet.receiver) packet.fromPeer packet.bytes now)
  have hsome : (w.deliver route 0 now).isSome := by
    simp only [deliver, call, hcons, List.getElem?_cons_zero, Option.bind_eq_bind,
      Option.bind_some, hact]
    rfl
  obtain ⟨w', hdeliver⟩ := Option.isSome_iff_exists.mp hsome
  exact ⟨w', 0, now, hnow, hdeliver⟩

theorem puzzleDifficultyBits_of_delivers
    (h : ReflTransGen (Delivers route clock) w w') (node : ι) :
    (w'.engine node).puzzleDifficultyBits = (w.engine node).puzzleDifficultyBits := by
  induction h with
  | refl => rfl
  | tail _ hstep ih =>
    obtain ⟨k, now, -, hdeliver⟩ := hstep
    obtain ⟨packet, outbound, next, -, hact, rfl⟩ := deliver_cases hdeliver
    rw [← ih]
    by_cases hnode : node = packet.receiver
    · subst hnode
      simp only [Function.update_self]
      exact RelayEngine.puzzleDifficultyBits_act_frame hact
    · simp only [Function.update_of_ne hnode]

theorem exists_quiet [Finite ι] (hsolve : ∀ node id,
      (Puzzle.solve P id (w.engine node).puzzleDifficultyBits).isSome)
    (hclock : clock.Nonempty) :
    ∃ w', ReflTransGen (Delivers route clock) w w' ∧ w'.inFlight = [] := by
  have hwf : WellFounded (InvImage
      (WorkList.Less fun packet : Packet ι => frameRank P packet.bytes) (work (P := P))) :=
    InvImage.wf _ (WorkList.wellFounded_less _)
  induction w using hwf.induction with
  | _ w ih =>
    by_cases hflight : w.inFlight = []
    · exact ⟨w, .refl, hflight⟩
    · obtain ⟨next, hnext⟩ := exists_delivers hsolve hclock hflight
      have hsolve' : ∀ node id,
          (Puzzle.solve P id (next.engine node).puzzleDifficultyBits).isSome := by
        intro node id
        rw [puzzleDifficultyBits_of_delivers (.single hnext)]
        exact hsolve node id
      obtain ⟨w', hrun, hquiet⟩ := ih next (less_of_delivers hnext) hsolve'
      exact ⟨w', .head hnext hrun, hquiet⟩

/-- Whatever is in flight, whatever the stores and the links are: deliveries do not go on for
ever, and stop only when nothing is in flight.  From one connection to the next, a peer is
sent one summary at most. -/
theorem quiescence [Finite ι] (route : Topology ι) (w : Traffic P ι)
    (hsolve : ∀ node id, (Puzzle.solve P id (w.engine node).puzzleDifficultyBits).isSome) :
    (∀ s : Nat → Traffic P ι, s 0 = w → ¬ ∀ n, (s n).Delivers route Set.univ (s (n + 1))) ∧
      (∀ w', ReflTransGen (Delivers route Set.univ) w w' →
        (∀ w'', ¬ w'.Delivers route Set.univ w'') → w'.inFlight = []) ∧
      ∀ (e : RelayEngine P) peer events calls,
        (∀ event ∈ events, event ≠ .connected peer ∧ event ≠ .lost peer) →
        e.run (.connected peer :: events) = some calls →
        (calls.flatMap Call.outbound).countP (fun o => o.1 = peer ∧ isSummary o.2) ≤ 1 := by
  refine ⟨fun s _ => ?_, fun w' hrun hstuck => ?_, fun e peer events calls hevents hrun => ?_⟩
  · exact WorkList.not_forever work (fun _ _ => less_of_delivers) s
  · by_contra hflight
    have hsolve' : ∀ node id,
        (Puzzle.solve P id (w'.engine node).puzzleDifficultyBits).isSome := by
      intro node id
      rw [puzzleDifficultyBits_of_delivers hrun]
      exact hsolve node id
    obtain ⟨w'', h⟩ := exists_delivers hsolve' Set.univ_nonempty hflight
    exact hstuck w'' h
  · obtain ⟨outbound, next, rest, hact, hrest, heq⟩ := RelayEngine.run_cons_iff.mp hrun
    cases heq
    cases hact
    have hsent : ((e.onPeerConnected peer).2.peerState peer).summarySent = true := by
      simp [RelayEngine.onPeerConnected, PeerState.new]
    rw [List.flatMap_cons, List.countP_append,
      RelayEngine.countP_isSummary_run hsent hevents hrest]
    exact List.countP_le_length

section Examples

def toyTopology : Topology Bool := fun node peer => some (!node, peer)

def toyTraffic : Traffic toyPrimitives Bool where
  engine _ := (RelayEngine.new toyStore).onPeerConnected 7 |>.2
  inFlight := [⟨true, 7, (ContactMessage.data (toyEnvelope 255) 0).toBytes⟩]
  sent := []

theorem quiescence_toyTraffic :
    toyTraffic.inFlight ≠ [] ∧ ∀ w', ReflTransGen (Delivers toyTopology Set.univ) toyTraffic w' →
      (∀ w'', ¬ w'.Delivers toyTopology Set.univ w'') → w'.inFlight = [] := by
  have hsolve : ∀ node id,
      (Puzzle.solve toyPrimitives id (toyTraffic.engine node).puzzleDifficultyBits).isSome := by
    intro node id
    simp [toyTraffic, RelayEngine.onPeerConnected, RelayEngine.setPeer, RelayEngine.new]
  exact ⟨List.cons_ne_nil _ _, (quiescence toyTopology toyTraffic hsolve).2.1⟩

end Examples

end Quiescence

end Traffic

end ProjectMesh.Routing
