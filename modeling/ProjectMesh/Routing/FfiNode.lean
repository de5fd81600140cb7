import ProjectMesh.Crypto.FfiPrekey
import ProjectMesh.Routing.LiveLinks

namespace ProjectMesh.Routing

open ProjectMesh.Lib
open ProjectMesh.Crypto.FfiPrekey

variable {P : Primitives}

/-- The native driver: what `send` answers, by the number of the call and the peer, and what it
has been handed. -/
structure FfiMeshTransport where
  answer : Nat → UInt64 → Except FfiError Unit
  handed : List Outbound

structure FfiMeshNode (P : Primitives) where
  transport : FfiMeshTransport
  engine : RelayEngine P

inductive NodeEvent : Type
  | connected (peerHandle : UInt64)
  | lost (peerHandle : UInt64)
  | frame (peerHandle : UInt64) (bytes : List UInt8) (now : UInt64)
  | compose (envelopeBytes : List UInt8) (now : UInt64)

namespace FfiMeshTransport

def send (peerHandle : UInt64) (frame : List UInt8) :
    Method FfiError FfiMeshTransport Unit := do
  let self ← get
  set { self with handed := self.handed ++ [(peerHandle, frame)] }
  Method.ofExcept (self.answer self.handed.length peerHandle)

/-- `for (peer, frame) in outbound { self.transport.send(peer, frame)?; }` -/
def sendAll : List Outbound → Method FfiError FfiMeshTransport Unit
  | [] => pure ()
  | frame :: outbound => do
    send frame.1 frame.2
    sendAll outbound

def upToFailure (answer : Nat → UInt64 → Except FfiError Unit) :
    Nat → List Outbound → List Outbound
  | _, [] => []
  | k, frame :: outbound =>
    match answer k frame.1 with
    | .ok () => frame :: upToFailure answer (k + 1) outbound
    | .error _ => [frame]

variable {answer : Nat → UInt64 → Except FfiError Unit} {frame : Outbound}
  {outbound : List Outbound} {k : Nat}

theorem upToFailure_cons_ok (h : answer k frame.1 = .ok ()) :
    upToFailure answer k (frame :: outbound) = frame :: upToFailure answer (k + 1) outbound := by
  rw [upToFailure, h]

theorem upToFailure_cons_error {err : FfiError} (h : answer k frame.1 = .error err) :
    upToFailure answer k (frame :: outbound) = [frame] := by
  rw [upToFailure, h]

theorem after_sendAll (self : FfiMeshTransport) (outbound : List Outbound) :
    Method.after ((sendAll outbound).run self) =
      { self with
        handed := self.handed ++ upToFailure self.answer self.handed.length outbound } := by
  induction outbound generalizing self with
  | nil =>
    rw [upToFailure, List.append_nil]
    rfl
  | cons frame outbound ih =>
    simp only [sendAll, send, EStateM.run_bind, EStateM.run_get, EStateM.run_set]
    cases hanswer : self.answer self.handed.length frame.1 with
    | error err =>
      rw [upToFailure_cons_error hanswer]
      rfl
    | ok =>
      rw [upToFailure_cons_ok hanswer]
      refine (ih _).trans ?_
      rw [List.length_append, List.length_singleton, List.append_assoc, List.singleton_append]

/-- The calls from the `k`th on answer for these peers. -/
def AllAnswer (answer : Nat → UInt64 → Except FfiError Unit) (k : Nat) (peers : List UInt64) :
    Prop :=
  ∀ i peer, peers[i]? = some peer → answer (k + i) peer = .ok ()

theorem allAnswer_nil : AllAnswer answer k [] := fun i peer h => by
  rw [List.getElem?_nil] at h
  cases h

theorem allAnswer_cons {peer : UInt64} {peers : List UInt64} :
    AllAnswer answer k (peer :: peers) ↔
      answer k peer = .ok () ∧ AllAnswer answer (k + 1) peers := by
  constructor
  · refine fun h => ⟨h 0 peer rfl, fun i other hi => ?_⟩
    rw [Nat.add_right_comm, Nat.add_assoc]
    exact h (i + 1) other hi
  · rintro ⟨hfirst, hrest⟩ i other hi
    cases i with
    | zero =>
      cases hi
      exact hfirst
    | succ i =>
      rw [← Nat.add_assoc, Nat.add_right_comm]
      exact hrest i other hi

/-- A failing send ends the loop, so only that of the last frame leaves none out. -/
theorem upToFailure_eq_iff : upToFailure answer k outbound = outbound ↔
    AllAnswer answer k (outbound.map Prod.fst).dropLast := by
  induction outbound generalizing k with
  | nil => exact iff_of_true rfl allAnswer_nil
  | cons frame outbound ih =>
    cases outbound with
    | nil =>
      refine iff_of_true ?_ allAnswer_nil
      cases hanswer : answer k frame.1 with
      | error err => exact upToFailure_cons_error hanswer
      | ok => exact upToFailure_cons_ok hanswer
    | cons next outbound =>
      rw [List.map_cons, List.map_cons, List.dropLast_cons_cons, allAnswer_cons, ← List.map_cons]
      cases hanswer : answer k frame.1 with
      | error err =>
        rw [upToFailure_cons_error hanswer]
        refine iff_of_false (fun h => ?_) (fun h => ?_)
        · cases h
        · cases h.1
      | ok =>
        rw [upToFailure_cons_ok hanswer, List.cons_inj_right, ih]
        exact (and_iff_right rfl).symm

theorem upToFailure_prefix : upToFailure answer k outbound <+: outbound := by
  induction outbound generalizing k with
  | nil => exact List.prefix_rfl
  | cons frame outbound ih =>
    cases hanswer : answer k frame.1 with
    | error err =>
      rw [upToFailure_cons_error hanswer]
      exact ⟨outbound, rfl⟩
    | ok =>
      rw [upToFailure_cons_ok hanswer]
      exact (List.prefix_cons_inj frame).mpr ih

theorem upToFailure_perm_iff : (upToFailure answer k outbound).Perm outbound ↔
    AllAnswer answer k (outbound.map Prod.fst).dropLast := by
  rw [← upToFailure_eq_iff]
  refine ⟨fun h => upToFailure_prefix.eq_of_length h.length_eq, fun h => ?_⟩
  rw [h]

end FfiMeshTransport

namespace FfiMeshNode

def onEngine (x : Method MeshError (RelayEngine P) α) : Method FfiError (FfiMeshNode P) α :=
  Method.zoom engine (fun self engine => { self with engine := engine })
    (Method.mapErr .ofMeshError x)

def onTransport (x : Method FfiError FfiMeshTransport α) : Method FfiError (FfiMeshNode P) α :=
  Method.zoom transport (fun self transport => { self with transport := transport }) x

def onPeerConnected (peerHandle : UInt64) : Method FfiError (FfiMeshNode P) Unit := do
  let self ← get
  let (hello, engine) := self.engine.onPeerConnected peerHandle
  set { self with engine := engine }
  onTransport (FfiMeshTransport.send peerHandle hello)

def onPeerLost (peerHandle : UInt64) : Method FfiError (FfiMeshNode P) Unit := do
  let self ← get
  set { self with engine := self.engine.onPeerLost peerHandle }

def onFrame (peerHandle : UInt64) (bytes : List UInt8) (now : UInt64) :
    Method FfiError (FfiMeshNode P) Unit := do
  let outbound ← onEngine (RelayEngine.onFrame peerHandle bytes now)
  onTransport (FfiMeshTransport.sendAll outbound)

def composeLocal (envelopeBytes : List UInt8) (now : UInt64) :
    Method FfiError (FfiMeshNode P) Accept := do
  let envelope ←
    Method.mapErr FfiError.ofMeshError (Method.ofExcept (Envelope.fromBytes P envelopeBytes))
  let (outcome, outbound) ← onEngine (RelayEngine.composeLocal envelope now)
  onTransport (FfiMeshTransport.sendAll outbound)
  return outcome

def perform : NodeEvent → Method FfiError (FfiMeshNode P) Unit
  | .connected peerHandle => onPeerConnected peerHandle
  | .lost peerHandle => onPeerLost peerHandle
  | .frame peerHandle bytes now => onFrame peerHandle bytes now
  | .compose envelopeBytes now => do
    let _ ← composeLocal envelopeBytes now

end FfiMeshNode

end ProjectMesh.Routing
