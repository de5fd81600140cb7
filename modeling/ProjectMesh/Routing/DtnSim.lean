import ProjectMesh.Lib.Flood
import ProjectMesh.Routing.ContactMerge

namespace ProjectMesh.Routing

open ProjectMesh.Lib Relation

variable {P : Primitives} {n : Nat}

def maxContactIterations : Nat := 1000

/-- The order in which a hash map is visited, whatever it is. -/
structure Shuffle where
  apply : List Outbound → List Outbound
  perm : ∀ frames, (apply frames).Perm frames

/-- Simulated nodes.  A node is its index, and its id what every other node calls it. -/
structure Simulation (P : Primitives) (n : Nat) where
  engine : Fin n → RelayEngine P
  size_le : n ≤ UInt64.size

def nodeId (i : Fin n) : UInt64 := .ofNat i

def idToIndex (n : Nat) (id : UInt64) : Option (Fin n) :=
  if h : id.toNat < n then some ⟨id.toNat, h⟩ else none

def simTopology (n : Nat) : Topology (Fin n) := fun node peer =>
  (idToIndex n peer).map fun target => (target, nodeId node)

namespace Simulation

def freshDisk (i : Fin n) (faults : List (Option Stage)) (nonces : List (Bytes 12)) :
    EncryptedStore where
  db := { table := ∅, faults := faults }
  masterKey := ⟨leBytes 8 i ++ List.replicate 24 0, by
    rw [List.length_append, length_leBytes, List.length_replicate]⟩
  nonces := nonces

def openNode (P : Primitives) (disk : EncryptedStore) : Option (RelayEngine P) :=
  match (DurableStore.openStore (P := P) 0).run ⟨.new P 1000, disk⟩ with
  | .ok _ store => some (.new store)
  | .error _ _ => none

/-- Nodes with fresh stores.  What the disks do and the nonces that are drawn come from outside. -/
def new (P : Primitives) (size_le : n ≤ UInt64.size) (faults : Fin n → List (Option Stage))
    (nonces : Fin n → List (Bytes 12)) : Option (Simulation P n) :=
  if h : 0 < n ∧ ∀ i, (openNode P (freshDisk i (faults i) (nonces i))).isSome then
    some {
      engine := fun i => (openNode P (freshDisk i (faults i) (nonces i))).get (h.2 i)
      size_le := size_le }
  else none

def setEngine (sim : Simulation P n) (i : Fin n) (engine : RelayEngine P) : Simulation P n :=
  { sim with engine := Function.update sim.engine i engine }

def composeAt (i : Fin n) (envelope : Envelope P) (now : UInt64) (sim : Simulation P n) :
    Option (Simulation P n) :=
  match (RelayEngine.composeLocal envelope now).run (sim.engine i) with
  | .ok _ engine => some (sim.setEngine i engine)
  | .error _ _ => none

def composeAll (sim : Simulation P n) :
    List (Fin n × Envelope P × UInt64) → Option (Simulation P n)
  | [] => some sim
  | (i, envelope, now) :: rest => do (← sim.composeAt i envelope now).composeAll rest

def hasEnvelope (sim : Simulation P n) (i : Fin n) (id : EnvelopeId) : Bool :=
  (sim.engine i).held.contains id

/-- The queue is worked off from its end, each frame within the number of iterations left. -/
def converge (order : Nat → Shuffle) (now : UInt64) :
    Nat → (Fin n → RelayEngine P) → List (Packet (Fin n)) → Option (Fin n → RelayEngine P)
  | 0, engine, queue => if queue.isEmpty then some engine else none
  | k + 1, engine, queue =>
    match queue.getLast? with
    | none => some engine
    | some packet =>
      match (RelayEngine.onFrame packet.fromPeer packet.bytes now).run
        (engine packet.receiver) with
      | .error _ _ => none
      | .ok outbound next =>
        converge order now k (Function.update engine packet.receiver next)
          (queue.dropLast ++
            (simTopology n).packets packet.receiver ((order k).apply outbound))

/-- A contact window of two nodes: connect, gossip until nothing is left, disconnect. -/
def contact (order : Nat → Shuffle) (now : UInt64) (a b : Fin n) (sim : Simulation P n) :
    Option (Simulation P n) :=
  if a = b then none
  else do
    let (aHello, aEngine) := (sim.engine a).onPeerConnected (nodeId b)
    let sim := sim.setEngine a aEngine
    let (bHello, bEngine) := (sim.engine b).onPeerConnected (nodeId a)
    let sim := sim.setEngine b bEngine
    let queue : List (Packet (Fin n)) := [
      { receiver := b, fromPeer := nodeId a, bytes := aHello },
      { receiver := a, fromPeer := nodeId b, bytes := bHello }]
    let engine ← converge order now maxContactIterations sim.engine queue
    let sim := { sim with engine := engine }
    let sim := sim.setEngine a ((sim.engine a).onPeerLost (nodeId b))
    return sim.setEngine b ((sim.engine b).onPeerLost (nodeId a))

/-- The contacts of a schedule, in its order.  The hash maps may order each one differently. -/
def runSchedule (orders : Nat → Nat → Shuffle) :
    Simulation P n → List (UInt64 × Fin n × Fin n) → Option (Simulation P n)
  | sim, [] => some sim
  | sim, (tick, a, b) :: events => do
    runSchedule (fun i => orders (i + 1)) (← sim.contact (orders 0) tick a b) events

end Simulation

section Link

theorem idToIndex_nodeId (size_le : n ≤ UInt64.size) (i : Fin n) :
    idToIndex n (nodeId i) = some i := by
  have hnat : (nodeId i).toNat = i :=
    UInt64.toNat_ofNat_of_lt' (Nat.lt_of_lt_of_le i.isLt size_le)
  rw [idToIndex, dif_pos (hnat ▸ i.isLt)]
  exact congrArg some (Fin.ext hnat)

def simLink (size_le : n ≤ UInt64.size) {a b : Fin n} (h : a ≠ b) : Link (simTopology n) where
  node
    | false => a
    | true => b
  peer
    | false => nodeId b
    | true => nodeId a
  ne := h
  route_eq side := by
    cases side <;> simp only [simTopology, idToIndex_nodeId size_le, Option.map_some,
      Bool.not_false, Bool.not_true]

end Link

end ProjectMesh.Routing
