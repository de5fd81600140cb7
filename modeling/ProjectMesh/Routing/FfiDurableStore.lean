import ProjectMesh.Crypto.FfiPrekey
import ProjectMesh.Routing.HexIds
import ProjectMesh.Routing.Persistence

namespace ProjectMesh.Routing

open ProjectMesh.Lib
open ProjectMesh.Crypto.FfiPrekey

variable {P : Primitives}

def parseIds : List (List Char) → Parse Unit (List EnvelopeId)
  | [] => .ok []
  | idHex :: rest =>
    match hexToId idHex with
    | .ok id => do
      let ids ← parseIds rest
      return id :: ids
    | .error (.err ()) => parseIds rest
    | .error .panic => Parse.halt

namespace FfiStore

/-- An error is the `None` of the source. -/
def containsHex (self : Store P) (idHex : List Char) : Parse Unit Bool :=
  match hexToId idHex with
  | .ok id => .ok (self.contains id)
  | .error (.err ()) => .ok false
  | .error .panic => Parse.halt

def summaryIdsHex (self : Store P) : List (List Char) := self.entries.keys.map EnvelopeId.toHex

def missingFromHex (self : Store P) (peerSummaryHex : List (List Char)) :
    Parse Unit (List (List UInt8)) := do
  let peerIds ← parseIds peerSummaryHex
  return (self.missingFrom peerIds.toFinset).map Envelope.toBytes

end FfiStore

namespace FfiDurableStore

/-- `FfiDurableStore::open`, on the file as it is and the nonces that will be drawn. -/
def openStore (P : Primitives) (db : Database) (nonces : List (Bytes 12)) (masterKey : List UInt8)
    (capacity : UInt32) (now : UInt64) : Except (Fault FfiError) (DurableStore P) :=
  if h : masterKey.length = 32 then
    match (DurableStore.openStore now).run
        ⟨.new P capacity.toNat, { db := db, masterKey := ⟨masterKey, h⟩, nonces := nonces }⟩ with
    | .ok () store => .ok store
    | .error (.err e) _ => .error (.err (.ofMeshError e))
    | .error .panic _ => .error .panic
  else .error (.err (.malformed "master_key must be 32 bytes"))

def accept (envelopeBytes : List UInt8) (now : UInt64) :
    Method FfiError (DurableStore P) Accept := do
  let envelope ←
    Method.mapErr FfiError.ofMeshError (Method.ofExcept (Envelope.fromBytes P envelopeBytes))
  Method.mapErr .ofMeshError (DurableStore.accept envelope now)

def purgeExpired (now : UInt64) : Method FfiError (DurableStore P) UInt32 := do
  let n ← Method.mapErr FfiError.ofMeshError (DurableStore.purgeExpired now)
  return .ofNat n

def containsHex (self : DurableStore P) (idHex : List Char) : Parse Unit Bool :=
  FfiStore.containsHex self.memory idHex

def summaryIdsHex (self : DurableStore P) : List (List Char) := FfiStore.summaryIdsHex self.memory

def missingFromHex (self : DurableStore P) (peerSummaryHex : List (List Char)) :
    Parse Unit (List (List UInt8)) :=
  FfiStore.missingFromHex self.memory peerSummaryHex

def acceptAll (now : UInt64) : List (List UInt8) → DurableStore P →
    List (Except (Fault FfiError) Accept) × DurableStore P
  | [], self => ([], self)
  | envelopeBytes :: rest, self =>
    let result := (accept envelopeBytes now).run self
    let (answers, self') := acceptAll now rest (Method.after result)
    (Method.seen result :: answers, self')

def pull (self peer : DurableStore P) (now : UInt64) :
    Parse Unit (List (Except (Fault FfiError) Accept) × DurableStore P) := do
  let missing ← missingFromHex peer (summaryIdsHex self)
  return acceptAll now missing self

end FfiDurableStore

inductive SyncEvent (ι : Type) : Type
  | accept (node : ι) (envelopeBytes : List UInt8) (now : UInt64)
  | purgeExpired (node : ι) (now : UInt64)
  | reopen (node : ι) (nonces : List (Bytes 12)) (now : UInt64)
  | pull (giver asker : ι) (now : UInt64)

namespace SyncEvent

variable {ι : Type}

def now : SyncEvent ι → UInt64
  | .accept _ _ now | .purgeExpired _ now | .reopen _ _ now | .pull _ _ now => now

/-- The stores after an event.  A device that is opened again has the key and the capacity it
had. -/
def step [DecidableEq ι] (masterKey : ι → List UInt8) (capacity : ι → UInt32)
    (store : ι → DurableStore P) : SyncEvent ι → Option (ι → DurableStore P)
  | .accept node envelopeBytes now =>
    some (Function.update store node
      (Method.after ((FfiDurableStore.accept envelopeBytes now).run (store node))))
  | .purgeExpired node now =>
    some (Function.update store node
      (Method.after ((FfiDurableStore.purgeExpired now).run (store node))))
  | .reopen node nonces now =>
    match FfiDurableStore.openStore P (store node).disk.db nonces (masterKey node)
        (capacity node) now with
    | .ok reopened => some (Function.update store node reopened)
    | .error _ => none
  | .pull giver asker now =>
    match FfiDurableStore.pull (store asker) (store giver) now with
    | .ok (_, synced) => some (Function.update store asker synced)
    | .error _ => none

def run [DecidableEq ι] (masterKey : ι → List UInt8) (capacity : ι → UInt32)
    (store : ι → DurableStore P) (events : List (SyncEvent ι)) : Option (ι → DurableStore P) :=
  events.foldlM (step masterKey capacity) store

end SyncEvent

end ProjectMesh.Routing
