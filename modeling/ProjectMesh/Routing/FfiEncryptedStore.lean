import ProjectMesh.Crypto.FfiPrekey
import ProjectMesh.Routing.HexIds
import ProjectMesh.Routing.Persistence

namespace ProjectMesh.Routing

open ProjectMesh.Lib
open ProjectMesh.Crypto.FfiPrekey

variable {P : Primitives}

def EncryptedStore.len : Method MeshError EncryptedStore Nat :=
  call (fun
    | .begin => some "failed to begin read transaction"
    | .openTable => some "failed to open envelopes table"
    | .operation => some "failed to count envelopes"
    | _ => none) (fun table => (.ok table.size, table))

inductive StoreCall : Type
  | put (envelopeBytes : List UInt8)
  | getHex (idHex : List Char)
  | removeHex (idHex : List Char)
  | len
  | allIdsHex

inductive StoreAnswer : Type
  | opened
  | done
  | envelope (bytes : Option (List UInt8))
  | count (n : UInt32)
  | ids (idsHex : List (List Char))
  deriving DecidableEq

inductive StoreProcess : Type
  | closed (db : Database)
  | opened (store : EncryptedStore)

namespace StoreProcess

def file : StoreProcess → Database
  | .closed db => db
  | .opened store => store.db

def key : StoreProcess → Option (Bytes 32)
  | .closed _ => none
  | .opened store => some store.masterKey

end StoreProcess

namespace FfiEncryptedStore

/-- `FfiEncryptedStore::open`, on the file as it is and the nonces that will be drawn. -/
def openStore (nonces : List (Bytes 12)) (masterKey : List UInt8) (db : Database) :
    Except (Fault FfiError) StoreAnswer × StoreProcess :=
  if h : masterKey.length = 32 then
    match (Method.mapErr FfiError.ofMeshError EncryptedStore.init).run
        { db := db, masterKey := ⟨masterKey, h⟩, nonces := nonces } with
    | .ok () store => (.ok .opened, .opened store)
    | .error fault store => (.error fault, .closed store.db)
  else (.error (.err (.malformed "master_key must be 32 bytes")), .closed db)

def put (P : Primitives) (envelopeBytes : List UInt8) : Method FfiError EncryptedStore Unit := do
  let envelope ←
    Method.mapErr FfiError.ofMeshError (Method.ofExcept (Envelope.fromBytes P envelopeBytes))
  Method.mapErr .ofMeshError (EncryptedStore.put P envelope)

def parseId (idHex : List Char) : Method FfiError EncryptedStore EnvelopeId :=
  match hexToId idHex with
  | .ok id => pure id
  | .error (.err ()) => Method.fail (.malformed "invalid id hex")
  | .error .panic => Method.halt

def getHex (P : Primitives) (idHex : List Char) :
    Method FfiError EncryptedStore (Option (List UInt8)) := do
  let id ← parseId idHex
  let envelope ← Method.mapErr FfiError.ofMeshError (EncryptedStore.get P id)
  return envelope.map Envelope.toBytes

def removeHex (idHex : List Char) : Method FfiError EncryptedStore Unit := do
  let id ← parseId idHex
  Method.mapErr .ofMeshError (EncryptedStore.remove id)

def len : Method FfiError EncryptedStore UInt32 := do
  let n ← Method.mapErr FfiError.ofMeshError EncryptedStore.len
  return .ofNat n

def allIdsHex : Method FfiError EncryptedStore (List (List Char)) := do
  let ids ← Method.mapErr FfiError.ofMeshError EncryptedStore.allIds
  return ids.map EnvelopeId.toHex

def perform (P : Primitives) : StoreCall → Method FfiError EncryptedStore StoreAnswer
  | .put envelopeBytes => do
    put P envelopeBytes
    return .done
  | .getHex idHex => do
    let bytes ← getHex P idHex
    return .envelope bytes
  | .removeHex idHex => do
    removeHex idHex
    return .done
  | .len => do
    let n ← len
    return .count n
  | .allIdsHex => do
    let idsHex ← allIdsHex
    return .ids idsHex

end FfiEncryptedStore

/-- A restart drops the object, if there is one, and opens the file again. -/
inductive StoreEvent : Type
  | restart (nonces : List (Bytes 12)) (masterKey : List UInt8)
  | call (c : StoreCall)

/-- What happens at an event.  There is no answer where there is no object to call. -/
def StoreProcess.step (P : Primitives) :
    StoreProcess → StoreEvent → Option (Except (Fault FfiError) StoreAnswer) × StoreProcess
  | process, .restart nonces masterKey =>
    let (answer, process') := FfiEncryptedStore.openStore nonces masterKey process.file
    (some answer, process')
  | .opened store, .call c =>
    let result := (FfiEncryptedStore.perform P c).run store
    (some (Method.seen result), .opened (Method.after result))
  | .closed db, .call _ => (none, .closed db)

end ProjectMesh.Routing
