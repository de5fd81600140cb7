import ProjectMesh.Crypto.Groups
import ProjectMesh.Routing.AtRest

namespace ProjectMesh.Crypto.Mls

open ProjectMesh.Lib
open ProjectMesh.Routing (Primitives aeadOpen)
open ProjectMesh.Crypto.Groups

abbrev Storage := Assoc (List UInt8) (List UInt8)

/-- What the `openmls` crate computes, under the configuration of `group_create_config`.  A call
that is given the storage gives back what it leaves of it, also when it fails. -/
structure OpenMls where
  Signer : Type
  Credential : Type
  /-- What the random generator of the crate returns. -/
  Coins : Type
  KeyPackage : Type
  Message : Type
  Welcome : Type
  StagedWelcome : Type
  Group : Type
  serializeSigner : Signer → Except String (List UInt8)
  buildKeyPackage : Coins → Signer → Credential → Storage → Except String KeyPackage × Storage
  serializeKeyPackage : KeyPackage → Except String (List UInt8)
  newGroup : Coins → Signer → Credential → Storage → Except String Group × Storage
  deserializeMessage : List UInt8 → Except String Message
  /-- The message, if it is a Welcome. -/
  extractWelcome : Message → Option Welcome
  newFromWelcome : Welcome → Storage → Except String StagedWelcome × Storage
  intoGroup : StagedWelcome → Storage → Except String Group × Storage
  loadGroup : Storage → List UInt8 → Except String (Option Group)

variable {L : OpenMls}

/-- Nobody else has the storage, so its lock is never poisoned. -/
structure MlsMember (L : OpenMls) where
  storage : Storage
  signer : L.Signer
  credentialWithKey : L.Credential

structure MlsGroupHandle (L : OpenMls) where
  member : MlsMember L
  group : L.Group

def groupErr (context e : String) : MeshError := .group (context ++ ": " ++ e)

def groupOk {α : Type} (context : String) (r : Except String α) : Except MeshError α :=
  match r with
  | .ok a => .ok a
  | .error e => .error (groupErr context e)

namespace MlsMember

def signerToBytes (m : MlsMember L) : Except MeshError (List UInt8) :=
  groupOk "serializing MLS signer" (L.serializeSigner m.signer)

def keyPackage (coins : L.Coins) : Method MeshError (MlsMember L) L.KeyPackage := do
  let m ← get
  let (bundle, storage) := L.buildKeyPackage coins m.signer m.credentialWithKey m.storage
  set { m with storage }
  Method.ofExcept (groupOk "building key package" bundle)

def createGroup (coins : L.Coins) (m : MlsMember L) : Except MeshError (MlsGroupHandle L) := do
  let (group, storage) := L.newGroup coins m.signer m.credentialWithKey m.storage
  let group ← groupOk "creating group" group
  return { member := { m with storage }, group }

def joinFromWelcome (welcomeBytes : List UInt8) (m : MlsMember L) :
    Except MeshError (MlsGroupHandle L) := do
  let message ← groupOk "parsing welcome bytes" (L.deserializeMessage welcomeBytes)
  match L.extractWelcome message with
  | none => .error (.group "expected a Welcome message")
  | some welcome =>
    let (staged, storage) := L.newFromWelcome welcome m.storage
    let staged ← groupOk "staging welcome" staged
    let (group, storage) := L.intoGroup staged storage
    let group ← groupOk "joining group from welcome" group
    return { member := { m with storage }, group }

def loadGroupFromDisk (P : Primitives) (disk : String → Option (List UInt8)) (path : String)
    (masterKey : Bytes 32) (groupId : List UInt8) (m : MlsMember L) :
    Parse MeshError (MlsGroupHandle L) := do
  let sealed ← Parse.okOr (disk path) (.group "failed to read group snapshot file")
  let plaintext ← Parse.ofExcept (aeadOpen P masterKey [] sealed)
  let entries ← decodeKvPairs plaintext
  let storage := entries.foldl (fun storage kv => storage.insert kv.1 kv.2) m.storage
  let found ← Parse.ofExcept
    (groupOk "loading group from restored storage" (L.loadGroup storage groupId))
  let group ← Parse.okOr found (.group "group not found in restored snapshot")
  return { member := { m with storage }, group }

end MlsMember

end ProjectMesh.Crypto.Mls
