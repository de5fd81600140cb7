import Mathlib.Logic.Function.Basic
import ProjectMesh.Crypto.FfiHandles
import ProjectMesh.Crypto.Padding
import ProjectMesh.Routing.FfiEnvelope

namespace ProjectMesh.Crypto

open ProjectMesh.Lib
open ProjectMesh.Routing

def PublicIdentity.fingerprint {C : PrekeySuite} (P : Primitives) (identity : PublicIdentity C) :
    Bytes 32 := P.blake3 identity.toBytes

namespace Mls

inductive ProcessedContent (StagedCommit : Type) : Type
  | applicationMessage (bytes : List UInt8)
  | stagedCommitMessage (staged : StagedCommit)
  | other

/-- What a group handle takes from the `openmls` crate.  A call on a group changes the group and
the storage, also when it fails. -/
structure OpenMlsGroups extends OpenMls where
  KeyPackageIn : Type
  MessageOut : Type
  ProtocolMessage : Type
  StagedCommit : Type
  newSigner : Coins → Except String Signer
  deserializeSigner : List UInt8 → Except String Signer
  publicVec : Signer → List UInt8
  /-- The identity of a `BasicCredential`, and the signature key. -/
  credentialWithKey : List UInt8 → List UInt8 → Credential
  deserializeKeyPackage : List UInt8 → Except String KeyPackageIn
  validate : KeyPackageIn → Except String KeyPackage
  /-- The commit and the welcome. -/
  addMembers : Coins → Signer → KeyPackage →
    Method String (Group × Storage) (MessageOut × MessageOut)
  mergePendingCommit : Method String (Group × Storage) Unit
  intoProtocolMessage : Message → Except String ProtocolMessage
  processMessage : ProtocolMessage →
    Method String (Group × Storage) (ProcessedContent StagedCommit)
  mergeStagedCommit : StagedCommit → Method String (Group × Storage) Unit
  createMessage : Coins → Signer → List UInt8 → Method String (Group × Storage) MessageOut
  serializeMessage : MessageOut → Except String (List UInt8)
  groupId : Group → List UInt8

variable {L : OpenMlsGroups} {C : PrekeySuite}

abbrev Disk := String → Option (List UInt8)

inductive WriteEnd : Type
  | done
  | failed (left : Option (List UInt8))

structure Visits where
  apply : List (List UInt8 × List UInt8) → List (List UInt8 × List UInt8)
  perm : ∀ pairs, (apply pairs).Perm pairs

def Storage.pairs (storage : Storage) : List (List UInt8 × List UInt8) :=
  storage.entries.map fun kv => (kv.1, kv.2)

def writeFile (finish : WriteEnd) (path : String) (bytes : List UInt8) :
    Method MeshError Disk Unit := fun disk =>
  match finish with
  | .done => .ok () (Function.update disk path (some bytes))
  | .failed left =>
    .error (.err (.group "failed to write group snapshot file")) (Function.update disk path left)

namespace MlsMember

def deriveCredentialWithKey (P : Primitives) (identity : PublicIdentity C) (signer : L.Signer) :
    L.Credential :=
  L.credentialWithKey (identity.fingerprint P).1 (L.publicVec signer)

def new (P : Primitives) (identity : PublicIdentity C) (coins : L.Coins) :
    Except MeshError (MlsMember L.toOpenMls) := do
  let signer ← groupOk "generating MLS signature keypair" (L.newSigner coins)
  return {
    storage := ∅
    signer
    credentialWithKey := deriveCredentialWithKey P identity signer }

def signerFromBytes (bytes : List UInt8) : Except MeshError L.Signer :=
  groupOk "parsing MLS signer bytes" (L.deserializeSigner bytes)

def fromSignerAndCredential (signer : L.Signer) (credentialWithKey : L.Credential) :
    MlsMember L.toOpenMls where
  storage := ∅
  signer
  credentialWithKey

def fromIdentityAndSigner (P : Primitives) (identity : PublicIdentity C) (signer : L.Signer) :
    MlsMember L.toOpenMls :=
  fromSignerAndCredential signer (deriveCredentialWithKey P identity signer)

end MlsMember

structure AddMemberOutput where
  commitBytes : List UInt8
  welcomeBytes : List UInt8

namespace MlsGroupHandle

abbrev HandleM (L : OpenMlsGroups) := Method MeshError (MlsGroupHandle L.toOpenMls)

def onGroup {α : Type} (context : String) (x : Method String (L.Group × Storage) α) :
    HandleM L α :=
  Method.zoom (fun self => (self.group, self.member.storage))
    (fun self g => { member := { self.member with storage := g.2 }, group := g.1 })
    (Method.mapErr (groupErr context) x)

def addMember (coins : L.Coins) (keyPackage : L.KeyPackage) : HandleM L AddMemberOutput := do
  let self ← get
  let (commit, welcome) ←
    onGroup "adding member" (L.addMembers coins self.member.signer keyPackage)
  onGroup "merging add-member commit" L.mergePendingCommit
  let commitBytes ← Method.ofExcept (groupOk "serializing commit" (L.serializeMessage commit))
  let welcomeBytes ← Method.ofExcept (groupOk "serializing welcome" (L.serializeMessage welcome))
  return ⟨commitBytes, welcomeBytes⟩

def addMemberFromBytes (coins : L.Coins) (keyPackageBytes : List UInt8) :
    HandleM L AddMemberOutput := do
  let keyPackageIn ← Method.ofExcept
    (groupOk "parsing key package" (L.deserializeKeyPackage keyPackageBytes))
  let keyPackage ← Method.ofExcept
    (groupOk "validating key package" (L.validate keyPackageIn))
  addMember coins keyPackage

def processCommit (commitBytes : List UInt8) : HandleM L Unit := do
  let message ← Method.ofExcept
    (groupOk "parsing commit bytes" (L.deserializeMessage commitBytes))
  let protocolMessage ← Method.ofExcept
    (groupOk "commit is not a protocol message" (L.intoProtocolMessage message))
  match ← onGroup "processing commit" (L.processMessage protocolMessage) with
  | .stagedCommitMessage staged => onGroup "merging staged commit" (L.mergeStagedCommit staged)
  | _ => Method.fail (.group "expected a staged commit message")

end MlsGroupHandle

open MlsGroupHandle

def MlsGroupHandle.seal (coins : L.Coins) (plaintext : List UInt8) : HandleM L (List UInt8) := do
  let padded ← Method.ofExcept (Padding.padToBucket plaintext)
  let self ← get
  let message ←
    onGroup "creating application message" (L.createMessage coins self.member.signer padded)
  Method.ofExcept (groupOk "serializing application message" (L.serializeMessage message))

def MlsGroupHandle.open (sealed : List UInt8) : HandleM L (List UInt8) := do
  let message ← Method.ofExcept
    (groupOk "parsing application message" (L.deserializeMessage sealed))
  let protocolMessage ← Method.ofExcept
    (groupOk "application message is not a protocol message" (L.intoProtocolMessage message))
  match ← onGroup "processing application message" (L.processMessage protocolMessage) with
  | .applicationMessage bytes => Method.ofExcept (Padding.unpad bytes)
  | _ => Method.fail (.group "expected an application message")

namespace MlsGroupHandle

def groupSelector (P : Primitives) (self : MlsGroupHandle L.toOpenMls) : Bytes 32 :=
  P.blake3 (L.groupId self.group)

def sealAsEnvelope (P : Primitives) (coins : L.Coins) (plaintext : List UInt8)
    (priority : Priority) (ttlHops : UInt8) (expiresAt : UInt64) : HandleM L (Envelope P) := do
  let self ← get
  let selector := self.groupSelector P
  let sealed ← MlsGroupHandle.seal coins plaintext
  return .new P (.group selector) priority ttlHops expiresAt sealed

def openFromEnvelope {P : Primitives} (envelope : Envelope P) : HandleM L (List UInt8) := do
  let self ← get
  match envelope.addressing with
  | .group selector =>
    if selector = self.groupSelector P then MlsGroupHandle.open envelope.sealed
    else Method.fail (.group "envelope addressed to a different group")
  | _ => Method.fail (.group "envelope is not Group-addressed")

def snapshotToDisk (P : Primitives) (nonce : Bytes 12) (visits : Visits) (finish : WriteEnd)
    (path : String) (masterKey : Bytes 32) (self : MlsGroupHandle L.toOpenMls) :
    Method MeshError Disk Unit := do
  let entries := visits.apply self.member.storage.pairs
  let sealed ← Method.ofExcept (Routing.snapshotToDisk P masterKey nonce entries)
  writeFile finish path sealed

end MlsGroupHandle

end Mls

open ProjectMesh.Crypto.FfiPrekey
open ProjectMesh.Crypto.Mls

variable {L : OpenMlsGroups} {C : PrekeySuite}

namespace FfiMlsMember

def new (P : Primitives) (identity : PublicIdentity C) (coins : L.Coins) :
    Except FfiError (MlsMember L.toOpenMls) :=
  ffi (MlsMember.new P identity coins)

def fromIdentityAndSigner (P : Primitives) (identity : PublicIdentity C)
    (signerBytes : List UInt8) : Except FfiError (MlsMember L.toOpenMls) := do
  let signer ← ffi (MlsMember.signerFromBytes signerBytes)
  return .fromIdentityAndSigner P identity signer

end FfiMlsMember

namespace FfiMlsGroupHandle

abbrev FfiHandleM (L : OpenMlsGroups) := Method FfiError (MlsGroupHandle L.toOpenMls)

def addMember (coins : L.Coins) (keyPackageBytes : List UInt8) : FfiHandleM L AddMemberOutput :=
  Method.mapErr .ofMeshError (MlsGroupHandle.addMemberFromBytes coins keyPackageBytes)

def processCommit (commitBytes : List UInt8) : FfiHandleM L Unit :=
  Method.mapErr .ofMeshError (MlsGroupHandle.processCommit commitBytes)

end FfiMlsGroupHandle

open FfiMlsGroupHandle

def FfiMlsGroupHandle.seal (coins : L.Coins) (plaintext : List UInt8) :
    FfiHandleM L (List UInt8) :=
  Method.mapErr .ofMeshError (MlsGroupHandle.seal coins plaintext)

def FfiMlsGroupHandle.open (sealed : List UInt8) : FfiHandleM L (List UInt8) :=
  Method.mapErr .ofMeshError (MlsGroupHandle.open sealed)

namespace FfiMlsGroupHandle

def groupIdHex : FfiHandleM L (List Char) := do
  let self ← get
  return bytesToHex (L.groupId self.group)

def groupSelectorHex (P : Primitives) : FfiHandleM L (List Char) := do
  let self ← get
  return bytesToHex (self.groupSelector P).1

def sealAsEnvelope (P : Primitives) (coins : L.Coins) (plaintext : List UInt8)
    (priorityTag ttlHops : UInt8) (expiresAt : UInt64) : FfiHandleM L (List UInt8) := do
  let priority ← Method.ofExcept (decodePriority priorityTag)
  let envelope ← Method.mapErr .ofMeshError
    (MlsGroupHandle.sealAsEnvelope P coins plaintext priority ttlHops expiresAt)
  return envelope.toBytes

def openFromEnvelope (P : Primitives) (envelopeBytes : List UInt8) :
    FfiHandleM L (List UInt8) := do
  let envelope ← Method.ofExcept (ffi (Envelope.fromBytes P envelopeBytes))
  Method.mapErr .ofMeshError (MlsGroupHandle.openFromEnvelope envelope)

def snapshotToDisk (P : Primitives) (nonce : Bytes 12) (visits : Visits) (finish : WriteEnd)
    (path : String) (masterKey : List UInt8) (self : MlsGroupHandle L.toOpenMls) :
    Method FfiError Disk Unit :=
  if h : masterKey.length = 32 then
    Method.mapErr .ofMeshError
      (MlsGroupHandle.snapshotToDisk P nonce visits finish path ⟨masterKey, h⟩ self)
  else Method.fail (.malformed "master_key must be 32 bytes")

/-- The calls that do not touch the disk, with what the random generator returns them. -/
inductive Call (L : OpenMlsGroups) : Type
  | addMember (coins : L.Coins) (keyPackageBytes : List UInt8)
  | processCommit (commitBytes : List UInt8)
  | sealPlaintext (coins : L.Coins) (plaintext : List UInt8)
  | openSealed (sealed : List UInt8)
  | groupIdHex
  | groupSelectorHex
  | sealAsEnvelope (coins : L.Coins) (plaintext : List UInt8) (priorityTag ttlHops : UInt8)
    (expiresAt : UInt64)
  | openFromEnvelope (envelopeBytes : List UInt8)

inductive Answer : Type
  | added (output : AddMemberOutput)
  | done
  | bytes (bs : List UInt8)
  | hex (digits : List Char)

def call (P : Primitives) : Call L → FfiHandleM L Answer
  | .addMember coins keyPackageBytes => .added <$> addMember coins keyPackageBytes
  | .processCommit commitBytes => (fun _ => .done) <$> processCommit commitBytes
  | .sealPlaintext coins plaintext => .bytes <$> FfiMlsGroupHandle.seal coins plaintext
  | .openSealed sealed => .bytes <$> FfiMlsGroupHandle.open sealed
  | .groupIdHex => .hex <$> groupIdHex
  | .groupSelectorHex => .hex <$> groupSelectorHex P
  | .sealAsEnvelope coins plaintext priorityTag ttlHops expiresAt =>
    .bytes <$> sealAsEnvelope P coins plaintext priorityTag ttlHops expiresAt
  | .openFromEnvelope envelopeBytes => .bytes <$> openFromEnvelope P envelopeBytes

end FfiMlsGroupHandle

end ProjectMesh.Crypto
