import ProjectMesh.Crypto.Prekey

namespace ProjectMesh.Crypto.Pqxdh

open ProjectMesh.Lib
open ProjectMesh.Crypto.Prekey

variable {C : PrekeySuite}

structure PqPrekey (C : PrekeySuite) where
  decapsulationKey : C.DecapsulationKey
  encapsulationKey : C.EncapsulationKey
  signature : Bytes 64
  derived : encapsulationKey = C.encapsulationKey decapsulationKey

namespace PqPrekey

def generate (identity : Identity C) (seed : Bytes 64) : PqPrekey C where
  decapsulationKey := C.fromSeed seed
  encapsulationKey := C.encapsulationKey (C.fromSeed seed)
  signature := identity.sign (C.encapsulationBytes (C.encapsulationKey (C.fromSeed seed))).1
  derived := rfl

def toBytes (prekey : PqPrekey C) : Except MeshError (List UInt8) :=
  match C.toSeed prekey.decapsulationKey with
  | none => .error (.crypto "PQ prekey has no exportable seed (not created via generate)")
  | some seed => .ok (seed.1 ++ prekey.signature.1)

def fromBytes (bytes : List UInt8) : Parse MeshError (PqPrekey C) :=
  if bytes.length ≠ 128 then
    Parse.fail (.malformed "PQ prekey bytes must be exactly 128 bytes")
  else do
    let seedBytes ← Parse.range 0 64 bytes
    if hlen : seedBytes.length ≠ 64 then
      Parse.fail (.malformed "invalid PQ prekey seed length")
    else do
      let seed : Bytes 64 := ⟨seedBytes, not_not.mp hlen⟩
      let signature ← Parse.arrayAt 64 64 bytes
      return {
        decapsulationKey := C.fromSeed seed
        encapsulationKey := C.encapsulationKey (C.fromSeed seed)
        signature := signature
        derived := rfl }

end PqPrekey

structure HybridBundle (C : PrekeySuite) where
  classical : PrekeyBundle C
  pqEncapsulationKey : C.EncapsulationKey
  pqSignature : Bytes 64

namespace HybridBundle

def new (identity : PublicIdentity C) (signedPrekey : SignedPrekey C)
    (oneTimePrekey : Option (OneTimePrekey C)) (pqPrekey : PqPrekey C) : HybridBundle C where
  classical := .new identity signedPrekey oneTimePrekey
  pqEncapsulationKey := pqPrekey.encapsulationKey
  pqSignature := pqPrekey.signature

def verify (bundle : HybridBundle C) : Bool :=
  bundle.classical.verifySignedPrekey &&
    bundle.classical.identity.verify (C.encapsulationBytes bundle.pqEncapsulationKey).1
      bundle.pqSignature

def toBytes (bundle : HybridBundle C) : List UInt8 :=
  leBytes 4 bundle.classical.toBytes.length ++ (bundle.classical.toBytes ++
    ((C.encapsulationBytes bundle.pqEncapsulationKey).1 ++ bundle.pqSignature.1))

/-- `MlKemKey::try_from`, at the 1568 bytes of ML-KEM-1024, and `EncapsulationKey::new`. -/
def readEncapsulationKey (bytes : List UInt8) : Parse MeshError C.EncapsulationKey :=
  if hlen : bytes.length ≠ 1568 then
    Parse.fail (.malformed "wrong-length ML-KEM encapsulation key in hybrid bundle")
  else Parse.okOr (C.encapsulationFromBytes ⟨bytes, not_not.mp hlen⟩)
    (.malformed "invalid ML-KEM encapsulation key")

def fromBytes (w : Word) (bytes : List UInt8) : Parse MeshError (HybridBundle C) :=
  if bytes.length < 4 then Parse.fail (.malformed "truncated hybrid bundle")
  else do
    let classicalLen ← Parse.arrayAt 0 4 bytes
    let rest ← Parse.rangeFrom 4 bytes
    if rest.length < w.add (leNat classicalLen.1) 64 then
      Parse.fail (.malformed "truncated hybrid bundle")
    else do
      let (classicalBytes, rest) ← Parse.splitAt (leNat classicalLen.1) rest
      let (ekBytes, sigBytes) ← Parse.splitAt (w.sub rest.length 64) rest
      let classical ← PrekeyBundle.fromBytes classicalBytes
      let pqEncapsulationKey ← readEncapsulationKey ekBytes
      let pqSignature ← Parse.array 64 sigBytes
      return {
        classical := classical
        pqEncapsulationKey := pqEncapsulationKey
        pqSignature := pqSignature }

end HybridBundle

structure HybridPrekeyPool (C : PrekeySuite) where
  classical : PrekeyPool C
  pqPrekey : PqPrekey C

namespace HybridPrekeyPool

/-- The secrets are what the random generator returns, here and below. -/
def new (identity : Identity C) (signedSecret : C.Secret) (initialBatch : List C.Secret)
    (seed : Bytes 64) : HybridPrekeyPool C where
  classical := .new identity signedSecret initialBatch
  pqPrekey := .generate identity seed

def availableCount (pool : HybridPrekeyPool C) : Nat := pool.classical.availableCount

def needsTopUp (pool : HybridPrekeyPool C) (threshold : Nat) : Bool :=
  pool.classical.needsTopUp threshold

def topUp (pool : HybridPrekeyPool C) (secrets : List C.Secret) : HybridPrekeyPool C :=
  { pool with classical := pool.classical.topUp secrets }

def consume (pool : HybridPrekeyPool C) (pub : C.Public) :
    Option (OneTimePrekey C × HybridPrekeyPool C) :=
  (pool.classical.consume pub).map fun found =>
    (found.1, { pool with classical := found.2 })

def rotateSignedPrekey (pool : HybridPrekeyPool C) (identity : Identity C) (secret : C.Secret) :
    HybridPrekeyPool C :=
  { pool with classical := pool.classical.rotateSignedPrekey identity secret }

def rotatePqPrekey (pool : HybridPrekeyPool C) (identity : Identity C) (seed : Bytes 64) :
    HybridPrekeyPool C :=
  { pool with pqPrekey := .generate identity seed }

def currentBundle (pool : HybridPrekeyPool C) (identity : PublicIdentity C) : HybridBundle C :=
  .new identity pool.classical.signedPrekey pool.classical.currentOneTimePrekey pool.pqPrekey

def toBytes (pool : HybridPrekeyPool C) : Except MeshError (List UInt8) := do
  let pq ← pool.pqPrekey.toBytes
  return leBytes 4 pool.classical.toBytes.length ++ (pool.classical.toBytes ++ pq)

def fromBytes (w : Word) (bytes : List UInt8) : Parse MeshError (HybridPrekeyPool C) :=
  if bytes.length < 4 then Parse.fail (.malformed "truncated hybrid prekey pool")
  else do
    let classicalLen ← Parse.arrayAt 0 4 bytes
    let rest ← Parse.rangeFrom 4 bytes
    if rest.length < leNat classicalLen.1 then
      Parse.fail (.malformed "truncated hybrid prekey pool")
    else do
      let (classicalBytes, pqBytes) ← Parse.splitAt (leNat classicalLen.1) rest
      let classical ← PrekeyPool.fromBytes w classicalBytes
      let pqPrekey ← PqPrekey.fromBytes pqBytes
      return { classical := classical, pqPrekey := pqPrekey }

end HybridPrekeyPool

structure HybridInitiatorResult (C : PrekeySuite) where
  sharedSecret : C.Key
  ephemeralPublic : C.Public
  pqCiphertext : Bytes 1568
  usedOneTimePrekey : Option C.Public

def packInitiationMessage (senderIdentity : PublicIdentity C) (result : HybridInitiatorResult C) :
    List UInt8 :=
  senderIdentity.toBytes ++ ((C.pubBytes result.ephemeralPublic).1 ++
    (PrekeyBundle.oneTimePrekeyBytes result.usedOneTimePrekey ++ result.pqCiphertext.1))

structure ParsedInitiationMessage (C : PrekeySuite) where
  senderIdentityPublic : PublicIdentity C
  ephemeralPublic : C.Public
  usedOneTimePrekey : Option C.Public
  pqCiphertext : Bytes 1568

def readUsedOneTimePrekey (hasOtpk : UInt8) (cursor : List UInt8) :
    Parse MeshError (Option C.Public × List UInt8) :=
  if hasOtpk = 0 then return (none, cursor)
  else if hasOtpk = 1 then
    if cursor.length < 32 then
      Parse.fail (.malformed "truncated hybrid initiation message one-time prekey")
    else do
      let (otpkBytes, rest) ← Parse.splitAt 32 cursor
      let otpk ← Parse.array 32 otpkBytes
      return (some (C.pubBytes.symm otpk), rest)
  else Parse.fail (.malformed "invalid hybrid initiation message one-time-prekey flag")

def readCiphertext (cursor : List UInt8) : Parse MeshError (Bytes 1568) :=
  if hlen : cursor.length ≠ 1568 then
    Parse.fail (.malformed "wrong-length ML-KEM ciphertext in hybrid initiation message")
  else .ok ⟨cursor, not_not.mp hlen⟩

def unpackInitiationMessage (bytes : List UInt8) : Parse MeshError (ParsedInitiationMessage C) :=
  if bytes.length < 64 + 32 + 1 then
    Parse.fail (.malformed "truncated hybrid initiation message")
  else do
    let sender ← Parse.arrayAt 0 64 bytes
    let senderIdentityPublic ← PublicIdentity.fromBytes sender
    let ephemeralPublic ← Parse.arrayAt 64 32 bytes
    let hasOtpk ← Parse.index 96 bytes
    let cursor ← Parse.rangeFrom 97 bytes
    let (usedOneTimePrekey, cursor) ← readUsedOneTimePrekey hasOtpk cursor
    let pqCiphertext ← readCiphertext cursor
    return {
      senderIdentityPublic := senderIdentityPublic
      ephemeralPublic := C.pubBytes.symm ephemeralPublic
      usedOneTimePrekey := usedOneTimePrekey
      pqCiphertext := pqCiphertext }

def hybridKdf (classicalSecret : C.Key) (pqSharedSecret : C.PqShared) : C.Key :=
  C.hkdfSha256 [.derived classicalSecret, .encapsulated pqSharedSecret] "MESH_PQXDH"

/-- `ephemeralSecret` and `coins` are what the random generator returns. -/
def initiate (senderIdentity : Identity C) (bundle : HybridBundle C) (ephemeralSecret : C.Secret)
    (coins : Bytes 32) : Except MeshError (HybridInitiatorResult C) :=
  if !bundle.verify then
    .error (.crypto "hybrid bundle signature(s) do not verify against bundle's identity key")
  else do
    let classical ← Prekey.initiate senderIdentity bundle.classical ephemeralSecret
    let (pqCiphertext, pqSharedSecret) := C.encapsulate bundle.pqEncapsulationKey coins
    return {
      sharedSecret := hybridKdf classical.sharedSecret pqSharedSecret
      ephemeralPublic := classical.ephemeralPublic
      pqCiphertext := pqCiphertext
      usedOneTimePrekey := classical.usedOneTimePrekey }

def respond (recipientIdentity : Identity C) (signedPrekey : SignedPrekey C)
    (pqPrekey : PqPrekey C) (oneTimePrekeySecret : Option (OneTimePrekey C))
    (senderIdentityPublic : PublicIdentity C) (senderEphemeralPublic : C.Public)
    (pqCiphertext : Bytes 1568) : C.Key :=
  let classicalSecret := Prekey.respond recipientIdentity signedPrekey oneTimePrekeySecret
    senderIdentityPublic senderEphemeralPublic
  let pqSharedSecret := C.decapsulate pqPrekey.decapsulationKey pqCiphertext
  hybridKdf classicalSecret pqSharedSecret

end ProjectMesh.Crypto.Pqxdh
