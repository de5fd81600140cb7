import ProjectMesh.Crypto.Identity

namespace ProjectMesh.Crypto.Prekey

open ProjectMesh.Lib

variable {C : PrekeySuite}

structure SignedPrekey (C : PrekeySuite) where
  secret : C.Secret
  pub : C.Public
  signature : Bytes 64
  derived : pub = C.publicKey secret

namespace SignedPrekey

def generate (identity : Identity C) (secret : C.Secret) : SignedPrekey C where
  secret := secret
  pub := C.publicKey secret
  signature := identity.sign (C.pubBytes (C.publicKey secret)).1
  derived := rfl

def toBytes (prekey : SignedPrekey C) : List UInt8 :=
  (C.secretBytes prekey.secret).1 ++ prekey.signature.1

def fromBytes (bytes : Bytes 96) : Parse MeshError (SignedPrekey C) := do
  let secret ← Parse.arrayAt 0 32 bytes.1
  let signature ← Parse.arrayAt 32 64 bytes.1
  return {
    secret := C.secretBytes.symm secret
    pub := C.publicKey (C.secretBytes.symm secret)
    signature := signature
    derived := rfl }

end SignedPrekey

structure OneTimePrekey (C : PrekeySuite) where
  secret : C.Secret
  pub : C.Public
  derived : pub = C.publicKey secret

namespace OneTimePrekey

def generate (secret : C.Secret) : OneTimePrekey C := ⟨secret, C.publicKey secret, rfl⟩

def toBytes (prekey : OneTimePrekey C) : Bytes 32 := C.secretBytes prekey.secret

def fromBytes (bytes : Bytes 32) : OneTimePrekey C := generate (C.secretBytes.symm bytes)

end OneTimePrekey

def generateOneTimePrekeys (secrets : List C.Secret) : List (OneTimePrekey C) :=
  secrets.map OneTimePrekey.generate

structure PrekeyBundle (C : PrekeySuite) where
  identity : PublicIdentity C
  signedPrekeyPublic : C.Public
  signedPrekeySignature : Bytes 64
  oneTimePrekey : Option C.Public

namespace PrekeyBundle

def new (identity : PublicIdentity C) (signedPrekey : SignedPrekey C)
    (oneTimePrekey : Option (OneTimePrekey C)) : PrekeyBundle C where
  identity := identity
  signedPrekeyPublic := signedPrekey.pub
  signedPrekeySignature := signedPrekey.signature
  oneTimePrekey := oneTimePrekey.map OneTimePrekey.pub

def verifySignedPrekey (bundle : PrekeyBundle C) : Bool :=
  bundle.identity.verify (C.pubBytes bundle.signedPrekeyPublic).1 bundle.signedPrekeySignature

def oneTimePrekeyBytes (oneTimePrekey : Option C.Public) : List UInt8 :=
  match oneTimePrekey with
  | some otpk => 1 :: (C.pubBytes otpk).1
  | none => [0]

def toBytes (bundle : PrekeyBundle C) : List UInt8 :=
  (C.verifyingBytes bundle.identity.verifying).1 ++ ((C.pubBytes bundle.identity.agreement).1 ++
    ((C.pubBytes bundle.signedPrekeyPublic).1 ++ (bundle.signedPrekeySignature.1 ++
      oneTimePrekeyBytes bundle.oneTimePrekey)))

def fixedLen : Nat := 32 + 32 + 32 + 64 + 1

def readOneTimePrekey (hasOtpk : UInt8) (cursor : List UInt8) :
    Parse MeshError (Option C.Public) :=
  if hasOtpk = 0 then return none
  else if hasOtpk = 1 then
    if cursor.length < 32 then
      Parse.fail (.malformed "truncated prekey bundle one-time prekey")
    else do
      let otpk ← Parse.arrayAt 0 32 cursor
      return some (C.pubBytes.symm otpk)
  else Parse.fail (.malformed "invalid prekey bundle one-time-prekey flag")

def fromBytes (bytes : List UInt8) : Parse MeshError (PrekeyBundle C) :=
  if bytes.length < fixedLen then Parse.fail (.malformed "truncated prekey bundle")
  else do
    let (verifyingBytes, cursor) ← Parse.splitAt 32 bytes
    let (agreementBytes, cursor) ← Parse.splitAt 32 cursor
    let (spkPublicBytes, cursor) ← Parse.splitAt 32 cursor
    let (sigBytes, cursor) ← Parse.splitAt 64 cursor
    let hasOtpk ← Parse.index 0 cursor
    let cursor ← Parse.rangeFrom 1 cursor
    let verifying ← Parse.array 32 verifyingBytes
    let verifying ← Parse.okOr (C.verifyingFromBytes verifying)
      (MeshError.malformed "invalid identity verifying key")
    let agreement ← Parse.array 32 agreementBytes
    let signedPrekeyPublic ← Parse.array 32 spkPublicBytes
    let signedPrekeySignature ← Parse.array 64 sigBytes
    let oneTimePrekey ← readOneTimePrekey hasOtpk cursor
    return {
      identity := { verifying := verifying, agreement := C.pubBytes.symm agreement }
      signedPrekeyPublic := C.pubBytes.symm signedPrekeyPublic
      signedPrekeySignature := signedPrekeySignature
      oneTimePrekey := oneTimePrekey }

end PrekeyBundle

/-- The output of HKDF, of which the leading ones and the outputs of three or four
agreements are the input key. -/
def x3dhKdf (dh1 dh2 dh3 : C.Shared) (dh4 : Option C.Shared) : C.Key :=
  C.hkdfSha256 ([.ones, .agreed dh1, .agreed dh2, .agreed dh3] ++ dh4.toList.map .agreed)
    "MESH_X3DH"

structure InitiatorResult (C : PrekeySuite) where
  sharedSecret : C.Key
  ephemeralPublic : C.Public
  usedOneTimePrekey : Option C.Public

/-- `ephemeralSecret` is what the random generator returns. -/
def initiate (senderIdentity : Identity C) (bundle : PrekeyBundle C) (ephemeralSecret : C.Secret) :
    Except MeshError (InitiatorResult C) :=
  if !bundle.verifySignedPrekey then
    .error (.crypto "signed prekey signature does not verify against bundle's identity key")
  else
    let dh1 := C.diffieHellman senderIdentity.agreement bundle.signedPrekeyPublic
    let dh2 := C.diffieHellman ephemeralSecret bundle.identity.agreement
    let dh3 := C.diffieHellman ephemeralSecret bundle.signedPrekeyPublic
    let dh4 := bundle.oneTimePrekey.map (C.diffieHellman ephemeralSecret)
    .ok {
      sharedSecret := x3dhKdf dh1 dh2 dh3 dh4
      ephemeralPublic := C.publicKey ephemeralSecret
      usedOneTimePrekey := bundle.oneTimePrekey }

def respond (recipientIdentity : Identity C) (signedPrekey : SignedPrekey C)
    (oneTimePrekeySecret : Option (OneTimePrekey C)) (senderIdentityPublic : PublicIdentity C)
    (senderEphemeralPublic : C.Public) : C.Key :=
  let dh1 := C.diffieHellman signedPrekey.secret senderIdentityPublic.agreement
  let dh2 := C.diffieHellman recipientIdentity.agreement senderEphemeralPublic
  let dh3 := C.diffieHellman signedPrekey.secret senderEphemeralPublic
  let dh4 := oneTimePrekeySecret.map fun opk => C.diffieHellman opk.secret senderEphemeralPublic
  x3dhKdf dh1 dh2 dh3 dh4

structure PrekeyPool (C : PrekeySuite) where
  signedPrekey : SignedPrekey C
  available : List (OneTimePrekey C)

namespace PrekeyPool

/-- The secrets are what the random generator returns, here and below. -/
def new (identity : Identity C) (signedSecret : C.Secret) (initialBatch : List C.Secret) :
    PrekeyPool C where
  signedPrekey := .generate identity signedSecret
  available := generateOneTimePrekeys initialBatch

def availableCount (pool : PrekeyPool C) : Nat := pool.available.length

def currentOneTimePrekey (pool : PrekeyPool C) : Option (OneTimePrekey C) := pool.available.head?

def needsTopUp (pool : PrekeyPool C) (threshold : Nat) : Bool := pool.available.length ≤ threshold

def topUp (pool : PrekeyPool C) (secrets : List C.Secret) : PrekeyPool C :=
  { pool with available := pool.available ++ generateOneTimePrekeys secrets }

def consume (pool : PrekeyPool C) (pub : C.Public) : Option (OneTimePrekey C × PrekeyPool C) :=
  match pool.available.find? (C.samePoint ·.pub pub) with
  | none => none
  | some otpk =>
    some (otpk, { pool with available := pool.available.eraseP (C.samePoint ·.pub pub) })

def rotateSignedPrekey (pool : PrekeyPool C) (identity : Identity C) (secret : C.Secret) :
    PrekeyPool C :=
  { pool with signedPrekey := .generate identity secret }

def toBytes (pool : PrekeyPool C) : List UInt8 :=
  pool.signedPrekey.toBytes ++ (leBytes 4 pool.available.length ++
    pool.available.flatMap fun otpk => otpk.toBytes.1)

def readOneTimePrekey (chunk : List UInt8) : Parse MeshError (OneTimePrekey C) := do
  let bytes ← Parse.array 32 chunk
  return .fromBytes bytes

def fromBytes (w : Word) (bytes : List UInt8) : Parse MeshError (PrekeyPool C) :=
  if bytes.length < 96 + 4 then Parse.fail (.malformed "truncated prekey pool")
  else do
    let signed ← Parse.arrayAt 0 96 bytes
    let signedPrekey ← SignedPrekey.fromBytes signed
    let count ← Parse.arrayAt 96 4 bytes
    let rest ← Parse.rangeFrom 100 bytes
    if rest.length ≠ w.mul (leNat count.1) 32 then
      Parse.fail (.malformed "prekey pool one-time-prekey count doesn't match remaining bytes")
    else do
      let available ← (Parse.chunksExact 32 rest).mapM readOneTimePrekey
      return { signedPrekey := signedPrekey, available := available }

end PrekeyPool

def responderRatchetSeed (signedPrekey : SignedPrekey C) : C.Secret := signedPrekey.secret

end ProjectMesh.Crypto.Prekey
