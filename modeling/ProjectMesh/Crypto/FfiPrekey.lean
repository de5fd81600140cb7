import ProjectMesh.Crypto.Pqxdh
import ProjectMesh.Crypto.Ratchet

namespace ProjectMesh.Crypto.FfiPrekey

open ProjectMesh.Lib
open ProjectMesh.Crypto.Prekey
open ProjectMesh.Crypto.Pqxdh
open ProjectMesh.Crypto.Ratchet

variable {C : PrekeySuite}

inductive FfiError : Type
  | handshake (why : String)
  | ratchet (why : String)
  | crypto (why : String)
  | malformed (why : String)
  | envelopeRejected (why : String)
  | invalidState (why : String)
  | group (why : String)
  deriving DecidableEq

def FfiError.ofMeshError : MeshError → FfiError
  | .envelopeRejected why => .envelopeRejected why
  | .malformed why => .malformed why
  | .handshake why => .handshake why
  | .ratchet why => .ratchet why
  | .crypto why => .crypto why
  | .group why => .group why

def ofParse {σ α : Type} (x : Parse MeshError α) : Method FfiError σ α :=
  match x with
  | .ok a => pure a
  | .error (.err e) => Method.fail (.ofMeshError e)
  | .error .panic => Method.halt

/-- `session` is an `FfiSession`, and no more than its ratchet. -/
structure HybridInitiateResult (C : PrekeySuite) where
  session : DoubleRatchet C.toSuite
  messageToSend : List UInt8

/-- `FfiHybridBundle::initiate`.  The secrets and the coins are what the random generator
returns. -/
def initiate (bundle : HybridBundle C) (senderIdentity : Identity C)
    (ephemeralSecret : C.Secret) (coins : Bytes 32) (dhSelf : C.Secret) :
    Except FfiError (HybridInitiateResult C) :=
  match Pqxdh.initiate senderIdentity bundle ephemeralSecret coins with
  | .error e => .error (.ofMeshError e)
  | .ok result => .ok {
      session := .initInitiator dhSelf result.sharedSecret bundle.classical.signedPrekeyPublic
      messageToSend := packInitiationMessage senderIdentity.pub result }

/-- A method of `FfiHybridPrekeyPool`, whose lock is held for the whole call. -/
abbrev PoolM (C : PrekeySuite) := Method FfiError (HybridPrekeyPool C)

def currentBundleBytes (pool : HybridPrekeyPool C) (identity : Identity C) : List UInt8 :=
  (pool.currentBundle identity.pub).toBytes

def consumeUsed (used : Option C.Public) : PoolM C (Option (OneTimePrekey C)) :=
  match used with
  | none => pure none
  | some pub => do
    let pool ← get
    match pool.consume pub with
    | none =>
      Method.fail (.invalidState "referenced one-time prekey already consumed or unknown")
    | some (otpk, pool) => do
      set pool
      return some otpk

def respond (identity : Identity C) (initiationMessage : List UInt8) :
    PoolM C (DoubleRatchet C.toSuite) := do
  let parsed ← ofParse (unpackInitiationMessage initiationMessage)
  let usedOtpk ← consumeUsed parsed.usedOneTimePrekey
  let pool ← get
  let sharedSecret := Pqxdh.respond identity pool.classical.signedPrekey pool.pqPrekey usedOtpk
    parsed.senderIdentityPublic parsed.ephemeralPublic parsed.pqCiphertext
  let ratchetSeed := responderRatchetSeed pool.classical.signedPrekey
  return .initResponder sharedSecret ratchetSeed

/-- A device's pool, and what `to_bytes` has given so far, the latest first. -/
structure Device (C : PrekeySuite) where
  pool : HybridPrekeyPool C
  saved : List (List UInt8)

inductive PoolOp (C : PrekeySuite) : Type
  | topUp (secrets : List C.Secret)
  | rotateSignedPrekey (identity : Identity C) (secret : C.Secret)
  | rotatePqPrekey (identity : Identity C) (seed : Bytes 64)
  | respond (identity : Identity C) (initiationMessage : List UInt8)
  | persist
  | restore (snapshot : Nat)

namespace Device

/-- A pool that cannot be restored leaves the device with the one it has. -/
def step (w : Word) (d : Device C) : PoolOp C → Device C
  | .topUp secrets => { d with pool := d.pool.topUp secrets }
  | .rotateSignedPrekey identity secret =>
    { d with pool := d.pool.rotateSignedPrekey identity secret }
  | .rotatePqPrekey identity seed => { d with pool := d.pool.rotatePqPrekey identity seed }
  | .respond identity initiationMessage =>
    { d with pool := Method.after ((FfiPrekey.respond identity initiationMessage).run d.pool) }
  | .persist =>
    match d.pool.toBytes with
    | .ok bytes => { d with saved := bytes :: d.saved }
    | .error _ => d
  | .restore snapshot =>
    match d.saved[snapshot]? with
    | none => d
    | some bytes =>
      match HybridPrekeyPool.fromBytes w bytes with
      | .ok pool => { d with pool := pool }
      | .error _ => d

def run (w : Word) (d : Device C) (ops : List (PoolOp C)) : Device C := ops.foldl (step w) d

end Device

end ProjectMesh.Crypto.FfiPrekey
