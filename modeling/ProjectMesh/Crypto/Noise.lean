import ProjectMesh.Crypto.Suite

namespace ProjectMesh.Crypto.Noise

inductive Payload (C : Suite) : Type
  | publicKey (p : C.Public)
  | bytes (bs : List UInt8)

def Payload.toBytes : Payload C → List UInt8
  | .publicKey p => C.publicBytes p
  | .bytes bs => bs

/-- What the `snow` crate computes under `Noise_XX_25519_ChaChaPoly_BLAKE2s`.  Hashes and
keys are 32 bytes, as those of the ratchet. -/
structure NoiseSuite extends Suite where
  /-- The hash of the protocol name. -/
  protocol : String → Key
  /-- BLAKE2s of a hash followed by data. -/
  hash : Key → List UInt8 → Key
  /-- HKDF of the chaining key and a shared secret. -/
  mixKey : Key → Shared → Key × Key
  split : Key → Key × Key
  /-- ChaCha20-Poly1305 under a counter: key, counter, associated hash, payload. -/
  noiseSeal : Key → Nat → Option Key → Payload toSuite → Sealed
  noiseOpen : Key → Nat → Option Key → Sealed → Option (Payload toSuite)
  sealedBytes : Sealed → List UInt8

variable {N : NoiseSuite}

inductive Token (N : NoiseSuite) : Type
  | clear (payload : Payload N.toSuite)
  | sealed (ciphertext : N.Sealed)

def Token.toBytes : Token N → List UInt8
  | .clear payload => payload.toBytes
  | .sealed ciphertext => N.sealedBytes ciphertext

abbrev WireMessage (N : NoiseSuite) := List (Token N)

inductive Pattern : Type
  | e
  | s
  | ee
  | es
  | se
  deriving DecidableEq

def xx : List (List Pattern) := [[.e], [.e, .ee, .s, .es], [.s, .se]]

structure HandshakeState (N : NoiseSuite) where
  initiator : Bool
  s : N.Secret
  e : Option N.Secret
  rs : Option N.Public
  re : Option N.Public
  ck : N.Key
  h : N.Key
  /-- The cipher key and its counter, once there is one. -/
  cipher : Option (N.Key × Nat)
  myTurn : Bool
  /-- The messages still to come. -/
  pending : List (List Pattern)

namespace HandshakeState

def mixHash (st : HandshakeState N) (data : List UInt8) : HandshakeState N :=
  { st with h := N.hash st.h data }

def mixKey (st : HandshakeState N) (shared : N.Shared) : HandshakeState N :=
  let (ck, k) := N.mixKey st.ck shared
  { st with ck := ck, cipher := some (k, 0) }

def encryptAndHash (st : HandshakeState N) (payload : Payload N.toSuite) :
    Token N × HandshakeState N :=
  match st.cipher with
  | some (k, n) =>
    let c := N.noiseSeal k n (some st.h) payload
    (.sealed c, { st with cipher := some (k, n + 1) }.mixHash (N.sealedBytes c))
  | none => (.clear payload, st.mixHash payload.toBytes)

def decryptAndHash (st : HandshakeState N) :
    Token N → Option (Payload N.toSuite × HandshakeState N)
  | .sealed c => do
    let (k, n) ← st.cipher
    let payload ← N.noiseOpen k n (some st.h) c
    return (payload, { st with cipher := some (k, n + 1) }.mixHash (N.sealedBytes c))
  | .clear payload =>
    match st.cipher with
    | some _ => none
    | none => some (payload, st.mixHash payload.toBytes)

/-- The Diffie-Hellman output a pattern names, as this side computes it. -/
def shared (st : HandshakeState N) : Pattern → Option N.Shared
  | .ee => do return N.diffieHellman (← st.e) (← st.re)
  | .es =>
    if st.initiator then do return N.diffieHellman (← st.e) (← st.rs)
    else do return N.diffieHellman st.s (← st.re)
  | .se =>
    if st.initiator then do return N.diffieHellman st.s (← st.re)
    else do return N.diffieHellman (← st.e) (← st.rs)
  | .e | .s => none

def writePattern (fresh : N.Secret) (st : HandshakeState N) :
    Pattern → Option (List (Token N) × HandshakeState N)
  | .e =>
    let p := Payload.publicKey (N.publicKey fresh)
    some ([.clear p], { st with e := some fresh }.mixHash p.toBytes)
  | .s =>
    let (token, st) := st.encryptAndHash (.publicKey (N.publicKey st.s))
    some ([token], st)
  | pattern => do return ([], st.mixKey (← st.shared pattern))

def writePatterns (fresh : N.Secret) (st : HandshakeState N) :
    List Pattern → Option (List (Token N) × HandshakeState N)
  | [] => some ([], st)
  | pattern :: rest => do
    let (tokens, st) ← st.writePattern fresh pattern
    let (more, st) ← writePatterns fresh st rest
    return (tokens ++ more, st)

def writeMessage (fresh : N.Secret) (payload : List UInt8) (st : HandshakeState N) :
    Option (WireMessage N × HandshakeState N) :=
  match st.myTurn, st.pending with
  | true, patterns :: pending => do
    let (tokens, st) ← st.writePatterns fresh patterns
    let (token, st) := st.encryptAndHash (.bytes payload)
    return (tokens ++ [token], { st with myTurn := false, pending := pending })
  | _, _ => none

def readPattern (st : HandshakeState N) (wire : WireMessage N) :
    Pattern → Option (WireMessage N × HandshakeState N)
  | .e =>
    match wire with
    | .clear (.publicKey p) :: wire =>
      some (wire, { st with re := some p }.mixHash (N.publicBytes p))
    | _ => none
  | .s =>
    match wire with
    | token :: wire => do
      let (payload, st) ← st.decryptAndHash token
      match payload with
      | .publicKey p => return (wire, { st with rs := some p })
      | .bytes _ => none
    | [] => none
  | pattern => do return (wire, st.mixKey (← st.shared pattern))

def readPatterns (st : HandshakeState N) (wire : WireMessage N) :
    List Pattern → Option (WireMessage N × HandshakeState N)
  | [] => some (wire, st)
  | pattern :: rest => do
    let (wire, st) ← st.readPattern wire pattern
    readPatterns st wire rest

/-- What is left on the wire after the patterns is the payload. -/
def readMessage (wire : WireMessage N) (st : HandshakeState N) :
    Option (Payload N.toSuite × HandshakeState N) :=
  match st.myTurn, st.pending with
  | false, patterns :: pending => do
    let (wire, st) ← st.readPatterns wire patterns
    match wire with
    | [token] =>
      let (payload, st) ← st.decryptAndHash token
      return (payload, { st with myTurn := true, pending := pending })
    | _ => none
  | _, _ => none

def isFinished (st : HandshakeState N) : Bool := st.pending.isEmpty

def handshakeHash (st : HandshakeState N) : N.Key := st.h

end HandshakeState

/-- The hash before the first message: the protocol name, then the empty prologue. -/
def initialHash (N : NoiseSuite) : N.Key :=
  N.hash (N.protocol "Noise_XX_25519_ChaChaPoly_BLAKE2s") []

def build (initiator : Bool) (localStatic : N.Secret) : HandshakeState N where
  initiator := initiator
  s := localStatic
  e := none
  rs := none
  re := none
  ck := N.protocol "Noise_XX_25519_ChaChaPoly_BLAKE2s"
  h := initialHash N
  cipher := none
  myTurn := initiator
  pending := xx

def buildInitiator (localStatic : N.Secret) : HandshakeState N := build true localStatic

def buildResponder (localStatic : N.Secret) : HandshakeState N := build false localStatic

structure TransportState (N : NoiseSuite) where
  sendKey : N.Key
  recvKey : N.Key
  sendN : Nat
  recvN : Nat

namespace TransportState

def writeMessage (payload : Payload N.toSuite) (t : TransportState N) :
    N.Sealed × TransportState N :=
  (N.noiseSeal t.sendKey t.sendN none payload, { t with sendN := t.sendN + 1 })

def readMessage (c : N.Sealed) (t : TransportState N) :
    Option (Payload N.toSuite × TransportState N) := do
  let payload ← N.noiseOpen t.recvKey t.recvN none c
  return (payload, { t with recvN := t.recvN + 1 })

end TransportState

def HandshakeState.intoTransportMode (st : HandshakeState N) : Option (TransportState N) :=
  if st.isFinished then
    let (k₁, k₂) := N.split st.ck
    if st.initiator then some { sendKey := k₁, recvKey := k₂, sendN := 0, recvN := 0 }
    else some { sendKey := k₂, recvKey := k₁, sendN := 0, recvN := 0 }
  else none

structure Exchange (N : NoiseSuite) where
  initiator : HandshakeState N
  responder : HandshakeState N
  m₁ : WireMessage N
  m₂ : WireMessage N
  m₃ : WireMessage N

def exchange (ei er : N.Secret) (initiator responder : HandshakeState N) :
    Option (Exchange N) := do
  let (m₁, initiator) ← initiator.writeMessage ei []
  let (_, responder) ← responder.readMessage m₁
  let (m₂, responder) ← responder.writeMessage er []
  let (_, initiator) ← initiator.readMessage m₂
  let (m₃, initiator) ← initiator.writeMessage ei []
  let (_, responder) ← responder.readMessage m₃
  return { initiator, responder, m₁, m₂, m₃ }

end ProjectMesh.Crypto.Noise
