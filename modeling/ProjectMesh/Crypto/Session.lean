import ProjectMesh.Crypto.Noise
import ProjectMesh.Crypto.Ratchet

namespace ProjectMesh.Crypto.Session

open ProjectMesh.Crypto.Noise
open ProjectMesh.Crypto.Ratchet

variable {N : NoiseSuite}

def snowError : MeshError := .handshake "snow"

/-- The first 32 bytes of the handshake hash, which has no more. -/
def handshakeSharedSecret (handshake : HandshakeState N) : N.Key := handshake.handshakeHash

def establishAsInitiator (dhSelf : N.Secret) (handshake : HandshakeState N)
    (bobMessage : N.Sealed) : Except MeshError (DoubleRatchet N.toSuite) :=
  let sharedSecret := handshakeSharedSecret handshake
  match handshake.intoTransportMode with
  | none => .error snowError
  | some transport =>
    match transport.readMessage bobMessage with
    | none => .error snowError
    | some (.bytes _, _) => .error (.malformed "expected a 32-byte ratchet public key")
    | some (.publicKey bobRatchetPub, _) =>
      .ok (.initInitiator dhSelf sharedSecret bobRatchetPub)

def establishAsResponder (ratchetKey : N.Secret) (handshake : HandshakeState N) :
    Except MeshError (DoubleRatchet N.toSuite × N.Sealed) :=
  let sharedSecret := handshakeSharedSecret handshake
  match handshake.intoTransportMode with
  | none => .error snowError
  | some transport =>
    let ratchet : DoubleRatchet N.toSuite := .initResponder sharedSecret ratchetKey
    let (message, _) := transport.writeMessage (.publicKey (N.publicKey ratchetKey))
    .ok (ratchet, message)

end ProjectMesh.Crypto.Session
