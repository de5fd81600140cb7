import ProjectMesh.Crypto.Conversations
import ProjectMesh.Crypto.FfiHandles

namespace ProjectMesh.Crypto.Noise

variable {N : NoiseSuite}

/-- What an honest exchange relies on. -/
structure NoiseSuite.Lawful (N : NoiseSuite) : Prop extends N.toSuite.Lawful where
  noiseOpen_noiseSeal : ∀ k n h payload,
    N.noiseOpen k n h (N.noiseSeal k n h payload) = some payload

namespace HandshakeState

variable {st : HandshakeState N} {fresh : N.Secret} {bs : List UInt8} {wire : WireMessage N}

def heard (st : HandshakeState N) (s : N.Secret) (e : Option N.Secret) (rs re : Option N.Public) :
    HandshakeState N :=
  { st with initiator := !st.initiator, s := s, e := e, rs := rs, re := re, myTurn := true }

end HandshakeState

structure Secrets (N : NoiseSuite) where
  si : N.Secret
  sr : N.Secret
  ei : N.Secret
  er : N.Secret
  dhSelf : N.Secret
  ratchetKey : N.Secret

namespace Secrets

variable (k : Secrets N)

def wrote (fresh : N.Secret) (st : HandshakeState N) : WireMessage N × HandshakeState N :=
  (st.writeMessage fresh []).getD ([], st)

def m₁ : WireMessage N := (wrote k.ei (buildInitiator k.si)).1

def initiator₁ : HandshakeState N := (wrote k.ei (buildInitiator k.si)).2

def responder₁ : HandshakeState N :=
  k.initiator₁.heard k.sr none none (some (N.publicKey k.ei))

def m₂ : WireMessage N := (wrote k.er k.responder₁).1

def responder₂ : HandshakeState N := (wrote k.er k.responder₁).2

def initiator₂ : HandshakeState N :=
  k.responder₂.heard k.si (some k.ei) (some (N.publicKey k.sr)) (some (N.publicKey k.er))

def m₃ : WireMessage N := (wrote k.ei k.initiator₂).1

def initiator₃ : HandshakeState N := (wrote k.ei k.initiator₂).2

def responder₃ : HandshakeState N :=
  k.initiator₃.heard k.sr (some k.er) (some (N.publicKey k.si)) (some (N.publicKey k.ei))

def ratchetKeyMessage : N.Sealed :=
  N.noiseSeal (N.split k.initiator₃.ck).2 0 none (.publicKey (N.publicKey k.ratchetKey))

end Secrets

end ProjectMesh.Crypto.Noise

namespace ProjectMesh.Crypto

open ProjectMesh.Lib
open ProjectMesh.Crypto.FfiPrekey
open ProjectMesh.Crypto.Noise
open ProjectMesh.Crypto.Ratchet

namespace FfiHandshake

variable {N : NoiseSuite} {st : HandshakeState N} {fresh : N.Secret} {c : Call N}

end FfiHandshake

/-- Two handshake objects, what went over the network between them, the latest first, and the
sessions they gave. -/
structure Handshakes (N : NoiseSuite) where
  handshake : Party → Option (HandshakeState N)
  wire : List (WireMessage N)
  ratchetKeys : List N.Sealed
  session : Party → Option (DoubleRatchet N.toSuite)

namespace Handshakes

open FfiHandshake

variable {N : NoiseSuite}

def ends {α : Type} (a b : α) : Party → α
  | .initiator => a
  | .responder => b

def start (si sr : N.Secret) : Handshakes N where
  handshake := ends (some (buildInitiator si)) (some (buildResponder sr))
  wire := []
  ratchetKeys := []
  session := ends none none

def answer (l : Handshakes N) (p : Party) : Answer N → Handshakes N
  | .message m => { l with wire := m :: l.wire }
  | .done | .flag _ => l
  | .session ratchet => { l with session := Function.update l.session p (some ratchet) }
  | .established ratchet messageToSend =>
    { l with
      session := Function.update l.session p (some ratchet)
      ratchetKeys := messageToSend :: l.ratchetKeys }

def call (l : Handshakes N) (p : Party) (c : Call N) : Handshakes N :=
  match (FfiHandshake.call c).run (l.handshake p) with
  | .ok a st => { l with handshake := Function.update l.handshake p st }.answer p a
  | .error _ st => { l with handshake := Function.update l.handshake p st }

/-- The network loses, repeats and reorders what the two sides send, and makes nothing up.
A side finishes in its own role. -/
def Proper (l : Handshakes N) : Party → Call N → Prop
  | _, .writeMessage _ | _, .isFinished => True
  | _, .readMessage m => m ∈ l.wire
  | .initiator, .finishAsInitiator _ m => m ∈ l.ratchetKeys
  | .responder, .finishAsResponder _ => True
  | .initiator, .finishAsResponder _ | .responder, .finishAsInitiator .. => False

def Step (l l' : Handshakes N) : Prop := ∃ p c, l.Proper p c ∧ l' = l.call p c

section Calls

variable {l : Handshakes N} {p : Party} {c : Call N} {st st' : HandshakeState N}

theorem call_ok {a : Answer N} {s : Option (HandshakeState N)}
    (h : (FfiHandshake.call c).run (l.handshake p) = .ok a s) :
    l.call p c = { l with handshake := Function.update l.handshake p s }.answer p a := by
  rw [call, h]

end Calls

section Stages

variable {k : Secrets N} {p : Party} {c : Call N}

def initiatorSession (k : Secrets N) : DoubleRatchet N.toSuite :=
  .initInitiator k.dhSelf k.initiator₃.h (N.publicKey k.ratchetKey)

def responderSession (k : Secrets N) : DoubleRatchet N.toSuite :=
  .initResponder k.initiator₃.h k.ratchetKey

def stage (k : Secrets N) : Nat → Handshakes N
  | 0 => start k.si k.sr
  | 1 => ⟨ends (some k.initiator₁) (some (buildResponder k.sr)), [k.m₁], [], ends none none⟩
  | 2 => ⟨ends (some k.initiator₁) (some k.responder₁), [k.m₁], [], ends none none⟩
  | 3 => ⟨ends (some k.initiator₁) (some k.responder₂), [k.m₂, k.m₁], [], ends none none⟩
  | 4 => ⟨ends (some k.initiator₂) (some k.responder₂), [k.m₂, k.m₁], [], ends none none⟩
  | 5 => ⟨ends (some k.initiator₃) (some k.responder₂), [k.m₃, k.m₂, k.m₁], [], ends none none⟩
  | 6 => ⟨ends (some k.initiator₃) (some k.responder₃), [k.m₃, k.m₂, k.m₁], [], ends none none⟩
  | 7 => ⟨ends (some k.initiator₃) none, [k.m₃, k.m₂, k.m₁], [k.ratchetKeyMessage],
    ends none (some (responderSession k))⟩
  | _ => ⟨ends none none, [k.m₃, k.m₂, k.m₁], [k.ratchetKeyMessage],
    ends (some (initiatorSession k)) (some (responderSession k))⟩

end Stages

end Handshakes

end ProjectMesh.Crypto
