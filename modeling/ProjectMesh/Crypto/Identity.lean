import Mathlib.Data.Sym.Sym2
import Mathlib.Logic.Equiv.Defs
import ProjectMesh.Crypto.Suite
import ProjectMesh.Lib.Slice

namespace ProjectMesh.Crypto

open ProjectMesh.Lib

inductive KeyPart (Shared Key PqShared : Type) : Type
  | ones
  | agreed (shared : Shared)
  | derived (key : Key)
  | encapsulated (shared : PqShared)

/-- What identities and prekeys take from the dalek, `ml-kem` and `hkdf` crates.  X25519
takes any 32 bytes as a key and Ed25519 any 64 as a signature. -/
structure PrekeySuite extends Suite where
  SigningKey : Type
  VerifyingKey : Type
  EncapsulationKey : Type
  DecapsulationKey : Type
  PqShared : Type
  secretBytes : Secret ≃ Bytes 32
  pubBytes : Public ≃ Bytes 32
  verifyingKey : SigningKey → VerifyingKey
  verifyingBytes : VerifyingKey → Bytes 32
  /-- `VerifyingKey::from_bytes`, which rejects what is no point of the curve. -/
  verifyingFromBytes : Bytes 32 → Option VerifyingKey
  sign : SigningKey → List UInt8 → Bytes 64
  verify : VerifyingKey → List UInt8 → Bytes 64 → Bool
  /-- `DecapsulationKey::from_seed` -/
  fromSeed : Bytes 64 → DecapsulationKey
  toSeed : DecapsulationKey → Option (Bytes 64)
  encapsulationKey : DecapsulationKey → EncapsulationKey
  encapsulationBytes : EncapsulationKey → Bytes 1568
  /-- `EncapsulationKey::new`, which rejects coefficients that are not reduced. -/
  encapsulationFromBytes : Bytes 1568 → Option EncapsulationKey
  /-- The second argument is what the random generator returns. -/
  encapsulate : EncapsulationKey → Bytes 32 → Bytes 1568 × PqShared
  /-- Implicit rejection: a ciphertext of another key gives a secret too. -/
  decapsulate : DecapsulationKey → Bytes 1568 → PqShared
  /-- HKDF-SHA256 without a salt: the parts of the input key, the info, 32 bytes. -/
  hkdfSha256 : List (KeyPart Shared Key PqShared) → String → Key

/-- What an honest bootstrap relies on. -/
structure PrekeySuite.Lawful (C : PrekeySuite) : Prop where
  dh_comm : ∀ a b, C.diffieHellman a (C.publicKey b) = C.diffieHellman b (C.publicKey a)
  samePoint_refl : ∀ p, C.samePoint p p = true
  samePoint_dh : ∀ p q a, C.samePoint p q = true → C.diffieHellman a p = C.diffieHellman a q
  verifyingFromBytes_bytes : ∀ k, C.verifyingFromBytes (C.verifyingBytes k) = some k
  verify_sign : ∀ k m, C.verify (C.verifyingKey k) m (C.sign k m) = true
  fromSeed_toSeed : ∀ d seed, C.toSeed d = some seed → C.fromSeed seed = d
  toSeed_fromSeed : ∀ seed, C.toSeed (C.fromSeed seed) = some seed
  encapsulationFromBytes_bytes : ∀ k, C.encapsulationFromBytes (C.encapsulationBytes k) = some k
  decapsulate_encapsulate : ∀ d r,
    C.decapsulate d (C.encapsulate (C.encapsulationKey d) r).1 =
      (C.encapsulate (C.encapsulationKey d) r).2

/-- Other keys give other secrets, as if the hash functions had no collisions. -/
structure PrekeySuite.Ideal (C : PrekeySuite) : Prop extends C.Lawful where
  diffieHellman_inj : ∀ a b c,
    C.diffieHellman a (C.publicKey b) = C.diffieHellman a (C.publicKey c) →
      C.publicKey b = C.publicKey c
  decapsulate_wrongKey : ∀ d k r, C.decapsulate d (C.encapsulate k r).1 = (C.encapsulate k r).2 →
    C.encapsulationKey d = k
  hkdfSha256_inj : ∀ ikm ikm' info, C.hkdfSha256 ikm info = C.hkdfSha256 ikm' info → ikm = ikm'

structure PublicIdentity (C : PrekeySuite) where
  verifying : C.VerifyingKey
  agreement : C.Public

structure Identity (C : PrekeySuite) where
  signing : C.SigningKey
  agreement : C.Secret

variable {C : PrekeySuite}

namespace Identity

/-- `public` -/
def pub (identity : Identity C) : PublicIdentity C where
  verifying := C.verifyingKey identity.signing
  agreement := C.publicKey identity.agreement

def sign (identity : Identity C) (message : List UInt8) : Bytes 64 :=
  C.sign identity.signing message

end Identity

namespace PublicIdentity

def verify (identity : PublicIdentity C) (message : List UInt8) (sig : Bytes 64) : Bool :=
  C.verify identity.verifying message sig

def toBytes (identity : PublicIdentity C) : List UInt8 :=
  (C.verifyingBytes identity.verifying).1 ++ (C.pubBytes identity.agreement).1

def fromBytes (bytes : Bytes 64) : Parse MeshError (PublicIdentity C) := do
  let verifying ← Parse.arrayAt 0 32 bytes.1
  let verifying ← Parse.okOr (C.verifyingFromBytes verifying)
    (MeshError.malformed "invalid identity verifying key")
  let agreement ← Parse.rangeFrom 32 bytes.1
  let agreement ← Parse.array 32 agreement
  return { verifying := verifying, agreement := C.pubBytes.symm agreement }

@[simp] theorem length_toBytes (identity : PublicIdentity C) : identity.toBytes.length = 64 := by
  simp [toBytes]

end PublicIdentity

inductive ToyKey : Type
  | derived (ikm : List (KeyPart (Sym2 (Bytes 32)) ToyKey (Bytes 64 × Bytes 1568))) (info : String)

def zeroPad {m : Nat} (n : Nat) (bytes : Bytes m) : Bytes (m + n) :=
  ⟨bytes.1 ++ List.replicate n 0, by rw [List.length_append, List.length_replicate, bytes.2]⟩

def toyPrekeys : PrekeySuite where
  Secret := Bytes 32
  Public := Bytes 32
  Shared := Sym2 (Bytes 32)
  Key := ToyKey
  Sealed := List UInt8 × List UInt8
  publicEq := inferInstance
  publicKey := id
  samePoint p q := decide (p = q)
  publicBytes p := p.1
  diffieHellman a p := s(a, p)
  hkdf k shared info :=
    (.derived [.derived k, .agreed shared] info, .derived [.derived k, .agreed shared, .ones] info)
  hmac k b := .derived [.derived k] (toString b)
  encrypt _ associatedData plaintext := some (associatedData, plaintext)
  decrypt _ associatedData ct := if ct.1 = associatedData then some ct.2 else none
  SigningKey := Bytes 32
  VerifyingKey := Bytes 32
  EncapsulationKey := Bytes 64
  DecapsulationKey := Bytes 64
  PqShared := Bytes 64 × Bytes 1568
  secretBytes := Equiv.refl _
  pubBytes := Equiv.refl _
  verifyingKey := id
  verifyingBytes := id
  verifyingFromBytes := some
  sign k _ := ⟨k.1 ++ k.1, by simp⟩
  verify k _ sig := decide (sig.1 = k.1 ++ k.1)
  fromSeed := id
  toSeed := some
  encapsulationKey := id
  encapsulationBytes k := zeroPad 1504 k
  encapsulationFromBytes bytes := some ⟨bytes.1.take 64, by simp⟩
  encapsulate k r := (zeroPad 1536 r, (k, zeroPad 1536 r))
  decapsulate d ct := (d, ct)
  hkdfSha256 := .derived

theorem toyPrekeys_ideal : toyPrekeys.Ideal where
  dh_comm _ _ := Sym2.eq_swap
  samePoint_refl p := decide_eq_true (p := (p : Bytes 32) = p) rfl
  samePoint_dh p q _ h := by rw [of_decide_eq_true (p := (p : Bytes 32) = q) h]
  verifyingFromBytes_bytes _ := rfl
  verify_sign _ _ := decide_eq_true rfl
  fromSeed_toSeed _ _ h := (Option.some.inj h).symm
  toSeed_fromSeed _ := rfl
  encapsulationFromBytes_bytes k := congrArg some (Subtype.ext (List.take_left' k.2))
  decapsulate_encapsulate _ _ := rfl
  diffieHellman_inj _ _ _ h := Sym2.congr_right.mp h
  decapsulate_wrongKey _ _ _ h := (Prod.mk.inj h).1
  hkdfSha256_inj _ _ _ h := (ToyKey.derived.inj h).1

end ProjectMesh.Crypto
