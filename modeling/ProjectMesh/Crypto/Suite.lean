import ProjectMesh.Error

namespace ProjectMesh.Crypto

/-- The primitives the ratchet takes from the dalek, `hkdf`, `hmac` and
`chacha20poly1305` crates.  Keys, shared secrets and ciphertexts are passed around
and never looked into. -/
structure Suite where
  Secret : Type
  Public : Type
  Shared : Type
  Key : Type
  Sealed : Type
  publicEq : DecidableEq Public
  /-- `XPublicKey::from(&secret)` -/
  publicKey : Secret → Public
  /-- `==` on public keys.  It compares points, so two encodings of one point agree. -/
  samePoint : Public → Public → Bool
  publicBytes : Public → List UInt8
  diffieHellman : Secret → Public → Shared
  /-- HKDF-SHA256 with its salt, input key and info: 64 bytes as two halves. -/
  hkdf : Key → Shared → String → Key × Key
  /-- HMAC-SHA256 of one byte. -/
  hmac : Key → UInt8 → Key
  /-- ChaCha20-Poly1305 under the zero nonce: key, associated data, message. -/
  encrypt : Key → List UInt8 → List UInt8 → Option Sealed
  decrypt : Key → List UInt8 → Sealed → Option (List UInt8)

attribute [instance] Suite.publicEq

/-- What an honest session relies on. -/
structure Suite.Lawful (C : Suite) : Prop where
  dh_comm : ∀ a b, C.diffieHellman a (C.publicKey b) = C.diffieHellman b (C.publicKey a)
  samePoint_refl : ∀ p, C.samePoint p p = true
  samePoint_symm : ∀ p q, C.samePoint p q = C.samePoint q p
  decrypt_encrypt : ∀ k ad m, m.length ≤ 65536 →
    ∃ c, C.encrypt k ad m = some c ∧ C.decrypt k ad c = some m

/-- What an attacker or a session with the wrong keys cannot get around, as if the hash
functions had no collisions. -/
structure Suite.Ideal (C : Suite) : Prop extends C.Lawful where
  diffieHellman_inj : ∀ a b c,
    C.diffieHellman a (C.publicKey b) = C.diffieHellman a (C.publicKey c) →
      C.samePoint (C.publicKey b) (C.publicKey c) = true
  hkdf_inj : ∀ salt ikm salt' ikm' info,
    (C.hkdf salt ikm info).2 = (C.hkdf salt' ikm' info).2 → ikm = ikm'
  hmac_inj : ∀ k k' b, C.hmac k b = C.hmac k' b → k = k'
  decrypt_wrongKey : ∀ k k' ad ad' m c, k ≠ k' → C.encrypt k ad m = some c →
    C.decrypt k' ad' c = none
  exists_fresh : ∀ used : List C.Public, ∃ a, ∀ q ∈ used, C.samePoint q (C.publicKey a) = false

variable {C : Suite}

def aeadSealOnce (key : C.Key) (associatedData plaintext : List UInt8) :
    Except MeshError C.Sealed :=
  match C.encrypt key associatedData plaintext with
  | some c => .ok c
  | none => .error (.crypto "seal failed")

def aeadOpenOnce (key : C.Key) (associatedData : List UInt8) (ciphertext : C.Sealed) :
    Except MeshError (List UInt8) :=
  match C.decrypt key associatedData ciphertext with
  | some m => .ok m
  | none => .error (.crypto "open failed: forged or corrupted ciphertext")

end ProjectMesh.Crypto
