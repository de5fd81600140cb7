import ProjectMesh.Crypto.Padding
import ProjectMesh.Routing.DurableMirror

namespace ProjectMesh.Crypto

open ProjectMesh.Lib
open ProjectMesh.Routing
open ProjectMesh.Crypto.Padding

/-- Everyone who knows the passphrase derives the same key and the same selector. -/
structure Channel where
  key : Bytes 32
  selector : Bytes 32

/-- `nonce` is what the random generator returns. -/
def Channel.seal (P : Primitives) (nonce : Bytes 12) (self : Channel) (plaintext : List UInt8) :
    Except MeshError (List UInt8) := do
  let padded ← padToBucket plaintext
  aeadSeal P self.key nonce self.selector.1 padded

def Channel.open (P : Primitives) (self : Channel) (sealed : List UInt8) :
    Except MeshError (List UInt8) := do
  let padded ← aeadOpen P self.key self.selector.1 sealed
  unpad padded

theorem chachaEncrypt_bucket {P : Primitives} (hseals : P.Seals) {n : Nat} {padded : List UInt8}
    (h : IsBucket n padded.length) (key : Bytes 32) (nonce : Bytes 12)
    (associatedData : List UInt8) :
    ∃ ciphertext, P.chachaEncrypt key nonce associatedData padded = some ciphertext := by
  have hle := bucket_le h.mem
  exact Option.isSome_iff_exists.mp (hseals key nonce associatedData padded (by omega))

namespace Channel

variable {P : Primitives} {nonce : Bytes 12} {self : Channel} {plaintext sealed : List UInt8}

theorem seal_cases (h : self.seal P nonce plaintext = .ok sealed) :
    ∃ padded, padToBucket plaintext = .ok padded ∧
      aeadSeal P self.key nonce self.selector.1 padded = .ok sealed := by
  rw [Channel.seal] at h
  cases hpad : padToBucket plaintext with
  | error err =>
    rw [hpad] at h
    cases h
  | ok padded =>
    rw [hpad] at h
    exact ⟨padded, rfl, h⟩

theorem seal_ok_iff (hseals : P.Seals) :
    (∃ sealed, self.seal P nonce plaintext = .ok sealed) ↔ plaintext.length ≤ 65532 := by
  constructor
  · rintro ⟨sealed, h⟩
    obtain ⟨padded, hpad, -⟩ := seal_cases h
    exact le_of_padToBucket hpad
  · intro h
    obtain ⟨padded, hpad, -⟩ := unpad_padToBucket h
    obtain ⟨ciphertext, hencrypt⟩ :=
      chachaEncrypt_bucket hseals (length_padToBucket hpad) self.key nonce self.selector.1
    refine ⟨nonce.1 ++ ciphertext, ?_⟩
    simp only [Channel.seal, hpad, bind, Except.bind, aeadSeal, hencrypt]

theorem length_seal (htags : P.Tags) (h : self.seal P nonce plaintext = .ok sealed) :
    ∃ padded, padToBucket plaintext = .ok padded ∧ sealed.length = 12 + (padded.length + 16) := by
  obtain ⟨padded, hpad, hseal⟩ := seal_cases h
  refine ⟨padded, hpad, ?_⟩
  rw [aeadSeal] at hseal
  split at hseal
  · next ciphertext hencrypt =>
    cases hseal
    rw [List.length_append, nonce.2, htags _ _ _ _ _ hencrypt]
  · cases hseal

theorem open_of_seal (hopens : P.Opens) (h : self.seal P nonce plaintext = .ok sealed) :
    self.open P sealed = .ok plaintext := by
  obtain ⟨padded, hpad, hseal⟩ := seal_cases h
  simp only [Channel.open, aeadOpen_of_aeadSeal hopens hseal, bind, Except.bind]
  exact unpad_of_padToBucket hpad

end Channel

end ProjectMesh.Crypto
