import ProjectMesh.Lib.BitString
import ProjectMesh.Routing.Puzzle

namespace ProjectMesh.Routing.Puzzle

open ProjectMesh.Lib

variable {byte : UInt8} {bytes : List UInt8} {count : Nat}

/-- The loop of `leading_zero_bits` from a count on: `none` when the `u32` overflows. -/
def countLeadingZeros (count : Nat) : List UInt8 → Option Nat
  | [] => some count
  | byte :: rest =>
    if byte = 0 then
      if count + 8 < 2 ^ 32 then countLeadingZeros (count + 8) rest else none
    else if count + leadingZeros byte < 2 ^ 32 then some (count + leadingZeros byte) else none

theorem leadingZeros_of_ne (h : byte ≠ 0) :
    true ∈ BitString.bits 8 byte.toNat ∧
      BitString.leadingZeros (BitString.bits 8 byte.toNat) = leadingZeros byte := by
  have hne : byte.toNat ≠ 0 := fun hzero => h (UInt8.toNat_inj.mp hzero)
  rw [leadingZeros, if_neg h]
  exact BitString.leadingZeros_bits hne byte.toNat_lt

theorem leadingZeros_le (byte : UInt8) : leadingZeros byte ≤ 8 := by
  rw [leadingZeros]
  split
  · exact Nat.le_refl _
  · omega

theorem leadingZeroBits_eq (bytes : List UInt8) :
    leadingZeroBits bytes = BitString.leadingZeros (BitString.ofBytes bytes) := by
  induction bytes with
  | nil => rfl
  | cons byte rest ih =>
    rw [leadingZeroBits, BitString.ofBytes_cons]
    split
    · next h =>
      subst h
      have hzero : ∀ bit ∈ BitString.bits 8 (0 : UInt8).toNat, bit = false := BitString.bits_zero 8
      rw [BitString.leadingZeros_append_of_zeros hzero, BitString.length_bits, ih]
    · next h =>
      obtain ⟨hone, hzeros⟩ := leadingZeros_of_ne h
      rw [BitString.leadingZeros_append_of_one hone, hzeros]

/-- Below 2^29 bytes the count does not overflow. -/
theorem countLeadingZeros_eq (h : count + 8 * bytes.length < 2 ^ 32) :
    countLeadingZeros count bytes = some (count + leadingZeroBits bytes) := by
  induction bytes generalizing count with
  | nil => rfl
  | cons byte rest ih =>
    rw [List.length_cons] at h
    have hle := leadingZeros_le byte
    rw [countLeadingZeros, leadingZeroBits]
    split
    · rw [if_pos (by omega), ih (by omega), Nat.add_assoc]
    · exact if_pos (by omega)

/-- The count is that of the bits, a proof meets every lower difficulty, and a search that can
succeed finds the least nonce. -/
theorem puzzle_arithmetic :
    (∀ bytes : List UInt8, bytes.length < 2 ^ 29 →
        countLeadingZeros 0 bytes = some (leadingZeroBits bytes) ∧
          leadingZeroBits bytes = BitString.leadingZeros (BitString.ofBytes bytes)) ∧
      (∀ (P : Primitives) (id : EnvelopeId) (nonce : UInt64) (bits bits' : UInt8),
        bits' ≤ bits → verify P id nonce bits = true → verify P id nonce bits' = true) ∧
      ∀ (P : Primitives) (id : EnvelopeId) (bits : UInt8),
        (∃ nonce, verify P id nonce bits = true) →
          ∃ nonce, solve P id bits = some nonce ∧ verify P id nonce bits = true ∧
            ∀ other < nonce, verify P id other bits = false := by
  refine ⟨fun bytes h => ?_, fun P id nonce bits bits' hle h => verify_of_le h hle, ?_⟩
  · have hcount : 0 + 8 * bytes.length < 2 ^ 32 := by omega
    refine ⟨?_, leadingZeroBits_eq bytes⟩
    rw [countLeadingZeros_eq hcount, Nat.zero_add]
  · rintro P id bits ⟨nonce, hvalid⟩
    have hend : nonce.toNat < (0 : UInt64).toNat + 2 ^ 64 := by simpa using nonce.toNat_lt
    obtain ⟨found, hsolve, -⟩ := solveFrom_of_verify hvalid (Nat.zero_le _) hend
    obtain ⟨hfound, hleast⟩ := solve_eq_some_iff.mp hsolve
    exact ⟨found, hsolve, hfound, hleast⟩

end ProjectMesh.Routing.Puzzle
