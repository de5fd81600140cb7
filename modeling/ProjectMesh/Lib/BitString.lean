import Mathlib.Data.UInt

namespace ProjectMesh.Lib.BitString

variable {xs ys : List Bool} {b : UInt8} {bytes : List UInt8} {n w : Nat}

def bits : Nat → Nat → List Bool
  | 0, _ => []
  | w + 1, n => n.testBit w :: bits w n

def ofBytes (bytes : List UInt8) : List Bool := bytes.flatMap fun b => bits 8 b.toNat

def leadingZeros (bits : List Bool) : Nat := (bits.takeWhile (!·)).length

@[simp] theorem leadingZeros_one : leadingZeros (true :: xs) = 0 := rfl

@[simp] theorem leadingZeros_zero : leadingZeros (false :: xs) = leadingZeros xs + 1 := rfl

theorem leadingZeros_append_of_zeros (h : ∀ bit ∈ xs, bit = false) :
    leadingZeros (xs ++ ys) = xs.length + leadingZeros ys := by
  have hxs : ∀ bit ∈ xs, (!bit) = true := fun bit hbit => by rw [h bit hbit]; rfl
  rw [leadingZeros, List.takeWhile_append_of_pos hxs, List.length_append, leadingZeros]

theorem leadingZeros_append_of_one (h : true ∈ xs) :
    leadingZeros (xs ++ ys) = leadingZeros xs := by
  induction xs with
  | nil => exact absurd h List.not_mem_nil
  | cons bit xs ih =>
    cases bit with
    | true => rfl
    | false =>
      have hxs : true ∈ xs := (List.mem_cons.mp h).resolve_left (by decide)
      rw [List.cons_append, leadingZeros_zero, leadingZeros_zero, ih hxs]

@[simp] theorem length_bits (w n : Nat) : (bits w n).length = w := by
  induction w with
  | zero => rfl
  | succ w ih => rw [bits, List.length_cons, ih]

theorem bits_zero (w : Nat) : ∀ bit ∈ bits w 0, bit = false := by
  induction w with
  | zero => exact fun bit h => absurd h List.not_mem_nil
  | succ w ih => exact List.forall_mem_cons.mpr ⟨Nat.zero_testBit w, ih⟩

theorem leadingZeros_bits (hn : n ≠ 0) (hlt : n < 2 ^ w) :
    true ∈ bits w n ∧ leadingZeros (bits w n) = w - 1 - n.log2 := by
  induction w with
  | zero => exact absurd (Nat.lt_one_iff.mp hlt) hn
  | succ w ih =>
    cases h : n.testBit w with
    | true =>
      have hle : 2 ^ w ≤ n := Nat.ge_two_pow_of_testBit h
      have hlog : n.log2 = w := (Nat.log2_eq_iff hn).mpr ⟨hle, hlt⟩
      rw [bits, h, leadingZeros_one, hlog]
      exact ⟨List.mem_cons_self, by omega⟩
    | false =>
      have hlt' : n < 2 ^ w := by
        by_contra hge
        have hset := Nat.testBit_of_two_pow_le_and_two_pow_add_one_gt (Nat.not_lt.mp hge) hlt
        cases h.symm.trans hset
      obtain ⟨hmem, hzeros⟩ := ih hlt'
      have hlog : n.log2 < w := (Nat.log2_lt hn).mpr hlt'
      rw [bits, h, leadingZeros_zero, hzeros]
      exact ⟨List.mem_cons_of_mem _ hmem, by omega⟩

theorem ofBytes_cons : ofBytes (b :: bytes) = bits 8 b.toNat ++ ofBytes bytes := List.flatMap_cons

end ProjectMesh.Lib.BitString
