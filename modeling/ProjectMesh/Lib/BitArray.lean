import Mathlib.Data.UInt

namespace ProjectMesh.Lib.BitArray

variable {bits : List UInt8} {i j : Nat}

def mask (i : Nat) : UInt8 := 1 <<< UInt8.ofNat (i % 8)

def testBit (bits : List UInt8) (i : Nat) : Bool := bits.getD (i / 8) 0 &&& mask i ≠ 0

def setBit (bits : List UInt8) (i : Nat) : List UInt8 := bits.modify (i / 8) (· ||| mask i)

theorem mask_ne_zero (i : Nat) : mask i ≠ 0 := by
  have h : ∀ k : Fin 8, (1 : UInt8) <<< UInt8.ofNat k.val ≠ 0 := by decide
  exact h ⟨i % 8, Nat.mod_lt _ (by decide)⟩

theorem or_and_right (a b c : UInt8) : (a ||| b) &&& c = (a &&& c) ||| (b &&& c) :=
  UInt8.toBitVec_inj.mp (BitVec.and_or_distrib_right ..)

@[simp] theorem length_setBit : (setBit bits i).length = bits.length := by simp [setBit]

theorem getD_setBit (bits : List UInt8) (i j : Nat) :
    (setBit bits i).getD j 0 =
      if i / 8 = j ∧ j < bits.length then bits.getD j 0 ||| mask i else bits.getD j 0 := by
  simp only [setBit, List.getD_eq_getElem?_getD, List.getElem?_modify]
  cases h : bits[j]? with
  | none =>
    have hj : bits.length ≤ j := List.getElem?_eq_none_iff.mp h
    simp [Nat.not_lt.mpr hj]
  | some b =>
    have hj : j < bits.length := (List.getElem?_eq_some_iff.mp h).1
    split <;> simp_all

theorem testBit_setBit_self (h : i / 8 < bits.length) : testBit (setBit bits i) i = true := by
  have hget : (setBit bits i).getD (i / 8) 0 = bits.getD (i / 8) 0 ||| mask i := by
    rw [getD_setBit, if_pos ⟨rfl, h⟩]
  rw [testBit, hget, or_and_right, UInt8.and_self, decide_eq_true_eq, Ne, UInt8.or_eq_zero_iff]
  exact fun hz => mask_ne_zero i hz.2

theorem testBit_setBit (h : testBit bits i = true) : testBit (setBit bits j) i = true := by
  simp only [testBit, getD_setBit, ne_eq, decide_eq_true_eq] at h ⊢
  split
  · rw [or_and_right, UInt8.or_eq_zero_iff]
    exact fun hz => h hz.1
  · exact h

def setBits (bits : List UInt8) (is : List Nat) : List UInt8 := is.foldl setBit bits

@[simp] theorem length_setBits {is : List Nat} : (setBits bits is).length = bits.length := by
  induction is generalizing bits with
  | nil => rfl
  | cons i is ih => exact ih.trans length_setBit

theorem testBit_setBits {is : List Nat} (h : testBit bits i = true) :
    testBit (setBits bits is) i = true := by
  induction is generalizing bits with
  | nil => exact h
  | cons j is ih => exact ih (testBit_setBit h)

theorem testBit_setBits_of_mem {is : List Nat} (hi : i ∈ is) (h : i / 8 < bits.length) :
    testBit (setBits bits is) i = true := by
  induction is generalizing bits with
  | nil => cases hi
  | cons j is ih =>
    rcases List.mem_cons.mp hi with rfl | hi
    · exact (testBit_setBits (testBit_setBit_self h) :
        testBit (setBits (setBit bits i) is) i = true)
    · exact ih hi (length_setBit.symm ▸ h)

theorem mask_and_mask (i j : Nat) : mask i &&& mask j ≠ 0 ↔ i % 8 = j % 8 := by
  have h : ∀ k l : Fin 8, (1 : UInt8) <<< UInt8.ofNat k.val &&& 1 <<< UInt8.ofNat l.val ≠ 0 ↔
      k.val = l.val := by decide
  exact h ⟨i % 8, Nat.mod_lt _ (by decide)⟩ ⟨j % 8, Nat.mod_lt _ (by decide)⟩

theorem testBit_setBit_iff (h : i / 8 < bits.length) :
    testBit (setBit bits j) i = true ↔ testBit bits i = true ∨ i = j := by
  constructor
  · intro hset
    simp only [testBit, getD_setBit, ne_eq, decide_eq_true_eq] at hset ⊢
    split at hset
    · next hbyte =>
      rw [or_and_right, UInt8.or_eq_zero_iff, not_and_or] at hset
      refine hset.imp_right fun hmask => ?_
      have hmod := (mask_and_mask j i).mp hmask
      omega
    · exact .inl hset
  · rintro (hset | rfl)
    · exact testBit_setBit hset
    · exact testBit_setBit_self h

theorem testBit_setBits_iff {is : List Nat} (h : i / 8 < bits.length) :
    testBit (setBits bits is) i = true ↔ testBit bits i = true ∨ i ∈ is := by
  induction is generalizing bits with
  | nil => exact (or_iff_left List.not_mem_nil).symm
  | cons j is ih =>
    have hset : i / 8 < (setBit bits j).length := length_setBit.symm ▸ h
    rw [List.mem_cons, ← or_assoc, ← testBit_setBit_iff h]
    exact ih hset

@[simp] theorem testBit_replicate_zero (n i : Nat) : testBit (List.replicate n 0) i = false := by
  simp only [testBit, List.getD_eq_getElem?_getD, List.getElem?_replicate]
  split <;> simp

end ProjectMesh.Lib.BitArray
