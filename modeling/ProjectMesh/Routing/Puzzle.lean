import ProjectMesh.Routing.Envelope

namespace ProjectMesh.Routing.Puzzle

open ProjectMesh.Lib

variable {P : Primitives} {id : EnvelopeId} {nonce : UInt64} {bits : UInt8}

def leadingZeros (b : UInt8) : Nat := if b = 0 then 8 else 7 - b.toNat.log2

def leadingZeroBits : List UInt8 → Nat
  | [] => 0
  | byte :: rest => if byte = 0 then 8 + leadingZeroBits rest else leadingZeros byte

def verify (P : Primitives) (id : EnvelopeId) (nonce : UInt64) (difficultyBits : UInt8) : Bool :=
  leadingZeroBits (P.blake3 (id.bytes.1 ++ leBytes 8 nonce.toNat)).1 ≥ difficultyBits.toNat

def solveFrom (P : Primitives) (id : EnvelopeId) (difficultyBits : UInt8) :
    Nat → UInt64 → Option UInt64
  | 0, _ => none
  | k + 1, nonce =>
    if verify P id nonce difficultyBits then some nonce
    else solveFrom P id difficultyBits k (nonce + 1)

/-- `none` when no nonce is valid: then the loop never returns. -/
def solve (P : Primitives) (id : EnvelopeId) (difficultyBits : UInt8) : Option UInt64 :=
  solveFrom P id difficultyBits (2 ^ 64) 0

@[simp] theorem verify_zero : verify P id nonce 0 = true := by simp [verify]

theorem verify_of_solveFrom {k : Nat} {start : UInt64}
    (h : solveFrom P id bits k start = some nonce) : verify P id nonce bits = true := by
  induction k generalizing start with
  | zero => cases h
  | succ k ih =>
    rw [solveFrom] at h
    split at h
    · next hv =>
      cases h
      exact hv
    · exact ih h

theorem verify_of_solve (h : solve P id bits = some nonce) : verify P id nonce bits = true :=
  verify_of_solveFrom h

@[simp] theorem solve_zero : solve P id 0 = some 0 := by
  have hfirst : solve P id 0 = solveFrom P id 0 (2 ^ 64 - 1 + 1) 0 := rfl
  rw [hfirst, solveFrom, if_pos verify_zero]

theorem solveFrom_of_verify {k : Nat} {start : UInt64} (hverify : verify P id nonce bits = true)
    (hstart : start.toNat ≤ nonce.toNat) (hend : nonce.toNat < start.toNat + k) :
    ∃ found, solveFrom P id bits k start = some found ∧ found.toNat ≤ nonce.toNat := by
  induction k generalizing start with
  | zero => omega
  | succ k ih =>
    rw [solveFrom]
    split
    · exact ⟨start, rfl, hstart⟩
    · next hinvalid =>
      have hne : start.toNat ≠ nonce.toNat := by
        intro heq
        rw [UInt64.toNat_inj.mp heq, hverify] at hinvalid
        exact hinvalid rfl
      have hone : (start + 1).toNat = start.toNat + 1 := by
        rw [UInt64.toNat_add]
        have hlt := nonce.toNat_lt
        have h1 : (1 : UInt64).toNat = 1 := rfl
        omega
      exact ih (by omega) (by omega)

structure Least (P : Primitives) (id : EnvelopeId) (difficultyBits : UInt8) (nonce : UInt64) :
    Prop where
  valid : verify P id nonce difficultyBits = true
  least : ∀ other < nonce, verify P id other difficultyBits = false

theorem solve_eq_some_iff : solve P id bits = some nonce ↔ Least P id bits nonce := by
  have hfound : ∀ other, verify P id other bits = true →
      ∃ found, solve P id bits = some found ∧ found.toNat ≤ other.toNat := fun other hother =>
    solveFrom_of_verify hother (Nat.zero_le _) (by simpa using other.toNat_lt)
  constructor
  · refine fun h => ⟨verify_of_solve h, fun other hlt => ?_⟩
    refine Bool.eq_false_iff.mpr fun hother => ?_
    obtain ⟨found, hsolve, hle⟩ := hfound other hother
    rw [h] at hsolve
    cases hsolve
    exact absurd (UInt64.lt_iff_toNat_lt.mp hlt) (Nat.not_lt.mpr hle)
  · rintro ⟨hvalid, hleast⟩
    obtain ⟨found, hsolve, hle⟩ := hfound nonce hvalid
    have heq : found.toNat = nonce.toNat := by
      refine Nat.le_antisymm hle (Nat.not_lt.mp fun hlt => ?_)
      have hinvalid := hleast found (UInt64.lt_iff_toNat_lt.mpr hlt)
      rw [verify_of_solve hsolve] at hinvalid
      cases hinvalid
    rw [hsolve, UInt64.toNat_inj.mp heq]

theorem verify_of_le {bits' : UInt8} (h : verify P id nonce bits = true)
    (hle : bits' ≤ bits) : verify P id nonce bits' = true := by
  rw [verify, decide_eq_true_eq] at h ⊢
  exact Nat.le_trans (UInt8.le_iff_toNat_le.mp hle) h

end ProjectMesh.Routing.Puzzle
