import Mathlib.Data.UInt
import Mathlib.Tactic.Ring

namespace ProjectMesh.Lib

/-- The `k` low bytes of `n`, least significant first (`to_le_bytes`). -/
def leBytes : Nat → Nat → List UInt8
  | 0, _ => []
  | k + 1, n => UInt8.ofNat (n % 256) :: leBytes k (n / 256)

/-- The number a byte string spells, least significant byte first (`from_le_bytes`). -/
def leNat : List UInt8 → Nat
  | [] => 0
  | b :: bs => b.toNat + 256 * leNat bs

def bytesLe : List UInt8 → List UInt8 → Bool
  | [], _ => true
  | _ :: _, [] => false
  | a :: as, b :: bs => if a = b then bytesLe as bs else a < b

@[simp] theorem length_leBytes (k n : Nat) : (leBytes k n).length = k := by
  induction k generalizing n with
  | zero => rfl
  | succ k ih => simp [leBytes, ih]

theorem leNat_leBytes (k n : Nat) : leNat (leBytes k n) = n % 256 ^ k := by
  induction k generalizing n with
  | zero => simp [leBytes, leNat, Nat.mod_one]
  | succ k ih =>
    have hb : (UInt8.ofNat (n % 256)).toNat = n % 256 := by
      simp [UInt8.toNat_ofNat']
    rw [leBytes, leNat, ih, hb, Nat.pow_succ', Nat.mod_mul]

theorem leNat_leBytes_of_lt {k n : Nat} (h : n < 256 ^ k) : leNat (leBytes k n) = n := by
  rw [leNat_leBytes, Nat.mod_eq_of_lt h]

theorem leBytes_injOn {k m n : Nat} (hm : m < 256 ^ k) (hn : n < 256 ^ k)
    (h : leBytes k m = leBytes k n) : m = n := by
  rw [← leNat_leBytes_of_lt hm, ← leNat_leBytes_of_lt hn, h]

theorem leNat_lt (bs : List UInt8) : leNat bs < 256 ^ bs.length := by
  induction bs with
  | nil => simp [leNat]
  | cons b bs ih =>
    have hb : b.toNat < 256 := b.toNat_lt
    rw [leNat, List.length_cons, Nat.pow_succ']
    omega

theorem leBytes_leNat (bs : List UInt8) : leBytes bs.length (leNat bs) = bs := by
  induction bs with
  | nil => rfl
  | cons b bs ih =>
    have hb : b.toNat < 256 := b.toNat_lt
    have hmod : (b.toNat + 256 * leNat bs) % 256 = b.toNat := by omega
    have hdiv : (b.toNat + 256 * leNat bs) / 256 = leNat bs := by omega
    rw [List.length_cons, leNat, leBytes, hmod, hdiv, ih, UInt8.ofNat_toNat]

section Order

theorem bytesLe_total (as bs : List UInt8) : bytesLe as bs = true ∨ bytesLe bs as = true := by
  induction as generalizing bs with
  | nil => exact .inl rfl
  | cons a as ih =>
    cases bs with
    | nil => exact .inr rfl
    | cons b bs =>
      by_cases h : a = b
      · rw [bytesLe, bytesLe, if_pos h, if_pos h.symm]
        exact ih bs
      · rw [bytesLe, bytesLe, if_neg h, if_neg (Ne.symm h), decide_eq_true_iff, decide_eq_true_iff]
        exact UInt8.lt_or_lt_of_ne h

theorem bytesLe_antisymm {as bs : List UInt8} (h : bytesLe as bs = true)
    (h' : bytesLe bs as = true) : as = bs := by
  induction as generalizing bs with
  | nil =>
    cases bs with
    | nil => rfl
    | cons b bs => cases h'
  | cons a as ih =>
    cases bs with
    | nil => cases h
    | cons b bs =>
      by_cases hab : a = b
      · rw [bytesLe, if_pos hab] at h
        rw [bytesLe, if_pos hab.symm] at h'
        rw [hab, ih h h']
      · rw [bytesLe, if_neg hab, decide_eq_true_iff] at h
        rw [bytesLe, if_neg (Ne.symm hab), decide_eq_true_iff] at h'
        exact absurd h (UInt8.lt_asymm h')

theorem bytesLe_trans {as bs cs : List UInt8} (h : bytesLe as bs = true)
    (h' : bytesLe bs cs = true) : bytesLe as cs = true := by
  induction as generalizing bs cs with
  | nil => rfl
  | cons a as ih =>
    cases bs with
    | nil => cases h
    | cons b bs =>
      cases cs with
      | nil => cases h'
      | cons c cs =>
        rw [bytesLe] at h h' ⊢
        by_cases hab : a = b
        · subst hab
          rw [if_pos rfl] at h
          by_cases hac : a = c
          · rw [if_pos hac] at h' ⊢
            exact ih h h'
          · rwa [if_neg hac] at h' ⊢
        · rw [if_neg hab, decide_eq_true_iff] at h
          by_cases hbc : b = c
          · subst hbc
            rwa [if_neg hab, decide_eq_true_iff]
          · rw [if_neg hbc, decide_eq_true_iff] at h'
            rw [if_neg (UInt8.ne_of_lt (UInt8.lt_trans h h')), decide_eq_true_iff]
            exact UInt8.lt_trans h h'

instance : Std.Total fun as bs : List UInt8 => bytesLe as bs = true := ⟨bytesLe_total⟩

instance : IsTrans (List UInt8) fun as bs => bytesLe as bs = true :=
  ⟨fun _ _ _ => bytesLe_trans⟩

end Order

end ProjectMesh.Lib
