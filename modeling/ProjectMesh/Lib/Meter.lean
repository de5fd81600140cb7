import Mathlib.Algebra.BigOperators.Group.List.Basic
import Mathlib.Algebra.GroupWithZero.Nat
import Mathlib.Order.Lattice

universe u

namespace ProjectMesh.Lib

variable {ω : Type u}

structure Meter (ω : Type u) where
  window : ω
  used : Nat

/-- What happens to a counter: a charge of 0 is a request that was turned down. -/
inductive Charge (ω : Type u) : Type u
  | skip
  | spend (window : ω) (amount : Nat)
  | reset

namespace Charge

variable {c : Charge ω} {cs : List (Charge ω)} {v w : ω} {amount : Nat}

def isReset : Charge ω → Bool
  | .reset => true
  | .skip | .spend _ _ => false

def resets (cs : List (Charge ω)) : Nat := cs.countP isReset

def window? : Charge ω → Option ω
  | .spend window _ => some window
  | .skip | .reset => none

theorem filterMap_window_spend :
    (.spend v amount :: cs).filterMap window? = v :: cs.filterMap window? := rfl

variable [LinearOrder ω]

def Ordered (cs : List (Charge ω)) : Prop := (cs.filterMap window?).Pairwise (· ≤ ·)

def amountIn (w : ω) : Charge ω → Nat
  | .spend window amount => if window = w then amount else 0
  | .skip | .reset => 0

def cost : Charge ω → Nat
  | .spend _ amount => amount
  | .skip | .reset => 0

def total (w : ω) (cs : List (Charge ω)) : Nat := (cs.map (amountIn w)).sum

theorem total_cons : total w (c :: cs) = c.amountIn w + total w cs := by
  rw [total, List.map_cons, List.sum_cons, total]

theorem ordered_spend :
    Ordered (.spend v amount :: cs) ↔ (∀ u ∈ cs.filterMap window?, v ≤ u) ∧ Ordered cs := by
  rw [Ordered, filterMap_window_spend, List.pairwise_cons, Ordered]

theorem total_eq_zero (h : ∀ u ∈ cs.filterMap window?, w < u) : total w cs = 0 := by
  induction cs with
  | nil => rfl
  | cons c cs ih =>
    rw [total_cons]
    cases c with
    | skip => rw [amountIn, Nat.zero_add, ih h]
    | reset => rw [amountIn, Nat.zero_add, ih h]
    | spend v amount =>
      rw [filterMap_window_spend, List.forall_mem_cons] at h
      rw [amountIn, if_neg (ne_of_gt h.1), Nat.zero_add, ih h.2]

end Charge

variable [LinearOrder ω]

namespace Meter

open Charge

variable {cap : Nat} {m : Meter ω} {cs : List (Charge ω)} {w : ω}

def carry (m : Meter ω) (w : ω) : Nat := if m.window = w then m.used else 0

inductive Follows (cap : Nat) (m : Meter ω) : Charge ω → Meter ω → Prop
  | skip : Follows cap m .skip m
  | spend {window : ω} {amount : Nat} : (amount = 0 ∨ m.carry window + amount ≤ cap) →
    Follows cap m (.spend window amount) ⟨window, m.carry window + amount⟩
  | reset {window : ω} : Follows cap m .reset ⟨window, 0⟩

theorem Follows.used_le {m' : Meter ω} {c : Charge ω} (h : Follows cap m c m') :
    m'.used ≤ m.used + c.cost := by
  cases h with
  | skip => exact Nat.le_refl _
  | reset => exact Nat.zero_le _
  | spend =>
    refine Nat.add_le_add_right ?_ _
    rw [carry]
    split
    · exact Nat.le_refl _
    · exact Nat.zero_le _

inductive Run (cap : Nat) : Meter ω → List (Charge ω) → Prop
  | nil {m : Meter ω} : Run cap m []
  | cons {m m' : Meter ω} {c : Charge ω} {cs : List (Charge ω)} : Follows cap m c m' →
    Run cap m' cs → Run cap m (c :: cs)

theorem Run.total_le_left (h : Run cap m cs) (hordered : Ordered cs)
    (hpast : m.used = 0 ∨ ∀ u ∈ cs.filterMap window?, m.window ≤ u) :
    total w cs ≤ resets cs * cap + (cap - m.carry w) := by
  induction h with
  | nil => exact Nat.zero_le _
  | @cons m m' c cs hstep hrun ih =>
    rw [total_cons]
    cases hstep with
    | skip =>
      have hle := ih hordered hpast
      simpa [amountIn, resets, isReset] using hle
    | @reset window =>
      have hle := ih hordered (.inl rfl)
      have hresets : resets (.reset :: cs) = resets cs + 1 :=
        List.countP_cons_of_pos rfl
      have hcarry : carry (⟨window, 0⟩ : Meter ω) w = 0 := ite_self 0
      rw [hcarry] at hle
      rw [amountIn, hresets, Nat.add_mul]
      omega
    | @spend v amount hcap =>
      obtain ⟨hlater, hrest⟩ := ordered_spend.mp hordered
      have hle := ih hrest (.inr hlater)
      have hresets : resets (.spend v amount :: cs) = resets cs := List.countP_cons_of_neg nofun
      rw [amountIn, hresets]
      by_cases hv : v = w
      · subst hv
        have hcarry : carry (⟨v, m.carry v + amount⟩ : Meter ω) v = m.carry v + amount :=
          if_pos rfl
        rw [hcarry] at hle
        rw [if_pos rfl]
        omega
      · have hcarry : carry (⟨v, m.carry v + amount⟩ : Meter ω) w = 0 := if_neg hv
        rw [hcarry] at hle
        rw [if_neg hv, Nat.zero_add]
        by_cases hm : m.window = w
        · rcases hpast with hused | hpast
          · have hzero : m.carry w = 0 := by rw [carry, if_pos hm, hused]
            omega
          · have hlt : w < v := by
              refine lt_of_le_of_ne ?_ (Ne.symm hv)
              rw [← hm]
              exact hpast v (by rw [filterMap_window_spend]; exact List.mem_cons_self)
            have hzero : total w cs = 0 := total_eq_zero fun u hu => hlt.trans_le (hlater u hu)
            omega
        · have hzero : m.carry w = 0 := if_neg hm
          omega

/-- In each window a run charges at most the cap, and the cap again after each reset. -/
theorem Run.total_le (h : Run cap m cs) (hordered : Ordered cs) :
    total w cs ≤ (resets cs + 1) * cap := by
  induction h with
  | nil => exact Nat.zero_le _
  | @cons m m' c cs hstep hrun ih =>
    rw [total_cons]
    cases hstep with
    | skip =>
      have hle := ih hordered
      simpa [amountIn, resets, isReset] using hle
    | reset =>
      have hle := ih hordered
      have hresets : resets (.reset :: cs) = resets cs + 1 := List.countP_cons_of_pos rfl
      rw [amountIn, hresets, Nat.add_mul (resets cs + 1)]
      omega
    | @spend v amount hcap =>
      obtain ⟨hlater, hrest⟩ := ordered_spend.mp hordered
      have hle := hrun.total_le_left (w := w) hrest (.inr hlater)
      have hresets : resets (.spend v amount :: cs) = resets cs := List.countP_cons_of_neg nofun
      rw [amountIn, hresets, Nat.add_mul]
      by_cases hv : v = w
      · have hcarry : carry (⟨v, m.carry v + amount⟩ : Meter ω) w = m.carry v + amount :=
          if_pos hv
        rw [hcarry] at hle
        rw [if_pos hv]
        omega
      · rw [if_neg hv]
        omega

end Meter

end ProjectMesh.Lib
