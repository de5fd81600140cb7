import Mathlib.Data.Finset.Card
import ProjectMesh.Crypto.RatchetLaws
import ProjectMesh.Crypto.RatchetPair

namespace ProjectMesh.Crypto.Ratchet

open ProjectMesh.Lib

variable {C : Suite}

structure Rung (C : Suite) where
  secret : C.Secret
  root : C.Key
  chain : C.Key

/-- The ratchet keys of both sides in the order they were generated, with the root and the
sending chain each one started: even rungs are the responder's, odd ones the
initiator's.  `len t` messages have been sent on the chain of rung `t`. -/
structure Ladder (C : Suite) where
  rung : Nat → Rung C
  len : Nat → Nat

namespace Ladder

variable (L : Ladder C)

def pub (t : Nat) : C.Public := C.publicKey (L.rung t).secret

def prevLen : Nat → Nat
  | 0 => 0
  | 1 => 0
  | t + 2 => L.len t

def offset : Nat → Nat
  | 0 => 0
  | 1 => 0
  | t + 2 => offset t + L.len t

def header (t n : Nat) : Header C :=
  { dhPub := L.pub t, pn := .ofNat (L.prevLen t), n := .ofNat n }

def messageKey (t n : Nat) : C.Key := messageKeyAt (L.rung t).chain n

variable {L} {s t m n i top : Nat}

theorem offset_add_len_le (s k : Nat) : L.offset s + L.len s ≤ L.offset (s + 2 * (k + 1)) := by
  induction k with
  | zero => exact Nat.le_refl _
  | succ k ih =>
    have hnext : s + 2 * (k + 1 + 1) = s + 2 * (k + 1) + 2 := by omega
    rw [hnext, offset]
    omega

theorem offset_add_len_le_of_lt (hlt : s < t) (hpar : s % 2 = t % 2) :
    L.offset s + L.len s ≤ L.offset t := by
  obtain ⟨k, rfl⟩ : ∃ k, t = s + 2 * (k + 1) := ⟨(t - s) / 2 - 1, by omega⟩
  exact offset_add_len_le s k

theorem exists_slot (L : Ladder C) : ∀ (t : Nat) {i : Nat}, i < L.offset t + L.len t →
    ∃ s ≤ t, s % 2 = t % 2 ∧ ∃ n < L.len s, i = L.offset s + n
  | 0, i, h => ⟨0, Nat.le_refl _, rfl, i, by simpa [offset] using h, by simp [offset]⟩
  | 1, i, h => ⟨1, Nat.le_refl _, rfl, i, by simpa [offset] using h, by simp [offset]⟩
  | t + 2, i, h => by
    by_cases hlt : i < L.offset t + L.len t
    · obtain ⟨s, hs, hpar, hn⟩ := exists_slot L t hlt
      exact ⟨s, by omega, by omega, hn⟩
    · rw [offset] at h
      exact ⟨t + 2, Nat.le_refl _, rfl, i - L.offset (t + 2), by rw [offset]; omega,
        by rw [offset]; omega⟩

/-- The rungs up to `top` hang together: each root and chain come from the root before, and
the keys are different points. -/
structure Linked (L : Ladder C) (top : Nat) : Prop where
  step : ∀ t < top, kdfRk (L.rung t).root (C.diffieHellman (L.rung (t + 1)).secret (L.pub t)) =
    ((L.rung (t + 1)).root, (L.rung (t + 1)).chain)
  distinct : ∀ s ≤ top, ∀ t ≤ top, s ≠ t → C.samePoint (L.pub s) (L.pub t) = false

theorem Linked.pub_inj (hC : C.Lawful) (h : L.Linked top) (hs : s ≤ top) (ht : t ≤ top)
    (heq : L.pub s = L.pub t) : s = t := by
  by_contra hne
  have hd := h.distinct s hs t ht hne
  rw [heq, hC.samePoint_refl] at hd
  cases hd

variable (L) in
def extend (top : Nat) (fresh : C.Secret) : Ladder C :=
  let next := kdfRk (L.rung top).root (C.diffieHellman fresh (L.pub top))
  { L with rung := Function.update L.rung (top + 1) ⟨fresh, next.1, next.2⟩ }

variable (L) in
def sendOn (t : Nat) : Ladder C :=
  { L with len := Function.update L.len t (L.len t + 1) }

theorem extend_rung {fresh : C.Secret} (ht : t ≤ top) :
    (L.extend top fresh).rung t = L.rung t :=
  Function.update_of_ne (by omega) _ _

theorem extend_rung_top {fresh : C.Secret} :
    (L.extend top fresh).rung (top + 1) =
      ⟨fresh, (kdfRk (L.rung top).root (C.diffieHellman fresh (L.pub top))).1,
        (kdfRk (L.rung top).root (C.diffieHellman fresh (L.pub top))).2⟩ :=
  Function.update_self _ _ _

@[simp] theorem extend_len {fresh : C.Secret} : (L.extend top fresh).len = L.len := rfl

theorem extend_pub {fresh : C.Secret} (ht : t ≤ top) :
    (L.extend top fresh).pub t = L.pub t := by
  rw [pub, extend_rung ht, pub]

theorem extend_pub_top {fresh : C.Secret} :
    (L.extend top fresh).pub (top + 1) = C.publicKey fresh := by
  rw [pub, extend_rung_top]

@[simp] theorem extend_prevLen {fresh : C.Secret} :
    (L.extend top fresh).prevLen t = L.prevLen t := by
  cases t with
  | zero => rfl
  | succ t => cases t <;> rfl

@[simp] theorem extend_offset (L : Ladder C) (top : Nat) (fresh : C.Secret) :
    ∀ t, (L.extend top fresh).offset t = L.offset t
  | 0 => rfl
  | 1 => rfl
  | t + 2 => by rw [offset, offset, extend_offset L top fresh t, extend_len]

structure Grows (L' L : Ladder C) (top top' : Nat) : Prop where
  le : top ≤ top'
  rung : ∀ t ≤ top, L'.rung t = L.rung t
  len : L'.len = L.len

theorem Grows.refl (L : Ladder C) (top : Nat) : L.Grows L top top :=
  ⟨Nat.le_refl _, fun _ _ => rfl, rfl⟩

theorem Grows.extend (L : Ladder C) (top : Nat) (fresh : C.Secret) :
    (L.extend top fresh).Grows L top (top + 1) :=
  ⟨Nat.le_succ _, fun _ ht => extend_rung ht, rfl⟩

theorem Grows.trans {L₁ L₂ : Ladder C} {top₁ top₂ : Nat} (h₁ : L₁.Grows L top top₁)
    (h₂ : L₂.Grows L₁ top₁ top₂) : L₂.Grows L top top₂ :=
  ⟨Nat.le_trans h₁.le h₂.le,
    fun t ht => (h₂.rung t (Nat.le_trans ht h₁.le)).trans (h₁.rung t ht),
    h₂.len.trans h₁.len⟩

theorem Grows.pub {L' : Ladder C} {top' : Nat} (h : L'.Grows L top top') (ht : t ≤ top) :
    L'.pub t = L.pub t := by
  rw [Ladder.pub, h.rung t ht, Ladder.pub]

theorem Linked.extend (hC : C.Lawful) (h : L.Linked top) {fresh : C.Secret}
    (hfresh : ∀ t ≤ top, C.samePoint (L.pub t) (C.publicKey fresh) = false) :
    (L.extend top fresh).Linked (top + 1) where
  step t ht := by
    rcases Nat.lt_succ_iff_lt_or_eq.mp ht with ht | rfl
    · rw [extend_rung (by omega), extend_rung ht, extend_pub (by omega)]
      exact h.step t ht
    · rw [extend_rung (Nat.le_refl _), extend_rung_top, extend_pub (Nat.le_refl _)]
  distinct s hs t ht hne := by
    rcases Nat.le_succ_iff.mp hs with hs' | rfl
    · rcases Nat.le_succ_iff.mp ht with ht' | rfl
      · rw [extend_pub hs', extend_pub ht']
        exact h.distinct s hs' t ht' hne
      · rw [extend_pub hs', extend_pub_top]
        exact hfresh s hs'
    · have ht' : t ≤ top := by omega
      rw [extend_pub ht', extend_pub_top, hC.samePoint_symm]
      exact hfresh t ht'

theorem sendOn_len_of_ne (h : s ≠ t) : (L.sendOn t).len s = L.len s :=
  Function.update_of_ne h _ _

@[simp] theorem sendOn_len_self : (L.sendOn t).len t = L.len t + 1 :=
  Function.update_self _ _ _

theorem le_sendOn_len : L.len s ≤ (L.sendOn t).len s := by
  by_cases h : s = t
  · subst h
    rw [sendOn_len_self]
    exact Nat.le_succ _
  · rw [sendOn_len_of_ne h]

theorem sendOn_prevLen (h : s ≤ t + 1) : (L.sendOn t).prevLen s = L.prevLen s := by
  match s with
  | 0 => rfl
  | 1 => rfl
  | s + 2 => exact sendOn_len_of_ne (by omega)

theorem sendOn_offset (L : Ladder C) : ∀ {s : Nat}, s ≤ t + 1 →
    (L.sendOn t).offset s = L.offset s
  | 0, _ => rfl
  | 1, _ => rfl
  | s + 2, h => by
    rw [offset, offset, sendOn_offset L (by omega), sendOn_len_of_ne (by omega)]

end Ladder

end ProjectMesh.Crypto.Ratchet
