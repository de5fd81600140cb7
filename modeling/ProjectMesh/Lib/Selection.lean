import Mathlib.Data.Finset.Card
import Mathlib.Data.Multiset.Sort
import Mathlib.Data.Finset.Union

universe u v

namespace ProjectMesh.Lib

section Greatest

variable {β : Type u} {le : β → β → Prop} {step : Option β → β → Option β} {w : β} {l : List β}

structure KeepsGreater (le : β → β → Prop) (step : Option β → β → Option β) : Prop where
  refl : ∀ x, le x x
  trans : ∀ x y z, le x y → le y z → le x z
  first : ∀ x, step none x = some x
  later : ∀ w x, step (some w) x = some x ∧ le w x ∨ step (some w) x = some w ∧ le x w

theorem KeepsGreater.foldl_some (h : KeepsGreater le step) (l : List β) (w : β) :
    ∃ g, l.foldl step (some w) = some g ∧ (g = w ∨ g ∈ l) ∧ le w g ∧ ∀ x ∈ l, le x g := by
  induction l generalizing w with
  | nil => exact ⟨w, rfl, .inl rfl, h.refl w, fun x hx => absurd hx List.not_mem_nil⟩
  | cons y l ih =>
    rcases h.later w y with ⟨hstep, hle⟩ | ⟨hstep, hle⟩
    · obtain ⟨g, hfold, hmem, hyg, hall⟩ := ih y
      refine ⟨g, by rw [List.foldl_cons, hstep, hfold], .inr ?_, h.trans w y g hle hyg, ?_⟩
      · exact List.mem_cons.mpr hmem
      · exact List.forall_mem_cons.mpr ⟨hyg, hall⟩
    · obtain ⟨g, hfold, hmem, hwg, hall⟩ := ih w
      refine ⟨g, by rw [List.foldl_cons, hstep, hfold], ?_, hwg, ?_⟩
      · exact hmem.imp_right (List.mem_cons_of_mem y)
      · exact List.forall_mem_cons.mpr ⟨h.trans y w g hle hwg, hall⟩

theorem KeepsGreater.foldl_none (h : KeepsGreater le step) (hfold : l.foldl step none = some w) :
    w ∈ l ∧ ∀ x ∈ l, le x w := by
  cases l with
  | nil => cases hfold
  | cons y l =>
    obtain ⟨g, hfold', hmem, hyg, hall⟩ := h.foldl_some l y
    rw [List.foldl_cons, h.first, hfold'] at hfold
    cases hfold
    exact ⟨List.mem_cons.mpr hmem, List.forall_mem_cons.mpr ⟨hyg, hall⟩⟩

theorem KeepsGreater.foldl_eq_none (h : KeepsGreater le step) (hfold : l.foldl step none = none) :
    l = [] := by
  cases l with
  | nil => rfl
  | cons y l =>
    obtain ⟨g, hfold', -⟩ := h.foldl_some l y
    rw [List.foldl_cons, h.first, hfold'] at hfold
    cases hfold

end Greatest

variable {α : Type u} {κ : Type v} [LinearOrder κ] {key : α → κ} {k : Nat}
  {offered held : Finset α} {a w : α}

/-- What is held of all that was offered: everything while there is room, and then nothing
that comes behind something left out. -/
structure Selects (key : α → κ) (k : Nat) (offered held : Finset α) : Prop where
  subset : held ⊆ offered
  room : held.card < k → held = offered
  least : ∀ x ∈ held, ∀ y ∈ offered, y ∉ held → key x ≤ key y

def leastOf (k : Nat) (m : Multiset κ) : Multiset κ := (m.sort (· ≤ ·)).take k

namespace Selects

theorem refl : Selects key k held held where
  subset := Finset.Subset.refl _
  room _ := rfl
  least _ _ _ hy hn := absurd hy hn

theorem left_out (h : Selects key k offered held) (ha : a ∈ offered) (hn : a ∉ held) :
    k ≤ held.card ∧ ∀ x ∈ held, key x ≤ key a := by
  refine ⟨Nat.not_lt.mp fun hroom => hn ?_, fun x hx => h.least x hx a ha hn⟩
  rw [h.room hroom]
  exact ha

theorem card_eq (h : Selects key k offered held) (hcard : held.card ≤ k) :
    held.card = min k offered.card := by
  rcases Nat.lt_or_ge held.card k with hroom | hfull
  · rw [← h.room hroom]
    omega
  · have hle := Finset.card_le_card h.subset
    omega

theorem sort_add {s t : Multiset κ} (h : ∀ x ∈ s, ∀ y ∈ t, x ≤ y) :
    (s + t).sort (· ≤ ·) = s.sort (· ≤ ·) ++ t.sort (· ≤ ·) := by
  apply List.Perm.eq_of_pairwise' (r := (· ≤ ·)) ((s + t).pairwise_sort _)
  · rw [List.pairwise_append]
    refine ⟨s.pairwise_sort _, t.pairwise_sort _, fun x hx y hy => ?_⟩
    exact h x ((Multiset.mem_sort _).mp hx) y ((Multiset.mem_sort _).mp hy)
  · apply Multiset.coe_eq_coe.mp
    rw [← Multiset.coe_add, Multiset.sort_eq, Multiset.sort_eq, Multiset.sort_eq]

variable [DecidableEq α]

theorem insert_room (h : Selects key k offered held) (hroom : held.card < k) :
    Selects key k (insert a offered) (insert a held) := by
  rw [h.room hroom]
  exact refl

theorem insert_held (h : Selects key k offered held) (ha : a ∈ offered) :
    Selects key k (insert a offered) held := by
  rwa [Finset.insert_eq_of_mem ha]

theorem insert_left_out (h : Selects key k offered held) (hfull : k ≤ held.card)
    (hle : ∀ x ∈ held, key x ≤ key a) : Selects key k (insert a offered) held where
  subset := h.subset.trans (Finset.subset_insert _ _)
  room hroom := absurd hroom (Nat.not_lt.mpr hfull)
  least x hx y hy hn := by
    rcases Finset.mem_insert.mp hy with rfl | hy
    · exact hle x hx
    · exact h.least x hx y hy hn

theorem erase_last (h : Selects key k offered held)
    (hlast : ∀ x ∈ held, key x ≤ key w) (hfull : k ≤ (held.erase w).card) :
    Selects key k offered (held.erase w) where
  subset := (Finset.erase_subset _ _).trans h.subset
  room hroom := absurd hroom (Nat.not_lt.mpr hfull)
  least x hx y hy hn := by
    by_cases hyw : y = w
    · exact hyw ▸ hlast x (Finset.mem_of_mem_erase hx)
    · exact h.least x (Finset.mem_of_mem_erase hx) y hy fun hy =>
        hn (Finset.mem_erase.mpr ⟨hyw, hy⟩)

theorem replace (h : Selects key k offered held) (hw : w ∈ held)
    (hlast : ∀ x ∈ held, key x ≤ key w) (hfull : k ≤ held.card) (ha : a ∉ held)
    (hle : key a ≤ key w) : Selects key k (insert a offered) (insert a (held.erase w)) where
  subset := Finset.insert_subset_insert _ ((Finset.erase_subset _ _).trans h.subset)
  room hroom := by
    have hcard : (insert a (held.erase w)).card = held.card := by
      rw [Finset.card_insert_of_notMem fun hmem => ha (Finset.mem_of_mem_erase hmem),
        Finset.card_erase_add_one hw]
    exact absurd (hcard ▸ hroom) (Nat.not_lt.mpr hfull)
  least x hx y hy hn := by
    have hy : y ∈ offered :=
      Finset.mem_of_mem_insert_of_ne hy fun hya => hn (hya ▸ Finset.mem_insert_self _ _)
    have hwy : key w ≤ key y := by
      by_cases hyw : y = w
      · rw [hyw]
      · refine h.least w hw y hy fun hy => hn ?_
        exact Finset.mem_insert_of_mem (Finset.mem_erase.mpr ⟨hyw, hy⟩)
    rcases Finset.mem_insert.mp hx with rfl | hx
    · exact hle.trans hwy
    · exact (hlast x (Finset.mem_of_mem_erase hx)).trans hwy

/-- The keys held are the least of the keys offered. -/
theorem map_eq_leastOf (h : Selects key k offered held) (hcard : held.card ≤ k) :
    held.val.map key = leastOf k (offered.val.map key) := by
  have hsplit : offered.val.map key = held.val.map key + (offered \ held).val.map key := by
    rw [← Multiset.map_add, Finset.sdiff_val,
      add_tsub_cancel_of_le (Finset.val_le_iff.mpr h.subset)]
  have hsorted : ∀ x ∈ held.val.map key, ∀ y ∈ (offered \ held).val.map key, x ≤ y := by
    intro _ hkx _ hky
    obtain ⟨x, hx, rfl⟩ := Multiset.mem_map.mp hkx
    obtain ⟨y, hmem, rfl⟩ := Multiset.mem_map.mp hky
    obtain ⟨hy, hn⟩ := Finset.mem_sdiff.mp (Finset.mem_val.mp hmem)
    exact h.least x hx y hy hn
  have hlength : ((held.val.map key).sort (· ≤ ·)).length = held.card := by
    rw [Multiset.length_sort, Multiset.card_map, Finset.card_val]
  rw [leastOf, hsplit, sort_add hsorted]
  rcases Nat.lt_or_ge held.card k with hroom | hfull
  · have hnil : ((offered \ held).val.map key).sort (· ≤ ·) = [] := by
      rw [h.room hroom, Finset.sdiff_self]
      exact Multiset.sort_zero _
    rw [hnil, List.append_nil, List.take_of_length_le (hlength.trans_le hcard),
      Multiset.sort_eq]
  · rw [List.take_left' (hlength.trans (Nat.le_antisymm hcard hfull)), Multiset.sort_eq]

end Selects

end ProjectMesh.Lib
