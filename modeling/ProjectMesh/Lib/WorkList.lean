import Mathlib.Data.Prod.Lex
import Mathlib.Logic.Hydra
import Mathlib.Order.WellFounded

universe u

namespace ProjectMesh.Lib.WorkList

open Relation

variable {β : Type u} {rank : β → Nat} {items items' new : List β} {credit credit' k : Nat}
  {item : β}

/-- Less is left to do: some credit is spent, or an item was replaced by items of lower rank. -/
def Less (rank : β → Nat) : Nat × List β → Nat × List β → Prop :=
  InvImage (Prod.Lex (· < ·) (CutExpand (· < ·)))
    fun work => (work.1, (↑(work.2.map rank) : Multiset Nat))

theorem wellFounded_less (rank : β → Nat) : WellFounded (Less rank) :=
  InvImage.wf _ (WellFounded.prod_lex Nat.lt_wfRel.wf Nat.lt_wfRel.wf.cutExpand)

theorem Less.spend (h : credit' < credit) : Less rank (credit', items') (credit, items) :=
  Prod.Lex.left _ _ h

theorem Less.replace (hk : items[k]? = some item) (h : ∀ x ∈ new, rank x < rank item) :
    Less rank (credit, items.eraseIdx k ++ new) (credit, items) := by
  obtain ⟨hlt, rfl⟩ := List.getElem?_eq_some_iff.mp hk
  refine Prod.Lex.right _ ⟨↑(new.map rank), rank items[k], ?_, ?_⟩
  · intro r hr
    obtain ⟨x, hx, rfl⟩ := List.mem_map.mp (Multiset.mem_coe.mp hr)
    exact h x hx
  · have hperm : (items[k] :: items.eraseIdx k).Perm items := List.getElem_cons_eraseIdx_perm hlt
    have hranks : (rank items[k] :: (items.eraseIdx k).map rank : Multiset Nat) =
        ↑(items.map rank) := Multiset.coe_eq_coe.mpr (hperm.map rank)
    simp only [List.map_append]
    rw [← Multiset.coe_add, ← hranks, ← Multiset.cons_coe, ← Multiset.singleton_add]
    rw [add_comm _ {rank items[k]}, add_assoc]

/-- What only ever leaves less to do does not go on for ever. -/
theorem not_forever {σ : Type u} {Step : σ → σ → Prop} (work : σ → Nat × List β)
    (h : ∀ s s', Step s s' → Less rank (work s') (work s)) (s : Nat → σ) :
    ¬ ∀ n, Step (s n) (s (n + 1)) := by
  intro hsteps
  have hwf := wellFounded_iff_isEmpty_descending_chain.mp (wellFounded_less rank)
  exact hwf.elim ⟨fun n => work (s n), fun n => h _ _ (hsteps n)⟩

end ProjectMesh.Lib.WorkList
