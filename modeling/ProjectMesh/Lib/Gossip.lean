import Mathlib.Data.List.Induction
import Mathlib.Data.Set.Insert

universe u

namespace ProjectMesh.Lib.Gossip

variable {ν : Type u}

/-- What happens to a thing that spreads: it comes up at a node, or a node asks another. -/
inductive Event (ν : Type u) : Type u
  | arise (node : ν)
  | ask (giver asker : ν)

def spread (has : Set ν) : Event ν → Set ν
  | .arise node => insert node has
  | .ask giver asker => {node | node ∈ has ∨ node = asker ∧ giver ∈ has}

/-- Events that take it to a node, each from where the one before left it. -/
inductive Path : List (Event ν) → ν → Prop
  | arise {node} : Path [.arise node] node
  | ask {path giver asker} : Path path giver → Path (path ++ [.ask giver asker]) asker

variable {events path : List (Event ν)} {event : Event ν} {node : ν} {has : Set ν}

theorem mem_spread_of_mem (h : node ∈ has) : node ∈ spread has event := by
  cases event with
  | arise other => exact Set.mem_insert_of_mem other h
  | ask giver asker => exact .inl h

theorem Path.ne_nil (h : Path path node) : path ≠ [] := by
  cases h with
  | arise => exact List.cons_ne_nil _ _
  | ask => exact List.append_ne_nil_of_right_ne_nil _ (List.cons_ne_nil _ _)

theorem Path.last (h : Path (path ++ [event]) node) :
    event = .arise node ∨ ∃ giver, event = .ask giver node ∧ Path path giver := by
  generalize hsnoc : path ++ [event] = whole at h
  cases h with
  | arise =>
    obtain ⟨-, rfl⟩ := List.append_singleton_inj.mp (hsnoc.trans (List.nil_append _).symm)
    exact .inl rfl
  | ask h =>
    obtain ⟨rfl, rfl⟩ := List.append_singleton_inj.mp hsnoc
    exact .inr ⟨_, rfl, h⟩

theorem mem_foldl_spread_iff :
    node ∈ events.foldl spread ∅ ↔ ∃ path, path.Sublist events ∧ Path path node := by
  induction events using List.reverseRecOn generalizing node with
  | nil =>
    refine iff_of_false (Set.notMem_empty node) ?_
    rintro ⟨path, hnil, hpath⟩
    exact hpath.ne_nil (List.sublist_nil.mp hnil)
  | append_singleton events event ih =>
    rw [List.foldl_append, List.foldl_cons, List.foldl_nil]
    constructor
    · intro h
      have hold : node ∈ events.foldl spread ∅ →
          ∃ path, path.Sublist (events ++ [event]) ∧ Path path node := fun h => by
        obtain ⟨path, hsub, hpath⟩ := ih.mp h
        exact ⟨path, hsub.trans (List.sublist_append_left _ _), hpath⟩
      cases event with
      | arise other =>
        rcases h with rfl | h
        · exact ⟨[.arise node], List.sublist_append_right _ _, .arise⟩
        · exact hold h
      | ask giver asker =>
        rcases h with h | ⟨rfl, h⟩
        · exact hold h
        · obtain ⟨path, hsub, hpath⟩ := ih.mp h
          exact ⟨path ++ [.ask giver node], hsub.append (.refl _), hpath.ask⟩
    · rintro ⟨path, hsub, hpath⟩
      obtain ⟨front, last, rfl, hfront, hlast⟩ := List.sublist_append_iff.mp hsub
      rcases List.sublist_cons_iff.mp hlast with hnil | ⟨rest, rfl, hnil⟩
      · rw [List.sublist_nil.mp hnil, List.append_nil] at hpath
        exact mem_spread_of_mem (ih.mpr ⟨front, hfront, hpath⟩)
      · rw [List.sublist_nil.mp hnil] at hpath
        rcases hpath.last with rfl | ⟨giver, rfl, hgiver⟩
        · exact Set.mem_insert _ _
        · exact .inr ⟨rfl, ih.mpr ⟨front, hfront, hgiver⟩⟩

end ProjectMesh.Lib.Gossip
