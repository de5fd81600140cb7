import Mathlib.Data.List.AList
import Mathlib.Data.Finset.Card

universe u v

namespace ProjectMesh.Lib

variable {α : Type u} [DecidableEq α] {β : Type v}

/-- A hash map: what it holds, in the order its iterator happens to visit it. -/
abbrev Assoc (α : Type u) [DecidableEq α] (β : Type v) := AList (fun _ : α => β)

namespace Assoc

def size (m : Assoc α β) : Nat := m.entries.length

def values (m : Assoc α β) : List β := m.entries.map (·.2)

@[simp] theorem size_empty : size (∅ : Assoc α β) = 0 := rfl

theorem size_eq_card (m : Assoc α β) : size m = m.keys.toFinset.card := by
  rw [List.toFinset_card_of_nodup m.keys_nodup]
  simp [size, AList.keys, List.keys]

theorem size_insert_of_notMem {m : Assoc α β} {a : α} (b : β) (h : a ∉ m) :
    size (m.insert a b) = size m + 1 := by
  rw [size, AList.entries_insert_of_notMem h, List.length_cons, size]

theorem size_insert_le (m : Assoc α β) (a : α) (b : β) : size (m.insert a b) ≤ size m + 1 := by
  rw [size, AList.entries_insert, List.length_cons, size]
  exact Nat.succ_le_succ (List.kerase_sublist a m.entries).length_le

theorem size_erase_le (m : Assoc α β) (a : α) : size (m.erase a) ≤ size m :=
  (List.kerase_sublist a m.entries).length_le

theorem size_erase_of_mem {m : Assoc α β} {a : α} (h : a ∈ m) :
    size (m.erase a) + 1 = size m := by
  have hk : a ∈ m.keys := AList.mem_keys.mp h
  have hlen : 0 < m.keys.length := List.length_pos_of_mem hk
  have hsize : ∀ n : Assoc α β, size n = n.keys.length := fun n => by
    simp [size, AList.keys, List.keys]
  rw [hsize, hsize, AList.keys_erase, List.length_erase_of_mem hk]
  omega

theorem size_le_of_subset {m n : Assoc α β} (h : ∀ a, a ∈ m → a ∈ n) :
    size m ≤ size n := by
  rw [size_eq_card, size_eq_card]
  apply Finset.card_le_card
  intro a ha
  rw [List.mem_toFinset] at ha ⊢
  exact AList.mem_keys.mp (h a (AList.mem_keys.mpr ha))

theorem lookup_erase_of_ne {m : Assoc α β} {a b : α} (h : a ≠ b) :
    (m.erase b).lookup a = m.lookup a := AList.lookup_erase_ne h

theorem lookup_insert_of_ne {m : Assoc α β} {a b : α} {c : β} (h : a ≠ b) :
    (m.insert b c).lookup a = m.lookup a := AList.lookup_insert_ne h

theorem mem_of_lookup {m : Assoc α β} {a : α} {b : β} (h : m.lookup a = some b) : a ∈ m := by
  rw [← AList.lookup_isSome, h]
  rfl

theorem notMem_of_lookup {m : Assoc α β} {a : α} (h : m.lookup a = none) : a ∉ m :=
  AList.lookup_eq_none.mp h

theorem mem_entries_iff {m : Assoc α β} {a : α} {b : β} :
    ⟨a, b⟩ ∈ m.entries ↔ m.lookup a = some b := AList.mem_lookup_iff.symm

theorem mem_values_iff {m : Assoc α β} {b : β} :
    b ∈ values m ↔ ∃ a, m.lookup a = some b := by
  simp only [values, List.mem_map]
  constructor
  · rintro ⟨⟨a, c⟩, hmem, rfl⟩
    exact ⟨a, mem_entries_iff.mp hmem⟩
  · rintro ⟨a, h⟩
    exact ⟨⟨a, b⟩, mem_entries_iff.mpr h, rfl⟩

theorem values_insert (m : Assoc α β) (a : α) (b : β) :
    values (m.insert a b) = b :: values (m.erase a) := by
  rw [values, AList.entries_insert]
  rfl

theorem values_erase_sublist (m : Assoc α β) (a : α) : (values (m.erase a)).Sublist (values m) :=
  (List.kerase_sublist a m.entries).map _

theorem values_perm_of_lookup {m : Assoc α β} {a : α} {b : β} (h : m.lookup a = some b) :
    (values m).Perm (b :: values (m.erase a)) := by
  have hkey : a ∈ m.entries.keys := mem_of_lookup h
  obtain ⟨c, l₁, l₂, -, hentries, herase⟩ := List.exists_of_kerase hkey
  have hmem : ⟨a, c⟩ ∈ m.entries := by
    rw [hentries]
    exact List.mem_append_right _ List.mem_cons_self
  obtain rfl : b = c := Option.some.inj (h.symm.trans (mem_entries_iff.mp hmem))
  have hvalues : values (m.erase a) = (l₁ ++ l₂).map (·.2) := congrArg (List.map _) herase
  rw [hvalues, values, hentries, List.map_append, List.map_append, List.map_cons]
  exact List.perm_middle

theorem entries_foldl_insert {pairs : List (α × β)} (hnodup : (pairs.map Prod.fst).Nodup)
    {m : Assoc α β} (hnew : ∀ kv ∈ pairs, kv.1 ∉ m) :
    (pairs.foldl (fun m kv => m.insert kv.1 kv.2) m).entries =
      (pairs.map fun kv => (⟨kv.1, kv.2⟩ : Sigma fun _ : α => β)).reverse ++ m.entries := by
  induction pairs generalizing m with
  | nil => rfl
  | cons kv pairs ih =>
    obtain ⟨hkv, hnodup⟩ := List.nodup_cons.mp hnodup
    have hstep := ih hnodup (m := m.insert kv.1 kv.2) fun kv' hmem hin => by
      rcases AList.mem_insert _ |>.mp hin with heq | hin
      · exact hkv (heq ▸ List.mem_map_of_mem hmem)
      · exact hnew kv' (List.mem_cons_of_mem _ hmem) hin
    rw [List.foldl_cons, hstep, AList.entries_insert_of_notMem (hnew kv List.mem_cons_self),
      List.map_cons, List.reverse_cons, List.append_assoc]
    rfl

end Assoc

end ProjectMesh.Lib
