import ProjectMesh.Crypto.Ladder

namespace ProjectMesh.Crypto.Ratchet

open ProjectMesh.Lib

variable {C : Suite}

def Message.slot (m : Message C) : C.Public × Nat := (m.header.dhPub, m.header.n.toNat)

def Message.OpensWith (m : Message C) (mk : C.Key) : Prop :=
  openMessage mk m.header m.ciphertext = .ok m.plaintext

def SlotsDistinct (msgs : List (Message C)) : Prop :=
  ∀ (i j : Nat) (m m' : Message C), msgs[i]? = some m → msgs[j]? = some m' →
    m.slot = m'.slot → i = j

def missing (frontier : Nat) (delivered : Finset Nat) : Finset Nat :=
  Finset.range frontier \ delivered

theorem mem_missing {frontier i : Nat} {delivered : Finset Nat} :
    i ∈ missing frontier delivered ↔ i < frontier ∧ i ∉ delivered := by
  simp [missing]

theorem card_missing_add {frontier : Nat} {delivered : Finset Nat}
    (h : ∀ i ∈ delivered, i < frontier) (k : Nat) :
    (missing (frontier + k) delivered).card = (missing frontier delivered).card + k := by
  induction k with
  | zero => rfl
  | succ k ih =>
    have hnew : frontier + k ∉ missing (frontier + k) delivered := by simp [mem_missing]
    have hins : missing (frontier + (k + 1)) delivered =
        insert (frontier + k) (missing (frontier + k) delivered) := by
      ext i
      rw [Finset.mem_insert, mem_missing, mem_missing]
      constructor
      · rintro ⟨hi, hd⟩
        rcases Nat.lt_succ_iff_lt_or_eq.mp hi with hi | rfl
        · exact .inr ⟨hi, hd⟩
        · exact .inl rfl
      · rintro (rfl | ⟨hi, hd⟩)
        · exact ⟨by omega, fun hd => absurd (h _ hd) (by omega)⟩
        · exact ⟨by omega, hd⟩
    rw [hins, Finset.card_insert_of_notMem hnew, ih, Nat.add_assoc]

theorem missing_insert_frontier (frontier : Nat) (delivered : Finset Nat) :
    missing (frontier + 1) (insert frontier delivered) = missing frontier delivered := by
  ext i
  rw [mem_missing, mem_missing, Finset.mem_insert]
  constructor
  · rintro ⟨hi, hd⟩
    exact ⟨by omega, fun h => hd (.inr h)⟩
  · rintro ⟨hi, hd⟩
    exact ⟨by omega, by rintro (rfl | h) <;> [omega; exact hd h]⟩

theorem missing_insert_of_mem {frontier i : Nat} {delivered : Finset Nat}
    (h : i ∈ missing frontier delivered) :
    (missing frontier (insert i delivered)).card + 1 = (missing frontier delivered).card := by
  have herase : missing frontier (insert i delivered) =
      (missing frontier delivered).erase i := by
    ext j
    rw [Finset.mem_erase, mem_missing, mem_missing, Finset.mem_insert]
    tauto
  rw [herase, Finset.card_erase_add_one h]

structure Stored (msgs : List (Message C)) (frontier : Nat) (delivered : Finset Nat)
    (skipped : SkippedKeys C) : Prop where
  stored : ∀ (i : Nat) (m : Message C), msgs[i]? = some m → i ∈ missing frontier delivered →
    ∃ mk, skipped.lookup m.slot = some mk ∧ m.OpensWith mk
  onlyStored : ∀ key ∈ skipped, ∃ (i : Nat) (m : Message C), msgs[i]? = some m ∧
    i ∈ missing frontier delivered ∧ key = m.slot
  size : Assoc.size skipped = (missing frontier delivered).card

namespace Stored

variable {msgs : List (Message C)} {frontier i k n : Nat} {delivered : Finset Nat}
  {skipped : SkippedKeys C} {m : Message C} {remote : C.Public} {chain : C.Key}

theorem lookup_of_notMem_missing (h : Stored msgs frontier delivered skipped)
    (hslots : SlotsDistinct msgs) (hi : msgs[i]? = some m)
    (hm : i ∉ missing frontier delivered) : skipped.lookup m.slot = none := by
  rw [AList.lookup_eq_none]
  intro hmem
  obtain ⟨j, m', hj, hjm, heq⟩ := h.onlyStored _ hmem
  rw [hslots i j m m' hi hj heq] at hm
  exact hm hjm

theorem append (h : Stored msgs frontier delivered skipped) (hle : frontier ≤ msgs.length)
    (more : List (Message C)) : Stored (msgs ++ more) frontier delivered skipped where
  stored i m hi hm := by
    have hlt := (mem_missing.mp hm).1
    rw [List.getElem?_append_left (by omega)] at hi
    exact h.stored i m hi hm
  onlyStored key hkey := by
    obtain ⟨i, m, hi, hm, heq⟩ := h.onlyStored key hkey
    have hlt := (mem_missing.mp hm).1
    exact ⟨i, m, by rw [List.getElem?_append_left (by omega)]; exact hi, hm, heq⟩
  size := h.size

theorem take (h : Stored msgs frontier delivered skipped) (hslots : SlotsDistinct msgs)
    (hi : msgs[i]? = some m) (hm : i ∈ missing frontier delivered) :
    Stored msgs frontier (insert i delivered) (skipped.erase m.slot) where
  stored j m' hj hjm := by
    rw [mem_missing, Finset.mem_insert, not_or] at hjm
    obtain ⟨hlt, hne, hd⟩ := hjm
    obtain ⟨mk, hl, hopen⟩ := h.stored j m' hj (mem_missing.mpr ⟨hlt, hd⟩)
    refine ⟨mk, ?_, hopen⟩
    rw [Assoc.lookup_erase_of_ne fun heq => hne (hslots j i m' m hj hi heq), hl]
  onlyStored key hkey := by
    obtain ⟨hne, hmem⟩ := AList.mem_erase.mp hkey
    obtain ⟨j, m', hj, hjm, rfl⟩ := h.onlyStored key hmem
    refine ⟨j, m', hj, ?_, rfl⟩
    rw [mem_missing] at hjm ⊢
    refine ⟨hjm.1, fun hins => ?_⟩
    rcases Finset.mem_insert.mp hins with rfl | hd
    · rw [hi] at hj
      cases hj
      exact hne rfl
    · exact hjm.2 hd
  size := by
    obtain ⟨mk, hl, -⟩ := h.stored i m hi hm
    have herase := Assoc.size_erase_of_mem (Assoc.mem_of_lookup hl)
    have hcard := missing_insert_of_mem hm
    have hsize := h.size
    omega

theorem arrive (h : Stored msgs frontier delivered skipped) :
    Stored msgs (frontier + 1) (insert frontier delivered) skipped where
  stored i m hi hm := h.stored i m hi (by rwa [missing_insert_frontier] at hm)
  onlyStored key hkey := by
    rw [missing_insert_frontier]
    exact h.onlyStored key hkey
  size := by
    rw [missing_insert_frontier]
    exact h.size

def Ahead (msgs : List (Message C)) (frontier : Nat) (remote : C.Public) (chain : C.Key)
    (n k : Nat) : Prop :=
  ∀ j < k, ∃ m, msgs[frontier + j]? = some m ∧ m.slot = (remote, n + j) ∧
    m.OpensWith (messageKeyAt chain j)

theorem notMem_of_ahead (h : Stored msgs frontier delivered skipped)
    (hslots : SlotsDistinct msgs) (hahead : Ahead msgs frontier remote chain n k) :
    ∀ j < k, (remote, n + j) ∉ skipped := by
  intro j hj
  obtain ⟨m, hm, hslot, -⟩ := hahead j hj
  rw [← hslot]
  refine Assoc.notMem_of_lookup (h.lookup_of_notMem_missing hslots hm ?_)
  simp [mem_missing]

theorem stash (h : Stored msgs frontier delivered skipped) (hslots : SlotsDistinct msgs)
    (hbelow : ∀ i ∈ delivered, i < frontier)
    (hahead : Ahead msgs frontier remote chain n k) :
    Stored msgs (frontier + k) delivered (stash remote chain n k skipped) where
  stored i m hi hm := by
    obtain ⟨hlt, hd⟩ := mem_missing.mp hm
    by_cases hold : i < frontier
    · obtain ⟨mk, hl, hopen⟩ := h.stored i m hi (mem_missing.mpr ⟨hold, hd⟩)
      refine ⟨mk, ?_, hopen⟩
      rw [lookup_stash_of_ne, hl]
      intro j hj heq
      obtain ⟨m', hm', hslot, -⟩ := hahead j hj
      have := hslots i (frontier + j) m m' hi hm' (heq.trans hslot.symm)
      omega
    · obtain ⟨m', hm', hslot, hopen⟩ := hahead (i - frontier) (by omega)
      rw [Nat.add_sub_cancel' (Nat.not_lt.mp hold), hi] at hm'
      cases hm'
      refine ⟨_, ?_, hopen⟩
      rw [hslot]
      exact lookup_stash_of_lt (by omega)
  onlyStored key hkey := by
    rcases mem_stash.mp hkey with ⟨j, hj, rfl⟩ | hmem
    · obtain ⟨m, hm, hslot, -⟩ := hahead j hj
      refine ⟨frontier + j, m, hm, mem_missing.mpr ⟨by omega, fun hd => ?_⟩, hslot.symm⟩
      have := hbelow _ hd
      omega
    · obtain ⟨i, m, hi, hm, heq⟩ := h.onlyStored key hmem
      obtain ⟨hlt, hd⟩ := mem_missing.mp hm
      exact ⟨i, m, hi, mem_missing.mpr ⟨by omega, hd⟩, heq⟩
  size := by
    rw [size_stash (h.notMem_of_ahead hslots hahead), h.size, card_missing_add hbelow]

end Stored

theorem Stored.room {s : DoubleRatchet C} {msgs : List (Message C)} {frontier k : Nat}
    {delivered : Finset Nat} {remote : C.Public} {chain : C.Key}
    (h : Stored msgs frontier delivered s.skipped) (hslots : SlotsDistinct msgs)
    (hahead : Ahead msgs frontier remote chain s.recvN k)
    (hcard : (missing frontier delivered).card + k ≤ maxSkip) : Room s remote chain k := by
  intro j hj
  have hnot := h.notMem_of_ahead hslots hahead
  rw [size_stash fun i hi => hnot i (by omega), h.size]
  omega

end ProjectMesh.Crypto.Ratchet
