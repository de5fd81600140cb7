import ProjectMesh.Lib.Selection
import ProjectMesh.Routing.EngineLaws

namespace ProjectMesh.Routing

open ProjectMesh.Lib

namespace Store

variable {P : Primitives} {s : Store P} {e x : Envelope P} {id id' : EnvelopeId} {now : UInt64}

section Worst

theorem worstKeyLe_iff {x y : Entry P} :
    worstKeyLe x y = true ↔ x.envelope.priority.toNat < y.envelope.priority.toNat ∨
      x.envelope.priority = y.envelope.priority ∧ y.insertedSeq ≤ x.insertedSeq :=
  decide_eq_true_iff

theorem worstKeyLe_refl (x : Entry P) : worstKeyLe x x = true :=
  worstKeyLe_iff.mpr (.inr ⟨rfl, Nat.le_refl _⟩)

theorem worstKeyLe_total {x y : Entry P} (h : worstKeyLe x y = false) : worstKeyLe y x = true := by
  have hnot := Bool.eq_false_iff.mp h
  rw [Ne, worstKeyLe_iff, not_or, not_and_or] at hnot
  rw [worstKeyLe_iff]
  rcases Nat.lt_or_eq_of_le (Nat.not_lt.mp hnot.1) with hlt | heq
  · exact .inl hlt
  · refine .inr ⟨Priority.toNat_injective heq, ?_⟩
    exact Nat.le_of_lt (Nat.not_le.mp (hnot.2.resolve_left fun hne =>
      hne (Priority.toNat_injective heq.symm)))

theorem worstKeyLe_trans {x y z : Entry P} (hxy : worstKeyLe x y = true)
    (hyz : worstKeyLe y z = true) : worstKeyLe x z = true := by
  rw [worstKeyLe_iff] at hxy hyz ⊢
  rcases hxy with hxy | ⟨hxy, hseq⟩
  · rcases hyz with hyz | ⟨hyz, -⟩
    · exact .inl (hxy.trans hyz)
    · exact .inl (hyz ▸ hxy)
  · rcases hyz with hyz | ⟨hyz, hseq'⟩
    · exact .inl (hxy ▸ hyz)
    · exact .inr ⟨hxy.trans hyz, hseq'.trans hseq⟩

theorem priority_le_of_worstKeyLe {x y : Entry P} (h : worstKeyLe x y = true) :
    x.envelope.priority.toNat ≤ y.envelope.priority.toNat := by
  rcases worstKeyLe_iff.mp h with h | ⟨h, -⟩
  · exact Nat.le_of_lt h
  · rw [h]

theorem ne_sos_of_lt {p q : Priority} (h : p.toNat < q.toNat) : q ≠ .sos := by
  rintro rfl
  exact Nat.not_lt_zero _ h

/-- `max_by_key` is a fold that keeps the worse of two entries. -/
theorem worstEntry_eq_foldl : ∃ step, (∀ s : Store P,
      s.worstEntry = s.entries.entries.foldl step none) ∧
    KeepsGreater (fun x y : (_ : EnvelopeId) × Entry P => worstKeyLe x.2 y.2 = true) step := by
  refine ⟨_, fun s => rfl, fun x => worstKeyLe_refl x.2, fun _ _ _ => worstKeyLe_trans,
    fun _ => rfl, fun w x => ?_⟩
  dsimp only
  cases h : worstKeyLe w.2 x.2 with
  | true => exact .inl ⟨rfl, rfl⟩
  | false => exact .inr ⟨rfl, worstKeyLe_total h⟩

theorem lookup_worstEntry {worst : (_ : EnvelopeId) × Entry P} (h : s.worstEntry = some worst) :
    s.entries.lookup worst.1 = some worst.2 := by
  obtain ⟨step, hfold, hstep⟩ := worstEntry_eq_foldl (P := P)
  exact Assoc.mem_entries_iff.mp (hstep.foldl_none (hfold s ▸ h)).1

theorem get_worstEntry {worst : (_ : EnvelopeId) × Entry P} (h : s.worstEntry = some worst) :
    s.get worst.1 = some worst.2.envelope := get_eq_some_iff.mpr ⟨_, lookup_worstEntry h⟩

theorem contains_worstEntry {worst : (_ : EnvelopeId) × Entry P} (h : s.worstEntry = some worst) :
    s.contains worst.1 = true := contains_iff.mpr ⟨_, get_worstEntry h⟩

theorem worstKeyLe_worstEntry {worst : (_ : EnvelopeId) × Entry P} {entry : Entry P}
    (h : s.worstEntry = some worst) (hentry : s.entries.lookup id = some entry) :
    worstKeyLe entry worst.2 = true := by
  obtain ⟨step, hfold, hstep⟩ := worstEntry_eq_foldl (P := P)
  exact (hstep.foldl_none (hfold s ▸ h)).2 ⟨id, entry⟩ (Assoc.mem_entries_iff.mpr hentry)

theorem worstEntry_eq_none (h : s.worstEntry = none) : s.len = 0 := by
  obtain ⟨step, hfold, hstep⟩ := worstEntry_eq_foldl (P := P)
  have hnil : s.entries.entries = [] := hstep.foldl_eq_none (hfold s ▸ h)
  rw [len, Assoc.size, hnil]
  rfl

end Worst

section Selection

variable {prio : EnvelopeId → Priority} {seen : Finset EnvelopeId}

def heldIds (s : Store P) : Finset EnvelopeId := s.entries.keys.toFinset

@[simp] theorem mem_heldIds : id ∈ s.heldIds ↔ s.contains id = true := by
  rw [heldIds, List.mem_toFinset, mem_keys_iff]

theorem card_heldIds : s.heldIds.card = s.len := by
  rw [len, Assoc.size_eq_card, heldIds]

theorem contains_insert : (s.insert e).contains id = true ↔ id = e.id ∨ s.contains id = true := by
  by_cases hid : id = e.id
  · subst hid
    simp [contains]
  · rw [contains, get_insert_of_ne hid, or_iff_right hid, contains]

theorem contains_remove : (s.remove id').contains id = true ↔ id ≠ id' ∧ s.contains id = true := by
  by_cases hid : id = id'
  · subst hid
    simp [contains]
  · rw [contains, get_remove_of_ne hid, and_iff_right hid, contains]

theorem heldIds_insert : (s.insert e).heldIds = Insert.insert e.id s.heldIds := by
  ext id
  rw [mem_heldIds, contains_insert, Finset.mem_insert, mem_heldIds]

theorem heldIds_remove : (s.remove id).heldIds = s.heldIds.erase id := by
  ext id'
  rw [mem_heldIds, contains_remove, Finset.mem_erase, mem_heldIds]

def Ranked (prio : EnvelopeId → Priority) (s : Store P) : Prop :=
  ∀ id x, s.get id = some x → x.priority = prio id

def urgency (prio : EnvelopeId → Priority) (id : EnvelopeId) : Nat := (prio id).toNat

theorem Ranked.accept (h : Ranked prio s) (he : e.priority = prio e.id) :
    Ranked prio (s.accept e now).2 := by
  intro id x hx
  rcases get_accept hx with hx | ⟨rfl, rfl, -⟩
  · exact h id x hx
  · exact he

theorem Ranked.urgency_le {worst : (_ : EnvelopeId) × Entry P} (h : Ranked prio s)
    (hworst : s.worstEntry = some worst) (hid : id ∈ s.heldIds) :
    urgency prio id ≤ urgency prio worst.1 ∧
      urgency prio worst.1 = worst.2.envelope.priority.toNat := by
  have hget := get_worstEntry hworst
  obtain ⟨x, hx⟩ := contains_iff.mp (mem_heldIds.mp hid)
  obtain ⟨seq, hseq⟩ := get_eq_some_iff.mp hx
  have hle := priority_le_of_worstKeyLe (worstKeyLe_worstEntry hworst hseq)
  rw [urgency, urgency, ← h id x hx, ← h worst.1 _ hget]
  exact ⟨hle, rfl⟩

def seenAfter (seen : Finset EnvelopeId) (e : Envelope P) (answer : Accept) :
    Finset EnvelopeId :=
  if answer = .new then Insert.insert e.id seen else seen

theorem Offered.selects {result : (Accept × Option EnvelopeId) × Store P}
    (h : Offered s e now result) (hranked : Ranked prio s) (he : e.priority = prio e.id)
    (hsel : Selects (urgency prio) s.capacity seen s.heldIds) :
    Selects (urgency prio) s.capacity (seenAfter seen e result.1.1) result.2.heldIds ∧
      (result.1.1 = .new → e.id ∉ seen) := by
  have hnotHeld : s.contains e.id = false → e.id ∉ s.heldIds := fun hdup hmem =>
    Bool.eq_false_iff.mp hdup (mem_heldIds.mp hmem)
  cases h with
  | duplicate | expired | ttlExhausted | refused => exact ⟨hsel, nofun⟩
  | overfull hdup hexp httl hworst hlt hover =>
    refine ⟨?_, nofun⟩
    rw [← card_heldIds, heldIds_remove] at hover
    rw [heldIds_remove]
    exact hsel.erase_last (fun x hx => (hranked.urgency_le hworst hx).1) hover
  | new hdup hexp httl hroom =>
    rw [← card_heldIds] at hroom
    refine ⟨?_, fun _ => ?_⟩
    · rw [heldIds_insert]
      exact hsel.insert_room hroom
    · rw [← hsel.room hroom]
      exact hnotHeld hdup
  | @replaced worst hdup hexp httl hfull hworst hlt hroom =>
    have hmem : worst.1 ∈ s.heldIds := mem_heldIds.mpr (contains_worstEntry hworst)
    have hurgency := (hranked.urgency_le hworst hmem).2
    have hlast : urgency prio e.id < urgency prio worst.1 := by
      rw [hurgency, urgency, ← he]
      exact hlt
    rw [← card_heldIds] at hfull
    refine ⟨?_, fun _ hseen => ?_⟩
    · rw [heldIds_insert, heldIds_remove]
      exact hsel.replace hmem (fun x hx => (hranked.urgency_le hworst hx).1) hfull
        (hnotHeld hdup) hlast.le
    · exact absurd ((hsel.left_out hseen (hnotHeld hdup)).2 worst.1 hmem) (Nat.not_le.mpr hlast)

end Selection

end Store

end ProjectMesh.Routing
