import ProjectMesh.Routing.Engine

namespace ProjectMesh.Routing

open ProjectMesh.Lib

variable {P : Primitives} {e r : Envelope P} {now : UInt64}

section DecrementTtl

theorem decrementTtl_eq_some_iff :
    decrementTtl e = some r ↔
      2 ≤ e.ttlHops.toNat ∧ r = { e with ttlHops := e.ttlHops - 1 } := by
  have hz : (e.ttlHops = 0) ↔ e.ttlHops.toNat = 0 := by
    rw [← UInt8.toNat_inj]
    rfl
  by_cases h₀ : e.ttlHops = 0
  · simp only [decrementTtl, if_pos h₀]
    constructor
    · rintro ⟨⟩
    · rintro ⟨hle, -⟩
      have := hz.mp h₀
      omega
  · have hpos : e.ttlHops.toNat ≠ 0 := fun h => h₀ (hz.mpr h)
    have hle : (1 : UInt8) ≤ e.ttlHops :=
      UInt8.le_iff_toNat_le.mpr (Nat.one_le_iff_ne_zero.mpr hpos)
    have hsub : (e.ttlHops - 1).toNat = e.ttlHops.toNat - 1 := UInt8.toNat_sub_of_le _ _ hle
    have hone : (e.ttlHops - 1 = 0) ↔ e.ttlHops.toNat = 1 := by
      rw [← UInt8.toNat_inj, hsub]
      have : (0 : UInt8).toNat = 0 := rfl
      omega
    by_cases h₁ : e.ttlHops - 1 = 0
    · simp only [decrementTtl, if_neg h₀, if_pos h₁]
      constructor
      · rintro ⟨⟩
      · rintro ⟨hle, -⟩
        have := hone.mp h₁
        omega
    · simp only [decrementTtl, if_neg h₀, if_neg h₁, Option.some.injEq]
      constructor
      · rintro rfl
        have : e.ttlHops.toNat ≠ 1 := fun h => h₁ (hone.mpr h)
        exact ⟨by omega, rfl⟩
      · exact fun h => h.2.symm

theorem ttlHops_decrementTtl (h : decrementTtl e = some r) :
    e.ttlHops.toNat = r.ttlHops.toNat + 1 ∧ 1 ≤ r.ttlHops.toNat := by
  obtain ⟨hle, rfl⟩ := decrementTtl_eq_some_iff.mp h
  have hone : (1 : UInt8) ≤ e.ttlHops :=
    UInt8.le_iff_toNat_le.mpr (Nat.le_trans (by decide) hle)
  have hsub : (e.ttlHops - 1).toNat = e.ttlHops.toNat - 1 := UInt8.toNat_sub_of_le _ _ hone
  simp only [hsub]
  omega

theorem id_decrementTtl (h : decrementTtl e = some r) : r.id = e.id := by
  obtain ⟨-, rfl⟩ := decrementTtl_eq_some_iff.mp h
  rfl

theorem expiresAt_decrementTtl (h : decrementTtl e = some r) : r.expiresAt = e.expiresAt := by
  obtain ⟨-, rfl⟩ := decrementTtl_eq_some_iff.mp h
  rfl

theorem decrementTtl_isSome_iff : (decrementTtl e).isSome ↔ 2 ≤ e.ttlHops.toNat := by
  rw [Option.isSome_iff_exists]
  constructor
  · rintro ⟨r, hr⟩
    exact (decrementTtl_eq_some_iff.mp hr).1
  · exact fun h => ⟨_, decrementTtl_eq_some_iff.mpr ⟨h, rfl⟩⟩

end DecrementTtl

namespace Store

variable {s : Store P} {id id' : EnvelopeId} {f : BloomFilter}

theorem get_eq_some_iff : s.get id = some e ↔ ∃ seq, s.entries.lookup id = some ⟨e, seq⟩ := by
  rw [get, Option.map_eq_some_iff]
  constructor
  · rintro ⟨entry, hentry, rfl⟩
    exact ⟨entry.insertedSeq, hentry⟩
  · rintro ⟨seq, hseq⟩
    exact ⟨_, hseq, rfl⟩

theorem id_of_get (h : s.get id = some e) : e.id = id := by
  obtain ⟨seq, hseq⟩ := get_eq_some_iff.mp h
  exact s.keyed id _ hseq

@[simp] theorem get_new {capacity : Nat} : (new P capacity).get id = none := rfl

@[simp] theorem get_insert_self : (s.insert e).get e.id = some e := by
  simp [get, insert]

theorem get_insert_of_ne (h : id ≠ e.id) : (s.insert e).get id = s.get id := by
  simp only [get, insert, Assoc.lookup_insert_of_ne h]

@[simp] theorem get_remove_self : (s.remove id).get id = none := by
  simp [get, remove, AList.lookup_erase]

theorem get_remove_of_ne (h : id ≠ id') : (s.remove id').get id = s.get id := by
  simp only [get, remove, Assoc.lookup_erase_of_ne h]

theorem get_remove (h : (s.remove id').get id = some e) : s.get id = some e := by
  by_cases hid : id = id'
  · subst hid
    rw [get_remove_self] at h
    cases h
  · rwa [get_remove_of_ne hid] at h

theorem contains_iff : s.contains id = true ↔ ∃ e, s.get id = some e := Option.isSome_iff_exists

theorem contains_eq_false_iff : s.contains id = false ↔ s.get id = none := by
  rw [contains, Option.isSome_eq_false_iff, Option.isNone_iff_eq_none]

theorem mem_envelopes_iff : e ∈ s.envelopes ↔ s.get e.id = some e := by
  rw [envelopes, List.mem_map]
  constructor
  · rintro ⟨entry, hentry, rfl⟩
    obtain ⟨id, hid⟩ := Assoc.mem_values_iff.mp hentry
    have hkey := s.keyed id entry hid
    rw [get, hkey, hid]
    rfl
  · intro h
    obtain ⟨seq, hseq⟩ := get_eq_some_iff.mp h
    exact ⟨_, Assoc.mem_values_iff.mpr ⟨_, hseq⟩, rfl⟩

theorem mem_envelopes_of_get (h : s.get id = some e) : e ∈ s.envelopes := by
  rw [← id_of_get h] at h
  exact mem_envelopes_iff.mpr h

theorem mem_missingFromBloom_iff :
    e ∈ s.missingFromBloom f ↔ s.get e.id = some e ∧ f.contains P e.id = false := by
  rw [missingFromBloom, List.mem_filter, mem_envelopes_iff, Bool.not_eq_true']

theorem mem_keys_iff : id ∈ s.entries.keys ↔ s.contains id = true := by
  rw [← AList.mem_keys, contains, get, Option.isSome_map, AList.lookup_isSome]

theorem len_insert (h : s.contains e.id = false) : (s.insert e).len = s.len + 1 := by
  refine Assoc.size_insert_of_notMem _ fun hmem => ?_
  rw [mem_keys_iff.mp (AList.mem_keys.mp hmem)] at h
  cases h

theorem map_id_envelopes (s : Store P) : s.envelopes.map Envelope.id = s.entries.keys := by
  simp only [envelopes, Assoc.values, List.map_map, AList.keys, List.keys]
  apply List.map_congr_left
  rintro ⟨id, entry⟩ hmem
  exact s.keyed id entry (Assoc.mem_entries_iff.mp hmem)

theorem nodup_envelopes : (s.envelopes.map Envelope.id).Nodup := by
  rw [map_id_envelopes]
  exact s.entries.keys_nodup

inductive Offered (s : Store P) (e : Envelope P) (now : UInt64) :
    (Accept × Option EnvelopeId) × Store P → Prop
  | duplicate : s.contains e.id = true → Offered s e now ((.duplicate, none), s)
  | expired : s.contains e.id = false → e.isExpired now = true →
    Offered s e now ((.expired, none), s)
  | ttlExhausted : s.contains e.id = false → e.isExpired now = false → e.ttlHops = 0 →
    Offered s e now ((.ttlExhausted, none), s)
  | refused : s.contains e.id = false → e.isExpired now = false → e.ttlHops ≠ 0 →
    s.capacity ≤ s.len →
    (∀ worst, s.worstEntry = some worst →
      worst.2.envelope.priority.toNat ≤ e.priority.toNat) →
    Offered s e now ((.storeFullLowerPriority, none), s)
  | overfull {worst} : s.contains e.id = false → e.isExpired now = false → e.ttlHops ≠ 0 →
    s.worstEntry = some worst → e.priority.toNat < worst.2.envelope.priority.toNat →
    s.capacity ≤ (s.remove worst.1).len →
    Offered s e now ((.storeFullLowerPriority, some worst.1), s.remove worst.1)
  | new : s.contains e.id = false → e.isExpired now = false → e.ttlHops ≠ 0 →
    s.len < s.capacity → Offered s e now ((.new, none), s.insert e)
  | replaced {worst} : s.contains e.id = false → e.isExpired now = false → e.ttlHops ≠ 0 →
    s.capacity ≤ s.len → s.worstEntry = some worst →
    e.priority.toNat < worst.2.envelope.priority.toNat →
    (s.remove worst.1).len < s.capacity →
    Offered s e now ((.new, some worst.1), (s.remove worst.1).insert e)

theorem accept_offered (s : Store P) (e : Envelope P) (now : UInt64) :
    Offered s e now (s.accept e now) := by
  rw [accept]
  split
  · next hdup => exact .duplicate hdup
  next hdup =>
  have hdup : s.contains e.id = false := Bool.eq_false_iff.mpr hdup
  split
  · next hexp => exact .expired hdup hexp
  next hexp =>
  have hexp : e.isExpired now = false := Bool.eq_false_iff.mpr hexp
  split
  · next httl => exact .ttlExhausted hdup hexp httl
  next httl =>
  rw [makeRoom]
  by_cases hfull : s.len ≥ s.capacity
  · simp only [if_pos hfull]
    cases hworst : s.worstEntry with
    | none =>
      simp only [if_pos hfull]
      exact .refused hdup hexp httl hfull fun worst h => by rw [hworst] at h; cases h
    | some worst =>
      dsimp only
      by_cases hprio : e.priority.toNat ≥ worst.2.envelope.priority.toNat
      · simp only [if_pos hprio]
        refine .refused hdup hexp httl hfull fun worst' h => ?_
        rw [hworst] at h
        cases h
        exact hprio
      · simp only [if_neg hprio]
        have hlt := Nat.not_le.mp hprio
        split
        · next hover => exact .overfull hdup hexp httl hworst hlt hover
        · next hroom =>
          exact .replaced hdup hexp httl hfull hworst hlt (Nat.not_le.mp hroom)
  · simp only [if_neg hfull]
    exact .new hdup hexp httl (Nat.not_le.mp hfull)

theorem Offered.capacity_eq {result : (Accept × Option EnvelopeId) × Store P}
    (h : Offered s e now result) : result.2.capacity = s.capacity := by
  cases h <;> rfl

theorem accept_duplicate (h : s.contains e.id = true) :
    s.accept e now = ((.duplicate, none), s) := if_pos h

theorem accept_room (hdup : s.contains e.id = false) (hexp : e.isExpired now = false)
    (httl : e.ttlHops ≠ 0) (hroom : s.len < s.capacity) :
    s.accept e now = ((.new, none), s.insert e) := by
  have hfull : ¬ s.len ≥ s.capacity := Nat.not_le.mpr hroom
  simp only [accept, hdup, hexp, Bool.false_eq_true, if_false, if_neg httl, makeRoom, if_neg hfull]

theorem get_accept (h : (s.accept e now).2.get id = some r) :
    s.get id = some r ∨ r = e ∧ id = e.id ∧ (s.accept e now).1.1 = .new := by
  have hoffered := accept_offered s e now
  generalize s.accept e now = result at h hoffered
  cases hoffered with
  | duplicate => exact .inl h
  | expired => exact .inl h
  | ttlExhausted => exact .inl h
  | refused => exact .inl h
  | overfull => exact .inl (get_remove h)
  | new =>
    by_cases hid : id = e.id
    · subst hid
      rw [get_insert_self] at h
      exact .inr ⟨(Option.some.inj h).symm, rfl, rfl⟩
    · exact .inl (get_insert_of_ne hid ▸ h)
  | replaced =>
    by_cases hid : id = e.id
    · subst hid
      rw [get_insert_self] at h
      exact .inr ⟨(Option.some.inj h).symm, rfl, rfl⟩
    · exact .inl (get_remove (get_insert_of_ne hid ▸ h))

theorem nextSeq_accept_le : (s.accept e now).2.nextSeq ≤ s.nextSeq + 1 := by
  have hoffered := accept_offered s e now
  generalize s.accept e now = result at hoffered
  cases hoffered with
  | duplicate | expired | ttlExhausted | refused | overfull => exact Nat.le_succ _
  | new | replaced => exact Nat.le_refl _

theorem live_of_accept_new (h : (s.accept e now).1.1 = .new) :
    s.contains e.id = false ∧ e.isExpired now = false ∧ e.ttlHops ≠ 0 := by
  have hoffered := accept_offered s e now
  generalize s.accept e now = result at h hoffered
  cases hoffered with
  | new hdup hexp httl => exact ⟨hdup, hexp, httl⟩
  | replaced hdup hexp httl => exact ⟨hdup, hexp, httl⟩
  | _ => cases h

theorem contains_summaryBloom (h : s.contains id = true) :
    s.summaryBloom.contains P id = true := by
  have hmem := mem_keys_iff.mpr h
  have hmono : ∀ (keys : List EnvelopeId) (f : BloomFilter), f.contains P id = true →
      (keys.foldl (·.insert P ·) f).contains P id = true := by
    intro keys
    induction keys with
    | nil => exact fun f hf => hf
    | cons key keys ih => exact fun f hf => ih _ (BloomFilter.contains_insert hf)
  have hself : ∀ (keys : List EnvelopeId) (f : BloomFilter), id ∈ keys →
      (keys.foldl (·.insert P ·) f).contains P id = true := by
    intro keys
    induction keys with
    | nil => exact fun f hf => nomatch hf
    | cons key keys ih =>
      intro f hf
      rcases List.mem_cons.mp hf with rfl | hf
      · exact hmono keys _ BloomFilter.contains_insert_self
      · exact ih _ hf
  exact hself _ _ hmem

end Store

end ProjectMesh.Routing
