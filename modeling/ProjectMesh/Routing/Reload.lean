import ProjectMesh.Routing.DurableMirror

namespace ProjectMesh.Routing

open ProjectMesh.Lib

variable {P : Primitives}

def Envelope.Lives (e : Envelope P) (now : UInt64) : Prop :=
  e.isExpired now = false ∧ e.ttlHops ≠ 0

instance (e : Envelope P) (now : UInt64) : Decidable (e.Lives now) :=
  inferInstanceAs (Decidable (_ ∧ _))

/-- What a reload at `now` takes from the record of an id when there is room. -/
def EncryptedStore.loadable (P : Primitives) (s : EncryptedStore) (now : UInt64)
    (id : EnvelopeId) : Option (Envelope P) :=
  match s.record P id with
  | .ok (some x) => if x.Lives now then some x else none
  | _ => none

namespace EncryptedStore

variable {s t : EncryptedStore} {id : EnvelopeId} {x : Envelope P} {now : UInt64}

theorem loadable_eq_some_iff :
    s.loadable P now id = some x ↔ s.record P id = .ok (some x) ∧ x.Lives now := by
  rw [loadable]
  split
  · next y hrecord =>
    rw [hrecord]
    split
    · next hlives =>
      constructor
      · intro h
        cases h
        exact ⟨rfl, hlives⟩
      · rintro ⟨h, -⟩
        cases h
        rfl
    · next hdead =>
      constructor
      · intro h
        cases h
      · rintro ⟨h, hlives⟩
        cases h
        exact absurd hlives hdead
  · next hrecord =>
    constructor
    · intro h
      cases h
    · exact fun h => absurd h.1 (hrecord x)

theorem loadable_congr (h : t.record P id = s.record P id) :
    t.loadable P now id = s.loadable P now id := by
  rw [loadable, loadable, h]

end EncryptedStore

namespace Store

variable {s : Store P} {id : EnvelopeId} {x : Envelope P} {xs : List (Envelope P)}

@[simp] theorem capacity_foldl_insert : (xs.foldl insert s).capacity = s.capacity := by
  induction xs generalizing s with
  | nil => rfl
  | cons x xs ih => exact ih

theorem get_foldl_insert (hnodup : (xs.map Envelope.id).Nodup) (h : x ∈ xs) :
    (xs.foldl insert s).get x.id = some x := by
  induction xs using List.reverseRecOn with
  | nil => cases h
  | append_singleton xs y ih =>
    rw [List.map_append, List.map_singleton, List.nodup_append] at hnodup
    rw [List.foldl_append, List.foldl_cons, List.foldl_nil, get_insert_eq]
    rcases List.mem_append.mp h with h | h
    · have hne : x.id ≠ y.id :=
        hnodup.2.2 _ (List.mem_map_of_mem h) _ (List.mem_singleton_self _)
      rw [if_neg hne]
      exact ih hnodup.1 h
    · rw [List.mem_singleton.mp h, if_pos rfl]

theorem get_foldl_insert_of_notMem (h : id ∉ xs.map Envelope.id) :
    (xs.foldl insert s).get id = s.get id := by
  induction xs generalizing s with
  | nil => rfl
  | cons y xs ih =>
    rw [List.map_cons, List.mem_cons, not_or] at h
    rw [List.foldl_cons, ih h.2, get_insert_of_ne h.1]

end Store

namespace DurableStore

variable {d : DurableStore P} {id : EnvelopeId} {ids rest : List EnvelopeId} {now : UInt64}

theorem reload_room (hsound : d.disk.Sound) (h : d.Agrees (id :: rest)) (hid : id ∉ rest)
    (hroom : d.memory.len < d.memory.capacity) (now : UInt64) :
    ∃ d', (reload now id).run d = .ok () d' ∧ d'.Agrees rest ∧ d'.disk.Sound ∧
      d'.memory = (d.disk.loadable P now id).toList.foldl Store.insert d.memory ∧
      ∀ id' ∈ rest, d'.disk.record P id' = d.disk.record P id' := by
  obtain ⟨d', hrun, hreloaded⟩ := reload_run hsound h now
  obtain ⟨hagrees, hsound', -, -, -⟩ := hreloaded.agrees h hid
  refine ⟨d', hrun, hagrees, hsound', ?_⟩
  have herase : ∀ id' ∈ rest,
      (d.disk.holding (d.disk.table.erase id.bytes.1)).record P id' = d.disk.record P id' := by
    intro id' hid'
    have hne : id' ≠ id := fun heq => hid (heq ▸ hid')
    rw [EncryptedStore.record_erase, if_neg hne]
  have hnone : (∀ x, d.disk.record P id = .ok (some x) → ¬ x.Lives now) →
      d.disk.loadable P now id = none := fun h =>
    Option.eq_none_iff_forall_ne_some.mpr fun x hx =>
      h x (EncryptedStore.loadable_eq_some_iff.mp hx).1
        (EncryptedStore.loadable_eq_some_iff.mp hx).2
  cases hreloaded with
  | unreadable hrecord =>
    rw [hnone (by simp [hrecord])]
    exact ⟨rfl, herase⟩
  | absent hrecord =>
    rw [hnone (by simp [hrecord])]
    exact ⟨rfl, fun id' _ => EncryptedStore.record_holding⟩
  | dropped hrecord hdead =>
    rw [hnone]
    · exact ⟨rfl, herase⟩
    · rintro x hx ⟨hlive, hhops⟩
      rw [hrecord] at hx
      cases hx
      exact Nat.not_le.mpr hroom (hdead hlive hhops)
  | loaded hrecord hlive hhops =>
    rw [EncryptedStore.loadable_eq_some_iff.mpr ⟨hrecord, hlive, hhops⟩]
    exact ⟨rfl, fun id' _ => EncryptedStore.record_holding⟩
  | replaced _ hfull => exact absurd hfull (Nat.not_le.mpr hroom)

theorem len_foldl_insert_toList (o : Option (Envelope P)) (s : Store P)
    (h : ∀ x, o = some x → s.contains x.id = false) :
    (o.toList.foldl Store.insert s).len ≤ s.len + 1 := by
  cases o with
  | none => exact Nat.le_succ _
  | some x => exact Nat.le_of_eq (Store.len_insert (h x rfl))

theorem reloadAll_room (hnodup : ids.Nodup) (hsound : d.disk.Sound) (h : d.Agrees ids)
    (hroom : d.memory.len + ids.length ≤ d.memory.capacity) (now : UInt64) :
    ∃ d', (reloadAll now ids).run d = .ok () d' ∧ d'.Agrees [] ∧ d'.disk.Sound ∧
      d'.memory = (ids.filterMap (d.disk.loadable P now)).foldl Store.insert d.memory := by
  induction ids generalizing d with
  | nil => exact ⟨d, rfl, h, hsound, rfl⟩
  | cons id ids ih =>
    obtain ⟨hid, hnodup⟩ := List.nodup_cons.mp hnodup
    rw [List.length_cons] at hroom
    obtain ⟨d₁, hrun, hagrees, hsound₁, hmemory, hrecords⟩ :=
      reload_room hsound h hid (by omega) now
    have hlen : d₁.memory.len ≤ d.memory.len + 1 := by
      rw [hmemory]
      refine len_foldl_insert_toList _ _ fun x hx => Store.contains_eq_false_iff.mpr ?_
      rw [h.named id x (EncryptedStore.loadable_eq_some_iff.mp hx).1]
      exact h.unread id List.mem_cons_self
    have hcapacity : d₁.memory.capacity = d.memory.capacity := by
      rw [hmemory, Store.capacity_foldl_insert]
    obtain ⟨d', hrun', hagrees', hsound', hmemory'⟩ := ih hnodup hsound₁ hagrees (by omega)
    refine ⟨d', Method.run_bind_ok.mpr ⟨(), d₁, hrun, hrun'⟩, hagrees', hsound', ?_⟩
    have hloadable : ids.filterMap (d₁.disk.loadable P now) =
        ids.filterMap (d.disk.loadable P now) :=
      List.filterMap_congr fun id' hid' => EncryptedStore.loadable_congr (hrecords id' hid')
    rw [hmemory', hloadable, hmemory]
    cases hload : d.disk.loadable P now id with
    | none => rw [List.filterMap_cons_none hload, Option.toList_none, List.foldl_nil]
    | some x => rw [List.filterMap_cons_some hload, Option.toList_some, List.foldl_cons,
        List.foldl_cons, List.foldl_nil]

def loads (P : Primitives) (disk : EncryptedStore) (now : UInt64) : List (Envelope P) :=
  (EncryptedStore.idsOf disk.table).filterMap (disk.loadable P now)

/-- A disk as this program writes it, no larger than the index. -/
structure Orderly (P : Primitives) (disk : EncryptedStore) (capacity : Nat) : Prop where
  tidy : ∀ key ∈ disk.table, key.length = 32
  named : ∀ id (x : Envelope P), disk.record P id = .ok (some x) → x.id = id
  size_le : Assoc.size disk.table ≤ capacity

section Orderly

variable {disk : EncryptedStore} {capacity : Nat} {x : Envelope P}

theorem length_idsOf_le (table : Table) :
    (EncryptedStore.idsOf table).length ≤ Assoc.size table := by
  refine (List.length_filterMap_le _ _).trans ?_
  rw [EncryptedStore.sortedKeys, List.length_insertionSort, Assoc.size, AList.keys, List.keys,
    List.length_map]

theorem Orderly.mem_loads (h : Orderly P disk capacity) :
    x ∈ loads P disk now ↔ disk.loadable P now x.id = some x := by
  rw [loads, List.mem_filterMap]
  constructor
  · rintro ⟨id, -, hx⟩
    rwa [h.named id x (EncryptedStore.loadable_eq_some_iff.mp hx).1]
  · intro hx
    refine ⟨x.id, EncryptedStore.mem_idsOf.mpr (Decidable.not_not.mp fun hmem => ?_), hx⟩
    have hrecord := (EncryptedStore.loadable_eq_some_iff.mp hx).1
    rw [EncryptedStore.record_eq_none_iff.mpr hmem] at hrecord
    cases hrecord

theorem Orderly.nodup_loads (h : Orderly P disk capacity) :
    ((loads P disk now).map Envelope.id).Nodup := by
  rw [loads, List.map_filterMap]
  have hself : ∀ id id', id' ∈ (disk.loadable P now id).map Envelope.id → id' = id := by
    intro id id' hmem
    obtain ⟨x, hx, rfl⟩ := Option.map_eq_some_iff.mp hmem
    exact h.named id x (EncryptedStore.loadable_eq_some_iff.mp hx).1
  exact (EncryptedStore.nodup_idsOf disk.table).filterMap fun id id' j hj hj' =>
    (hself id j hj).symm.trans (hself id' j hj')

theorem Orderly.get_foldl_loads (h : Orderly P disk capacity) (id : EnvelopeId) :
    ((loads P disk now).foldl Store.insert (Store.new P capacity)).get id =
      disk.loadable P now id := by
  cases hload : disk.loadable P now id with
  | some x =>
    have hid := h.named id x (EncryptedStore.loadable_eq_some_iff.mp hload).1
    rw [← hid] at hload ⊢
    exact Store.get_foldl_insert h.nodup_loads (h.mem_loads.mpr hload)
  | none =>
    refine Store.get_foldl_insert_of_notMem fun hmem => ?_
    obtain ⟨x, hx, rfl⟩ := List.mem_map.mp hmem
    rw [h.mem_loads.mp hx] at hload
    cases hload

theorem Orderly.openStore_run (h : Orderly P disk capacity) (hsound : disk.Sound) (now : UInt64) :
    ∃ d', (openStore now).run ⟨Store.new P capacity, disk⟩ = .ok () d' ∧ d'.Agrees [] ∧
      d'.disk.Sound ∧ d'.memory = (loads P disk now).foldl Store.insert (Store.new P capacity) := by
  obtain ⟨d', hrun, hagrees, hsound', hmemory⟩ := reloadAll_room
    (EncryptedStore.nodup_idsOf disk.table) EncryptedStore.sound_holding
    (agrees_idsOf h.tidy h.named capacity)
    ((Nat.zero_add _).trans_le ((length_idsOf_le _).trans h.size_le)) now
  refine ⟨d', (openStore_eq_reloadAll hsound _ now).trans hrun, hagrees, hsound', ?_⟩
  rw [hmemory]
  rfl

theorem Agrees.size_eq (h : d.Agrees []) : Assoc.size d.disk.table = d.memory.len := by
  have hkeys : d.disk.table.keys.toFinset = d.memory.heldIds.image fun id => id.bytes.1 := by
    ext key
    rw [List.mem_toFinset, AList.mem_keys.symm, (mirrors_iff.mpr h).ids, Finset.mem_image]
    simp only [Store.mem_heldIds]
  rw [Assoc.size_eq_card, hkeys, ← Store.card_heldIds]
  exact Finset.card_image_of_injective _ fun id id' => EncryptedStore.key_injective

theorem Agrees.orderly (h : d.Agrees []) : Orderly P d.disk d.memory.capacity where
  tidy := h.tidy
  named := h.named
  size_le := h.size_eq.trans_le h.bounded

end Orderly

end DurableStore

end ProjectMesh.Routing
