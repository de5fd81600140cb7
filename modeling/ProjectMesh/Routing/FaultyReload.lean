import ProjectMesh.Routing.AtomicStore

namespace ProjectMesh.Routing.DurableStore

open ProjectMesh.Lib

variable {P : Primitives} {d d' : DurableStore P} {id id' : EnvelopeId} {ids : List EnvelopeId}
  {x : Envelope P} {now : UInt64}

/-- The records of `ids` are still to be read.  What opens under an id is an envelope of that
id, as `put` seals it. -/
structure Pending (ids : List EnvelopeId) (d : DurableStore P) : Prop where
  bounded : d.memory.Bounded
  named : ∀ id x, d.disk.record P id = .ok (some x) → x.id = id
  unread : ∀ id ∈ ids, d.memory.get id = none

def Unreadable (d : DurableStore P) (id : EnvelopeId) : Prop :=
  d.disk.ReadFails ∨ ∃ err, d.disk.record P id = .error err

/-- The disk holds `table` under the key it always had, and nothing more is due to fail. -/
structure Leaves (disk : EncryptedStore) (table : Table) (disk' : EncryptedStore) : Prop where
  table : disk'.table = table
  masterKey : disk'.masterKey = disk.masterKey
  sound : disk.Sound → disk'.Sound

theorem leaves_next (s : EncryptedStore) (table : Table) : Leaves s table (s.next table) := by
  refine ⟨rfl, rfl, fun hsound => ?_⟩
  rw [hsound.next_eq]
  exact EncryptedStore.sound_holding

inductive Reread (d : DurableStore P) (now : UInt64) (id : EnvelopeId) :
    EStateM.Result (Fault MeshError) (DurableStore P) Unit → Prop
  | lost {disk} : d.Unreadable id → ¬ d.disk.WriteFailsAt 1 →
    Leaves d.disk (d.disk.table.erase id.bytes.1) disk → Reread d now id (.ok () ⟨d.memory, disk⟩)
  | kept {disk} : d.Unreadable id → d.disk.WriteFailsAt 1 → Leaves d.disk d.disk.table disk →
    Reread d now id (.ok () ⟨d.memory, disk⟩)
  | absent {disk} : d.disk.record P id = .ok none → Leaves d.disk d.disk.table disk →
    Reread d now id (.ok () ⟨d.memory, disk⟩)
  | loaded {x disk} : ¬ d.disk.ReadFails → d.disk.record P id = .ok (some x) → x.Lives now →
    d.memory.accept x now = ((.new, none), d.memory.insert x) → Leaves d.disk d.disk.table disk →
    Reread d now id (.ok () ⟨d.memory.insert x, disk⟩)
  | replaced {x victim disk} : ¬ d.disk.ReadFails → d.disk.record P id = .ok (some x) →
    d.memory.accept x now =
      ((.new, some victim), (d.memory.remove victim).insert x) →
    ¬ d.disk.WriteFailsAt 1 → Leaves d.disk (d.disk.table.erase victim.bytes.1) disk →
    Reread d now id (.ok () ⟨(d.memory.remove victim).insert x, disk⟩)
  | replaceFails {x victim err disk} : ¬ d.disk.ReadFails → d.disk.record P id = .ok (some x) →
    d.memory.accept x now =
      ((.new, some victim), (d.memory.remove victim).insert x) →
    d.disk.WriteFailsAt 1 → Leaves d.disk d.disk.table disk →
    Reread d now id (.error (.err err) ⟨(d.memory.remove victim).insert x, disk⟩)
  | refused {x outcome disk} : ¬ d.disk.ReadFails → d.disk.record P id = .ok (some x) →
    d.memory.accept x now = ((outcome, none), d.memory) →
    (x.Lives now → outcome = .storeFullLowerPriority) → ¬ d.disk.WriteFailsAt 1 →
    Leaves d.disk (d.disk.table.erase id.bytes.1) disk → Reread d now id (.ok () ⟨d.memory, disk⟩)
  | refuseFails {err disk} : ¬ d.disk.ReadFails → d.disk.WriteFailsAt 1 →
    Leaves d.disk d.disk.table disk → Reread d now id (.error (.err err) ⟨d.memory, disk⟩)

theorem remove_leaves (s : EncryptedStore) (id : EnvelopeId) :
    (¬ s.WriteFailsAt 1 ∧ ∃ t, (EncryptedStore.remove id).run (s.next s.table) = .ok () t ∧
        Leaves s (s.table.erase id.bytes.1) t) ∨
      s.WriteFailsAt 1 ∧ ∃ err t,
        (EncryptedStore.remove id).run (s.next s.table) = .error (.err err) t ∧
          Leaves s s.table t := by
  have hread := leaves_next s s.table
  have hwrite := leaves_next (s.next s.table)
  have hfails : (s.next s.table).WriteFails ↔ s.WriteFailsAt 1 := EncryptedStore.writeFails_next
  rw [← hfails]
  by_cases h : (s.next s.table).WriteFails
  · obtain ⟨err, hrun⟩ := EncryptedStore.remove_error h id
    exact .inr ⟨h, err, _, hrun, rfl, rfl, fun hs => (hwrite _).sound (hread.sound hs)⟩
  · refine .inl ⟨h, _, EncryptedStore.remove_ok h id, rfl, rfl, fun hs => ?_⟩
    exact (hwrite _).sound (hread.sound hs)

theorem reread_unreadable {err : MeshError} (hunreadable : d.Unreadable id)
    (hget : (EncryptedStore.get P id).run d.disk = .error (.err err) (d.disk.next d.disk.table)) :
    Reread d now id ((reload now id).run d) := by
  rw [reload_unreadable hget]
  rcases remove_leaves d.disk id with ⟨hfails, t, hremove, hleft⟩ |
    ⟨hfails, err, t, hremove, hleft⟩
  · rw [hremove]
    exact .lost hunreadable hfails hleft
  · rw [hremove]
    exact .kept hunreadable hfails hleft

theorem reread_refused (hread : ¬ d.disk.ReadFails) (hrecord : d.disk.record P id = .ok (some x))
    {outcome : Accept} (hresult : d.memory.accept x now = ((outcome, none), d.memory))
    (hne : outcome ≠ .new) (hfull : x.Lives now → outcome = .storeFullLowerPriority) :
    Reread d now id ((reload now id).run d) := by
  have hget := EncryptedStore.get_ok (P := P) hread id
  rw [hrecord] at hget
  rw [reload_turnedAway hget hresult hne]
  rcases remove_leaves d.disk id with ⟨hfails, t, hremove, hleft⟩ |
    ⟨hfails, err, t, hremove, hleft⟩
  · rw [onDisk_run hremove]
    exact .refused hread hrecord hresult hfull hfails hleft
  · rw [onDisk_error hremove]
    exact .refuseFails hread hfails hleft

theorem reread_replaced (hread : ¬ d.disk.ReadFails)
    (hrecord : d.disk.record P id = .ok (some x)) {victim : EnvelopeId}
    (hresult : d.memory.accept x now =
      ((.new, some victim), (d.memory.remove victim).insert x)) :
    Reread d now id ((reload now id).run d) := by
  have hget := EncryptedStore.get_ok (P := P) hread id
  rw [hrecord] at hget
  rw [reload_evicting hget hresult]
  rcases remove_leaves d.disk victim with ⟨hfails, t, hremove, hleft⟩ |
    ⟨hfails, err, t, hremove, hleft⟩
  · rw [onDisk_run hremove]
    exact .replaced hread hrecord hresult hfails hleft
  · rw [onDisk_error hremove]
    exact .replaceFails hread hrecord hresult hfails hleft

theorem Pending.reread (h : d.Pending (id :: ids)) (now : UInt64) :
    Reread d now id ((reload now id).run d) := by
  by_cases hread : d.disk.ReadFails
  · obtain ⟨err, hget⟩ := EncryptedStore.get_error P hread id
    exact reread_unreadable (.inl hread) hget
  have hget := EncryptedStore.get_ok (P := P) hread id
  cases hrecord : d.disk.record P id with
  | error err =>
    rw [hrecord] at hget
    exact reread_unreadable (.inr ⟨err, hrecord⟩) hget
  | ok found =>
    rw [hrecord] at hget
    cases found with
    | none =>
      rw [reload_absent hget]
      exact .absent hrecord (leaves_next _ _)
    | some x =>
      have hnew : d.memory.contains x.id = false :=
        Store.contains_eq_false_iff.mpr (h.named id x hrecord ▸ h.unread id List.mem_cons_self)
      have hoffered := d.memory.accept_offered x now
      generalize hresult : d.memory.accept x now = result at hoffered
      cases hoffered with
      | duplicate hdup =>
        rw [hnew] at hdup
        cases hdup
      | expired _ hexp =>
        refine reread_refused hread hrecord hresult (by decide) fun hlives => ?_
        rw [hlives.1] at hexp
        cases hexp
      | ttlExhausted _ _ httl =>
        exact reread_refused hread hrecord hresult (by decide) fun hlives => absurd httl hlives.2
      | refused _ _ _ _ =>
        exact reread_refused hread hrecord hresult (by decide) fun _ => rfl
      | overfull _ _ _ hworst _ hover =>
        exact absurd hover (Store.Offered.not_overfull h.bounded hworst)
      | new _ hexp httl _ =>
        rw [reload_new hget hresult]
        exact .loaded hread hrecord ⟨hexp, httl⟩ hresult (leaves_next _ _)
      | replaced _ _ _ _ _ _ _ => exact reread_replaced hread hrecord hresult

def Within (disk disk' : EncryptedStore) : Prop :=
  disk'.masterKey = disk.masterKey ∧
    ∀ key ∈ disk'.table, disk'.table.lookup key = disk.table.lookup key

section Within

variable {disk disk' : EncryptedStore}

theorem Leaves.within_self (h : Leaves disk disk.table disk') : Within disk disk' :=
  ⟨h.masterKey, fun _ _ => by rw [h.table]⟩

theorem Leaves.within_erase (h : Leaves disk (disk.table.erase id.bytes.1) disk') :
    Within disk disk' := by
  refine ⟨h.masterKey, fun key hkey => ?_⟩
  rw [h.table] at hkey ⊢
  exact Assoc.lookup_erase_of_ne (AList.mem_erase.mp hkey).1

theorem Within.record (h : Within disk disk') (hmem : id.bytes.1 ∈ disk'.table) :
    disk'.record P id = disk.record P id := EncryptedStore.record_congr h.1 (h.2 _ hmem)

theorem Within.record_some (h : Within disk disk') (hx : disk'.record P id = .ok (some x)) :
    disk.record P id = .ok (some x) := by
  by_cases hmem : id.bytes.1 ∈ disk'.table
  · rw [← h.record hmem]
    exact hx
  · rw [EncryptedStore.record_eq_none_iff.mpr hmem] at hx
    cases hx

theorem Within.mem (h : Within disk disk') {key : List UInt8} (hmem : key ∈ disk'.table) :
    key ∈ disk.table := by
  rw [← AList.lookup_isSome, ← h.2 key hmem]
  exact AList.lookup_isSome.mpr hmem

end Within

theorem Reread.within {r : EStateM.Result (Fault MeshError) (DurableStore P) Unit}
    (h : Reread d now id r) : Within d.disk (Method.after r).disk := by
  cases h with
  | lost _ _ hleft => exact hleft.within_erase
  | kept _ _ hleft => exact hleft.within_self
  | absent _ hleft => exact hleft.within_self
  | loaded _ _ _ _ hleft => exact hleft.within_self
  | replaced _ _ _ _ hleft => exact hleft.within_erase
  | replaceFails _ _ _ _ hleft => exact hleft.within_self
  | refused _ _ _ _ _ hleft => exact hleft.within_erase
  | refuseFails _ _ hleft => exact hleft.within_self

theorem Reread.memory {r : EStateM.Result (Fault MeshError) (DurableStore P) Unit}
    (h : Reread d now id r) : (Method.after r).memory = d.memory ∨
      ∃ x, ¬ d.disk.ReadFails ∧ d.disk.record P id = .ok (some x) ∧
        (Method.after r).memory = (d.memory.accept x now).2 := by
  cases h with
  | lost | kept | absent | refused | refuseFails => exact .inl rfl
  | loaded hread hrecord _ hresult _ | replaced hread hrecord hresult _ _
  | replaceFails hread hrecord hresult _ _ =>
    exact .inr ⟨_, hread, hrecord, by rw [hresult]; rfl⟩

theorem Reread.pending {r : EStateM.Result (Fault MeshError) (DurableStore P) Unit}
    (hr : Reread d now id r) (h : d.Pending (id :: ids)) (hid : id ∉ ids) :
    (Method.after r).Pending ids := by
  have hnamed : ∀ id x, (Method.after r).disk.record P id = .ok (some x) → x.id = id :=
    fun id x hx => h.named id x (hr.within.record_some hx)
  rcases hr.memory with hmemory | ⟨x, -, hrecord, hmemory⟩
  · refine ⟨hmemory ▸ h.bounded, hnamed, fun id' hid' => ?_⟩
    rw [hmemory]
    exact h.unread id' (List.mem_cons_of_mem _ hid')
  · refine ⟨hmemory ▸ h.bounded.accept x now, hnamed, fun id' hid' => ?_⟩
    rw [hmemory]
    refine Option.eq_none_iff_forall_ne_some.mpr fun y hy => ?_
    rcases Store.get_accept hy with hy | ⟨rfl, rfl, -⟩
    · rw [h.unread id' (List.mem_cons_of_mem _ hid')] at hy
      cases hy
    · exact hid (h.named id _ hrecord ▸ hid')

theorem Within.refl (disk : EncryptedStore) : Within disk disk := ⟨rfl, fun _ _ => rfl⟩

theorem Within.trans {disk disk₁ disk₂ : EncryptedStore} (h : Within disk disk₁)
    (h₁ : Within disk₁ disk₂) : Within disk disk₂ :=
  ⟨h₁.1.trans h.1, fun key hkey => (h₁.2 key hkey).trans (h.2 key (h₁.mem hkey))⟩

/-- A reload leaves some of the records there were, and the index takes envelopes from the
records of their own ids. -/
theorem reloadAll_within (h : d.Pending ids) (hnodup : ids.Nodup) (now : UInt64) :
    Within d.disk (Method.after ((reloadAll now ids).run d)).disk ∧
      ∀ id x, (Method.after ((reloadAll now ids).run d)).memory.get id = some x →
        d.memory.get id = some x ∨ d.disk.record P id = .ok (some x) := by
  induction ids generalizing d with
  | nil => exact ⟨Within.refl d.disk, fun id x => .inl⟩
  | cons id ids ih =>
    obtain ⟨hid, hnodup⟩ := List.nodup_cons.mp hnodup
    have hr := h.reread now
    have hpending := hr.pending h hid
    have hget : ∀ id' x, (Method.after ((reload now id).run d)).memory.get id' = some x →
        d.memory.get id' = some x ∨ d.disk.record P id' = .ok (some x) := by
      intro id' x hx
      rcases hr.memory with hmemory | ⟨y, -, hrecord, hmemory⟩
      · exact .inl (hmemory ▸ hx)
      · rw [hmemory] at hx
        rcases Store.get_accept hx with hx | ⟨rfl, rfl, -⟩
        · exact .inl hx
        · exact .inr (h.named id x hrecord ▸ hrecord)
    have hwithin := hr.within
    rw [reloadAll, EStateM.run_bind]
    cases hrun : (reload now id).run d with
    | error e d₁ =>
      rw [hrun] at hwithin hget
      exact ⟨hwithin, hget⟩
    | ok u d₁ =>
      rw [hrun] at hwithin hget hpending
      obtain ⟨hwithin', hget'⟩ := ih hpending hnodup
      refine ⟨hwithin.trans hwithin', fun id' x hx => ?_⟩
      rcases hget' id' x hx with hx | hx
      · exact hget id' x hx
      · exact .inr (hwithin.record_some hx)

def listing : Method MeshError (DurableStore P) (List EnvelopeId) := do
  onDisk EncryptedStore.init
  onDisk EncryptedStore.allIds

theorem openStore_eq (now : UInt64) :
    (openStore now : Method MeshError (DurableStore P) Unit) = listing >>= reloadAll now := by
  rw [listing, bind_assoc]
  rfl

theorem call_leaves (s : EncryptedStore) (text : Stage → Option String) {α : Type}
    (read : Table → α) :
    (∃ t, (EncryptedStore.call text fun table => (.ok (read table), table)).run s =
        .ok (read s.table) t ∧ Leaves s s.table t) ∨
      ∃ err t, (EncryptedStore.call text fun table => (.ok (read table), table)).run s =
        .error (.err err) t ∧ Leaves s s.table t := by
  cases htext : s.db.faults.head?.join.bind text with
  | none =>
    exact .inl ⟨_, EncryptedStore.call_run_none htext rfl, leaves_next s s.table⟩
  | some why =>
    exact .inr ⟨_, _, EncryptedStore.call_run_some htext, leaves_next s s.table⟩

theorem Leaves.trans {disk disk₁ disk₂ : EncryptedStore} {table : Table}
    (h : Leaves disk disk.table disk₁) (h₁ : Leaves disk₁ table disk₂) : Leaves disk table disk₂ :=
  ⟨h₁.table, h₁.masterKey.trans h.masterKey, fun hs => h₁.sound (h.sound hs)⟩

theorem listing_run (memory : Store P) (disk : EncryptedStore) :
    (∃ disk', listing.run ⟨memory, disk⟩ = .ok (EncryptedStore.idsOf disk.table) ⟨memory, disk'⟩ ∧
        Leaves disk disk.table disk') ∨
      ∃ err disk', listing.run ⟨memory, disk⟩ = .error (.err err) ⟨memory, disk'⟩ ∧
        Leaves disk disk.table disk' := by
  have hinit : (∃ t, EncryptedStore.init.run disk = .ok () t ∧ Leaves disk disk.table t) ∨
      ∃ err t, EncryptedStore.init.run disk = .error (.err err) t ∧
        Leaves disk disk.table t := by
    rw [EncryptedStore.init, EStateM.run_bind]
    rcases call_leaves disk _ (fun _ => ()) with ⟨t, hrun, hleaves⟩ | ⟨err, t, hrun, hleaves⟩
    · rw [hrun]
      rcases call_leaves t _ (fun _ => ()) with ⟨t', hrun', hleaves'⟩ | ⟨err, t', hrun', hleaves'⟩
      · exact .inl ⟨t', hrun', hleaves.trans (hleaves.table ▸ hleaves')⟩
      · exact .inr ⟨err, t', hrun', hleaves.trans (hleaves.table ▸ hleaves')⟩
    · rw [hrun]
      exact .inr ⟨err, t, rfl, hleaves⟩
  rw [listing, EStateM.run_bind]
  rcases hinit with ⟨t, hrun, hleaves⟩ | ⟨err, t, hrun, hleaves⟩
  · rw [onDisk_run hrun]
    rcases call_leaves t _ EncryptedStore.idsOf with
      ⟨t', hrun', hleaves'⟩ | ⟨err, t', hrun', hleaves'⟩
    · rw [hleaves.table] at hrun'
      exact .inl ⟨t', onDisk_run hrun', hleaves.trans (hleaves.table ▸ hleaves')⟩
    · exact .inr ⟨err, t', onDisk_error hrun', hleaves.trans (hleaves.table ▸ hleaves')⟩
  · rw [onDisk_error hrun]
    exact .inr ⟨err, t, rfl, hleaves⟩

end ProjectMesh.Routing.DurableStore
