import ProjectMesh.Routing.FaultyReload

namespace ProjectMesh.Routing.DurableStore

open ProjectMesh.Lib

variable {P : Primitives} {d d' : DurableStore P} {id id' : EnvelopeId} {ids : List EnvelopeId}
  {x : Envelope P} {now : UInt64}

/-- The record does not open or parse under the master key, or its envelope has expired or no
hops are left. -/
def Dead (P : Primitives) (disk : EncryptedStore) (now : UInt64) (id : EnvelopeId) : Prop :=
  (∃ err, disk.record P id = .error err) ∨
    ∃ x : Envelope P, disk.record P id = .ok (some x) ∧ ¬ x.Lives now

def displacedBy (d : DurableStore P) (now : UInt64) (id : EnvelopeId) : List EnvelopeId :=
  match (EncryptedStore.get P id).run d.disk with
  | .ok (some x) _ =>
    let answer := (d.memory.accept x now).1
    answer.2.toList ++ if answer.1 = .storeFullLowerPriority then [id] else []
  | .ok none _ | .error _ _ => []

def displaced (now : UInt64) : DurableStore P → List EnvelopeId → List EnvelopeId
  | _, [] => []
  | d, id :: ids => d.displacedBy now id ++
    match (reload now id).run d with
    | .ok _ d' => displaced now d' ids
    | .error _ _ => []

def RemovesDead (d : DurableStore P) (now : UInt64) (ids : List EnvelopeId) : Prop :=
  ∀ key ∈ d.disk.table, key ∉ (Method.after ((reloadAll now ids).run d)).disk.table →
    ∃ id, id.bytes.1 = key ∧ (Dead P d.disk now id ∨ id ∈ displaced now d ids)

def Spares (d : DurableStore P) (now : UInt64) (id : EnvelopeId) : Prop :=
  ∀ x : Envelope P, d.disk.record P id = .ok (some x) → x.Lives now → d.disk.ReadFails →
    d.disk.WriteFailsAt 1

def SparesLive (now : UInt64) : DurableStore P → List EnvelopeId → Prop
  | _, [] => True
  | d, id :: ids =>
    d.Spares now id ∧ ∀ d', (reload now id).run d = .ok () d' → SparesLive now d' ids

section DisplacedBy

theorem displacedBy_unreadable (h : d.Unreadable id) : d.displacedBy now id = [] := by
  by_cases hread : d.disk.ReadFails
  · obtain ⟨err, hget⟩ := EncryptedStore.get_error P hread id
    rw [displacedBy, hget]
  · obtain ⟨err, herror⟩ := h.resolve_left hread
    rw [displacedBy, EncryptedStore.get_ok hread, herror]

theorem displacedBy_absent (h : d.disk.record P id = .ok none) : d.displacedBy now id = [] := by
  by_cases hread : d.disk.ReadFails
  · exact displacedBy_unreadable (.inl hread)
  · rw [displacedBy, EncryptedStore.get_ok hread, h]

theorem displacedBy_offered (hread : ¬ d.disk.ReadFails)
    (hrecord : d.disk.record P id = .ok (some x)) {outcome : Accept} {evicted : Option EnvelopeId}
    {memory : Store P} (hresult : d.memory.accept x now = ((outcome, evicted), memory)) :
    d.displacedBy now id =
      evicted.toList ++ if outcome = .storeFullLowerPriority then [id] else [] := by
  rw [displacedBy, EncryptedStore.get_ok hread, hrecord]
  simp only [hresult]

end DisplacedBy

section Step

variable {r : EStateM.Result (Fault MeshError) (DurableStore P) Unit}

theorem Unreadable.dead (h : d.Unreadable id) (hread : ¬ d.disk.ReadFails) :
    Dead P d.disk now id := .inl (h.resolve_left hread)

theorem Reread.removed (hr : Reread d now id r) {key : List UInt8} (hmem : key ∈ d.disk.table)
    (hgone : key ∉ (Method.after r).disk.table) :
    ∃ id', id'.bytes.1 = key ∧ (id' ∈ d.displacedBy now id ∨
      id' = id ∧ (Dead P d.disk now id ∨ d.disk.ReadFails ∧ ¬ d.disk.WriteFailsAt 1)) := by
  have herased : ∀ {victim : EnvelopeId} {disk}, Leaves d.disk
      (d.disk.table.erase victim.bytes.1) disk → key ∉ disk.table → victim.bytes.1 = key := by
    intro victim disk hleaves hgone
    rw [hleaves.table, AList.mem_erase, not_and, not_imp_comm] at hgone
    exact (hgone fun hnot => hnot hmem).symm
  have hsame : ∀ {disk}, Leaves d.disk d.disk.table disk → key ∈ disk.table :=
    fun hleaves => hleaves.table ▸ hmem
  cases hr with
  | lost hunreadable hwrite hleaves =>
    refine ⟨id, herased hleaves hgone, .inr ⟨rfl, ?_⟩⟩
    by_cases hread : d.disk.ReadFails
    · exact .inr ⟨hread, hwrite⟩
    · exact .inl (hunreadable.dead hread)
  | kept _ _ hleaves | absent _ hleaves | loaded _ _ _ _ hleaves
  | replaceFails _ _ _ _ hleaves | refuseFails _ _ hleaves => exact absurd (hsame hleaves) hgone
  | replaced hread hrecord hresult _ hleaves =>
    refine ⟨_, herased hleaves hgone, .inl ?_⟩
    rw [displacedBy_offered hread hrecord hresult]
    exact List.mem_append_left _ (List.mem_singleton_self _)
  | @refused x outcome disk hread hrecord hresult hfull _ hleaves =>
    refine ⟨id, herased hleaves hgone, ?_⟩
    by_cases hlives : x.Lives now
    · rw [displacedBy_offered hread hrecord hresult, if_pos (hfull hlives)]
      exact .inl (List.mem_append_right _ (List.mem_singleton_self _))
    · exact .inr ⟨rfl, .inl (.inr ⟨x, hrecord, hlives⟩)⟩

theorem Reread.unread (hr : Reread d now id r) (hrecord : d.disk.record P id = .ok (some x))
    (hread : d.disk.ReadFails) (hwrite : ¬ d.disk.WriteFailsAt 1) :
    ∃ d', r = .ok () d' ∧ d'.memory = d.memory ∧ id.bytes.1 ∉ d'.disk.table := by
  cases hr with
  | lost _ _ hleaves =>
    refine ⟨_, rfl, rfl, ?_⟩
    rw [hleaves.table, AList.mem_erase]
    exact fun h => h.1 rfl
  | kept _ hfails _ => exact absurd hfails hwrite
  | absent habsent _ =>
    rw [hrecord] at habsent
    cases habsent
  | loaded hok _ _ _ _ | replaced hok _ _ _ _ | replaceFails hok _ _ _ _ | refused hok _ _ _ _ _
  | refuseFails hok _ _ => exact absurd hread hok

theorem Reread.displaced (hr : Reread d now id (.ok () d')) (h : id' ∈ d.displacedBy now id) :
    id'.bytes.1 ∉ d'.disk.table := by
  have herased : ∀ {victim : EnvelopeId} {disk}, Leaves d.disk
      (d.disk.table.erase victim.bytes.1) disk → victim.bytes.1 ∉ disk.table := by
    intro victim disk hleaves
    rw [hleaves.table, AList.mem_erase]
    exact fun h => h.1 rfl
  cases hr with
  | lost hunreadable | kept hunreadable =>
    rw [displacedBy_unreadable hunreadable] at h
    cases h
  | absent habsent =>
    rw [displacedBy_absent habsent] at h
    cases h
  | loaded hread hrecord _ hresult =>
    rw [displacedBy_offered hread hrecord hresult] at h
    cases h
  | replaced hread hrecord hresult _ hleaves =>
    rw [displacedBy_offered hread hrecord hresult, if_neg (by decide), List.append_nil] at h
    rw [List.mem_singleton.mp h]
    exact herased hleaves
  | refused hread hrecord hresult _ _ hleaves =>
    rw [displacedBy_offered hread hrecord hresult, Option.toList_none, List.nil_append] at h
    split at h
    · rw [List.mem_singleton.mp h]
      exact herased hleaves
    · cases h

theorem Pending.mem_displacedBy (h : d.Pending (id :: ids))
    (hmem : id' ∈ d.displacedBy now id) : id' = id ∨ d.memory.get id' ≠ none := by
  rw [displacedBy] at hmem
  split at hmem
  next x disk hget =>
    have hoffered := d.memory.accept_offered x now
    generalize d.memory.accept x now = result at hmem hoffered
    have hworst : ∀ {worst}, d.memory.worstEntry = some worst → d.memory.get worst.1 ≠ none :=
      fun hworst hnone => by
        have hheld := Store.contains_worstEntry hworst
        rw [Store.contains_eq_false_iff.mpr hnone] at hheld
        cases hheld
    cases hoffered with
    | duplicate | expired | ttlExhausted | new => cases hmem
    | refused => exact .inl (List.mem_singleton.mp hmem)
    | overfull _ _ _ hvictim _ hover =>
      exact absurd hover (Store.Offered.not_overfull h.bounded hvictim)
    | replaced _ _ _ _ hvictim =>
      obtain rfl := List.mem_singleton.mp hmem
      exact .inr (hworst hvictim)
  next => cases hmem
  next => cases hmem

end Step

section Run

theorem Pending.mem_displaced (h : d.Pending ids) (hnodup : ids.Nodup)
    (hmem : id' ∈ displaced now d ids) : id' ∈ ids ∨ d.memory.get id' ≠ none := by
  induction ids generalizing d with
  | nil => cases hmem
  | cons id ids ih =>
    obtain ⟨hid, hnodup⟩ := List.nodup_cons.mp hnodup
    rw [displaced] at hmem
    rcases List.mem_append.mp hmem with hmem | hmem
    · refine (h.mem_displacedBy hmem).imp_left fun heq => ?_
      rw [heq]
      exact List.mem_cons_self
    · have hr := h.reread now
      have hpending := hr.pending h hid
      cases hrun : (reload now id).run d with
      | error e d' =>
        rw [hrun] at hmem
        cases hmem
      | ok u d' =>
        rw [hrun] at hmem hpending hr
        rcases ih hpending hnodup hmem with hlater | hheld
        · exact .inl (List.mem_cons_of_mem _ hlater)
        · rcases hr.memory with hmemory | ⟨x, -, hrecord, hmemory⟩
          · exact .inr (hmemory ▸ hheld)
          · obtain ⟨y, hy⟩ := Option.ne_none_iff_exists'.mp hheld
            rw [hmemory] at hy
            rcases Store.get_accept hy with hy | ⟨-, rfl, -⟩
            · exact .inr (by rw [hy]; exact Option.some_ne_none y)
            · exact .inl (h.named id x hrecord ▸ List.mem_cons_self)

theorem Dead.of_within {disk disk' : EncryptedStore} (h : Within disk disk')
    (hmem : id.bytes.1 ∈ disk'.table) : Dead P disk' now id ↔ Dead P disk now id := by
  rw [Dead, Dead, h.record hmem]

theorem not_dead {disk : EncryptedStore} (hrecord : disk.record P id = .ok (some x))
    (hlives : x.Lives now) : ¬ Dead P disk now id := by
  rintro (⟨err, herror⟩ | ⟨y, hy, hdead⟩)
  · rw [hrecord] at herror
    cases herror
  · rw [hrecord] at hy
    cases hy
    exact hdead hlives

theorem dead_or_lives (disk : EncryptedStore) (now : UInt64) (hmem : id.bytes.1 ∈ disk.table) :
    Dead P disk now id ∨ ∃ x : Envelope P, disk.record P id = .ok (some x) ∧ x.Lives now := by
  cases hrecord : disk.record P id with
  | error err => exact .inl (.inl ⟨err, hrecord⟩)
  | ok found =>
    cases found with
    | none => exact absurd hmem (EncryptedStore.record_eq_none_iff.mp hrecord)
    | some x =>
      by_cases hlives : x.Lives now
      · exact .inr ⟨x, rfl, hlives⟩
      · exact .inl (.inr ⟨x, hrecord, hlives⟩)

theorem Reread.removed_dead {r : EStateM.Result (Fault MeshError) (DurableStore P) Unit}
    (hr : Reread d now id r) (hspares : d.Spares now id) {key : List UInt8}
    (hmem : key ∈ d.disk.table)
    (hgone : key ∉ (Method.after r).disk.table) :
    ∃ id', id'.bytes.1 = key ∧ (Dead P d.disk now id' ∨ id' ∈ d.displacedBy now id) := by
  obtain ⟨id', rfl, hwhy⟩ := hr.removed hmem hgone
  refine ⟨id', rfl, ?_⟩
  rcases hwhy with hdisplaced | ⟨rfl, hdead | ⟨hread, hwrite⟩⟩
  · exact .inr hdisplaced
  · exact .inl hdead
  · rcases dead_or_lives d.disk now hmem with hdead | ⟨x, hrecord, hlives⟩
    · exact .inl hdead
    · exact absurd (hspares x hrecord hlives hread) hwrite

theorem removesDead_cons_error (h : d.Pending (id :: ids)) {e : Fault MeshError}
    (hrun : (reload now id).run d = .error e d') :
    d.RemovesDead now (id :: ids) ↔ d.Spares now id := by
  have hr := h.reread now
  rw [hrun] at hr
  have hfinal : (reloadAll now (id :: ids)).run d = .error e d' :=
    Method.run_bind_error.mpr (.inl hrun)
  rw [RemovesDead, hfinal, displaced, hrun, List.append_nil]
  constructor
  · intro _ x hrecord _ hread
    by_contra hwrite
    obtain ⟨_, hok, -⟩ := hr.unread hrecord hread hwrite
    cases hok
  · exact fun hspares key hmem hgone => hr.removed_dead hspares hmem hgone

theorem RemovesDead.spares (hdead : d.RemovesDead now (id :: ids)) (h : d.Pending (id :: ids))
    (hnodup : (id :: ids).Nodup) (hrun : (reload now id).run d = .ok () d') :
    d.Spares now id := by
  obtain ⟨hid, hrest⟩ := List.nodup_cons.mp hnodup
  have hr := h.reread now
  have hpending := hr.pending h hid
  rw [hrun] at hr hpending
  intro x hrecord hlives hread
  by_contra hwrite
  obtain ⟨_, hok, hmemory, hgone⟩ := hr.unread hrecord hread hwrite
  cases hok
  have hmem : id.bytes.1 ∈ d.disk.table := by
    by_contra habsent
    rw [EncryptedStore.record_eq_none_iff.mpr habsent] at hrecord
    cases hrecord
  have hlater : id.bytes.1 ∉ (Method.after ((reloadAll now (id :: ids)).run d)).disk.table := by
    rw [reloadAll, EStateM.run_bind, hrun]
    exact fun hfound => hgone ((reloadAll_within hpending hrest now).1.mem hfound)
  obtain ⟨id', hkey, hwhy⟩ := hdead _ hmem hlater
  obtain rfl := EncryptedStore.key_injective hkey
  rcases hwhy with hd | hd
  · exact not_dead hrecord hlives hd
  · rw [displaced, hrun, displacedBy_unreadable (.inl hread), List.nil_append] at hd
    rcases Pending.mem_displaced hpending hrest hd with hd | hd
    · exact hid hd
    · exact hd (hmemory.symm ▸ h.unread _ List.mem_cons_self)

theorem removesDead_cons_ok (h : d.Pending (id :: ids)) (hnodup : (id :: ids).Nodup)
    (hrun : (reload now id).run d = .ok () d') :
    d.RemovesDead now (id :: ids) ↔ d.Spares now id ∧ d'.RemovesDead now ids := by
  have hr := h.reread now
  rw [hrun] at hr
  have hwithin : Within d.disk d'.disk := hr.within
  have hfinal : (reloadAll now (id :: ids)).run d = (reloadAll now ids).run d' := by
    rw [reloadAll, EStateM.run_bind, hrun]
  have hdisplaced : displaced now d (id :: ids) =
      d.displacedBy now id ++ displaced now d' ids := by
    rw [displaced, hrun]
  refine ⟨fun hdead => ⟨hdead.spares h hnodup hrun, ?_⟩, ?_⟩
  · rw [RemovesDead, hfinal, hdisplaced] at hdead
    intro key hmem hgone
    obtain ⟨id', rfl, hwhy⟩ := hdead key (hwithin.mem hmem) hgone
    refine ⟨id', rfl, ?_⟩
    rcases hwhy with hd | hd
    · exact .inl ((Dead.of_within hwithin hmem).mpr hd)
    · rcases List.mem_append.mp hd with hd | hd
      · exact absurd hmem (hr.displaced hd)
      · exact .inr hd
  · rintro ⟨hspares, hdead⟩
    rw [RemovesDead, hfinal, hdisplaced]
    intro key hmem hgone
    by_cases hstill : key ∈ d'.disk.table
    · obtain ⟨id', rfl, hwhy⟩ := hdead key hstill hgone
      refine ⟨id', rfl, ?_⟩
      rcases hwhy with hd | hd
      · exact .inl ((Dead.of_within hwithin hstill).mp hd)
      · exact .inr (List.mem_append_right _ hd)
    · obtain ⟨id', rfl, hwhy⟩ := hr.removed_dead hspares hmem hstill
      exact ⟨id', rfl, hwhy.imp_right (List.mem_append_left _)⟩

/-- A reload removes nothing that is alive and has room, exactly when it spares what the
database does not read. -/
theorem Pending.removesDead_iff (h : d.Pending ids) (hnodup : ids.Nodup) :
    d.RemovesDead now ids ↔ SparesLive now d ids := by
  induction ids generalizing d with
  | nil => exact ⟨fun _ => trivial, fun _ key hmem hgone => absurd hmem hgone⟩
  | cons id ids ih =>
    have hpending := (h.reread now).pending h (List.nodup_cons.mp hnodup).1
    rw [SparesLive]
    cases hrun : (reload now id).run d with
    | error e d' =>
      rw [removesDead_cons_error h hrun]
      exact ⟨fun hs => ⟨hs, fun _ hok => by cases hok⟩, fun hs => hs.1⟩
    | ok u d' =>
      have hpending' : d'.Pending ids := by rw [hrun] at hpending; exact hpending
      rw [removesDead_cons_ok h hnodup hrun, ih hpending' (List.nodup_cons.mp hnodup).2]
      refine and_congr_right fun _ => ⟨fun hs d'' heq => ?_, fun hs => hs d' rfl⟩
      cases heq
      exact hs

end Run

/-- Each record that `open` removes is dead, or displaced by the capacity rule. -/
def OpenRemovesDead (P : Primitives) (disk : EncryptedStore) (capacity : Nat)
    (now : UInt64) : Prop :=
  ∀ key ∈ disk.table,
    key ∉ (Method.after ((openStore now).run ⟨Store.new P capacity, disk⟩)).disk.table →
    ∃ id, id.bytes.1 = key ∧ (Dead P disk now id ∨
      ∃ ids d, listing.run ⟨Store.new P capacity, disk⟩ = .ok ids d ∧ id ∈ displaced now d ids)

def OpenSparesLive (P : Primitives) (disk : EncryptedStore) (capacity : Nat)
    (now : UInt64) : Prop :=
  ∀ ids d, listing.run ⟨Store.new P capacity, disk⟩ = .ok ids d → SparesLive now d ids

/-- For any disk and any faults, `open` removes nothing that is alive and has room if and only
if it never removes a live record that the database failed to read. -/
theorem open_removesDead_iff {disk : EncryptedStore}
    (hnamed : ∀ id (x : Envelope P), disk.record P id = .ok (some x) → x.id = id)
    (capacity : Nat) (now : UInt64) :
    OpenRemovesDead P disk capacity now ↔ OpenSparesLive P disk capacity now := by
  rcases listing_run (Store.new P capacity) disk with ⟨disk', hlist, hleaves⟩ |
    ⟨err, disk', hlist, hleaves⟩
  · have hpending : Pending (EncryptedStore.idsOf disk.table) ⟨Store.new P capacity, disk'⟩ :=
      ⟨Nat.zero_le _, fun id x hx => hnamed id x (hleaves.within_self.record_some hx),
        fun _ _ => rfl⟩
    have hiff : RemovesDead ⟨Store.new P capacity, disk'⟩ now _ ↔ SparesLive now _ _ :=
      hpending.removesDead_iff (EncryptedStore.nodup_idsOf disk.table)
    have hopen : (openStore now).run ⟨Store.new P capacity, disk⟩ =
        (reloadAll now (EncryptedStore.idsOf disk.table)).run ⟨Store.new P capacity, disk'⟩ := by
      rw [openStore_eq, EStateM.run_bind, hlist]
    have hspares : OpenSparesLive P disk capacity now ↔
        SparesLive now ⟨Store.new P capacity, disk'⟩ (EncryptedStore.idsOf disk.table) := by
      refine ⟨fun hs => hs _ _ hlist, fun hs ids d hok => ?_⟩
      rw [hlist] at hok
      cases hok
      exact hs
    rw [hspares, ← hiff, OpenRemovesDead, RemovesDead, hopen]
    simp only [hleaves.table]
    refine forall₂_congr fun key hmem => imp_congr_right fun _ => exists_congr fun id => ?_
    refine and_congr_right fun hkey => or_congr ?_ ?_
    · refine (Dead.of_within hleaves.within_self ?_).symm
      rw [hleaves.table, hkey]
      exact hmem
    · refine ⟨?_, fun hd => ⟨_, _, hlist, hd⟩⟩
      rintro ⟨ids, d, hok, hd⟩
      rw [hlist] at hok
      cases hok
      exact hd
  · have hopen : (openStore now).run ⟨Store.new P capacity, disk⟩ =
        .error (.err err) ⟨Store.new P capacity, disk'⟩ := by
      rw [openStore_eq, EStateM.run_bind, hlist]
    rw [OpenRemovesDead, OpenSparesLive, hopen, hlist]
    refine ⟨fun _ ids d hok => (by cases hok), fun _ key hmem hgone => absurd ?_ hgone⟩
    exact hleaves.table ▸ hmem

section Examples

def writtenDisk : EncryptedStore :=
  Method.after ((EncryptedStore.put toyPrimitives (toyEnvelope 3)).run toyStore.disk)

def flakyDisk : EncryptedStore :=
  { writtenDisk with
    db := { table := writtenDisk.table, faults := [none, none, none, some .begin] } }

/-- Next to the envelope is a record that does not open.  The reload cannot read the envelope, and
cannot remove it either. -/
def litteredDisk : EncryptedStore :=
  { writtenDisk with
    db := { table := writtenDisk.table.insert (List.replicate 32 0) []
            faults := [none, none, none, none, none, some .begin, some .begin] } }

theorem record_writtenDisk {disk : EncryptedStore} {id : EnvelopeId}
    (hlookup : disk.table.lookup id.bytes.1 = writtenDisk.table.lookup id.bytes.1)
    (hkey : disk.masterKey = writtenDisk.masterKey) :
    disk.record toyPrimitives id =
      if id = (toyEnvelope 3).id then .ok (some (toyEnvelope 3)) else .ok none := by
  have hseal : ∃ sealed, toyStore.disk.sealing (toyEnvelope 3) = .ok sealed := ⟨_, rfl⟩
  obtain ⟨sealed, hseal⟩ := hseal
  have hwritten : writtenDisk = toyStore.disk.drawn.holding
      (toyStore.disk.table.insert (toyEnvelope 3).id.bytes.1 sealed) := by
    have hsound : toyStore.disk.Sound := rfl
    rw [writtenDisk, hsound.put_run hseal, Method.after_ok]
  rw [EncryptedStore.record_congr (s := writtenDisk) hkey hlookup, hwritten,
    EncryptedStore.record_insert opens_toyPrimitives hseal, Envelope.fromBytes_toBytes,
    if_pos (show (toyEnvelope 3).sealed.length < 2 ^ 32 by decide)]
  rfl

theorem named_writtenDisk {disk : EncryptedStore} {id : EnvelopeId} {x : Envelope toyPrimitives}
    (hlookup : disk.table.lookup id.bytes.1 = writtenDisk.table.lookup id.bytes.1)
    (hkey : disk.masterKey = writtenDisk.masterKey)
    (hx : disk.record toyPrimitives id = .ok (some x)) : x.id = id := by
  rw [record_writtenDisk hlookup hkey] at hx
  split at hx
  next heq =>
    cases hx
    exact heq.symm
  next => cases hx

theorem named_litteredDisk (id : EnvelopeId) (x : Envelope toyPrimitives)
    (hx : litteredDisk.record toyPrimitives id = .ok (some x)) : x.id = id := by
  by_cases hlitter : id.bytes.1 = List.replicate 32 0
  · have hlookup : litteredDisk.table.lookup id.bytes.1 = some [] := by
      rw [hlitter]
      exact AList.lookup_insert _
    rw [EncryptedStore.record, hlookup] at hx
    cases hx
  · have hlookup : litteredDisk.table.lookup id.bytes.1 = writtenDisk.table.lookup id.bytes.1 :=
      Assoc.lookup_insert_of_ne hlitter
    exact named_writtenDisk hlookup rfl hx

theorem open_removesDead_iff_litteredDisk :
    OpenRemovesDead toyPrimitives litteredDisk 10 0 ∧
      (Method.after
        ((openStore 0).run ⟨Store.new toyPrimitives 10, litteredDisk⟩)).disk.table.keys =
          [toyId] := by
  refine ⟨(open_removesDead_iff named_litteredDisk 10 0).mpr ?_, by decide⟩
  intro ids d hok
  cases hok
  refine ⟨fun _ _ _ hread => absurd hread (by decide), fun d' hd' => ⟨?_, fun _ _ => trivial⟩⟩
  cases hd'
  exact fun _ _ _ _ => by decide

theorem not_open_removesDead :
    ¬ ∀ (P : Primitives) (disk : EncryptedStore),
      (∀ id (x : Envelope P), disk.record P id = .ok (some x) → x.id = id) →
      ∀ (capacity : Nat) (now : UInt64), OpenRemovesDead P disk capacity now := by
  intro hclaim
  have hdead := hclaim toyPrimitives flakyDisk
    (fun _ _ hx => named_writtenDisk (by rfl) (by rfl) hx) 10 0
    (toyEnvelope 3).id.bytes.1 (by decide) (by decide)
  obtain ⟨id, hkey, hwhy⟩ := hdead
  obtain rfl := EncryptedStore.key_injective hkey
  have hlookup : flakyDisk.table.lookup (toyEnvelope 3).id.bytes.1 =
    writtenDisk.table.lookup (toyEnvelope 3).id.bytes.1 := rfl
  have hrecord := record_writtenDisk hlookup rfl
  rw [if_pos rfl] at hrecord
  rcases hwhy with hd | ⟨ids, d, hok, hd⟩
  · exact not_dead hrecord (by decide) hd
  · cases hok
    cases hd

end Examples

end ProjectMesh.Routing.DurableStore
