import ProjectMesh.Routing.AtomicStore

namespace ProjectMesh.Routing

open ProjectMesh.Lib

variable {P : Primitives}

namespace DurableStore

variable {d : DurableStore P} {e x : Envelope P} {now : UInt64}

section Stops

variable {later : UInt64} {k : Nat} {disk : EncryptedStore} {table : Table}

def stoppedAt (d : DurableStore P) (k : Nat) : DurableStore P :=
  { d with disk := d.disk.failingAt k }

def reopened (later : UInt64) (d : DurableStore P) :
    EStateM.Result (Fault MeshError) (DurableStore P) Unit :=
  (openStore later).run ⟨Store.new P d.memory.capacity, d.disk.holding d.disk.table⟩

def Alike (d d' : DurableStore P) : Prop :=
  ∀ id, d.memory.get id = d'.memory.get id ∧ d.disk.record P id = d'.disk.record P id

/-- A process that stops after `k` transactions of the call leaves a store that reopens as the
one before the call, or as the one a successful call leaves. -/
def StopSafe (x : Method MeshError (DurableStore P) α) (d : DurableStore P) (k : Nat)
    (later : UInt64) : Prop :=
  ∃ r, reopened later (Method.after (x.run (d.stoppedAt k))) = .ok () r ∧
    ((∃ b, reopened later d = .ok () b ∧ Alike r b) ∨
      ∃ a good g, x.run d.mended = .ok a good ∧ reopened later good = .ok () g ∧ Alike r g)

theorem Left.record (h : Left disk table disk') (id : EnvelopeId) :
    disk'.record P id = (disk.holding table).record P id := by
  obtain ⟨htable, hkey⟩ := h
  refine EncryptedStore.record_congr hkey ?_
  rw [htable]
  rfl

theorem Left.loadable (h : Left disk table disk') (later : UInt64) (id : EnvelopeId) :
    disk'.loadable P later id = (disk.holding table).loadable P later id :=
  EncryptedStore.loadable_congr (h.record id)

theorem Left.orderly {capacity : Nat} (h : Left disk table disk')
    (horderly : Orderly P (disk.holding table) capacity) : Orderly P disk' capacity where
  tidy key hkey := horderly.tidy key (h.1 ▸ hkey)
  named id x hx := horderly.named id x (h.record id ▸ hx)
  size_le := h.1 ▸ horderly.size_le

theorem Orderly.reopened (h : Orderly P d.disk d.memory.capacity) (later : UInt64) :
    ∃ r, reopened later d = .ok () r ∧ ∀ id, r.memory.get id = d.disk.loadable P later id ∧
      r.disk.record P id = .ok (d.disk.loadable P later id) := by
  have hleft : Left d.disk d.disk.table (d.disk.holding d.disk.table) := ⟨rfl, rfl⟩
  have horderly : Orderly P (d.disk.holding d.disk.table) d.memory.capacity :=
    ⟨h.tidy, fun id x hx => h.named id x (EncryptedStore.record_holding ▸ hx), h.size_le⟩
  obtain ⟨r, hrun, hagrees, -, hmemory⟩ :=
    horderly.openStore_run EncryptedStore.sound_holding later
  have hget : ∀ id, r.memory.get id = d.disk.loadable P later id := by
    intro id
    rw [hmemory, horderly.get_foldl_loads]
    exact EncryptedStore.loadable_congr EncryptedStore.record_holding
  refine ⟨r, hrun, fun id => ⟨hget id, ?_⟩⟩
  rw [hagrees.records id List.not_mem_nil, hget id]

theorem alike_iff {r b d' : DurableStore P}
    (hr : ∀ id, r.memory.get id = d.disk.loadable P later id ∧
      r.disk.record P id = .ok (d.disk.loadable P later id))
    (hb : ∀ id, b.memory.get id = d'.disk.loadable P later id ∧
      b.disk.record P id = .ok (d'.disk.loadable P later id)) :
    Alike r b ↔ ∀ id, d.disk.loadable P later id = d'.disk.loadable P later id := by
  constructor
  · intro halike id
    rw [← (hr id).1, ← (hb id).1]
    exact (halike id).1
  · intro hload id
    rw [(hr id).1, (hb id).1, (hr id).2, (hb id).2, hload id]
    exact ⟨rfl, rfl⟩

theorem stopSafe_iff {x : Method MeshError (DurableStore P) α} {torn : DurableStore P}
    (hafter : Method.after (x.run (d.stoppedAt k)) = torn)
    (htorn : Orderly P torn.disk torn.memory.capacity)
    (hd : Orderly P d.disk d.memory.capacity)
    (hgood : ∀ a good, x.run d.mended = .ok a good → Orderly P good.disk good.memory.capacity) :
    StopSafe x d k later ↔
      (∀ id, torn.disk.loadable P later id = d.disk.loadable P later id) ∨
      ∃ a good, x.run d.mended = .ok a good ∧
        ∀ id, torn.disk.loadable P later id = good.disk.loadable P later id := by
  obtain ⟨r, hr, hrload⟩ := htorn.reopened later
  obtain ⟨b, hb, hbload⟩ := hd.reopened later
  rw [StopSafe, hafter]
  constructor
  · rintro ⟨r', hr', halike⟩
    rw [hr] at hr'
    cases hr'
    rcases halike with ⟨b', hb', halike⟩ | ⟨a, good, g, hrun, hg, halike⟩
    · rw [hb] at hb'
      cases hb'
      exact .inl ((alike_iff hrload hbload).mp halike)
    · obtain ⟨g', hg', hgload⟩ := (hgood a good hrun).reopened later
      rw [hg] at hg'
      cases hg'
      exact .inr ⟨a, good, hrun, (alike_iff hrload hgload).mp halike⟩
  · rintro (hload | ⟨a, good, hrun, hload⟩)
    · exact ⟨r, hr, .inl ⟨b, hb, (alike_iff hrload hbload).mpr hload⟩⟩
    · obtain ⟨g, hg, hgload⟩ := (hgood a good hrun).reopened later
      exact ⟨r, hr, .inr ⟨a, good, g, hrun, hg, (alike_iff hrload hgload).mpr hload⟩⟩

theorem record_eraseAll (disk : EncryptedStore) (ids : List EnvelopeId) (id : EnvelopeId) :
    (disk.holding (eraseAll ids disk.table)).record P id =
      if id ∈ ids then .ok none else disk.record P id := by
  have hlookup := lookup_eraseAll ids disk.table id
  split
  · next hmem => exact EncryptedStore.record_absent (hlookup.trans (if_pos hmem))
  · next hmem => exact EncryptedStore.record_congr rfl (hlookup.trans (if_neg hmem))

theorem loadable_eraseAll (disk : EncryptedStore) (ids : List EnvelopeId) (later : UInt64)
    (id : EnvelopeId) :
    (disk.holding (eraseAll ids disk.table)).loadable P later id =
      if id ∈ ids then none else disk.loadable P later id := by
  by_cases hmem : id ∈ ids
  · simp only [EncryptedStore.loadable, record_eraseAll, if_pos hmem]
  · simp only [EncryptedStore.loadable, record_eraseAll, if_neg hmem]

theorem loadable_eraseAll_iff {ids : List EnvelopeId} :
    (∀ id, (disk.holding (eraseAll ids disk.table)).loadable P later id =
        disk.loadable P later id) ↔
      ∀ id ∈ ids, disk.loadable P later id = none := by
  simp only [loadable_eraseAll]
  constructor
  · intro hload id hid
    rw [← hload id, if_pos hid]
  · intro hdead id
    split
    · next hid => exact (hdead id hid).symm
    · rfl

theorem size_eraseAll (ids : List EnvelopeId) (table : Table) :
    Assoc.size (eraseAll ids table) ≤ Assoc.size table := by
  induction ids generalizing table with
  | nil => exact Nat.le_refl _
  | cons id ids ih =>
    refine (ih (table.erase id.bytes.1)).trans ?_
    exact Assoc.size_le_of_subset fun key hkey => (AList.mem_erase.mp hkey).2

theorem mem_eraseAll {ids : List EnvelopeId} {key : List UInt8} (h : key ∈ eraseAll ids table) :
    key ∈ table := by
  induction ids generalizing table with
  | nil => exact h
  | cons id ids ih => exact (AList.mem_erase.mp (ih h)).2

theorem Orderly.eraseAll {capacity : Nat} (h : Orderly P disk capacity) (ids : List EnvelopeId) :
    Orderly P (disk.holding (eraseAll ids disk.table)) capacity where
  tidy key hkey := h.tidy key (mem_eraseAll hkey)
  named id x hx := by
    rw [record_eraseAll] at hx
    split at hx
    · cases hx
    · exact h.named id x hx
  size_le := (size_eraseAll ids disk.table).trans h.size_le

section Put

variable {sealed : List UInt8}

theorem record_put (hopens : P.Opens) (hseal : disk.sealing e = .ok sealed) (id : EnvelopeId) :
    (disk.holding (disk.table.insert e.id.bytes.1 sealed)).record P id =
      if id = e.id then some <$> Envelope.fromBytes P e.toBytes else disk.record P id := by
  rw [← EncryptedStore.record_insert hopens hseal]
  exact EncryptedStore.record_congr rfl rfl

theorem loadable_put (hopens : P.Opens) (hseal : disk.sealing e = .ok sealed) (later : UInt64)
    (id : EnvelopeId) :
    (disk.holding (disk.table.insert e.id.bytes.1 sealed)).loadable P later id =
      if id = e.id then if e.sealed.length < 2 ^ 32 ∧ e.Lives later then some e else none
      else disk.loadable P later id := by
  by_cases heq : id = e.id
  · by_cases hlt : e.sealed.length < 2 ^ 32
    · simp only [EncryptedStore.loadable, record_put hopens hseal, Envelope.fromBytes_toBytes,
        if_pos heq, hlt, true_and]
      rfl
    · simp only [EncryptedStore.loadable, record_put hopens hseal, Envelope.fromBytes_toBytes,
        if_pos heq, hlt, false_and, if_false]
      rfl
  · simp only [EncryptedStore.loadable, record_put hopens hseal, if_neg heq]

theorem Orderly.put {capacity : Nat} (hopens : P.Opens) (hseal : disk.sealing e = .ok sealed)
    (h : Orderly P disk capacity) (hroom : Assoc.size disk.table < capacity) :
    Orderly P (disk.holding (disk.table.insert e.id.bytes.1 sealed)) capacity where
  tidy key hkey := by
    rcases (AList.mem_insert _).mp hkey with rfl | hkey
    · exact e.id.bytes.2
    · exact h.tidy key hkey
  named id x hx := by
    rw [record_put hopens hseal] at hx
    split at hx
    · next heq =>
      cases hparse : Envelope.fromBytes P e.toBytes with
      | error err =>
        rw [hparse] at hx
        cases hx
      | ok x' =>
        rw [hparse] at hx
        cases hx
        rw [heq, eq_of_fromBytes_toBytes hparse]
    · exact h.named id x hx
  size_le := by
    rw [EncryptedStore.table_holding]
    by_cases hmem : e.id.bytes.1 ∈ disk.table
    · refine (Assoc.size_le_of_subset fun key hkey => ?_).trans hroom.le
      rcases (AList.mem_insert _).mp hkey with rfl | hkey
      · exact hmem
      · exact hkey
    · rw [Assoc.size_insert_of_notMem _ hmem]
      exact hroom

end Put

theorem Left.loadable_self (h : Left disk disk.table disk') (later : UInt64) (id : EnvelopeId) :
    disk'.loadable P later id = disk.loadable P later id :=
  EncryptedStore.loadable_congr ((h.record id).trans EncryptedStore.record_holding)

theorem Orderly.left {capacity : Nat} (h : Orderly P disk capacity)
    (hleft : Left disk disk.table disk') : Orderly P disk' capacity where
  tidy key hkey := h.tidy key (hleft.1 ▸ hkey)
  named id x hx := h.named id x (((hleft.record id).trans EncryptedStore.record_holding) ▸ hx)
  size_le := hleft.1 ▸ h.size_le

theorem loadable_eq_none_iff (h : d.Mirrors) (id : EnvelopeId) :
    d.disk.loadable P later id = none ↔ ∀ x, d.memory.get id = some x → ¬ x.Lives later := by
  have hrecord := (mirrors_iff.mp h).records id List.not_mem_nil
  rw [Option.eq_none_iff_forall_ne_some]
  constructor
  · intro hnone x hx hlives
    exact hnone x (EncryptedStore.loadable_eq_some_iff.mpr ⟨h.records id x hx, hlives⟩)
  · intro hdead x hx
    obtain ⟨hx, hlives⟩ := EncryptedStore.loadable_eq_some_iff.mp hx
    rw [hrecord] at hx
    exact hdead x (Except.ok.inj hx) hlives

section Accept

variable {worst : (_ : EnvelopeId) × Entry P} {sealed : List UInt8}

/-- The disk has lost the victim of an acceptance and does not have the accepted envelope,
and neither is missing for another reason. -/
def Torn (d : DurableStore P) (e : Envelope P) (now : UInt64) (k : Nat) (later : UInt64) : Prop :=
  d.memory.Admits e now ∧ d.memory.capacity ≤ d.memory.len ∧ 1 ≤ k ∧
    (∀ sealed, d.disk.sealing e = .ok sealed →
      k = 1 ∧ e.sealed.length < 2 ^ 32 ∧ e.Lives later) ∧
    ∃ worst, d.memory.worstEntry = some worst ∧ worst.2.envelope.Lives later

theorem orderly_replaced (hopens : P.Opens) (h : d.Mirrors)
    (hworst : d.memory.worstEntry = some worst) (hseal : d.disk.sealing e = .ok sealed) :
    Orderly P (d.disk.holding ((d.disk.table.erase worst.1.bytes.1).insert e.id.bytes.1 sealed))
      d.memory.capacity := by
  have hagrees := mirrors_iff.mp h
  have hevicted := hagrees.evict worst.1
  have hsize : Assoc.size (d.disk.table.erase worst.1.bytes.1) = (d.memory.remove worst.1).len :=
    hevicted.size_eq
  have hlen := Store.len_remove (Store.contains_worstEntry hworst)
  have hbounded : d.memory.len ≤ d.memory.capacity := h.bounded
  have horderly : Orderly P (d.disk.holding (d.disk.table.erase worst.1.bytes.1))
      d.memory.capacity := hevicted.orderly
  have hseal' : (d.disk.holding (d.disk.table.erase worst.1.bytes.1)).sealing e = .ok sealed :=
    hseal
  refine horderly.put hopens hseal' ?_
  rw [EncryptedStore.table_holding, hsize]
  omega

theorem orderly_mended_accept (hopens : P.Opens) (h : d.Mirrors) {answer : Accept}
    {good : DurableStore P} (hrun : (accept e now).run d.mended = .ok answer good) :
    Orderly P good.disk good.memory.capacity := by
  have hagrees := mirrors_iff.mp h
  have hcapacity := (d.memory.accept_offered e now).capacity_eq
  have haccepted := accept_accepted (d := d.mended) h.bounded e now
  rw [hrun] at haccepted
  cases haccepted with
  | refused => exact hagrees.orderly.left ⟨rfl, rfl⟩
  | put _ hroom hseal _ hleft =>
    have hseal : d.disk.sealing e = .ok _ := hseal
    have hleft : Left d.disk (d.disk.table.insert e.id.bytes.1 _) _ := hleft
    exact hcapacity.symm ▸ hleft.orderly (hagrees.orderly.put hopens hseal
      (hagrees.size_eq.trans_lt hroom))
  | @replaced worst _ _ _ _ hworst hseal _ _ hleft =>
    have hworst : d.memory.worstEntry = some worst := hworst
    have hseal : d.disk.sealing e = .ok _ := hseal
    have hleft : Left d.disk ((d.disk.table.erase worst.1.bytes.1).insert e.id.bytes.1 _) _ := hleft
    exact hcapacity.symm ▸ hleft.orderly (orderly_replaced hopens h hworst hseal)

theorem torn_stopSafe_iff (hopens : P.Opens) (h : d.Mirrors) (hadmits : d.memory.Admits e now)
    (hfull : d.memory.capacity ≤ d.memory.len) (hworst : d.memory.worstEntry = some worst) :
    ((∀ id, (d.disk.holding (eraseAll [worst.1] d.disk.table)).loadable P later id =
        d.disk.loadable P later id) ∨
      ∃ answer good, (accept e now).run d.mended = .ok answer good ∧
        ∀ id, (d.disk.holding (eraseAll [worst.1] d.disk.table)).loadable P later id =
          good.disk.loadable P later id) ↔
    ((∀ sealed, d.disk.sealing e = .ok sealed → e.sealed.length < 2 ^ 32 ∧ e.Lives later) →
      ¬ worst.2.envelope.Lives later) := by
  have hget := Store.get_worstEntry hworst
  have hne : e.id ≠ worst.1 := by
    intro heq
    have hheld := Store.contains_worstEntry hworst
    rw [← heq, hadmits.1] at hheld
    cases hheld
  have hnew : d.disk.loadable P later e.id = none := by
    rw [EncryptedStore.loadable,
      EncryptedStore.record_eq_none_iff.mpr (h.notMem_table hadmits.1)]
  have hvictim : d.disk.loadable P later worst.1 = none ↔ ¬ worst.2.envelope.Lives later := by
    rw [loadable_eq_none_iff h, hget]
    simp only [Option.some.injEq, forall_eq']
  rw [loadable_eraseAll_iff, List.forall_mem_singleton, hvictim]
  constructor
  · rintro (hdead | ⟨answer, good, hrun, hload⟩) hreads
    · exact hdead
    · have haccepted := accept_accepted (d := d.mended) h.bounded e now
      rw [hrun] at haccepted
      cases haccepted with
      | refused hrefused => exact absurd hadmits hrefused
      | put _ hroom => exact absurd hroom (Nat.not_lt.mpr hfull)
      | @replaced worst' _ disk _ _ hworst' hseal _ _ hleft =>
        have hlost := hload e.id
        have hseal : (d.disk.holding (d.disk.table.erase worst'.1.bytes.1)).sealing e = .ok _ :=
          hseal
        have hload := loadable_put hopens hseal later e.id
        rw [if_pos rfl, if_pos (hreads _ hseal)] at hload
        rw [loadable_eraseAll, hnew, ite_self] at hlost
        have hnone := hlost.trans ((hleft.loadable later e.id).trans hload)
        cases hnone
  · intro hdead
    by_cases hreads : ∀ sealed, d.disk.sealing e = .ok sealed →
        e.sealed.length < 2 ^ 32 ∧ e.Lives later
    · exact .inl (hdead hreads)
    · simp only [not_forall] at hreads
      obtain ⟨sealed, hseal, hunread⟩ := hreads
      have hresult := hadmits.accept_worst h.bounded hfull hworst
      refine .inr ⟨_, _, accept_run_replaced (d := d.mended) rfl hresult hseal, fun id => ?_⟩
      have hsealed : (d.disk.holding (eraseAll [worst.1] d.disk.table)).sealing e = .ok sealed :=
        hseal
      have hload := loadable_put hopens hsealed later id
      rw [if_neg hunread] at hload
      refine Eq.trans ?_ hload.symm
      split
      · next heq => rw [heq, loadable_eraseAll, hnew, ite_self]
      · rfl

theorem accept_stopSafe_iff (hopens : P.Opens) (h : d.Mirrors) (e : Envelope P) (now : UInt64)
    (k : Nat) (later : UInt64) :
    StopSafe (accept e now) d k later ↔ ¬ Torn d e now k later := by
  have horderly := (mirrors_iff.mp h).orderly
  have hcapacity := (d.memory.accept_offered e now).capacity_eq
  have hgood : ∀ answer good, (accept e now).run d.mended = .ok answer good →
      Orderly P good.disk good.memory.capacity := fun _ _ => orderly_mended_accept hopens h
  have haccepted := accept_accepted (d := d.stoppedAt k) h.bounded e now
  generalize hrun : (accept e now).run (d.stoppedAt k) = result at haccepted
  have hafter := congrArg Method.after hrun
  cases haccepted with
  | refused hrefused =>
    have hleft : Left d.disk d.disk.table (d.disk.failingAt k) := ⟨rfl, rfl⟩
    rw [stopSafe_iff hafter (horderly.left hleft) horderly hgood]
    exact iff_of_true (.inl fun id => hleft.loadable_self later id) fun htorn => hrefused htorn.1
  | putFails _ hroom _ hleft =>
    have hleft : Left d.disk d.disk.table _ := hleft
    rw [stopSafe_iff hafter (hcapacity.symm ▸ horderly.left hleft) horderly hgood]
    exact iff_of_true (.inl fun id => hleft.loadable_self later id)
      fun htorn => absurd hroom (Nat.not_lt.mpr htorn.2.1)
  | removeFails _ _ hfails hleft =>
    have hleft : Left d.disk d.disk.table _ := hleft
    rw [stopSafe_iff hafter (hcapacity.symm ▸ horderly.left hleft) horderly hgood]
    refine iff_of_true (.inl fun id => hleft.loadable_self later id) fun htorn => ?_
    exact absurd (EncryptedStore.writeFailsAt_failingAt.mp hfails).symm
      (Nat.one_le_iff_ne_zero.mp htorn.2.2.1)
  | put hadmits hroom hseal _ hleft =>
    have hseal : d.disk.sealing e = .ok _ := hseal
    have horderly' := horderly.put hopens hseal ((mirrors_iff.mp h).size_eq.trans_lt hroom)
    have hleft : Left d.disk (d.disk.table.insert e.id.bytes.1 _) _ := hleft
    rw [stopSafe_iff hafter (hcapacity.symm ▸ hleft.orderly horderly') horderly hgood]
    refine iff_of_true (.inr ?_) fun htorn => absurd hroom (Nat.not_lt.mpr htorn.2.1)
    exact ⟨_, _, accept_run_new (d := d.mended) rfl (hadmits.accept_room h.bounded hroom) hseal,
      fun id => hleft.loadable later id⟩
  | @replaceFails worst _ disk hadmits hfull hworst hfirst hsecond hleft =>
    have hworst : d.memory.worstEntry = some worst := hworst
    have hleft : Left d.disk (eraseAll [worst.1] d.disk.table) disk := hleft
    have hafter : Method.after ((accept e now).run (d.stoppedAt k)) =
      ⟨(d.memory.accept e now).2, disk⟩ := hafter
    rw [stopSafe_iff hafter (hcapacity.symm ▸ hleft.orderly (horderly.eraseAll _)) horderly hgood]
    simp only [hleft.loadable]
    rw [torn_stopSafe_iff hopens h hadmits hfull hworst]
    have hk : 1 ≤ k := Nat.one_le_iff_ne_zero.mpr fun hzero =>
      hfirst (EncryptedStore.writeFailsAt_failingAt.mpr hzero.symm)
    constructor
    · rintro hdead ⟨-, -, -, hreads, worst', hworst', hlives⟩
      rw [hworst] at hworst'
      cases hworst'
      exact hdead (fun sealed hseal => (hreads sealed hseal).2) hlives
    · intro hnot hreads hlives
      refine hnot ⟨hadmits, hfull, hk, fun sealed hseal => ⟨?_, hreads sealed hseal⟩, worst, hworst,
        hlives⟩
      exact (EncryptedStore.writeFailsAt_failingAt.mp (hsecond sealed hseal)).symm
  | @replaced worst sealed _ hadmits hfull hworst hseal hfirst hsecond hleft =>
    have hworst : d.memory.worstEntry = some worst := hworst
    have hseal : d.disk.sealing e = .ok sealed := hseal
    have hleft : Left d.disk ((d.disk.table.erase worst.1.bytes.1).insert e.id.bytes.1 sealed) _ :=
      hleft
    have horderly' := orderly_replaced hopens h hworst hseal
    rw [stopSafe_iff hafter (hcapacity.symm ▸ hleft.orderly horderly') horderly hgood]
    refine iff_of_true (.inr ?_) fun htorn => ?_
    · have hresult := hadmits.accept_worst h.bounded hfull hworst
      exact ⟨_, _, accept_run_replaced (d := d.mended) rfl hresult hseal,
        fun id => hleft.loadable later id⟩
    · have hk := (htorn.2.2.2.1 sealed hseal).1
      exact hsecond (EncryptedStore.writeFailsAt_failingAt.mpr hk.symm)

end Accept

/-- The records a purge has removed by the time it stops, or those it has not, are dead when the
store is opened again. -/
def PurgeSettled (d : DurableStore P) (now : UInt64) (k : Nat) (later : UInt64) : Prop :=
  (∀ id ∈ (d.memory.purgeExpired now).1.take k, ∀ x, d.memory.get id = some x →
      ¬ x.Lives later) ∨
    ∀ id ∈ (d.memory.purgeExpired now).1.drop k, ∀ x, d.memory.get id = some x → ¬ x.Lives later

theorem purge_stopSafe_iff (h : d.Mirrors) (now : UInt64) (k : Nat) (later : UInt64) :
    StopSafe (purgeExpired now) d k later ↔ PurgeSettled d now k later := by
  have horderly := (mirrors_iff.mp h).orderly
  have hcapacity : (d.memory.purgeExpired now).2.capacity = d.memory.capacity :=
    Store.capacity_foldl_remove _
  obtain ⟨good, hgood, hgoodLeft⟩ := purgeExpired_mended d now
  have hgoodOrderly : ∀ count d', (purgeExpired now).run d.mended = .ok count d' →
      Orderly P d'.disk d'.memory.capacity := by
    intro count d' hrun
    rw [hgood] at hrun
    cases hrun
    exact hcapacity.symm ▸ hgoodLeft.orderly (horderly.eraseAll _)
  -- whether the purge was stopped or not, the first `k` records are gone
  obtain ⟨disk, hafter, hleft⟩ : ∃ disk,
      Method.after ((purgeExpired now).run (d.stoppedAt k)) =
        ⟨(d.memory.purgeExpired now).2, disk⟩ ∧
      Left d.disk (eraseAll ((d.memory.purgeExpired now).1.take k) d.disk.table) disk := by
    rcases purgeExpired_outcome (d.stoppedAt k) now with ⟨disk, hfine, hrun, hleft⟩ |
      ⟨j, err, disk, -, hfault, -, hrun, hleft⟩
    · refine ⟨disk, by rw [hrun]; rfl, ?_⟩
      have hlength : (d.memory.purgeExpired now).1.length ≤ k := by
        rw [length_purged]
        exact Nat.not_lt.mp fun hk => hfine k hk (EncryptedStore.writeFailsAt_failingAt.mpr rfl)
      rw [List.take_of_length_le hlength]
      exact hleft
    · cases EncryptedStore.writeFailsAt_failingAt.mp hfault
      exact ⟨disk, by rw [hrun]; rfl, hleft⟩
  rw [stopSafe_iff hafter (hcapacity.symm ▸ hleft.orderly (horderly.eraseAll _)) horderly
    hgoodOrderly, PurgeSettled]
  simp only [← loadable_eq_none_iff h, hleft.loadable]
  apply or_congr
  · exact loadable_eraseAll_iff
  · simp only [loadable_eraseAll]
    have hnodup := nodup_purged d.memory now
    rw [← List.take_append_drop k (d.memory.purgeExpired now).1, List.nodup_append] at hnodup
    have hmem : ∀ id, id ∈ (d.memory.purgeExpired now).1 ↔
        id ∈ (d.memory.purgeExpired now).1.take k ∨ id ∈ (d.memory.purgeExpired now).1.drop k := by
      intro id
      rw [← List.mem_append, List.take_append_drop]
    constructor
    · rintro ⟨count, d', hrun, hload⟩ id hid
      rw [hgood] at hrun
      cases hrun
      have hnot : id ∉ (d.memory.purgeExpired now).1.take k :=
        fun htake => hnodup.2.2 id htake id hid rfl
      have hsame := hload id
      rwa [if_neg hnot, hgoodLeft.loadable later id, loadable_eraseAll,
        if_pos ((hmem id).mpr (.inr hid))] at hsame
    · intro hdead
      refine ⟨_, _, hgood, fun id => ?_⟩
      rw [hgoodLeft.loadable later id, loadable_eraseAll]
      by_cases htake : id ∈ (d.memory.purgeExpired now).1.take k
      · rw [if_pos htake, if_pos ((hmem id).mpr (.inl htake))]
      · rw [if_neg htake]
        split
        · next hid => exact hdead id (((hmem id).mp hid).resolve_left htake)
        · rfl

end Stops

end DurableStore

namespace RelayEngine

variable {e next : RelayEngine P} {envelope : Envelope P} {now fromPeer : UInt64} {err : MeshError}

theorem composeLocal_error_iff :
    (composeLocal envelope now).run e = .error (.err err) next ↔
      (Puzzle.solve P envelope.id e.puzzleDifficultyBits).isSome ∧ ∃ store,
        (DurableStore.accept envelope now).run e.store = .error (.err err) store ∧
          next = { e with store := store } := by
  cases hsolve : Puzzle.solve P envelope.id e.puzzleDifficultyBits with
  | none =>
    rw [composeLocal_unsolvable hsolve]
    constructor
    · intro h
      cases h
    · rintro ⟨h, -⟩
      cases h
  | some nonce =>
    cases hrun : (DurableStore.accept envelope now).run e.store with
    | error f store =>
      rw [composeLocal_error hsolve hrun]
      constructor
      · intro h
        cases h
        exact ⟨rfl, store, rfl, rfl⟩
      · rintro ⟨-, store', h, rfl⟩
        cases h
        rfl
    | ok outcome store =>
      rw [composeLocal_ok hsolve hrun]
      constructor
      · intro h
        cases h
      · rintro ⟨-, store', h, -⟩
        cases h

theorem onFrame_data_error_iff {bytes : List UInt8} {nonce : UInt64}
    (hmsg : ContactMessage.fromBytes P bytes = .ok (.data envelope nonce)) :
    (onFrame fromPeer bytes now).run e = .error (.err err) next ↔
      Puzzle.verify P envelope.id nonce e.puzzleDifficultyBits = true ∧
        (e.budget fromPeer now bytes.length).1 = true ∧ ∃ store,
          (DurableStore.accept envelope now).run e.store = .error (.err err) store ∧
            next = { e.charged fromPeer now bytes.length with store := store } := by
  rw [onFrame_data hmsg]
  cases hverify : Puzzle.verify P envelope.id nonce e.puzzleDifficultyBits with
  | false =>
    rw [onData_unproven hverify]
    constructor
    · intro h
      cases h
    · rintro ⟨h, -⟩
      cases h
  | true =>
    cases hbudget : (e.budget fromPeer now bytes.length).1 with
    | false =>
      rw [onData_overBudget hverify hbudget]
      constructor
      · intro h
        cases h
      · rintro ⟨-, h, -⟩
        cases h
    | true =>
      have hstore : (e.charged fromPeer now bytes.length).store = e.store := rfl
      rw [onData_admitted hverify hbudget, EStateM.run_bind]
      cases hrun : (DurableStore.accept envelope now).run e.store with
      | error f store =>
        rw [onStore_error (hstore ▸ hrun)]
        constructor
        · intro h
          cases h
          exact ⟨rfl, rfl, store, rfl, rfl⟩
        · rintro ⟨-, -, store', h, rfl⟩
          cases h
          rfl
      | ok outcome store =>
        rw [onStore_ok (hstore ▸ hrun)]
        constructor
        · intro h
          dsimp only at h
          rw [EStateM.run_bind, EStateM.run_get] at h
          dsimp only at h
          split at h
          · cases h
          · cases h
        · rintro ⟨-, -, store', h, -⟩
          cases h

theorem composeLocal_retries_iff (h : e.store.Mirrors) :
    (∀ err next, (composeLocal envelope now).run e = .error (.err err) next →
        next.store.Takes envelope now) ↔
      ((Puzzle.solve P envelope.id e.puzzleDifficultyBits).isSome →
        e.store.Untroubled envelope now) := by
  simp only [composeLocal_error_iff]
  constructor
  · intro hretries hsolve
    by_contra hnot
    obtain ⟨hadmits, err, disk, hrun, -⟩ := DurableStore.accept_fails h hnot
    exact DurableStore.not_takes_of_contains (DurableStore.contains_accept_self h.bounded hadmits)
      (hretries err _ ⟨hsolve, _, hrun, rfl⟩)
  · rintro huntroubled err _ ⟨hsolve, store, hrun, rfl⟩
    exact (DurableStore.accept_retries_iff h _ _).mpr (huntroubled hsolve) _ _ hrun

theorem onFrame_retries_iff (h : e.store.Mirrors) {bytes : List UInt8} {nonce : UInt64}
    (hmsg : ContactMessage.fromBytes P bytes = .ok (.data envelope nonce)) :
    (∀ err next, (onFrame fromPeer bytes now).run e = .error (.err err) next →
        next.store.Takes envelope now) ↔
      (Puzzle.verify P envelope.id nonce e.puzzleDifficultyBits = true →
        (e.budget fromPeer now bytes.length).1 = true → e.store.Untroubled envelope now) := by
  simp only [onFrame_data_error_iff hmsg]
  constructor
  · intro hretries hverify hbudget
    by_contra hnot
    obtain ⟨hadmits, err, disk, hrun, -⟩ := DurableStore.accept_fails h hnot
    exact DurableStore.not_takes_of_contains (DurableStore.contains_accept_self h.bounded hadmits)
      (hretries err _ ⟨hverify, hbudget, _, hrun, rfl⟩)
  · rintro huntroubled err _ ⟨hverify, hbudget, store, hrun, rfl⟩
    exact (DurableStore.accept_retries_iff h _ _).mpr (huntroubled hverify hbudget) _ _ hrun

end RelayEngine

/-- When the disk fails under a store, and when the process stops: exactly when an acceptance
and a purge are all or nothing, and when a failed offer can be made again. -/
theorem all_or_nothing_iff (hopens : P.Opens) :
    (∀ d : DurableStore P, d.Mirrors → ∀ (e : Envelope P) (now : UInt64),
      (d.AllOrNothing (DurableStore.accept e now) ↔ d.Untroubled e now) ∧
      (d.Retries e now ↔ d.Untroubled e now) ∧
      ∀ k later, d.StopSafe (DurableStore.accept e now) k later ↔ ¬ d.Torn e now k later) ∧
    (∀ d : DurableStore P, d.Mirrors → ∀ now : UInt64,
      (d.AllOrNothing (DurableStore.purgeExpired now) ↔
        ∀ k < d.expiredCount now, ¬ d.disk.WriteFailsAt k) ∧
      ∀ k later, d.StopSafe (DurableStore.purgeExpired now) k later ↔ d.PurgeSettled now k later) ∧
    ∀ e : RelayEngine P, e.store.Mirrors → ∀ (envelope : Envelope P) (now : UInt64),
      ((∀ err next, (RelayEngine.composeLocal envelope now).run e = .error (.err err) next →
          next.store.Takes envelope now) ↔
        ((Puzzle.solve P envelope.id e.puzzleDifficultyBits).isSome →
          e.store.Untroubled envelope now)) ∧
      ∀ fromPeer bytes nonce, ContactMessage.fromBytes P bytes = .ok (.data envelope nonce) →
        ((∀ err next, (RelayEngine.onFrame fromPeer bytes now).run e = .error (.err err) next →
            next.store.Takes envelope now) ↔
          (Puzzle.verify P envelope.id nonce e.puzzleDifficultyBits = true →
            (e.budget fromPeer now bytes.length).1 = true →
            e.store.Untroubled envelope now)) := by
  refine ⟨fun d hd e now => ⟨DurableStore.accept_allOrNothing_iff hd e now,
    DurableStore.accept_retries_iff hd e now, fun k later => ?_⟩, fun d hd now =>
    ⟨DurableStore.purge_allOrNothing_iff hd now, fun k later => ?_⟩, fun e he envelope now =>
    ⟨RelayEngine.composeLocal_retries_iff he, fun fromPeer bytes nonce hmsg => ?_⟩⟩
  · exact DurableStore.accept_stopSafe_iff hopens hd e now k later
  · exact DurableStore.purge_stopSafe_iff hd now k later
  · exact RelayEngine.onFrame_retries_iff he hmsg

section Examples

def faultyStore : DurableStore toyPrimitives :=
  { toyStore with disk := { toyStore.disk with db := { table := ∅, faults := [some .commit] } } }

theorem mirrors_faultyStore : faultyStore.Mirrors where
  bounded := Nat.zero_le _
  ids key := by
    constructor
    · exact fun hkey => absurd hkey (AList.notMem_empty key)
    · rintro ⟨id, hheld, -⟩
      cases hheld
  records id x hx := by cases hx

theorem all_or_nothing_iff_faultyStore :
    faultyStore.AllOrNothing (DurableStore.accept (toyEnvelope 3) 0) ↔
      faultyStore.Untroubled (toyEnvelope 3) 0 :=
  ((all_or_nothing_iff opens_toyPrimitives).1 faultyStore mirrors_faultyStore _ _).1

theorem not_all_or_nothing :
    ¬ ∀ P : Primitives, P.Opens → ∀ d : DurableStore P, d.Mirrors →
      ∀ (e : Envelope P) (now : UInt64),
        d.AllOrNothing (DurableStore.accept e now) ∧ d.Retries e now := by
  intro h
  have hretries := (h toyPrimitives opens_toyPrimitives faultyStore mirrors_faultyStore
    (toyEnvelope 3) 0).2
  have huntroubled := (DurableStore.accept_retries_iff mirrors_faultyStore _ _).mp hretries
  have hadmits : faultyStore.memory.Admits (toyEnvelope 3) 0 := by decide
  have hfails : faultyStore.disk.WriteFailsAt 0 := by decide
  exact (huntroubled hadmits).2.1 hfails

end Examples

end ProjectMesh.Routing
