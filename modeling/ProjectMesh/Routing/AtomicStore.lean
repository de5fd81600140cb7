import ProjectMesh.Routing.Reload

namespace ProjectMesh.Routing

open ProjectMesh.Lib

variable {P : Primitives}

namespace EncryptedStore

variable {s : EncryptedStore} {table : Table} {k : Nat}

/-- The call `k` calls from now fails, if it writes. -/
def WriteFailsAt (s : EncryptedStore) (k : Nat) : Prop :=
  ∃ stage ∈ s.db.faults[k]?.join, stage.writes = true

instance : Decidable (s.WriteFailsAt k) :=
  inferInstanceAs (Decidable (∃ stage ∈ s.db.faults[k]?.join, stage.writes = true))

theorem writeFailsAt_zero : s.WriteFailsAt 0 ↔ s.WriteFails := by
  rw [WriteFailsAt, WriteFails, List.head?_eq_getElem?]

theorem writeFailsAt_next : (s.next table).WriteFailsAt k ↔ s.WriteFailsAt (k + 1) := by
  simp only [WriteFailsAt, next, List.getElem?_tail]

theorem writeFails_next : (s.next table).WriteFails ↔ s.WriteFailsAt 1 :=
  writeFailsAt_zero.symm.trans writeFailsAt_next

def failingAt (s : EncryptedStore) (k : Nat) : EncryptedStore :=
  { s with db := { table := s.table, faults := List.replicate k none ++ [some .begin] } }

theorem writeFailsAt_failingAt {j : Nat} : (s.failingAt k).WriteFailsAt j ↔ j = k := by
  simp only [WriteFailsAt, failingAt]
  rcases Nat.lt_trichotomy j k with hlt | rfl | hlt
  · rw [List.getElem?_append_left (by rwa [List.length_replicate]), List.getElem?_replicate,
      if_pos hlt]
    constructor
    · rintro ⟨stage, hstage, -⟩
      cases hstage
    · exact fun h => absurd h (Nat.ne_of_lt hlt)
  · rw [List.getElem?_append_right (Nat.le_of_eq List.length_replicate), List.length_replicate,
      Nat.sub_self]
    exact ⟨fun _ => rfl, fun _ => ⟨.begin, rfl, rfl⟩⟩
  · have hlength : (List.replicate k none ++ [some Stage.begin]).length ≤ j := by
      rw [List.length_append, List.length_replicate]
      exact hlt
    rw [List.getElem?_eq_none hlength]
    constructor
    · rintro ⟨stage, hstage, -⟩
      cases hstage
    · exact fun h => absurd h (Nat.ne_of_gt hlt)

end EncryptedStore

namespace Store

variable {s : Store P} {e : Envelope P} {now : UInt64}

def Admits (s : Store P) (e : Envelope P) (now : UInt64) : Prop :=
  s.contains e.id = false ∧ e.Lives now ∧
    (s.len < s.capacity ∨ ∃ x ∈ s.envelopes, e.priority.toNat < x.priority.toNat)

instance : Decidable (s.Admits e now) := inferInstanceAs (Decidable (_ ∧ _ ∧ (_ ∨ _)))

theorem Admits.room_or_worst (hbounded : s.Bounded) (h : s.Admits e now) :
    (s.len < s.capacity ∧ s.accept e now = ((.new, none), s.insert e)) ∨
      s.capacity ≤ s.len ∧ ∃ worst, s.worstEntry = some worst ∧
        s.accept e now = ((.new, some worst.1), (s.remove worst.1).insert e) := by
  obtain ⟨hdup, ⟨hexp, httl⟩, hroom⟩ := h
  have hoffered := s.accept_offered e now
  have hanswer := accept_refused_iff hbounded hdup hexp httl
  generalize s.accept e now = result at hoffered hanswer
  cases hoffered with
  | duplicate hdup' =>
    rw [hdup] at hdup'
    cases hdup'
  | expired _ hexp' =>
    rw [hexp] at hexp'
    cases hexp'
  | ttlExhausted _ _ httl' => exact absurd httl' httl
  | overfull _ _ _ hworst _ hover => exact absurd hover (Offered.not_overfull hbounded hworst)
  | refused =>
    obtain ⟨hfull, hurgent⟩ := hanswer.mp rfl
    rcases hroom with hroom | ⟨x, hx, hlt⟩
    · exact absurd hroom (Nat.not_lt.mpr hfull)
    · exact absurd (hurgent x hx) (Nat.not_le.mpr hlt)
  | new _ _ _ hroom => exact .inl ⟨hroom, rfl⟩
  | replaced _ _ _ hfull hworst => exact .inr ⟨hfull, _, hworst, rfl⟩

theorem Admits.accept_room (hbounded : s.Bounded) (h : s.Admits e now)
    (hroom : s.len < s.capacity) : s.accept e now = ((.new, none), s.insert e) := by
  rcases h.room_or_worst hbounded with ⟨-, hresult⟩ | ⟨hfull, -⟩
  · exact hresult
  · exact absurd hroom (Nat.not_lt.mpr hfull)

theorem Admits.accept_worst {worst : (_ : EnvelopeId) × Entry P} (hbounded : s.Bounded)
    (h : s.Admits e now) (hfull : s.capacity ≤ s.len) (hworst : s.worstEntry = some worst) :
    s.accept e now = ((.new, some worst.1), (s.remove worst.1).insert e) := by
  rcases h.room_or_worst hbounded with ⟨hroom, -⟩ | ⟨-, worst', hworst', hresult⟩
  · exact absurd hroom (Nat.not_lt.mpr hfull)
  · cases hworst.symm.trans hworst'
    exact hresult

def refusal (s : Store P) (e : Envelope P) (now : UInt64) : Accept :=
  if s.contains e.id then .duplicate
  else if e.isExpired now then .expired
  else if e.ttlHops = 0 then .ttlExhausted
  else .storeFullLowerPriority

theorem refusal_ne_new (s : Store P) (e : Envelope P) (now : UInt64) : s.refusal e now ≠ .new := by
  rw [refusal]
  split
  · exact nofun
  · split
    · exact nofun
    · split
      · exact nofun
      · exact nofun

theorem accept_refusal (hbounded : s.Bounded) (h : ¬ s.Admits e now) :
    s.accept e now = ((s.refusal e now, none), s) := by
  have hoffered := s.accept_offered e now
  rw [refusal]
  generalize s.accept e now = result at hoffered
  cases hoffered with
  | duplicate hdup => rw [if_pos hdup]
  | expired hdup hexp =>
    rw [if_neg (Bool.eq_false_iff.mp hdup), if_pos hexp]
  | ttlExhausted hdup hexp httl =>
    rw [if_neg (Bool.eq_false_iff.mp hdup), if_neg (Bool.eq_false_iff.mp hexp), if_pos httl]
  | refused hdup hexp httl =>
    rw [if_neg (Bool.eq_false_iff.mp hdup), if_neg (Bool.eq_false_iff.mp hexp), if_neg httl]
  | overfull _ _ _ hworst _ hover => exact absurd hover (Offered.not_overfull hbounded hworst)
  | new hdup hexp httl hroom => exact absurd ⟨hdup, ⟨hexp, httl⟩, .inl hroom⟩ h
  | @replaced worst hdup hexp httl _ hworst hlt =>
    have hmem := mem_envelopes_of_get (get_worstEntry hworst)
    exact absurd ⟨hdup, ⟨hexp, httl⟩, .inr ⟨_, hmem, hlt⟩⟩ h

end Store

namespace DurableStore

variable {d : DurableStore P} {e x : Envelope P} {now : UInt64} {memory : Store P}
  {ids : List EnvelopeId}

def Left (disk : EncryptedStore) (table : Table) (disk' : EncryptedStore) : Prop :=
  disk'.table = table ∧ disk'.masterKey = disk.masterKey

inductive Accepted (d : DurableStore P) (e : Envelope P) (now : UInt64) :
    EStateM.Result (Fault MeshError) (DurableStore P) Accept → Prop
  | refused {outcome} : ¬ d.memory.Admits e now → Accepted d e now (.ok outcome d)
  | put {sealed disk} : d.memory.Admits e now → d.memory.len < d.memory.capacity →
    d.disk.sealing e = .ok sealed → ¬ d.disk.WriteFailsAt 0 →
    Left d.disk (d.disk.table.insert e.id.bytes.1 sealed) disk →
    Accepted d e now (.ok .new ⟨(d.memory.accept e now).2, disk⟩)
  | putFails {err disk} : d.memory.Admits e now → d.memory.len < d.memory.capacity →
    (∀ sealed, d.disk.sealing e = .ok sealed → d.disk.WriteFailsAt 0) →
    Left d.disk d.disk.table disk →
    Accepted d e now (.error (.err err) ⟨(d.memory.accept e now).2, disk⟩)
  | removeFails {err disk} : d.memory.Admits e now → d.memory.capacity ≤ d.memory.len →
    d.disk.WriteFailsAt 0 → Left d.disk d.disk.table disk →
    Accepted d e now (.error (.err err) ⟨(d.memory.accept e now).2, disk⟩)
  | replaceFails {worst err disk} : d.memory.Admits e now → d.memory.capacity ≤ d.memory.len →
    d.memory.worstEntry = some worst → ¬ d.disk.WriteFailsAt 0 →
    (∀ sealed, d.disk.sealing e = .ok sealed → d.disk.WriteFailsAt 1) →
    Left d.disk (d.disk.table.erase worst.1.bytes.1) disk →
    Accepted d e now (.error (.err err) ⟨(d.memory.accept e now).2, disk⟩)
  | replaced {worst sealed disk} : d.memory.Admits e now → d.memory.capacity ≤ d.memory.len →
    d.memory.worstEntry = some worst → d.disk.sealing e = .ok sealed →
    ¬ d.disk.WriteFailsAt 0 → ¬ d.disk.WriteFailsAt 1 →
    Left d.disk ((d.disk.table.erase worst.1.bytes.1).insert e.id.bytes.1 sealed) disk →
    Accepted d e now (.ok .new ⟨(d.memory.accept e now).2, disk⟩)

theorem put_run (s : EncryptedStore) (e : Envelope P) :
    (∃ sealed disk, s.sealing e = .ok sealed ∧ ¬ s.WriteFails ∧
        (EncryptedStore.put P e).run s = .ok () disk ∧
        Left s (s.table.insert e.id.bytes.1 sealed) disk) ∨
      (∀ sealed, s.sealing e = .ok sealed → s.WriteFails) ∧ ∃ err disk,
        (EncryptedStore.put P e).run s = .error (.err err) disk ∧ Left s s.table disk := by
  cases hseal : s.sealing e with
  | error err =>
    refine .inr ⟨?_, err, _, EncryptedStore.put_unsealed hseal, rfl, rfl⟩
    intro sealed h
    cases h
  | ok sealed =>
    by_cases hfails : s.WriteFails
    · obtain ⟨err, hrun⟩ := EncryptedStore.put_error hfails hseal
      exact .inr ⟨fun _ _ => hfails, err, _, hrun, rfl, rfl⟩
    · exact .inl ⟨sealed, _, rfl, hfails, EncryptedStore.put_ok hfails hseal, rfl, rfl⟩

theorem accept_accepted (hbounded : d.memory.Bounded) (e : Envelope P) (now : UInt64) :
    Accepted d e now ((accept e now).run d) := by
  by_cases hadmits : d.memory.Admits e now
  · rcases hadmits.room_or_worst hbounded with ⟨hroom, hresult⟩ | ⟨hfull, worst, hworst, hresult⟩
    · have hrun : (accept e now).run d = (onDisk (EncryptedStore.put P e) >>= fun _ =>
          (pure .new : Method MeshError (DurableStore P) Accept)).run
            ⟨d.memory.insert e, d.disk⟩ := by
        simp only [accept, EStateM.run_bind, EStateM.run_get, hresult, EStateM.run_set, if_true]
      have hmemory : d.memory.insert e = (d.memory.accept e now).2 := by rw [hresult]
      rw [hrun, hmemory, EStateM.run_bind]
      rcases put_run d.disk e with ⟨sealed, disk, hseal, hfails, hput, hleft⟩ |
        ⟨hfails, err, disk, hput, hleft⟩
      · rw [onDisk_run hput]
        exact .put hadmits hroom hseal (EncryptedStore.writeFailsAt_zero.not.mpr hfails) hleft
      · rw [onDisk_error hput]
        refine .putFails hadmits hroom (fun sealed hseal => ?_) hleft
        exact EncryptedStore.writeFailsAt_zero.mpr (hfails sealed hseal)
    · have hrun : (accept e now).run d = (onDisk (EncryptedStore.remove worst.1) >>= fun _ =>
          onDisk (EncryptedStore.put P e) >>= fun _ =>
            (pure .new : Method MeshError (DurableStore P) Accept)).run
              ⟨(d.memory.remove worst.1).insert e, d.disk⟩ := by
        simp only [accept, EStateM.run_bind, EStateM.run_get, hresult, EStateM.run_set, if_true]
      have hmemory : (d.memory.remove worst.1).insert e = (d.memory.accept e now).2 := by
        rw [hresult]
      rw [hrun, hmemory, EStateM.run_bind]
      by_cases hremove : d.disk.WriteFails
      · obtain ⟨err, hrun⟩ := EncryptedStore.remove_error hremove worst.1
        rw [onDisk_error hrun]
        exact .removeFails hadmits hfull (EncryptedStore.writeFailsAt_zero.mpr hremove)
          ⟨rfl, rfl⟩
      · rw [onDisk_run (EncryptedStore.remove_ok hremove worst.1)]
        have hfirst := EncryptedStore.writeFailsAt_zero.not.mpr hremove
        dsimp only
        rw [EStateM.run_bind]
        rcases put_run (d.disk.next (d.disk.table.erase worst.1.bytes.1)) e with
          ⟨sealed, disk, hseal, hfails, hput, hleft⟩ | ⟨hfails, err, disk, hput, hleft⟩
        · rw [onDisk_run hput]
          exact .replaced hadmits hfull hworst hseal hfirst
            (EncryptedStore.writeFails_next.not.mp hfails) hleft
        · rw [onDisk_error hput]
          refine .replaceFails hadmits hfull hworst hfirst (fun sealed hseal => ?_) hleft
          exact EncryptedStore.writeFails_next.mp (hfails sealed hseal)
  · have hresult := Store.accept_refusal hbounded hadmits
    rw [accept_run_untouched hresult (Store.refusal_ne_new _ _ _)]
    exact .refused hadmits

def eraseAll (ids : List EnvelopeId) (table : Table) : Table :=
  ids.foldl (fun table id => table.erase id.bytes.1) table

theorem removeAll_outcome (ids : List EnvelopeId) (memory : Store P) (disk : EncryptedStore) :
    (∃ disk', (∀ k < ids.length, ¬ disk.WriteFailsAt k) ∧
        (removeAll ids).run ⟨memory, disk⟩ = .ok () ⟨memory, disk'⟩ ∧
        Left disk (eraseAll ids disk.table) disk') ∨
      ∃ k err disk', k < ids.length ∧ disk.WriteFailsAt k ∧ (∀ j < k, ¬ disk.WriteFailsAt j) ∧
        (removeAll ids).run ⟨memory, disk⟩ = .error (.err err) ⟨memory, disk'⟩ ∧
        Left disk (eraseAll (ids.take k) disk.table) disk' := by
  induction ids generalizing disk with
  | nil => exact .inl ⟨disk, nofun, rfl, rfl, rfl⟩
  | cons id ids ih =>
    by_cases hfails : disk.WriteFails
    · obtain ⟨err, hrun⟩ := EncryptedStore.remove_error hfails id
      refine .inr ⟨0, err, _, Nat.zero_lt_succ _, EncryptedStore.writeFailsAt_zero.mpr hfails,
        nofun, Method.run_bind_error.mpr (.inl (onDisk_error hrun)), rfl, rfl⟩
    · have hfirst := EncryptedStore.writeFailsAt_zero.not.mpr hfails
      have hrun : (onDisk (EncryptedStore.remove id)).run ⟨memory, disk⟩ = _ :=
        onDisk_run (EncryptedStore.remove_ok hfails id)
      rcases ih (disk.next (disk.table.erase id.bytes.1)) with
        ⟨disk', hlater, hruns, htable, hkey⟩ |
        ⟨k, err, disk', hk, hfault, hlater, hruns, htable, hkey⟩
      · refine .inl ⟨disk', fun k hk => ?_, Method.run_bind_ok.mpr ⟨(), _, hrun, hruns⟩, htable,
          hkey⟩
        cases k with
        | zero => exact hfirst
        | succ k =>
          exact EncryptedStore.writeFailsAt_next.not.mp (hlater k (Nat.lt_of_succ_lt_succ hk))
      · refine .inr ⟨k + 1, err, disk', Nat.succ_lt_succ hk,
          EncryptedStore.writeFailsAt_next.mp hfault, fun j hj => ?_,
          Method.run_bind_error.mpr (.inr ⟨(), _, hrun, hruns⟩), htable, hkey⟩
        cases j with
        | zero => exact hfirst
        | succ j =>
          exact EncryptedStore.writeFailsAt_next.not.mp (hlater j (Nat.lt_of_succ_lt_succ hj))

section Faults

def mended (d : DurableStore P) : DurableStore P :=
  { d with disk := d.disk.holding d.disk.table }

def Same (d d' : DurableStore P) : Prop :=
  d.memory = d'.memory ∧ d.disk.table = d'.disk.table

/-- The call leaves index and disk as they were, or as the successful call leaves them. -/
def AllOrNothing (x : Method MeshError (DurableStore P) α) (d : DurableStore P) : Prop :=
  Same (Method.after (x.run d)) d ∨
    ∃ a good, x.run d.mended = .ok a good ∧ Same (Method.after (x.run d)) good

def Takes (d : DurableStore P) (e : Envelope P) (now : UInt64) : Prop :=
  ∃ d', (accept e now).run d.mended = .ok .new d' ∧ e.id.bytes.1 ∈ d'.disk.table

def Retries (d : DurableStore P) (e : Envelope P) (now : UInt64) : Prop :=
  ∀ f d', (accept e now).run d = .error f d' → Takes d' e now

/-- If the envelope is taken in, it can be sealed and none of the transactions fails. -/
def Untroubled (d : DurableStore P) (e : Envelope P) (now : UInt64) : Prop :=
  d.memory.Admits e now → (∃ sealed, d.disk.sealing e = .ok sealed) ∧ ¬ d.disk.WriteFailsAt 0 ∧
    (d.memory.capacity ≤ d.memory.len → ¬ d.disk.WriteFailsAt 1)

theorem mended_not_writeFailsAt (d : DurableStore P) (k : Nat) :
    ¬ d.mended.disk.WriteFailsAt k := by
  rintro ⟨stage, hstage, -⟩
  cases hstage

theorem contains_accept_self (hbounded : d.memory.Bounded) (h : d.memory.Admits e now) :
    (d.memory.accept e now).2.contains e.id = true := by
  rcases h.room_or_worst hbounded with ⟨-, hresult⟩ | ⟨-, worst, -, hresult⟩
  · rw [hresult]
    exact Store.contains_insert.mpr (.inl rfl)
  · rw [hresult]
    exact Store.contains_insert.mpr (.inl rfl)

theorem not_takes_of_contains {d' : DurableStore P} (h : d'.memory.contains e.id = true) :
    ¬ Takes d' e now := by
  rintro ⟨d'', hrun, -⟩
  have hresult : d'.mended.memory.accept e now = ((.duplicate, none), d'.memory) :=
    Store.accept_duplicate h
  rw [accept_run_untouched hresult nofun] at hrun
  cases hrun

theorem mem_table_of_mended (hbounded : d.memory.Bounded) (h : d.memory.Admits e now)
    {answer : Accept} {good : DurableStore P}
    (hrun : (accept e now).run d.mended = .ok answer good) :
    e.id.bytes.1 ∈ good.disk.table := by
  have haccepted := accept_accepted (d := d.mended) hbounded e now
  rw [hrun] at haccepted
  cases haccepted with
  | refused hrefused => exact absurd h hrefused
  | put _ _ _ _ hleft | replaced _ _ _ _ _ _ hleft =>
    rw [hleft.1]
    exact (AList.mem_insert _).mpr (.inl rfl)

theorem Mirrors.notMem_table (h : d.Mirrors) (hdup : d.memory.contains e.id = false) :
    e.id.bytes.1 ∉ d.disk.table := by
  intro hmem
  obtain ⟨id, hheld, hkey⟩ := (h.ids _).mp hmem
  rw [EncryptedStore.key_injective hkey, hdup] at hheld
  cases hheld

theorem accept_fails (h : d.Mirrors) (hnot : ¬ d.Untroubled e now) :
    d.memory.Admits e now ∧ ∃ err disk, (accept e now).run d =
      .error (.err err) ⟨(d.memory.accept e now).2, disk⟩ ∧ e.id.bytes.1 ∉ disk.table := by
  rw [Untroubled, Classical.not_imp] at hnot
  obtain ⟨hadmits, hnot⟩ := hnot
  have hmem := h.notMem_table hadmits.1
  have haccepted := accept_accepted h.bounded e now
  generalize (accept e now).run d = result at haccepted
  cases haccepted with
  | refused hrefused => exact absurd hadmits hrefused
  | put _ hroom hseal hfirst =>
    exact absurd ⟨⟨_, hseal⟩, hfirst, fun hfull => absurd hroom (Nat.not_lt.mpr hfull)⟩ hnot
  | replaced _ _ _ hseal hfirst hsecond => exact absurd ⟨⟨_, hseal⟩, hfirst, fun _ => hsecond⟩ hnot
  | putFails _ _ _ hleft | removeFails _ _ _ hleft =>
    refine ⟨hadmits, _, _, rfl, ?_⟩
    rw [hleft.1]
    exact hmem
  | replaceFails _ _ _ _ _ hleft =>
    refine ⟨hadmits, _, _, rfl, ?_⟩
    rw [hleft.1]
    exact fun hmem' => hmem (AList.mem_erase.mp hmem').2

theorem accept_untroubled (hbounded : d.memory.Bounded) (h : d.Untroubled e now) :
    ∃ answer d', (accept e now).run d = .ok answer d' ∧
      (Same d' d ∨ ∃ good, (accept e now).run d.mended = .ok answer good ∧ Same d' good) := by
  have haccepted := accept_accepted hbounded e now
  generalize (accept e now).run d = result at haccepted
  cases haccepted with
  | refused => exact ⟨_, d, rfl, .inl ⟨rfl, rfl⟩⟩
  | putFails hadmits _ hfails =>
    obtain ⟨⟨sealed, hseal⟩, hfirst, -⟩ := h hadmits
    exact absurd (hfails sealed hseal) hfirst
  | removeFails hadmits _ hfails => exact absurd hfails (h hadmits).2.1
  | replaceFails hadmits hfull _ _ hfails =>
    obtain ⟨⟨sealed, hseal⟩, -, hsecond⟩ := h hadmits
    exact absurd (hfails sealed hseal) (hsecond hfull)
  | put hadmits hroom hseal _ hleft =>
    have hresult := hadmits.accept_room hbounded hroom
    have hmemory : (d.memory.accept e now).2 = d.memory.insert e := by rw [hresult]
    refine ⟨_, _, rfl, .inr ⟨_, accept_run_new (d := d.mended) rfl hresult hseal, hmemory, ?_⟩⟩
    exact hleft.1
  | @replaced worst _ _ hadmits hfull hworst hseal _ _ hleft =>
    have hresult := hadmits.accept_worst hbounded hfull hworst
    have hmemory : (d.memory.accept e now).2 = (d.memory.remove worst.1).insert e := by rw [hresult]
    refine ⟨_, _, rfl, .inr ⟨_, accept_run_replaced (d := d.mended) rfl hresult hseal, hmemory, ?_⟩⟩
    exact hleft.1

theorem accept_allOrNothing_iff (h : d.Mirrors) (e : Envelope P) (now : UInt64) :
    AllOrNothing (accept e now) d ↔ d.Untroubled e now := by
  constructor
  · intro hatomic
    by_contra hnot
    obtain ⟨hadmits, err, disk, hrun, hmem⟩ := accept_fails h hnot
    rw [AllOrNothing, hrun] at hatomic
    rcases hatomic with ⟨hmemory, -⟩ | ⟨answer, good, hgood, -, htable⟩
    · have hheld := contains_accept_self h.bounded hadmits
      have hmemory : (d.memory.accept e now).2 = d.memory := hmemory
      rw [hmemory, hadmits.1] at hheld
      cases hheld
    · have htable : disk.table = good.disk.table := htable
      rw [htable] at hmem
      exact hmem (mem_table_of_mended h.bounded hadmits hgood)
  · intro huntroubled
    obtain ⟨answer, d', hrun, hsame⟩ := accept_untroubled h.bounded huntroubled
    rw [AllOrNothing, hrun]
    exact hsame.imp_right fun ⟨good, hgood, hsame⟩ => ⟨answer, good, hgood, hsame⟩

theorem accept_retries_iff (h : d.Mirrors) (e : Envelope P) (now : UInt64) :
    d.Retries e now ↔ d.Untroubled e now := by
  constructor
  · intro hretries
    by_contra hnot
    obtain ⟨hadmits, err, disk, hrun, -⟩ := accept_fails h hnot
    exact not_takes_of_contains (contains_accept_self h.bounded hadmits) (hretries _ _ hrun)
  · intro huntroubled f d' hrun
    obtain ⟨answer, d'', hrun', -⟩ := accept_untroubled h.bounded huntroubled
    rw [hrun'] at hrun
    cases hrun

theorem lookup_eraseAll (ids : List EnvelopeId) (table : Table) (id : EnvelopeId) :
    (eraseAll ids table).lookup id.bytes.1 =
      if id ∈ ids then none else table.lookup id.bytes.1 := by
  induction ids generalizing table with
  | nil => rfl
  | cons id' ids ih =>
    rw [eraseAll, List.foldl_cons, ← eraseAll, ih]
    by_cases hmem : id ∈ ids
    · rw [if_pos hmem, if_pos (List.mem_cons_of_mem _ hmem)]
    · rw [if_neg hmem]
      by_cases heq : id = id'
      · rw [if_pos (heq ▸ List.mem_cons_self), heq, AList.lookup_erase]
      · rw [if_neg fun h => (List.mem_cons.mp h).elim heq hmem]
        exact Assoc.lookup_erase_of_ne fun hkey => heq (EncryptedStore.key_injective hkey)

theorem mem_purged (s : Store P) (now : UInt64) (id : EnvelopeId) :
    id ∈ (s.purgeExpired now).1 ↔ ∃ x, s.get id = some x ∧ x.isExpired now = true := by
  simp only [Store.purgeExpired, List.mem_map, List.mem_filter, Store.get_eq_some_iff]
  constructor
  · rintro ⟨⟨id', entry⟩, ⟨hmem, hexp⟩, rfl⟩
    exact ⟨entry.envelope, ⟨entry.insertedSeq, Assoc.mem_entries_iff.mp hmem⟩, hexp⟩
  · rintro ⟨x, ⟨seq, hseq⟩, hexp⟩
    exact ⟨⟨id, x, seq⟩, ⟨Assoc.mem_entries_iff.mpr hseq, hexp⟩, rfl⟩

theorem nodup_purged (s : Store P) (now : UInt64) : (s.purgeExpired now).1.Nodup := by
  have hsublist : ((s.entries.entries.filter (·.2.envelope.isExpired now)).map (·.1)).Sublist
      (s.entries.entries.map (·.1)) := (List.filter_sublist).map _
  exact hsublist.nodup s.entries.keys_nodup

def expiredCount (d : DurableStore P) (now : UInt64) : Nat :=
  (d.memory.envelopes.filter (·.isExpired now)).length

theorem length_purged (d : DurableStore P) (now : UInt64) :
    (d.memory.purgeExpired now).1.length = d.expiredCount now := by
  simp only [Store.purgeExpired, expiredCount, Store.envelopes, Assoc.values, List.length_map,
    List.map_map, List.filter_map]
  rfl

theorem purgeExpired_eq (d : DurableStore P) (now : UInt64) :
    (purgeExpired now).run d = (removeAll (d.memory.purgeExpired now).1 >>= fun _ =>
      (pure (d.memory.purgeExpired now).1.length : Method MeshError (DurableStore P) Nat)).run
        ⟨(d.memory.purgeExpired now).2, d.disk⟩ := by
  simp only [purgeExpired, EStateM.run_bind, EStateM.run_get, EStateM.run_set]

theorem purgeExpired_outcome (d : DurableStore P) (now : UInt64) :
    (∃ disk, (∀ k < d.expiredCount now, ¬ d.disk.WriteFailsAt k) ∧
        (purgeExpired now).run d =
          .ok (d.memory.purgeExpired now).1.length ⟨(d.memory.purgeExpired now).2, disk⟩ ∧
        Left d.disk (eraseAll (d.memory.purgeExpired now).1 d.disk.table) disk) ∨
      ∃ k err disk, k < d.expiredCount now ∧ d.disk.WriteFailsAt k ∧
        (∀ j < k, ¬ d.disk.WriteFailsAt j) ∧
        (purgeExpired now).run d = .error (.err err) ⟨(d.memory.purgeExpired now).2, disk⟩ ∧
        Left d.disk (eraseAll ((d.memory.purgeExpired now).1.take k) d.disk.table) disk := by
  rw [purgeExpired_eq, ← length_purged]
  rcases removeAll_outcome (d.memory.purgeExpired now).1 (d.memory.purgeExpired now).2 d.disk with
    ⟨disk, hfine, hrun, hleft⟩ | ⟨k, err, disk, hk, hfault, hfine, hrun, hleft⟩
  · refine .inl ⟨disk, hfine, ?_, hleft⟩
    rw [EStateM.run_bind, hrun]
    rfl
  · exact .inr ⟨k, err, disk, hk, hfault, hfine, Method.run_bind_error.mpr (.inl hrun), hleft⟩

theorem purgeExpired_mended (d : DurableStore P) (now : UInt64) :
    ∃ disk, (purgeExpired now).run d.mended =
        .ok (d.memory.purgeExpired now).1.length ⟨(d.memory.purgeExpired now).2, disk⟩ ∧
      Left d.disk (eraseAll (d.memory.purgeExpired now).1 d.disk.table) disk := by
  rcases purgeExpired_outcome d.mended now with ⟨disk, -, hrun, hleft⟩ | ⟨k, _, _, _, hfault, _⟩
  · exact ⟨disk, hrun, hleft⟩
  · exact absurd hfault (mended_not_writeFailsAt d k)

theorem purge_allOrNothing_iff (h : d.Mirrors) (now : UInt64) :
    AllOrNothing (purgeExpired now) d ↔ ∀ k < d.expiredCount now, ¬ d.disk.WriteFailsAt k := by
  obtain ⟨good, hgood, hgoodLeft⟩ := purgeExpired_mended d now
  rcases purgeExpired_outcome d now with ⟨disk, hfine, hrun, hleft⟩ |
    ⟨k, err, disk, hk, hfault, -, hrun, hleft⟩
  · refine ⟨fun _ => hfine, fun _ => ?_⟩
    rw [AllOrNothing, hrun]
    exact .inr ⟨_, _, hgood, rfl, hleft.1.trans hgoodLeft.1.symm⟩
  · refine ⟨fun hatomic => ?_, fun hfine => absurd hfault (hfine k hk)⟩
    rw [← length_purged] at hk
    -- the first id whose removal failed: gone from the index, still on the disk
    have hmem : (d.memory.purgeExpired now).1.get ⟨k, hk⟩ ∈ (d.memory.purgeExpired now).1 :=
      List.get_mem _ _
    generalize hid : (d.memory.purgeExpired now).1.get ⟨k, hk⟩ = id at hmem
    obtain ⟨x, hx, -⟩ := (mem_purged d.memory now id).mp hmem
    rw [AllOrNothing, hrun] at hatomic
    rcases hatomic with ⟨hmemory, -⟩ | ⟨answer, d', hrun', -, htable⟩
    · have hgone : ((d.memory.purgeExpired now).1.foldl Store.remove d.memory).get id = _ :=
        Store.get_foldl_remove _
      have hmemory : (d.memory.purgeExpired now).1.foldl Store.remove d.memory = d.memory := hmemory
      rw [hmemory, hx, if_pos hmem] at hgone
      cases hgone
    · rw [hgood] at hrun'
      cases hrun'
      have hnotMem : id ∉ (d.memory.purgeExpired now).1.take k := by
        intro htake
        have hnodup := nodup_purged d.memory now
        rw [← List.take_append_drop k (d.memory.purgeExpired now).1, List.nodup_append] at hnodup
        refine hnodup.2.2 id htake id ?_ rfl
        rw [← hid, List.get_eq_getElem, List.drop_eq_getElem_cons hk]
        exact List.mem_cons_self
      have htable : disk.table = good.table := htable
      have hlookup := lookup_eraseAll ((d.memory.purgeExpired now).1.take k) d.disk.table id
      rw [← hleft.1, htable, hgoodLeft.1, lookup_eraseAll, if_pos hmem, if_neg hnotMem] at hlookup
      have hrecord := h.records id x hx
      rw [EncryptedStore.record_absent hlookup.symm] at hrecord
      cases hrecord

end Faults

end DurableStore

end ProjectMesh.Routing
