import ProjectMesh.Lib.Triple
import ProjectMesh.Routing.PersistenceLaws
import ProjectMesh.Routing.PriorityStore

namespace ProjectMesh.Routing

open ProjectMesh.Lib

variable {P : Primitives}

namespace DurableStore

section Keeps

variable {Q : Store P → Prop}

def Keeps (Q : Store P → Prop) (x : Method MeshError (DurableStore P) α) : Prop :=
  ∀ d : DurableStore P, Q d.memory → Q (Method.after (x.run d)).memory

theorem keeps_pure (a : α) : Keeps Q (pure a) := fun _ h => h

theorem Keeps.triple {x : Method MeshError (DurableStore P) α} (hx : Keeps Q x) :
    Method.Triple (fun d => Q d.memory) x (fun _ d => Q d.memory) (fun d => Q d.memory) :=
  .of_after hx

theorem Keeps.bind {x : Method MeshError (DurableStore P) α}
    {y : α → Method MeshError (DurableStore P) β} (hx : Keeps Q x) (hy : ∀ a, Keeps Q (y a)) :
    Keeps Q (x >>= y) := fun _ hd =>
  Method.Triple.after (hx.triple.bind fun a => (hy a).triple) hd

theorem keeps_onDisk (x : Method MeshError EncryptedStore α) :
    Keeps Q (onDisk x : Method MeshError (DurableStore P) α) := by
  intro d hd
  simp only [onDisk, Method.zoom, EStateM.run]
  cases x d.disk with
  | ok a disk => exact hd
  | error f disk => exact hd

theorem keeps_accept (h : ∀ s e now, Q s → Q (Store.accept e now s).2) (e : Envelope P)
    (now : UInt64) : Keeps Q (accept e now) := by
  intro d hd
  have hmemory := h d.memory e now hd
  rcases accept_run d e now with ⟨disk, hrun⟩ | ⟨err, disk, hrun⟩
  · rw [hrun]
    exact hmemory
  · rw [hrun]
    exact hmemory

theorem keeps_removeAll (ids : List EnvelopeId) :
    Keeps Q (removeAll ids : Method MeshError (DurableStore P) Unit) := by
  induction ids with
  | nil => exact keeps_pure ()
  | cons id ids ih => exact (keeps_onDisk _).bind fun _ => ih

theorem keeps_purgeExpired (h : ∀ s now, Q s → Q (Store.purgeExpired now s).2) (now : UInt64) :
    Keeps Q (purgeExpired now : Method MeshError (DurableStore P) Nat) := by
  intro d hd
  have htail : Keeps Q (removeAll (d.memory.purgeExpired now).1 >>= fun _ =>
      (pure (d.memory.purgeExpired now).1.length : Method MeshError (DurableStore P) Nat)) :=
    (keeps_removeAll _).bind fun _ => keeps_pure _
  exact htail ⟨(d.memory.purgeExpired now).2, d.disk⟩ (h d.memory now hd)

theorem keeps_reload (h : ∀ s e now, Q s → Q (Store.accept e now s).2) (now : UInt64)
    (id : EnvelopeId) : Keeps Q (reload now id : Method MeshError (DurableStore P) Unit) := by
  intro d hd
  rw [reload, EStateM.run_bind, EStateM.run_get]
  dsimp only
  cases (EncryptedStore.get P id).run d.disk with
  | error f disk =>
    cases f with
    | panic => exact hd
    | err err => exact hd
  | ok found disk =>
    cases found with
    | none => exact hd
    | some e =>
      have hmemory := h d.memory e now hd
      obtain ⟨⟨⟨outcome, evicted⟩, memory⟩, hresult⟩ :
        ∃ result, d.memory.accept e now = result := ⟨_, rfl⟩
      rw [hresult] at hmemory
      simp only [hresult]
      rw [EStateM.run_bind, EStateM.run_set]
      have hlast : Keeps Q (if outcome ≠ .new then onDisk (EncryptedStore.remove id)
          else pure () : Method MeshError (DurableStore P) Unit) := by
        split
        · exact keeps_onDisk _
        · exact keeps_pure ()
      cases evicted with
      | none => exact hlast ⟨memory, disk⟩ hmemory
      | some victim =>
        exact (Keeps.bind (keeps_onDisk _) fun _ => hlast) ⟨memory, disk⟩ hmemory

theorem keeps_reloadAll (h : ∀ s e now, Q s → Q (Store.accept e now s).2) (now : UInt64)
    (ids : List EnvelopeId) :
    Keeps Q (reloadAll now ids : Method MeshError (DurableStore P) Unit) := by
  induction ids with
  | nil => exact keeps_pure ()
  | cons id ids ih => exact (keeps_reload h now id).bind fun _ => ih

theorem keeps_openStore (h : ∀ s e now, Q s → Q (Store.accept e now s).2) (now : UInt64) :
    Keeps Q (openStore now : Method MeshError (DurableStore P) Unit) :=
  (keeps_onDisk _).bind fun _ => (keeps_onDisk _).bind fun ids => keeps_reloadAll h now ids

end Keeps

/-- The stores a program can have: opened on any disk, then used in any way, with any faults. -/
inductive Reachable : DurableStore P → Prop
  | opened {capacity now disk d} :
    (openStore now).run ⟨Store.new P capacity, disk⟩ = .ok () d → Reachable d
  | accepted {d} (e : Envelope P) (now : UInt64) : Reachable d →
    Reachable (Method.after ((accept e now).run d))
  | purged {d} (now : UInt64) : Reachable d → Reachable (Method.after ((purgeExpired now).run d))

end DurableStore

namespace Store

variable {s : Store P} {e : Envelope P} {now : UInt64}

def Bounded (s : Store P) : Prop := s.len ≤ s.capacity

theorem Bounded.accept (h : s.Bounded) (e : Envelope P) (now : UInt64) :
    (Store.accept e now s).2.Bounded := by
  have hoffered := accept_offered s e now
  rw [Bounded, hoffered.capacity_eq]
  exact hoffered.len_le h

theorem Bounded.remove (h : s.Bounded) (id : EnvelopeId) : (s.remove id).Bounded := by
  refine Nat.le_trans ?_ h
  rw [← card_heldIds, ← card_heldIds, heldIds_remove]
  exact Finset.card_erase_le

theorem Bounded.purgeExpired (h : s.Bounded) (now : UInt64) :
    (Store.purgeExpired now s).2.Bounded := by
  have hfold : ∀ (ids : List EnvelopeId) (s : Store P), s.Bounded →
      (ids.foldl Store.remove s).Bounded := by
    intro ids
    induction ids with
    | nil => exact fun s hs => hs
    | cons id ids ih => exact fun s hs => ih _ (hs.remove id)
  exact hfold _ s h

def FullOfLive (s : Store P) (e : Envelope P) (now : UInt64) : Prop :=
  s.capacity ≤ (s.envelopes.filter fun x =>
    !x.isExpired now && decide (x.priority.toNat ≤ e.priority.toNat)).length

/-- An expired envelope keeps its place although nothing held is less urgent than the offered
one. -/
def DeadInTheWay (s : Store P) (e : Envelope P) (now : UInt64) : Prop :=
  s.capacity ≤ s.len ∧ (∀ x ∈ s.envelopes, x.priority.toNat ≤ e.priority.toNat) ∧
    ∃ x ∈ s.envelopes, x.isExpired now = true

theorem length_envelopes : s.envelopes.length = s.len := by
  rw [envelopes, Assoc.values, List.length_map, List.length_map, len, Assoc.size]

theorem accept_refused_iff (hbounded : s.Bounded) (hdup : s.contains e.id = false)
    (hexp : e.isExpired now = false) (httl : e.ttlHops ≠ 0) :
    (s.accept e now).1.1 = .storeFullLowerPriority ↔
      s.capacity ≤ s.len ∧ ∀ x ∈ s.envelopes, x.priority.toNat ≤ e.priority.toNat := by
  have hoffered := accept_offered s e now
  constructor
  · intro h
    have hrefuses := hoffered.refuses hbounded h
    generalize s.accept e now = result at h hoffered hrefuses
    cases hoffered with
    | duplicate | expired | ttlExhausted | new | replaced => cases h
    | overfull _ _ _ hworst _ hover => exact absurd hover (Offered.not_overfull hbounded hworst)
    | refused _ _ _ hfull => exact ⟨hfull, hrefuses⟩
  · rintro ⟨hfull, hurgent⟩
    generalize s.accept e now = result at hoffered
    cases hoffered with
    | refused | overfull => rfl
    | duplicate hdup' => rw [hdup'] at hdup; cases hdup
    | expired _ hexp' => rw [hexp'] at hexp; cases hexp
    | ttlExhausted _ _ httl' => exact absurd httl' httl
    | new _ _ _ hroom => exact absurd hroom (Nat.not_lt.mpr hfull)
    | @replaced worst _ _ _ _ hworst hlt =>
      have hmem := mem_envelopes_of_get (get_worstEntry hworst)
      exact absurd (hurgent _ hmem) (Nat.not_le.mpr hlt)

theorem refused_fullOfLive_iff (hbounded : s.Bounded) (hdup : s.contains e.id = false)
    (hexp : e.isExpired now = false) (httl : e.ttlHops ≠ 0) :
    ((s.accept e now).1.1 = .storeFullLowerPriority → s.FullOfLive e now) ↔
      ¬ s.DeadInTheWay e now := by
  rw [accept_refused_iff hbounded hdup hexp httl]
  have hle : (s.envelopes.filter fun x =>
      !x.isExpired now && decide (x.priority.toNat ≤ e.priority.toNat)).length ≤ s.len :=
    length_envelopes ▸ List.length_filter_le _ _
  constructor
  · rintro h ⟨hfull, hurgent, x, hx, hdead⟩
    have hlength := Nat.le_antisymm (List.length_filter_le _ _)
      ((length_envelopes.trans_le hbounded).trans (h ⟨hfull, hurgent⟩))
    have hall := List.length_filter_eq_length_iff.mp hlength x hx
    rw [hdead] at hall
    cases hall
  · rintro h ⟨hfull, hurgent⟩
    have hlive : ∀ x ∈ s.envelopes,
        (!x.isExpired now && decide (x.priority.toNat ≤ e.priority.toNat)) = true := by
      intro x hx
      have hexpired : x.isExpired now = false :=
        Bool.eq_false_iff.mpr fun hdead => h ⟨hfull, hurgent, x, hx, hdead⟩
      rw [hexpired, decide_eq_true (hurgent x hx)]
      rfl
    rw [FullOfLive, List.filter_eq_self.mpr hlive, length_envelopes]
    exact hfull

end Store

namespace DurableStore

variable {d : DurableStore P}

theorem Reachable.bounded (h : Reachable d) : d.memory.Bounded := by
  have haccept : ∀ (s : Store P) e now, s.Bounded → (Store.accept e now s).2.Bounded :=
    fun s e now hs => hs.accept e now
  induction h with
  | @opened capacity now disk d hrun =>
    have hkeeps := keeps_openStore haccept now ⟨Store.new P capacity, disk⟩ (Nat.zero_le _)
    rw [hrun] at hkeeps
    exact hkeeps
  | accepted e now _ ih => exact keeps_accept haccept e now _ ih
  | purged now _ ih => exact keeps_purgeExpired (fun s now hs => hs.purgeExpired now) now _ ih

/-- `accept` answers `StoreFullLowerPriority` only when the store is full of live envelopes
at least as urgent. -/
def RefusesForLive (d : DurableStore P) (e : Envelope P) (now : UInt64) : Prop :=
  ∀ d', (accept e now).run d = .ok .storeFullLowerPriority d' → d.memory.FullOfLive e now

theorem accept_run_untouched {outcome : Accept} {memory : Store P} {e : Envelope P}
    {now : UInt64} (h : d.memory.accept e now = ((outcome, none), memory)) (hne : outcome ≠ .new) :
    (accept e now).run d = .ok outcome ⟨memory, d.disk⟩ := by
  simp only [accept, EStateM.run_bind, EStateM.run_get, h, EStateM.run_set, if_neg hne,
    EStateM.run_pure]

theorem refusesForLive_iff {e : Envelope P} {now : UInt64} (hbounded : d.memory.Bounded)
    (hdup : d.memory.contains e.id = false) (hexp : e.isExpired now = false)
    (httl : e.ttlHops ≠ 0) :
    d.RefusesForLive e now ↔ ¬ d.memory.DeadInTheWay e now := by
  rw [← Store.refused_fullOfLive_iff hbounded hdup hexp httl]
  constructor
  · intro h hrefused
    have hoffered := Store.accept_offered d.memory e now
    generalize hresult : d.memory.accept e now = result at hrefused hoffered
    cases hoffered with
    | duplicate | expired | ttlExhausted | new | replaced => cases hrefused
    | overfull _ _ _ hworst _ hover =>
      exact absurd hover (Store.Offered.not_overfull hbounded hworst)
    | refused => exact h _ (accept_run_untouched hresult nofun)
  · intro h d' hrun
    rcases accept_run d e now with ⟨disk, hrun'⟩ | ⟨err, disk, hrun'⟩
    · rw [hrun'] at hrun
      injection hrun with hanswer
      exact h hanswer
    · rw [hrun'] at hrun
      cases hrun

end DurableStore

theorem RelayEngine.bounded_run {store : DurableStore P} {events : List (Event P)}
    {calls : List (Call P)} (hstore : store.memory.Bounded)
    (hrun : (RelayEngine.new store).run events = some calls) :
    ∀ call ∈ calls, call.before.held.Bounded := by
  have hstart : (RelayEngine.new store).held.Bounded := hstore
  refine RelayEngine.run_invariant (Q := fun e => e.held.Bounded) hstart hrun ?_
  intro e event outbound next he hact
  rcases RelayEngine.held_act_eq hact with h | ⟨x, now, h⟩
  · rw [h]
    exact he
  · rw [h]
    exact he.accept x now

/-- In every reachable store and engine, a live envelope is refused for live traffic only,
exactly when nothing expired is in its way. -/
theorem refuses_for_live_iff :
    (∀ d : DurableStore P, d.Reachable → ∀ (e : Envelope P) (now : UInt64),
      d.memory.contains e.id = false → e.isExpired now = false → e.ttlHops ≠ 0 →
      (d.RefusesForLive e now ↔ ¬ d.memory.DeadInTheWay e now)) ∧
    ∀ store : DurableStore P, store.Reachable → ∀ events calls,
      (RelayEngine.new store).run events = some calls → ∀ call ∈ calls,
      ∀ (e : Envelope P) (now : UInt64), call.before.held.contains e.id = false →
      e.isExpired now = false → e.ttlHops ≠ 0 →
      (call.before.store.RefusesForLive e now ↔ ¬ call.before.held.DeadInTheWay e now) := by
  constructor
  · intro d hd e now hdup hexp httl
    exact DurableStore.refusesForLive_iff hd.bounded hdup hexp httl
  · intro store hstore events calls hrun call hcall e now hdup hexp httl
    have hbounded := RelayEngine.bounded_run hstore.bounded hrun call hcall
    exact DurableStore.refusesForLive_iff hbounded hdup hexp httl

section Examples

def fullStart : DurableStore toyPrimitives := ⟨.new toyPrimitives 1, toyStore.disk⟩

def fullStore : DurableStore toyPrimitives :=
  Method.after ((DurableStore.accept (toyEnvelope 3) 0).run
    (Method.after ((DurableStore.openStore 0).run fullStart)))

theorem reachable_fullStore : fullStore.Reachable := by
  have hopen : (DurableStore.openStore 0).run fullStart =
    .ok () (Method.after ((DurableStore.openStore 0).run fullStart)) := rfl
  exact .accepted _ _ (.opened hopen)

def lateEnvelope : Envelope toyPrimitives := .new toyPrimitives .broadcast .normal 3 1000 [2]

theorem refuses_for_live_iff_fullStore :
    fullStore.RefusesForLive lateEnvelope 200 ↔
      ¬ fullStore.memory.DeadInTheWay lateEnvelope 200 :=
  refuses_for_live_iff.1 fullStore reachable_fullStore lateEnvelope 200 (by decide) (by decide)
    (by decide)

theorem not_refuses_for_live :
    ¬ ∀ (P : Primitives) (d : DurableStore P), d.Reachable → ∀ (e : Envelope P) (now : UInt64),
      d.memory.contains e.id = false → e.isExpired now = false → e.ttlHops ≠ 0 →
      d.RefusesForLive e now := by
  intro h
  have hdead : fullStore.memory.DeadInTheWay lateEnvelope 200 := by
    refine ⟨by decide, by decide, toyEnvelope 3, ?_, by decide⟩
    exact Store.mem_envelopes_iff.mpr rfl
  refine (DurableStore.refusesForLive_iff reachable_fullStore.bounded ?_ ?_ ?_).mp ?_ hdead
  · decide
  · decide
  · decide
  · exact h toyPrimitives fullStore reachable_fullStore lateEnvelope 200 (by decide) (by decide)
      (by decide)

end Examples

end ProjectMesh.Routing
