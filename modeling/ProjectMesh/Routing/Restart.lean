import Mathlib.Data.Finset.Option
import ProjectMesh.Routing.AtomicStore

namespace ProjectMesh.Routing

open ProjectMesh.Lib

variable {P : Primitives}

namespace Store

variable {s t : Store P} {e x : Envelope P} {id id' : EnvelopeId} {now : UInt64}

def Before (s : Store P) (id id' : EnvelopeId) : Prop :=
  ∃ a b, s.entries.lookup id = some a ∧ s.entries.lookup id' = some b ∧
    a.insertedSeq < b.insertedSeq

structure Sequenced (s : Store P) : Prop where
  below : ∀ id a, s.entries.lookup id = some a → a.insertedSeq < s.nextSeq
  distinct : ∀ id id' a b, s.entries.lookup id = some a → s.entries.lookup id' = some b →
    a.insertedSeq = b.insertedSeq → id = id'

theorem lookup_remove_eq :
    (s.remove id').entries.lookup id = if id = id' then none else s.entries.lookup id := by
  split
  · next h =>
    rw [h]
    exact AList.lookup_erase _ _
  · next h => exact Assoc.lookup_erase_of_ne h

theorem lookup_insert_eq :
    (s.insert e).entries.lookup id =
      if id = e.id then some ⟨e, s.nextSeq⟩ else s.entries.lookup id := by
  split
  · next h =>
    rw [h]
    exact AList.lookup_insert _
  · next h => exact Assoc.lookup_insert_of_ne h

theorem sequenced_new (capacity : Nat) : (new P capacity).Sequenced where
  below _ _ h := by cases h
  distinct _ _ _ _ h := by cases h

theorem Sequenced.remove (h : s.Sequenced) (victim : EnvelopeId) : (s.remove victim).Sequenced where
  below id a ha := by
    rw [lookup_remove_eq] at ha
    split at ha
    · cases ha
    · exact h.below id a ha
  distinct id id' a b ha hb heq := by
    rw [lookup_remove_eq] at ha hb
    split at ha
    · cases ha
    · split at hb
      · cases hb
      · exact h.distinct id id' a b ha hb heq

theorem Sequenced.insert (h : s.Sequenced) (e : Envelope P) : (s.insert e).Sequenced where
  below id a ha := by
    rw [lookup_insert_eq] at ha
    split at ha
    · cases ha
      exact Nat.lt_succ_self _
    · exact Nat.lt_succ_of_lt (h.below id a ha)
  distinct id id' a b ha hb heq := by
    rw [lookup_insert_eq] at ha hb
    split at ha
    · next hid =>
      split at hb
      · next hid' => rw [hid, hid']
      · cases ha
        exact absurd heq.symm (Nat.ne_of_lt (h.below id' b hb))
    · split at hb
      · cases hb
        exact absurd heq (Nat.ne_of_lt (h.below id a ha))
      · exact h.distinct id id' a b ha hb heq

theorem Sequenced.accept (h : s.Sequenced) (e : Envelope P) (now : UInt64) :
    (s.accept e now).2.Sequenced := by
  have hoffered := s.accept_offered e now
  generalize s.accept e now = result at hoffered
  cases hoffered with
  | duplicate | expired | ttlExhausted | refused => exact h
  | overfull => exact h.remove _
  | new => exact h.insert e
  | replaced => exact (h.remove _).insert e

theorem Sequenced.foldl_remove (h : s.Sequenced) (ids : List EnvelopeId) :
    (ids.foldl Store.remove s).Sequenced := by
  induction ids generalizing s with
  | nil => exact h
  | cons id ids ih => exact ih (h.remove id)

section Before

theorem Before.ne (h : s.Before id id') : id ≠ id' := by
  rintro rfl
  obtain ⟨a, b, ha, hb, hlt⟩ := h
  rw [ha] at hb
  cases hb
  exact Nat.lt_irrefl _ hlt

theorem Before.asymm (h : s.Before id id') : ¬ s.Before id' id := by
  rintro ⟨b', a', hb', ha', hlt'⟩
  obtain ⟨a, b, ha, hb, hlt⟩ := h
  rw [ha] at ha'
  rw [hb] at hb'
  cases ha'
  cases hb'
  exact Nat.lt_asymm hlt hlt'

theorem Sequenced.before_total (h : s.Sequenced) (hid : s.contains id = true)
    (hid' : s.contains id' = true) (hne : id ≠ id') : s.Before id id' ∨ s.Before id' id := by
  obtain ⟨x, hx⟩ := contains_iff.mp hid
  obtain ⟨y, hy⟩ := contains_iff.mp hid'
  obtain ⟨i, hi⟩ := get_eq_some_iff.mp hx
  obtain ⟨j, hj⟩ := get_eq_some_iff.mp hy
  rcases Nat.lt_trichotomy i j with hlt | heq | hlt
  · exact .inl ⟨_, _, hi, hj, hlt⟩
  · exact absurd (h.distinct id id' _ _ hi hj heq) hne
  · exact .inr ⟨_, _, hj, hi, hlt⟩

theorem before_remove {victim : EnvelopeId} :
    (s.remove victim).Before id id' ↔ id ≠ victim ∧ id' ≠ victim ∧ s.Before id id' := by
  simp only [Before, lookup_remove_eq]
  constructor
  · rintro ⟨a, b, ha, hb, hlt⟩
    split at ha
    · cases ha
    · next hid =>
      split at hb
      · cases hb
      · next hid' => exact ⟨hid, hid', a, b, ha, hb, hlt⟩
  · rintro ⟨hid, hid', a, b, ha, hb, hlt⟩
    exact ⟨a, b, by rwa [if_neg hid], by rwa [if_neg hid'], hlt⟩

theorem before_insert (hid : id ≠ e.id) (hid' : id' ≠ e.id) :
    (s.insert e).Before id id' ↔ s.Before id id' := by
  simp only [Before, lookup_insert_eq, if_neg hid, if_neg hid']

theorem Sequenced.before_inserted (h : s.Sequenced) (hid : s.contains id = true)
    (hne : id ≠ e.id) : (s.insert e).Before id e.id := by
  obtain ⟨x, hx⟩ := contains_iff.mp hid
  obtain ⟨i, hi⟩ := get_eq_some_iff.mp hx
  refine ⟨_, ⟨e, s.nextSeq⟩, ?_, ?_, h.below id _ hi⟩
  · rwa [lookup_insert_eq, if_neg hne]
  · rw [lookup_insert_eq, if_pos rfl]

theorem worst_before {worst : (_ : EnvelopeId) × Entry P} (h : s.Sequenced)
    (hworst : s.worstEntry = some worst) (hx : s.get id = some x) (hne : id ≠ worst.1) :
    x.priority.toNat < worst.2.envelope.priority.toNat ∨
      x.priority = worst.2.envelope.priority ∧ s.Before worst.1 id := by
  obtain ⟨i, hi⟩ := get_eq_some_iff.mp hx
  have hlookup := lookup_worstEntry hworst
  rcases worstKeyLe_iff.mp (worstKeyLe_worstEntry hworst hi) with hlt | ⟨heq, hle⟩
  · exact .inl hlt
  · refine .inr ⟨heq, _, _, hlookup, hi, Nat.lt_of_le_of_ne hle fun hseq => ?_⟩
    exact hne (h.distinct worst.1 id _ _ hlookup hi hseq).symm

end Before

section Twin

structure Twin (s t : Store P) : Prop where
  capacity : s.capacity = t.capacity
  get : ∀ id, s.get id = t.get id
  order : ∀ id id' x x', s.get id = some x → s.get id' = some x' → x.priority = x'.priority →
    x.priority ≠ .sos → (s.Before id id' ↔ t.Before id id')

theorem heldIds_congr (h : ∀ id, s.get id = t.get id) : s.heldIds = t.heldIds := by
  ext id
  rw [mem_heldIds, mem_heldIds, contains, contains, h id]

theorem len_congr (h : ∀ id, s.get id = t.get id) : s.len = t.len := by
  rw [← card_heldIds, ← card_heldIds, heldIds_congr h]

theorem bounded_congr (hcapacity : s.capacity = t.capacity) (h : ∀ id, s.get id = t.get id)
    (hs : s.Bounded) : t.Bounded := by
  rw [Bounded, ← len_congr h, ← hcapacity]
  exact hs

theorem admits_congr (hcapacity : s.capacity = t.capacity) (h : ∀ id, s.get id = t.get id) :
    s.Admits e now ↔ t.Admits e now := by
  simp only [Admits, contains, h e.id, len_congr h, hcapacity, mem_envelopes_iff, h]

theorem refusal_congr (h : ∀ id, s.get id = t.get id) :
    s.refusal e now = t.refusal e now := by
  rw [refusal, refusal, contains, contains, h e.id]

theorem Admits.lt_worst {worst : (_ : EnvelopeId) × Entry P} (h : s.Admits e now)
    (hfull : s.capacity ≤ s.len) (hworst : s.worstEntry = some worst) :
    e.priority.toNat < worst.2.envelope.priority.toNat := by
  obtain ⟨-, -, hroom | ⟨x, hx, hlt⟩⟩ := h
  · exact absurd hroom (Nat.not_lt.mpr hfull)
  · exact hlt.trans_le (priority_le_worst hworst (mem_envelopes_iff.mp hx))

theorem worst_priority_congr {w w' : (_ : EnvelopeId) × Entry P} (h : ∀ id, s.get id = t.get id)
    (hw : s.worstEntry = some w) (hw' : t.worstEntry = some w') :
    w.2.envelope.priority = w'.2.envelope.priority := by
  have hle := priority_le_worst hw' ((h w.1).symm.trans (get_worstEntry hw))
  have hle' := priority_le_worst hw ((h w'.1).trans (get_worstEntry hw'))
  exact Priority.toNat_injective (Nat.le_antisymm hle hle')

theorem worst_eq_of_before {w w' : (_ : EnvelopeId) × Entry P} (h : ∀ id, s.get id = t.get id)
    (hs : s.Sequenced) (ht : t.Sequenced) (hw : s.worstEntry = some w)
    (hw' : t.worstEntry = some w') (horder : s.Before w.1 w'.1 → t.Before w.1 w'.1) :
    w.1 = w'.1 := by
  by_contra hne
  have hprio := worst_priority_congr h hw hw'
  have hbefore : s.Before w.1 w'.1 := by
    rcases worst_before hs hw ((h w'.1).trans (get_worstEntry hw')) (Ne.symm hne) with
      hlt | ⟨-, hbefore⟩
    · exact absurd hlt (Nat.not_lt.mpr (Nat.le_of_eq (congrArg Priority.toNat hprio)))
    · exact hbefore
  have hbefore' : t.Before w'.1 w.1 := by
    rcases worst_before ht hw' ((h w.1).symm.trans (get_worstEntry hw)) hne with
      hlt | ⟨-, hbefore⟩
    · exact absurd hlt (Nat.not_lt.mpr (Nat.le_of_eq (congrArg Priority.toNat hprio.symm)))
    · exact hbefore
  exact (horder hbefore).asymm hbefore'

theorem Twin.worst_eq {w w' : (_ : EnvelopeId) × Entry P} (h : Twin s t) (hs : s.Sequenced)
    (ht : t.Sequenced) (hw : s.worstEntry = some w) (hw' : t.worstEntry = some w')
    (hsos : w.2.envelope.priority ≠ .sos) : w.1 = w'.1 := by
  have hprio := worst_priority_congr h.get hw hw'
  have hget' : s.get w'.1 = some w'.2.envelope := (h.get w'.1).trans (get_worstEntry hw')
  exact worst_eq_of_before h.get hs ht hw hw'
    (h.order _ _ _ _ (get_worstEntry hw) hget' hprio hsos).mp

theorem Twin.remove (h : Twin s t) (victim : EnvelopeId) :
    Twin (s.remove victim) (t.remove victim) where
  capacity := h.capacity
  get id := by rw [get_remove_eq, get_remove_eq, h.get id]
  order id id' x x' hx hx' hprio hsos := by
    rw [before_remove, before_remove,
      h.order id id' x x' (get_remove hx) (get_remove hx') hprio hsos]

theorem Twin.insert (h : Twin s t) (hs : s.Sequenced) (ht : t.Sequenced)
    (hnew : s.contains e.id = false) : Twin (s.insert e) (t.insert e) where
  capacity := h.capacity
  get id := by rw [get_insert_eq, get_insert_eq, h.get id]
  order id id' x x' hx hx' hprio hsos := by
    have hnew' : t.contains e.id = false := by rwa [contains, ← h.get e.id]
    -- a newcomer is the youngest in either store
    have hlast : ∀ {s : Store P}, s.Sequenced → ∀ id, ¬ (s.insert e).Before e.id id := by
      intro s hs id hbefore
      obtain ⟨a, b, ha, hb, hlt⟩ := hbefore
      rw [lookup_insert_eq, if_pos rfl] at ha
      cases ha
      have hbelow := (hs.insert e).below id b hb
      exact absurd hlt (Nat.not_lt.mpr (Nat.le_of_lt_succ hbelow))
    by_cases hid : id = e.id
    · rw [hid]
      exact iff_of_false (hlast hs id') (hlast ht id')
    · rw [get_insert_of_ne hid] at hx
      have hheld : s.contains id = true := contains_iff.mpr ⟨x, hx⟩
      have hheld' : t.contains id = true := contains_iff.mpr ⟨x, (h.get id).symm.trans hx⟩
      by_cases hid' : id' = e.id
      · rw [hid']
        exact iff_of_true (hs.before_inserted hheld hid) (ht.before_inserted hheld' hid)
      · rw [get_insert_of_ne hid'] at hx'
        rw [before_insert hid hid', before_insert hid hid']
        exact h.order id id' x x' hx hx' hprio hsos

theorem accept_cases_congr (hcapacity : s.capacity = t.capacity)
    (h : ∀ id, s.get id = t.get id) (hbounded : s.Bounded) (hadmits : s.Admits e now) :
    (s.len < s.capacity ∧ s.accept e now = ((.new, none), s.insert e) ∧
        t.accept e now = ((.new, none), t.insert e)) ∨
      s.capacity ≤ s.len ∧ ∃ w w', s.worstEntry = some w ∧ t.worstEntry = some w' ∧
        s.accept e now = ((.new, some w.1), (s.remove w.1).insert e) ∧
        t.accept e now = ((.new, some w'.1), (t.remove w'.1).insert e) := by
  have hbounded' := bounded_congr hcapacity h hbounded
  have hadmits' := (admits_congr hcapacity h).mp hadmits
  rcases hadmits.room_or_worst hbounded with ⟨hroom, hresult⟩ | ⟨hfull, w, hw, hresult⟩
  · refine .inl ⟨hroom, hresult, hadmits'.accept_room hbounded' ?_⟩
    rwa [← len_congr h, ← hcapacity]
  · rcases hadmits'.room_or_worst hbounded' with ⟨hroom', -⟩ | ⟨-, w', hw', hresult'⟩
    · rw [← len_congr h, ← hcapacity] at hroom'
      exact absurd hroom' (Nat.not_lt.mpr hfull)
    · exact .inr ⟨hfull, w, w', hw, hw', hresult, hresult'⟩

theorem Twin.accept (h : Twin s t) (hs : s.Sequenced) (ht : t.Sequenced) (hbounded : s.Bounded)
    (e : Envelope P) (now : UInt64) :
    (s.accept e now).1 = (t.accept e now).1 ∧ Twin (s.accept e now).2 (t.accept e now).2 := by
  have hbounded' := bounded_congr h.capacity h.get hbounded
  by_cases hadmits : s.Admits e now
  · rcases accept_cases_congr h.capacity h.get hbounded hadmits with
      ⟨-, hresult, hresult'⟩ | ⟨hfull, w, w', hw, hw', hresult, hresult'⟩
    · rw [hresult, hresult']
      exact ⟨rfl, h.insert hs ht hadmits.1⟩
    · have heq := h.worst_eq hs ht hw hw' (ne_sos_of_lt (hadmits.lt_worst hfull hw))
      rw [hresult, hresult', heq]
      exact ⟨rfl, (h.remove w'.1).insert (hs.remove _) (ht.remove _)
        (contains_remove_of hadmits.1 _)⟩
  · rw [accept_refusal hbounded hadmits,
      accept_refusal hbounded' ((admits_congr h.capacity h.get).not.mp hadmits),
      refusal_congr h.get]
    exact ⟨rfl, h⟩

theorem before_foldl_remove (ids : List EnvelopeId) :
    (ids.foldl Store.remove s).Before id id' ↔ id ∉ ids ∧ id' ∉ ids ∧ s.Before id id' := by
  induction ids generalizing s with
  | nil => simp
  | cons victim ids ih =>
    rw [List.foldl_cons, ih, before_remove]
    simp only [List.mem_cons, not_or]
    tauto

theorem Twin.purgeExpired (h : Twin s t) (now : UInt64) :
    (s.purgeExpired now).1.Perm (t.purgeExpired now).1 ∧
      Twin (s.purgeExpired now).2 (t.purgeExpired now).2 := by
  have hmem : ∀ id, id ∈ (s.purgeExpired now).1 ↔ id ∈ (t.purgeExpired now).1 := by
    intro id
    rw [DurableStore.mem_purged, DurableStore.mem_purged, h.get id]
  refine ⟨(List.perm_ext_iff_of_nodup (DurableStore.nodup_purged s now)
    (DurableStore.nodup_purged t now)).mpr hmem, ?_⟩
  change Twin ((s.purgeExpired now).1.foldl Store.remove s)
    ((t.purgeExpired now).1.foldl Store.remove t)
  refine ⟨?_, fun id => ?_, fun id id' x x' hx hx' hprio hsos => ?_⟩
  · rw [capacity_foldl_remove, capacity_foldl_remove, h.capacity]
  · rw [get_foldl_remove, get_foldl_remove, h.get id]
    simp only [hmem id]
  · rw [get_foldl_remove] at hx hx'
    rw [before_foldl_remove, before_foldl_remove, hmem id, hmem id']
    split at hx
    · cases hx
    · split at hx'
      · cases hx'
      · rw [h.order id id' x x' hx hx' hprio hsos]

end Twin

end Store

inductive Request (P : Primitives) : Type
  | accept (envelope : Envelope P) (now : UInt64)
  | purgeExpired (now : UInt64)

namespace Request

variable {s t : Store P} {d : DurableStore P} {requests : List (Request P)}

def operation : Request P → DurableStore.Operation P
  | accept envelope now => .accept envelope now
  | purgeExpired now => .purgeExpired now

def drops (s : Store P) : Request P → Finset EnvelopeId
  | accept envelope now => (s.accept envelope now).1.2.toFinset
  | purgeExpired now => (s.purgeExpired now).1.toFinset

def observe : List (Request P) →
    Method MeshError (DurableStore P) (List (DurableStore.Answer × Finset EnvelopeId))
  | [] => return []
  | request :: requests => do
    let self ← get
    let answer ← request.operation.run
    let rest ← observe requests
    return (answer, request.drops self.memory) :: rest

def answer (s : Store P) : Request P → DurableStore.Answer
  | accept envelope now => .accepted (s.accept envelope now).1.1
  | purgeExpired now => .purged (s.purgeExpired now).1.length

def next (s : Store P) : Request P → Store P
  | accept envelope now => (s.accept envelope now).2
  | purgeExpired now => (s.purgeExpired now).2

def trace (s : Store P) : List (Request P) → List (DurableStore.Answer × Finset EnvelopeId)
  | [] => []
  | request :: requests => (request.answer s, request.drops s) :: trace (request.next s) requests

theorem observe_run (hopens : P.Opens) (hseals : P.Seals) (h : d.Intact)
    (hfits : ∀ request ∈ requests, request.operation.Fits) :
    ∃ d', (observe requests).run d = .ok (trace d.memory requests) d' := by
  induction requests generalizing d with
  | nil => exact ⟨d, rfl⟩
  | cons request requests ih =>
    obtain ⟨hfit, hfits⟩ := List.forall_mem_cons.mp hfits
    obtain ⟨d₁, hrun, h₁, hmemory⟩ : ∃ d₁, request.operation.run.run d =
        .ok (request.answer d.memory) d₁ ∧ d₁.Intact ∧ d₁.memory = request.next d.memory := by
      cases request with
      | accept e now =>
        obtain ⟨disk, hrun, hagrees, hsound⟩ := h.agrees.accept h.sound hopens now
          fun _ => DurableStore.storable_of_length hseals hfit d
        refine ⟨_, ?_, ⟨hagrees, hsound⟩, rfl⟩
        rw [operation, DurableStore.Operation.run, EStateM.run_bind, hrun]
        rfl
      | purgeExpired now =>
        obtain ⟨disk, hrun, hagrees, hsound⟩ := h.agrees.purgeExpired h.sound now
        refine ⟨_, ?_, ⟨hagrees, hsound⟩, rfl⟩
        rw [operation, DurableStore.Operation.run, EStateM.run_bind, hrun]
        rfl
    obtain ⟨d', hrest⟩ := ih h₁ hfits
    refine ⟨d', ?_⟩
    rw [observe, EStateM.run_bind, EStateM.run_get]
    dsimp only
    rw [EStateM.run_bind, hrun]
    dsimp only
    rw [EStateM.run_bind, hrest, hmemory]
    rfl

theorem next_sequenced (h : s.Sequenced) (request : Request P) : (request.next s).Sequenced := by
  cases request with
  | accept e now => exact h.accept e now
  | purgeExpired now => exact h.foldl_remove _

theorem next_bounded (h : s.Bounded) (request : Request P) : (request.next s).Bounded := by
  cases request with
  | accept e now => exact h.accept e now
  | purgeExpired now => exact h.purgeExpired now

theorem twin_next (h : s.Twin t) (hs : s.Sequenced) (ht : t.Sequenced) (hbounded : s.Bounded)
    (request : Request P) :
    request.answer s = request.answer t ∧ request.drops s = request.drops t ∧
      (request.next s).Twin (request.next t) := by
  cases request with
  | accept e now =>
    obtain ⟨hanswer, htwin⟩ := h.accept hs ht hbounded e now
    refine ⟨?_, ?_, htwin⟩
    · rw [answer, answer, hanswer]
    · rw [drops, drops, hanswer]
  | purgeExpired now =>
    obtain ⟨hperm, htwin⟩ := h.purgeExpired now
    exact ⟨congrArg DurableStore.Answer.purged hperm.length_eq, List.toFinset_eq_of_perm _ _ hperm,
      htwin⟩

theorem trace_eq_of_twin (h : s.Twin t) (hs : s.Sequenced) (ht : t.Sequenced)
    (hbounded : s.Bounded) (requests : List (Request P)) : trace s requests = trace t requests := by
  induction requests generalizing s t with
  | nil => rfl
  | cons request requests ih =>
    obtain ⟨hanswer, hdrops, htwin⟩ := twin_next h hs ht hbounded request
    rw [trace, trace, hanswer, hdrops, ih htwin (next_sequenced hs request)
      (next_sequenced ht request) (next_bounded hbounded request)]

section Diverging

/-- There is always an SOS envelope that a store of this capacity does not hold. -/
def Supplied (P : Primitives) (capacity : Nat) : Prop :=
  ∀ ids : Finset EnvelopeId, ids.card ≤ capacity → ∃ (e : Envelope P) (now : UInt64),
    e.id ∉ ids ∧ e.priority = .sos ∧ e.Lives now ∧ e.sealed.length < 2 ^ 32

def evictable (s : Store P) : Finset EnvelopeId :=
  s.heldIds.filter fun id => (s.get id).any fun x => x.priority ≠ .sos

theorem mem_evictable {id : EnvelopeId} :
    id ∈ evictable s ↔ ∃ x, s.get id = some x ∧ x.priority ≠ .sos := by
  rw [evictable, Finset.mem_filter, Store.mem_heldIds, Store.contains_iff, Option.any_eq_true]
  simp only [decide_eq_true_eq]
  constructor
  · rintro ⟨-, x, hx, hsos⟩
    exact ⟨x, hx, hsos⟩
  · rintro ⟨x, hx, hsos⟩
    exact ⟨⟨x, hx⟩, x, hx, hsos⟩

theorem evictable_insert {e : Envelope P} (hnew : s.contains e.id = false)
    (hsos : e.priority = .sos) : evictable (s.insert e) = evictable s := by
  ext id
  rw [mem_evictable, mem_evictable, Store.get_insert_eq]
  split
  · next heq =>
    rw [heq, Store.contains_eq_false_iff.mp hnew]
    constructor
    · rintro ⟨x, hx, hne⟩
      cases hx
      exact absurd hsos hne
    · rintro ⟨x, hx, -⟩
      cases hx
  · rfl

theorem evictable_remove {victim : EnvelopeId} :
    evictable (s.remove victim) = (evictable s).erase victim := by
  ext id
  rw [mem_evictable, Finset.mem_erase, mem_evictable, Store.get_remove_eq]
  split
  · next heq =>
    constructor
    · rintro ⟨x, hx, -⟩
      cases hx
    · exact fun h => absurd heq h.1
  · next hne => exact ⟨fun h => ⟨hne, h⟩, fun h => h.2⟩

structure Crossed (s t : Store P) (id id' : EnvelopeId) : Prop where
  capacity : s.capacity = t.capacity
  get : ∀ id, s.get id = t.get id
  tied : ∃ x x', s.get id = some x ∧ s.get id' = some x' ∧ x.priority = x'.priority ∧
    x.priority ≠ .sos
  before : s.Before id id'
  after : t.Before id' id

variable {id id' : EnvelopeId} {e : Envelope P}

theorem Crossed.insert (h : Crossed s t id id') (hnew : s.contains e.id = false) :
    Crossed (s.insert e) (t.insert e) id id' := by
  obtain ⟨hcapacity, hget, ⟨x, x', hx, hx', htied⟩, hbefore, hafter⟩ := h
  have hne : ∀ {id x}, s.get id = some x → id ≠ e.id := by
    rintro id x hx rfl
    rw [Store.contains_eq_false_iff.mp hnew] at hx
    cases hx
  refine ⟨hcapacity, fun id => ?_, ⟨x, x', ?_, ?_, htied⟩, ?_, ?_⟩
  · rw [Store.get_insert_eq, Store.get_insert_eq, hget id]
  · rwa [Store.get_insert_of_ne (hne hx)]
  · rwa [Store.get_insert_of_ne (hne hx')]
  · rwa [Store.before_insert (hne hx) (hne hx')]
  · rwa [Store.before_insert (hne hx') (hne hx)]

theorem Crossed.remove (h : Crossed s t id id') {victim : EnvelopeId} (hid : id ≠ victim)
    (hid' : id' ≠ victim) : Crossed (s.remove victim) (t.remove victim) id id' := by
  obtain ⟨hcapacity, hget, ⟨x, x', hx, hx', htied⟩, hbefore, hafter⟩ := h
  refine ⟨hcapacity, fun id => ?_, ⟨x, x', ?_, ?_, htied⟩, ?_, ?_⟩
  · rw [Store.get_remove_eq, Store.get_remove_eq, hget id]
  · rwa [Store.get_remove_of_ne hid]
  · rwa [Store.get_remove_of_ne hid']
  · exact Store.before_remove.mpr ⟨hid, hid', hbefore⟩
  · exact Store.before_remove.mpr ⟨hid', hid, hafter⟩

theorem not_worst_of_before {w : (_ : EnvelopeId) × Entry P} {x x' : Envelope P}
    (hs : s.Sequenced) (hw : s.worstEntry = some w) (hx : s.get id = some x)
    (hx' : s.get id' = some x') (htied : x.priority = x'.priority) (hbefore : s.Before id id') :
    id' ≠ w.1 := by
  intro heq
  have hget := Store.get_worstEntry hw
  rw [← heq, hx'] at hget
  have hprio : x'.priority = w.2.envelope.priority := by rw [Option.some.inj hget]
  rcases Store.worst_before hs hw hx (fun h => hbefore.ne (h.trans heq.symm)) with hlt | ⟨-, hafter⟩
  · rw [htied, hprio] at hlt
    exact Nat.lt_irrefl _ hlt
  · rw [← heq] at hafter
    exact hbefore.asymm hafter

theorem Crossed.diverge (hs : s.Sequenced) (ht : t.Sequenced) (hbounded : s.Bounded)
    (hsupplied : Supplied P s.capacity) (h : Crossed s t id id') :
    ∃ requests : List (Request P), (∀ request ∈ requests, request.operation.Fits) ∧
      trace s requests ≠ trace t requests := by
  -- each offer either fills a place or evicts one of what can be evicted
  generalize hn : s.capacity - s.len + (evictable s).card = n
  induction n using Nat.strong_induction_on generalizing s t with
  | _ n ih =>
    obtain ⟨e, now, hfresh, hsos, hlives, hfits⟩ :=
      hsupplied s.heldIds (Store.card_heldIds.trans_le hbounded)
    have hnew : s.contains e.id = false :=
      Bool.eq_false_iff.mpr fun hheld => hfresh (Store.mem_heldIds.mpr hheld)
    obtain ⟨x, x', hx, hx', htied, hnotSos⟩ := h.tied
    have hadmits : s.Admits e now := by
      refine ⟨hnew, hlives, .inr ⟨x, Store.mem_envelopes_of_get hx, ?_⟩⟩
      rw [hsos]
      exact Nat.pos_of_ne_zero fun hzero => hnotSos (Priority.toNat_injective hzero)
    have hfit : (Request.accept e now).operation.Fits := hfits
    have hstep : ∀ {s' t' : Store P}, (s.accept e now).2 = s' → (t.accept e now).2 = t' →
        (∃ requests : List (Request P), (∀ request ∈ requests, request.operation.Fits) ∧
          trace s' requests ≠ trace t' requests) →
        ∃ requests : List (Request P), (∀ request ∈ requests, request.operation.Fits) ∧
          trace s requests ≠ trace t requests := by
      rintro s' t' rfl rfl ⟨requests, hall, hne⟩
      refine ⟨.accept e now :: requests, List.forall_mem_cons.mpr ⟨hfit, hall⟩, fun heq => hne ?_⟩
      exact (List.cons.inj heq).2
    rcases Store.accept_cases_congr h.capacity h.get hbounded hadmits with
      ⟨hroom, hresult, hresult'⟩ | ⟨hfull, w, w', hw, hw', hresult, hresult'⟩
    · refine hstep (congrArg Prod.snd hresult) (congrArg Prod.snd hresult') ?_
      refine ih _ ?_ (hs.insert e) (ht.insert e) (.insert hnew hroom) hsupplied (h.insert hnew) rfl
      rw [evictable_insert hnew hsos, Store.len_insert hnew, ← hn]
      change s.capacity - (s.len + 1) + _ < _
      omega
    · by_cases hsame : w.1 = w'.1
      · have hid' := not_worst_of_before hs hw hx hx' htied h.before
        have hid := not_worst_of_before ht hw' ((h.get _).symm.trans hx')
          ((h.get _).symm.trans hx) htied.symm h.after
        rw [← hsame] at hid hresult'
        have hnew' := Store.contains_remove_of hnew w.1
        have hmem : w.1 ∈ evictable s := mem_evictable.mpr
          ⟨_, Store.get_worstEntry hw, Store.ne_sos_of_lt (hadmits.lt_worst hfull hw)⟩
        have hcard := Finset.card_erase_add_one hmem
        have hlenRemove := Store.len_remove (Store.contains_worstEntry hw)
        have hle : s.len ≤ s.capacity := hbounded
        refine hstep (congrArg Prod.snd hresult) (congrArg Prod.snd hresult') ?_
        refine ih _ ?_ ((hs.remove _).insert e) ((ht.remove _).insert e)
          (.insert hnew' (by change _ < s.capacity; omega)) hsupplied
          ((h.remove hid hid').insert hnew') rfl
        rw [evictable_insert hnew' hsos, evictable_remove, Store.len_insert hnew', ← hn]
        change s.capacity - ((s.remove w.1).len + 1) + _ < _
        omega
      · refine ⟨[.accept e now], List.forall_mem_singleton.mpr hfit, fun heq => ?_⟩
        have hdrops := congrArg Prod.snd (List.cons.inj heq).1
        simp only [drops, hresult, hresult', Option.toFinset_some] at hdrops
        exact hsame (Finset.singleton_injective hdrops)

end Diverging

end Request

section KeyOrder

variable {s t : Store P} {xs : List (Envelope P)} {disk : EncryptedStore} {capacity : Nat}
  {now : UInt64} {id id' : EnvelopeId}

/-- Of two held envelopes that tie, the older has the smaller id. -/
def Store.KeyOrdered (s : Store P) : Prop :=
  ∀ id id' x x', s.get id = some x → s.get id' = some x' → x.priority = x'.priority →
    x.priority ≠ .sos → s.Before id id' → bytesLe id.bytes.1 id'.bytes.1 = true

theorem Store.Sequenced.foldl_insert (h : s.Sequenced) (xs : List (Envelope P)) :
    (xs.foldl Store.insert s).Sequenced := by
  induction xs generalizing s with
  | nil => exact h
  | cons x xs ih => exact ih (h.insert x)

theorem Store.pairwise_foldl_insert (h : s.Sequenced) (hnodup : (xs.map Envelope.id).Nodup) :
    xs.Pairwise fun x y => (xs.foldl Store.insert s).Before x.id y.id := by
  induction xs using List.reverseRecOn with
  | nil => exact .nil
  | append_singleton xs z ih =>
    rw [List.map_append, List.map_singleton, List.nodup_append] at hnodup
    obtain ⟨hnodup, -, hdisjoint⟩ := hnodup
    have hne : ∀ x ∈ xs, x.id ≠ z.id := fun x hx =>
      hdisjoint _ (List.mem_map_of_mem hx) _ (List.mem_singleton_self _)
    rw [List.foldl_append, List.foldl_cons, List.foldl_nil, List.pairwise_append]
    refine ⟨(ih hnodup).imp_of_mem fun hx hy hbefore => ?_, List.pairwise_singleton _ _, ?_⟩
    · exact (Store.before_insert (hne _ hx) (hne _ hy)).mpr hbefore
    · intro x hx y hy
      rw [List.mem_singleton.mp hy]
      refine (h.foldl_insert xs).before_inserted ?_ (hne x hx)
      exact Store.contains_iff.mpr ⟨x, Store.get_foldl_insert hnodup hx⟩

theorem DurableStore.Orderly.sorted_loads (h : DurableStore.Orderly P disk capacity) :
    (DurableStore.loads P disk now).Pairwise fun x y =>
      bytesLe x.id.bytes.1 y.id.bytes.1 = true := by
  have hids : (EncryptedStore.idsOf disk.table).Pairwise fun id id' =>
      bytesLe id.bytes.1 id'.bytes.1 = true := by
    refine List.Pairwise.filterMap _ ?_ (List.pairwise_insertionSort _ _)
    intro key key' hle id hid id' hid'
    split at hid
    · split at hid'
      · cases hid
        cases hid'
        exact hle
      · cases hid'
    · cases hid
  refine List.Pairwise.filterMap _ ?_ hids
  intro id id' hle x hx y hy
  rw [h.named id x (EncryptedStore.loadable_eq_some_iff.mp hx).1,
    h.named id' y (EncryptedStore.loadable_eq_some_iff.mp hy).1]
  exact hle

theorem pairwise_either {R : α → α → Prop} {l : List α} {x y : α} (h : l.Pairwise R) (hx : x ∈ l)
    (hy : y ∈ l) (hne : x ≠ y) : R x y ∨ R y x := by
  induction h with
  | nil => cases hx
  | cons hhead _ ih =>
    rcases List.mem_cons.mp hx with rfl | hx'
    · exact .inl (hhead y ((List.mem_cons.mp hy).resolve_left (Ne.symm hne)))
    · rcases List.mem_cons.mp hy with rfl | hy'
      · exact .inr (hhead x hx')
      · exact ih hx' hy'

theorem DurableStore.Orderly.before_iff (h : DurableStore.Orderly P disk capacity)
    (ht : t = (DurableStore.loads P disk now).foldl Store.insert (Store.new P capacity))
    (hid : t.contains id = true) (hid' : t.contains id' = true) (hne : id ≠ id') :
    t.Before id id' ↔ bytesLe id.bytes.1 id'.bytes.1 = true := by
  have hpairs : (DurableStore.loads P disk now).Pairwise fun x y =>
      bytesLe x.id.bytes.1 y.id.bytes.1 = true ∧ t.Before x.id y.id := by
    rw [ht]
    exact h.sorted_loads.and
      (Store.pairwise_foldl_insert (Store.sequenced_new capacity) h.nodup_loads)
  have hloaded : ∀ id, t.contains id = true → ∃ x ∈ DurableStore.loads P disk now, x.id = id := by
    intro id hheld
    obtain ⟨x, hx⟩ := Store.contains_iff.mp hheld
    have hxid := Store.id_of_get hx
    rw [ht, h.get_foldl_loads, ← hxid] at hx
    exact ⟨x, h.mem_loads.mpr hx, hxid⟩
  obtain ⟨x, hx, rfl⟩ := hloaded id hid
  obtain ⟨y, hy, rfl⟩ := hloaded id' hid'
  have hne' : x ≠ y := fun heq => hne (congrArg Envelope.id heq)
  rcases pairwise_either hpairs hx hy hne' with ⟨hle, hbefore⟩ | ⟨hle, hbefore⟩
  · exact iff_of_true hbefore hle
  · refine iff_of_false hbefore.asymm fun hle' => hne ?_
    exact EncryptedStore.key_injective (bytesLe_antisymm hle' hle)

structure Store.Filled (s : Store P) : Prop where
  sequenced : s.Sequenced
  hops : ∀ id x, s.get id = some x → x.ttlHops ≠ 0

theorem Store.filled_new (capacity : Nat) : (Store.new P capacity).Filled where
  sequenced := sequenced_new capacity
  hops id x hx := by
    rw [get_new] at hx
    cases hx

theorem Store.Filled.accept (h : s.Filled) (e : Envelope P) (now : UInt64) :
    (s.accept e now).2.Filled where
  sequenced := h.sequenced.accept e now
  hops id x hx := by
    rcases get_accept hx with hx | ⟨rfl, -, hnew⟩
    · exact h.hops id x hx
    · exact (live_of_accept_new hnew).2.2

theorem Store.Filled.purgeExpired (h : s.Filled) (now : UInt64) :
    (s.purgeExpired now).2.Filled where
  sequenced := h.sequenced.foldl_remove _
  hops id x hx := by
    have hget := (get_foldl_remove (s.purgeExpired now).1).symm.trans hx
    split at hget
    · cases hget
    · exact h.hops id x hget

namespace DurableStore

variable {d d' : DurableStore P}

theorem filled_openStore (capacity : Nat) (now : UInt64) (disk : EncryptedStore) :
    (Method.after ((openStore now).run ⟨Store.new P capacity, disk⟩)).memory.Filled :=
  keeps_openStore (fun _ e now h => h.accept e now) now _ (Store.filled_new capacity)

theorem filled_run {ops : List (Operation P)} {answers : List Answer} (h : d.memory.Filled)
    (hrun : (Operation.runAll ops).run d = .ok answers d') : d'.memory.Filled := by
  induction ops generalizing d answers with
  | nil =>
    cases hrun
    exact h
  | cons op ops ih =>
    obtain ⟨answer, d₁, hop, hrest⟩ := Method.run_bind_ok.mp hrun
    obtain ⟨answers', d₂, hops, hpure⟩ := Method.run_bind_ok.mp hrest
    cases hpure
    refine ih ?_ hops
    cases op with
    | accept e now =>
      obtain ⟨outcome, d₂, haccept, hpure⟩ := Method.run_bind_ok.mp hop
      cases hpure
      have hkeeps := keeps_accept (Q := Store.Filled) (fun _ e now h => h.accept e now) e now d h
      rwa [haccept] at hkeeps
    | purgeExpired now =>
      obtain ⟨count, d₂, hpurge, hpure⟩ := Method.run_bind_ok.mp hop
      cases hpure
      have hkeeps :=
        keeps_purgeExpired (Q := Store.Filled) (fun _ now h => h.purgeExpired now) now d h
      rwa [hpurge] at hkeeps
    | reopen capacity now =>
      obtain ⟨⟨⟩, d₂, hmodify, hop⟩ := Method.run_bind_ok.mp hop
      obtain ⟨⟨⟩, d₃, hopen, hpure⟩ := Method.run_bind_ok.mp hop
      cases hmodify
      cases hpure
      have hfilled := filled_openStore (P := P) capacity now d.disk
      rwa [hopen] at hfilled

/-- No program can tell the one store from the other. -/
def Indistinct (d d' : DurableStore P) : Prop :=
  ∀ requests : List (Request P), (∀ request ∈ requests, request.operation.Fits) →
    Method.seen ((Request.observe requests).run d) = Method.seen ((Request.observe requests).run d')

theorem indistinct_iff (hopens : P.Opens) (hseals : P.Seals) (h : d.Intact) (h' : d'.Intact) :
    d.Indistinct d' ↔ ∀ requests : List (Request P),
      (∀ request ∈ requests, request.operation.Fits) →
        Request.trace d.memory requests = Request.trace d'.memory requests := by
  refine forall_congr' fun requests => forall_congr' fun hfits => ?_
  obtain ⟨_, hrun⟩ := Request.observe_run hopens hseals h hfits
  obtain ⟨_, hrun'⟩ := Request.observe_run hopens hseals h' hfits
  rw [hrun, hrun', Method.seen_ok, Method.seen_ok, Except.ok.injEq]

/-- A reload that finds everything alive rebuilds the index in the order of the keys. -/
theorem Intact.reopen (h : d.Intact) (hlives : ∀ id x, d.memory.get id = some x → x.Lives now) :
    ∃ d', (Operation.reopen d.memory.capacity now).run.run d = .ok .opened d' ∧ d'.Intact ∧
      d'.memory = (loads P d.disk now).foldl Store.insert (Store.new P d.memory.capacity) ∧
      ∀ id, d.memory.get id = d'.memory.get id := by
  have horderly := h.agrees.orderly
  obtain ⟨d', hrun, hagrees, hsound, hmemory⟩ := horderly.openStore_run h.sound now
  refine ⟨d', ?_, ⟨hagrees, hsound⟩, hmemory, fun id => ?_⟩
  · exact Operation.run_reopen hrun
  · rw [hmemory, horderly.get_foldl_loads]
    have hrecord := h.agrees.records id List.not_mem_nil
    cases hget : d.memory.get id with
    | none => rw [EncryptedStore.loadable, hrecord, hget]
    | some x =>
      rw [hget] at hrecord
      exact (EncryptedStore.loadable_eq_some_iff.mpr ⟨hrecord, hlives id x hget⟩).symm

theorem reopened_twin_iff (h : d.Intact) (hs : d.memory.Sequenced)
    (ht : d'.memory = (loads P d.disk now).foldl Store.insert (Store.new P d.memory.capacity))
    (hget : ∀ id, d.memory.get id = d'.memory.get id) :
    d.memory.Twin d'.memory ↔ d.memory.KeyOrdered := by
  have hheld : ∀ {id x}, d.memory.get id = some x →
      d.memory.contains id = true ∧ d'.memory.contains id = true := fun {id x} hx =>
    ⟨Store.contains_iff.mpr ⟨x, hx⟩, Store.contains_iff.mpr ⟨x, (hget id).symm.trans hx⟩⟩
  constructor
  · intro htwin id id' x x' hx hx' hprio hsos hbefore
    have hbefore' := (htwin.order id id' x x' hx hx' hprio hsos).mp hbefore
    exact (h.agrees.orderly.before_iff ht (hheld hx).2 (hheld hx').2 hbefore.ne).mp hbefore'
  · intro hordered
    refine ⟨?_, hget, fun id id' x x' hx hx' hprio hsos => ?_⟩
    · rw [ht, Store.capacity_foldl_insert]
      rfl
    by_cases hne : id = id'
    · exact iff_of_false (fun hb => hb.ne hne) fun hb => hb.ne hne
    rw [h.agrees.orderly.before_iff ht (hheld hx).2 (hheld hx').2 hne]
    constructor
    · exact hordered id id' x x' hx hx' hprio hsos
    · intro hle
      refine (hs.before_total (hheld hx).1 (hheld hx').1 hne).resolve_right fun hbefore => hne ?_
      have hle' := hordered id' id x' x hx' hx hprio.symm (hprio ▸ hsos) hbefore
      exact EncryptedStore.key_injective (bytesLe_antisymm hle hle')

theorem keyOrdered_of_indistinct (hopens : P.Opens) (hseals : P.Seals) (h : d.Intact)
    (h' : d'.Intact) (hs : d.memory.Sequenced)
    (ht : d'.memory = (loads P d.disk now).foldl Store.insert (Store.new P d.memory.capacity))
    (hget : ∀ id, d.memory.get id = d'.memory.get id)
    (hsupplied : Request.Supplied P d.memory.capacity) (hindistinct : d.Indistinct d') :
    d.memory.KeyOrdered := by
  intro id id' x x' hx hx' hprio hsos hbefore
  by_contra hle
  have hheld : d'.memory.contains id = true := Store.contains_iff.mpr ⟨x, (hget id).symm.trans hx⟩
  have hheld' : d'.memory.contains id' = true :=
    Store.contains_iff.mpr ⟨x', (hget id').symm.trans hx'⟩
  have ht' : d'.memory.Sequenced := ht ▸ (Store.sequenced_new _).foldl_insert _
  have hafter : d'.memory.Before id' id := by
    refine (ht'.before_total hheld hheld' hbefore.ne).resolve_left fun hbefore' => hle ?_
    exact (h.agrees.orderly.before_iff ht hheld hheld' hbefore.ne).mp hbefore'
  have hcapacity : d.memory.capacity = d'.memory.capacity := by
    rw [ht, Store.capacity_foldl_insert]
    rfl
  have hcrossed : Request.Crossed d.memory d'.memory id id' :=
    ⟨hcapacity, hget, ⟨x, x', hx, hx', hprio, hsos⟩, hbefore, hafter⟩
  obtain ⟨requests, hfits, hne⟩ := hcrossed.diverge hs ht' h.agrees.bounded hsupplied
  exact hne ((indistinct_iff hopens hseals h h').mp hindistinct requests hfits)

/-- At any point of any run, a close and reopen with the same capacity that finds everything
alive goes unnoticed when, of held envelopes that tie, the older has the smaller id; and only
then, as long as new SOS envelopes can come in. -/
theorem restart_unnoticed (hopens : P.Opens) (hseals : P.Seals) {disk : EncryptedStore}
    (hsound : disk.Sound) (hfresh : disk.table = ∅) (capacity : Nat) (start : UInt64)
    {ops : List (Operation P)} (hfits : ∀ op ∈ ops, op.Fits) :
    ∃ opened answers d, (openStore start).run ⟨Store.new P capacity, disk⟩ = .ok () opened ∧
      (Operation.runAll ops).run opened = .ok answers d ∧
      ∀ now, (∀ x ∈ d.memory.envelopes, x.isExpired now = false) →
        ∃ d', (Operation.reopen d.memory.capacity now).run.run d = .ok .opened d' ∧
          (d.memory.KeyOrdered → d.Indistinct d') ∧
          (Request.Supplied P d.memory.capacity → d.Indistinct d' → d.memory.KeyOrdered) := by
  obtain ⟨opened, hopen, hopened, -⟩ := intact_openStore (P := P) hsound hfresh capacity start
  obtain ⟨answers, d, hrun, hd, -, -⟩ := hopened.run hopens
    (Operation.along_of_forall fun op hop d => (hfits op hop).stores hseals d)
  refine ⟨opened, answers, d, hopen, hrun, fun now hlive => ?_⟩
  have hfilledOpen := filled_openStore (P := P) capacity start disk
  rw [hopen] at hfilledOpen
  have hfilled := filled_run hfilledOpen hrun
  have hlives : ∀ id x, d.memory.get id = some x → x.Lives now := fun id x hx =>
    ⟨hlive x (Store.mem_envelopes_of_get hx), hfilled.hops id x hx⟩
  obtain ⟨d', hreopen, hd', ht, hget⟩ := hd.reopen hlives
  have ht' : d'.memory.Sequenced := ht ▸ (Store.sequenced_new _).foldl_insert _
  refine ⟨d', hreopen, fun hordered => ?_, ?_⟩
  · have htwin := (reopened_twin_iff hd hfilled.sequenced ht hget).mpr hordered
    exact (indistinct_iff hopens hseals hd hd').mpr fun requests _ =>
      Request.trace_eq_of_twin htwin hfilled.sequenced ht' hd.agrees.bounded requests
  · exact keyOrdered_of_indistinct hopens hseals hd hd' hfilled.sequenced ht hget

section Examples

def mirrorPrimitives : Primitives :=
  { toyPrimitives with blake3 := fun bs => ⟨(bs.reverse ++ List.replicate 32 0).take 32, by simp⟩ }

theorem opens_mirrorPrimitives : mirrorPrimitives.Opens := opens_toyPrimitives

theorem seals_mirrorPrimitives : mirrorPrimitives.Seals := fun _ _ _ _ _ => rfl

def mirrorEnvelope (priority : Priority) (byte : UInt8) : Envelope mirrorPrimitives :=
  .new mirrorPrimitives .broadcast priority 3 100 [byte]

def crossedOps : List (Operation mirrorPrimitives) :=
  [.accept (mirrorEnvelope .normal 2) 0, .accept (mirrorEnvelope .normal 1) 0]

def crossedOpened : DurableStore mirrorPrimitives :=
  Method.after ((openStore 0).run ⟨Store.new mirrorPrimitives 2, toyStore.disk⟩)

def crossedStore : DurableStore mirrorPrimitives :=
  Method.after ((Operation.runAll crossedOps).run crossedOpened)

def crossedReopened : DurableStore mirrorPrimitives :=
  Method.after ((Operation.reopen 2 1).run.run crossedStore)

theorem run_of_seen {x : Method ε σ α} {s : σ} {a : α} (h : Method.seen (x.run s) = .ok a) :
    x.run s = .ok a (Method.after (x.run s)) := by
  cases hrun : x.run s with
  | ok b t =>
    rw [hrun] at h
    cases h
    rfl
  | error f t =>
    rw [hrun] at h
    cases h

theorem run_crossedOps :
    (Operation.runAll crossedOps).run crossedOpened =
      .ok [.accepted .new, .accepted .new] crossedStore :=
  run_of_seen (by decide)

theorem reopen_crossedStore :
    (Operation.reopen crossedStore.memory.capacity 1).run.run crossedStore =
      .ok .opened crossedReopened :=
  run_of_seen (by decide)

theorem fits_mirrorEnvelope (priority : Priority) (byte : UInt8) (now : UInt64) :
    (Operation.accept (mirrorEnvelope priority byte) now).Fits := (by decide : 1 < 2 ^ 32)

theorem fits_crossedOps : ∀ op ∈ crossedOps, op.Fits :=
  List.forall_mem_cons.mpr ⟨fits_mirrorEnvelope _ _ _,
    List.forall_mem_singleton.mpr (fits_mirrorEnvelope _ _ _)⟩

/-- The same two envelopes, in the order of their ids. -/
def orderedOps : List (Operation mirrorPrimitives) :=
  [.accept (mirrorEnvelope .normal 1) 0, .accept (mirrorEnvelope .normal 2) 0]

def orderedStore : DurableStore mirrorPrimitives :=
  Method.after ((Operation.runAll orderedOps).run crossedOpened)

def orderedReopened : DurableStore mirrorPrimitives :=
  Method.after ((Operation.reopen 2 1).run.run orderedStore)

theorem run_orderedOps :
    (Operation.runAll orderedOps).run crossedOpened =
      .ok [.accepted .new, .accepted .new] orderedStore :=
  run_of_seen (by decide)

theorem reopen_orderedStore :
    (Operation.reopen orderedStore.memory.capacity 1).run.run orderedStore =
      .ok .opened orderedReopened :=
  run_of_seen (by decide)

theorem fits_orderedOps : ∀ op ∈ orderedOps, op.Fits :=
  List.forall_mem_cons.mpr ⟨fits_mirrorEnvelope _ _ _,
    List.forall_mem_singleton.mpr (fits_mirrorEnvelope _ _ _)⟩

theorem keyOrdered_orderedStore : orderedStore.memory.KeyOrdered := by
  have hentries : ∀ a ∈ orderedStore.memory.entries.entries,
      ∀ b ∈ orderedStore.memory.entries.entries, a.2.insertedSeq < b.2.insertedSeq →
        bytesLe a.1.bytes.1 b.1.bytes.1 = true := by decide
  intro id id' x x' _ _ _ _ hbefore
  obtain ⟨a, b, ha, hb, hlt⟩ := hbefore
  exact hentries ⟨id, a⟩ (Assoc.mem_entries_iff.mpr ha) ⟨id', b⟩ (Assoc.mem_entries_iff.mpr hb) hlt

theorem supplied_mirrorPrimitives : Request.Supplied mirrorPrimitives 2 := by
  intro ids hcard
  by_contra hnone
  have hmem : ∀ byte, (mirrorEnvelope .sos byte).id ∈ ids := by
    intro byte
    by_contra hfresh
    have hhops : (3 : UInt8) ≠ 0 := by decide
    exact hnone ⟨mirrorEnvelope .sos byte, 0, hfresh, rfl, ⟨rfl, hhops⟩,
      (by decide : 1 < 2 ^ 32)⟩
  have hsubset : ({(mirrorEnvelope .sos 1).id, (mirrorEnvelope .sos 2).id,
      (mirrorEnvelope .sos 3).id} : Finset EnvelopeId) ⊆ ids := by
    intro id hid
    simp only [Finset.mem_insert, Finset.mem_singleton] at hid
    rcases hid with rfl | rfl | rfl <;> exact hmem _
  have hthree : ({(mirrorEnvelope .sos 1).id, (mirrorEnvelope .sos 2).id,
      (mirrorEnvelope .sos 3).id} : Finset EnvelopeId).card = 3 := by decide
  have hle := Finset.card_le_card hsubset
  omega

theorem restart_unnoticed_orderedOps :
    orderedStore.Indistinct orderedReopened ∧
      (crossedStore.Indistinct crossedReopened ↔ crossedStore.memory.KeyOrdered) := by
  have hopened : (openStore 0).run ⟨Store.new mirrorPrimitives 2, toyStore.disk⟩ =
    .ok () crossedOpened := rfl
  constructor
  · obtain ⟨opened, answers, d, hopen, hrun, hreopens⟩ := restart_unnoticed opens_mirrorPrimitives
      seals_mirrorPrimitives (show toyStore.disk.Sound from rfl) rfl 2 0 fits_orderedOps
    cases hopen.symm.trans hopened
    cases hrun.symm.trans run_orderedOps
    obtain ⟨d', hreopen, hordered, -⟩ := hreopens 1 (by decide)
    cases hreopen.symm.trans reopen_orderedStore
    exact hordered keyOrdered_orderedStore
  · obtain ⟨opened, answers, d, hopen, hrun, hreopens⟩ := restart_unnoticed opens_mirrorPrimitives
      seals_mirrorPrimitives (show toyStore.disk.Sound from rfl) rfl 2 0 fits_crossedOps
    cases hopen.symm.trans hopened
    cases hrun.symm.trans run_crossedOps
    obtain ⟨d', hreopen, hordered, hindistinct⟩ := hreopens 1 (by decide)
    cases hreopen.symm.trans reopen_crossedStore
    exact ⟨hindistinct supplied_mirrorPrimitives, hordered⟩

theorem not_restart_unnoticed :
    ¬ ∀ P : Primitives, P.Opens → P.Seals → ∀ disk : EncryptedStore, disk.Sound →
      disk.table = ∅ → ∀ (capacity : Nat) (start : UInt64) (ops : List (Operation P)),
      (∀ op ∈ ops, op.Fits) → ∀ opened answers d,
      (openStore start).run ⟨Store.new P capacity, disk⟩ = .ok () opened →
      (Operation.runAll ops).run opened = .ok answers d →
      ∀ now, (∀ x ∈ d.memory.envelopes, x.isExpired now = false) →
        ∀ d', (Operation.reopen d.memory.capacity now).run.run d = .ok .opened d' →
          d.Indistinct d' := by
  intro h
  have hindistinct : crossedStore.Indistinct crossedReopened :=
    h mirrorPrimitives opens_mirrorPrimitives seals_mirrorPrimitives toyStore.disk rfl rfl 2 0
      crossedOps fits_crossedOps crossedOpened _ crossedStore rfl run_crossedOps 1 (by decide) _
      reopen_crossedStore
  have hsame := hindistinct [.accept (mirrorEnvelope .sos 3) 2] (by
    intro request hrequest
    cases List.mem_singleton.mp hrequest
    exact (by decide : (mirrorEnvelope .sos 3).sealed.length < 2 ^ 32))
  revert hsame
  decide

end Examples

end DurableStore

end KeyOrder

end ProjectMesh.Routing
