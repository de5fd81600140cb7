import ProjectMesh.Routing.Restart
import ProjectMesh.Routing.UrgentFirst

namespace ProjectMesh.Routing

open ProjectMesh.Lib

variable {P : Primitives}

namespace Store

variable {s t : Store P} {e x : Envelope P} {id id' : EnvelopeId} {now : UInt64}

section Reordered

theorem Reordered.lookup (h : s.Reordered t) (id : EnvelopeId) :
    t.entries.lookup id = s.entries.lookup id := AList.perm_lookup h.entries

theorem reordered_of_lookup (hcapacity : t.capacity = s.capacity) (hseq : t.nextSeq = s.nextSeq)
    (h : ∀ id, t.entries.lookup id = s.entries.lookup id) : s.Reordered t := by
  refine ⟨hcapacity, hseq, List.lookup_ext t.entries.nodupKeys s.entries.nodupKeys fun id a => ?_⟩
  exact (Eq.congr (h id) rfl : _ = some a ↔ _ = some a)

theorem Reordered.symm (h : s.Reordered t) : t.Reordered s :=
  ⟨h.capacity.symm, h.nextSeq.symm, h.entries.symm⟩

theorem Reordered.trans {u : Store P} (h : s.Reordered t) (h' : t.Reordered u) : s.Reordered u :=
  ⟨h'.capacity.trans h.capacity, h'.nextSeq.trans h.nextSeq, h'.entries.trans h.entries⟩

theorem Reordered.get (h : s.Reordered t) (id : EnvelopeId) : s.get id = t.get id := by
  rw [Store.get, Store.get, h.lookup]

theorem Reordered.before (h : s.Reordered t) : t.Before id id' ↔ s.Before id id' := by
  rw [Before, Before, h.lookup, h.lookup]

theorem Reordered.sequenced (h : s.Reordered t) (hs : s.Sequenced) : t.Sequenced where
  below id a ha := by
    rw [h.nextSeq]
    exact hs.below id a (h.lookup id ▸ ha)
  distinct id id' a b ha hb := hs.distinct id id' a b (h.lookup id ▸ ha) (h.lookup id' ▸ hb)

theorem Reordered.bounded (h : s.Reordered t) (hs : s.Bounded) : t.Bounded :=
  bounded_congr h.capacity.symm h.get hs

theorem Reordered.remove (h : s.Reordered t) (id : EnvelopeId) :
    (s.remove id).Reordered (t.remove id) :=
  ⟨h.capacity, h.nextSeq, AList.perm_erase h.entries⟩

theorem Reordered.insert (h : s.Reordered t) (e : Envelope P) :
    (s.insert e).Reordered (t.insert e) where
  capacity := h.capacity
  nextSeq := congrArg (· + 1) h.nextSeq
  entries := by
    change (t.entries.insert e.id ⟨e, t.nextSeq⟩).entries.Perm
      (s.entries.insert e.id ⟨e, s.nextSeq⟩).entries
    rw [h.nextSeq]
    exact AList.perm_insert h.entries

/-- The greatest key is unique, so it does not matter which of the greatest comes last. -/
theorem Reordered.worstEntry (h : s.Reordered t) (hs : s.Sequenced) :
    t.worstEntry = s.worstEntry := by
  have hlen : s.len = t.len := len_congr h.get
  cases hw : s.worstEntry with
  | none =>
    cases hw' : t.worstEntry with
    | none => rfl
    | some w' =>
      have hpos := len_remove (contains_worstEntry hw')
      have hzero := worstEntry_eq_none hw
      omega
  | some w =>
    cases hw' : t.worstEntry with
    | none =>
      have hpos := len_remove (contains_worstEntry hw)
      have hzero := worstEntry_eq_none hw'
      omega
    | some w' =>
      have hid := worst_eq_of_before h.get hs (h.sequenced hs) hw hw' h.before.mpr
      have hlookup := lookup_worstEntry hw
      have hlookup' : s.entries.lookup w'.1 = some w'.2 := h.lookup w'.1 ▸ lookup_worstEntry hw'
      obtain ⟨id, a⟩ := w
      obtain ⟨id', a'⟩ := w'
      cases hid
      have heq : a = a' := Option.some.inj (hlookup.symm.trans hlookup')
      rw [heq]

theorem Reordered.accept (h : s.Reordered t) (hs : s.Sequenced) (hbounded : s.Bounded)
    (e : Envelope P) (now : UInt64) : (s.accept e now).1 = (t.accept e now).1 ∧
      (s.accept e now).2.Reordered (t.accept e now).2 := by
  by_cases hadmits : s.Admits e now
  · rcases accept_cases_congr h.capacity.symm h.get hbounded hadmits with
      ⟨-, hresult, hresult'⟩ | ⟨-, w, w', hw, hw', hresult, hresult'⟩
    · rw [hresult, hresult']
      exact ⟨rfl, h.insert e⟩
    · rw [h.worstEntry hs, hw] at hw'
      cases hw'
      rw [hresult, hresult']
      exact ⟨rfl, (h.remove w.1).insert e⟩
  · rw [accept_refusal hbounded hadmits, accept_refusal (h.bounded hbounded)
        ((admits_congr h.capacity.symm h.get).not.mp hadmits), refusal_congr h.get]
    exact ⟨rfl, h⟩

theorem lookup_foldl_remove (ids : List EnvelopeId) :
    (ids.foldl Store.remove s).entries.lookup id =
      if id ∈ ids then none else s.entries.lookup id := by
  induction ids generalizing s with
  | nil => rfl
  | cons victim ids ih =>
    rw [List.foldl_cons, ih, lookup_remove_eq]
    by_cases hmem : id ∈ ids
    · rw [if_pos hmem, if_pos (List.mem_cons_of_mem _ hmem)]
    · rw [if_neg hmem]
      refine if_congr ⟨fun heq => heq ▸ List.mem_cons_self, fun h => ?_⟩ rfl rfl
      exact (List.mem_cons.mp h).resolve_right hmem

theorem nextSeq_foldl_remove (ids : List EnvelopeId) :
    (ids.foldl Store.remove s).nextSeq = s.nextSeq := by
  induction ids generalizing s with
  | nil => rfl
  | cons victim ids ih => exact ih

theorem Reordered.purgeExpired (h : s.Reordered t) (now : UInt64) :
    (s.purgeExpired now).1.Perm (t.purgeExpired now).1 ∧
      (s.purgeExpired now).2.Reordered (t.purgeExpired now).2 := by
  have hperm : (s.purgeExpired now).1.Perm (t.purgeExpired now).1 :=
    (h.entries.symm.filter _).map _
  refine ⟨hperm, ?_⟩
  change ((s.purgeExpired now).1.foldl Store.remove s).Reordered
    ((t.purgeExpired now).1.foldl Store.remove t)
  apply reordered_of_lookup
  · rw [capacity_foldl_remove, capacity_foldl_remove, h.capacity]
  · rw [nextSeq_foldl_remove, nextSeq_foldl_remove, h.nextSeq]
  · intro id
    rw [lookup_foldl_remove, lookup_foldl_remove, h.lookup]
    exact if_congr hperm.mem_iff.symm rfl rfl

end Reordered

end Store

structure Served (P : Primitives) where
  request : Request P
  answer : DurableStore.Answer
  drops : Finset EnvelopeId

def Served.arrive (arrived : List EnvelopeId) (served : Served P) : List EnvelopeId :=
  let kept := arrived.filter (· ∉ served.drops)
  match served.request with
  | .accept envelope _ =>
    if served.answer = .accepted .new then kept ++ [envelope.id] else kept
  | .purgeExpired _ => kept

def arrivals (served : List (Served P)) : List EnvelopeId := served.foldl Served.arrive []

namespace Store

/-- Calls of a store whose map may be visited in another order each time. -/
inductive Run (capacity : Nat) : List (Served P) → Store P → Prop
  | new : Run capacity [] (new P capacity)
  | call {served s t} (request : Request P) : Run capacity served s → s.Reordered t →
    Run capacity (served ++ [⟨request, request.answer t, request.drops t⟩]) (request.next t)

/-- The sequence numbers tell the entries apart, and the order they came in. -/
structure InOrder (s : Store P) (arrived : List EnvelopeId) : Prop where
  held : ∀ id, id ∈ arrived ↔ s.contains id = true
  distinct : ∀ id id' a b, s.entries.lookup id = some a → s.entries.lookup id' = some b →
    a.insertedSeq = b.insertedSeq → id = id'
  increasing : arrived.Pairwise s.Before

/-- However the map is visited, the victim is the oldest of the least urgent. -/
structure FixedVictim (s : Store P) : Prop where
  same : ∀ t, s.Reordered t → t.worstEntry = s.worstEntry
  oldest : ∀ worst, s.worstEntry = some worst → ∀ id x, s.get id = some x → id ≠ worst.1 →
    x.priority.toNat < worst.2.envelope.priority.toNat ∨
      x.priority = worst.2.envelope.priority ∧ s.Before worst.1 id

section Run

variable {s s' t : Store P} {e : Envelope P} {id : EnvelopeId} {now : UInt64} {capacity : Nat}
  {served served' : List (Served P)} {arrived : List EnvelopeId}

theorem InOrder.reordered (h : s.InOrder arrived) (hst : s.Reordered t) : t.InOrder arrived where
  held id := by rw [h.held, contains, contains, hst.get]
  distinct id id' a b ha hb := h.distinct id id' a b (hst.lookup id ▸ ha) (hst.lookup id' ▸ hb)
  increasing := h.increasing.imp fun hbefore => hst.before.mpr hbefore

theorem arrivals_append (served : List (Served P)) (call : Served P) :
    arrivals (served ++ [call]) = call.arrive (arrivals served) := by
  rw [arrivals, List.foldl_append]
  rfl

theorem arrive_new {drops : Finset EnvelopeId} :
    Served.arrive arrived ⟨.accept e now, .accepted .new, drops⟩ =
      arrived.filter (· ∉ drops) ++ [e.id] := by
  simp only [Served.arrive, if_true]

theorem arrive_of_ne {answer : Accept} {drops : Finset EnvelopeId} (h : answer ≠ .new) :
    Served.arrive arrived ⟨.accept e now, .accepted answer, drops⟩ =
      arrived.filter (· ∉ drops) := by
  refine if_neg fun heq => h ?_
  cases heq
  rfl

theorem InOrder.drop {drops : Finset EnvelopeId} (h : s.InOrder arrived)
    (hlookup : ∀ id, s'.entries.lookup id = if id ∈ drops then none else s.entries.lookup id) :
    s'.InOrder (arrived.filter (· ∉ drops)) where
  held id := by
    rw [List.mem_filter, h.held, contains, contains, get, get, hlookup, decide_eq_true_iff]
    split
    · next hmem => exact iff_of_false (fun h => h.2 hmem) Bool.false_ne_true
    · next hmem => exact and_iff_left hmem
  distinct id id' a b ha hb := by
    rw [hlookup] at ha hb
    split at ha
    · cases ha
    · split at hb
      · cases hb
      · exact h.distinct id id' a b ha hb
  increasing := by
    refine (h.increasing.filter _).imp_of_mem fun {id id'} hid hid' hbefore => ?_
    have hkept := of_decide_eq_true (List.mem_filter.mp hid).2
    have hkept' := of_decide_eq_true (List.mem_filter.mp hid').2
    obtain ⟨a, b, ha, hb, hlt⟩ := hbefore
    refine ⟨a, b, ?_, ?_, hlt⟩
    · rwa [hlookup, if_neg hkept]
    · rwa [hlookup, if_neg hkept']

theorem InOrder.insert (h : s.InOrder arrived) (hs : s.Sequenced)
    (hnew : s.contains e.id = false) : (s.insert e).InOrder (arrived ++ [e.id]) where
  held id := by
    rw [List.mem_append, List.mem_singleton, h.held, contains_insert, or_comm]
  distinct := (hs.insert e).distinct
  increasing := by
    have hheld : ∀ id ∈ arrived, s.contains id = true ∧ id ≠ e.id := by
      refine fun id hid => ⟨(h.held id).mp hid, fun heq => ?_⟩
      rw [← heq, (h.held id).mp hid] at hnew
      cases hnew
    rw [List.pairwise_append]
    refine ⟨?_, List.pairwise_singleton _ _, fun id hid id' hid' => ?_⟩
    · refine h.increasing.imp_of_mem fun {id id'} hid hid' hbefore => ?_
      exact (before_insert (hheld id hid).2 (hheld id' hid').2).mpr hbefore
    · rw [List.mem_singleton.mp hid']
      exact hs.before_inserted (hheld id hid).1 (hheld id hid).2

theorem InOrder.next (h : s.InOrder arrived) (hs : s.Sequenced) (request : Request P) :
    (request.next s).InOrder
      (Served.arrive arrived ⟨request, request.answer s, request.drops s⟩) := by
  cases request with
  | purgeExpired now =>
    refine h.drop fun id => ?_
    change ((s.purgeExpired now).1.foldl Store.remove s).entries.lookup id = _
    rw [lookup_foldl_remove]
    exact if_congr List.mem_toFinset.symm rfl rfl
  | accept e now =>
    have hoffered := s.accept_offered e now
    rw [Request.next, Request.answer, Request.drops]
    generalize s.accept e now = result at hoffered
    have hstays : s.InOrder (arrived.filter (· ∉ (none : Option EnvelopeId).toFinset)) :=
      h.drop fun id => (if_neg (Finset.notMem_empty id)).symm
    have hevicted : ∀ victim, (s.remove victim).InOrder
        (arrived.filter (· ∉ (some victim).toFinset)) := by
      refine fun victim => h.drop fun id => ?_
      rw [lookup_remove_eq]
      exact if_congr (Finset.mem_singleton.symm) rfl rfl
    cases hoffered with
    | duplicate | expired | ttlExhausted | refused =>
      rw [arrive_of_ne fun h => by cases h]
      exact hstays
    | overfull =>
      rw [arrive_of_ne fun h => by cases h]
      exact hevicted _
    | new hdup =>
      rw [arrive_new]
      exact hstays.insert hs hdup
    | replaced hdup =>
      rw [arrive_new]
      exact (hevicted _).insert (hs.remove _) (contains_remove_of hdup _)

theorem Sequenced.fixedVictim (h : s.Sequenced) : s.FixedVictim where
  same _ hst := hst.worstEntry h
  oldest _ hworst _ _ hx hne := worst_before h hworst hx hne

theorem Run.invariant (h : Run capacity served s) : s.Sequenced ∧ s.Bounded := by
  induction h with
  | new => exact ⟨sequenced_new capacity, Nat.zero_le _⟩
  | call request _ hst ih =>
    exact ⟨Request.next_sequenced (hst.sequenced ih.1) request,
      Request.next_bounded (hst.bounded ih.2) request⟩

theorem Run.inOrder (h : Run capacity served s) : s.InOrder (arrivals served) := by
  induction h with
  | new => exact ⟨fun id => iff_of_false List.not_mem_nil Bool.false_ne_true,
      (sequenced_new capacity).distinct, .nil⟩
  | call request hrun hst ih =>
    rw [arrivals_append]
    exact (ih.reordered hst).next (hst.sequenced hrun.invariant.1) request

theorem Reordered.next (h : s.Reordered t) (hs : s.Sequenced) (hbounded : s.Bounded)
    (request : Request P) : request.answer s = request.answer t ∧
      request.drops s = request.drops t ∧ (request.next s).Reordered (request.next t) := by
  cases request with
  | accept e now =>
    obtain ⟨hanswer, hnext⟩ := h.accept hs hbounded e now
    refine ⟨?_, ?_, hnext⟩
    · rw [Request.answer, Request.answer, hanswer]
    · rw [Request.drops, Request.drops, hanswer]
  | purgeExpired now =>
    obtain ⟨hperm, hnext⟩ := h.purgeExpired now
    exact ⟨congrArg DurableStore.Answer.purged hperm.length_eq,
      List.toFinset_eq_of_perm _ _ hperm, hnext⟩

theorem Run.unique (h : Run capacity served s) (h' : Run capacity served' s')
    (hsame : served.map Served.request = served'.map Served.request) :
    served = served' ∧ s.Reordered s' := by
  induction h generalizing served' s' with
  | new =>
    cases h' with
    | new => exact ⟨rfl, reordered_refl _⟩
    | call => simp at hsame
  | @call served s t request hrun hst ih =>
    cases h' with
    | new => simp at hsame
    | @call served' s' t' request' hrun' hst' =>
      rw [List.map_append, List.map_append] at hsame
      obtain ⟨hserved, hrequest⟩ := List.append_inj' hsame rfl
      cases hrequest
      obtain ⟨rfl, hss'⟩ := ih hrun' hserved
      have hinv := hrun.invariant
      have htt' : t.Reordered t' := hst.symm.trans (hss'.trans hst')
      obtain ⟨hanswer, hdrops, hnext⟩ :=
        htt'.next (hst.sequenced hinv.1) (hst.bounded hinv.2) request
      rw [hanswer, hdrops]
      exact ⟨rfl, hnext⟩

/-- What is evicted depends on what was asked of the store, and not on the order its map is
visited in. -/
theorem eviction_ignores_map_order (h : Run capacity served s) (h' : Run capacity served' s')
    (hsame : served.map Served.request = served'.map Served.request) :
    s.InOrder (arrivals served) ∧ s.FixedVictim ∧ served = served' ∧ s.Reordered s' :=
  ⟨h.inOrder, h.invariant.1.fixedVictim, h.unique h' hsame⟩

def serve (order : Store P → Store P) (run : List (Served P) × Store P) (request : Request P) :
    List (Served P) × Store P :=
  (run.1 ++ [⟨request, request.answer (order run.2), request.drops (order run.2)⟩],
    request.next (order run.2))

theorem Run.serveAll {order : Store P → Store P} (horder : ∀ s : Store P, s.Reordered (order s))
    (h : Run capacity served s) (requests : List (Request P)) :
    Run capacity (requests.foldl (serve order) (served, s)).1
        (requests.foldl (serve order) (served, s)).2 ∧
      (requests.foldl (serve order) (served, s)).1.map Served.request =
        served.map Served.request ++ requests := by
  induction requests generalizing served s with
  | nil => exact ⟨h, (List.append_nil _).symm⟩
  | cons request requests ih =>
    obtain ⟨hrun, hrequests⟩ := ih (h.call request (horder s))
    refine ⟨hrun, hrequests.trans ?_⟩
    rw [List.map_append, List.append_assoc]
    rfl

open DurableStore (mirrorPrimitives mirrorEnvelope)

/-- A store of two places is full when the third envelope comes. -/
def crowdingRequests : List (Request mirrorPrimitives) :=
  [.accept (mirrorEnvelope .normal 2) 0, .accept (mirrorEnvelope .normal 1) 0,
    .accept (mirrorEnvelope .sos 3) 0, .purgeExpired 50]

def crowdingServed (order : Store mirrorPrimitives → Store mirrorPrimitives) :
    List (Served mirrorPrimitives) × Store mirrorPrimitives :=
  crowdingRequests.foldl (serve order) ([], new mirrorPrimitives 2)

theorem eviction_ignores_map_order_crowdingRequests :
    ((crowdingServed fun s => s).2.InOrder (arrivals (crowdingServed fun s => s).1) ∧
      (crowdingServed fun s => s).2.FixedVictim ∧
      (crowdingServed fun s => s).1 = (crowdingServed reversed).1 ∧
      (crowdingServed fun s => s).2.Reordered (crowdingServed reversed).2) ∧
      (crowdingServed reversed).1.map Served.drops =
        [∅, ∅, {(mirrorEnvelope .normal 2).id}, ∅] := by
  obtain ⟨hrun, hrequests⟩ :=
    Run.serveAll reordered_refl (.new (P := mirrorPrimitives)) crowdingRequests
  obtain ⟨hrun', hrequests'⟩ :=
    Run.serveAll reordered_reversed (.new (P := mirrorPrimitives)) crowdingRequests
  exact ⟨eviction_ignores_map_order hrun hrun' (hrequests.trans hrequests'.symm), by decide⟩

end Run

end Store

end ProjectMesh.Routing
