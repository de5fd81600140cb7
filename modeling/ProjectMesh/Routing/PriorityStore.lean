import ProjectMesh.Routing.RelayRun
import ProjectMesh.Routing.StoreOrder

namespace ProjectMesh.Routing.Store

open ProjectMesh.Lib

variable {P : Primitives} {s : Store P} {e x : Envelope P} {id : EnvelopeId} {now : UInt64}
  {result : (Accept × Option EnvelopeId) × Store P}

section Capacity

theorem len_remove (h : s.contains id = true) : (s.remove id).len + 1 = s.len := by
  rw [← card_heldIds, ← card_heldIds, heldIds_remove]
  exact Finset.card_erase_add_one (mem_heldIds.mpr h)

theorem contains_remove_of (h : s.contains id = false) (id' : EnvelopeId) :
    (s.remove id').contains id = false := by
  rw [Bool.eq_false_iff] at h ⊢
  exact fun hc => h (contains_remove.mp hc).2

theorem Offered.len_le (h : Offered s e now result) (hlen : s.len ≤ s.capacity) :
    result.2.len ≤ s.capacity := by
  cases h with
  | duplicate | expired | ttlExhausted | refused => exact hlen
  | overfull hdup hexp httl hworst =>
    have := len_remove (contains_worstEntry hworst)
    omega
  | new hdup hexp httl hroom =>
    rw [len_insert hdup]
    exact hroom
  | replaced hdup hexp httl hfull hworst hlt hroom =>
    rw [len_insert (contains_remove_of hdup _)]
    exact hroom

theorem Offered.not_overfull {worst : (_ : EnvelopeId) × Entry P} (hlen : s.len ≤ s.capacity)
    (hworst : s.worstEntry = some worst) : ¬ s.capacity ≤ (s.remove worst.1).len := by
  have := len_remove (contains_worstEntry hworst)
  omega

end Capacity

section Runs

variable {prio : EnvelopeId → Priority} {offered : Finset EnvelopeId}

def valid (offer : Envelope P × UInt64) : Bool :=
  !offer.1.isExpired offer.2 && decide (offer.1.ttlHops ≠ 0)

def acceptAll (s : Store P) (offers : List (Envelope P × UInt64)) : Store P :=
  offers.foldl (fun s offer => (s.accept offer.1 offer.2).2) s

def offeredIds (offers : List (Envelope P × UInt64)) : Finset EnvelopeId :=
  ((offers.filter valid).map fun offer => offer.1.id).toFinset

theorem valid_of (hexp : e.isExpired now = false) (httl : e.ttlHops ≠ 0) :
    valid (e, now) = true := by
  rw [valid, hexp, decide_eq_true httl]
  rfl

def offeredAfter (offered : Finset EnvelopeId) (offer : Envelope P × UInt64) :
    Finset EnvelopeId :=
  if valid offer then Insert.insert offer.1.id offered else offered

theorem offeredIds_append (offers : List (Envelope P × UInt64)) (offer : Envelope P × UInt64) :
    offeredIds (offers ++ [offer]) = offeredAfter (offeredIds offers) offer := by
  rw [offeredIds, offeredAfter, List.filter_append, List.map_append, List.toFinset_append]
  cases h : valid offer with
  | true =>
    rw [List.filter_cons_of_pos h, List.filter_nil, if_pos rfl, Finset.union_comm]
    rfl
  | false =>
    rw [List.filter_cons_of_neg (Bool.eq_false_iff.mp h), List.filter_nil, if_neg nofun]
    exact Finset.union_empty _

theorem acceptAll_append (offers : List (Envelope P × UInt64)) (offer : Envelope P × UInt64) :
    s.acceptAll (offers ++ [offer]) = ((s.acceptAll offers).accept offer.1 offer.2).2 := by
  rw [acceptAll, List.foldl_append]
  rfl

theorem Ranked.urgency_le_of_refused (hranked : Ranked prio s) (he : e.priority = prio e.id)
    (hworst : ∀ worst, s.worstEntry = some worst →
      worst.2.envelope.priority.toNat ≤ e.priority.toNat) (hid : id ∈ s.heldIds) :
    urgency prio id ≤ urgency prio e.id := by
  cases hw : s.worstEntry with
  | none =>
    have hcard := card_heldIds.trans (worstEntry_eq_none hw)
    exact absurd hid (Finset.card_eq_zero.mp hcard ▸ Finset.notMem_empty id)
  | some worst =>
    obtain ⟨hle, hurgency⟩ := hranked.urgency_le hw hid
    refine hle.trans ?_
    rw [hurgency, urgency, ← he]
    exact hworst worst hw

theorem Offered.selects_offered (h : Offered s e now result) (hranked : Ranked prio s)
    (he : e.priority = prio e.id) (hlen : s.len ≤ s.capacity)
    (hsel : Selects (urgency prio) s.capacity offered s.heldIds) :
    Selects (urgency prio) s.capacity (offeredAfter offered (e, now)) result.2.heldIds := by
  have hseen := (h.selects hranked he hsel).1
  cases h with
  | duplicate hdup =>
    rw [offeredAfter]
    split
    · exact hsel.insert_held (hsel.subset (mem_heldIds.mpr hdup))
    · exact hsel
  | expired hdup hexp =>
    have hvalid : valid (e, now) = false := by rw [valid, hexp]; rfl
    rwa [offeredAfter, hvalid]
  | ttlExhausted hdup hexp httl =>
    have hvalid : valid (e, now) = false := by rw [valid, httl, Bool.and_comm]; rfl
    rwa [offeredAfter, hvalid]
  | refused hdup hexp httl hfull hworst =>
    rw [offeredAfter, if_pos (valid_of hexp httl)]
    exact hsel.insert_left_out (card_heldIds ▸ hfull) fun id hid =>
      hranked.urgency_le_of_refused he hworst hid
  | overfull hdup hexp httl hworst hlt hover => exact absurd hover (not_overfull hlen hworst)
  | new hdup hexp httl | replaced hdup hexp httl =>
    rw [offeredAfter, if_pos (valid_of hexp httl)]
    exact hseen

structure Optimal (prio : EnvelopeId → Priority) (capacity : Nat) (offered : Finset EnvelopeId)
    (s : Store P) : Prop where
  ranked : Ranked prio s
  capacity_eq : s.capacity = capacity
  len_le : s.len ≤ capacity
  selects : Selects (urgency prio) capacity offered s.heldIds

theorem optimal_new {capacity : Nat} : Optimal prio capacity ∅ (new P capacity) where
  ranked id x hx := by
    rw [get_new] at hx
    cases hx
  capacity_eq := rfl
  len_le := Nat.zero_le _
  selects := Selects.refl

theorem Optimal.accept {capacity : Nat} (h : Optimal prio capacity offered s)
    (he : e.priority = prio e.id) (now : UInt64) :
    Optimal prio capacity (offeredAfter offered (e, now)) (s.accept e now).2 := by
  have hoffered := accept_offered s e now
  obtain ⟨hranked, rfl, hlen, hsel⟩ := h
  exact ⟨hranked.accept he, hoffered.capacity_eq, hoffered.len_le hlen,
    hoffered.selects_offered hranked he hlen hsel⟩

theorem optimal_acceptAll (capacity : Nat) {offers : List (Envelope P × UInt64)}
    (hprio : ∀ offer ∈ offers, offer.1.priority = prio offer.1.id) :
    Optimal prio capacity (offeredIds offers) ((new P capacity).acceptAll offers) := by
  induction offers using List.reverseRecOn with
  | nil => exact optimal_new
  | append_singleton offers offer ih =>
    obtain ⟨hoffers, hoffer⟩ := List.forall_mem_append.mp hprio
    rw [offeredIds_append, acceptAll_append]
    exact (ih hoffers).accept (hoffer offer (List.mem_singleton_self _)) offer.2

def priorities (s : Store P) : Multiset Nat := s.envelopes.map fun x => x.priority.toNat

theorem Ranked.priorities_eq (h : Ranked prio s) :
    s.priorities = s.heldIds.val.map (urgency prio) := by
  have hids : s.heldIds.val = (s.envelopes.map Envelope.id : List EnvelopeId) := by
    rw [map_id_envelopes, heldIds, List.toFinset_val, List.dedup_eq_self.mpr s.entries.keys_nodup]
  rw [hids, priorities, Multiset.map_coe, List.map_map]
  congr 1
  apply List.map_congr_left
  intro x hx
  rw [Function.comp_apply, urgency, ← h x.id x (mem_envelopes_iff.mp hx)]

theorem priority_le_worst {worst : (_ : EnvelopeId) × Entry P} (hworst : s.worstEntry = some worst)
    (hx : s.get id = some x) : x.priority.toNat ≤ worst.2.envelope.priority.toNat := by
  obtain ⟨seq, hseq⟩ := get_eq_some_iff.mp hx
  exact priority_le_of_worstKeyLe (worstKeyLe_worstEntry hworst hseq)

theorem Offered.evicts (h : Offered s e now result) (hid : result.1.2 = some id) :
    ∃ x, s.get id = some x ∧ x.priority ≠ .sos ∧
      ∀ y ∈ result.2.envelopes, y.priority.toNat ≤ x.priority.toNat := by
  cases h with
  | duplicate | expired | ttlExhausted | refused | new => cases hid
  | @overfull worst hdup hexp httl hworst hlt hover =>
    cases hid
    refine ⟨_, get_worstEntry hworst, ne_sos_of_lt hlt, fun y hy => ?_⟩
    exact priority_le_worst hworst (get_remove (mem_envelopes_iff.mp hy))
  | @replaced worst hdup hexp httl hfull hworst hlt hroom =>
    cases hid
    refine ⟨_, get_worstEntry hworst, ne_sos_of_lt hlt, fun y hy => ?_⟩
    have hy := mem_envelopes_iff.mp hy
    by_cases hye : y.id = e.id
    · rw [hye, get_insert_self] at hy
      cases hy
      exact hlt.le
    · rw [get_insert_of_ne hye] at hy
      exact priority_le_worst hworst (get_remove hy)

theorem Offered.refuses (h : Offered s e now result) (hlen : s.len ≤ s.capacity)
    (hanswer : result.1.1 = .storeFullLowerPriority) :
    ∀ y ∈ result.2.envelopes, y.priority.toNat ≤ e.priority.toNat := by
  intro y hy
  have hy := mem_envelopes_iff.mp hy
  cases h with
  | duplicate | expired | ttlExhausted | new | replaced => cases hanswer
  | overfull hdup hexp httl hworst hlt hover => exact absurd hover (not_overfull hlen hworst)
  | refused hdup hexp httl hfull hworst =>
    cases hw : s.worstEntry with
    | none =>
      have hcard := card_heldIds.trans (worstEntry_eq_none hw)
      have hmem := mem_heldIds.mpr (contains_iff.mpr ⟨y, hy⟩)
      exact absurd hmem (Finset.card_eq_zero.mp hcard ▸ Finset.notMem_empty y.id)
    | some worst => exact (priority_le_worst hw hy).trans (hworst worst hw)

/-- The store holds the most urgent of what it was offered. -/
structure PriorityOptimal (prio : EnvelopeId → Priority) (capacity : Nat)
    (offers : List (Envelope P × UInt64)) (s : Store P) : Prop where
  bounded : s.len ≤ capacity
  count : s.len = min capacity (offeredIds offers).card
  mostUrgent : s.priorities = leastOf capacity ((offeredIds offers).val.map (urgency prio))
  evicts : ∀ (e : Envelope P) (now : UInt64) (id : EnvelopeId),
    (s.accept e now).1.2 = some id → ∃ x, s.get id = some x ∧ x.priority ≠ .sos ∧
      ∀ y ∈ (s.accept e now).2.envelopes, y.priority.toNat ≤ x.priority.toNat
  refuses : ∀ (e : Envelope P) (now : UInt64),
    (s.accept e now).1.1 = .storeFullLowerPriority →
      ∀ y ∈ (s.accept e now).2.envelopes, y.priority.toNat ≤ e.priority.toNat

theorem priority_optimal (capacity : Nat) (prio : EnvelopeId → Priority)
    (offers : List (Envelope P × UInt64))
    (hprio : ∀ offer ∈ offers, offer.1.priority = prio offer.1.id) :
    PriorityOptimal prio capacity offers ((new P capacity).acceptAll offers) := by
  obtain ⟨hranked, hcapacity, hlen, hsel⟩ := optimal_acceptAll capacity hprio
  have hcard : ((new P capacity).acceptAll offers).heldIds.card ≤ capacity :=
    card_heldIds.trans_le hlen
  refine ⟨hlen, ?_, ?_, fun e now id hid => ?_, fun e now hanswer => ?_⟩
  · rw [← card_heldIds, hsel.card_eq hcard]
  · rw [hranked.priorities_eq, hsel.map_eq_leastOf hcard]
  · exact (accept_offered _ e now).evicts hid
  · exact (accept_offered _ e now).refuses (hlen.trans_eq hcapacity.symm) hanswer

theorem priority_optimal_toyEnvelope :
    PriorityOptimal (fun _ => .normal) 1 [(toyEnvelope 3, 0), (toyEnvelope 2, 5)]
      ((new toyPrimitives 1).acceptAll [(toyEnvelope 3, 0), (toyEnvelope 2, 5)]) :=
  priority_optimal 1 _ _ (by decide)

end Runs

end ProjectMesh.Routing.Store
