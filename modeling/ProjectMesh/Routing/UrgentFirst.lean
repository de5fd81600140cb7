import ProjectMesh.Routing.RelayRun

namespace ProjectMesh.Routing

open ProjectMesh.Lib

variable {P : Primitives}

/-- No envelope comes before a more urgent one. -/
def UrgentFirst (envelopes : List (Envelope P)) : Prop :=
  (envelopes.map Envelope.priority).Pairwise fun p q => p.toNat ≤ q.toNat

instance {envelopes : List (Envelope P)} : Decidable (UrgentFirst envelopes) :=
  inferInstanceAs (Decidable (List.Pairwise _ _))

def dataIn (P : Primitives) (frame : Outbound) : Option (Envelope P) :=
  match ContactMessage.fromBytes P frame.2 with
  | .ok (.data envelope _) => some envelope
  | _ => none

/-- There is a hop to go, and a frame that can hold it. -/
def Envelope.Travels (e : Envelope P) : Prop := 2 ≤ e.ttlHops.toNat ∧ e.Sendable

instance {e : Envelope P} : Decidable e.Sendable :=
  inferInstanceAs (Decidable (ContactMessage.Fits _))

instance {e : Envelope P} : Decidable e.Travels := inferInstanceAs (Decidable (_ ∧ _))

namespace Store

variable {s t : Store P} {filter : BloomFilter}

/-- The same store, whose map is visited in another order. -/
structure Reordered (s t : Store P) : Prop where
  capacity : t.capacity = s.capacity
  nextSeq : t.nextSeq = s.nextSeq
  entries : t.entries.entries.Perm s.entries.entries

theorem Reordered.missingFromBloom (h : s.Reordered t) :
    (t.missingFromBloom filter).Perm (s.missingFromBloom filter) :=
  ((h.entries.map _).map _).filter _

def reversed (s : Store P) : Store P where
  capacity := s.capacity
  entries := ⟨s.entries.entries.reverse,
    (List.perm_nodupKeys (List.reverse_perm _)).mpr s.entries.nodupKeys⟩
  nextSeq := s.nextSeq
  keyed id entry h := by
    refine s.keyed id entry (Assoc.mem_entries_iff.mp ?_)
    exact List.mem_reverse.mp (Assoc.mem_entries_iff.mpr h)

theorem reordered_refl (s : Store P) : s.Reordered s := ⟨rfl, rfl, .refl _⟩

theorem reordered_reversed (s : Store P) : s.Reordered s.reversed :=
  ⟨rfl, rfl, List.reverse_perm _⟩

theorem missingFromBloom_reversed :
    s.reversed.missingFromBloom filter = (s.missingFromBloom filter).reverse := by
  rw [missingFromBloom, missingFromBloom, ← List.filter_reverse, envelopes, envelopes,
    Assoc.values, Assoc.values, ← List.map_reverse, ← List.map_reverse]
  rfl

end Store

namespace RelayEngine

variable {e next : RelayEngine P} {fromPeer now : UInt64} {bytes : List UInt8}
  {filter : BloomFilter} {outbound : List Outbound} {envelopes : List (Envelope P)}

def holding (e : RelayEngine P) (store : Store P) : RelayEngine P :=
  { e with store := ⟨store, e.store.disk⟩ }

theorem dataIn_data {x : Envelope P} {nonce : UInt64} :
    dataIn P (fromPeer, (ContactMessage.data x nonce).toBytes) =
      if x.Sendable then some x else none := by
  by_cases hfits : (ContactMessage.data x nonce).Fits
  · rw [dataIn, ContactMessage.fromBytes_data hfits, if_pos (fits_data_iff.mp hfits)]
  · rw [dataIn, ContactMessage.fromBytes_data_of_not_fits hfits,
      if_neg fun h => hfits (fits_data_iff.mpr h)]

theorem dataIn_eq_none {frame : Outbound}
    (h : ∀ (x : Envelope P) nonce, ContactMessage.fromBytes P frame.2 ≠ .ok (.data x nonce)) :
    dataIn P frame = none := by
  rw [dataIn]
  split
  · next x nonce hparse => exact absurd hparse (h x nonce)
  · rfl

theorem data_reply : (e.reply fromPeer).filterMap (dataIn P) = [] :=
  List.filterMap_eq_nil_iff.mpr fun _ hframe => dataIn_eq_none fun _ _ => not_data_reply hframe

def pushed (e : RelayEngine P) (fromPeer : UInt64) (x : Envelope P) : Option (Envelope P) :=
  (decrementTtl x).bind fun relayed => dataIn P (fromPeer, (ContactMessage.data relayed
    ((Puzzle.solve P relayed.id e.puzzleDifficultyBits).getD 0)).toBytes)

theorem priority_pushed (x : Envelope P) :
    (e.pushed fromPeer x).map Envelope.priority =
      if x.Travels then some x.priority else none := by
  cases hdec : decrementTtl x with
  | none =>
    have hspent : ¬ x.Travels := by
      intro h
      rw [Envelope.Travels, ← decrementTtl_isSome_iff, hdec] at h
      cases h.1
    rw [pushed, hdec, if_neg hspent]
    rfl
  | some relayed =>
    obtain ⟨httl, heq⟩ := decrementTtl_eq_some_iff.mp hdec
    have htravels : relayed.Sendable ↔ x.Travels := by
      rw [sendable_decrementTtl hdec, Envelope.Travels, and_iff_right httl]
    simp only [pushed, hdec, Option.bind_some, dataIn_data, htravels]
    split
    · rw [Option.map_some, heq]
    · rfl

theorem priorities_pushFrames :
    ((e.pushFrames fromPeer envelopes).filterMap (dataIn P)).map Envelope.priority =
      (envelopes.filter fun x => x.Travels).map Envelope.priority := by
  rw [pushFrames, List.filterMap_map, List.filterMap_filterMap, List.map_filterMap,
    ← List.filterMap_eq_filter, List.map_filterMap]
  refine List.filterMap_congr fun x _ => (priority_pushed x).trans ?_
  rw [Option.guard]
  split <;> simp_all

theorem onFrame_of_summary (hmsg : ContactMessage.fromBytes P bytes = .ok (.summary filter)) :
    (onFrame fromPeer bytes now).run e = .ok outbound next ↔
      e.Solvable (e.held.missingFromBloom filter) ∧
        outbound = e.reply fromPeer ++
          e.pushFrames fromPeer (e.held.missingFromBloom filter) ∧
        next = e.greeted fromPeer := by
  rw [onFrame_summary hmsg]
  rcases onSummary_run e fromPeer filter with ⟨hsolvable, hrun⟩ | ⟨hsolvable, t, hrun⟩
  · rw [hrun]
    constructor
    · intro h
      cases h
      exact ⟨hsolvable, rfl, rfl⟩
    · rintro ⟨-, rfl, rfl⟩
      rfl
  · rw [hrun]
    constructor
    · intro h
      cases h
    · exact fun h => absurd h.1 hsolvable

theorem solvable_perm {envelopes' : List (Envelope P)} (h : envelopes.Perm envelopes') :
    e.Solvable envelopes ↔ e.Solvable envelopes' :=
  forall_congr' fun _ => imp_congr_left (h.filterMap decrementTtl).mem_iff

theorem urgentFirst_iff (hmsg : ContactMessage.fromBytes P bytes = .ok (.summary filter)) :
    (∀ outbound next, (onFrame fromPeer bytes now).run e = .ok outbound next →
        UrgentFirst (outbound.filterMap (dataIn P))) ↔
      (e.Solvable (e.held.missingFromBloom filter) →
        UrgentFirst ((e.held.missingFromBloom filter).filter fun x => x.Travels)) := by
  have hanswer : UrgentFirst ((e.reply fromPeer ++
      e.pushFrames fromPeer (e.held.missingFromBloom filter)).filterMap (dataIn P)) ↔
        UrgentFirst ((e.held.missingFromBloom filter).filter fun x => x.Travels) := by
    rw [List.filterMap_append, data_reply, List.nil_append, UrgentFirst, priorities_pushFrames,
      UrgentFirst]
  constructor
  · intro h hsolvable
    exact hanswer.mp (h _ _ ((onFrame_of_summary hmsg).mpr ⟨hsolvable, rfl, rfl⟩))
  · intro h outbound next hrun
    obtain ⟨hsolvable, rfl, rfl⟩ := (onFrame_of_summary hmsg).mp hrun
    exact hanswer.mpr (h hsolvable)

theorem priority_eq_of_urgentFirst_reverse (h : UrgentFirst envelopes)
    (hreverse : UrgentFirst envelopes.reverse) :
    ∀ x ∈ envelopes, ∀ y ∈ envelopes, x.priority = y.priority := by
  rw [UrgentFirst, List.map_reverse, List.pairwise_reverse] at hreverse
  have heq : (envelopes.map Envelope.priority).Pairwise Eq :=
    (h.and hreverse).imp fun hle => Priority.toNat_injective (Nat.le_antisymm hle.1 hle.2)
  intro x hx y hy
  exact heq.forall_of_forall (fun _ _ => rfl) (List.mem_map_of_mem hx) (List.mem_map_of_mem hy)

theorem urgentFirst_of_priority_eq
    (h : ∀ x ∈ envelopes, ∀ y ∈ envelopes, x.priority = y.priority) : UrgentFirst envelopes := by
  rw [UrgentFirst, List.pairwise_map]
  exact List.pairwise_of_forall_mem_list fun x hx y hy => (congrArg _ (h x hx y hy)).le

/-- A summary is answered with the urgent envelopes first, whatever the order of the map, just
when all that is pushed is of one urgency. -/
theorem pushes_urgent_first_iff
    (hmsg : ContactMessage.fromBytes P bytes = .ok (.summary filter)) :
    (∀ store, e.held.Reordered store → ∀ outbound next,
        (onFrame fromPeer bytes now).run (e.holding store) = .ok outbound next →
          UrgentFirst (outbound.filterMap (dataIn P))) ↔
      (e.Solvable (e.held.missingFromBloom filter) →
        ∀ x ∈ e.held.missingFromBloom filter, ∀ y ∈ e.held.missingFromBloom filter,
          x.Travels → y.Travels → x.priority = y.priority) := by
  constructor
  · intro h hsolvable x hx y hy hxt hyt
    have hfirst := (urgentFirst_iff hmsg).mp (h _ (Store.reordered_refl _)) hsolvable
    have hlast := (urgentFirst_iff hmsg).mp (h _ (Store.reordered_reversed _))
      ((solvable_perm (Store.reordered_reversed _).missingFromBloom).mpr hsolvable)
    have hreversed : (e.holding e.held.reversed).held.missingFromBloom filter =
      (e.held.missingFromBloom filter).reverse := Store.missingFromBloom_reversed
    rw [hreversed, List.filter_reverse] at hlast
    exact priority_eq_of_urgentFirst_reverse hfirst hlast x
      (List.mem_filter.mpr ⟨hx, decide_eq_true hxt⟩) y
      (List.mem_filter.mpr ⟨hy, decide_eq_true hyt⟩)
  · intro h store hstore
    have hperm : ((e.holding store).held.missingFromBloom filter).Perm
      (e.held.missingFromBloom filter) := hstore.missingFromBloom
    refine (urgentFirst_iff hmsg).mpr fun hsolvable => ?_
    refine urgentFirst_of_priority_eq fun x hx y hy => ?_
    obtain ⟨hx, hxt⟩ := List.mem_filter.mp hx
    obtain ⟨hy, hyt⟩ := List.mem_filter.mp hy
    exact h ((solvable_perm hperm).mp hsolvable) x (hperm.mem_iff.mp hx) y (hperm.mem_iff.mp hy)
      (of_decide_eq_true hxt) (of_decide_eq_true hyt)

def toyUrgent : Envelope toyPrimitives := .new toyPrimitives .broadcast .sos 3 100 [1, 1, 1, 1]

def mixedEngine : RelayEngine toyPrimitives :=
  (new toyStore).holding
    ((toyStore.memory.accept toyUrgent 0).2.accept (toyEnvelope 3) 0).2

def emptyFilter : BloomFilter := toyStore.memory.summaryBloom

theorem fromBytes_emptyFilter :
    ContactMessage.fromBytes toyPrimitives (ContactMessage.summary (P := toyPrimitives)
      emptyFilter).toBytes = .ok (.summary emptyFilter) :=
  ContactMessage.fromBytes_summary (by decide)

theorem pushes_urgent_first_iff_mixedEngine :
    (∀ store, mixedEngine.held.Reordered store → ∀ outbound next,
        (onFrame 7 (new toyStore).summary 0).run (mixedEngine.holding store) =
            .ok outbound next →
          UrgentFirst (outbound.filterMap (dataIn toyPrimitives))) ↔
      (mixedEngine.Solvable (mixedEngine.held.missingFromBloom emptyFilter) →
        ∀ x ∈ mixedEngine.held.missingFromBloom emptyFilter,
          ∀ y ∈ mixedEngine.held.missingFromBloom emptyFilter,
            x.Travels → y.Travels → x.priority = y.priority) :=
  pushes_urgent_first_iff fromBytes_emptyFilter

/-- The urgent envelope is pushed last. -/
theorem mixedEngine_pushes_urgent_last :
    ∃ outbound next, (onFrame 7 (new toyStore).summary 0).run mixedEngine = .ok outbound next ∧
      (outbound.filterMap (dataIn toyPrimitives)).map Envelope.priority = [.normal, .sos] ∧
      ¬ UrgentFirst (outbound.filterMap (dataIn toyPrimitives)) := by
  have hsolvable : mixedEngine.Solvable (mixedEngine.held.missingFromBloom emptyFilter) := by
    intro relayed _
    rfl
  have hpriorities : ((mixedEngine.reply 7 ++ mixedEngine.pushFrames 7
      (mixedEngine.held.missingFromBloom emptyFilter)).filterMap
        (dataIn toyPrimitives)).map Envelope.priority = [.normal, .sos] := by
    rw [List.filterMap_append, data_reply, List.nil_append, priorities_pushFrames]
    decide
  refine ⟨_, _, (onFrame_of_summary fromBytes_emptyFilter).mpr ⟨hsolvable, rfl, rfl⟩,
    hpriorities, ?_⟩
  rw [UrgentFirst, hpriorities]
  decide

end RelayEngine

end ProjectMesh.Routing
