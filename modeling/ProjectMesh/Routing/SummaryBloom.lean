import ProjectMesh.Routing.MissedSends

namespace ProjectMesh.Routing

open ProjectMesh.Lib

variable {P : Primitives}

namespace BloomFilter

/-- What can happen to a filter: an id goes in, or it goes over the wire. -/
inductive Op : Type
  | insert (id : EnvelopeId)
  | wire

def apply (P : Primitives) (f : BloomFilter) : Op → Except MeshError BloomFilter
  | .insert id => .ok (f.insert P id)
  | .wire => fromBytes f.toBytes

def applyAll (P : Primitives) (f : BloomFilter) : List Op → Except MeshError BloomFilter
  | [] => .ok f
  | op :: ops => do
    let f ← f.apply P op
    f.applyAll P ops

section Apply

variable {f g : BloomFilter} {op : Op} {ops : List Op} {id : EnvelopeId}

theorem eq_of_fromBytes_toBytes (h : fromBytes f.toBytes = .ok g) : g = f :=
  toBytes_injective (toBytes_fromBytes h)

theorem contains_apply (h : f.apply P op = .ok g)
    (hid : f.contains P id = true ∨ op = .insert id) : g.contains P id = true := by
  cases op with
  | insert other =>
    cases h
    rcases hid with hid | heq
    · exact contains_insert hid
    · cases heq
      exact contains_insert_self
  | wire =>
    cases eq_of_fromBytes_toBytes h
    exact hid.resolve_right fun heq => by cases heq

theorem contains_applyAll (h : f.applyAll P ops = .ok g)
    (hid : f.contains P id = true ∨ Op.insert id ∈ ops) : g.contains P id = true := by
  induction ops generalizing f with
  | nil =>
    cases h
    exact hid.resolve_right List.not_mem_nil
  | cons op ops ih =>
    obtain ⟨next, happly, h⟩ := bind_eq_ok.mp h
    rcases hid with hid | hmem
    · exact ih h (.inl (contains_apply happly (.inl hid)))
    · rcases List.mem_cons.mp hmem with heq | hmem
      · exact ih h (.inl (contains_apply happly (.inr heq.symm)))
      · exact ih h (.inr hmem)

theorem applyAll_ok (h : f.numBits < 2 ^ 32) (P : Primitives) (ops : List Op) :
    ∃ g, f.applyAll P ops = .ok g := by
  induction ops generalizing f with
  | nil => exact ⟨f, rfl⟩
  | cons op ops ih =>
    cases op with
    | insert id => exact ih (f := f.insert P id) h
    | wire =>
      obtain ⟨g, hg⟩ := ih h
      exact ⟨g, bind_eq_ok.mpr ⟨f, fromBytes_toBytes h, hg⟩⟩

end Apply

end BloomFilter

namespace Store

variable {s peer : Store P} {e : Envelope P}

theorem mem_summaryIds_iff {id : EnvelopeId} : id ∈ s.summaryIds ↔ s.contains id = true := by
  rw [summaryIds, List.mem_toFinset, mem_keys_iff]

theorem mem_missingFrom_iff :
    e ∈ s.missingFrom peer.summaryIds ↔ e ∈ s.envelopes ∧ peer.contains e.id = false := by
  rw [missingFrom, List.mem_filter, decide_eq_true_iff, mem_summaryIds_iff, Bool.not_eq_true]

theorem mem_missingFrom_of_bloom (h : e ∈ s.missingFromBloom peer.summaryBloom) :
    e ∈ s.missingFrom peer.summaryIds := by
  obtain ⟨hget, hcontains⟩ := mem_missingFromBloom_iff.mp h
  refine mem_missingFrom_iff.mpr ⟨mem_envelopes_iff.mpr hget, ?_⟩
  by_contra hheld
  rw [Bool.not_eq_false] at hheld
  exact absurd (contains_summaryBloom hheld) (Bool.eq_false_iff.mp hcontains)

/-- What a store finds missing by a peer's filter, it finds missing by the exact set of its
ids; and a filter never loses an id or leaves its bit array. -/
theorem bloom_underapproximates (P : Primitives) :
    (∀ s peer : Store P, peer.summaryBloom.numBits < 2 ^ 32 →
      ∃ f, BloomFilter.fromBytes peer.summaryBloom.toBytes = .ok f ∧
        (∀ e ∈ s.missingFromBloom f, e ∈ s.missingFrom peer.summaryIds) ∧
        ∀ e ∈ s.missingFromBloom f, peer.contains e.id = false) ∧
      (∀ (f g : BloomFilter) (ops : List BloomFilter.Op), f.applyAll P ops = .ok g →
        (∀ id, f.contains P id = true ∨ .insert id ∈ ops → g.contains P id = true) ∧
          ∀ id, ∀ index ∈ g.indices P id, index / 8 < g.bits.length) ∧
      ∀ (f : BloomFilter) (ops : List BloomFilter.Op), f.numBits < 2 ^ 32 →
        ∃ g, f.applyAll P ops = .ok g := by
  refine ⟨fun s peer hbits => ?_, fun f g ops h => ?_, fun f ops hbits => ?_⟩
  · refine ⟨_, BloomFilter.fromBytes_toBytes hbits, fun e he => mem_missingFrom_of_bloom he, ?_⟩
    exact fun e he => (mem_missingFrom_iff.mp (mem_missingFrom_of_bloom he)).2
  · exact ⟨fun id hid => BloomFilter.contains_applyAll h hid,
      fun id index hindex => BloomFilter.index_lt hindex⟩
  · exact BloomFilter.applyAll_ok hbits P ops

section Examples

def peerStore : Store toyPrimitives := (Store.new toyPrimitives 4).insert (toyEnvelope 3)

def fullerStore : Store toyPrimitives :=
  peerStore.insert (.new toyPrimitives .broadcast .sos 3 100 [2])

theorem bloom_underapproximates_fullerStore :
    (∃ f, BloomFilter.fromBytes peerStore.summaryBloom.toBytes = .ok f ∧
      (∀ e ∈ fullerStore.missingFromBloom f, e ∈ fullerStore.missingFrom peerStore.summaryIds) ∧
      ∀ e ∈ fullerStore.missingFromBloom f, peerStore.contains e.id = false) ∧
      (fullerStore.missingFromBloom peerStore.summaryBloom).map Envelope.sealed = [[2]] :=
  ⟨(bloom_underapproximates toyPrimitives).1 fullerStore peerStore (by decide), by decide⟩

end Examples

end Store

end ProjectMesh.Routing
