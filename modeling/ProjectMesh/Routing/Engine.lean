import Mathlib.Data.Finset.Dedup
import ProjectMesh.Lib.Assoc
import ProjectMesh.Routing.Bloom

namespace ProjectMesh.Routing

open ProjectMesh.Lib

structure Entry (P : Primitives) where
  envelope : Envelope P
  insertedSeq : Nat
  deriving DecidableEq

structure Store (P : Primitives) where
  capacity : Nat
  entries : Assoc EnvelopeId (Entry P)
  nextSeq : Nat
  keyed : ∀ id entry, entries.lookup id = some entry → entry.envelope.id = id

inductive Accept : Type
  | new
  | duplicate
  | expired
  | ttlExhausted
  | storeFullLowerPriority
  deriving DecidableEq

def decrementTtl {P : Primitives} (envelope : Envelope P) : Option (Envelope P) :=
  if envelope.ttlHops = 0 then none
  else if envelope.ttlHops - 1 = 0 then none
  else some { envelope with ttlHops := envelope.ttlHops - 1 }

namespace Store

variable {P : Primitives}

def new (P : Primitives) (capacity : Nat) : Store P where
  capacity := capacity
  entries := ∅
  nextSeq := 0
  keyed _ _ h := by cases h

def len (s : Store P) : Nat := Assoc.size s.entries

def get (s : Store P) (id : EnvelopeId) : Option (Envelope P) :=
  (s.entries.lookup id).map Entry.envelope

def contains (s : Store P) (id : EnvelopeId) : Bool := (s.get id).isSome

def remove (s : Store P) (id : EnvelopeId) : Store P where
  capacity := s.capacity
  entries := s.entries.erase id
  nextSeq := s.nextSeq
  keyed id' entry h := by
    by_cases hid : id' = id
    · subst hid
      simp [AList.lookup_erase] at h
    · exact s.keyed id' entry (Assoc.lookup_erase_of_ne hid ▸ h)

/-- The insertion at the end of `accept`. -/
def insert (s : Store P) (envelope : Envelope P) : Store P where
  capacity := s.capacity
  entries := s.entries.insert envelope.id ⟨envelope, s.nextSeq⟩
  nextSeq := s.nextSeq + 1
  keyed id entry h := by
    by_cases hid : id = envelope.id
    · subst hid
      rw [AList.lookup_insert] at h
      cases h
      rfl
    · exact s.keyed id entry (Assoc.lookup_insert_of_ne hid ▸ h)

/-- `(priority, Reverse(inserted_seq))` of the first entry is at most that of the second. -/
def worstKeyLe (x y : Entry P) : Bool :=
  x.envelope.priority.toNat < y.envelope.priority.toNat ∨
    x.envelope.priority = y.envelope.priority ∧ y.insertedSeq ≤ x.insertedSeq

/-- The entry `worst_entry_id` names: `max_by_key`, which gives the last of the greatest. -/
def worstEntry (s : Store P) : Option ((_ : EnvelopeId) × Entry P) :=
  s.entries.entries.foldl (fun worst x =>
    match worst with
    | none => some x
    | some w => if worstKeyLe w.2 x.2 then some x else some w) none

/-- The store with room for the envelope, and what was evicted for it.  `none` when the
envelope is no more urgent than what would have to go. -/
def makeRoom (s : Store P) (envelope : Envelope P) : Option (Store P × Option EnvelopeId) :=
  if s.len ≥ s.capacity then
    match s.worstEntry with
    | some worst =>
      if envelope.priority.toNat ≥ worst.2.envelope.priority.toNat then none
      else some (s.remove worst.1, some worst.1)
    | none => some (s, none)
  else some (s, none)

def accept (envelope : Envelope P) (now : UInt64) (s : Store P) :
    (Accept × Option EnvelopeId) × Store P :=
  if s.contains envelope.id then ((.duplicate, none), s)
  else if envelope.isExpired now then ((.expired, none), s)
  else if envelope.ttlHops = 0 then ((.ttlExhausted, none), s)
  else
    match s.makeRoom envelope with
    | none => ((.storeFullLowerPriority, none), s)
    | some (s, evicted) =>
      if s.len ≥ s.capacity then ((.storeFullLowerPriority, evicted), s)
      else ((.new, evicted), s.insert envelope)

def purgeExpired (now : UInt64) (s : Store P) : List EnvelopeId × Store P :=
  let expiredIds := (s.entries.entries.filter (·.2.envelope.isExpired now)).map (·.1)
  (expiredIds, expiredIds.foldl remove s)

def envelopes (s : Store P) : List (Envelope P) := (Assoc.values s.entries).map Entry.envelope

def summaryIds (s : Store P) : Finset EnvelopeId := s.entries.keys.toFinset

def summaryBloom (s : Store P) : BloomFilter :=
  s.entries.keys.foldl (·.insert P ·) (.new P s.len)

/-- Envelopes this store holds that the peer's exact set does not. -/
def missingFrom (s : Store P) (peerSummary : Finset EnvelopeId) : List (Envelope P) :=
  s.envelopes.filter fun e => e.id ∉ peerSummary

/-- Envelopes this store holds that the peer's filter does not. -/
def missingFromBloom (s : Store P) (peerSummary : BloomFilter) : List (Envelope P) :=
  s.envelopes.filter fun e => !peerSummary.contains P e.id

end Store

end ProjectMesh.Routing
