import ProjectMesh.Lib.BitArray
import ProjectMesh.Routing.Envelope

namespace ProjectMesh.Routing

open ProjectMesh.Lib

def minBits : Nat := 64

def minHashes : Nat := 1

def maxHashes : Nat := 32

structure BloomFilter where
  bits : List UInt8
  numBits : Nat
  numHashes : Nat
  minBits_le : minBits ≤ numBits
  hashes : minHashes ≤ numHashes ∧ numHashes ≤ maxHashes
  length : bits.length = (numBits + 7) / 8
  deriving DecidableEq

namespace BloomFilter

variable {P : Primitives} {f : BloomFilter} {id id' : EnvelopeId}

/-- A filter for `expectedItems` at the rate of `SUMMARY_BLOOM_FALSE_POSITIVE_RATE`. -/
def new (P : Primitives) (expectedItems : Nat) : BloomFilter :=
  let n := max expectedItems 1
  let numBits := max (P.bloomBits n) minBits
  let numHashes := min (max (P.bloomHashes numBits n) minHashes) maxHashes
  { bits := List.replicate ((numBits + 7) / 8) 0
    numBits := numBits
    numHashes := numHashes
    minBits_le := Nat.le_max_right _ _
    hashes := ⟨Nat.le_min.mpr ⟨Nat.le_max_right _ _, by decide⟩, Nat.min_le_right _ _⟩
    length := List.length_replicate }

/-- The sum and the product are `u64`s that wrap around. -/
def indices (P : Primitives) (f : BloomFilter) (id : EnvelopeId) : List Nat :=
  let digest := P.blake3 id.bytes.1
  let h1 := leNat (digest.1.take 8)
  let h2 := leNat ((digest.1.drop 8).take 8)
  (List.range f.numHashes).map fun i => (h1 + i * h2) % 2 ^ 64 % f.numBits

def insert (P : Primitives) (f : BloomFilter) (id : EnvelopeId) : BloomFilter :=
  { f with
    bits := BitArray.setBits f.bits (f.indices P id)
    length := BitArray.length_setBits.trans f.length }

def contains (P : Primitives) (f : BloomFilter) (id : EnvelopeId) : Bool :=
  (f.indices P id).all fun index => BitArray.testBit f.bits index

def toBytes (f : BloomFilter) : List UInt8 :=
  leBytes 4 f.numBits ++ UInt8.ofNat f.numHashes :: f.bits

def fromBytes (bytes : List UInt8) : Except MeshError BloomFilter := do
  let size ← Cursor.split 4 (MeshError.malformed "bloom filter shorter than header") bytes
  let hashes ← Cursor.first (.malformed "bloom filter shorter than header") size.2
  let numBits := leNat size.1.1
  let numHashes := hashes.1.toNat
  let bits := hashes.2
  if hparams : numBits < minBits ∨ numHashes < minHashes ∨ numHashes > maxHashes then
    .error (.malformed "bloom filter parameters out of range")
  else if hlen : bits.length ≠ (numBits + 7) / 8 then
    .error (.malformed "bloom filter bit array length mismatch")
  else
    .ok {
      bits := bits
      numBits := numBits
      numHashes := numHashes
      minBits_le := by omega
      hashes := by omega
      length := not_not.mp hlen }

theorem index_lt {index : Nat} (h : index ∈ f.indices P id) : index / 8 < f.bits.length := by
  simp only [indices, List.mem_map] at h
  obtain ⟨i, -, rfl⟩ := h
  have hbits := f.minBits_le
  have hlt := Nat.mod_lt ((leNat ((P.blake3 id.bytes.1).1.take 8) +
    i * leNat (((P.blake3 id.bytes.1).1.drop 8).take 8)) % 2 ^ 64)
    (Nat.lt_of_lt_of_le (by decide) hbits : 0 < f.numBits)
  rw [f.length]
  omega

theorem contains_new {n : Nat} : (new P n).contains P id = false := by
  have hhashes := (new P n).hashes.1
  obtain ⟨k, hk⟩ : ∃ k, (new P n).numHashes = k + 1 :=
    ⟨_, (Nat.sub_add_cancel hhashes).symm⟩
  have hzero : ∀ i, BitArray.testBit (new P n).bits i = false := fun i =>
    BitArray.testBit_replicate_zero _ i
  rw [contains, indices, hk, List.range_succ_eq_map, List.map_cons, List.all_cons, hzero,
    Bool.false_and]

theorem contains_insert_self : (f.insert P id).contains P id = true := by
  simp only [contains, List.all_eq_true]
  intro index h
  exact BitArray.testBit_setBits_of_mem h (index_lt h)

theorem contains_insert (h : f.contains P id = true) : (f.insert P id').contains P id = true := by
  simp only [contains, List.all_eq_true] at h ⊢
  exact fun index hmem => BitArray.testBit_setBits (h index hmem)

theorem indices_foldl_insert {ids : List EnvelopeId} :
    (ids.foldl (·.insert P ·) f).indices P id = f.indices P id := by
  induction ids generalizing f with
  | nil => rfl
  | cons other ids ih => exact ih

theorem testBit_foldl_insert_iff {ids : List EnvelopeId} {index : Nat}
    (h : index / 8 < f.bits.length) :
    BitArray.testBit (ids.foldl (·.insert P ·) f).bits index = true ↔
      BitArray.testBit f.bits index = true ∨ ∃ other ∈ ids, index ∈ f.indices P other := by
  induction ids generalizing f with
  | nil => simp
  | cons other ids ih =>
    have hbits : BitArray.testBit (f.insert P other).bits index = true ↔
        BitArray.testBit f.bits index = true ∨ index ∈ f.indices P other :=
      BitArray.testBit_setBits_iff h
    have hlength : (f.insert P other).bits.length = f.bits.length := BitArray.length_setBits
    rw [List.foldl_cons, ih (hlength.symm ▸ h), hbits, or_assoc, List.exists_mem_cons_iff]
    rfl

theorem contains_foldl_insert_iff {ids : List EnvelopeId} {n : Nat} :
    (ids.foldl (·.insert P ·) (new P n)).contains P id = true ↔
      ∀ index ∈ (new P n).indices P id, ∃ other ∈ ids, index ∈ (new P n).indices P other := by
  rw [contains, List.all_eq_true, indices_foldl_insert]
  refine forall₂_congr fun index hindex => ?_
  rw [testBit_foldl_insert_iff (index_lt hindex)]
  exact or_iff_right (by simp [new])

/-- The header holds the number of bits as a `u32`. -/
theorem fromBytes_toBytes (h : f.numBits < 2 ^ 32) : fromBytes f.toBytes = .ok f := by
  obtain ⟨bits, numBits, numHashes, hmin, hhashes, hlen⟩ := f
  have hsize : leNat (leBytes 4 numBits) = numBits := leNat_leBytes_of_lt h
  have hmax : maxHashes = 32 := rfl
  have hnum : (UInt8.ofNat numHashes).toNat = numHashes := UInt8.toNat_ofNat_of_lt' (by
    have := hhashes.2
    simp only [UInt8.size]
    omega)
  have hparams : ¬ (numBits < minBits ∨ numHashes < minHashes ∨ numHashes > maxHashes) := by omega
  simp only [toBytes, fromBytes, Cursor.split_append_of_length (length_leBytes 4 _), bind,
    Except.bind, Cursor.first_cons, hsize, hnum, dif_neg hparams, hlen, ne_eq,
    not_true_eq_false, dite_false]

end BloomFilter

end ProjectMesh.Routing
