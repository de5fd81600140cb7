import ProjectMesh.Crypto.Groups
import ProjectMesh.Crypto.Padding
import ProjectMesh.Crypto.PrekeyParsing
import ProjectMesh.Routing.RelayRun
import ProjectMesh.Routing.WireSlices

namespace ProjectMesh

open ProjectMesh.Lib
open ProjectMesh.Crypto
open ProjectMesh.Crypto.Prekey
open ProjectMesh.Crypto.Pqxdh
open ProjectMesh.Routing

namespace Crypto.Padding

variable {w : Word} {padded : List UInt8}

def unpadSlice (w : Word) (padded : List UInt8) : Parse MeshError (List UInt8) :=
  if padded.length < 4 then
    Parse.fail (.malformed "padded content shorter than length prefix")
  else do
    let len ← Parse.arrayAt 0 4 padded
    if w.add 4 (leNat len.1) > padded.length then
      Parse.fail (.malformed "length prefix exceeds padded content")
    else Parse.range 4 (w.add 4 (leNat len.1)) padded

/-- On the 32-bit targets the sum of 4 and the length prefix wraps around. -/
def Wraps (w : Word) (padded : List UInt8) : Prop :=
  w = .w32 ∧ 4 ≤ padded.length ∧ 2 ^ 32 ≤ 4 + leNat (padded.take 4)

theorem unpadSlice_eq (h : 4 + leNat (padded.take 4) < 2 ^ w.bits) :
    unpadSlice w padded = Parse.ofExcept (unpad padded) := by
  apply Parse.ofExcept_guard
  intro hlen
  rw [Parse.arrayAt_zero (Nat.not_lt.mp hlen)]
  change (if w.add 4 (leNat (padded.take 4)) > padded.length then _ else _) = _
  rw [Word.add_eq h]
  apply Parse.ofExcept_guard
  intro hle
  rw [Parse.range, if_pos ⟨Nat.le_add_right _ _, Nat.not_lt.mp hle⟩, List.drop_take,
    Nat.add_sub_cancel_left]
  rfl

theorem unpadSlice_of_wraps (h : Wraps w padded) : unpadSlice w padded = Parse.halt := by
  obtain ⟨rfl, hlen, hwrap⟩ := h
  have hlt : leNat (padded.take 4) < 2 ^ 32 := leNat_take_lt 4 padded
  rw [unpadSlice, if_neg (Nat.not_lt.mpr hlen), Parse.arrayAt_zero hlen]
  change (if Word.add .w32 4 (leNat (padded.take 4)) > padded.length then _ else _) = _
  rw [Word.add_w32 hwrap (by omega), if_neg (by omega)]
  exact if_neg (by omega)

theorem returns_unpadSlice_iff : (unpadSlice w padded).Returns ↔ ¬ Wraps w padded := by
  constructor
  · intro h hwraps
    rw [unpadSlice_of_wraps hwraps] at h
    exact Parse.not_returns_halt h
  · intro h
    by_cases hlen : padded.length < 4
    · rw [unpadSlice, if_pos hlen]
      exact Parse.returns_fail
    · have hlt : leNat (padded.take 4) < 2 ^ 32 := leNat_take_lt 4 padded
      have hadd : 4 + leNat (padded.take 4) < 2 ^ w.bits := by
        cases w with
        | w32 => exact Nat.not_le.mp fun hwrap => h ⟨rfl, Nat.not_lt.mp hlen, hwrap⟩
        | w64 => exact Nat.lt_of_lt_of_le (by omega) (Nat.pow_le_pow_right (n := 2) (by decide)
            (show 33 ≤ 64 by decide))
      rw [unpadSlice_eq hadd]
      exact Parse.returns_ofExcept _

end Crypto.Padding

structure PlainParsersReturn (C : PrekeySuite) (P : Primitives) (w : Word) (bytes : Slice w) :
    Prop where
  prekeyBundle : (PrekeyBundle.fromBytes (C := C) bytes.1).Returns
  initiationMessage : (unpackInitiationMessage (C := C) bytes.1).Returns
  prekeyPool : (PrekeyPool.fromBytes (C := C) w bytes.1).Returns
  hybridPrekeyPool : (HybridPrekeyPool.fromBytes (C := C) w bytes.1).Returns
  kvPairs : (Groups.decodeKvPairs bytes.1).Returns
  envelope : (Envelope.fromSlice P bytes.1).Returns
  bloomFilter : (BloomFilter.fromSlice bytes.1).Returns
  contactMessage : (ContactMessage.fromSlice P bytes.1).Returns

structure ParsersReturn (C : PrekeySuite) (P : Primitives) (w : Word) (bytes : Slice w) : Prop
    extends PlainParsersReturn C P w bytes where
  hybridBundle : (HybridBundle.fromBytes (C := C) w bytes.1).Returns
  unpad : (Padding.unpadSlice w bytes.1).Returns

theorem plainParsersReturn (C : PrekeySuite) (P : Primitives) (w : Word) (bytes : Slice w) :
    PlainParsersReturn C P w bytes where
  prekeyBundle := (PrekeyBundle.ensures_fromBytes _).returns
  initiationMessage := (ensures_unpackInitiationMessage _).returns
  prekeyPool := (PrekeyPool.ensures_fromBytes w _).returns
  hybridPrekeyPool := (HybridPrekeyPool.ensures_fromBytes w _).returns
  kvPairs := Groups.returns_decodeKvPairs _
  envelope := by
    rw [Envelope.fromSlice_eq]
    exact Parse.returns_ofExcept _
  bloomFilter := by
    rw [BloomFilter.fromSlice_eq]
    exact Parse.returns_ofExcept _
  contactMessage := by
    rw [ContactMessage.fromSlice_eq]
    exact Parse.returns_ofExcept _

/-- A parser panics only where a sum of an untrusted length wraps around. -/
theorem parsersReturn_iff (C : PrekeySuite) (P : Primitives) (w : Word) (bytes : Slice w) :
    (ParsersReturn C P w bytes ↔ ¬ HybridBundle.Wraps w bytes.1 ∧ ¬ Padding.Wraps w bytes.1) ∧
      PlainParsersReturn C P w bytes ∧
      ((HybridBundle.fromBytes (C := C) w bytes.1).Returns ↔ ¬ HybridBundle.Wraps w bytes.1) ∧
      ((Padding.unpadSlice w bytes.1).Returns ↔ ¬ Padding.Wraps w bytes.1) := by
  have hplain := plainParsersReturn C P w bytes
  have hbundle := HybridBundle.returns_fromBytes_iff (C := C) bytes
  have hunpad : (Padding.unpadSlice w bytes.1).Returns ↔ ¬ Padding.Wraps w bytes.1 :=
    Padding.returns_unpadSlice_iff
  refine ⟨⟨?_, ?_⟩, hplain, hbundle, hunpad⟩
  · intro h
    exact ⟨hbundle.mp h.hybridBundle, hunpad.mp h.unpad⟩
  · rintro ⟨hw, hw'⟩
    exact ⟨hplain, hbundle.mpr hw, hunpad.mpr hw'⟩

/-- The length field `0xFFFFFFC0`, 64 short of `2 ^ 32`, and nothing behind it. -/
theorem not_parsersReturn : ¬ ∀ (C : PrekeySuite) (P : Primitives) (w : Word) (bytes : Slice w),
    ParsersReturn C P w bytes := by
  intro h
  have hreturns := h toyPrekeys toyPrimitives .w32 ⟨[0xC0, 0xFF, 0xFF, 0xFF], by decide⟩
  exact hreturns.hybridBundle rfl

end ProjectMesh
