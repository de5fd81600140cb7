import ProjectMesh.Crypto.Pqxdh

namespace ProjectMesh.Crypto

open ProjectMesh.Lib

variable {C : PrekeySuite} {w : Word} {bytes : List UInt8}

theorem PublicIdentity.ensures_fromBytes (bytes : Bytes 64) :
    (PublicIdentity.fromBytes (C := C) bytes).Ensures fun _ => True := by
  apply (Parse.ensures_arrayAt (by simp)).bind
  intro verifying _
  apply (Parse.ensures_okOr _).bind
  intro verifying _
  apply (Parse.ensures_rangeFrom (by simp)).bind
  intro agreement hlen
  apply (Parse.ensures_array (by simpa using hlen)).bind
  intro agreement _
  exact Parse.ensures_ok trivial

namespace Prekey

theorem SignedPrekey.ensures_fromBytes (bytes : Bytes 96) :
    (SignedPrekey.fromBytes (C := C) bytes).Ensures fun _ => True := by
  apply (Parse.ensures_arrayAt (by simp)).bind
  intro secret _
  apply (Parse.ensures_arrayAt (by simp)).bind
  intro signature _
  exact Parse.ensures_ok trivial

namespace PrekeyBundle

theorem ensures_readOneTimePrekey (hasOtpk : UInt8) (cursor : List UInt8) :
    (readOneTimePrekey (C := C) hasOtpk cursor).Ensures fun _ => True := by
  rw [readOneTimePrekey]
  split
  · exact Parse.ensures_ok trivial
  · split
    · apply Parse.ensures_guard
      intro hlen
      apply (Parse.ensures_arrayAt (by omega)).bind
      intro otpk _
      exact Parse.ensures_ok trivial
    · exact Parse.ensures_fail

theorem ensures_fromBytes (bytes : List UInt8) :
    (fromBytes (C := C) bytes).Ensures fun _ => True := by
  apply Parse.ensures_guard
  rw [fixedLen]
  intro hlen
  apply Parse.ensures_splitAt_bind (by omega)
  intro verifyingBytes cursor hverifying h₁
  apply Parse.ensures_splitAt_bind (by omega)
  intro agreementBytes cursor hagreement h₂
  apply Parse.ensures_splitAt_bind (by omega)
  intro spkPublicBytes cursor hspk h₃
  apply Parse.ensures_splitAt_bind (by omega)
  intro sigBytes cursor hsig h₄
  apply (Parse.ensures_index (by omega)).bind
  intro hasOtpk _
  apply (Parse.ensures_rangeFrom (by omega)).bind
  intro cursor _
  apply (Parse.ensures_array hverifying).bind
  intro verifying _
  apply (Parse.ensures_okOr _).bind
  intro verifying _
  apply (Parse.ensures_array hagreement).bind
  intro agreement _
  apply (Parse.ensures_array hspk).bind
  intro signedPrekeyPublic _
  apply (Parse.ensures_array hsig).bind
  intro signedPrekeySignature _
  apply (ensures_readOneTimePrekey hasOtpk cursor).bind
  intro oneTimePrekey _
  exact Parse.ensures_ok trivial

end PrekeyBundle

/-- On the 32-bit targets the product can wrap around, but no slice is taken by it. -/
theorem PrekeyPool.ensures_fromBytes (w : Word) (bytes : List UInt8) :
    (PrekeyPool.fromBytes (C := C) w bytes).Ensures fun _ => True := by
  apply Parse.ensures_guard
  intro hlen
  apply (Parse.ensures_arrayAt (by omega)).bind
  intro signed _
  apply (SignedPrekey.ensures_fromBytes signed).bind
  intro signedPrekey _
  apply (Parse.ensures_arrayAt (by omega)).bind
  intro count _
  apply (Parse.ensures_rangeFrom (by omega)).bind
  intro rest _
  apply Parse.ensures_guard
  intro _
  have hchunk : ∀ chunk ∈ Parse.chunksExact 32 rest,
      (PrekeyPool.readOneTimePrekey (C := C) chunk).Ensures fun _ => True := by
    intro chunk hmem
    apply (Parse.ensures_array (Parse.length_of_mem_chunksExact hmem)).bind
    intro bytes _
    exact Parse.ensures_ok trivial
  apply (Parse.ensures_mapM hchunk).bind
  intro available _
  exact Parse.ensures_ok trivial

end Prekey

namespace Pqxdh

theorem PqPrekey.ensures_fromBytes (bytes : List UInt8) :
    (PqPrekey.fromBytes (C := C) bytes).Ensures fun _ => True := by
  apply Parse.ensures_guard
  intro hlen
  apply (Parse.ensures_range (by omega)).bind
  intro seedBytes _
  split
  · exact Parse.ensures_fail
  · apply (Parse.ensures_arrayAt (by omega)).bind
    intro signature _
    exact Parse.ensures_ok trivial

theorem HybridPrekeyPool.ensures_fromBytes (w : Word) (bytes : List UInt8) :
    (HybridPrekeyPool.fromBytes (C := C) w bytes).Ensures fun _ => True := by
  apply Parse.ensures_guard
  intro hlen
  apply (Parse.ensures_arrayAt (by omega)).bind
  intro classicalLen _
  apply (Parse.ensures_rangeFrom (by omega)).bind
  intro rest _
  apply Parse.ensures_guard
  intro hrest
  apply Parse.ensures_splitAt_bind (Nat.not_lt.mp hrest)
  intro classicalBytes pqBytes _ _
  apply (Prekey.PrekeyPool.ensures_fromBytes w classicalBytes).bind
  intro classical _
  apply (PqPrekey.ensures_fromBytes pqBytes).bind
  intro pqPrekey _
  exact Parse.ensures_ok trivial

theorem ensures_readUsedOneTimePrekey (hasOtpk : UInt8) (cursor : List UInt8) :
    (readUsedOneTimePrekey (C := C) hasOtpk cursor).Ensures fun _ => True := by
  rw [readUsedOneTimePrekey]
  split
  · exact Parse.ensures_ok trivial
  · split
    · apply Parse.ensures_guard
      intro hlen
      apply Parse.ensures_splitAt_bind (Nat.not_lt.mp hlen)
      intro otpkBytes rest hotpk _
      apply (Parse.ensures_array hotpk).bind
      intro otpk _
      exact Parse.ensures_ok trivial
    · exact Parse.ensures_fail

theorem ensures_readCiphertext (cursor : List UInt8) :
    (readCiphertext cursor).Ensures fun _ => True := by
  rw [readCiphertext]
  split
  · exact Parse.ensures_fail
  · exact Parse.ensures_ok trivial

theorem ensures_unpackInitiationMessage (bytes : List UInt8) :
    (unpackInitiationMessage (C := C) bytes).Ensures fun _ => True := by
  apply Parse.ensures_guard
  intro hlen
  apply (Parse.ensures_arrayAt (by omega)).bind
  intro sender _
  apply (PublicIdentity.ensures_fromBytes sender).bind
  intro senderIdentityPublic _
  apply (Parse.ensures_arrayAt (by omega)).bind
  intro ephemeralPublic _
  apply (Parse.ensures_index (by omega)).bind
  intro hasOtpk _
  apply (Parse.ensures_rangeFrom (by omega)).bind
  intro cursor _
  apply (ensures_readUsedOneTimePrekey hasOtpk cursor).bind
  rintro ⟨usedOneTimePrekey, cursor⟩ _
  apply (ensures_readCiphertext cursor).bind
  intro pqCiphertext _
  exact Parse.ensures_ok trivial

namespace HybridBundle

theorem ensures_readEncapsulationKey (bytes : List UInt8) :
    (readEncapsulationKey (C := C) bytes).Ensures fun _ => True := by
  rw [readEncapsulationKey]
  split
  · exact Parse.ensures_fail
  · exact (Parse.ensures_okOr _).mono fun _ _ => trivial

def classicalLen (bytes : List UInt8) : Nat := leNat (bytes.take 4)

/-- On the 32-bit targets the sum of `classicalLen` and 64 wraps around, and there are
as many bytes as it then asks for. -/
def Wraps (w : Word) (bytes : List UInt8) : Prop :=
  w = .w32 ∧ 4 ≤ bytes.length ∧ 2 ^ 32 ≤ classicalLen bytes + 64 ∧
    classicalLen bytes + 64 ≤ bytes.length - 4 + 2 ^ 32

theorem classicalLen_lt (bytes : List UInt8) : classicalLen bytes < 2 ^ 32 := leNat_take_lt 4 bytes

theorem fromBytes_eq (h : 4 ≤ bytes.length) :
    fromBytes (C := C) w bytes =
      if (bytes.drop 4).length < w.add (classicalLen bytes) 64 then
        Parse.fail (.malformed "truncated hybrid bundle")
      else do
        let (classicalBytes, rest) ← Parse.splitAt (classicalLen bytes) (bytes.drop 4)
        let (ekBytes, sigBytes) ← Parse.splitAt (w.sub rest.length 64) rest
        let classical ← Prekey.PrekeyBundle.fromBytes classicalBytes
        let pqEncapsulationKey ← readEncapsulationKey ekBytes
        let pqSignature ← Parse.array 64 sigBytes
        return {
          classical := classical
          pqEncapsulationKey := pqEncapsulationKey
          pqSignature := pqSignature } := by
  rw [fromBytes, if_neg (Nat.not_lt.mpr h), Parse.arrayAt_zero h, Parse.rangeFrom, if_pos h]
  rfl

theorem returns_of_add_eq (bytes : Slice w)
    (h : w.add (classicalLen bytes.1) 64 = classicalLen bytes.1 + 64) :
    (fromBytes (C := C) w bytes.1).Returns := by
  by_cases hlen : 4 ≤ bytes.1.length
  · rw [fromBytes_eq hlen, h]
    apply Parse.Ensures.returns
    apply Parse.ensures_guard
    intro hrest
    apply Parse.ensures_splitAt_bind (by omega)
    intro classicalBytes rest _ hlast
    have hbits := bytes.length_lt_bits
    rw [List.length_drop] at hrest hlast
    have hsub : w.sub rest.length 64 = rest.length - 64 := Word.sub_eq (by omega) (by omega)
    dsimp only
    rw [hsub]
    apply Parse.ensures_splitAt_bind (Nat.sub_le _ _)
    intro ekBytes sigBytes _ hsig
    dsimp only
    apply (Prekey.PrekeyBundle.ensures_fromBytes classicalBytes).bind
    intro classical _
    apply (ensures_readEncapsulationKey ekBytes).bind
    intro pqEncapsulationKey _
    apply (Parse.ensures_array (by omega)).bind
    intro pqSignature _
    exact Parse.ensures_ok trivial
  · rw [fromBytes, if_pos (Nat.not_le.mp hlen)]
    exact Parse.returns_fail

theorem fromBytes_of_wraps (bytes : Slice w) (h : Wraps w bytes.1) :
    fromBytes (C := C) w bytes.1 = Parse.halt := by
  obtain ⟨rfl, hlen, hwrap, hroom⟩ := h
  have hlt := classicalLen_lt bytes.1
  have hmax : bytes.1.length < 2 ^ 31 := bytes.2
  have hadd := Word.add_w32 hwrap (by omega)
  rw [fromBytes_eq hlen, hadd, List.length_drop, if_neg (by omega), Parse.splitAt,
    if_neg (by rw [List.length_drop]; omega)]
  rfl

theorem returns_fromBytes_iff (bytes : Slice w) :
    (fromBytes (C := C) w bytes.1).Returns ↔ ¬ Wraps w bytes.1 := by
  constructor
  · intro h hwraps
    rw [fromBytes_of_wraps bytes hwraps] at h
    exact Parse.not_returns_halt h
  · intro h
    have hlt := classicalLen_lt bytes.1
    by_cases hadd : classicalLen bytes.1 + 64 < 2 ^ w.bits
    · exact returns_of_add_eq bytes (Word.add_eq hadd)
    · cases w with
      | w64 =>
        change ¬ _ < 2 ^ 64 at hadd
        omega
      | w32 =>
        change ¬ _ < 2 ^ 32 at hadd
        by_cases hlen : 4 ≤ bytes.1.length
        · have hshort : bytes.1.length - 4 + 2 ^ 32 < classicalLen bytes.1 + 64 := by
            refine Nat.not_le.mp fun hroom => h ⟨rfl, hlen, Nat.not_lt.mp hadd, hroom⟩
          have hwrap := Word.add_w32 (Nat.not_lt.mp hadd) (by omega)
          rw [fromBytes_eq hlen, hwrap, List.length_drop, if_pos (by omega)]
          exact Parse.returns_fail
        · rw [fromBytes, if_pos (Nat.not_le.mp hlen)]
          exact Parse.returns_fail

end HybridBundle

end Pqxdh

end ProjectMesh.Crypto
