import ProjectMesh.Crypto.Pqxdh

namespace ProjectMesh.Crypto

open ProjectMesh.Lib

variable {C : PrekeySuite} {w : Word}

theorem PublicIdentity.fromBytes_toBytes (hC : C.Lawful) (identity : PublicIdentity C) :
    fromBytes ⟨identity.toBytes, identity.length_toBytes⟩ = .ok identity := by
  have hkey : (Parse.arrayAt 0 32 identity.toBytes : Parse MeshError _) =
      .ok (C.verifyingBytes identity.verifying) := Parse.arrayAt_zero_append _
  have hrest : (Parse.rangeFrom 32 identity.toBytes : Parse MeshError _) =
      .ok (C.pubBytes identity.agreement).1 := Parse.rangeFrom_append (length_bytes _)
  simp only [fromBytes, hkey, hrest, bind, Except.bind, hC.verifyingFromBytes_bytes, Parse.okOr,
    Parse.array_val, Equiv.symm_apply_apply]
  rfl

namespace Prekey

theorem SignedPrekey.ext {a b : SignedPrekey C} (hsecret : a.secret = b.secret)
    (hsignature : a.signature = b.signature) : a = b := by
  obtain ⟨secret, pub, signature, rfl⟩ := a
  obtain ⟨secret', pub', signature', rfl⟩ := b
  cases hsecret
  cases hsignature
  rfl

theorem SignedPrekey.length_toBytes (prekey : SignedPrekey C) : prekey.toBytes.length = 96 := by
  simp [SignedPrekey.toBytes]

theorem SignedPrekey.fromBytes_toBytes (prekey : SignedPrekey C) :
    fromBytes ⟨prekey.toBytes, prekey.length_toBytes⟩ = .ok prekey := by
  have hsecret : (Parse.arrayAt 0 32 prekey.toBytes : Parse MeshError _) =
      .ok (C.secretBytes prekey.secret) := Parse.arrayAt_zero_append _
  have hsignature : (Parse.arrayAt 32 64 prekey.toBytes : Parse MeshError _) =
      .ok prekey.signature := Parse.arrayAt_last (length_bytes _) _
  simp only [fromBytes, hsecret, hsignature, bind, Except.bind]
  exact congrArg Except.ok (SignedPrekey.ext (C.secretBytes.symm_apply_apply _) rfl)

theorem OneTimePrekey.fromBytes_toBytes (prekey : OneTimePrekey C) :
    fromBytes prekey.toBytes = prekey := by
  obtain ⟨secret, pub, rfl⟩ := prekey
  simp only [fromBytes, toBytes, generate, Equiv.symm_apply_apply]

namespace PrekeyBundle

theorem length_oneTimePrekeyBytes (oneTimePrekey : Option C.Public) :
    (oneTimePrekeyBytes oneTimePrekey).length = 1 ∨
      (oneTimePrekeyBytes oneTimePrekey).length = 33 := by
  cases oneTimePrekey with
  | none => exact .inl rfl
  | some otpk =>
    refine .inr ?_
    rw [oneTimePrekeyBytes, List.length_cons, length_bytes]

theorem length_toBytes (bundle : PrekeyBundle C) :
    161 ≤ bundle.toBytes.length ∧ bundle.toBytes.length ≤ 193 := by
  have h := length_oneTimePrekeyBytes bundle.oneTimePrekey
  simp only [toBytes, List.length_append, length_bytes]
  omega

theorem readOneTimePrekey_bytes (oneTimePrekey : Option C.Public) (tail : List UInt8) :
    ∃ hasOtpk cursor, oneTimePrekeyBytes oneTimePrekey ++ tail = hasOtpk :: cursor ∧
      readOneTimePrekey hasOtpk cursor = .ok oneTimePrekey := by
  cases oneTimePrekey with
  | none => exact ⟨0, tail, rfl, rfl⟩
  | some otpk =>
    have hlen : ¬ ((C.pubBytes otpk).1 ++ tail).length < 32 := by
      rw [List.length_append, length_bytes]
      omega
    refine ⟨1, (C.pubBytes otpk).1 ++ tail, rfl, ?_⟩
    rw [readOneTimePrekey, if_neg (by decide), if_pos rfl, if_neg hlen, Parse.arrayAt_zero_append]
    exact congrArg (fun p => Except.ok (some p)) (C.pubBytes.symm_apply_apply otpk)

theorem fromBytes_append (hC : C.Lawful) (bundle : PrekeyBundle C) (tail : List UInt8) :
    fromBytes (bundle.toBytes ++ tail) = .ok bundle := by
  have hlen := bundle.length_toBytes.1
  obtain ⟨hasOtpk, cursor, hbytes, hread⟩ :=
    readOneTimePrekey_bytes bundle.oneTimePrekey tail
  rw [fromBytes, fixedLen, List.length_append, if_neg (by omega), toBytes]
  simp only [List.append_assoc, hbytes, bind, Except.bind, Parse.splitAt_append (length_bytes _),
    Parse.array_val, hC.verifyingFromBytes_bytes, Parse.okOr, Equiv.symm_apply_apply]
  change (readOneTimePrekey hasOtpk cursor >>= _) = _
  rw [hread]
  rfl

end PrekeyBundle

namespace PrekeyPool

theorem readAvailable (available : List (OneTimePrekey C)) :
    (Parse.chunksExact 32 (available.flatMap fun otpk => otpk.toBytes.1)).mapM readOneTimePrekey =
      .ok available := by
  induction available with
  | nil =>
    rw [List.flatMap_nil, Parse.chunksExact_nil, List.mapM_nil]
    rfl
  | cons otpk available ih =>
    have hread : readOneTimePrekey otpk.toBytes.1 = .ok otpk := by
      rw [readOneTimePrekey, Parse.array_val]
      exact congrArg Except.ok otpk.fromBytes_toBytes
    rw [List.flatMap_cons, Parse.chunksExact_cons (by decide) (length_bytes _), List.mapM_cons, ih,
      hread]
    rfl

theorem length_flatMap_toBytes (available : List (OneTimePrekey C)) :
    (available.flatMap fun otpk => otpk.toBytes.1).length = available.length * 32 := by
  induction available with
  | nil => rfl
  | cons otpk available ih =>
    rw [List.flatMap_cons, List.length_append, length_bytes, ih, List.length_cons]
    omega

theorem length_toBytes (pool : PrekeyPool C) :
    pool.toBytes.length = 100 + pool.available.length * 32 := by
  rw [toBytes, List.length_append, List.length_append, length_leBytes, length_flatMap_toBytes,
    SignedPrekey.length_toBytes]
  omega

theorem fromBytes_toBytes (pool : PrekeyPool C) :
    fromBytes w pool.toBytes =
      if pool.available.length * 32 ≠ w.mul (pool.available.length % 2 ^ 32) 32 then
        Parse.fail (.malformed "prekey pool one-time-prekey count doesn't match remaining bytes")
      else .ok pool := by
  have hsigned : (Parse.arrayAt 0 96 pool.toBytes : Parse MeshError _) =
      .ok ⟨pool.signedPrekey.toBytes, pool.signedPrekey.length_toBytes⟩ :=
    Parse.arrayAt_zero_append ⟨pool.signedPrekey.toBytes, pool.signedPrekey.length_toBytes⟩
  have hcount : (Parse.arrayAt 96 4 pool.toBytes : Parse MeshError _) =
      .ok ⟨leBytes 4 pool.available.length, length_leBytes _ _⟩ :=
    Parse.arrayAt_append pool.signedPrekey.length_toBytes
      ⟨leBytes 4 pool.available.length, length_leBytes _ _⟩
  have hrest : (Parse.rangeFrom 100 pool.toBytes : Parse MeshError _) =
      .ok (pool.available.flatMap fun otpk => otpk.toBytes.1) := by
    rw [toBytes, ← List.append_assoc]
    apply Parse.rangeFrom_append
    rw [List.length_append, SignedPrekey.length_toBytes, length_leBytes]
  have hlen : ¬ pool.toBytes.length < 96 + 4 := by
    rw [length_toBytes]
    omega
  have hnum : leNat (leBytes 4 pool.available.length) = pool.available.length % 2 ^ 32 :=
    leNat_leBytes 4 _
  rw [fromBytes, if_neg hlen, hsigned]
  simp only [bind, Except.bind, SignedPrekey.fromBytes_toBytes, hcount, hrest, hnum,
    length_flatMap_toBytes]
  split
  · rfl
  · rw [readAvailable]
    rfl

end PrekeyPool

end Prekey

namespace Pqxdh

open ProjectMesh.Crypto.Prekey

theorem PqPrekey.ext {a b : PqPrekey C} (hkey : a.decapsulationKey = b.decapsulationKey)
    (hsignature : a.signature = b.signature) : a = b := by
  obtain ⟨decapsulationKey, encapsulationKey, signature, rfl⟩ := a
  obtain ⟨decapsulationKey', encapsulationKey', signature', rfl⟩ := b
  cases hkey
  cases hsignature
  rfl

theorem PqPrekey.length_of_toBytes {prekey : PqPrekey C} {bytes : List UInt8}
    (h : prekey.toBytes = .ok bytes) : bytes.length = 128 := by
  rw [toBytes] at h
  split at h
  · cases h
  · cases h
    rw [List.length_append, length_bytes, length_bytes]

theorem PqPrekey.length_of_fromBytes {prekey : PqPrekey C} {bytes : List UInt8}
    (h : fromBytes bytes = .ok prekey) : bytes.length = 128 := by
  by_contra hlen
  rw [fromBytes, if_pos hlen] at h
  cases h

def PqPrekey.Restorable (prekey : PqPrekey C) : Prop :=
  ∀ seed, C.toSeed prekey.decapsulationKey = some seed → C.fromSeed seed = prekey.decapsulationKey

theorem PqPrekey.restorable (hC : C.Lawful) (prekey : PqPrekey C) : prekey.Restorable :=
  hC.fromSeed_toSeed prekey.decapsulationKey

theorem PqPrekey.fromBytes_toBytes {prekey : PqPrekey C} {bytes : List UInt8}
    (hprekey : prekey.Restorable) (h : prekey.toBytes = .ok bytes) :
    fromBytes bytes = .ok prekey := by
  rw [toBytes] at h
  split at h
  · cases h
  · rename_i seed hseed
    cases h
    have hlen : ¬ (seed.1 ++ prekey.signature.1).length ≠ 128 := by
      rw [List.length_append, length_bytes, length_bytes]
      decide
    have hnot : ¬ seed.1.length ≠ 64 := not_not.mpr seed.2
    rw [fromBytes, if_neg hlen, Parse.range_zero_append seed.2]
    simp only [bind, Except.bind, dif_neg hnot, Parse.arrayAt_last seed.2]
    exact congrArg Except.ok (PqPrekey.ext (hprekey seed hseed) rfl)

namespace HybridPrekeyPool

theorem fromBytes_append (classical pq : List UInt8) :
    fromBytes (C := C) w (leBytes 4 classical.length ++ (classical ++ pq)) =
      if classical.length + pq.length < classical.length % 2 ^ 32 then
        Parse.fail (.malformed "truncated hybrid prekey pool")
      else do
        let (classicalBytes, pqBytes) ←
          Parse.splitAt (classical.length % 2 ^ 32) (classical ++ pq)
        let classical ← PrekeyPool.fromBytes w classicalBytes
        let pqPrekey ← PqPrekey.fromBytes pqBytes
        return { classical := classical, pqPrekey := pqPrekey } := by
  have hlen : ¬ (leBytes 4 classical.length ++ (classical ++ pq)).length < 4 := by
    rw [List.length_append, length_leBytes]
    omega
  have hnum : leNat (leBytes 4 classical.length) = classical.length % 2 ^ 32 := leNat_leBytes 4 _
  rw [fromBytes, if_neg hlen,
    Parse.arrayAt_zero_append ⟨leBytes 4 classical.length, length_leBytes _ _⟩,
    Parse.rangeFrom_append (length_leBytes _ _), ← hnum, ← List.length_append]
  rfl

/-- Whatever a pool is restored as, it is the pool that was stored, and its classical part
was short enough for its `u32` length. -/
theorem of_fromBytes_toBytes {pool pool' : HybridPrekeyPool C} {bytes : List UInt8}
    (hpool : pool.pqPrekey.Restorable) (h : pool.toBytes = .ok bytes)
    (h' : fromBytes w bytes = .ok pool') :
    pool' = pool ∧ pool.classical.toBytes.length < 2 ^ 32 := by
  obtain ⟨pq, hpq, hbytes⟩ := bind_eq_ok.mp h
  cases hbytes
  have hpqlen := PqPrekey.length_of_toBytes hpq
  rw [fromBytes_append] at h'
  split at h'
  · cases h'
  · obtain ⟨⟨classicalBytes, pqBytes⟩, hsplit, h'⟩ := bind_eq_ok.mp h'
    obtain ⟨classical, hclassical, h'⟩ := bind_eq_ok.mp h'
    obtain ⟨pqPrekey, hprekey, h'⟩ := bind_eq_ok.mp h'
    cases h'
    have happend := Parse.splitAt_sound hsplit
    have hshort := Parse.length_of_splitAt hsplit
    have hlen : pq.length = pqBytes.length := by
      rw [hpqlen, PqPrekey.length_of_fromBytes hprekey]
    obtain ⟨rfl, rfl⟩ := List.append_inj' happend hlen
    rw [PqPrekey.fromBytes_toBytes hpool hpq] at hprekey
    cases hprekey
    rw [PrekeyPool.fromBytes_toBytes] at hclassical
    split at hclassical
    · cases hclassical
    · cases hclassical
      exact ⟨rfl, hshort ▸ Nat.mod_lt _ (by decide)⟩

theorem eq_of_fromBytes_toBytes (hC : C.Lawful) {pool pool' : HybridPrekeyPool C}
    {bytes : List UInt8} (h : pool.toBytes = .ok bytes) (h' : fromBytes w bytes = .ok pool') :
    pool' = pool :=
  (of_fromBytes_toBytes (pool.pqPrekey.restorable hC) h h').1

theorem fromBytes_toBytes {pool : HybridPrekeyPool C} {bytes : List UInt8}
    (hpool : pool.pqPrekey.Restorable) (h : pool.toBytes = .ok bytes)
    (hlen : pool.classical.toBytes.length < 2 ^ 32) :
    fromBytes w bytes = .ok pool := by
  obtain ⟨pq, hpq, hbytes⟩ := bind_eq_ok.mp h
  cases hbytes
  have hcount := pool.classical.length_toBytes
  have hmul : w.mul (pool.classical.available.length % 2 ^ 32) 32 =
      pool.classical.available.length * 32 := by
    rw [Nat.mod_eq_of_lt (by omega)]
    exact Word.mul_eq (Nat.lt_of_lt_of_le (by omega) Word.two_pow_le)
  have hclassical : PrekeyPool.fromBytes w pool.classical.toBytes = .ok pool.classical := by
    rw [PrekeyPool.fromBytes_toBytes, hmul, if_neg (not_not.mpr rfl)]
  rw [fromBytes_append, Nat.mod_eq_of_lt hlen, if_neg (by omega), Parse.splitAt_append rfl]
  simp only [bind, Except.bind, hclassical, PqPrekey.fromBytes_toBytes hpool hpq]
  rfl

end HybridPrekeyPool

namespace HybridBundle

theorem readEncapsulationKey_bytes (hC : C.Lawful) (key : C.EncapsulationKey) :
    readEncapsulationKey (C.encapsulationBytes key).1 = .ok key := by
  rw [readEncapsulationKey, dif_neg (not_not.mpr (length_bytes _)),
    hC.encapsulationFromBytes_bytes]
  rfl

/-- The encoding of a bundle with `tail` put behind its classical part. -/
def padded (bundle : HybridBundle C) (tail : List UInt8) : List UInt8 :=
  leBytes 4 (bundle.classical.toBytes ++ tail).length ++ ((bundle.classical.toBytes ++ tail) ++
    ((C.encapsulationBytes bundle.pqEncapsulationKey).1 ++ bundle.pqSignature.1))

theorem padded_nil (bundle : HybridBundle C) : bundle.padded [] = bundle.toBytes := by
  rw [padded, List.append_nil, toBytes]

/-- If the sum of the lengths does not wrap around, the bundle is found whatever is behind its
classical part. -/
theorem fromBytes_padded (hC : C.Lawful) (bundle : HybridBundle C) {tail : List UInt8}
    (htail : tail.length < 2 ^ 31) : fromBytes w (bundle.padded tail) = .ok bundle := by
  obtain ⟨classical, key, signature⟩ := bundle
  have hclassical := classical.length_toBytes.2
  have hbits := @Word.two_pow_le w
  have hpart : (classical.toBytes ++ tail).length ≤ 193 + tail.length := by
    rw [List.length_append]
    omega
  have hread := PrekeyBundle.fromBytes_append hC classical tail
  rw [padded]
  generalize classical.toBytes ++ tail = part at hpart hread
  have hnum : leNat (leBytes 4 part.length) = part.length := leNat_leBytes_of_lt (by omega)
  have hlast : ((C.encapsulationBytes key).1 ++ signature.1).length = 1632 := by
    rw [List.length_append, length_bytes, length_bytes]
  have hlen : ¬ (leBytes 4 part.length ++
      (part ++ ((C.encapsulationBytes key).1 ++ signature.1))).length < 4 := by
    rw [List.length_append, length_leBytes]
    omega
  have hadd : ¬ (part ++ ((C.encapsulationBytes key).1 ++ signature.1)).length <
      w.add part.length 64 := by
    rw [Word.add_eq (by omega), List.length_append, hlast]
    omega
  have hsub : w.sub 1632 64 = 1568 := Word.sub_eq (by decide) (by omega)
  rw [fromBytes, if_neg hlen,
    Parse.arrayAt_zero_append ⟨leBytes 4 part.length, length_leBytes _ _⟩,
    Parse.rangeFrom_append (length_leBytes _ _)]
  simp only [bind, Except.bind, hnum, if_neg hadd, Parse.splitAt_append, hlast, hsub,
    length_bytes, hread, readEncapsulationKey_bytes hC, Parse.array_val]
  rfl

theorem fromBytes_toBytes (hC : C.Lawful) (bundle : HybridBundle C) :
    fromBytes w bundle.toBytes = .ok bundle := by
  rw [← padded_nil]
  exact fromBytes_padded hC bundle (by decide)

end HybridBundle

theorem length_packInitiationMessage (sender : PublicIdentity C)
    (result : HybridInitiatorResult C) :
    97 ≤ (packInitiationMessage sender result).length := by
  have h := PrekeyBundle.length_oneTimePrekeyBytes result.usedOneTimePrekey
  simp only [packInitiationMessage, List.length_append, length_bytes,
    PublicIdentity.length_toBytes]
  omega

theorem readCiphertext_bytes (ct : Bytes 1568) : readCiphertext ct.1 = .ok ct :=
  dif_neg (not_not.mpr ct.2)

theorem readUsedOneTimePrekey_some (otpk : C.Public) (rest : List UInt8) :
    readUsedOneTimePrekey 1 ((C.pubBytes otpk).1 ++ rest) = .ok (some otpk, rest) := by
  have hlen : ¬ ((C.pubBytes otpk).1 ++ rest).length < 32 := by
    rw [List.length_append, length_bytes]
    omega
  rw [readUsedOneTimePrekey, if_neg (by decide), if_pos rfl, if_neg hlen,
    Parse.splitAt_append (length_bytes _)]
  simp only [bind, Except.bind, Parse.array_val, Equiv.symm_apply_apply]
  rfl

theorem readUsedOneTimePrekey_bytes (used : Option C.Public) (ct : List UInt8) :
    ∃ hasOtpk cursor, PrekeyBundle.oneTimePrekeyBytes used ++ ct = hasOtpk :: cursor ∧
      readUsedOneTimePrekey hasOtpk cursor = .ok (used, ct) := by
  cases used with
  | none => exact ⟨0, ct, rfl, rfl⟩
  | some otpk => exact ⟨1, (C.pubBytes otpk).1 ++ ct, rfl, readUsedOneTimePrekey_some otpk ct⟩

theorem unpack_pack (hC : C.Lawful) (sender : PublicIdentity C)
    (result : HybridInitiatorResult C) :
    unpackInitiationMessage (packInitiationMessage sender result) = .ok {
      senderIdentityPublic := sender
      ephemeralPublic := result.ephemeralPublic
      usedOneTimePrekey := result.usedOneTimePrekey
      pqCiphertext := result.pqCiphertext } := by
  have hlen := length_packInitiationMessage sender result
  obtain ⟨hasOtpk, cursor, hbytes, hused⟩ :=
    readUsedOneTimePrekey_bytes result.usedOneTimePrekey result.pqCiphertext.1
  rw [packInitiationMessage, hbytes] at hlen ⊢
  have hfront : (sender.toBytes ++ (C.pubBytes result.ephemeralPublic).1).length = 96 := by
    rw [List.length_append, PublicIdentity.length_toBytes, length_bytes]
  have hindex : (Parse.index 96 (sender.toBytes ++ ((C.pubBytes result.ephemeralPublic).1 ++
      hasOtpk :: cursor)) : Parse MeshError _) = .ok hasOtpk := by
    rw [← List.append_assoc]
    exact Parse.index_append hfront
  have hrest : (Parse.rangeFrom 97 (sender.toBytes ++ ((C.pubBytes result.ephemeralPublic).1 ++
      hasOtpk :: cursor)) : Parse MeshError _) = .ok cursor := by
    rw [← List.append_assoc, List.append_cons]
    apply Parse.rangeFrom_append
    rw [List.length_append, hfront, List.length_singleton]
  rw [unpackInitiationMessage, if_neg (by omega),
    Parse.arrayAt_zero_append ⟨sender.toBytes, sender.length_toBytes⟩]
  simp only [bind, Except.bind, PublicIdentity.fromBytes_toBytes hC,
    Parse.arrayAt_append sender.length_toBytes, hindex, hrest, hused, readCiphertext_bytes,
    Equiv.symm_apply_apply]
  rfl

end Pqxdh

end ProjectMesh.Crypto
