import ProjectMesh.Crypto.PrekeyCodec
import ProjectMesh.Crypto.PrekeyParsing

namespace ProjectMesh.Crypto

open ProjectMesh.Lib

/-- A key parses only from the bytes that it is written as. -/
structure PrekeySuite.Canonical (C : PrekeySuite) : Prop where
  verifyingBytes_fromBytes : ∀ bytes key,
    C.verifyingFromBytes bytes = some key → C.verifyingBytes key = bytes
  encapsulationBytes_fromBytes : ∀ bytes key,
    C.encapsulationFromBytes bytes = some key → C.encapsulationBytes key = bytes

variable {C : PrekeySuite} {w : Word}

namespace Prekey.PrekeyBundle

/-- The length that the flag of a bundle asks for, and no more. -/
def Whole (bytes : List UInt8) : Prop :=
  bytes.length = if bytes[160]? = some 1 then fixedLen + 32 else fixedLen

instance {bytes : List UInt8} : Decidable (Whole bytes) := inferInstanceAs (Decidable (_ = _))

theorem readOneTimePrekey_sound {hasOtpk : UInt8} {cursor : List UInt8}
    {oneTimePrekey : Option C.Public} (h : readOneTimePrekey hasOtpk cursor = .ok oneTimePrekey) :
    ∃ tail, hasOtpk :: cursor = oneTimePrekeyBytes oneTimePrekey ++ tail := by
  rw [readOneTimePrekey] at h
  split at h
  · next hflag =>
    cases h
    exact ⟨cursor, by rw [hflag]; rfl⟩
  · split at h
    · next hflag =>
      split at h
      · cases h
      · obtain ⟨otpk, hotpk, h⟩ := bind_eq_ok.mp h
        cases h
        refine ⟨cursor.drop 32, ?_⟩
        rw [hflag, oneTimePrekeyBytes, Equiv.apply_symm_apply, List.cons_append,
          ← Parse.arrayAt_zero_sound hotpk]
    · cases h

theorem fromBytes_sound (hC : C.Canonical) {bytes : List UInt8} {bundle : PrekeyBundle C}
    (h : fromBytes bytes = .ok bundle) : ∃ tail, bytes = bundle.toBytes ++ tail := by
  rw [fromBytes] at h
  split at h
  · cases h
  obtain ⟨⟨verifyingBytes, cursor₁⟩, hverifying, h⟩ := bind_eq_ok.mp h
  obtain ⟨⟨agreementBytes, cursor₂⟩, hagreement, h⟩ := bind_eq_ok.mp h
  obtain ⟨⟨spkPublicBytes, cursor₃⟩, hspk, h⟩ := bind_eq_ok.mp h
  obtain ⟨⟨sigBytes, cursor₄⟩, hsig, h⟩ := bind_eq_ok.mp h
  obtain ⟨hasOtpk, hflag, h⟩ := bind_eq_ok.mp h
  obtain ⟨cursor, hcursor, h⟩ := bind_eq_ok.mp h
  obtain ⟨verifyingArray, hverifyingArray, h⟩ := bind_eq_ok.mp h
  obtain ⟨verifying, hkey, h⟩ := bind_eq_ok.mp h
  obtain ⟨agreement, hagreementArray, h⟩ := bind_eq_ok.mp h
  obtain ⟨signedPrekeyPublic, hspkArray, h⟩ := bind_eq_ok.mp h
  obtain ⟨signature, hsigArray, h⟩ := bind_eq_ok.mp h
  obtain ⟨oneTimePrekey, hread, h⟩ := bind_eq_ok.mp h
  cases h
  obtain ⟨tail, htail⟩ := readOneTimePrekey_sound hread
  have hcanonical := hC.verifyingBytes_fromBytes _ _ (Parse.okOr_sound hkey)
  refine ⟨tail, ?_⟩
  calc bytes
    _ = verifyingBytes ++ (agreementBytes ++ (spkPublicBytes ++ (sigBytes ++ cursor₄))) := by
      rw [Parse.splitAt_sound hverifying, Parse.splitAt_sound hagreement,
        Parse.splitAt_sound hspk, Parse.splitAt_sound hsig]
    _ = verifyingArray.1 ++ (agreement.1 ++ (signedPrekeyPublic.1 ++ (signature.1 ++
        (oneTimePrekeyBytes oneTimePrekey ++ tail)))) := by
      rw [Parse.array_sound hverifyingArray, Parse.array_sound hagreementArray,
        Parse.array_sound hspkArray, Parse.array_sound hsigArray,
        Parse.index_rangeFrom_sound hflag hcursor, htail]
    _ = _ := by
      simp only [toBytes, hcanonical, Equiv.apply_symm_apply, List.append_assoc]

theorem length_toBytes_eq (bundle : PrekeyBundle C) (tail : List UInt8) :
    bundle.toBytes.length =
      if (bundle.toBytes ++ tail)[160]? = some 1 then fixedLen + 32 else fixedLen := by
  obtain ⟨⟨verifying, agreement⟩, signedPrekeyPublic, signature, oneTimePrekey⟩ := bundle
  have hfront : ∀ rest : List UInt8, ((C.verifyingBytes verifying).1 ++
      ((C.pubBytes agreement).1 ++ ((C.pubBytes signedPrekeyPublic).1 ++
        (signature.1 ++ rest))))[160]? = rest[0]? := by
    intro rest
    have hlen : ((C.verifyingBytes verifying).1 ++ ((C.pubBytes agreement).1 ++
        ((C.pubBytes signedPrekeyPublic).1 ++ signature.1))).length = 160 := by
      simp only [List.length_append, length_bytes]
    rw [← List.append_assoc (C.pubBytes signedPrekeyPublic).1, ← List.append_assoc (C.pubBytes _).1,
      ← List.append_assoc (C.verifyingBytes _).1, List.getElem?_append_right (Nat.le_of_eq hlen),
      hlen]
  simp only [toBytes, List.append_assoc, hfront]
  cases oneTimePrekey with
  | none => simp [oneTimePrekeyBytes, fixedLen]
  | some otpk => simp [oneTimePrekeyBytes, fixedLen]

theorem toBytes_eq_iff (hC : C.Canonical) {bytes : List UInt8} {bundle : PrekeyBundle C}
    (h : fromBytes bytes = .ok bundle) : bundle.toBytes = bytes ↔ Whole bytes := by
  obtain ⟨tail, rfl⟩ := fromBytes_sound hC h
  rw [Whole, ← length_toBytes_eq, List.length_append, Nat.add_eq_left, List.length_eq_zero_iff,
    List.self_eq_append_right]

end Prekey.PrekeyBundle

namespace Pqxdh.HybridBundle

open ProjectMesh.Crypto.Prekey

def classicalPart (bytes : List UInt8) : List UInt8 := (bytes.drop 4).take (classicalLen bytes)

theorem readEncapsulationKey_sound (hC : C.Canonical) {bytes : List UInt8}
    {key : C.EncapsulationKey} (h : readEncapsulationKey bytes = .ok key) :
    bytes = (C.encapsulationBytes key).1 := by
  rw [readEncapsulationKey] at h
  split at h
  · cases h
  · rw [hC.encapsulationBytes_fromBytes _ _ (Parse.okOr_sound h)]

theorem fromBytes_sound (hC : C.Canonical) {bytes : List UInt8} {bundle : HybridBundle C}
    (h : fromBytes w bytes = .ok bundle) :
    ∃ tail, classicalPart bytes = bundle.classical.toBytes ++ tail ∧
      bytes = leBytes 4 (classicalPart bytes).length ++ (classicalPart bytes ++
        ((C.encapsulationBytes bundle.pqEncapsulationKey).1 ++ bundle.pqSignature.1)) := by
  by_cases hlen : 4 ≤ bytes.length
  · rw [fromBytes_eq hlen] at h
    split at h
    · cases h
    obtain ⟨⟨classicalBytes, rest⟩, hsplit, h⟩ := bind_eq_ok.mp h
    obtain ⟨⟨ekBytes, sigBytes⟩, hlast, h⟩ := bind_eq_ok.mp h
    obtain ⟨classical, hclassical, h⟩ := bind_eq_ok.mp h
    obtain ⟨key, hkey, h⟩ := bind_eq_ok.mp h
    obtain ⟨signature, hsig, h⟩ := bind_eq_ok.mp h
    cases h
    have hpart : classicalPart bytes = classicalBytes := by
      rw [classicalPart, Parse.splitAt_sound hsplit,
        List.take_left' (Parse.length_of_splitAt hsplit)]
    obtain ⟨tail, htail⟩ := PrekeyBundle.fromBytes_sound hC hclassical
    refine ⟨tail, hpart.trans htail, ?_⟩
    have hheader : leBytes 4 (classicalPart bytes).length = bytes.take 4 := by
      rw [hpart, Parse.length_of_splitAt hsplit, classicalLen]
      exact leBytes_leNat_bytes ⟨bytes.take 4, List.length_take_of_le hlen⟩
    calc bytes
      _ = bytes.take 4 ++ bytes.drop 4 := (List.take_append_drop 4 bytes).symm
      _ = bytes.take 4 ++ (classicalBytes ++ (ekBytes ++ sigBytes)) := by
        rw [Parse.splitAt_sound hsplit, Parse.splitAt_sound hlast]
      _ = _ := by
        rw [hheader, hpart, readEncapsulationKey_sound hC hkey, Parse.array_sound hsig]
  · rw [fromBytes, if_pos (Nat.not_le.mp hlen)] at h
    cases h

theorem toBytes_eq_iff (hC : C.Canonical) {bytes : List UInt8} {bundle : HybridBundle C}
    (h : fromBytes w bytes = .ok bundle) :
    bundle.toBytes = bytes ↔ PrekeyBundle.Whole (classicalPart bytes) := by
  obtain ⟨tail, hpart, hbytes⟩ := fromBytes_sound hC h
  have hwhole : PrekeyBundle.Whole (classicalPart bytes) ↔ tail = [] := by
    rw [hpart, PrekeyBundle.Whole, ← PrekeyBundle.length_toBytes_eq, List.length_append,
      Nat.add_eq_left, List.length_eq_zero_iff]
  rw [hwhole]
  constructor
  · intro heq
    have hlen := congrArg List.length (heq.trans hbytes)
    rw [hpart] at hlen
    simp only [toBytes, List.length_append, length_leBytes] at hlen
    exact List.eq_nil_of_length_eq_zero (by omega)
  · rintro rfl
    rw [List.append_nil] at hpart
    rw [toBytes, ← hpart]
    exact hbytes.symm

/-- A bundle parses from no bytes but its encoding, unless more stands behind the classical
bundle than its flag asks for. -/
theorem encodings_unique_iff (hC : C.Canonical) (w : Word) :
    (∀ (bytes : List UInt8) (bundle : PrekeyBundle C), PrekeyBundle.fromBytes bytes = .ok bundle →
        (bundle.toBytes = bytes ↔ PrekeyBundle.Whole bytes)) ∧
      ∀ (bytes : List UInt8) (bundle : HybridBundle C), fromBytes w bytes = .ok bundle →
        (bundle.toBytes = bytes ↔ PrekeyBundle.Whole (classicalPart bytes)) :=
  ⟨fun _ _ h => PrekeyBundle.toBytes_eq_iff hC h, fun _ _ h => toBytes_eq_iff hC h⟩

section Examples

def strictFromBytes (bytes : Bytes 1568) : Option toyPrekeys.EncapsulationKey :=
  (toyPrekeys.encapsulationFromBytes bytes).filter fun key =>
    decide (toyPrekeys.encapsulationBytes key = bytes)

theorem strictFromBytes_eq_some_iff {bytes : Bytes 1568} {key : toyPrekeys.EncapsulationKey} :
    strictFromBytes bytes = some key ↔ toyPrekeys.encapsulationBytes key = bytes := by
  rw [strictFromBytes, Option.filter_eq_some_iff, decide_eq_true_iff]
  refine and_iff_right_of_imp ?_
  rintro rfl
  exact toyPrekeys_ideal.encapsulationFromBytes_bytes key

def strictPrekeys : PrekeySuite :=
  { toyPrekeys with encapsulationFromBytes := strictFromBytes }

theorem strictPrekeys_lawful : strictPrekeys.Lawful :=
  { toyPrekeys_ideal.toLawful with
    encapsulationFromBytes_bytes := fun _ => strictFromBytes_eq_some_iff.mpr rfl }

theorem strictPrekeys_canonical : strictPrekeys.Canonical where
  verifyingBytes_fromBytes _ _ h := (Option.some.inj h).symm
  encapsulationBytes_fromBytes _ _ h := strictFromBytes_eq_some_iff.mp h

def strictIdentity : Identity strictPrekeys :=
  ⟨(⟨leBytes 32 11, length_leBytes 32 11⟩ : Bytes 32),
    (⟨leBytes 32 12, length_leBytes 32 12⟩ : Bytes 32)⟩

def strictBundle : HybridBundle strictPrekeys :=
  .new strictIdentity.pub
    (.generate strictIdentity (⟨leBytes 32 13, length_leBytes 32 13⟩ : Bytes 32)) none
    (.generate strictIdentity ⟨leBytes 64 14, length_leBytes 64 14⟩)

theorem encodings_unique_iff_strictBundle :
    strictBundle.toBytes = strictBundle.padded [] ↔
      PrekeyBundle.Whole (classicalPart (strictBundle.padded [])) :=
  (encodings_unique_iff strictPrekeys_canonical .w64).2 _ _
    (fromBytes_padded strictPrekeys_lawful strictBundle (by decide))

theorem not_encodings_unique :
    ¬ ∀ C : PrekeySuite, C.Lawful → C.Canonical → ∀ w : Word,
      (∀ (bytes : List UInt8) (bundle : PrekeyBundle C),
          PrekeyBundle.fromBytes bytes = .ok bundle → bundle.verifySignedPrekey = true →
            bundle.toBytes = bytes) ∧
        ∀ (bytes : List UInt8) (bundle : HybridBundle C), fromBytes w bytes = .ok bundle →
          bundle.verify = true → bundle.toBytes = bytes := by
  intro hclaim
  have hparse : fromBytes .w64 (strictBundle.padded [0]) = .ok strictBundle :=
    fromBytes_padded strictPrekeys_lawful strictBundle (by decide)
  have heq := (hclaim strictPrekeys strictPrekeys_lawful strictPrekeys_canonical .w64).2 _ _ hparse
    (by decide)
  have hlen := congrArg List.length heq
  simp [padded, toBytes] at hlen

end Examples

end Pqxdh.HybridBundle

end ProjectMesh.Crypto
