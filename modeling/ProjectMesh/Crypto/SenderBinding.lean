import ProjectMesh.Crypto.StaleBundle

namespace ProjectMesh.Crypto

open ProjectMesh.Lib
open ProjectMesh.Crypto.Prekey
open ProjectMesh.Crypto.Pqxdh

section Committed

variable {C : PrekeySuite} {identity sender : Identity C} {pool : HybridPrekeyPool C}
  {bundle : HybridBundle C} {ephemeralSecret : C.Secret} {coins : Bytes 32}
  {result : HybridInitiatorResult C}

structure SameAgreements (identity : Identity C) (pool : HybridPrekeyPool C)
    (used : Option (OneTimePrekey C)) (initiatorDh4 : Option C.Shared) (agreement : C.Public)
    (result : HybridInitiatorResult C) (parsed : ParsedInitiationMessage C) : Prop where
  dh1 : C.diffieHellman pool.classical.signedPrekey.secret
      parsed.senderIdentityPublic.agreement =
    C.diffieHellman pool.classical.signedPrekey.secret agreement
  dh2 : C.diffieHellman identity.agreement parsed.ephemeralPublic =
    C.diffieHellman identity.agreement result.ephemeralPublic
  dh3 : C.diffieHellman pool.classical.signedPrekey.secret parsed.ephemeralPublic =
    C.diffieHellman pool.classical.signedPrekey.secret result.ephemeralPublic
  dh4 : used.map (fun held => C.diffieHellman held.secret parsed.ephemeralPublic) = initiatorDh4
  pq : C.decapsulate pool.pqPrekey.decapsulationKey parsed.pqCiphertext =
    C.decapsulate pool.pqPrekey.decapsulationKey result.pqCiphertext

/-- Whatever was parsed, it gives the initiator's secret exactly when it agrees with the
initiator on every input of the derivation. -/
theorem respond_parsed_iff (hC : C.Ideal) (used : Option (OneTimePrekey C))
    (parsed : ParsedInitiationMessage C)
    (hinit : Pqxdh.initiate sender bundle ephemeralSecret coins = .ok result)
    (hcurrent : Current identity pool bundle) :
    Pqxdh.respond identity pool.classical.signedPrekey pool.pqPrekey used
        parsed.senderIdentityPublic parsed.ephemeralPublic parsed.pqCiphertext =
      result.sharedSecret ↔
      SameAgreements identity pool used
        (bundle.classical.oneTimePrekey.map (C.diffieHellman ephemeralSecret))
        sender.pub.agreement result parsed := by
  rw [sharedSecret_of_current hC.toLawful hinit hcurrent, Pqxdh.respond, Prekey.respond,
    hybridKdf_inj hC, x3dhKdf_inj hC]
  constructor
  · rintro ⟨⟨h1, h2, h3, h4⟩, h5⟩
    exact ⟨h1, h2, h3, h4, h5⟩
  · rintro ⟨h1, h2, h3, h4, h5⟩
    exact ⟨⟨h1, h2, h3, h4⟩, h5⟩

def reidentified (sender : PublicIdentity C) (result : HybridInitiatorResult C) :
    ParsedInitiationMessage C where
  senderIdentityPublic := sender
  ephemeralPublic := result.ephemeralPublic
  usedOneTimePrekey := result.usedOneTimePrekey
  pqCiphertext := result.pqCiphertext

/-- Only the agreement key of a sender identity matters. -/
theorem respond_reidentified (hC : C.Ideal) {used : Option (OneTimePrekey C)}
    {claimed : PublicIdentity C}
    (hinit : Pqxdh.initiate sender bundle ephemeralSecret coins = .ok result)
    (hcurrent : Current identity pool bundle) (hused : Named used result.usedOneTimePrekey)
    (hdh1 : C.diffieHellman pool.classical.signedPrekey.secret claimed.agreement =
      C.diffieHellman pool.classical.signedPrekey.secret sender.pub.agreement) :
    Pqxdh.respond identity pool.classical.signedPrekey pool.pqPrekey used claimed
      result.ephemeralPublic result.pqCiphertext = result.sharedSecret := by
  obtain ⟨-, hephemeral, -, hnamed⟩ := initiate_eq_ok hinit
  have hdh4 := hused.agrees hC.toLawful ephemeralSecret
  rw [← hephemeral, hnamed] at hdh4
  exact (respond_parsed_iff hC used (reidentified claimed result) hinit hcurrent).mpr
    ⟨hdh1, rfl, rfl, hdh4, rfl⟩

/-- A message that gives the initiator's secret carries the initiator's agreement key: a key
with which the signed prekey agrees on the same secret, and no other key pair's.  The
verifying key is not bound: any other is read from the message, and gives the same secret. -/
theorem agreement_bound (hC : C.Ideal)
    (hinit : Pqxdh.initiate sender bundle ephemeralSecret coins = .ok result)
    (hcurrent : Current identity pool bundle) :
    (∀ (message : List UInt8) (parsed : ParsedInitiationMessage C)
      (used : Option (OneTimePrekey C)), unpackInitiationMessage message = .ok parsed →
      Pqxdh.respond identity pool.classical.signedPrekey pool.pqPrekey used
        parsed.senderIdentityPublic parsed.ephemeralPublic parsed.pqCiphertext =
          result.sharedSecret →
      C.diffieHellman pool.classical.signedPrekey.secret parsed.senderIdentityPublic.agreement =
          C.diffieHellman pool.classical.signedPrekey.secret sender.pub.agreement ∧
        ∀ secret : C.Secret, parsed.senderIdentityPublic.agreement = C.publicKey secret →
          parsed.senderIdentityPublic.agreement = sender.pub.agreement) ∧
    ∀ (verifying : C.VerifyingKey) (used : Option (OneTimePrekey C)),
      unpackInitiationMessage (packInitiationMessage ⟨verifying, sender.pub.agreement⟩ result) =
          .ok (reidentified ⟨verifying, sender.pub.agreement⟩ result) ∧
        (Named used result.usedOneTimePrekey →
          Pqxdh.respond identity pool.classical.signedPrekey pool.pqPrekey used
            ⟨verifying, sender.pub.agreement⟩ result.ephemeralPublic result.pqCiphertext =
              result.sharedSecret) := by
  refine ⟨?_, ?_⟩
  · intro message parsed used _ hsecret
    have hsame := ((respond_parsed_iff hC used parsed hinit hcurrent).mp hsecret).dh1
    refine ⟨hsame, fun secret hkey => ?_⟩
    rw [hkey] at hsame ⊢
    exact hC.diffieHellman_inj _ _ _ hsame
  · intro verifying used
    refine ⟨unpack_pack hC.toLawful _ result, fun hused => ?_⟩
    exact respond_reidentified hC hinit hcurrent hused rfl

end Committed

section Toy

open ProjectMesh.Crypto.FfiPrekey

theorem current_currentBundle {C : PrekeySuite} (identity : Identity C)
    (pool : HybridPrekeyPool C) : Current identity pool (pool.currentBundle identity.pub) :=
  ⟨rfl, rfl, rfl⟩

theorem agreement_bound_reidentified : ∃ result,
    Pqxdh.initiate (toyIdentity 7) ((toyDevice []).pool.currentBundle (toyIdentity 1).pub)
        (toyBytes 32 8) (toyBytes 32 9) = .ok result ∧
      unpackInitiationMessage
          (packInitiationMessage ⟨toyBytes 32 6, (toyIdentity 7).pub.agreement⟩ result) =
        .ok (reidentified ⟨toyBytes 32 6, (toyIdentity 7).pub.agreement⟩ result) ∧
      Pqxdh.respond (toyIdentity 1) (toyDevice []).pool.classical.signedPrekey
          (toyDevice []).pool.pqPrekey none ⟨toyBytes 32 6, (toyIdentity 7).pub.agreement⟩
          result.ephemeralPublic result.pqCiphertext = result.sharedSecret := by
  obtain ⟨result, hinit⟩ := initiate_new toyPrekeys_ideal.toLawful (toyIdentity 1) (toyIdentity 7)
    (toyBytes 32 2) [] (toyBytes 64 3) (toyBytes 32 8) (toyBytes 32 9)
  have hnamed : result.usedOneTimePrekey = none := (initiate_eq_ok hinit).2.2.2
  obtain ⟨hunpack, hrespond⟩ := (agreement_bound toyPrekeys_ideal hinit
    (current_currentBundle (toyIdentity 1) (toyDevice []).pool)).2 (toyBytes 32 6) none
  exact ⟨result, hinit, hunpack, hrespond (hnamed ▸ Named.none)⟩

def clearCofactor (key : Bytes 32) : Bytes 32 :=
  ⟨0 :: key.1.tail, by rw [List.length_cons, List.length_tail, key.2]⟩

def cofactorPrekeys : PrekeySuite :=
  { toyPrekeys with
    publicKey := clearCofactor
    diffieHellman := fun a p => s(clearCofactor a, clearCofactor p) }

theorem cofactorPrekeys_ideal : cofactorPrekeys.Ideal where
  dh_comm _ _ := Sym2.eq_swap
  samePoint_refl := toyPrekeys_ideal.samePoint_refl
  samePoint_dh p q _ h := by rw [of_decide_eq_true (p := (p : Bytes 32) = q) h]
  verifyingFromBytes_bytes := toyPrekeys_ideal.verifyingFromBytes_bytes
  verify_sign := toyPrekeys_ideal.verify_sign
  fromSeed_toSeed := toyPrekeys_ideal.fromSeed_toSeed
  toSeed_fromSeed := toyPrekeys_ideal.toSeed_fromSeed
  encapsulationFromBytes_bytes := toyPrekeys_ideal.encapsulationFromBytes_bytes
  decapsulate_encapsulate := toyPrekeys_ideal.decapsulate_encapsulate
  diffieHellman_inj _ _ _ h := Sym2.congr_right.mp h
  decapsulate_wrongKey := toyPrekeys_ideal.decapsulate_wrongKey
  hkdfSha256_inj := toyPrekeys_ideal.hkdfSha256_inj

def cofactorIdentity (b : UInt8) : Identity cofactorPrekeys := ⟨toyBytes 32 b, toyBytes 32 b⟩

/-- Every message that gives the initiator's secret carries the initiator's `part` of the
sender identity. -/
def Bound (C : PrekeySuite) {α : Type} (part : PublicIdentity C → α) : Prop :=
  ∀ (sender identity : Identity C) (pool : HybridPrekeyPool C) (bundle : HybridBundle C)
    (ephemeralSecret : C.Secret) (coins : Bytes 32) (result : HybridInitiatorResult C)
    (used : Option (OneTimePrekey C)) (message : List UInt8)
    (parsed : ParsedInitiationMessage C),
    Pqxdh.initiate sender bundle ephemeralSecret coins = .ok result →
    Current identity pool bundle → Named used result.usedOneTimePrekey →
    unpackInitiationMessage message = .ok parsed →
    Pqxdh.respond identity pool.classical.signedPrekey pool.pqPrekey used
      parsed.senderIdentityPublic parsed.ephemeralPublic parsed.pqCiphertext =
        result.sharedSecret →
    part parsed.senderIdentityPublic = part sender.pub

theorem Bound.claimed {C : PrekeySuite} {α : Type} {part : PublicIdentity C → α}
    (hC : C.Ideal) (h : Bound C part) (owner sender : Identity C) (signedSecret : C.Secret)
    (seed : Bytes 64) (ephemeralSecret : C.Secret) (coins : Bytes 32)
    (claimed : PublicIdentity C)
    (hdh1 : C.diffieHellman signedSecret claimed.agreement =
      C.diffieHellman signedSecret sender.pub.agreement) :
    part claimed = part sender.pub := by
  obtain ⟨result, hinit⟩ := initiate_new hC.toLawful owner sender signedSecret [] seed
    ephemeralSecret coins
  have hcurrent := current_currentBundle owner (HybridPrekeyPool.new owner signedSecret [] seed)
  have hnamed : result.usedOneTimePrekey = none := (initiate_eq_ok hinit).2.2.2
  have hused : Named none result.usedOneTimePrekey := hnamed ▸ Named.none
  exact h sender owner _ _ ephemeralSecret coins result none _ (reidentified claimed result)
    hinit hcurrent hused (unpack_pack hC.toLawful claimed result)
    (respond_reidentified hC hinit hcurrent hused hdh1)

/-- Neither key of the sender identity is bound as such: the verifying key can be any other,
and the agreement key one that differs by a part of small order. -/
theorem not_bound : ¬ (∀ C : PrekeySuite, C.Ideal → Bound C (·.verifying)) ∧
    ¬ ∀ C : PrekeySuite, C.Ideal → Bound C (·.agreement) := by
  constructor
  · intro h
    have hsame : toyBytes 32 6 = toyBytes 32 7 :=
      (h toyPrekeys toyPrekeys_ideal).claimed toyPrekeys_ideal (toyIdentity 1) (toyIdentity 7)
        (toyBytes 32 2) (toyBytes 64 3) (toyBytes 32 8) (toyBytes 32 9)
        ⟨toyBytes 32 6, (toyIdentity 7).pub.agreement⟩ rfl
    exact absurd (congrArg Subtype.val hsame) (by decide)
  · intro h
    have hsame : toyBytes 32 7 = clearCofactor (toyBytes 32 7) :=
      (h cofactorPrekeys cofactorPrekeys_ideal).claimed cofactorPrekeys_ideal
        (cofactorIdentity 1) (cofactorIdentity 7) (toyBytes 32 2) (toyBytes 64 3)
        (toyBytes 32 8) (toyBytes 32 9) ⟨toyBytes 32 7, toyBytes 32 7⟩ rfl
    exact absurd (congrArg Subtype.val hsame) (by decide)

end Toy

end ProjectMesh.Crypto
