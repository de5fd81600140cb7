import ProjectMesh.Crypto.RatchetLaws
import ProjectMesh.Crypto.StaleBundle

namespace ProjectMesh.Crypto.Ratchet

open ProjectMesh.Lib

variable {C : Suite}

namespace DoubleRatchet

structure OpensFirst (b a : DoubleRatchet C) : Prop where
  encrypts : ∀ plaintext : List UInt8, plaintext.length ≤ 65532 →
    ∃ message a', (encrypt plaintext).run a = .ok message a'
  decrypts : ∀ (fresh : C.Secret) (plaintext : List UInt8) (header : Header C) (ct : C.Sealed)
    (a' : DoubleRatchet C), (encrypt plaintext).run a = .ok (header, ct) a' →
      ∃ b', (decrypt fresh header ct).run b = .ok plaintext b'

theorem recvChain_turned_init (hC : C.Lawful) (fresh dhSelf ownRatchetKeypair : C.Secret)
    (sharedSecret : C.Key) :
    ((initResponder sharedSecret ownRatchetKeypair).turned fresh
        (C.publicKey dhSelf)).recvChain =
      (initInitiator dhSelf sharedSecret (C.publicKey ownRatchetKeypair)).sendChain := by
  change some (kdfRk sharedSecret
      (C.diffieHellman ownRatchetKeypair (C.publicKey dhSelf))).2 =
    some (kdfRk sharedSecret (C.diffieHellman dhSelf (C.publicKey ownRatchetKeypair))).2
  rw [hC.dh_comm]

theorem decrypt_noRemote {b : DoubleRatchet C} {fresh : C.Secret} {header : Header C}
    {ct : C.Sealed} {chain : C.Key} {plaintext : List UInt8} (hremote : b.dhRemote = none)
    (hskipped : b.skipped = ∅) (hn : header.n.toNat = 0)
    (hchain : (b.turned fresh header.dhPub).recvChain = some chain)
    (hopen : openMessage (kdfCk chain).2 header ct = .ok plaintext) :
    ∃ b', (decrypt fresh header ct).run b = .ok plaintext b' := by
  have hnew : b.hasRemote header.dhPub = false := by
    rw [hasRemote, hremote]
  have hnone : (b.turned fresh header.dhPub).skipped.lookup (header.dhPub, 0) = none := by
    change b.skipped.lookup _ = none
    rw [hskipped]
    rfl
  have hkey : (messageKeyFor header.n.toNat).run (b.turned fresh header.dhPub) =
      .ok (messageKeyAt chain 0) ((b.turned fresh header.dhPub).advanced header.dhPub chain 0) := by
    rw [hn]
    exact messageKeyFor_advance rfl hnone (Nat.le_refl 0) hchain (by decide)
      fun j hj => absurd hj (Nat.not_lt_zero j)
  refine ⟨(b.turned fresh header.dhPub).advanced header.dhPub chain 0, ?_⟩
  rw [decrypt_newRemote hnew, EStateM.run_bind, turn_noRemote fresh hremote]
  dsimp only
  rw [receive_run_ok hkey, messageKeyAt, chainAt, hopen]
  rfl

theorem opensFirst_init (hC : C.Lawful) (dhSelf ownRatchetKeypair : C.Secret)
    (sharedSecret : C.Key) :
    OpensFirst (initResponder sharedSecret ownRatchetKeypair)
      (initInitiator dhSelf sharedSecret (C.publicKey ownRatchetKeypair)) := by
  have hsendN : (initInitiator dhSelf sharedSecret
      (C.publicKey ownRatchetKeypair)).sendN + 1 < 2 ^ 32 := by
    change 0 + 1 < 2 ^ 32
    decide
  constructor
  · intro plaintext hlen
    obtain ⟨ct, hrun, -⟩ := encrypt_fits hC rfl hsendN hlen
    exact ⟨_, _, hrun⟩
  · intro fresh plaintext header ct a' hrun
    cases Nat.lt_or_ge 65532 plaintext.length with
    | inl hlen =>
      obtain ⟨e, herror⟩ := encrypt_tooLarge rfl hsendN hlen
      cases hrun.symm.trans herror
    | inr hlen =>
      obtain ⟨ct', hrun', hopen⟩ := encrypt_fits hC rfl hsendN hlen
      cases hrun.symm.trans hrun'
      exact decrypt_noRemote rfl rfl rfl
        (recvChain_turned_init hC fresh dhSelf ownRatchetKeypair sharedSecret) hopen

end DoubleRatchet

end ProjectMesh.Crypto.Ratchet

namespace ProjectMesh.Crypto

open ProjectMesh.Lib
open ProjectMesh.Crypto.Prekey
open ProjectMesh.Crypto.Pqxdh
open ProjectMesh.Crypto.Ratchet
open ProjectMesh.Crypto.FfiPrekey

variable {C : PrekeySuite} {owner sender identity : Identity C} {bundle : HybridBundle C}
  {ephemeralSecret dhSelf : C.Secret} {coins : Bytes 32} {pool : HybridPrekeyPool C}
  {result : HybridInitiatorResult C}

theorem respond_of_current (hC : C.Lawful) {used : Option (OneTimePrekey C)}
    (hinit : Pqxdh.initiate sender bundle ephemeralSecret coins = .ok result)
    (hused : Named used result.usedOneTimePrekey) (h : Current identity pool bundle) :
    Pqxdh.respond identity pool.classical.signedPrekey pool.pqPrekey used sender.pub
      result.ephemeralPublic result.pqCiphertext = result.sharedSecret := by
  obtain ⟨-, hephemeral, -, hnamed⟩ := initiate_eq_ok hinit
  rw [hnamed] at hused
  rw [sharedSecret_of_current hC hinit h, ← hused.agrees hC, ← hephemeral]
  rfl

theorem respond_run_of_current (hC : C.Lawful)
    (hinit : Pqxdh.initiate sender bundle ephemeralSecret coins = .ok result)
    (h : Current identity pool bundle) (hspent : ¬ Spent pool bundle) :
    ∃ pool', (FfiPrekey.respond identity (packInitiationMessage sender.pub result)).run pool =
      .ok (.initResponder result.sharedSecret
        (responderRatchetSeed pool.classical.signedPrekey)) pool' := by
  have hrun := respond_run hC identity sender.pub result pool
  have hnamed := (initiate_eq_ok hinit).2.2.2
  cases hused : result.usedOneTimePrekey with
  | none =>
    rw [hused, consumeUsed_none] at hrun
    rw [hrun]
    dsimp only
    rw [respond_of_current hC hinit (hused ▸ Named.none) h]
    exact ⟨pool, rfl⟩
  | some otpk =>
    rw [spent_iff (hnamed.symm.trans hused)] at hspent
    obtain ⟨held, available, hsame, hconsumed⟩ := consumeUsed_held hspent
    rw [hused, hconsumed] at hrun
    rw [hrun]
    dsimp only
    rw [respond_of_current hC hinit (hused ▸ Named.some hsame) h]
    exact ⟨_, rfl⟩

/-- From the bytes of the bundle to the first message: both wire formats are read as they were
written, both sides derive one secret, and the ratchets they seed with it fit.  This holds as
long as the responder has the keys of the bundle. -/
theorem bootstrap_agrees (hC : C.Lawful) (hS : C.toSuite.Lawful) (w w' : Word) (d : Device C)
    (later : List (PoolOp C)) (owner sender : Identity C) (ephemeralSecret dhSelf : C.Secret)
    (coins : Bytes 32) {bundle : HybridBundle C}
    (hparse : HybridBundle.fromBytes w' (currentBundleBytes d.pool owner) = .ok bundle)
    (hverify : bundle.verify = true) :
    bundle = d.pool.currentBundle owner.pub ∧
      ∃ (result : HybridInitiatorResult C) (initiated : HybridInitiateResult C),
        Pqxdh.initiate sender bundle ephemeralSecret coins = .ok result ∧
        FfiPrekey.initiate bundle sender ephemeralSecret coins dhSelf = .ok initiated ∧
        initiated.session =
          .initInitiator dhSelf result.sharedSecret bundle.classical.signedPrekeyPublic ∧
        unpackInitiationMessage initiated.messageToSend = .ok {
          senderIdentityPublic := sender.pub
          ephemeralPublic := result.ephemeralPublic
          usedOneTimePrekey := result.usedOneTimePrekey
          pqCiphertext := result.pqCiphertext } ∧
        (Retaining w d.saved.length d later → SamePrekeys (d.run w later).pool d.pool) ∧
        (SamePrekeys (d.run w later).pool d.pool → ¬ Spent (d.run w later).pool bundle →
          ∃ answered pool',
            (FfiPrekey.respond owner initiated.messageToSend).run (d.run w later).pool =
              .ok answered pool' ∧
            answered = .initResponder result.sharedSecret
              (responderRatchetSeed (d.run w later).pool.classical.signedPrekey) ∧
            answered.OpensFirst initiated.session) := by
  rw [currentBundleBytes, HybridBundle.fromBytes_toBytes hC] at hparse
  cases hparse
  obtain ⟨result, hinit⟩ := initiate_of_verify sender ephemeralSecret coins hverify
  refine ⟨rfl, result, ⟨.initInitiator dhSelf result.sharedSecret _,
    packInitiationMessage sender.pub result⟩, hinit, ?_, rfl,
    unpack_pack hC sender.pub result, ?_, ?_⟩
  · rw [FfiPrekey.initiate, hinit]
  · intro hlater
    exact ((keeps_published d).run hC hlater).pool
  · intro hsame hspent
    obtain ⟨pool', hrun⟩ := respond_run_of_current hC hinit (hsame.current rfl) hspent
    refine ⟨_, pool', hrun, rfl, ?_⟩
    have hpub : (d.pool.currentBundle owner.pub).classical.signedPrekeyPublic =
        C.publicKey (d.run w later).pool.classical.signedPrekey.secret := by
      rw [← (d.run w later).pool.classical.signedPrekey.derived, hsame.signedPrekey]
      rfl
    rw [hpub]
    exact DoubleRatchet.opensFirst_init hS dhSelf _ result.sharedSecret

theorem not_spent_currentBundle (hC : C.Lawful) (pool : HybridPrekeyPool C)
    (identity : PublicIdentity C) : ¬ Spent pool (pool.currentBundle identity) := by
  rintro ⟨otpk, hotpk, hgone⟩
  change pool.classical.available.head?.map (·.pub) = some otpk at hotpk
  obtain ⟨held, hheld, rfl⟩ := Option.map_eq_some_iff.mp hotpk
  have hsame := hgone held (List.mem_of_mem_head? hheld)
  rw [hC.samePoint_refl] at hsame
  exact Bool.noConfusion hsame

theorem toyPrekeys_lawful : toyPrekeys.toSuite.Lawful where
  dh_comm := toyPrekeys_ideal.dh_comm
  samePoint_refl := toyPrekeys_ideal.samePoint_refl
  samePoint_symm _ _ := decide_eq_decide.mpr eq_comm
  decrypt_encrypt _ associatedData plaintext _ := ⟨(associatedData, plaintext), rfl, if_pos rfl⟩

theorem bootstrap_agrees_toyDevice : ∃ initiated answered pool',
    FfiPrekey.initiate ((toyDevice [toyBytes 32 4]).pool.currentBundle (toyIdentity 1).pub)
        (toyIdentity 7) (toyBytes 32 8) (toyBytes 32 9) (toyBytes 32 10) = .ok initiated ∧
      (FfiPrekey.respond (toyIdentity 1) initiated.messageToSend).run
        ((toyDevice [toyBytes 32 4]).run .w32 [.topUp [toyBytes 32 5], .persist]).pool =
          .ok answered pool' ∧
      answered.OpensFirst initiated.session := by
  obtain ⟨-, result, initiated, -, hinitiated, -, -, hkept, hanswers⟩ :=
    bootstrap_agrees toyPrekeys_ideal.toLawful toyPrekeys_lawful .w32 .w64
      (toyDevice [toyBytes 32 4]) [.topUp [toyBytes 32 5], .persist] (toyIdentity 1)
      (toyIdentity 7) (toyBytes 32 8) (toyBytes 32 10) (toyBytes 32 9)
      (HybridBundle.fromBytes_toBytes toyPrekeys_ideal.toLawful _)
      (verify_new toyPrekeys_ideal.toLawful (toyIdentity 1) (toyBytes 32 2) [toyBytes 32 4]
        (toyBytes 64 3))
  obtain ⟨answered, pool', hrun, -, hopens⟩ := hanswers (hkept ⟨trivial, trivial, trivial⟩)
    (not_spent_currentBundle toyPrekeys_ideal.toLawful
      ((toyDevice [toyBytes 32 4]).run .w32 [.topUp [toyBytes 32 5], .persist]).pool
      (toyIdentity 1).pub)
  exact ⟨initiated, answered, pool', hinitiated, hrun, hopens⟩

end ProjectMesh.Crypto
