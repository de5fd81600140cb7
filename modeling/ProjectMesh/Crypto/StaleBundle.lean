import ProjectMesh.Crypto.FfiPrekey
import ProjectMesh.Crypto.PrekeyCodec

namespace ProjectMesh.Crypto

open ProjectMesh.Lib
open ProjectMesh.Crypto.Prekey
open ProjectMesh.Crypto.Pqxdh
open ProjectMesh.Crypto.Ratchet

variable {C : PrekeySuite}

section Agreement

theorem dh_swap_iff (hC : C.Ideal) (a b c : C.Secret) :
    C.diffieHellman b (C.publicKey a) = C.diffieHellman a (C.publicKey c) ↔
      C.publicKey b = C.publicKey c := by
  rw [hC.dh_comm b a]
  constructor
  · exact hC.diffieHellman_inj a b c
  · exact congrArg (C.diffieHellman a)

theorem x3dhKdf_inj (hC : C.Ideal) {dh1 dh2 dh3 dh1' dh2' dh3' : C.Shared}
    {dh4 dh4' : Option C.Shared} :
    x3dhKdf dh1 dh2 dh3 dh4 = x3dhKdf dh1' dh2' dh3' dh4' ↔
      dh1 = dh1' ∧ dh2 = dh2' ∧ dh3 = dh3' ∧ dh4 = dh4' := by
  constructor
  · intro h
    have hikm := hC.hkdfSha256_inj _ _ _ h
    cases dh4 with
    | none =>
      cases dh4' with
      | none =>
        cases hikm
        exact ⟨rfl, rfl, rfl, rfl⟩
      | some dh4' => cases hikm
    | some dh4 =>
      cases dh4' with
      | none => cases hikm
      | some dh4' =>
        cases hikm
        exact ⟨rfl, rfl, rfl, rfl⟩
  · rintro ⟨rfl, rfl, rfl, rfl⟩
    rfl

theorem hybridKdf_inj (hC : C.Ideal) {k k' : C.Key} {s s' : C.PqShared} :
    hybridKdf k s = hybridKdf k' s' ↔ k = k' ∧ s = s' := by
  constructor
  · intro h
    have hikm := hC.hkdfSha256_inj _ _ _ h
    cases hikm
    exact ⟨rfl, rfl⟩
  · rintro ⟨rfl, rfl⟩
    rfl

theorem decapsulate_iff (hC : C.Ideal) (d : C.DecapsulationKey) (k : C.EncapsulationKey)
    (coins : Bytes 32) :
    C.decapsulate d (C.encapsulate k coins).1 = (C.encapsulate k coins).2 ↔
      C.encapsulationKey d = k := by
  constructor
  · exact hC.decapsulate_wrongKey d k coins
  · rintro rfl
    exact hC.decapsulate_encapsulate d coins

end Agreement

section Secret

variable {identity owner sender : Identity C} {pool pool₀ : HybridPrekeyPool C}
  {ephemeralSecret : C.Secret} {coins : Bytes 32} {result : HybridInitiatorResult C}

/-- The bundle names a one-time prekey the pool does not have. -/
def Spent (pool : HybridPrekeyPool C) (bundle : HybridBundle C) : Prop :=
  ∃ otpk, bundle.classical.oneTimePrekey = some otpk ∧
    ∀ held ∈ pool.classical.available, C.samePoint held.pub otpk = false

theorem not_spent_of_none {bundle : HybridBundle C} (h : bundle.classical.oneTimePrekey = none) :
    ¬ Spent pool bundle := by
  rintro ⟨otpk, hotpk, -⟩
  cases h.symm.trans hotpk

theorem spent_iff {bundle : HybridBundle C} {otpk : C.Public}
    (h : bundle.classical.oneTimePrekey = some otpk) :
    Spent pool bundle ↔ ∀ held ∈ pool.classical.available, C.samePoint held.pub otpk = false := by
  constructor
  · rintro ⟨otpk', hotpk', hgone⟩
    cases h.symm.trans hotpk'
    exact hgone
  · exact fun hgone => ⟨otpk, h, hgone⟩

/-- The keys that answer are those of the bundle. -/
structure Current (identity : Identity C) (pool : HybridPrekeyPool C) (bundle : HybridBundle C) :
    Prop where
  agreement : C.publicKey identity.agreement = bundle.classical.identity.agreement
  signedPrekey : pool.classical.signedPrekey.pub = bundle.classical.signedPrekeyPublic
  pqPrekey : pool.pqPrekey.encapsulationKey = bundle.pqEncapsulationKey

theorem initiate_eq_ok {bundle : HybridBundle C}
    (h : Pqxdh.initiate sender bundle ephemeralSecret coins = .ok result) :
    result.sharedSecret =
        hybridKdf (x3dhKdf
          (C.diffieHellman sender.agreement bundle.classical.signedPrekeyPublic)
          (C.diffieHellman ephemeralSecret bundle.classical.identity.agreement)
          (C.diffieHellman ephemeralSecret bundle.classical.signedPrekeyPublic)
          (bundle.classical.oneTimePrekey.map (C.diffieHellman ephemeralSecret)))
          (C.encapsulate bundle.pqEncapsulationKey coins).2 ∧
      result.ephemeralPublic = C.publicKey ephemeralSecret ∧
      result.pqCiphertext = (C.encapsulate bundle.pqEncapsulationKey coins).1 ∧
      result.usedOneTimePrekey = bundle.classical.oneTimePrekey := by
  rw [Pqxdh.initiate] at h
  split at h
  · cases h
  · obtain ⟨classical, hclassical, h⟩ := bind_eq_ok.mp h
    rw [Prekey.initiate] at hclassical
    split at hclassical
    · cases hclassical
    · cases hclassical
      cases h
      exact ⟨rfl, rfl, rfl, rfl⟩

theorem initiate_of_verify {bundle : HybridBundle C} (sender : Identity C)
    (ephemeralSecret : C.Secret) (coins : Bytes 32) (h : bundle.verify = true) :
    ∃ result, Pqxdh.initiate sender bundle ephemeralSecret coins = .ok result := by
  have hclassical : bundle.classical.verifySignedPrekey = true := (Bool.and_eq_true_iff.mp h).1
  rw [Pqxdh.initiate, h, Prekey.initiate, hclassical]
  exact ⟨_, rfl⟩

/-- The one-time prekey that answers is one the message names. -/
inductive Named : Option (OneTimePrekey C) → Option C.Public → Prop
  | none : Named none none
  | some {held : OneTimePrekey C} {otpk : C.Public} :
    C.samePoint held.pub otpk = true → Named (some held) (some otpk)

theorem Named.agrees (hC : C.Lawful) {used : Option (OneTimePrekey C)} {otpk : Option C.Public}
    (h : Named used otpk) (e : C.Secret) :
    used.map (fun held => C.diffieHellman held.secret (C.publicKey e)) =
      otpk.map (C.diffieHellman e) := by
  cases h with
  | none => rfl
  | @some held otpk hsame =>
    rw [Option.map_some, Option.map_some, ← hC.samePoint_dh _ _ e hsame, held.derived,
      hC.dh_comm]

theorem sharedSecret_of_current (hC : C.Lawful) {bundle : HybridBundle C}
    (hinit : Pqxdh.initiate sender bundle ephemeralSecret coins = .ok result)
    (h : Current identity pool bundle) :
    result.sharedSecret =
      hybridKdf (x3dhKdf
        (C.diffieHellman pool.classical.signedPrekey.secret sender.pub.agreement)
        (C.diffieHellman identity.agreement result.ephemeralPublic)
        (C.diffieHellman pool.classical.signedPrekey.secret result.ephemeralPublic)
        (bundle.classical.oneTimePrekey.map (C.diffieHellman ephemeralSecret)))
        (C.decapsulate pool.pqPrekey.decapsulationKey result.pqCiphertext) := by
  obtain ⟨hsecret, hephemeral, hct, -⟩ := initiate_eq_ok hinit
  rw [hsecret, hephemeral, hct, ← h.agreement, ← h.signedPrekey, ← h.pqPrekey,
    pool.classical.signedPrekey.derived, pool.pqPrekey.derived, hC.decapsulate_encapsulate,
    Identity.pub, hC.dh_comm sender.agreement, hC.dh_comm ephemeralSecret identity.agreement,
    hC.dh_comm ephemeralSecret pool.classical.signedPrekey.secret]

theorem respond_eq_iff (hC : C.Ideal) {used : Option (OneTimePrekey C)}
    (hinit : Pqxdh.initiate sender (pool₀.currentBundle owner.pub) ephemeralSecret coins =
      .ok result)
    (hused : Named used result.usedOneTimePrekey) :
    Pqxdh.respond identity pool.classical.signedPrekey pool.pqPrekey used sender.pub
        result.ephemeralPublic result.pqCiphertext = result.sharedSecret ↔
      Current identity pool (pool₀.currentBundle owner.pub) := by
  obtain ⟨hsecret, hephemeral, hct, hnamed⟩ := initiate_eq_ok hinit
  rw [hnamed] at hused
  rw [hsecret, hephemeral, hct, Pqxdh.respond, Prekey.respond, hybridKdf_inj hC, x3dhKdf_inj hC,
    decapsulate_iff hC, hused.agrees hC.toLawful]
  have hbundle : (pool₀.currentBundle owner.pub).classical.signedPrekeyPublic =
      C.publicKey pool₀.classical.signedPrekey.secret := pool₀.classical.signedPrekey.derived
  have hdh1 := dh_swap_iff hC sender.agreement pool.classical.signedPrekey.secret
    pool₀.classical.signedPrekey.secret
  have hdh2 := dh_swap_iff hC ephemeralSecret identity.agreement owner.agreement
  have hdh3 := dh_swap_iff hC ephemeralSecret pool.classical.signedPrekey.secret
    pool₀.classical.signedPrekey.secret
  rw [← hbundle, ← pool.classical.signedPrekey.derived] at hdh1 hdh3
  rw [← pool.pqPrekey.derived]
  constructor
  · rintro ⟨⟨h1, h2, h3, -⟩, hpq⟩
    exact ⟨hdh2.mp h2, hdh1.mp h1, hpq⟩
  · rintro ⟨hagreement, hsigned, hpq⟩
    exact ⟨⟨hdh1.mpr hsigned, hdh2.mpr hagreement, hdh3.mpr hsigned, rfl⟩, hpq⟩

end Secret

section Answer

variable {identity owner sender : Identity C} {pool pool₀ : HybridPrekeyPool C}
  {ephemeralSecret : C.Secret} {coins : Bytes 32} {result : HybridInitiatorResult C}

/-- The pool answers with a session on this secret, or with an error that leaves it as
it is. -/
def Answered (identity : Identity C) (pool : HybridPrekeyPool C) (initiationMessage : List UInt8)
    (secret : C.Key) : Prop :=
  (∃ session pool', (FfiPrekey.respond identity initiationMessage).run pool = .ok session pool' ∧
      session.rootKey = secret) ∨
    ∃ e, (FfiPrekey.respond identity initiationMessage).run pool = .error (.err e) pool

theorem consumeUsed_none (pool : HybridPrekeyPool C) :
    (FfiPrekey.consumeUsed none).run pool = .ok none pool := rfl

theorem consumeUsed_some (pool : HybridPrekeyPool C) (otpk : C.Public) :
    (FfiPrekey.consumeUsed (some otpk)).run pool =
      match pool.consume otpk with
      | none => .error
          (.err (.invalidState "referenced one-time prekey already consumed or unknown")) pool
      | some (held, pool') => .ok (some held) pool' := by
  rw [FfiPrekey.consumeUsed, EStateM.run_bind, EStateM.run_get]
  dsimp only
  cases pool.consume otpk with
  | none => rfl
  | some found => rfl

theorem consumeUsed_spent {otpk : C.Public}
    (h : ∀ held ∈ pool.classical.available, C.samePoint held.pub otpk = false) :
    (FfiPrekey.consumeUsed (some otpk)).run pool = .error
      (.err (.invalidState "referenced one-time prekey already consumed or unknown")) pool := by
  have hfind : pool.classical.available.find? (C.samePoint ·.pub otpk) = none := by
    rw [List.find?_eq_none]
    intro held hmem
    rw [h held hmem]
    exact Bool.false_ne_true
  have hconsume : pool.consume otpk = none := by
    rw [HybridPrekeyPool.consume, PrekeyPool.consume, hfind]
    rfl
  rw [consumeUsed_some, hconsume]

theorem consumeUsed_held {otpk : C.Public}
    (h : ¬ ∀ held ∈ pool.classical.available, C.samePoint held.pub otpk = false) :
    ∃ held available, C.samePoint held.pub otpk = true ∧
      (FfiPrekey.consumeUsed (some otpk)).run pool = .ok (some held)
        { pool with classical := { pool.classical with available := available } } := by
  cases hfind : pool.classical.available.find? (C.samePoint ·.pub otpk) with
  | none =>
    refine absurd (fun held hmem => ?_) h
    exact Bool.eq_false_iff.mpr (List.find?_eq_none.mp hfind held hmem)
  | some held =>
    have hconsume : pool.consume otpk = some (held, { pool with classical :=
        { pool.classical with
          available := pool.classical.available.eraseP (C.samePoint ·.pub otpk) } }) := by
      rw [HybridPrekeyPool.consume, PrekeyPool.consume, hfind]
      rfl
    have hsame : C.samePoint held.pub otpk = true := by simpa using List.find?_some hfind
    refine ⟨held, pool.classical.available.eraseP (C.samePoint ·.pub otpk), hsame, ?_⟩
    rw [consumeUsed_some, hconsume]

theorem respond_run (hC : C.Lawful) (identity : Identity C) (sender : PublicIdentity C)
    (result : HybridInitiatorResult C) (pool : HybridPrekeyPool C) :
    (FfiPrekey.respond identity (packInitiationMessage sender result)).run pool =
      match (FfiPrekey.consumeUsed result.usedOneTimePrekey).run pool with
      | .error fault pool' => .error fault pool'
      | .ok used pool' =>
        .ok (.initResponder (Pqxdh.respond identity pool'.classical.signedPrekey pool'.pqPrekey
          used sender result.ephemeralPublic result.pqCiphertext)
          (responderRatchetSeed pool'.classical.signedPrekey)) pool' := by
  rw [FfiPrekey.respond, unpack_pack hC, EStateM.run_bind]
  change (FfiPrekey.consumeUsed result.usedOneTimePrekey >>= _).run pool = _
  rw [EStateM.run_bind]
  cases (FfiPrekey.consumeUsed result.usedOneTimePrekey).run pool with
  | ok used pool' => rfl
  | error fault pool' => rfl

theorem answered_of_run {message : List UInt8} {key secret : C.Key} {seed : C.Secret}
    {pool' : HybridPrekeyPool C}
    (h : (FfiPrekey.respond identity message).run pool = .ok (.initResponder key seed) pool') :
    Answered identity pool message secret ↔ key = secret := by
  constructor
  · rintro (⟨session, pool'', hrun, hroot⟩ | ⟨e, hrun⟩)
    · rw [h] at hrun
      cases hrun
      exact hroot
    · rw [h] at hrun
      cases hrun
  · intro hkey
    exact .inl ⟨_, pool', h, hkey⟩

theorem answered_iff (hC : C.Ideal)
    (hinit : Pqxdh.initiate sender (pool₀.currentBundle owner.pub) ephemeralSecret coins =
      .ok result) :
    Answered identity pool (packInitiationMessage sender.pub result) result.sharedSecret ↔
      Spent pool (pool₀.currentBundle owner.pub) ∨
        Current identity pool (pool₀.currentBundle owner.pub) := by
  have hnamed := (initiate_eq_ok hinit).2.2.2
  have hrun := respond_run hC.toLawful identity sender.pub result pool
  cases hused : result.usedOneTimePrekey with
  | none =>
    rw [hused, consumeUsed_none] at hrun
    have hspent : ¬ Spent pool (pool₀.currentBundle owner.pub) :=
      not_spent_of_none (hnamed.symm.trans hused)
    rw [answered_of_run hrun, respond_eq_iff hC hinit (hused ▸ Named.none),
      or_iff_right hspent]
  | some otpk =>
    have hgone : Spent pool (pool₀.currentBundle owner.pub) ↔ _ :=
      spent_iff (hnamed.symm.trans hused)
    by_cases hspent : Spent pool (pool₀.currentBundle owner.pub)
    · rw [hused, consumeUsed_spent (hgone.mp hspent)] at hrun
      exact iff_of_true (.inr ⟨_, hrun⟩) (.inl hspent)
    · obtain ⟨held, available, hsame, hconsumed⟩ := consumeUsed_held (mt hgone.mpr hspent)
      rw [hused, hconsumed] at hrun
      have hsecret : Pqxdh.respond identity pool.classical.signedPrekey pool.pqPrekey (some held)
          sender.pub result.ephemeralPublic result.pqCiphertext = result.sharedSecret ↔
            Current identity pool (pool₀.currentBundle owner.pub) :=
        respond_eq_iff hC hinit (hused ▸ Named.some hsame)
      rw [answered_of_run hrun, or_iff_right hspent]
      exact hsecret

end Answer

section History

open ProjectMesh.Crypto.FfiPrekey

variable {w : Word} {pool pool' pool₀ : HybridPrekeyPool C} {d : Device C} {op : PoolOp C}
  {published : Nat}

structure SamePrekeys (pool pool' : HybridPrekeyPool C) : Prop where
  signedPrekey : pool.classical.signedPrekey = pool'.classical.signedPrekey
  pqPrekey : pool.pqPrekey = pool'.pqPrekey

theorem SamePrekeys.trans {a b c : HybridPrekeyPool C} (h : SamePrekeys a b)
    (h' : SamePrekeys b c) : SamePrekeys a c :=
  ⟨h.signedPrekey.trans h'.signedPrekey, h.pqPrekey.trans h'.pqPrekey⟩

theorem samePrekeys_consumeUsed (used : Option C.Public) (pool : HybridPrekeyPool C) :
    SamePrekeys (Method.after ((consumeUsed used).run pool)) pool := by
  cases used with
  | none => exact ⟨rfl, rfl⟩
  | some otpk =>
    by_cases hgone : ∀ held ∈ pool.classical.available, C.samePoint held.pub otpk = false
    · rw [consumeUsed_spent hgone]
      exact ⟨rfl, rfl⟩
    · obtain ⟨held, available, -, hrun⟩ := consumeUsed_held hgone
      rw [hrun]
      exact ⟨rfl, rfl⟩

theorem samePrekeys_respond (identity : Identity C) (message : List UInt8)
    (pool : HybridPrekeyPool C) :
    SamePrekeys (Method.after ((FfiPrekey.respond identity message).run pool)) pool := by
  rw [FfiPrekey.respond]
  cases unpackInitiationMessage message with
  | error fault =>
    cases fault with
    | err e => exact ⟨rfl, rfl⟩
    | panic => exact ⟨rfl, rfl⟩
  | ok parsed =>
    have hconsume := samePrekeys_consumeUsed parsed.usedOneTimePrekey pool
    change SamePrekeys (Method.after
      ((consumeUsed parsed.usedOneTimePrekey >>= fun usedOtpk => _).run pool)) pool
    rw [EStateM.run_bind]
    cases hrun : (consumeUsed parsed.usedOneTimePrekey).run pool with
    | ok used pool' =>
      rw [hrun] at hconsume
      exact hconsume
    | error fault pool' =>
      rw [hrun] at hconsume
      exact hconsume

def Retains (published : Nat) (d : Device C) : PoolOp C → Prop
  | .rotateSignedPrekey _ _ | .rotatePqPrekey _ _ => False
  | .restore snapshot => snapshot + published < d.saved.length
  | .topUp _ | .respond _ _ | .persist => True

def Retaining (w : Word) (published : Nat) : Device C → List (PoolOp C) → Prop
  | _, [] => True
  | d, op :: later => Retains published d op ∧ Retaining w published (d.step w op) later

/-- The pool and the snapshots taken since have the prekeys of `pool₀`. -/
structure Keeps (w : Word) (pool₀ : HybridPrekeyPool C) (published : Nat) (d : Device C) :
    Prop where
  pool : SamePrekeys d.pool pool₀
  saved : ∀ snapshot bytes, snapshot + published < d.saved.length →
    d.saved[snapshot]? = some bytes →
      ∀ pool, HybridPrekeyPool.fromBytes w bytes = .ok pool → SamePrekeys pool pool₀

theorem keeps_published (d : Device C) : Keeps w d.pool d.saved.length d where
  pool := ⟨rfl, rfl⟩
  saved snapshot bytes h := absurd h (by omega)

theorem Keeps.step (hC : C.Lawful) (h : Keeps w pool₀ published d)
    (hop : Retains published d op) : Keeps w pool₀ published (d.step w op) := by
  obtain ⟨hpool, hsaved⟩ := h
  cases op with
  | topUp secrets => exact ⟨⟨hpool.signedPrekey, hpool.pqPrekey⟩, hsaved⟩
  | rotateSignedPrekey identity secret => exact hop.elim
  | rotatePqPrekey identity seed => exact hop.elim
  | respond identity message =>
    exact ⟨(samePrekeys_respond identity message d.pool).trans hpool, hsaved⟩
  | persist =>
    rw [Device.step]
    cases hbytes : d.pool.toBytes with
    | error e => exact ⟨hpool, hsaved⟩
    | ok bytes =>
      refine ⟨hpool, fun snapshot bytes' hlt hget pool hparse => ?_⟩
      cases snapshot with
      | zero =>
        cases hget
        rw [HybridPrekeyPool.eq_of_fromBytes_toBytes hC hbytes hparse]
        exact hpool
      | succ snapshot =>
        rw [List.length_cons] at hlt
        exact hsaved snapshot bytes' (by omega) hget pool hparse
  | restore snapshot =>
    rw [Device.step]
    cases hget : d.saved[snapshot]? with
    | none => exact ⟨hpool, hsaved⟩
    | some bytes =>
      dsimp only
      cases hparse : HybridPrekeyPool.fromBytes w bytes with
      | error fault => exact ⟨hpool, hsaved⟩
      | ok pool => exact ⟨hsaved snapshot bytes hop hget pool hparse, hsaved⟩

theorem Keeps.run (hC : C.Lawful) {later : List (PoolOp C)} (h : Keeps w pool₀ published d)
    (hlater : Retaining w published d later) : Keeps w pool₀ published (d.run w later) := by
  induction later generalizing d with
  | nil => exact h
  | cons op later ih => exact ih (h.step hC hlater.1) hlater.2

theorem SamePrekeys.current {identity owner : Identity C} (h : SamePrekeys pool pool₀)
    (hagreement : C.publicKey identity.agreement = C.publicKey owner.agreement) :
    Current identity pool (pool₀.currentBundle owner.pub) :=
  ⟨hagreement, congrArg SignedPrekey.pub h.signedPrekey,
    congrArg PqPrekey.encapsulationKey h.pqPrekey⟩

/-- An old bundle is answered as long as the keys it was published with answer, and refused
when its one-time prekey is gone.  So it is in every history that retains those keys. -/
theorem old_bundle_answered_iff (hC : C.Ideal) (w w' : Word) (start : Device C)
    (past later : List (PoolOp C)) (owner answering sender : Identity C)
    (ephemeralSecret : C.Secret) (coins : Bytes 32) {bundle : HybridBundle C}
    {result : HybridInitiatorResult C}
    (hparse : HybridBundle.fromBytes w' (currentBundleBytes (start.run w past).pool owner) =
      .ok bundle)
    (hinit : Pqxdh.initiate sender bundle ephemeralSecret coins = .ok result) :
    (Answered answering ((start.run w past).run w later).pool
        (packInitiationMessage sender.pub result) result.sharedSecret ↔
      Spent ((start.run w past).run w later).pool bundle ∨
        Current answering ((start.run w past).run w later).pool bundle) ∧
    (Retaining w (start.run w past).saved.length (start.run w past) later →
      C.publicKey answering.agreement = C.publicKey owner.agreement →
        Answered answering ((start.run w past).run w later).pool
          (packInitiationMessage sender.pub result) result.sharedSecret) := by
  rw [currentBundleBytes, HybridBundle.fromBytes_toBytes hC.toLawful] at hparse
  cases hparse
  have hiff : Answered answering ((start.run w past).run w later).pool
      (packInitiationMessage sender.pub result) result.sharedSecret ↔ _ := answered_iff hC hinit
  refine ⟨hiff, fun hlater hagreement => hiff.mpr (.inr ?_)⟩
  have hkeeps := (keeps_published (w := w) (start.run w past)).run hC.toLawful hlater
  exact hkeeps.pool.current hagreement

end History

section Toy

open ProjectMesh.Crypto.FfiPrekey

theorem verify_new (hC : C.Lawful) (owner : Identity C) (signedSecret : C.Secret)
    (initialBatch : List C.Secret) (seed : Bytes 64) :
    ((HybridPrekeyPool.new owner signedSecret initialBatch seed).currentBundle owner.pub).verify =
      true := by
  have hclassical : ((HybridPrekeyPool.new owner signedSecret initialBatch seed).currentBundle
      owner.pub).classical.verifySignedPrekey = true := hC.verify_sign _ _
  rw [HybridBundle.verify, hclassical]
  exact hC.verify_sign _ _

theorem initiate_new (hC : C.Lawful) (owner sender : Identity C) (signedSecret : C.Secret)
    (initialBatch : List C.Secret) (seed : Bytes 64) (ephemeralSecret : C.Secret)
    (coins : Bytes 32) :
    ∃ result, Pqxdh.initiate sender
      ((HybridPrekeyPool.new owner signedSecret initialBatch seed).currentBundle owner.pub)
      ephemeralSecret coins = .ok result :=
  initiate_of_verify sender ephemeralSecret coins
    (verify_new hC owner signedSecret initialBatch seed)

def toyBytes (n : Nat) (b : UInt8) : Bytes n := ⟨List.replicate n b, List.length_replicate⟩

def toyIdentity (b : UInt8) : Identity toyPrekeys := ⟨toyBytes 32 b, toyBytes 32 b⟩

def toyDevice (initialBatch : List (Bytes 32)) : Device toyPrekeys where
  pool := .new (toyIdentity 1) (toyBytes 32 2) initialBatch (toyBytes 64 3)
  saved := []

theorem old_bundle_answered_toy : ∃ result,
    Pqxdh.initiate (toyIdentity 7)
        ((toyDevice [toyBytes 32 4]).pool.currentBundle (toyIdentity 1).pub)
        (toyBytes 32 8) (toyBytes 32 9) = .ok result ∧
      Answered (toyIdentity 1)
        ((toyDevice [toyBytes 32 4]).run .w32 [.topUp [toyBytes 32 5], .persist, .restore 0]).pool
        (packInitiationMessage (toyIdentity 7).pub result) result.sharedSecret := by
  obtain ⟨result, hinit⟩ := initiate_new toyPrekeys_ideal.toLawful (toyIdentity 1) (toyIdentity 7)
    (toyBytes 32 2) [toyBytes 32 4] (toyBytes 64 3) (toyBytes 32 8) (toyBytes 32 9)
  refine ⟨result, hinit, ?_⟩
  refine (old_bundle_answered_iff toyPrekeys_ideal .w32 .w64 (toyDevice [toyBytes 32 4]) []
    [.topUp [toyBytes 32 5], .persist, .restore 0] (toyIdentity 1) (toyIdentity 1) (toyIdentity 7)
    (toyBytes 32 8) (toyBytes 32 9)
    (HybridBundle.fromBytes_toBytes toyPrekeys_ideal.toLawful _) hinit).2 ?_ rfl
  exact ⟨trivial, trivial, Nat.zero_lt_one, trivial⟩

/-- A bundle without a one-time prekey, and a signed prekey rotated since. -/
theorem not_old_bundle_answered : ¬ ∀ (C : PrekeySuite), C.Ideal → ∀ (w w' : Word)
    (start : Device C) (past later : List (PoolOp C)) (owner sender : Identity C)
    (ephemeralSecret : C.Secret) (coins : Bytes 32) (bundle : HybridBundle C)
    (result : HybridInitiatorResult C),
    HybridBundle.fromBytes w' (currentBundleBytes (start.run w past).pool owner) = .ok bundle →
    Pqxdh.initiate sender bundle ephemeralSecret coins = .ok result →
    Answered owner ((start.run w past).run w later).pool
      (packInitiationMessage sender.pub result) result.sharedSecret := by
  intro h
  obtain ⟨result, hinit⟩ := initiate_new toyPrekeys_ideal.toLawful (toyIdentity 1) (toyIdentity 7)
    (toyBytes 32 2) [] (toyBytes 64 3) (toyBytes 32 8) (toyBytes 32 9)
  have hanswered := h toyPrekeys toyPrekeys_ideal .w64 .w64 (toyDevice []) []
    [.rotateSignedPrekey (toyIdentity 1) (toyBytes 32 6)] (toyIdentity 1) (toyIdentity 7)
    (toyBytes 32 8) (toyBytes 32 9) _ result
    (HybridBundle.fromBytes_toBytes toyPrekeys_ideal.toLawful _) hinit
  rcases (answered_iff toyPrekeys_ideal hinit).mp hanswered with ⟨otpk, hotpk, -⟩ | hcurrent
  · cases hotpk
  · have hsame : toyBytes 32 6 = toyBytes 32 2 := hcurrent.signedPrekey
    exact absurd (congrArg Subtype.val hsame) (by decide)

end Toy

end ProjectMesh.Crypto
