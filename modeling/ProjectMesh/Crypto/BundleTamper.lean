import ProjectMesh.Crypto.StaleBundle

namespace ProjectMesh.Crypto

open ProjectMesh.Lib
open ProjectMesh.Crypto.Prekey
open ProjectMesh.Crypto.Pqxdh
open ProjectMesh.Crypto.FfiPrekey

variable {C : PrekeySuite}

structure BundleKeys (C : PrekeySuite) where
  agreement : C.Public
  signedPrekey : C.Public
  oneTimePrekey : Option C.Public
  pqPrekey : C.EncapsulationKey

def Pqxdh.HybridBundle.keys (bundle : HybridBundle C) : BundleKeys C where
  agreement := bundle.classical.identity.agreement
  signedPrekey := bundle.classical.signedPrekeyPublic
  oneTimePrekey := bundle.classical.oneTimePrekey
  pqPrekey := bundle.pqEncapsulationKey

/-- An honest device: the prekeys it has signed, and the bundles it has made of them.  It
signs nothing else. -/
structure Publisher (C : PrekeySuite) where
  identity : Identity C
  signedPrekeys : List (SignedPrekey C)
  pqPrekeys : List (PqPrekey C)
  published : List (HybridBundle C)
  signed_generated : ∀ k ∈ signedPrekeys, ∃ secret, k = .generate identity secret
  pq_generated : ∀ q ∈ pqPrekeys, ∃ seed, q = .generate identity seed
  published_made : ∀ bundle ∈ published, ∃ k ∈ signedPrekeys, ∃ otpk, ∃ q ∈ pqPrekeys,
    bundle = .new identity.pub k otpk q

namespace Publisher

variable (p : Publisher C)

def messages : List (List UInt8) :=
  p.signedPrekeys.map (fun k => (C.pubBytes k.pub).1) ++
    p.pqPrekeys.map fun q => (C.encapsulationBytes q.encapsulationKey).1

def Unforged (sig : Bytes 64) : Prop :=
  ∀ message, C.verify (C.verifyingKey p.identity.signing) message sig = true →
    message ∈ p.messages

/-- The signatures the device gave away are no use for other messages. -/
def Ideal : Prop :=
  ∀ bundle ∈ p.published,
    p.Unforged bundle.classical.signedPrekeySignature ∧ p.Unforged bundle.pqSignature

/-- What a relay can make without the signing key: it may change every field, and has no
signature on a message the device did not sign. -/
structure Relays (copy : HybridBundle C) : Prop where
  verifying : copy.classical.identity.verifying = C.verifyingKey p.identity.signing
  signedPrekey : p.Unforged copy.classical.signedPrekeySignature
  pqPrekey : p.Unforged copy.pqSignature

/-- No altered copy verifies. -/
def TamperEvident (bundle : HybridBundle C) : Prop :=
  ∀ copy, p.Relays copy → copy.verify = true → copy.keys = bundle.keys

def splice (classical pq : HybridBundle C) (agreement : C.Public)
    (oneTimePrekey : Option C.Public) : HybridBundle C where
  classical := {
    classical.classical with
    identity := { classical.classical.identity with agreement := agreement }
    oneTimePrekey := oneTimePrekey }
  pqEncapsulationKey := pq.pqEncapsulationKey
  pqSignature := pq.pqSignature

variable {p}

theorem signedPrekey_of_mem_messages {key : C.Public} (h : (C.pubBytes key).1 ∈ p.messages) :
    ∃ k ∈ p.signedPrekeys, key = k.pub := by
  rcases List.mem_append.mp h with h | h
  · obtain ⟨k, hk, hbytes⟩ := List.mem_map.mp h
    exact ⟨k, hk, C.pubBytes.injective (Subtype.ext hbytes.symm)⟩
  · obtain ⟨q, -, hbytes⟩ := List.mem_map.mp h
    have hlen := congrArg List.length hbytes
    rw [length_bytes, length_bytes] at hlen
    exact absurd hlen (by decide)

theorem pqPrekey_of_mem_messages (hC : C.Lawful) {key : C.EncapsulationKey}
    (h : (C.encapsulationBytes key).1 ∈ p.messages) :
    ∃ q ∈ p.pqPrekeys, key = q.encapsulationKey := by
  rcases List.mem_append.mp h with h | h
  · obtain ⟨k, -, hbytes⟩ := List.mem_map.mp h
    have hlen := congrArg List.length hbytes
    rw [length_bytes, length_bytes] at hlen
    exact absurd hlen (by decide)
  · obtain ⟨q, hq, hbytes⟩ := List.mem_map.mp h
    refine ⟨q, hq, Option.some.inj ?_⟩
    calc
      some key = C.encapsulationFromBytes (C.encapsulationBytes key) :=
        (hC.encapsulationFromBytes_bytes key).symm
      _ = C.encapsulationFromBytes (C.encapsulationBytes q.encapsulationKey) := by
        rw [Subtype.ext hbytes]
      _ = some q.encapsulationKey := hC.encapsulationFromBytes_bytes _

theorem signed_of_verify (hC : C.Lawful) {copy : HybridBundle C} (hcopy : p.Relays copy)
    (hverify : copy.verify = true) :
    (∃ k ∈ p.signedPrekeys, copy.keys.signedPrekey = k.pub) ∧
      ∃ q ∈ p.pqPrekeys, copy.keys.pqPrekey = q.encapsulationKey := by
  rw [HybridBundle.verify, Bool.and_eq_true, PrekeyBundle.verifySignedPrekey,
    PublicIdentity.verify, PublicIdentity.verify, hcopy.verifying] at hverify
  obtain ⟨hsigned, hpq⟩ := hverify
  exact ⟨signedPrekey_of_mem_messages (hcopy.signedPrekey _ hsigned),
    pqPrekey_of_mem_messages hC (hcopy.pqPrekey _ hpq)⟩

/-- What `verify` does not cover: the agreement key, the one-time prekey, and which halves
were published together. -/
theorem verify_splice (hC : C.Lawful) {b b' : HybridBundle C} (hb : b ∈ p.published)
    (hb' : b' ∈ p.published) (agreement : C.Public) (oneTimePrekey : Option C.Public) :
    (splice b b' agreement oneTimePrekey).verify = true := by
  obtain ⟨k, hk, otpk, q, -, rfl⟩ := p.published_made b hb
  obtain ⟨k', -, otpk', q', hq', rfl⟩ := p.published_made b' hb'
  obtain ⟨secret, rfl⟩ := p.signed_generated k hk
  obtain ⟨seed, rfl⟩ := p.pq_generated q' hq'
  rw [HybridBundle.verify, Bool.and_eq_true]
  exact ⟨hC.verify_sign _ _, hC.verify_sign _ _⟩

theorem relays_splice (hideal : p.Ideal) {b b' : HybridBundle C} (hb : b ∈ p.published)
    (hb' : b' ∈ p.published) (agreement : C.Public) (oneTimePrekey : Option C.Public) :
    p.Relays (splice b b' agreement oneTimePrekey) where
  verifying := by
    obtain ⟨k, -, otpk, q, -, rfl⟩ := p.published_made b hb
    rfl
  signedPrekey := (hideal b hb).1
  pqPrekey := (hideal b' hb').2

theorem exists_public_ne (key : C.Public) : ∃ key', key' ≠ key := by
  by_cases h : key = C.pubBytes.symm ⟨List.replicate 32 0, rfl⟩
  · refine ⟨C.pubBytes.symm ⟨List.replicate 32 1, rfl⟩, fun h' => ?_⟩
    have hbytes := C.pubBytes.symm.injective (h'.trans h)
    exact absurd (congrArg Subtype.val hbytes) (by decide)
  · exact ⟨_, Ne.symm h⟩

/-- A relay can put any agreement key and any one-time prekey next to the signed halves of
two bundles, but no other signed prekey and no other ML-KEM key than the device's own.  So no
bundle is ever tamper-evident. -/
theorem never_tamperEvident (hC : C.Lawful) (p : Publisher C) (hideal : p.Ideal)
    {bundle : HybridBundle C} (hbundle : bundle ∈ p.published) :
    ¬ p.TamperEvident bundle ∧
      (∀ other ∈ p.published, ∀ agreement oneTimePrekey, ∃ copy, p.Relays copy ∧
        copy.verify = true ∧ copy.keys = {
          agreement := agreement
          signedPrekey := bundle.keys.signedPrekey
          oneTimePrekey := oneTimePrekey
          pqPrekey := other.keys.pqPrekey }) ∧
      ∀ copy, p.Relays copy → copy.verify = true →
        (∃ k ∈ p.signedPrekeys, copy.keys.signedPrekey = k.pub) ∧
          ∃ q ∈ p.pqPrekeys, copy.keys.pqPrekey = q.encapsulationKey := by
  refine ⟨fun hevident => ?_, fun other hother agreement oneTimePrekey => ?_, fun copy hcopy =>
    signed_of_verify hC hcopy⟩
  · obtain ⟨agreement, hne⟩ := exists_public_ne bundle.keys.agreement
    have hkeys := hevident _ (relays_splice hideal hbundle hbundle agreement none)
      (verify_splice hC hbundle hbundle agreement none)
    exact hne (congrArg BundleKeys.agreement hkeys)
  · exact ⟨splice bundle other agreement oneTimePrekey,
      relays_splice hideal hbundle hother agreement oneTimePrekey,
      verify_splice hC hbundle hother agreement oneTimePrekey, rfl⟩

section Run

variable {w : Word} {signedPrekeys : List (SignedPrekey C)} {pqPrekeys : List (PqPrekey C)}
  {d : Device C} {op : PoolOp C}

def signedBy : PoolOp C → List (SignedPrekey C) × List (PqPrekey C)
  | .rotateSignedPrekey identity secret => ([.generate identity secret], [])
  | .rotatePqPrekey identity seed => ([], [.generate identity seed])
  | .topUp _ | .respond _ _ | .persist | .restore _ => ([], [])

def By (identity : Identity C) : PoolOp C → Prop
  | .rotateSignedPrekey owner _ | .rotatePqPrekey owner _ => owner = identity
  | .topUp _ | .respond _ _ | .persist | .restore _ => True

structure Stocked (w : Word) (signedPrekeys : List (SignedPrekey C))
    (pqPrekeys : List (PqPrekey C)) (d : Device C) : Prop where
  signedPrekey : d.pool.classical.signedPrekey ∈ signedPrekeys
  pqPrekey : d.pool.pqPrekey ∈ pqPrekeys
  saved : ∀ bytes ∈ d.saved, ∀ pool, HybridPrekeyPool.fromBytes w bytes = .ok pool →
    pool.classical.signedPrekey ∈ signedPrekeys ∧ pool.pqPrekey ∈ pqPrekeys

theorem Stocked.step (hC : C.Lawful) (h : Stocked w signedPrekeys pqPrekeys d)
    (hsigned : ∀ k ∈ (signedBy op).1, k ∈ signedPrekeys)
    (hpq : ∀ q ∈ (signedBy op).2, q ∈ pqPrekeys) :
    Stocked w signedPrekeys pqPrekeys (d.step w op) := by
  obtain ⟨hk, hq, hsaved⟩ := h
  cases op with
  | topUp secrets => exact ⟨hk, hq, hsaved⟩
  | rotateSignedPrekey identity secret => exact ⟨hsigned _ List.mem_cons_self, hq, hsaved⟩
  | rotatePqPrekey identity seed => exact ⟨hk, hpq _ List.mem_cons_self, hsaved⟩
  | respond identity message =>
    have hsame := samePrekeys_respond identity message d.pool
    exact ⟨hsame.signedPrekey ▸ hk, hsame.pqPrekey ▸ hq, hsaved⟩
  | persist =>
    rw [Device.step]
    cases hbytes : d.pool.toBytes with
    | error e => exact ⟨hk, hq, hsaved⟩
    | ok bytes =>
      refine ⟨hk, hq, List.forall_mem_cons.mpr ⟨fun pool hparse => ?_, hsaved⟩⟩
      rw [HybridPrekeyPool.eq_of_fromBytes_toBytes hC hbytes hparse]
      exact ⟨hk, hq⟩
  | restore snapshot =>
    rw [Device.step]
    cases hget : d.saved[snapshot]? with
    | none => exact ⟨hk, hq, hsaved⟩
    | some bytes =>
      dsimp only
      cases hparse : HybridPrekeyPool.fromBytes w bytes with
      | error fault => exact ⟨hk, hq, hsaved⟩
      | ok pool =>
        obtain ⟨hk', hq'⟩ := hsaved bytes (List.mem_of_getElem? hget) pool hparse
        exact ⟨hk', hq', hsaved⟩

theorem Stocked.run (hC : C.Lawful) {ops : List (PoolOp C)}
    (h : Stocked w signedPrekeys pqPrekeys d)
    (hsigned : ∀ op ∈ ops, ∀ k ∈ (signedBy op).1, k ∈ signedPrekeys)
    (hpq : ∀ op ∈ ops, ∀ q ∈ (signedBy op).2, q ∈ pqPrekeys) :
    Stocked w signedPrekeys pqPrekeys (d.run w ops) := by
  induction ops generalizing d with
  | nil => exact h
  | cons op ops ih =>
    rw [List.forall_mem_cons] at hsigned hpq
    exact ih (h.step hC hsigned.1 hpq.1) hsigned.2 hpq.2

theorem generated_signedBy {identity : Identity C} (hop : By identity op) :
    (∀ k ∈ (signedBy op).1, ∃ secret, k = .generate identity secret) ∧
      ∀ q ∈ (signedBy op).2, ∃ seed, q = .generate identity seed := by
  cases op with
  | rotateSignedPrekey owner secret =>
    cases hop
    exact ⟨fun k hk => ⟨secret, List.mem_singleton.mp hk⟩, fun q hq => absurd hq List.not_mem_nil⟩
  | rotatePqPrekey owner seed =>
    cases hop
    exact ⟨fun k hk => absurd hk List.not_mem_nil, fun q hq => ⟨seed, List.mem_singleton.mp hq⟩⟩
  | topUp | respond | persist | restore =>
    exact ⟨fun k hk => absurd hk List.not_mem_nil, fun q hq => absurd hq List.not_mem_nil⟩

def ofRun (hC : C.Lawful) (w : Word) (identity : Identity C) (secret : C.Secret)
    (initialBatch : List C.Secret) (seed : Bytes 64) (ops : List (PoolOp C))
    (hops : ∀ op ∈ ops, By identity op) : Publisher C where
  identity := identity
  signedPrekeys := .generate identity secret :: ops.flatMap fun op => (signedBy op).1
  pqPrekeys := .generate identity seed :: ops.flatMap fun op => (signedBy op).2
  published := ops.inits.map fun past =>
    (Device.run w ⟨.new identity secret initialBatch seed, []⟩ past).pool.currentBundle identity.pub
  signed_generated := by
    refine List.forall_mem_cons.mpr ⟨⟨secret, rfl⟩, fun k hk => ?_⟩
    obtain ⟨op, hop, hk⟩ := List.mem_flatMap.mp hk
    exact (generated_signedBy (hops op hop)).1 k hk
  pq_generated := by
    refine List.forall_mem_cons.mpr ⟨⟨seed, rfl⟩, fun q hq => ?_⟩
    obtain ⟨op, hop, hq⟩ := List.mem_flatMap.mp hq
    exact (generated_signedBy (hops op hop)).2 q hq
  published_made := by
    intro bundle hbundle
    obtain ⟨past, hpast, rfl⟩ := List.mem_map.mp hbundle
    have hsub : ∀ op ∈ past, op ∈ ops := ((List.mem_inits past ops).mp hpast).subset
    have hstart : Stocked w (.generate identity secret :: ops.flatMap fun op => (signedBy op).1)
        (.generate identity seed :: ops.flatMap fun op => (signedBy op).2)
        ⟨.new identity secret initialBatch seed, []⟩ :=
      ⟨List.mem_cons_self, List.mem_cons_self, fun bytes h => absurd h List.not_mem_nil⟩
    have hsigned : ∀ op ∈ past, ∀ k ∈ (signedBy op).1, k ∈ ops.flatMap fun op => (signedBy op).1 :=
      fun op hop k hk => List.mem_flatMap.mpr ⟨op, hsub op hop, hk⟩
    have hpq : ∀ op ∈ past, ∀ q ∈ (signedBy op).2, q ∈ ops.flatMap fun op => (signedBy op).2 :=
      fun op hop q hq => List.mem_flatMap.mpr ⟨op, hsub op hop, hq⟩
    have hrun := hstart.run hC (fun op hop k hk => List.mem_cons_of_mem _ (hsigned op hop k hk))
      (fun op hop q hq => List.mem_cons_of_mem _ (hpq op hop q hq))
    exact ⟨_, hrun.signedPrekey, _, _, hrun.pqPrekey, rfl⟩

end Run

end Publisher

def tagOf (first second message : List UInt8) : UInt8 :=
  if message = first then 1 else if message = second then 2 else 0

theorem eq_of_tagOf {first second m m' : List UInt8}
    (h : tagOf first second m = tagOf first second m') (hm' : tagOf first second m' ≠ 0) :
    m = m' := by
  rw [tagOf, tagOf] at h
  by_cases hfirst : m' = first
  · rw [if_pos hfirst] at h
    split at h
    · next heq => exact heq.trans hfirst.symm
    · split at h <;> cases h
  · rw [if_neg hfirst] at h
    by_cases hsecond : m' = second
    · rw [if_pos hsecond] at h
      split at h
      · cases h
      · split at h
        · next heq => exact heq.trans hsecond.symm
        · cases h
    · exact absurd (by rw [tagOf, if_neg hfirst, if_neg hsecond]) hm'

def toySign (k : Bytes 32) (message : List UInt8) : Bytes 64 :=
  ⟨k.1 ++ List.replicate 32
    (tagOf (List.replicate 32 3) (List.replicate 64 4 ++ List.replicate 1504 0) message),
    by rw [List.length_append, k.2, List.length_replicate]⟩

def toySigning : PrekeySuite :=
  { toyPrekeys with
    sign := toySign
    verify := fun k message sig => decide (sig.1 = (toySign k message).1) }

theorem toySigning_lawful : toySigning.Lawful :=
  { toyPrekeys_ideal.toLawful with
    verify_sign := fun _ _ => decide_eq_true rfl }

namespace Publisher

def toyIdentity : Identity toySigning where
  signing := toyBytes 32 1
  agreement := toyBytes 32 2

def toyPublisher : Publisher toySigning :=
  ofRun toySigning_lawful .w64 toyIdentity (toyBytes 32 3) [toyBytes 32 5] (toyBytes 64 4) []
    fun _ h => absurd h List.not_mem_nil

def toyBundle : HybridBundle toySigning :=
  (HybridPrekeyPool.new toyIdentity (toyBytes 32 3) [toyBytes 32 5]
    (toyBytes 64 4)).currentBundle toyIdentity.pub

theorem toyBundle_mem : toyBundle ∈ toyPublisher.published := List.mem_cons_self

theorem unforged_toySign {m : List UInt8} (hmem : m ∈ toyPublisher.messages)
    (htag : tagOf (List.replicate 32 3) (List.replicate 64 4 ++ List.replicate 1504 0) m ≠ 0) :
    toyPublisher.Unforged (toySign (toyBytes 32 1) m) := by
  intro message hverify
  have hsig : (toySign _ m).1 = (toySign _ message).1 := of_decide_eq_true hverify
  have htags := (List.append_inj hsig rfl).2
  have heq := (List.replicate_inj.mp htags.symm).2.resolve_left (by decide)
  exact eq_of_tagOf heq htag ▸ hmem

theorem toyPublisher_ideal : toyPublisher.Ideal := by
  intro bundle hbundle
  cases List.mem_singleton.mp hbundle
  refine ⟨unforged_toySign (m := List.replicate 32 3) ?_ ?_,
    unforged_toySign (m := List.replicate 64 4 ++ List.replicate 1504 0) ?_ ?_⟩
  all_goals decide +kernel

theorem never_tamperEvident_toyBundle : ¬ toyPublisher.TamperEvident toyBundle :=
  (never_tamperEvident toySigning_lawful toyPublisher toyPublisher_ideal toyBundle_mem).1

def toyAltered : HybridBundle toySigning :=
  splice toyBundle toyBundle (toyBytes 32 9) none

theorem not_all_tamperEvident : ¬ ∀ (C : PrekeySuite), C.Lawful → ∀ p : Publisher C, p.Ideal →
    ∀ bundle ∈ p.published, p.TamperEvident bundle := by
  intro hall
  have hkeys := hall toySigning toySigning_lawful toyPublisher toyPublisher_ideal toyBundle
    toyBundle_mem toyAltered
    (relays_splice toyPublisher_ideal toyBundle_mem toyBundle_mem _ none)
    (verify_splice toySigning_lawful toyBundle_mem toyBundle_mem _ none)
  have hagreement : (List.replicate 32 9 : List UInt8) = List.replicate 32 2 :=
    congrArg (fun keys : BundleKeys toySigning => (keys.agreement : Bytes 32).1) hkeys
  exact absurd hagreement (by decide)

end Publisher

end ProjectMesh.Crypto
