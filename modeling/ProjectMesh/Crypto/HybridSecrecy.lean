import ProjectMesh.Crypto.Bootstrap

namespace ProjectMesh.Crypto

open ProjectMesh.Lib
open ProjectMesh.Crypto.Prekey
open ProjectMesh.Crypto.Pqxdh
open ProjectMesh.Crypto.FfiPrekey

/-- Nothing but what honest use relies on relates two outputs of the primitives. -/
structure PrekeySuite.Free (C : PrekeySuite) : Prop extends C.Lawful where
  samePoint_free : ∀ a b, C.samePoint (C.publicKey a) (C.publicKey b) = true → a = b
  diffieHellman_free : ∀ a b c p, C.diffieHellman c p = C.diffieHellman a (C.publicKey b) →
    c = a ∨ c = b
  decapsulate_free : ∀ d ct k r, C.decapsulate d ct = (C.encapsulate k r).2 →
    C.encapsulationKey d = k
  encapsulate_free : ∀ k r k' r', (C.encapsulate k r).2 = (C.encapsulate k' r').2 → r = r'
  hkdfSha256_free : ∀ ikm info ikm' info', C.hkdfSha256 ikm info = C.hkdfSha256 ikm' info' →
    ikm = ikm'
  hkdf_free : ∀ salt shared info ikm info', (C.hkdf salt shared info).1 ≠ C.hkdfSha256 ikm info' ∧
    (C.hkdf salt shared info).2 ≠ C.hkdfSha256 ikm info'
  hmac_free : ∀ k b ikm info, C.hmac k b ≠ C.hkdfSha256 ikm info

/-- The secret keys somebody has, and the coins of encapsulations. -/
structure Loot (C : PrekeySuite) where
  secret : C.Secret → Prop
  decapsulation : C.DecapsulationKey → Prop
  coins : Bytes 32 → Prop

section Secrecy

variable {C : PrekeySuite} (loot : Loot C)

/-- What can be computed from the loot.  Public keys and ciphertexts are known to everyone. -/
inductive Loot.Knows : KeyPart C.Shared C.Key C.PqShared → Prop
  | ones : Knows .ones
  | agreed {a p} : loot.secret a → Knows (.agreed (C.diffieHellman a p))
  | decapsulated {d ct} : loot.decapsulation d → Knows (.encapsulated (C.decapsulate d ct))
  | encapsulated {k r} : loot.coins r → Knows (.encapsulated (C.encapsulate k r).2)
  | derived {ikm info} : (∀ part ∈ ikm, Knows part) → Knows (.derived (C.hkdfSha256 ikm info))
  | root {salt shared info} : Knows (.derived salt) → Knows (.agreed shared) →
    Knows (.derived (C.hkdf salt shared info).1)
  | chain {salt shared info} : Knows (.derived salt) → Knows (.agreed shared) →
    Knows (.derived (C.hkdf salt shared info).2)
  | step {k b} : Knows (.derived k) → Knows (.derived (C.hmac k b))

variable {loot} {owner sender : Identity C} {pool pool₀ pool' : HybridPrekeyPool C}
  {ephemeralSecret : C.Secret} {coins : Bytes 32} {result : HybridInitiatorResult C}

theorem knows_derived_iff (hC : C.Free)
    {ikm : List (KeyPart C.Shared C.Key C.PqShared)} {info : String} :
    loot.Knows (.derived (C.hkdfSha256 ikm info)) ↔ ∀ part ∈ ikm, loot.Knows part := by
  refine ⟨fun h => ?_, .derived⟩
  generalize hk : C.hkdfSha256 ikm info = k at h
  cases h with
  | derived hparts => rwa [hC.hkdfSha256_free _ _ _ _ hk]
  | root => exact absurd hk.symm (hC.hkdf_free _ _ _ _ _).1
  | chain => exact absurd hk.symm (hC.hkdf_free _ _ _ _ _).2
  | step => exact absurd hk.symm (hC.hmac_free _ _ _ _)

theorem knows_agreed_iff (hC : C.Free) {a b : C.Secret} :
    loot.Knows (.agreed (C.diffieHellman a (C.publicKey b))) ↔ loot.secret a ∨ loot.secret b := by
  constructor
  · intro h
    generalize hs : C.diffieHellman a (C.publicKey b) = s at h
    cases h with
    | agreed hc =>
      rcases hC.diffieHellman_free _ _ _ _ hs.symm with rfl | rfl
      · exact .inl hc
      · exact .inr hc
  · rintro (ha | hb)
    · exact .agreed ha
    · rw [hC.dh_comm]
      exact .agreed hb

theorem knows_encapsulated_iff (hC : C.Free) {k : C.EncapsulationKey} {r : Bytes 32} :
    loot.Knows (.encapsulated (C.encapsulate k r).2) ↔
      loot.coins r ∨ ∃ d, loot.decapsulation d ∧ C.encapsulationKey d = k := by
  constructor
  · intro h
    generalize hs : (C.encapsulate k r).2 = s at h
    cases h with
    | decapsulated hd => exact .inr ⟨_, hd, hC.decapsulate_free _ _ _ _ hs.symm⟩
    | encapsulated hr =>
      obtain rfl := hC.encapsulate_free _ _ _ _ hs
      exact .inl hr
  · rintro (hr | ⟨d, hd, rfl⟩)
    · exact .encapsulated hr
    · rw [← hC.decapsulate_encapsulate d r]
      exact .decapsulated hd

theorem knows_x3dhKdf_iff (hC : C.Free) {dh1 dh2 dh3 : C.Shared} {dh4 : Option C.Shared} :
    loot.Knows (.derived (x3dhKdf dh1 dh2 dh3 dh4)) ↔ loot.Knows (.agreed dh1) ∧
      loot.Knows (.agreed dh2) ∧ loot.Knows (.agreed dh3) ∧
      ∀ dh, dh4 = some dh → loot.Knows (.agreed dh) := by
  rw [x3dhKdf, knows_derived_iff hC]
  cases dh4 <;> simp [Loot.Knows.ones]

theorem knows_hybridKdf_iff (hC : C.Free) {k : C.Key} {s : C.PqShared} :
    loot.Knows (.derived (hybridKdf k s)) ↔
      loot.Knows (.derived k) ∧ loot.Knows (.encapsulated s) := by
  rw [hybridKdf, knows_derived_iff hC]
  simp

/-- The secret of a session takes a key of each of its agreements, and one of the
encapsulation: what is broken of one half alone does not give it away. -/
theorem knows_sharedSecret_iff (hC : C.Free)
    (hinit : Pqxdh.initiate sender (pool.currentBundle owner.pub) ephemeralSecret coins =
      .ok result) :
    loot.Knows (.derived result.sharedSecret) ↔
      ((loot.secret sender.agreement ∨ loot.secret pool.classical.signedPrekey.secret) ∧
        (loot.secret ephemeralSecret ∨ loot.secret owner.agreement) ∧
        (loot.secret ephemeralSecret ∨ loot.secret pool.classical.signedPrekey.secret) ∧
        ∀ held, pool.classical.currentOneTimePrekey = some held →
          loot.secret ephemeralSecret ∨ loot.secret held.secret) ∧
      (loot.coins coins ∨ ∃ d, loot.decapsulation d ∧
        C.encapsulationKey d = pool.pqPrekey.encapsulationKey) := by
  have hspk : (pool.currentBundle owner.pub).classical.signedPrekeyPublic =
      C.publicKey pool.classical.signedPrekey.secret := pool.classical.signedPrekey.derived
  have hdh4 : (∀ dh, (pool.currentBundle owner.pub).classical.oneTimePrekey.map
        (C.diffieHellman ephemeralSecret) = some dh → loot.Knows (.agreed dh)) ↔
      ∀ held, pool.classical.currentOneTimePrekey = some held →
        loot.secret ephemeralSecret ∨ loot.secret held.secret := by
    change (∀ dh, (pool.classical.currentOneTimePrekey.map OneTimePrekey.pub).map
      (C.diffieHellman ephemeralSecret) = some dh → loot.Knows (.agreed dh)) ↔ _
    cases pool.classical.currentOneTimePrekey with
    | none => simp
    | some held =>
      simp only [Option.map_some, Option.some.injEq, forall_eq', held.derived,
        knows_agreed_iff hC]
  rw [(initiate_eq_ok hinit).1, knows_hybridKdf_iff hC, knows_x3dhKdf_iff hC, hdh4, hspk,
    knows_agreed_iff hC, knows_agreed_iff hC, ← knows_encapsulated_iff hC]
  exact and_congr_left' (and_congr_right' (and_congr_left' (knows_agreed_iff hC)))

end Secrecy

section Theft

variable {C : PrekeySuite} {w : Word} {since : Nat} {lost : C.Secret → Prop} {a : C.Secret}
  {owner sender : Identity C} {pool pool' pool₀ : HybridPrekeyPool C} {d : Device C}
  {op : PoolOp C} {ephemeralSecret : C.Secret} {coins : Bytes 32}
  {result : HybridInitiatorResult C} {loot : Loot C}

def Holds (pool : HybridPrekeyPool C) (a : C.Secret) : Prop :=
  a = pool.classical.signedPrekey.secret ∨ ∃ held ∈ pool.classical.available, a = held.secret

/-- The pool is on the device, or can be restored there from a snapshot after the first
`since` of them. -/
inductive Found (w : Word) (since : Nat) (d : Device C) : HybridPrekeyPool C → Prop
  | live : Found w since d d.pool
  | stored {snapshot bytes pool} : snapshot + since < d.saved.length →
    d.saved[snapshot]? = some bytes → HybridPrekeyPool.fromBytes w bytes = .ok pool →
    Found w since d pool

def stolen (w : Word) (since : Nat) (owner : Identity C) (d : Device C) (loot : Loot C) :
    Loot C where
  secret a := loot.secret a ∨ a = owner.agreement ∨ ∃ pool, Found w since d pool ∧ Holds pool a
  decapsulation key := loot.decapsulation key ∨
    ∃ pool, Found w since d pool ∧ key = pool.pqPrekey.decapsulationKey
  coins := loot.coins

/-- The step generates none of these secrets, and goes back to no earlier snapshot. -/
def Onward (since : Nat) (lost : C.Secret → Prop) (d : Device C) : PoolOp C → Prop
  | .topUp secrets => ∀ a ∈ secrets, ¬ lost a
  | .rotateSignedPrekey _ secret => ¬ lost secret
  | .restore snapshot => snapshot + since < d.saved.length
  | .rotatePqPrekey _ _ | .respond _ _ | .persist => True

def GoesOnward (w : Word) (since : Nat) (lost : C.Secret → Prop) :
    Device C → List (PoolOp C) → Prop
  | _, [] => True
  | d, op :: later => Onward since lost d op ∧ GoesOnward w since lost (d.step w op) later

def Rid (w : Word) (since : Nat) (lost : C.Secret → Prop) (d : Device C) : Prop :=
  ∀ pool, Found w since d pool → ∀ a, lost a → ¬ Holds pool a

theorem holds_after_consumeUsed (used : Option C.Public)
    (h : Holds (Method.after ((consumeUsed used).run pool)) a) : Holds pool a := by
  cases used with
  | none => exact h
  | some otpk =>
    rw [consumeUsed_some, HybridPrekeyPool.consume, PrekeyPool.consume] at h
    cases hfind : pool.classical.available.find? (C.samePoint ·.pub otpk) with
    | none =>
      rw [hfind] at h
      exact h
    | some found =>
      rw [hfind] at h
      refine h.imp id ?_
      rintro ⟨held, hmem, ha⟩
      exact ⟨held, List.mem_of_mem_eraseP hmem, ha⟩

theorem holds_after_respond (owner : Identity C) (message : List UInt8)
    (h : Holds (Method.after ((FfiPrekey.respond owner message).run pool)) a) :
    Holds pool a := by
  rw [FfiPrekey.respond] at h
  cases hparse : (unpackInitiationMessage message : Parse MeshError _) with
  | error fault =>
    rw [hparse] at h
    cases fault <;> exact h
  | ok parsed =>
    rw [hparse] at h
    change Holds (Method.after
      ((consumeUsed parsed.usedOneTimePrekey >>= fun usedOtpk => _).run pool)) a at h
    rw [EStateM.run_bind] at h
    apply holds_after_consumeUsed parsed.usedOneTimePrekey
    cases hrun : (consumeUsed parsed.usedOneTimePrekey).run pool with
    | ok used pool' =>
      rw [hrun] at h
      exact h
    | error fault pool' =>
      rw [hrun] at h
      exact h

theorem Rid.setPool (h : Rid w since lost d) (hpool : ∀ a, lost a → ¬ Holds pool a) :
    Rid w since lost { d with pool := pool } := by
  intro found hfound
  cases hfound with
  | live => exact hpool
  | stored hlt hget hparse => exact h _ (.stored hlt hget hparse)

theorem Rid.step (hC : C.Lawful) (h : Rid w since lost d) (hop : Onward since lost d op) :
    Rid w since lost (d.step w op) := by
  have hlive := h d.pool .live
  cases op with
  | topUp secrets =>
    refine h.setPool fun a ha hholds => ?_
    rcases hholds with hspk | ⟨held, hmem, hheld⟩
    · exact hlive a ha (.inl hspk)
    · rcases List.mem_append.mp hmem with hmem | hmem
      · exact hlive a ha (.inr ⟨held, hmem, hheld⟩)
      · obtain ⟨secret, hsecret, rfl⟩ := List.mem_map.mp hmem
        obtain rfl : a = secret := hheld
        exact hop a hsecret ha
  | rotateSignedPrekey identity secret =>
    refine h.setPool fun a ha hholds => ?_
    rcases hholds with hspk | hheld
    · obtain rfl : a = secret := hspk
      exact hop ha
    · exact hlive a ha (.inr hheld)
  | rotatePqPrekey identity seed => exact h.setPool hlive
  | respond identity message =>
    exact h.setPool fun a ha hholds => hlive a ha (holds_after_respond _ _ hholds)
  | persist =>
    rw [Device.step]
    cases hbytes : d.pool.toBytes with
    | error e => exact h
    | ok bytes =>
      intro found hfound
      cases hfound with
      | live => exact hlive
      | @stored snapshot bytes' _ hlt hget hparse =>
        cases snapshot with
        | zero =>
          cases hget
          rw [HybridPrekeyPool.eq_of_fromBytes_toBytes hC hbytes hparse]
          exact hlive
        | succ snapshot =>
          rw [List.length_cons] at hlt
          exact h _ (.stored (by omega) hget hparse)
  | restore snapshot =>
    rw [Device.step]
    cases hget : d.saved[snapshot]? with
    | none => exact h
    | some bytes =>
      dsimp only
      cases hparse : HybridPrekeyPool.fromBytes w bytes with
      | error fault => exact h
      | ok pool => exact h.setPool (h _ (.stored hop hget hparse))

theorem Rid.run (hC : C.Lawful) {later : List (PoolOp C)} (h : Rid w since lost d)
    (hlater : GoesOnward w since lost d later) : Rid w since lost (d.run w later) := by
  induction later generalizing d with
  | nil => exact h
  | cons op later ih => exact ih (h.step hC hlater.1) hlater.2

theorem rid_of_live (h : ∀ a, lost a → ¬ Holds d.pool a) : Rid w d.saved.length lost d := by
  intro found hfound
  cases hfound with
  | live => exact h
  | stored hlt => omega

def Distinct (pool : HybridPrekeyPool C) : Prop :=
  (pool.classical.signedPrekey.secret ::
    pool.classical.available.map OneTimePrekey.secret).Nodup

theorem not_mem_eraseP_of_nodup {α β : Type} {f : α → β} {p : α → Bool} {l : List α} {x y : α}
    (hnodup : (l.map f).Nodup) (hfind : l.find? p = some x) (hy : y ∈ l.eraseP p) :
    f y ≠ f x := by
  obtain ⟨hp, l₁, l₂, rfl, hl₁⟩ := List.find?_eq_some_iff_append.mp hfind
  have hl₁' : ∀ z ∈ l₁, ¬ p z = true := fun z hz => by simpa using hl₁ z hz
  rw [List.eraseP_append_right _ hl₁', List.eraseP_cons_of_pos hp] at hy
  rw [List.map_append, List.map_cons] at hnodup
  have hnot := (List.nodup_middle.mp hnodup).notMem
  intro heq
  rw [← List.map_append, ← heq] at hnot
  exact hnot (List.mem_map_of_mem hy)

theorem not_holds_answered (hC : C.Free) {key : OneTimePrekey C}
    {session : Ratchet.DoubleRatchet C.toSuite}
    (hinit : Pqxdh.initiate sender (pool₀.currentBundle owner.pub) ephemeralSecret coins =
      .ok result)
    (hcurrent : pool₀.classical.currentOneTimePrekey = some key) (hdistinct : Distinct pool)
    (hanswer : (FfiPrekey.respond owner (packInitiationMessage sender.pub result)).run pool =
      .ok session pool') : ¬ Holds pool' key.secret := by
  have hnamed : result.usedOneTimePrekey = some key.pub := by
    rw [(initiate_eq_ok hinit).2.2.2]
    change pool₀.classical.currentOneTimePrekey.map OneTimePrekey.pub = _
    rw [hcurrent, Option.map_some]
  rw [respond_run hC.toLawful, hnamed, consumeUsed_some, HybridPrekeyPool.consume,
    PrekeyPool.consume] at hanswer
  cases hfind : pool.classical.available.find? (C.samePoint ·.pub key.pub) with
  | none =>
    rw [hfind] at hanswer
    cases hanswer
  | some found =>
    rw [hfind] at hanswer
    cases hanswer
    have hsame : C.samePoint found.pub key.pub = true := by simpa using List.find?_some hfind
    rw [found.derived, key.derived] at hsame
    obtain ⟨hspk, havailable⟩ := List.nodup_cons.mp hdistinct
    have hfound : found.secret = key.secret := hC.samePoint_free _ _ hsame
    rintro (hholds | ⟨held, hmem, hholds⟩)
    · have hkey : key.secret = pool.classical.signedPrekey.secret := hholds
      rw [← hkey, ← hfound] at hspk
      exact hspk (List.mem_map_of_mem (List.mem_of_find?_eq_some hfind))
    · rw [← hfound] at hholds
      exact not_mem_eraseP_of_nodup havailable hfind hmem hholds.symm

/-- The secrets that made a session and are not kept: the ephemeral one, and the one-time prekey
that the bundle named. -/
def Past (pool₀ : HybridPrekeyPool C) (ephemeralSecret a : C.Secret) : Prop :=
  a = ephemeralSecret ∨ ∃ key, pool₀.classical.currentOneTimePrekey = some key ∧ a = key.secret

theorem rid_answered (hC : C.Free) {session : Ratchet.DoubleRatchet C.toSuite}
    (hinit : Pqxdh.initiate sender (pool₀.currentBundle owner.pub) ephemeralSecret coins =
      .ok result) (hdistinct : Distinct d.pool)
    (hanswer : (FfiPrekey.respond owner (packInitiationMessage sender.pub result)).run d.pool =
      .ok session pool') (hephemeral : ¬ Holds d.pool ephemeralSecret) :
    Rid w d.saved.length (Past pool₀ ephemeralSecret) { d with pool := pool' } := by
  refine rid_of_live (d := { d with pool := pool' }) ?_
  rintro a (rfl | ⟨key, hcurrent, rfl⟩) hholds
  · refine hephemeral (holds_after_respond owner (packInitiationMessage sender.pub result) ?_)
    rw [hanswer]
    exact hholds
  · exact not_holds_answered hC hinit hcurrent hdistinct hanswer hholds

/-- Whoever takes the device after a message was answered, with all its keys and all that was
stored since, and may know the sender's keys and the PQ half too, gets at the secret of the
session exactly when the bundle named no one-time prekey and the keys it did name are there. -/
theorem theft_iff (hC : C.Free) (w : Word) (d : Device C) (later : List (PoolOp C))
    {session : Ratchet.DoubleRatchet C.toSuite}
    (hinit : Pqxdh.initiate sender (pool₀.currentBundle owner.pub) ephemeralSecret coins =
      .ok result) (hdistinct : Distinct d.pool)
    (hanswer : (FfiPrekey.respond owner (packInitiationMessage sender.pub result)).run d.pool =
      .ok session pool')
    (hlater : GoesOnward w d.saved.length (Past pool₀ ephemeralSecret) { d with pool := pool' }
      later) (hephemeral : ¬ Holds d.pool ephemeralSecret)
    (hpast : ∀ a, Past pool₀ ephemeralSecret a → a ≠ owner.agreement ∧ ¬ loot.secret a) :
    (stolen w d.saved.length owner (Device.run w { d with pool := pool' } later) loot).Knows
        (.derived result.sharedSecret) ↔
      pool₀.classical.currentOneTimePrekey = none ∧
      (stolen w d.saved.length owner (Device.run w { d with pool := pool' } later) loot).secret
        pool₀.classical.signedPrekey.secret ∧
      (loot.coins coins ∨ ∃ key,
        (stolen w d.saved.length owner (Device.run w { d with pool := pool' } later)
          loot).decapsulation key ∧ C.encapsulationKey key = pool₀.pqPrekey.encapsulationKey) := by
  have hrid := (rid_answered (w := w) hC hinit hdistinct hanswer hephemeral).run hC.toLawful hlater
  generalize Device.run w { d with pool := pool' } later = d' at hrid ⊢
  have hgone : ∀ a, Past pool₀ ephemeralSecret a →
      ¬ (stolen w d.saved.length owner d' loot).secret a := by
    rintro a ha (hloot | rfl | ⟨pool, hfound, hholds⟩)
    · exact (hpast a ha).2 hloot
    · exact (hpast _ ha).1 rfl
    · exact hrid pool hfound a ha hholds
  have howner : (stolen w d.saved.length owner d' loot).secret owner.agreement := .inr (.inl rfl)
  have heph := hgone ephemeralSecret (.inl rfl)
  rw [knows_sharedSecret_iff hC hinit]
  constructor
  · rintro ⟨⟨-, -, hspk, hotpk⟩, hpq⟩
    refine ⟨?_, hspk.resolve_left heph, hpq⟩
    cases hcurrent : pool₀.classical.currentOneTimePrekey with
    | none => rfl
    | some key =>
      have hkey := (hotpk key hcurrent).resolve_left heph
      exact absurd hkey (hgone key.secret (.inr ⟨key, hcurrent, rfl⟩))
  · rintro ⟨hnone, hspk, hpq⟩
    refine ⟨⟨.inr hspk, .inr howner, .inr hspk, fun held hheld => ?_⟩, hpq⟩
    rw [hnone] at hheld
    cases hheld

end Theft

section Free

inductive FreeKey : Type
  | derived (ikm : List (KeyPart (Sym2 (Bytes 32)) FreeKey (Bytes 64 × Bytes 1568)))
    (info : String)
  | ratchet (half : Bool) (salt : FreeKey) (shared : Sym2 (Bytes 32)) (info : String)
  | step (key : FreeKey) (byte : UInt8)

def freePrekeys : PrekeySuite :=
  { toyPrekeys with
    Key := FreeKey
    hkdf := fun salt shared info =>
      (.ratchet false salt shared info, .ratchet true salt shared info)
    hmac := .step
    encrypt := fun _ associatedData plaintext => some (associatedData, plaintext)
    decrypt := fun _ associatedData ct => if ct.1 = associatedData then some ct.2 else none
    hkdfSha256 := .derived }

theorem freePrekeys_free : freePrekeys.Free where
  dh_comm := toyPrekeys_ideal.dh_comm
  samePoint_refl := toyPrekeys_ideal.samePoint_refl
  samePoint_dh := toyPrekeys_ideal.samePoint_dh
  verifyingFromBytes_bytes := toyPrekeys_ideal.verifyingFromBytes_bytes
  verify_sign := toyPrekeys_ideal.verify_sign
  fromSeed_toSeed := toyPrekeys_ideal.fromSeed_toSeed
  toSeed_fromSeed := toyPrekeys_ideal.toSeed_fromSeed
  encapsulationFromBytes_bytes := toyPrekeys_ideal.encapsulationFromBytes_bytes
  decapsulate_encapsulate := toyPrekeys_ideal.decapsulate_encapsulate
  samePoint_free := fun (a b : Bytes 32) h => of_decide_eq_true (p := a = b) h
  diffieHellman_free a b c p h := by
    rcases Sym2.eq_iff.mp h with ⟨hca, -⟩ | ⟨hcb, -⟩
    · exact .inl hca
    · exact .inr hcb
  decapsulate_free d ct k r h := (Prod.mk.inj h).1
  encapsulate_free k r k' r' h := by
    have hpad := congrArg Subtype.val (Prod.mk.inj h).2
    exact Subtype.ext (List.append_inj_left hpad (r.2.trans r'.2.symm))
  hkdfSha256_free ikm info ikm' info' h := (FreeKey.derived.inj h).1
  hkdf_free salt shared info ikm info' := ⟨nofun, nofun⟩
  hmac_free k b ikm info := nofun

def freeIdentity (b : UInt8) : Identity freePrekeys := ⟨toyBytes 32 b, toyBytes 32 b⟩

def freeDevice : Device freePrekeys where
  pool := .new (freeIdentity 1) (toyBytes 32 2) [toyBytes 32 4] (toyBytes 64 3)
  saved := []

def quantumLoot : Loot freePrekeys where
  secret a := a = (freeIdentity 1).agreement ∨ a = (freeIdentity 7).agreement
  decapsulation _ := True
  coins _ := True

theorem toyBytes_ne {n : Nat} {b c : UInt8} (hn : 0 < n) (h : b ≠ c) :
    toyBytes n b ≠ toyBytes n c := by
  intro heq
  have hlist := congrArg Subtype.val heq
  exact h (List.replicate_inj.mp hlist |>.2.resolve_left (by omega))

theorem quantumLoot_secret {b : UInt8} (h : quantumLoot.secret (toyBytes 32 b)) :
    b = 1 ∨ b = 7 := by
  by_contra hb
  rw [not_or] at hb
  rcases h with h | h
  · exact toyBytes_ne (by decide) hb.1 h
  · exact toyBytes_ne (by decide) hb.2 h

theorem knows_sharedSecret_quantumLoot : ∃ result,
    Pqxdh.initiate (freeIdentity 7) (freeDevice.pool.currentBundle (freeIdentity 1).pub)
      (toyBytes 32 8) (toyBytes 32 9) = .ok result ∧
      ¬ quantumLoot.Knows (.derived result.sharedSecret) := by
  obtain ⟨result, hinit⟩ := initiate_new freePrekeys_free.toLawful (freeIdentity 1)
    (freeIdentity 7) (toyBytes 32 2) [toyBytes 32 4] (toyBytes 64 3) (toyBytes 32 8)
    (toyBytes 32 9)
  refine ⟨result, hinit, fun hknows => ?_⟩
  have hdh3 := ((knows_sharedSecret_iff freePrekeys_free hinit).mp hknows).1.2.2.1
  rcases hdh3 with h | h
  · exact absurd (quantumLoot_secret h) (by decide)
  · exact absurd (quantumLoot_secret h) (by decide)

theorem freeDevice_holds {b : UInt8} (h : Holds freeDevice.pool (toyBytes 32 b)) :
    b = 2 ∨ b = 4 := by
  by_contra hb
  rw [not_or] at hb
  rcases h with hspk | ⟨held, hmem, hheld⟩
  · exact toyBytes_ne (by decide) hb.1 hspk
  · obtain rfl := List.mem_singleton.mp hmem
    exact toyBytes_ne (by decide) hb.2 hheld

theorem theft_iff_freeDevice : ∃ result session pool',
    Pqxdh.initiate (freeIdentity 7) (freeDevice.pool.currentBundle (freeIdentity 1).pub)
        (toyBytes 32 8) (toyBytes 32 9) = .ok result ∧
      (FfiPrekey.respond (freeIdentity 1)
        (packInitiationMessage (freeIdentity 7).pub result)).run freeDevice.pool =
          .ok session pool' ∧
      ¬ (stolen .w32 0 (freeIdentity 1) (Device.run .w32 { freeDevice with pool := pool' }
        [.topUp [toyBytes 32 5], .persist]) quantumLoot).Knows (.derived result.sharedSecret) := by
  have hC := freePrekeys_free
  obtain ⟨result, hinit⟩ := initiate_new hC.toLawful (freeIdentity 1) (freeIdentity 7)
    (toyBytes 32 2) [toyBytes 32 4] (toyBytes 64 3) (toyBytes 32 8) (toyBytes 32 9)
  obtain ⟨pool', hanswer⟩ := respond_run_of_current hC.toLawful hinit ⟨rfl, rfl, rfl⟩
    (not_spent_currentBundle hC.toLawful freeDevice.pool (freeIdentity 1).pub)
  have hpast : ∀ {a}, Past freeDevice.pool (toyBytes 32 8) a →
      a = toyBytes 32 8 ∨ a = toyBytes 32 4 := by
    rintro a (rfl | ⟨key, hcurrent, rfl⟩)
    · exact .inl rfl
    · cases hcurrent
      exact .inr rfl
  refine ⟨result, _, pool', hinit, hanswer, fun hknows => ?_⟩
  have hcurrent := ((theft_iff hC .w32 freeDevice [.topUp [toyBytes 32 5], .persist]
    hinit ?_ hanswer ⟨?_, trivial, trivial⟩ ?_ ?_).mp hknows).1
  · cases hcurrent
  · exact List.nodup_cons.mpr ⟨fun hmem => toyBytes_ne (by decide) (by decide)
      (List.mem_singleton.mp hmem), List.nodup_singleton _⟩
  · rintro a hmem ha
    obtain rfl := List.mem_singleton.mp hmem
    rcases hpast ha with h | h
    · exact toyBytes_ne (by decide) (by decide) h
    · exact toyBytes_ne (by decide) (by decide) h
  · intro hholds
    exact absurd (freeDevice_holds hholds) (by decide)
  · intro a ha
    rcases hpast ha with rfl | rfl
    · exact ⟨toyBytes_ne (by decide) (by decide),
        fun h => absurd (quantumLoot_secret h) (by decide)⟩
    · exact ⟨toyBytes_ne (by decide) (by decide),
        fun h => absurd (quantumLoot_secret h) (by decide)⟩

end Free

end ProjectMesh.Crypto
