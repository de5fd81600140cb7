import ProjectMesh.Crypto.RatchetBuilds
import ProjectMesh.Lib.Counted

namespace ProjectMesh.Crypto.Ratchet

open ProjectMesh.Lib
open ProjectMesh.Lib.Method (Triple)
open ProjectMesh.Lib.Counted (Counts free charge counts_free counts_pure triple_free
  triple_charge)
open ProjectMesh.Crypto.Padding
open ProjectMesh.Crypto.Symbolic (toySuite)

variable {C : Suite}

abbrev CountedM (C : Suite) := Method MeshError (Counted (DoubleRatchet C))

namespace Charged

def kdfCk (chainKey : C.Key) : CountedM C (C.Key × C.Key) := do
  charge
  return Ratchet.kdfCk chainKey

def skip (overflow : Overflow) (remoteBytes : C.Public) : Nat → C.Key → CountedM C C.Key
  | 0, chain => pure chain
  | k + 1, chain => do
    let (newChain, messageKey) ← Charged.kdfCk chain
    let self ← free get
    free (DoubleRatchet.storeSkipped (remoteBytes, self.recvN) messageKey)
    let recvN ← free (Method.succ32 self.recvN overflow)
    free (modify ({ · with recvN := recvN }))
    Charged.skip overflow remoteBytes k newChain

def skipChain (overflow : Overflow) (chain : C.Key) (remoteBytes : C.Public) (upto : Nat) :
    CountedM C Unit := do
  let self ← free get
  let _ ← Charged.skip overflow remoteBytes (upto - self.recvN) chain
  return ()

def messageKeyFor (overflow : Overflow) (n : Nat) : CountedM C C.Key := do
  let self ← free get
  let remoteBytes ← free (Method.okOr self.dhRemote
    (.ratchet "no remote ratchet key established"))
  match self.skipped.lookup (remoteBytes, n) with
  | some messageKey =>
    free (set { self with skipped := self.skipped.erase (remoteBytes, n) })
    return messageKey
  | none =>
    if n < self.recvN then
      free (Method.fail (.ratchet "message key already consumed (replay or out-of-window)"))
    else
      free (set { self with recvChain := none })
      let chain ← free (Method.okOr self.recvChain
        (.ratchet "no receiving chain established"))
      let chain ← Charged.skip overflow remoteBytes (n - self.recvN) chain
      let (newChain, messageKey) ← Charged.kdfCk chain
      free (modify ({ · with recvChain := some newChain }))
      let self ← free get
      let recvN ← free (Method.succ32 self.recvN overflow)
      free (set { self with recvN := recvN })
      return messageKey

def turn (overflow : Overflow) (fresh : C.Secret) (header : Header C) : CountedM C Unit := do
  let self ← free get
  free (set { self with recvChain := none })
  match self.recvChain, self.dhRemote with
  | some chain, some oldRemote => Charged.skipChain overflow chain oldRemote header.pn.toNat
  | _, _ => pure ()
  free (DoubleRatchet.dhRatchet fresh header.dhPub)

def decrypt (overflow : Overflow) (fresh : C.Secret) (header : Header C)
    (ciphertext : C.Sealed) : CountedM C (List UInt8) := do
  let self ← free get
  if !self.hasRemote header.dhPub then
    Charged.turn overflow fresh header
  let messageKey ← Charged.messageKeyFor overflow header.n.toNat
  let padded ← free (Method.ofExcept (aeadOpenOnce messageKey header.toBytes ciphertext))
  free (Method.ofExcept (unpad padded))

section Counts

variable (overflow : Overflow)

theorem counts_skip (remote : C.Public) (k : Nat) (chain : C.Key) :
    Counts (Charged.skip overflow remote k chain)
      (DoubleRatchet.skip remote k chain overflow) := by
  induction k generalizing chain with
  | zero => exact counts_pure _
  | succ k ih =>
    refine .charged <| (counts_free get).bind fun self => ?_
    refine (counts_free _).bind fun _ => (counts_free _).bind fun _ => ?_
    exact (counts_free _).bind fun _ => ih _

theorem counts_skipChain (chain : C.Key) (remote : C.Public) (upto : Nat) :
    Counts (Charged.skipChain overflow chain remote upto)
      (DoubleRatchet.skipChain chain remote upto overflow) :=
  (counts_free get).bind fun _ => (counts_skip _ _ _ _).bind fun _ => counts_pure _

theorem counts_messageKeyFor (n : Nat) :
    Counts (Charged.messageKeyFor overflow n)
      (DoubleRatchet.messageKeyFor n overflow : RatchetM C C.Key) := by
  refine (counts_free get).bind fun self => (counts_free _).bind fun remote => ?_
  cases self.skipped.lookup (remote, n) with
  | some messageKey => exact (counts_free _).bind fun _ => counts_pure _
  | none =>
    by_cases hn : n < self.recvN
    · rw [if_pos hn, if_pos hn]
      exact counts_free _
    · rw [if_neg hn, if_neg hn]
      refine (counts_free _).bind fun _ => (counts_free _).bind fun chain => ?_
      refine (counts_skip _ _ _ _).bind fun chain' => .charged ?_
      refine (counts_free _).bind fun _ => (counts_free get).bind fun self' => ?_
      exact (counts_free _).bind fun _ => (counts_free _).bind fun _ => counts_pure _

theorem counts_turn (fresh : C.Secret) (header : Header C) :
    Counts (Charged.turn overflow fresh header) (DoubleRatchet.turn fresh header overflow) := by
  refine (counts_free get).bind fun self => (counts_free _).bind fun _ => ?_
  cases self.recvChain with
  | none => exact counts_free _
  | some chain =>
    cases self.dhRemote with
    | none => exact counts_free _
    | some oldRemote => exact (counts_skipChain _ _ _ _).bind fun _ => counts_free _

theorem counts_decrypt (fresh : C.Secret) (header : Header C) (ct : C.Sealed) :
    Counts (Charged.decrypt overflow fresh header ct)
      (DoubleRatchet.decrypt fresh header ct overflow) := by
  refine (counts_free get).bind fun self => ?_
  cases self.hasRemote header.dhPub with
  | true =>
    refine (counts_messageKeyFor _ _).bind fun _ => ?_
    exact (counts_free _).bind fun _ => counts_free _
  | false =>
    refine (counts_turn _ _ _).bind fun _ => (counts_messageKeyFor _ _).bind fun _ => ?_
    exact (counts_free _).bind fun _ => counts_free _

end Counts

section Work

variable (c : Nat) {overflow : Overflow}

/-- A session that holds no more keys than allowed, after at most `c` calls to `kdf_ck`. -/
def Within (s : Counted (DoubleRatchet C)) : Prop :=
  s.count ≤ c ∧ Assoc.size s.state.skipped ≤ maxSkip

/-- A session after `j` rounds of a skip loop.  The keys they stored are distinct and all
there, even those that took the place of an older one. -/
structure Passed (remote : C.Public) (start j : Nat) (s : Counted (DoubleRatchet C)) : Prop where
  count : s.count ≤ c + j
  recvN : s.state.recvN = start + j
  stored : ∀ i < j, (remote, start + i) ∈ s.state.skipped
  bounded : Assoc.size s.state.skipped ≤ maxSkip

variable {c} {remote : C.Public} {start j : Nat} {s : Counted (DoubleRatchet C)}

theorem Within.mono {d : Nat} (h : Within c s) (hle : c ≤ d) : Within d s :=
  ⟨h.1.trans hle, h.2⟩

theorem Passed.le_maxSkip (h : Passed c remote start j s) : j ≤ maxSkip := by
  have hsize : Assoc.size (stash remote s.state.rootKey start j ∅) = j := by
    rw [size_stash fun i _ => AList.notMem_empty _, Assoc.size_empty, Nat.zero_add]
  have hle : Assoc.size (stash remote s.state.rootKey start j ∅) ≤
      Assoc.size s.state.skipped := by
    apply Assoc.size_le_of_subset
    intro key hkey
    rcases mem_stash.mp hkey with ⟨i, hi, rfl⟩ | hkey
    · exact h.stored i hi
    · exact absurd hkey (AList.notMem_empty key)
  rw [hsize] at hle
  exact hle.trans h.bounded

theorem Passed.store (messageKey : C.Key) :
    Triple (Passed (c + 1) remote start j)
      (free (DoubleRatchet.storeSkipped (remote, start + j) messageKey))
      (fun _ s => Passed c remote start (j + 1)
        { s with state := { s.state with recvN := start + (j + 1) } })
      (Within (c + maxSkip + 1)) := by
  refine triple_free fun count s hs => ?_
  have hcount : count ≤ c + 1 + j := hs.count
  rw [DoubleRatchet.storeSkipped_run]
  by_cases hfull : maxSkip ≤ Assoc.size s.skipped
  · rw [if_pos hfull]
    have hle := hs.le_maxSkip
    refine ⟨?_, hs.bounded⟩
    simp only
    omega
  · rw [if_neg hfull]
    refine ⟨?_, rfl, fun i hi => ?_, ?_⟩
    · simp only
      omega
    · rcases Nat.lt_succ_iff_lt_or_eq.mp hi with hi | rfl
      · exact (AList.mem_insert _).mpr (.inr (hs.stored i hi))
      · exact (AList.mem_insert _).mpr (.inl rfl)
    · exact (Assoc.size_insert_le _ _ _).trans (Nat.lt_of_not_le hfull)

theorem Passed.within (h : Passed c remote start j s) : Within (c + maxSkip) s :=
  ⟨h.count.trans (Nat.add_le_add_left h.le_maxSkip c), h.bounded⟩

/-- However long a skip loop is asked to run, it stops after `maxSkip` rounds and one call. -/
theorem Passed.skip (k : Nat) (chain : C.Key) (hk : 0 < k → start + j + k < 2 ^ 32) :
    Triple (Passed c remote start j) (Charged.skip overflow remote k chain)
      (fun _ => Within (c + maxSkip)) (Within (c + maxSkip + 1)) := by
  induction k generalizing j chain with
  | zero => exact Triple.pure fun s hs => hs.within
  | succ k ih =>
    refine Triple.bind (Q := fun _ => Passed (c + 1) remote start j) ?_ fun keys => ?_
    · refine Triple.bind (triple_charge fun s hs => ?_) fun _ => Triple.pure fun _ hs => hs
      have hcount := hs.count
      exact ⟨by simp only; omega, hs.recvN, hs.stored, hs.bounded⟩
    refine Triple.bind (Q := fun self s => self.recvN = start + j ∧
      Passed (c + 1) remote start j s) ?_ fun self => ?_
    · exact triple_free fun _ => Triple.get fun _ hs => ⟨hs.recvN, hs⟩
    rintro s ⟨hself, hs⟩
    rw [hself]
    have hlt := hk (Nat.succ_pos k)
    refine Triple.bind (Passed.store keys.2) (fun _ => ?_) s hs
    refine Triple.bind (Q := fun recvN s => Passed c remote start (j + 1)
      { s with state := { s.state with recvN := recvN } }) ?_ fun recvN => ?_
    · exact triple_free fun count => Triple.succ32_of_lt (by omega) fun s hs => hs
    · exact Triple.bind (triple_free fun count => Triple.modify fun s hs => hs) fun _ =>
        ih keys.1 fun _ => by omega

def At (c recvN : Nat) (s : Counted (DoubleRatchet C)) : Prop :=
  Within c s ∧ s.state.recvN = recvN

theorem skip_within (remote : C.Public) (upto recvN : Nat) (chain : C.Key)
    (hupto : upto < 2 ^ 32) :
    Triple (At c recvN) (Charged.skip overflow remote (upto - recvN) chain)
      (fun _ => Within (c + maxSkip)) (Within (c + maxSkip + 1)) := by
  rintro s ⟨hs, rfl⟩
  have hpassed : Passed c remote s.state.recvN 0 s :=
    ⟨hs.1, rfl, fun i hi => absurd hi (Nat.not_lt_zero i), hs.2⟩
  exact Passed.skip _ chain (fun _ => by omega) s hpassed

theorem kdfCk_within (chain : C.Key) {E : Counted (DoubleRatchet C) → Prop} :
    Triple (Within c) (Charged.kdfCk chain) (fun _ => Within (c + 1)) E :=
  Triple.bind (triple_charge fun _ hs => ⟨Nat.succ_le_succ hs.1, hs.2⟩) fun _ =>
    Triple.pure fun _ hs => hs

theorem get_within {E : Counted (DoubleRatchet C) → Prop} :
    Triple (Within c) (free get : CountedM C (DoubleRatchet C))
      (fun self s => Assoc.size self.skipped ≤ maxSkip ∧ At c self.recvN s) E :=
  triple_free fun _ => Triple.get fun _ hs => ⟨hs.2, hs, rfl⟩

theorem set_within {self : DoubleRatchet C} {recvN : Nat} {E : Counted (DoubleRatchet C) → Prop}
    (hself : Assoc.size self.skipped ≤ maxSkip) :
    Triple (At c recvN) (free (set self) : CountedM C PUnit) (fun _ => At c self.recvN) E :=
  triple_free fun _ => Triple.set fun _ hs => ⟨⟨hs.1.1, hself⟩, rfl⟩

theorem okOr_at {α : Type} {o : Option α} {e : MeshError} {recvN : Nat} :
    Triple (At c recvN) (free (Method.okOr o e) : CountedM C α) (fun _ => At c recvN)
      (Within c) :=
  triple_free fun _ => Triple.okOr (fun _ _ _ hs => hs) fun _ hs => hs.1

theorem ofExcept_within {α : Type} {r : Except MeshError α} :
    Triple (Within c) (free (Method.ofExcept r) : CountedM C α) (fun _ => Within c) (Within c) :=
  triple_free fun _ => Triple.ofExcept (fun _ _ _ hs => hs) fun _ hs => hs

theorem messageKeyFor_within {n : Nat} (hn : n < 2 ^ 32) :
    Triple (Within c) (Charged.messageKeyFor overflow n : CountedM C C.Key)
      (fun _ => Within (c + maxSkip + 1)) (Within (c + maxSkip + 1)) := by
  have hle : c ≤ c + maxSkip + 1 := by omega
  refine Triple.bind get_within fun self => fun s hs => ?_
  obtain ⟨hself, hs⟩ := hs
  refine Triple.bind (okOr_at.mono (fun _ h => h) (fun _ _ h => h) fun _ h => h.mono hle)
    (fun remote => ?_) s hs
  cases self.skipped.lookup (remote, n) with
  | some messageKey =>
    refine Triple.bind (set_within ((Assoc.size_erase_le _ _).trans hself)) fun _ => ?_
    exact Triple.pure fun _ hs => hs.1.mono hle
  | none =>
    by_cases hlt : n < self.recvN
    · rw [if_pos hlt]
      exact triple_free fun _ => Triple.fail fun _ hs => hs.1.mono hle
    · rw [if_neg hlt]
      refine Triple.bind (set_within hself) fun _ => ?_
      refine Triple.bind (okOr_at.mono (fun _ h => h) (fun _ _ h => h)
        fun _ h => h.mono hle) fun chain => ?_
      refine Triple.bind (skip_within remote n self.recvN chain hn) fun chain' => ?_
      refine Triple.bind (kdfCk_within chain') fun keys => ?_
      refine Triple.bind (Q := fun _ => Within (c + maxSkip + 1))
        (triple_free fun _ => Triple.modify fun _ hs => hs) fun _ => ?_
      refine Triple.bind get_within fun self' => fun s' hs' => ?_
      obtain ⟨hself', hs'⟩ := hs'
      refine Triple.bind (Q := fun _ => At (c + maxSkip + 1) self'.recvN)
        (triple_free fun _ => Triple.succ32 (fun _ _ hs => hs) fun _ hs => hs.1) (fun recvN => ?_)
        s' hs'
      exact Triple.bind (set_within hself') fun _ => Triple.pure fun _ hs => hs.1

theorem turn_within (fresh : C.Secret) (header : Header C) :
    Triple (Within c) (Charged.turn overflow fresh header) (fun _ => Within (c + maxSkip))
      (Within (c + maxSkip + 1)) := by
  have hturn : Triple (Within (c + maxSkip)) (free (DoubleRatchet.dhRatchet fresh header.dhPub))
      (fun _ => Within (c + maxSkip)) (Within (c + maxSkip + 1)) :=
    triple_free fun _ => Triple.modify fun _ hs => hs
  refine Triple.bind get_within fun self => fun s hs => ?_
  obtain ⟨hself, hs⟩ := hs
  have hset : Triple (At c self.recvN)
      (free (set { self with recvChain := none }) : CountedM C PUnit)
      (fun _ => At c self.recvN) (Within (c + maxSkip + 1)) := set_within hself
  have hnone : Triple (At c self.recvN) (free (DoubleRatchet.dhRatchet fresh header.dhPub))
      (fun _ => Within (c + maxSkip)) (Within (c + maxSkip + 1)) :=
    hturn.mono (fun _ hs => hs.1.mono (Nat.le_add_right c _)) (fun _ _ hs => hs) fun _ hs => hs
  refine Triple.bind hset (fun _ => ?_) s hs
  cases self.recvChain with
  | none => exact hnone
  | some chain =>
    cases self.dhRemote with
    | none => exact hnone
    | some oldRemote =>
      refine Triple.bind ?_ fun _ => hturn
      refine Triple.bind (Q := fun self' => At c self'.recvN)
        (triple_free fun _ => Triple.get fun _ hs => ⟨hs.1, rfl⟩) fun self' => ?_
      exact Triple.bind (skip_within _ _ _ _ header.pn.toNat_lt) fun _ =>
        Triple.pure fun _ hs => hs

theorem decrypt_within (overflow : Overflow) (fresh : C.Secret) (header : Header C)
    (ct : C.Sealed) :
    Triple (Within c) (Charged.decrypt overflow fresh header ct)
      (fun _ => Within (c + 2 * maxSkip + 1))
      (Within (c + 2 * maxSkip + 1)) := by
  have hkey : Triple (Within (c + maxSkip)) (do
      let messageKey ← Charged.messageKeyFor overflow header.n.toNat
      let padded ← free (Method.ofExcept (aeadOpenOnce messageKey header.toBytes ct))
      free (Method.ofExcept (unpad padded)))
      (fun _ => Within (c + 2 * maxSkip + 1)) (Within (c + 2 * maxSkip + 1)) := by
    rw [Nat.two_mul, ← Nat.add_assoc c]
    refine Triple.bind (messageKeyFor_within header.n.toNat_lt) fun messageKey => ?_
    exact Triple.bind ofExcept_within fun padded => ofExcept_within
  refine Triple.bind get_within fun self => ?_
  cases self.hasRemote header.dhPub with
  | true =>
    exact hkey.mono (fun _ hs => hs.2.1.mono (Nat.le_add_right c _)) (fun _ _ hs => hs)
      fun _ hs => hs
  | false =>
    refine Triple.bind ((turn_within fresh header).mono (fun _ hs => hs.2.1) (fun _ _ hs => hs)
      fun _ hs => hs.mono ?_) fun _ => hkey
    omega

end Work

end Charged

section Reachable

variable {s t : DoubleRatchet C} {messageKey : C.Key} {n : Nat} {overflow : Overflow}

theorem encrypt_bounded (plaintext : List UInt8) :
    Triple (fun s : DoubleRatchet C => Assoc.size s.skipped ≤ maxSkip)
      (DoubleRatchet.encrypt plaintext overflow) (fun _ s => Assoc.size s.skipped ≤ maxSkip)
      (fun s => Assoc.size s.skipped ≤ maxSkip) := by
  apply Triple.of_after
  intro s hs
  obtain ⟨n, hafter⟩ := DoubleRatchet.after_encrypt plaintext s overflow
  rw [hafter]
  exact hs

theorem decrypt_bounded (fresh : C.Secret) (header : Header C) (ct : C.Sealed) :
    Triple (fun s : DoubleRatchet C => Assoc.size s.skipped ≤ maxSkip)
      (DoubleRatchet.decrypt fresh header ct overflow)
      (fun _ s => Assoc.size s.skipped ≤ maxSkip) (fun s => Assoc.size s.skipped ≤ maxSkip) := by
  intro s hs
  have hwithin := Charged.decrypt_within overflow (c := 0) fresh header ct ⟨s, 0⟩
    ⟨Nat.le_refl 0, hs⟩
  rw [← Charged.counts_decrypt overflow fresh header ct ⟨s, 0⟩]
  cases hrun : (Charged.decrypt overflow fresh header ct).run ⟨s, 0⟩ with
  | ok plaintext t =>
    rw [hrun] at hwithin
    exact hwithin.2
  | error f t =>
    rw [hrun] at hwithin
    exact hwithin.2

theorem Reachable.bounded (h : Reachable overflow s) : Assoc.size s.skipped ≤ maxSkip := by
  induction h with
  | initiator => exact Nat.zero_le _
  | responder => exact Nat.zero_le _
  | call c h ih =>
    cases c with
    | encrypt plaintext =>
      rw [after_perform_encrypt plaintext _ overflow]
      exact (encrypt_bounded plaintext).after ih
    | decrypt fresh header ct =>
      rw [after_perform_decrypt fresh header ct _ overflow]
      exact (decrypt_bounded fresh header ct).after ih

/-- A skip loop counts up to a `u32`, so its counter does not overflow. -/
theorem skip_noPanic (s : DoubleRatchet C) (remote : C.Public) (chain : C.Key)
    (upto : UInt32) :
    (DoubleRatchet.skip remote (upto.toNat - s.recvN) chain).run s ≠ .error .panic t := by
  have hlt := upto.toNat_lt
  rcases room_or_fullAt s remote chain (upto.toNat - s.recvN) with hroom | ⟨j, hj, hfull⟩
  · rw [DoubleRatchet.skip_run_room (fun _ => by omega) hroom]
    simp
  · rw [DoubleRatchet.skip_run_full (by omega) hj hfull]
    simp

theorem skip_sameLoop (overflow : Overflow) (s : DoubleRatchet C) (remote : C.Public)
    (chain : C.Key) (upto : UInt32) :
    (DoubleRatchet.skip remote (upto.toNat - s.recvN) chain overflow).run s =
      (DoubleRatchet.skip remote (upto.toNat - s.recvN) chain).run s := by
  rcases upToPanic_skip overflow remote _ chain s with ⟨t, hpanic⟩ | hsame
  · exact absurd hpanic (skip_noPanic s remote chain upto)
  · exact hsame

theorem receive_panic {header : Header C} {ct : C.Sealed}
    (h : (receive header ct).run s = .error .panic t) : header.n.toNat + 1 = 2 ^ 32 := by
  have hkey := DoubleRatchet.messageKeyFor_outcome s header.n.toNat_lt
  cases hrun : (DoubleRatchet.messageKeyFor header.n.toNat).run s with
  | ok messageKey u =>
    rw [receive_run_ok hrun] at h
    cases hopen : openMessage messageKey header ct with
    | ok plaintext => simp [hopen] at h
    | error e => simp [hopen] at h
  | error f u =>
    rw [receive_run_error hrun] at h
    cases h
    rw [hrun] at hkey
    cases hkey with
    | overflow hn => exact hn

/-- `decrypt` overflows only in the step of `recv_n` after the loops, at the last index. -/
theorem decrypt_panic {fresh : C.Secret} {header : Header C} {ct : C.Sealed}
    (h : (DoubleRatchet.decrypt fresh header ct).run s = .error .panic t) :
    header.n.toNat + 1 = 2 ^ 32 := by
  cases hr : s.hasRemote header.dhPub with
  | true =>
    rw [DoubleRatchet.decrypt_sameRemote hr] at h
    exact receive_panic h
  | false =>
    rw [DoubleRatchet.decrypt_newRemote hr, EStateM.run_bind] at h
    rcases DoubleRatchet.turn_cases s fresh header with ⟨u, hu⟩ | ⟨r, chain, j, -, -, -, -, hu⟩
    · rw [hu] at h
      exact receive_panic h
    · rw [hu] at h
      cases h

/-- Whatever frames a session is given, it never holds more than `maxSkip` keys, and a call to
`decrypt` applies `kdf_ck` at most `2 * maxSkip + 1` times and returns, with no overflow in its
loops.  Only overflow checks can make it panic, after the loops and at the last index. -/
theorem skip_bounded (h : Reachable overflow s) :
    Assoc.size s.skipped ≤ maxSkip ∧
      (∀ fresh header ct,
        Counted.erased ((Charged.decrypt overflow fresh header ct).run ⟨s, 0⟩) =
            (DoubleRatchet.decrypt fresh header ct overflow).run s ∧
          (Method.after ((Charged.decrypt overflow fresh header ct).run ⟨s, 0⟩)).count ≤
            2 * maxSkip + 1 ∧
          ∀ t, (DoubleRatchet.decrypt fresh header ct overflow).run s = .error .panic t →
            overflow = .checked ∧ header.n.toNat + 1 = 2 ^ 32) ∧
      ∀ (t : DoubleRatchet C) remote chain (upto : UInt32) t',
        (DoubleRatchet.skip remote (upto.toNat - t.recvN) chain).run t ≠ .error .panic t' ∧
          (DoubleRatchet.skip remote (upto.toNat - t.recvN) chain overflow).run t =
            (DoubleRatchet.skip remote (upto.toNat - t.recvN) chain).run t := by
  refine ⟨h.bounded, fun fresh header ct => ?_, fun t remote chain upto t' =>
    ⟨skip_noPanic t remote chain upto, skip_sameLoop overflow t remote chain upto⟩⟩
  refine ⟨Charged.counts_decrypt overflow fresh header ct ⟨s, 0⟩, ?_, fun t hpanic => ?_⟩
  · have hwithin := (Charged.decrypt_within overflow fresh header ct).after
      (s := ⟨s, 0⟩) ⟨Nat.le_refl 0, h.bounded⟩
    have hcount := hwithin.1
    rw [Nat.zero_add] at hcount
    exact hcount
  · cases overflow with
    | checked => exact ⟨rfl, decrypt_panic hpanic⟩
    | wrapping => exact absurd hpanic (returns_decrypt fresh header ct s t)

def jump : Call toySuite :=
  .decrypt (2 : Nat) ⟨toySuite.publicKey (0 : Nat), 7, 5⟩ (.bytes [])

def flooded : DoubleRatchet toySuite :=
  Method.after ((jump.perform .wrapping).run (.initResponder (.protocol "") (1 : Nat)))

def farAhead : Header toySuite := ⟨toySuite.publicKey (4 : Nat), 4294967295, 4294967295⟩

theorem skip_bounded_flooded :
    Assoc.size flooded.skipped = 5 ∧
      (Method.after ((Charged.decrypt .wrapping (5 : Nat) farAhead (.bytes [])).run
        ⟨flooded, 0⟩)).count ≤ 2 * maxSkip + 1 ∧
      ∀ t, (DoubleRatchet.decrypt (5 : Nat) farAhead (.bytes []) .wrapping).run flooded ≠
        .error .panic t := by
  have h := skip_bounded (s := flooded) (.call jump
    (.responder (C := toySuite) (.protocol "") (1 : Nat)))
  obtain ⟨-, hcount, hpanic⟩ := h.2.1 (5 : Nat) farAhead (.bytes [])
  refine ⟨by decide +kernel, hcount, fun t ht => ?_⟩
  cases (hpanic t ht).1

end Reachable

end ProjectMesh.Crypto.Ratchet
