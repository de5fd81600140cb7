import Mathlib.Tactic.Cases
import ProjectMesh.Crypto.Ratchet

namespace ProjectMesh.Crypto.Ratchet

open ProjectMesh.Lib
open ProjectMesh.Crypto.Padding

variable {C : Suite}

def chainAt (chain : C.Key) : Nat → C.Key
  | 0 => chain
  | n + 1 => (kdfCk (chainAt chain n)).1

def messageKeyAt (chain : C.Key) (n : Nat) : C.Key := (kdfCk (chainAt chain n)).2

theorem chainAt_next (chain : C.Key) (n : Nat) :
    chainAt (kdfCk chain).1 n = chainAt chain (n + 1) := by
  induction n with
  | zero => rfl
  | succ n ih =>
    rw [chainAt, ih]
    rfl

theorem messageKeyAt_next (chain : C.Key) (n : Nat) :
    messageKeyAt (kdfCk chain).1 n = messageKeyAt chain (n + 1) := by
  rw [messageKeyAt, chainAt_next, messageKeyAt]

theorem chainAt_add (chain : C.Key) (m n : Nat) :
    chainAt (chainAt chain m) n = chainAt chain (m + n) := by
  induction n with
  | zero => rfl
  | succ n ih => rw [chainAt, ih, ← Nat.add_assoc, chainAt]

theorem messageKeyAt_add (chain : C.Key) (m n : Nat) :
    messageKeyAt (chainAt chain m) n = messageKeyAt chain (m + n) := by
  rw [messageKeyAt, chainAt_add, messageKeyAt]

def stash (remote : C.Public) (chain : C.Key) (start : Nat) :
    Nat → SkippedKeys C → SkippedKeys C
  | 0, m => m
  | k + 1, m => (stash remote chain start k m).insert (remote, start + k) (messageKeyAt chain k)

theorem stash_next (remote : C.Public) (chain : C.Key) (start k : Nat) (m : SkippedKeys C) :
    stash remote (kdfCk chain).1 (start + 1) k
        (m.insert (remote, start) (messageKeyAt chain 0)) =
      stash remote chain start (k + 1) m := by
  induction k with
  | zero => rfl
  | succ k ih =>
    rw [stash, ih, messageKeyAt_next, Nat.add_right_comm, Nat.add_assoc start k 1]
    rfl

theorem mem_stash {remote : C.Public} {chain : C.Key} {start k : Nat} {m : SkippedKeys C}
    {key : C.Public × Nat} :
    key ∈ stash remote chain start k m ↔
      (∃ j < k, key = (remote, start + j)) ∨ key ∈ m := by
  induction k with
  | zero => simp [stash]
  | succ k ih =>
    rw [stash, AList.mem_insert, ih]
    constructor
    · rintro (rfl | ⟨j, hj, rfl⟩ | h)
      · exact .inl ⟨k, by omega, rfl⟩
      · exact .inl ⟨j, by omega, rfl⟩
      · exact .inr h
    · rintro (⟨j, hj, rfl⟩ | h)
      · rcases Nat.lt_succ_iff_lt_or_eq.mp hj with hj | rfl
        · exact .inr (.inl ⟨j, hj, rfl⟩)
        · exact .inl rfl
      · exact .inr (.inr h)

theorem lookup_stash_of_ne {remote : C.Public} {chain : C.Key} {start k : Nat}
    {m : SkippedKeys C} {key : C.Public × Nat} (h : ∀ j < k, key ≠ (remote, start + j)) :
    (stash remote chain start k m).lookup key = m.lookup key := by
  induction k with
  | zero => rfl
  | succ k ih =>
    rw [stash, Assoc.lookup_insert_of_ne (h k (by omega))]
    exact ih fun j hj => h j (by omega)

theorem lookup_stash_of_lt {remote : C.Public} {chain : C.Key} {start k j : Nat}
    {m : SkippedKeys C} (h : j < k) :
    (stash remote chain start k m).lookup (remote, start + j) = some (messageKeyAt chain j) := by
  induction k with
  | zero => omega
  | succ k ih =>
    rw [stash]
    rcases Nat.lt_succ_iff_lt_or_eq.mp h with hj | rfl
    · rw [Assoc.lookup_insert_of_ne (by simp; omega), ih hj]
    · exact AList.lookup_insert _

theorem lookup_stash_cases {remote : C.Public} {chain mk : C.Key} {start k : Nat}
    {m : SkippedKeys C} {key : C.Public × Nat}
    (h : (stash remote chain start k m).lookup key = some mk) :
    (∃ j < k, key = (remote, start + j) ∧ mk = messageKeyAt chain j) ∨
      m.lookup key = some mk := by
  by_cases hnew : ∃ j < k, key = (remote, start + j)
  · obtain ⟨j, hj, rfl⟩ := hnew
    rw [lookup_stash_of_lt hj, Option.some.injEq] at h
    exact .inl ⟨j, hj, rfl, h.symm⟩
  · rw [lookup_stash_of_ne fun j hj heq => hnew ⟨j, hj, heq⟩] at h
    exact .inr h

theorem size_stash {remote : C.Public} {chain : C.Key} {start k : Nat} {m : SkippedKeys C}
    (h : ∀ j < k, (remote, start + j) ∉ m) :
    Assoc.size (stash remote chain start k m) = Assoc.size m + k := by
  induction k with
  | zero => rfl
  | succ k ih =>
    have hnew : (remote, start + k) ∉ stash remote chain start k m := by
      rw [mem_stash]
      rintro (⟨j, hj, heq⟩ | hmem)
      · simp at heq
        omega
      · exact h k (by omega) hmem
    rw [stash, Assoc.size_insert_of_notMem _ hnew, ih fun j hj => h j (by omega), Nat.add_assoc]

theorem size_stash_mono {remote : C.Public} {chain : C.Key} {start j k : Nat}
    {m n : SkippedKeys C} (hk : j ≤ k) (h : ∀ key, key ∈ m → key ∈ n) :
    Assoc.size (stash remote chain start j m) ≤ Assoc.size (stash remote chain start k n) := by
  apply Assoc.size_le_of_subset
  intro key hkey
  rw [mem_stash] at hkey ⊢
  rcases hkey with ⟨i, hi, rfl⟩ | hm
  · exact .inl ⟨i, by omega, rfl⟩
  · exact .inr (h key hm)

def DoubleRatchet.stashed (s : DoubleRatchet C) (remote : C.Public) (chain : C.Key)
    (k : Nat) : DoubleRatchet C :=
  { s with recvN := s.recvN + k, skipped := stash remote chain s.recvN k s.skipped }

/-- There is room for every key `k` rounds of the skip loop store. -/
def Room (s : DoubleRatchet C) (remote : C.Public) (chain : C.Key) (k : Nat) : Prop :=
  ∀ j < k, Assoc.size (stash remote chain s.recvN j s.skipped) < maxSkip

/-- Round `j` of the skip loop is the first that finds no room. -/
def FullAt (s : DoubleRatchet C) (remote : C.Public) (chain : C.Key) (j : Nat) : Prop :=
  Room s remote chain j ∧ maxSkip ≤ Assoc.size (stash remote chain s.recvN j s.skipped)

theorem room_or_fullAt (s : DoubleRatchet C) (remote : C.Public) (chain : C.Key) (k : Nat) :
    Room s remote chain k ∨ ∃ j < k, FullAt s remote chain j := by
  induction k with
  | zero => exact .inl fun j hj => absurd hj (by omega)
  | succ k ih =>
    rcases ih with hroom | ⟨j, hj, hfull⟩
    · by_cases hk : Assoc.size (stash remote chain s.recvN k s.skipped) < maxSkip
      · refine .inl fun j hj => ?_
        rcases Nat.lt_succ_iff_lt_or_eq.mp hj with hj | rfl
        · exact hroom j hj
        · exact hk
      · exact .inr ⟨k, by omega, hroom, by omega⟩
    · exact .inr ⟨j, by omega, hfull⟩

def tooMany : MeshError := .ratchet "too many skipped messages (bounded flood guard)"

def consumed : MeshError :=
  .ratchet "message key already consumed (replay or out-of-window)"

namespace DoubleRatchet

theorem storeSkipped_run (s : DoubleRatchet C) (key : C.Public × Nat) (mk : C.Key) :
    (storeSkipped key mk).run s =
      if maxSkip ≤ Assoc.size s.skipped then .error (.err tooMany) s
      else .ok () { s with skipped := s.skipped.insert key mk } := by
  simp only [storeSkipped, EStateM.run_bind, EStateM.run_get, ge_iff_le]
  split <;> rfl

theorem skip_succ_run {s : DoubleRatchet C} {remote : C.Public} {chain : C.Key} (k : Nat)
    (hroom : Assoc.size s.skipped < maxSkip) (hn : s.recvN + 1 < 2 ^ 32)
    (overflow : Overflow := .checked) :
    (skip remote (k + 1) chain overflow).run s =
      (skip remote k (kdfCk chain).1 overflow).run (s.stashed remote chain 1) := by
  simp only [skip, EStateM.run_bind, EStateM.run_get, storeSkipped_run,
    if_neg (Nat.not_le.mpr hroom), Method.run_succ32 hn, EStateM.run_modify]
  rfl

theorem skip_run_room {s : DoubleRatchet C} {remote : C.Public} {chain : C.Key} {k : Nat}
    (hn : 0 < k → s.recvN + k < 2 ^ 32) (hroom : Room s remote chain k)
    (overflow : Overflow := .checked) :
    (skip remote k chain overflow).run s =
      .ok (chainAt chain k) (s.stashed remote chain k) := by
  induction k generalizing s chain with
  | zero => rfl
  | succ k ih =>
    have hfirst : Assoc.size s.skipped < maxSkip := hroom 0 (by omega)
    rw [skip_succ_run k hfirst (by omega) overflow, ih]
    · simp only [stashed, stash_next, chainAt_next, stash, Nat.add_zero]
      simp only [Nat.add_assoc, Nat.add_comm 1 k]
    · intro _
      simp only [stashed]
      omega
    · intro j hj
      have := hroom (j + 1) (by omega)
      rwa [← stash_next] at this

theorem skip_run_full {s : DoubleRatchet C} {remote : C.Public} {chain : C.Key} {j k : Nat}
    (hn : s.recvN + k < 2 ^ 32) (hj : j < k) (hfull : FullAt s remote chain j)
    (overflow : Overflow := .checked) :
    (skip remote k chain overflow).run s =
      .error (.err tooMany) (s.stashed remote chain j) := by
  induction k generalizing s chain j with
  | zero => omega
  | succ k ih =>
    cases j with
    | zero =>
      have hno : maxSkip ≤ Assoc.size s.skipped := hfull.2
      simp only [skip, EStateM.run_bind, EStateM.run_get, storeSkipped_run, if_pos hno]
      rfl
    | succ j =>
      have hfirst : Assoc.size s.skipped < maxSkip := hfull.1 0 (by omega)
      rw [skip_succ_run k hfirst (by omega) overflow, ih (j := j)]
      · have hnext := stash_next remote chain s.recvN j s.skipped
        simp only [stashed, Nat.add_assoc, Nat.add_comm 1 j, ← hnext]
        rfl
      · simp only [stashed]
        omega
      · omega
      · constructor
        · intro i hi
          have := hfull.1 (i + 1) (by omega)
          rwa [← stash_next] at this
        · have := hfull.2
          rwa [← stash_next] at this

def without (s : DoubleRatchet C) (key : C.Public × Nat) : DoubleRatchet C :=
  { s with skipped := s.skipped.erase key }

def advanced (s : DoubleRatchet C) (remote : C.Public) (chain : C.Key) (n : Nat) :
    DoubleRatchet C :=
  { s.stashed remote chain (n - s.recvN) with
    recvChain := some (chainAt chain (n - s.recvN + 1))
    recvN := n + 1 }

/-- The session after the skip loop stopped for lack of room in round `j`: its
receiving chain was taken out and never put back. -/
def stranded (s : DoubleRatchet C) (remote : C.Public) (chain : C.Key) (j : Nat) :
    DoubleRatchet C :=
  { s.stashed remote chain j with recvChain := none }

inductive KeyOutcome (s : DoubleRatchet C) (n : Nat) :
    EStateM.Result (Fault MeshError) (DoubleRatchet C) C.Key → Prop
  | noRemote : s.dhRemote = none →
    KeyOutcome s n (.error (.err (.ratchet "no remote ratchet key established")) s)
  | stored {r mk} : s.dhRemote = some r → s.skipped.lookup (r, n) = some mk →
    KeyOutcome s n (.ok mk (s.without (r, n)))
  | consumed {r} : s.dhRemote = some r → s.skipped.lookup (r, n) = none → n < s.recvN →
    KeyOutcome s n (.error (.err consumed) s)
  | noChain {r} : s.dhRemote = some r → s.skipped.lookup (r, n) = none → s.recvN ≤ n →
    s.recvChain = none →
    KeyOutcome s n (.error (.err (.ratchet "no receiving chain established")) s)
  | advance {r chain} : s.dhRemote = some r → s.skipped.lookup (r, n) = none → s.recvN ≤ n →
    s.recvChain = some chain → n + 1 < 2 ^ 32 → Room s r chain (n - s.recvN) →
    KeyOutcome s n (.ok (messageKeyAt chain (n - s.recvN)) (s.advanced r chain n))
  | overflow {t : DoubleRatchet C} : n + 1 = 2 ^ 32 → KeyOutcome s n (.error .panic t)
  | full {r chain j} : s.dhRemote = some r → s.skipped.lookup (r, n) = none → s.recvN ≤ n →
    s.recvChain = some chain → j < n - s.recvN → FullAt s r chain j →
    KeyOutcome s n (.error (.err tooMany) (s.stranded r chain j))

section MessageKeyFor

variable {s : DoubleRatchet C} {r : C.Public} {chain mk : C.Key} {n j : Nat}

theorem messageKeyFor_noRemote (hr : s.dhRemote = none) :
    (messageKeyFor n).run s =
      .error (.err (.ratchet "no remote ratchet key established")) s := by
  simp only [messageKeyFor, EStateM.run_bind, EStateM.run_get, hr, Method.run_okOr_none]

theorem messageKeyFor_stored (hr : s.dhRemote = some r)
    (hl : s.skipped.lookup (r, n) = some mk) :
    (messageKeyFor n).run s = .ok mk (s.without (r, n)) := by
  simp only [messageKeyFor, EStateM.run_bind, EStateM.run_get, hr, Method.run_okOr_some, hl,
    EStateM.run_set, without]
  rfl

theorem messageKeyFor_consumed (hr : s.dhRemote = some r)
    (hl : s.skipped.lookup (r, n) = none) (hn : n < s.recvN) :
    (messageKeyFor n).run s = .error (.err consumed) s := by
  simp only [messageKeyFor, EStateM.run_bind, EStateM.run_get, hr, Method.run_okOr_some, hl,
    if_pos hn]
  rfl

theorem messageKeyFor_noChain (hr : s.dhRemote = some r)
    (hl : s.skipped.lookup (r, n) = none) (hn : s.recvN ≤ n) (hc : s.recvChain = none) :
    (messageKeyFor n).run s =
      .error (.err (.ratchet "no receiving chain established")) s := by
  simp only [messageKeyFor, EStateM.run_bind, EStateM.run_get, hr, Method.run_okOr_some, hl,
    if_neg (Nat.not_lt.mpr hn), EStateM.run_set, hc, Method.run_okOr_none]
  cases s
  simp_all

theorem messageKeyFor_chain (hr : s.dhRemote = some r)
    (hl : s.skipped.lookup (r, n) = none) (hn : s.recvN ≤ n) (hc : s.recvChain = some chain)
    (hu : n < 2 ^ 32) (hroom : Room s r chain (n - s.recvN))
    (overflow : Overflow := .checked) :
    (messageKeyFor n overflow).run s = (do
      let recvN ← Method.succ32 n overflow
      modify ({ · with recvN := recvN })
      return messageKeyAt chain (n - s.recvN) : RatchetM C C.Key).run
        { s.stashed r chain (n - s.recvN) with
          recvChain := some (chainAt chain (n - s.recvN + 1)) } := by
  have hskip := skip_run_room (s := { s with recvChain := none }) (k := n - s.recvN)
    (by simp only; omega) hroom overflow
  have hidx : s.recvN + (n - s.recvN) = n := by omega
  obtain ⟨_, _, _, _, _, _, _, _, _, _⟩ := s
  simp only at hr hc hidx
  subst hr hc
  simp only [messageKeyFor, EStateM.run_bind, EStateM.run_get, Method.run_okOr_some, hl,
    if_neg (Nat.not_lt.mpr hn), EStateM.run_set, hskip, EStateM.run_modify, stashed, hidx]
  by_cases hnext : n + 1 < 2 ^ 32
  · simp only [Method.run_succ32 hnext]
    rfl
  · cases overflow with
    | checked =>
      simp only [Method.run_succ32_panic hnext]
      rfl
    | wrapping =>
      simp only [Method.run_succ32_wraps hnext]
      rfl

theorem messageKeyFor_advance (hr : s.dhRemote = some r)
    (hl : s.skipped.lookup (r, n) = none) (hn : s.recvN ≤ n) (hc : s.recvChain = some chain)
    (hu : n + 1 < 2 ^ 32) (hroom : Room s r chain (n - s.recvN))
    (overflow : Overflow := .checked) :
    (messageKeyFor n overflow).run s =
      .ok (messageKeyAt chain (n - s.recvN)) (s.advanced r chain n) := by
  rw [messageKeyFor_chain hr hl hn hc (by omega) hroom overflow, EStateM.run_bind,
    Method.run_succ32 hu]
  rfl

/-- The chain is advanced, and only then does raising `recv_n` overflow. -/
theorem messageKeyFor_overflow (hr : s.dhRemote = some r)
    (hl : s.skipped.lookup (r, n) = none) (hn : s.recvN ≤ n) (hc : s.recvChain = some chain)
    (hu : n + 1 = 2 ^ 32) (hroom : Room s r chain (n - s.recvN)) :
    ∃ t, (messageKeyFor n).run s = .error .panic t := by
  rw [messageKeyFor_chain hr hl hn hc (by omega) hroom, EStateM.run_bind,
    Method.run_succ32_panic (Nat.not_lt.mpr (Nat.le_of_eq hu.symm))]
  exact ⟨_, rfl⟩

theorem messageKeyFor_full (hr : s.dhRemote = some r)
    (hl : s.skipped.lookup (r, n) = none) (hn : s.recvN ≤ n) (hc : s.recvChain = some chain)
    (hu : n < 2 ^ 32) (hj : j < n - s.recvN) (hfull : FullAt s r chain j)
    (overflow : Overflow := .checked) :
    (messageKeyFor n overflow).run s = .error (.err tooMany) (s.stranded r chain j) := by
  have hskip := skip_run_full (s := { s with recvChain := none }) (k := n - s.recvN)
    (by simp only; omega) hj hfull overflow
  obtain ⟨_, _, _, _, _, _, _, _, _, _⟩ := s
  simp only at hr hc
  subst hr hc
  simp only [messageKeyFor, EStateM.run_bind, EStateM.run_get, Method.run_okOr_some, hl,
    if_neg (Nat.not_lt.mpr hn), EStateM.run_set, hskip]
  rfl

theorem messageKeyFor_outcome (s : DoubleRatchet C) (hu : n < 2 ^ 32) :
    KeyOutcome s n ((messageKeyFor n).run s) := by
  cases hr : s.dhRemote with
  | none =>
    rw [messageKeyFor_noRemote hr]
    exact .noRemote hr
  | some r =>
    cases hl : s.skipped.lookup (r, n) with
    | some mk =>
      rw [messageKeyFor_stored hr hl]
      exact .stored hr hl
    | none =>
      by_cases hlt : n < s.recvN
      · rw [messageKeyFor_consumed hr hl hlt]
        exact .consumed hr hl hlt
      have hn : s.recvN ≤ n := Nat.not_lt.mp hlt
      cases hc : s.recvChain with
      | none =>
        rw [messageKeyFor_noChain hr hl hn hc]
        exact .noChain hr hl hn hc
      | some chain =>
        rcases room_or_fullAt s r chain (n - s.recvN) with hroom | ⟨j, hj, hfull⟩
        · by_cases hnext : n + 1 < 2 ^ 32
          · rw [messageKeyFor_advance hr hl hn hc hnext hroom]
            exact .advance hr hl hn hc hnext hroom
          · obtain ⟨t, ht⟩ := messageKeyFor_overflow hr hl hn hc (by omega) hroom
            rw [ht]
            exact .overflow (by omega)
        · rw [messageKeyFor_full hr hl hn hc hu hj hfull]
          exact .full hr hl hn hc hj hfull

def sendingHalf (s : DoubleRatchet C) :
    C.Secret × C.Public × Option C.Public × C.Key × Option C.Key × Nat × Nat :=
  (s.dhSelf, s.dhSelfPub, s.dhRemote, s.rootKey, s.sendChain, s.sendN, s.prevSendN)

theorem KeyOutcome.sendingHalf_ok {t : DoubleRatchet C} (h : KeyOutcome s n (.ok mk t)) :
    t.sendingHalf = s.sendingHalf := by
  cases h <;> rfl

theorem KeyOutcome.sendingHalf_error {t : DoubleRatchet C} {e : MeshError}
    (h : KeyOutcome s n (.error (.err e) t)) : t.sendingHalf = s.sendingHalf := by
  cases h <;> rfl

end MessageKeyFor

def turned (fresh : C.Secret) (remotePub : C.Public) (self : DoubleRatchet C) :
    DoubleRatchet C :=
  let received := kdfRk self.rootKey (C.diffieHellman self.dhSelf remotePub)
  let sent := kdfRk received.1 (C.diffieHellman fresh remotePub)
  { self with
    prevSendN := self.sendN
    sendN := 0
    recvN := 0
    dhRemote := some remotePub
    recvChain := some received.2
    dhSelf := fresh
    dhSelfPub := C.publicKey fresh
    rootKey := sent.1
    sendChain := some sent.2 }

section Turn

variable {s : DoubleRatchet C} {r : C.Public} {chain : C.Key} {j : Nat} (fresh : C.Secret)
  {header : Header C}

theorem turn_room (hc : s.recvChain = some chain) (hr : s.dhRemote = some r)
    (hroom : Room s r chain (header.pn.toNat - s.recvN)) :
    (turn fresh header).run s =
      .ok () ((s.stashed r chain (header.pn.toNat - s.recvN)).turned fresh header.dhPub) := by
  have hu := header.pn.toNat_lt
  have hskip := skip_run_room (s := { s with recvChain := none })
    (k := header.pn.toNat - s.recvN) (by simp only; omega) hroom
  obtain ⟨_, _, _, _, _, _, _, _, _, _⟩ := s
  simp only at hr hc
  subst hr hc
  simp only [turn, skipChain, EStateM.run_bind, EStateM.run_get, EStateM.run_set, hskip,
    EStateM.run_pure]
  rfl

theorem turn_full (hc : s.recvChain = some chain) (hr : s.dhRemote = some r)
    (hj : j < header.pn.toNat - s.recvN) (hfull : FullAt s r chain j) :
    (turn fresh header).run s = .error (.err tooMany) (s.stranded r chain j) := by
  have hu := header.pn.toNat_lt
  have hskip := skip_run_full (s := { s with recvChain := none })
    (k := header.pn.toNat - s.recvN) (by simp only; omega) hj hfull
  obtain ⟨_, _, _, _, _, _, _, _, _, _⟩ := s
  simp only at hr hc
  subst hr hc
  simp only [turn, skipChain, EStateM.run_bind, EStateM.run_get, EStateM.run_set, hskip]
  rfl

theorem turn_noChain (hc : s.recvChain = none) :
    (turn fresh header).run s = .ok () (s.turned fresh header.dhPub) := by
  simp only [turn, EStateM.run_bind, EStateM.run_get, EStateM.run_set, hc]
  rfl

theorem turn_noRemote (hr : s.dhRemote = none) :
    (turn fresh header).run s = .ok () (s.turned fresh header.dhPub) := by
  simp only [turn, EStateM.run_bind, EStateM.run_get, EStateM.run_set, hr]
  cases s.recvChain <;> rfl

theorem turn_cases (s : DoubleRatchet C) (fresh : C.Secret) (header : Header C) :
    (∃ u : DoubleRatchet C,
        (turn fresh header).run s = .ok () (u.turned fresh header.dhPub)) ∨
      ∃ r chain j, s.dhRemote = some r ∧ s.recvChain = some chain ∧
        j < header.pn.toNat - s.recvN ∧ FullAt s r chain j ∧
        (turn fresh header).run s = .error (.err tooMany) (s.stranded r chain j) := by
  cases hc : s.recvChain with
  | none => exact .inl ⟨s, turn_noChain fresh hc⟩
  | some chain =>
    cases hr : s.dhRemote with
    | none => exact .inl ⟨s, turn_noRemote fresh hr⟩
    | some r =>
      rcases room_or_fullAt s r chain (header.pn.toNat - s.recvN) with hroom | ⟨j, hj, hfull⟩
      · exact .inl ⟨_, turn_room fresh hc hr hroom⟩
      · exact .inr ⟨r, chain, j, rfl, rfl, hj, hfull, turn_full fresh hc hr hj hfull⟩

end Turn

end DoubleRatchet

def openMessage (mk : C.Key) (header : Header C) (ciphertext : C.Sealed) :
    Except MeshError (List UInt8) := do
  let padded ← aeadOpenOnce mk header.toBytes ciphertext
  unpad padded

def sealMessage (mk : C.Key) (header : Header C) (plaintext : List UInt8) :
    Except MeshError (Header C × C.Sealed) := do
  let padded ← padToBucket plaintext
  let ct ← aeadSealOnce mk header.toBytes padded
  return (header, ct)

section SealMessage

variable {mk : C.Key} {header header' : Header C} {plaintext : List UInt8} {ct : C.Sealed}

theorem sealMessage_eq_ok : sealMessage mk header plaintext = .ok (header', ct) ↔
    ∃ padded, padToBucket plaintext = .ok padded ∧
      C.encrypt mk header.toBytes padded = some ct ∧ header' = header := by
  rw [sealMessage]
  cases padToBucket plaintext with
  | error e => simp [bind, Except.bind]
  | ok padded =>
    cases hseal : C.encrypt mk header.toBytes padded with
    | none => simp [aeadSealOnce, hseal, bind, Except.bind]
    | some ct' =>
      simp [aeadSealOnce, hseal, bind, Except.bind, pure, Except.pure, eq_comm, and_comm]

theorem sealMessage_fits (hC : C.Lawful) (mk : C.Key) (header : Header C)
    (hlen : plaintext.length ≤ 65532) :
    ∃ ct, sealMessage mk header plaintext = .ok (header, ct) ∧
      openMessage mk header ct = .ok plaintext := by
  obtain ⟨padded, hpad, hplen, hunpad⟩ := unpad_padToBucket hlen
  obtain ⟨ct, hseal, hunseal⟩ := hC.decrypt_encrypt mk header.toBytes padded hplen
  refine ⟨ct, sealMessage_eq_ok.mpr ⟨padded, hpad, hseal, rfl⟩, ?_⟩
  simp only [openMessage, aeadOpenOnce, hunseal]
  exact hunpad

theorem sealMessage_tooLarge (mk : C.Key) (header : Header C)
    (hlen : 65532 < plaintext.length) : ∃ e, sealMessage mk header plaintext = .error e := by
  rw [sealMessage, padToBucket_of_lt hlen]
  exact ⟨_, rfl⟩

end SealMessage

def receive (header : Header C) (ciphertext : C.Sealed) (overflow : Overflow := .checked) :
    RatchetM C (List UInt8) := do
  let mk ← DoubleRatchet.messageKeyFor header.n.toNat overflow
  Method.ofExcept (openMessage mk header ciphertext)

theorem ofExcept_openMessage (mk : C.Key) (header : Header C) (ciphertext : C.Sealed)
    (s : DoubleRatchet C) :
    (do
      let padded ← Method.ofExcept (aeadOpenOnce mk header.toBytes ciphertext)
      Method.ofExcept (unpad padded) : RatchetM C (List UInt8)).run s =
      (Method.ofExcept (openMessage mk header ciphertext)).run s := by
  rw [openMessage]
  cases aeadOpenOnce mk header.toBytes ciphertext <;> rfl

theorem receive_run_error {header : Header C} {ciphertext : C.Sealed} {s t : DoubleRatchet C}
    {f : Fault MeshError} {overflow : Overflow}
    (h : (DoubleRatchet.messageKeyFor header.n.toNat overflow).run s = .error f t) :
    (receive header ciphertext overflow).run s = .error f t := by
  rw [receive, EStateM.run_bind, h]

theorem receive_run_ok {header : Header C} {ciphertext : C.Sealed} {s t : DoubleRatchet C}
    {mk : C.Key} {overflow : Overflow}
    (h : (DoubleRatchet.messageKeyFor header.n.toNat overflow).run s = .ok mk t) :
    (receive header ciphertext overflow).run s =
      (Method.ofExcept (openMessage mk header ciphertext)).run t := by
  rw [receive, EStateM.run_bind, h]

namespace DoubleRatchet

theorem decrypt_sameRemote {s : DoubleRatchet C} {header : Header C}
    (h : s.hasRemote header.dhPub = true) (fresh : C.Secret) (ciphertext : C.Sealed)
    (overflow : Overflow := .checked) :
    (decrypt fresh header ciphertext overflow).run s =
      (receive header ciphertext overflow).run s := by
  simp only [decrypt, EStateM.run_bind, EStateM.run_get, h, receive, Bool.not_true,
    Bool.false_eq_true, if_false]
  cases (messageKeyFor header.n.toNat overflow).run s with
  | ok mk t => exact ofExcept_openMessage mk header ciphertext t
  | error f t => rfl

theorem decrypt_newRemote {s : DoubleRatchet C} {header : Header C}
    (h : s.hasRemote header.dhPub = false) (fresh : C.Secret) (ciphertext : C.Sealed) :
    (decrypt fresh header ciphertext).run s =
      (turn fresh header >>= fun _ => receive header ciphertext).run s := by
  simp only [decrypt, EStateM.run_bind, EStateM.run_get, h, receive, Bool.not_false, if_true]
  cases (turn fresh header).run s with
  | ok u t =>
    cases hk : (messageKeyFor header.n.toNat).run t with
    | ok mk t' =>
      simp only [hk]
      exact ofExcept_openMessage mk header ciphertext t'
    | error f t' => simp only [hk]
  | error f t => rfl

theorem encrypt_noChain {s : DoubleRatchet C} {overflow : Overflow} (h : s.sendChain = none)
    (plaintext : List UInt8) :
    (encrypt plaintext overflow).run s = .error (.err (.ratchet
      "no sending chain yet (waiting on first inbound message)")) s := by
  simp only [encrypt, EStateM.run_bind, EStateM.run_get, h, Method.run_okOr_none]

def nextHeader (s : DoubleRatchet C) : Header C :=
  { dhPub := s.dhSelfPub, pn := .ofNat s.prevSendN, n := .ofNat s.sendN }

theorem encrypt_overflow {s : DoubleRatchet C} {chain : C.Key} (h : s.sendChain = some chain)
    (hn : ¬ s.sendN + 1 < 2 ^ 32) (plaintext : List UInt8) :
    ∃ t, (encrypt plaintext).run s = .error .panic t := by
  simp only [encrypt, EStateM.run_bind, EStateM.run_get, h, Method.run_okOr_some,
    EStateM.run_set, Method.run_succ32_panic hn]
  exact ⟨_, rfl⟩

/-- The chain moves on before the padding and the sealing get a chance to fail. -/
theorem encrypt_run {s : DoubleRatchet C} {chain : C.Key} {overflow : Overflow} {m : Nat}
    (h : s.sendChain = some chain)
    (hsucc : ∀ t : DoubleRatchet C, (Method.succ32 s.sendN overflow : RatchetM C Nat).run t =
      .ok m t) (plaintext : List UInt8) :
    (encrypt plaintext overflow).run s =
      (Method.ofExcept (sealMessage (kdfCk chain).2 s.nextHeader plaintext)).run
        { s with sendChain := some (kdfCk chain).1, sendN := m } := by
  simp only [encrypt, EStateM.run_bind, EStateM.run_get, h, Method.run_okOr_some,
    EStateM.run_set, hsucc, sealMessage]
  cases padToBucket plaintext with
  | error e => rfl
  | ok padded =>
    simp only [Method.run_ofExcept_ok, nextHeader]
    cases hseal : aeadSealOnce (kdfCk chain).2
      (Header.toBytes ⟨s.dhSelfPub, .ofNat s.prevSendN, .ofNat s.sendN⟩) padded with
    | error e =>
      simp only [bind, Except.bind, hseal]
      rfl
    | ok ct =>
      simp only [bind, Except.bind, hseal]
      rfl

def sentOn (s : DoubleRatchet C) (chain : C.Key) : DoubleRatchet C :=
  { s with sendChain := some (kdfCk chain).1, sendN := s.sendN + 1 }

section Encrypt

variable {s t : DoubleRatchet C} {chain : C.Key} {plaintext : List UInt8} {header : Header C}
  {ct : C.Sealed}

theorem encrypt_chain (h : s.sendChain = some chain) (hn : s.sendN + 1 < 2 ^ 32)
    (plaintext : List UInt8) (overflow : Overflow := .checked) :
    (encrypt plaintext overflow).run s =
      (Method.ofExcept (sealMessage (kdfCk chain).2 s.nextHeader plaintext)).run
        (s.sentOn chain) :=
  encrypt_run h (fun t => Method.run_succ32 hn t) plaintext

theorem encrypt_chain_cases (h : s.sendChain = some chain) (plaintext : List UInt8)
    (overflow : Overflow) :
    (overflow = .checked ∧ 2 ^ 32 ≤ s.sendN + 1 ∧
        ∃ t, (encrypt plaintext overflow).run s = .error .panic t) ∨
      (overflow = .checked → s.sendN + 1 < 2 ^ 32) ∧
        ∃ n, n ≠ s.sendN ∧ (encrypt plaintext overflow).run s =
          (Method.ofExcept (sealMessage (kdfCk chain).2 s.nextHeader plaintext)).run
            { s with sendChain := some (kdfCk chain).1, sendN := n } := by
  by_cases hn : s.sendN + 1 < 2 ^ 32
  · exact .inr ⟨fun _ => hn, _, Nat.succ_ne_self _, encrypt_chain h hn plaintext overflow⟩
  · cases overflow with
    | checked => exact .inl ⟨rfl, Nat.not_lt.mp hn, encrypt_overflow h hn plaintext⟩
    | wrapping =>
      refine .inr ⟨fun hchecked => absurd hchecked (by decide), 0, by omega, ?_⟩
      exact encrypt_run h (fun t => Method.run_succ32_wraps hn t) plaintext

theorem encrypt_sealed {overflow : Overflow}
    (h : (encrypt plaintext overflow).run s = .ok (header, ct) t) :
    ∃ chain padded, s.sendChain = some chain ∧
      (overflow = .checked → s.sendN + 1 < 2 ^ 32) ∧ padToBucket plaintext = .ok padded ∧
      C.encrypt (kdfCk chain).2 s.nextHeader.toBytes padded = some ct ∧ header = s.nextHeader := by
  cases hchain : s.sendChain with
  | none =>
    rw [encrypt_noChain hchain] at h
    cases h
  | some chain =>
    rcases encrypt_chain_cases hchain plaintext overflow with ⟨-, -, u, hpanic⟩ | ⟨hn, n, -, hrun⟩
    · cases h.symm.trans hpanic
    · rw [hrun] at h
      cases hsealed : sealMessage (kdfCk chain).2 s.nextHeader plaintext with
      | error err =>
        rw [hsealed] at h
        cases h
      | ok message =>
        rw [hsealed] at h
        cases h
        obtain ⟨padded, hpad, hseal, rfl⟩ := sealMessage_eq_ok.mp hsealed
        exact ⟨chain, padded, rfl, hn, hpad, hseal, rfl⟩

theorem encrypt_cases (h : (encrypt plaintext).run s = .ok (header, ct) t) :
    ∃ chain padded, s.sendChain = some chain ∧ s.sendN + 1 < 2 ^ 32 ∧
      padToBucket plaintext = .ok padded ∧
      C.encrypt (kdfCk chain).2 s.nextHeader.toBytes padded = some ct ∧
      header = s.nextHeader ∧ t = s.sentOn chain := by
  obtain ⟨chain, padded, hchain, hn, hpad, hseal, hheader⟩ := encrypt_sealed h
  refine ⟨chain, padded, hchain, hn rfl, hpad, hseal, hheader, ?_⟩
  rw [encrypt_chain hchain (hn rfl), sealMessage_eq_ok.mpr ⟨padded, hpad, hseal, rfl⟩] at h
  cases h
  rfl

/-- The sending chain moves on however the call ends, and nothing else but the counter changes. -/
theorem after_encrypt (plaintext : List UInt8) (s : DoubleRatchet C)
    (overflow : Overflow := .checked) :
    ∃ n, Method.after ((encrypt plaintext overflow).run s) =
      { s with sendChain := s.sendChain.map fun chain => (kdfCk chain).1, sendN := n } := by
  cases hchain : s.sendChain with
  | none =>
    rw [encrypt_noChain hchain]
    refine ⟨s.sendN, ?_⟩
    rw [Option.map_none, ← hchain]
    rfl
  | some chain =>
    by_cases hn : s.sendN + 1 < 2 ^ 32
    · rw [encrypt_chain hchain hn plaintext overflow, Method.after_ofExcept]
      exact ⟨_, rfl⟩
    · cases overflow with
      | checked =>
        simp only [encrypt, EStateM.run_bind, EStateM.run_get, hchain, Method.run_okOr_some,
          EStateM.run_set, Method.run_succ32_panic hn]
        exact ⟨_, rfl⟩
      | wrapping =>
        rw [encrypt_run hchain (fun t => Method.run_succ32_wraps hn t) plaintext,
          Method.after_ofExcept]
        exact ⟨_, rfl⟩

theorem encrypt_fits (hC : C.Lawful) (hc : s.sendChain = some chain)
    (hn : s.sendN + 1 < 2 ^ 32) (hlen : plaintext.length ≤ 65532)
    (overflow : Overflow := .checked) :
    ∃ ct, (encrypt plaintext overflow).run s = .ok (s.nextHeader, ct) (s.sentOn chain) ∧
      openMessage (kdfCk chain).2 s.nextHeader ct = .ok plaintext := by
  obtain ⟨ct, hsealed, hopen⟩ := sealMessage_fits hC (kdfCk chain).2 s.nextHeader hlen
  refine ⟨ct, ?_, hopen⟩
  rw [encrypt_chain hc hn plaintext overflow, hsealed, Method.run_ofExcept_ok]

theorem encrypt_tooLarge (hc : s.sendChain = some chain) (hn : s.sendN + 1 < 2 ^ 32)
    (hlen : 65532 < plaintext.length) (overflow : Overflow := .checked) :
    ∃ e, (encrypt plaintext overflow).run s = .error (.err e) (s.sentOn chain) := by
  obtain ⟨e, hrefused⟩ := sealMessage_tooLarge (kdfCk chain).2 s.nextHeader hlen
  refine ⟨e, ?_⟩
  rw [encrypt_chain hc hn plaintext overflow, hrefused, Method.run_ofExcept_error]

end Encrypt

end DoubleRatchet

end ProjectMesh.Crypto.Ratchet
