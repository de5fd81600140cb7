import ProjectMesh.Crypto.RatchetBuilds

namespace ProjectMesh.Crypto.Ratchet

open ProjectMesh.Lib
open ProjectMesh.Crypto.Symbolic (toySuite)

variable {C : Suite}

namespace DoubleRatchet

/-- No plaintext is refused once a key was taken for it: there is no chain to take one from,
or it fits a bucket, or the counter is at its end in a build with overflow checks, where the
call does not return. -/
def Costless (overflow : Overflow) (s : DoubleRatchet C) (plaintext : List UInt8) : Prop :=
  s.sendChain = none ∨ plaintext.length ≤ 65532 ∨ overflow = .checked ∧ 2 ^ 32 ≤ s.sendN + 1

variable {s : DoubleRatchet C} {plaintext : List UInt8} {overflow : Overflow}

theorem Costless.unchanged (hC : C.Lawful) (h : s.Costless overflow plaintext) {e : MeshError}
    {t : DoubleRatchet C} (hrun : (encrypt plaintext overflow).run s = .error (.err e) t) :
    t = s := by
  cases hc : s.sendChain with
  | none =>
    rw [encrypt_noChain hc] at hrun
    cases hrun
    rfl
  | some chain =>
    rcases encrypt_chain_cases hc plaintext overflow with ⟨-, -, u, hpanic⟩ | ⟨hn, n, -, hseal⟩
    · cases hpanic.symm.trans hrun
    · rcases h with hnone | hlen | ⟨hchecked, hend⟩
      · rw [hc] at hnone
        cases hnone
      · obtain ⟨ct, hok, -⟩ := sealMessage_fits hC (kdfCk chain).2 s.nextHeader hlen
        rw [hseal, hok] at hrun
        cases hrun
      · exact absurd (hn hchecked) (Nat.not_lt.mpr hend)

theorem unchanged_iff (hC : C.Lawful) :
    (∀ e t, (encrypt plaintext overflow).run s = .error (.err e) t → t = s) ↔
      s.Costless overflow plaintext := by
  refine ⟨fun h => ?_, fun h _ _ => h.unchanged hC⟩
  by_contra hcost
  rw [Costless, not_or, not_or, Nat.not_le] at hcost
  obtain ⟨hnone, hlen, hn⟩ := hcost
  obtain ⟨chain, hc⟩ := Option.ne_none_iff_exists'.mp hnone
  obtain ⟨e, hrefused⟩ := sealMessage_tooLarge (kdfCk chain).2 s.nextHeader hlen
  rcases encrypt_chain_cases hc plaintext overflow with ⟨hchecked, hend, -⟩ | ⟨-, n, hne, hrun⟩
  · exact hn ⟨hchecked, hend⟩
  · rw [hrefused, Method.run_ofExcept_error] at hrun
    exact hne (congrArg DoubleRatchet.sendN (h e _ hrun))

end DoubleRatchet

section Runs

variable (overflow : Overflow)

def failedEncrypt : Call C × Except (Fault MeshError) (Reply C) → Bool
  | (.encrypt _, .error (.err _)) => true
  | (.encrypt _, .error .panic) | (.encrypt _, .ok _) | (.decrypt _ _ _, _) => false

/-- The calls of a run but for those to `encrypt` that failed. -/
def kept (s : DoubleRatchet C) (cs : List (Call C)) :
    List (Call C × Except (Fault MeshError) (Reply C)) :=
  (trace overflow s cs).filter fun x => !failedEncrypt x

def Call.Costless (s : DoubleRatchet C) : Call C → Prop
  | .encrypt plaintext => s.Costless overflow plaintext
  | .decrypt _ _ _ => True

def CostlessRun : DoubleRatchet C → List (Call C) → Prop
  | _, [] => True
  | s, c :: cs =>
    c.Costless overflow s ∧ CostlessRun (Method.after ((c.perform overflow).run s)) cs

variable {overflow} {s : DoubleRatchet C} {c : Call C} {cs : List (Call C)}

theorem Call.Costless.unchanged (hC : C.Lawful) (h : c.Costless overflow s)
    (hfail : failedEncrypt (c, Method.seen ((c.perform overflow).run s)) = true) :
    Method.after ((c.perform overflow).run s) = s := by
  cases c with
  | decrypt fresh header ct => exact absurd hfail Bool.false_ne_true
  | encrypt plaintext =>
    rw [after_perform_encrypt plaintext s overflow]
    cases hrun : (DoubleRatchet.encrypt plaintext overflow).run s with
    | ok a t =>
      simp only [Call.perform, EStateM.run_bind, hrun] at hfail
      exact absurd hfail Bool.false_ne_true
    | error f t =>
      cases f with
      | err e => exact DoubleRatchet.Costless.unchanged hC h hrun
      | panic =>
        simp only [Call.perform, EStateM.run_bind, hrun] at hfail
        exact absurd hfail Bool.false_ne_true

theorem kept_cons_of_failed
    (h : failedEncrypt (c, Method.seen ((c.perform overflow).run s)) = true) :
    kept overflow s (c :: cs) =
      kept overflow (Method.after ((c.perform overflow).run s)) cs := by
  rw [kept, trace, List.filter_cons_of_neg (by rw [h]; decide), kept]

theorem kept_cons (h : failedEncrypt (c, Method.seen ((c.perform overflow).run s)) = false) :
    kept overflow s (c :: cs) = (c, Method.seen ((c.perform overflow).run s)) ::
      kept overflow (Method.after ((c.perform overflow).run s)) cs := by
  rw [kept, trace, List.filter_cons_of_pos (by rw [h]; decide), kept]

/-- A run without its failed calls to `encrypt`: the other calls end as they did, so the
messages that go out are the same, and so is the session. -/
theorem CostlessRun.erase (hC : C.Lawful) (h : CostlessRun overflow s cs) :
    trace overflow s ((kept overflow s cs).map Prod.fst) = kept overflow s cs ∧
      ends overflow s ((kept overflow s cs).map Prod.fst) = ends overflow s cs := by
  induction cs generalizing s with
  | nil => exact ⟨rfl, rfl⟩
  | cons c cs ih =>
    obtain ⟨hc, hcs⟩ := h
    cases hfail : failedEncrypt (c, Method.seen ((c.perform overflow).run s)) with
    | true =>
      have hsame := hc.unchanged hC hfail
      rw [hsame] at hcs
      have hends : ends overflow s (c :: cs) = ends overflow s cs :=
        congrArg (ends overflow · cs) hsame
      rw [kept_cons_of_failed hfail, hsame, hends]
      exact ih hcs
    | false =>
      obtain ⟨htrace, hends⟩ := ih hcs
      rw [kept_cons hfail]
      exact ⟨congrArg ((c, Method.seen ((c.perform overflow).run s)) :: ·) htrace, hends⟩

end Runs

namespace DoubleRatchet

def spent (s : DoubleRatchet C) (chain : C.Key) (k : Nat) : DoubleRatchet C :=
  { s with sendChain := some (chainAt chain k), sendN := s.sendN + k }

structure UpToDate (s r : DoubleRatchet C) (chain : C.Key) : Prop where
  sendChain : s.sendChain = some chain
  recvChain : r.recvChain = some chain
  dhRemote : r.dhRemote = some s.dhSelfPub
  recvN : r.recvN = s.sendN
  ahead : ∀ i, (s.dhSelfPub, s.sendN + i) ∉ r.skipped

variable {s r : DoubleRatchet C} {chain : C.Key} {plaintext : List UInt8}
  {refused : List (List UInt8)} {k : Nat} {overflow : Overflow}

theorem ends_refused (hc : s.sendChain = some chain)
    (hn : s.sendN + refused.length < 2 ^ 32) (hlarge : ∀ p ∈ refused, 65532 < p.length) :
    ends overflow s (refused.map .encrypt) = s.spent chain refused.length := by
  induction refused generalizing s chain with
  | nil =>
    cases s
    cases hc
    rfl
  | cons p refused ih =>
    rw [List.forall_mem_cons] at hlarge
    rw [List.length_cons] at hn
    obtain ⟨e, hrun⟩ := encrypt_tooLarge hc (by omega) hlarge.1 overflow
    have hafter :
        Method.after (((Call.encrypt p).perform overflow).run s) = s.sentOn chain := by
      rw [after_perform_encrypt p s overflow, hrun, Method.after_error]
    have hchain : (s.sentOn chain).sendChain = some (kdfCk chain).1 := rfl
    have hnext := ih hchain (by simp only [sentOn]; omega) hlarge.2
    rw [List.map_cons, ends, List.foldl_cons, hafter, ← ends, hnext, spent, chainAt_next]
    simp only [sentOn, spent, List.length_cons, Nat.add_assoc, Nat.add_comm 1]

theorem UpToDate.room_iff (h : UpToDate s r chain) :
    Room r s.dhSelfPub chain k ↔ k = 0 ∨ Assoc.size r.skipped + k ≤ maxSkip := by
  have hsize : ∀ j, Assoc.size (stash s.dhSelfPub chain r.recvN j r.skipped) =
      Assoc.size r.skipped + j := fun j => size_stash fun i _ => h.recvN ▸ h.ahead i
  simp only [Room, hsize]
  constructor
  · intro hroom
    rcases Nat.eq_zero_or_pos k with hzero | hpos
    · exact .inl hzero
    · have := hroom (k - 1) (by omega)
      exact .inr (by omega)
  · rintro hk j hj
    omega

/-- Each refused plaintext is one more key the other side has to store before the next
message, and without room for them all that message is lost. -/
theorem UpToDate.decrypt_iff (hC : C.Lawful) (h : UpToDate s r chain)
    (hn : s.sendN + refused.length + 1 < 2 ^ 32) (hlarge : ∀ p ∈ refused, 65532 < p.length)
    (hfits : plaintext.length ≤ 65532) :
    ∃ header ct s', (encrypt plaintext overflow).run (ends overflow s (refused.map .encrypt)) =
        .ok (header, ct) s' ∧
      ∀ fresh, (∃ t, (decrypt fresh header ct overflow).run r = .ok plaintext t) ↔
        refused = [] ∨ Assoc.size r.skipped + refused.length ≤ maxSkip := by
  rw [ends_refused h.sendChain (by omega) hlarge]
  obtain ⟨ct, hrun, hopen⟩ :=
    encrypt_fits (s := s.spent chain refused.length) hC rfl hn hfits overflow
  refine ⟨_, ct, _, hrun, fun fresh => ?_⟩
  have hindex : (s.spent chain refused.length).nextHeader.n.toNat = s.sendN + refused.length :=
    UInt32.toNat_ofNat_of_lt' (Nat.lt_of_succ_lt hn)
  have hrem : r.hasRemote (s.spent chain refused.length).nextHeader.dhPub = true := by
    rw [hasRemote, h.dhRemote]
    exact hC.samePoint_refl _
  have hnone : r.skipped.lookup (s.dhSelfPub, s.sendN + refused.length) = none :=
    AList.lookup_eq_none.mpr (h.ahead _)
  have hrecv := h.recvN
  have hgap : s.sendN + refused.length - r.recvN = refused.length := by omega
  rw [decrypt_sameRemote hrem fresh ct overflow, ← List.length_eq_zero_iff, ← h.room_iff]
  constructor
  · rintro ⟨t, ht⟩
    rcases room_or_fullAt r s.dhSelfPub chain refused.length with hroom | ⟨j, hj, hfull⟩
    · exact hroom
    · have hkey := messageKeyFor_full h.dhRemote hnone (by omega) h.recvChain (by omega)
        (hgap.symm ▸ hj) hfull overflow
      rw [receive_run_error (hindex.symm ▸ hkey)] at ht
      cases ht
  · intro hroom
    have hkey := messageKeyFor_advance h.dhRemote hnone (by omega) h.recvChain (by omega)
      (hgap.symm ▸ hroom) overflow
    rw [hgap] at hkey
    rw [← hindex] at hkey
    rw [receive_run_ok hkey]
    exact ⟨_, congrArg (fun result => (Method.ofExcept result : RatchetM C _).run _) hopen⟩

end DoubleRatchet

/-- A failed `encrypt` leaves the session as it was exactly when no key was taken.  Where that
is so in a whole run, the failed calls could as well not have been made; elsewhere each is a
key the other side has to skip. -/
theorem failed_encrypt_unchanged_iff (hC : C.Lawful) (overflow : Overflow) :
    (∀ (s : DoubleRatchet C) plaintext,
      (∀ e t, (DoubleRatchet.encrypt plaintext overflow).run s = .error (.err e) t → t = s) ↔
        s.Costless overflow plaintext) ∧
      (∀ (s : DoubleRatchet C) cs, CostlessRun overflow s cs →
        trace overflow s ((kept overflow s cs).map Prod.fst) = kept overflow s cs ∧
          ends overflow s ((kept overflow s cs).map Prod.fst) = ends overflow s cs) ∧
      ∀ (s r : DoubleRatchet C) chain refused plaintext, s.UpToDate r chain →
        s.sendN + refused.length + 1 < 2 ^ 32 → (∀ p ∈ refused, 65532 < p.length) →
        plaintext.length ≤ 65532 →
        ∃ header ct s', (DoubleRatchet.encrypt plaintext overflow).run
            (ends overflow s (refused.map .encrypt)) = .ok (header, ct) s' ∧
          ∀ fresh, (∃ t, (DoubleRatchet.decrypt fresh header ct overflow).run r =
              .ok plaintext t) ↔
            refused = [] ∨ Assoc.size r.skipped + refused.length ≤ maxSkip :=
  ⟨fun _ _ => DoubleRatchet.unchanged_iff hC, fun _ _ h => h.erase hC,
    fun _ _ _ _ _ h hn hlarge hfits => h.decrypt_iff hC hn hlarge hfits⟩

def wordyInitiator : DoubleRatchet toySuite :=
  .initInitiator (0 : Nat) (.protocol "") (toySuite.publicKey (1 : Nat))

def caughtUpResponder : DoubleRatchet toySuite :=
  { DoubleRatchet.initResponder (C := toySuite) (.protocol "") (1 : Nat) with
    dhRemote := some wordyInitiator.dhSelfPub
    recvChain := wordyInitiator.sendChain }

theorem failed_encrypt_unchanged_iff_wordyInitiator :
    (¬ ∀ e t, (DoubleRatchet.encrypt (List.replicate 65533 0) .wrapping).run wordyInitiator =
        .error (.err e) t → t = wordyInitiator) ∧
      ends .wrapping wordyInitiator
          ((kept .wrapping wordyInitiator [.encrypt [1]]).map Prod.fst) =
        ends .wrapping wordyInitiator [.encrypt [1]] ∧
      ∃ header ct s', (DoubleRatchet.encrypt [1] .wrapping).run
          (ends .wrapping wordyInitiator [.encrypt (List.replicate 65533 0)]) =
            .ok (header, ct) s' ∧
        ∃ t, (DoubleRatchet.decrypt (2 : Nat) header ct .wrapping).run caughtUpResponder =
          .ok [1] t := by
  have h := failed_encrypt_unchanged_iff (Symbolic.lawful_suite Symbolic.encode) .wrapping
  refine ⟨fun hsame => ?_, ?_, ?_⟩
  · have hcost := (h.1 wordyInitiator (List.replicate 65533 0)).mp hsame
    rw [DoubleRatchet.Costless, List.length_replicate] at hcost
    simp [wordyInitiator, DoubleRatchet.initInitiator] at hcost
  · exact (h.2.1 wordyInitiator [.encrypt [1]] ⟨.inr (.inl (by decide)), trivial⟩).2
  · have hup : wordyInitiator.UpToDate caughtUpResponder _ :=
      ⟨rfl, rfl, rfl, rfl, fun i => AList.notMem_empty _⟩
    have hlarge : ∀ p ∈ [List.replicate 65533 (0 : UInt8)], 65532 < p.length := by
      rw [List.forall_mem_singleton, List.length_replicate]
      decide
    obtain ⟨header, ct, s', hrun, hdec⟩ := h.2.2 _ _ _ _ [1] hup (by decide) hlarge (by decide)
    exact ⟨header, ct, s', hrun, (hdec (2 : Nat)).mpr (.inr (by decide))⟩

theorem not_failed_encrypt_unchanged :
    ¬ ∀ C : Suite, C.Lawful → ∀ (s : DoubleRatchet C) plaintext e t,
      (DoubleRatchet.encrypt plaintext .wrapping).run s = .error (.err e) t → t = s := by
  intro hclaim
  have h := hclaim toySuite (Symbolic.lawful_suite _) wordyInitiator (List.replicate 65533 0)
  have hcost := (DoubleRatchet.unchanged_iff (Symbolic.lawful_suite _)).mp h
  rw [DoubleRatchet.Costless, List.length_replicate] at hcost
  simp [wordyInitiator, DoubleRatchet.initInitiator] at hcost

end ProjectMesh.Crypto.Ratchet
