import ProjectMesh.Crypto.RatchetLaws
import ProjectMesh.Crypto.Symbolic

namespace ProjectMesh.Crypto.Ratchet

open ProjectMesh.Lib
open ProjectMesh.Crypto.Padding
open ProjectMesh.Crypto.Symbolic (toySuite)

variable {C : Suite}

/-- One call a session can receive; `fresh` is what the random generator would give. -/
inductive Call (C : Suite) : Type
  | encrypt (plaintext : List UInt8)
  | decrypt (fresh : C.Secret) (header : Header C) (ciphertext : C.Sealed)

inductive Reply (C : Suite) : Type
  | encrypted (header : Header C) (ciphertext : C.Sealed)
  | decrypted (plaintext : List UInt8)

def Call.perform (c : Call C) (overflow : Overflow := .checked) : RatchetM C (Reply C) :=
  match c with
  | .encrypt plaintext => do
    let (header, ct) ← DoubleRatchet.encrypt plaintext overflow
    return .encrypted header ct
  | .decrypt fresh header ct => do
    let plaintext ← DoubleRatchet.decrypt fresh header ct overflow
    return .decrypted plaintext

def replies : DoubleRatchet C → List (Call C) → List (Except (Fault MeshError) (Reply C))
  | _, [] => []
  | s, c :: cs =>
    match c.perform.run s with
    | .ok a t => .ok a :: replies t cs
    | .error (.err e) t => .error (.err e) :: replies t cs
    | .error .panic _ => [.error .panic]

/-- No sequence of calls tells the two sessions apart. -/
def Indistinguishable (s t : DoubleRatchet C) : Prop :=
  ∀ calls, replies s calls = replies t calls

/-- The states a session can be in: as initialised, and after any calls. -/
inductive Reachable (overflow : Overflow) : DoubleRatchet C → Prop
  | initiator (dhSelf : C.Secret) (secret : C.Key) (remote : C.Public) :
    Reachable overflow (.initInitiator dhSelf secret remote)
  | responder (secret : C.Key) (own : C.Secret) :
    Reachable overflow (.initResponder secret own)
  | call {s : DoubleRatchet C} (c : Call C) : Reachable overflow s →
    Reachable overflow (Method.after ((c.perform overflow).run s))

/-- A frame that `decrypt` refuses before it touches anything: it names the remote key
in use, no key is stored for it, and its index is used up or there is no chain yet. -/
def RefusedUntouched (s : DoubleRatchet C) (header : Header C) : Prop :=
  ∃ r, s.dhRemote = some r ∧ C.samePoint r header.dhPub = true ∧
    s.skipped.lookup (r, header.n.toNat) = none ∧
    (header.n.toNat < s.recvN ∨ s.recvChain = none)

section Observing

variable {s t : DoubleRatchet C}

theorem Indistinguishable.refl (s : DoubleRatchet C) : Indistinguishable s s := fun _ => rfl

theorem Indistinguishable.seen (h : Indistinguishable s t) (c : Call C) :
    Method.seen (c.perform.run s) = Method.seen (c.perform.run t) := by
  have hc := h [c]
  simp only [replies] at hc
  cases hs : c.perform.run s with
  | ok a s' =>
    cases ht : c.perform.run t with
    | ok b t' => simpa [hs, ht] using hc
    | error f t' => cases f <;> simp [hs, ht] at hc
  | error f s' =>
    cases ht : c.perform.run t with
    | ok b t' => cases f <;> simp [hs, ht] at hc
    | error g t' => cases f <;> cases g <;> simp_all

theorem Indistinguishable.after (h : Indistinguishable s t) (c : Call C)
    (hs : Method.seen (c.perform.run s) ≠ .error .panic) :
    Indistinguishable (Method.after (c.perform.run s)) (Method.after (c.perform.run t)) := by
  intro cs
  have hseen := h.seen c
  have hc := h (c :: cs)
  simp only [replies] at hc
  cases hrs : c.perform.run s with
  | ok a s' =>
    cases hrt : c.perform.run t with
    | ok b t' =>
      simp only [hrs, hrt, List.cons.injEq] at hc
      exact hc.2
    | error g t' => simp [hrs, hrt] at hseen
  | error f s' =>
    cases hrt : c.perform.run t with
    | ok b t' => simp [hrs, hrt] at hseen
    | error g t' =>
      have hfg : f = g := by simpa [hrs, hrt] using hseen
      subst hfg
      cases f with
      | panic => simp [hrs] at hs
      | err e =>
        simp only [hrs, hrt, List.cons.injEq] at hc
        exact hc.2

theorem perform_decrypt_ok {fresh : C.Secret} {header : Header C} {ct : C.Sealed}
    {plaintext : List UInt8}
    (h : (DoubleRatchet.decrypt fresh header ct).run s = .ok plaintext t) :
    (Call.decrypt fresh header ct).perform.run s = .ok (.decrypted plaintext) t := by
  simp only [Call.perform, EStateM.run_bind, h]
  rfl

theorem perform_decrypt_error {fresh : C.Secret} {header : Header C} {ct : C.Sealed}
    {f : Fault MeshError}
    (h : (DoubleRatchet.decrypt fresh header ct).run s = .error f t) :
    (Call.decrypt fresh header ct).perform.run s = .error f t := by
  simp only [Call.perform, EStateM.run_bind, h]

theorem after_perform_encrypt (plaintext : List UInt8) (s : DoubleRatchet C)
    (overflow : Overflow := .checked) :
    Method.after (((Call.encrypt plaintext).perform overflow).run s) =
      Method.after ((DoubleRatchet.encrypt plaintext overflow).run s) := by
  rw [Call.perform]
  exact Method.after_bind_keeps (fun _ _ => rfl) s

theorem after_perform_decrypt (fresh : C.Secret) (header : Header C) (ct : C.Sealed)
    (s : DoubleRatchet C) (overflow : Overflow := .checked) :
    Method.after (((Call.decrypt fresh header ct).perform overflow).run s) =
      Method.after ((DoubleRatchet.decrypt fresh header ct overflow).run s) := by
  rw [Call.perform]
  exact Method.after_bind_keeps (fun _ _ => rfl) s

theorem Indistinguishable.not_of_decrypt (h : Indistinguishable s t) {fresh : C.Secret}
    {header : Header C} {ct : C.Sealed} {plaintext : List UInt8} {f : Fault MeshError}
    {s' t' : DoubleRatchet C}
    (hs : (DoubleRatchet.decrypt fresh header ct).run s = .ok plaintext s')
    (ht : (DoubleRatchet.decrypt fresh header ct).run t = .error f t') : False := by
  have hseen := h.seen (.decrypt fresh header ct)
  rw [perform_decrypt_ok hs, perform_decrypt_error ht] at hseen
  simp at hseen

end Observing

theorem exists_opening (hC : C.Lawful) (mk : C.Key) (header : Header C) :
    ∃ ct, openMessage mk header ct = .ok [] := by
  obtain ⟨padded, -, hlen, hunpad⟩ :=
    unpad_padToBucket (show ([] : List UInt8).length ≤ 65532 by simp)
  obtain ⟨ct, -, hopen⟩ := hC.decrypt_encrypt mk header.toBytes padded hlen
  refine ⟨ct, ?_⟩
  simp only [openMessage, aeadOpenOnce, hopen]
  exact hunpad

section Decrypt

variable {s t : DoubleRatchet C} {fresh : C.Secret} {header : Header C} {r : C.Public}
  {chain mk : C.Key}

theorem hasRemote_of_eq (hr : s.dhRemote = some r) (hpt : C.samePoint r header.dhPub = true) :
    s.hasRemote header.dhPub = true := by
  rw [DoubleRatchet.hasRemote, hr]
  exact hpt

theorem decrypt_of_messageKey
    (hk : (DoubleRatchet.messageKeyFor header.n.toNat).run s = .ok mk t)
    (hr : s.dhRemote = some r) (hpt : C.samePoint r header.dhPub = true) (fresh : C.Secret)
    (ct : C.Sealed) :
    (DoubleRatchet.decrypt fresh header ct).run s =
      (Method.ofExcept (openMessage mk header ct)).run t := by
  rw [DoubleRatchet.decrypt_sameRemote (hasRemote_of_eq hr hpt), receive_run_ok hk]

theorem decrypt_of_noMessageKey {f : Fault MeshError}
    (hk : (DoubleRatchet.messageKeyFor header.n.toNat).run s = .error f t)
    (hr : s.dhRemote = some r) (hpt : C.samePoint r header.dhPub = true) (fresh : C.Secret)
    (ct : C.Sealed) :
    (DoubleRatchet.decrypt fresh header ct).run s = .error f t := by
  rw [DoubleRatchet.decrypt_sameRemote (hasRemote_of_eq hr hpt), receive_run_error hk]

theorem after_decrypt_of_messageKey
    (hk : (DoubleRatchet.messageKeyFor header.n.toNat).run s = .ok mk t)
    (hr : s.dhRemote = some r) (hpt : C.samePoint r header.dhPub = true) (fresh : C.Secret)
    (ct : C.Sealed) :
    Method.after ((Call.decrypt fresh header ct).perform.run s) = t ∧
      Method.seen ((Call.decrypt fresh header ct).perform.run s) ≠ .error .panic := by
  have hdec := decrypt_of_messageKey hk hr hpt fresh ct
  cases ho : openMessage mk header ct with
  | ok p =>
    rw [ho, Method.run_ofExcept_ok] at hdec
    simp [perform_decrypt_ok hdec]
  | error e =>
    rw [ho, Method.run_ofExcept_error] at hdec
    simp [perform_decrypt_error hdec]

/-- What `messageKeyFor` leaves behind when it advances the chain has no key left for the
same index. -/
theorem messageKeyFor_spent {n : Nat} (hn : n < 2 ^ 32) (hr : s.dhRemote = some r)
    (hl : s.skipped.lookup (r, n) = none)
    (hk : (DoubleRatchet.messageKeyFor n).run s = .ok mk t) :
    (DoubleRatchet.messageKeyFor n).run t = .error (.err consumed) t ∧
      t.dhRemote = some r := by
  have hout := DoubleRatchet.messageKeyFor_outcome s hn
  rw [hk] at hout
  cases hout with
  | stored hr' hl' =>
    rw [hr] at hr'
    cases hr'
    rw [hl] at hl'
    cases hl'
  | @advance r' chain hr' _ hle _ _ _ =>
    rw [hr] at hr'
    cases hr'
    refine ⟨DoubleRatchet.messageKeyFor_consumed hr ?_ (Nat.lt_succ_self n), hr⟩
    change (stash r chain s.recvN (n - s.recvN) s.skipped).lookup (r, n) = none
    rw [lookup_stash_of_ne fun j hj heq => ?_, hl]
    simp only [Prod.mk.injEq, true_and] at heq
    omega

end Decrypt

/-- How a `decrypt` that returns an error can have left the session. -/
inductive Aftermath (s : DoubleRatchet C) (fresh : C.Secret) (header : Header C) :
    DoubleRatchet C → Prop
  /-- Refused before anything was touched. -/
  | untouched : RefusedUntouched s header → Aftermath s fresh header s
  /-- The stored key was taken out, and the ciphertext did not open. -/
  | keyLost {r mk} : s.dhRemote = some r → C.samePoint r header.dhPub = true →
    s.skipped.lookup (r, header.n.toNat) = some mk →
    Aftermath s fresh header (s.without (r, header.n.toNat))
  /-- The chain moved past the index, and the ciphertext did not open. -/
  | chainSpent {r mk t} : s.dhRemote = some r → C.samePoint r header.dhPub = true →
    s.skipped.lookup (r, header.n.toNat) = none →
    (DoubleRatchet.messageKeyFor header.n.toNat).run s = .ok mk t → Aftermath s fresh header t
  /-- The skip loop ran out of room with the chain in hand. -/
  | stranded {r chain j} : s.dhRemote = some r → s.recvChain = some chain →
    s.recvN + j + 1 < 2 ^ 32 → FullAt s r chain j →
    Aftermath s fresh header (s.stranded r chain j)
  /-- The ratchet had turned. -/
  | turned {t c} : t.dhSelfPub = C.publicKey fresh → t.sendN = 0 → t.sendChain = some c →
    Aftermath s fresh header t

section Aftermath

variable {s t : DoubleRatchet C} {fresh : C.Secret} {header : Header C} {e : MeshError}

theorem ofExcept_run_error {r : Except MeshError α} {s t : DoubleRatchet C}
    (h : (Method.ofExcept r : RatchetM C α).run s = .error (.err e) t) : t = s := by
  cases r with
  | ok a => cases h
  | error e' =>
    rw [Method.run_ofExcept_error] at h
    cases h
    rfl

theorem hasRemote_eq_true (hr : s.hasRemote header.dhPub = true) :
    ∃ r, s.dhRemote = some r ∧ C.samePoint r header.dhPub = true := by
  rw [DoubleRatchet.hasRemote] at hr
  cases hd : s.dhRemote with
  | none => simp [hd] at hr
  | some r => exact ⟨r, rfl, by simpa [hd] using hr⟩

theorem aftermath_sameRemote (hr : s.hasRemote header.dhPub = true) {ct : C.Sealed}
    (h : (DoubleRatchet.decrypt fresh header ct).run s = .error (.err e) t) :
    Aftermath s fresh header t := by
  obtain ⟨r, hrem, hpt⟩ := hasRemote_eq_true hr
  rw [DoubleRatchet.decrypt_sameRemote hr] at h
  have hout := DoubleRatchet.messageKeyFor_outcome s header.n.toNat_lt
  cases hk : (DoubleRatchet.messageKeyFor header.n.toNat).run s with
  | ok mk t' =>
    rw [receive_run_ok hk] at h
    rw [ofExcept_run_error h]
    cases hl : s.skipped.lookup (r, header.n.toNat) with
    | none => exact .chainSpent hrem hpt hl hk
    | some mk' =>
      rw [DoubleRatchet.messageKeyFor_stored hrem hl] at hk
      cases hk
      exact .keyLost hrem hpt hl
  | error f t' =>
    rw [receive_run_error hk] at h
    cases h
    rw [hk] at hout
    cases hout with
    | noRemote hr' => simp [hrem] at hr'
    | consumed hr' hl hlt =>
      rw [hrem] at hr'
      cases hr'
      exact .untouched ⟨r, hrem, hpt, hl, .inl hlt⟩
    | noChain hr' hl _ hc =>
      rw [hrem] at hr'
      cases hr'
      exact .untouched ⟨r, hrem, hpt, hl, .inr hc⟩
    | full hr' _ _ hc hj hfull =>
      have := header.n.toNat_lt
      exact .stranded hr' hc (by omega) hfull

/-- What fails after the ratchet turned leaves it turned. -/
theorem aftermath_turned {u : DoubleRatchet C} {ct : C.Sealed}
    (h : (receive header ct).run (u.turned fresh header.dhPub) = .error (.err e) t) :
    Aftermath s fresh header t := by
  have hout := DoubleRatchet.messageKeyFor_outcome (u.turned fresh header.dhPub)
    header.n.toNat_lt
  have hkept : t.sendingHalf = (u.turned fresh header.dhPub).sendingHalf := by
    cases hk : (DoubleRatchet.messageKeyFor header.n.toNat).run
        (u.turned fresh header.dhPub) with
    | ok mk t' =>
      rw [receive_run_ok hk] at h
      rw [ofExcept_run_error h]
      exact (hk ▸ hout).sendingHalf_ok
    | error f t' =>
      rw [receive_run_error hk] at h
      cases h
      exact (hk ▸ hout).sendingHalf_error
  simp only [DoubleRatchet.sendingHalf, DoubleRatchet.turned, Prod.mk.injEq] at hkept
  obtain ⟨-, hpub, -, -, hchain, hn, -⟩ := hkept
  exact .turned hpub hn hchain

theorem aftermath_newRemote (hr : s.hasRemote header.dhPub = false) {ct : C.Sealed}
    (h : (DoubleRatchet.decrypt fresh header ct).run s = .error (.err e) t) :
    Aftermath s fresh header t := by
  rw [DoubleRatchet.decrypt_newRemote hr, EStateM.run_bind] at h
  rcases DoubleRatchet.turn_cases s fresh header with
    ⟨u, hturn⟩ | ⟨r, chain, j, hrem, hc, hj, hfull, hturn⟩
  · rw [hturn] at h
    exact aftermath_turned h
  · rw [hturn] at h
    cases h
    have := header.pn.toNat_lt
    exact .stranded hrem hc (by omega) hfull

theorem aftermath_of_decrypt {ct : C.Sealed}
    (h : (DoubleRatchet.decrypt fresh header ct).run s = .error (.err e) t) :
    Aftermath s fresh header t := by
  cases hr : s.hasRemote header.dhPub with
  | true => exact aftermath_sameRemote hr h
  | false => exact aftermath_newRemote hr h

theorem chainSpent_distinguishable (hC : C.Lawful) {r : C.Public} {mk : C.Key}
    (hr : s.dhRemote = some r) (hpt : C.samePoint r header.dhPub = true)
    (hl : s.skipped.lookup (r, header.n.toNat) = none)
    (hk : (DoubleRatchet.messageKeyFor header.n.toNat).run s = .ok mk t) (fresh : C.Secret) :
    ¬ Indistinguishable s t := by
  intro h
  obtain ⟨ct, hopen⟩ := exists_opening hC mk header
  obtain ⟨hspent, hr'⟩ := messageKeyFor_spent header.n.toNat_lt hr hl hk
  have hs := decrypt_of_messageKey hk hr hpt fresh ct
  rw [hopen, Method.run_ofExcept_ok] at hs
  have ht := decrypt_of_noMessageKey hspent hr' hpt fresh ct
  exact h.not_of_decrypt hs ht

theorem keyLost_distinguishable (hC : C.Lawful) {r : C.Public} {mk : C.Key}
    (hr : s.dhRemote = some r) (hpt : C.samePoint r header.dhPub = true)
    (hl : s.skipped.lookup (r, header.n.toNat) = some mk) (fresh : C.Secret) :
    ¬ Indistinguishable s (s.without (r, header.n.toNat)) := by
  intro h
  have hk := DoubleRatchet.messageKeyFor_stored hr hl
  obtain ⟨ct, hopen⟩ := exists_opening hC mk header
  cases hk' : (DoubleRatchet.messageKeyFor header.n.toNat).run
      (s.without (r, header.n.toNat)) with
  | error f t' =>
    have hs := decrypt_of_messageKey hk hr hpt fresh ct
    rw [hopen, Method.run_ofExcept_ok] at hs
    exact h.not_of_decrypt hs (decrypt_of_noMessageKey hk' hr hpt fresh ct)
  | ok mk' t' =>
    -- the chain has not reached the index yet: the same call again spends it on one side
    obtain ⟨hs, hnp⟩ := after_decrypt_of_messageKey hk hr hpt fresh ct
    obtain ⟨ht, -⟩ :=
      after_decrypt_of_messageKey hk' hr hpt fresh ct
    have hafter := h.after (.decrypt fresh header ct) hnp
    rw [hs, ht] at hafter
    exact chainSpent_distinguishable (s := s.without _) hC hr hpt (AList.lookup_erase _ _) hk'
      fresh hafter

theorem stranded_distinguishable_of_notMem (hC : C.Lawful) {r : C.Public} {chain : C.Key}
    {j : Nat} (hr : s.dhRemote = some r) (hc : s.recvChain = some chain)
    (hu : s.recvN + j + 1 < 2 ^ 32) (hroom : Room s r chain j)
    (hl : s.skipped.lookup (r, s.recvN + j) = none) (htr : t.dhRemote = some r)
    (htn : t.recvN = s.recvN + j) (htc : t.recvChain = none)
    (htl : t.skipped.lookup (r, s.recvN + j) = none) (fresh : C.Secret) :
    ¬ Indistinguishable s t := by
  intro h
  let header : Header C := { dhPub := r, pn := 0, n := .ofNat (s.recvN + j) }
  have hn : header.n.toNat = s.recvN + j := UInt32.toNat_ofNat_of_lt' (Nat.lt_of_succ_lt hu)
  have hidx : s.recvN + j - s.recvN = j := by omega
  have hpt : C.samePoint r header.dhPub = true := hC.samePoint_refl r
  have hk := DoubleRatchet.messageKeyFor_advance hr hl (by omega) hc hu (hidx.symm ▸ hroom)
  have hk' := DoubleRatchet.messageKeyFor_noChain htr htl (by omega) htc
  rw [← hn] at hk hk'
  obtain ⟨ct, hopen⟩ := exists_opening hC _ header
  have hs := decrypt_of_messageKey hk hr hpt fresh ct
  rw [hopen, Method.run_ofExcept_ok] at hs
  exact h.not_of_decrypt hs
    (decrypt_of_noMessageKey hk' htr hpt fresh ct)

theorem stranded_distinguishable (hC : C.Lawful) {r : C.Public} {chain : C.Key} {j : Nat}
    (hr : s.dhRemote = some r) (hc : s.recvChain = some chain)
    (hu : s.recvN + j + 1 < 2 ^ 32) (hfull : FullAt s r chain j) (fresh : C.Secret) :
    ¬ Indistinguishable s (s.stranded r chain j) := by
  have hsame : (s.stranded r chain j).skipped.lookup (r, s.recvN + j) =
      s.skipped.lookup (r, s.recvN + j) :=
    lookup_stash_of_ne fun i hi heq => by simp at heq; omega
  cases hl : s.skipped.lookup (r, s.recvN + j) with
  | none =>
    exact stranded_distinguishable_of_notMem hC hr hc hu hfull.1 hl hr rfl rfl
      (hsame.trans hl) fresh
  | some mk =>
    -- both sides have the key stored: use it up first
    intro h
    let header : Header C := { dhPub := r, pn := 0, n := .ofNat (s.recvN + j) }
    have hn : header.n.toNat = s.recvN + j := UInt32.toNat_ofNat_of_lt' (Nat.lt_of_succ_lt hu)
    have hpt : C.samePoint r header.dhPub = true := hC.samePoint_refl r
    have hk := DoubleRatchet.messageKeyFor_stored hr hl
    have hk' := DoubleRatchet.messageKeyFor_stored (s := s.stranded r chain j) hr
      (hsame.trans hl)
    rw [← hn] at hk hk'
    obtain ⟨ct, -⟩ := exists_opening hC mk header
    obtain ⟨hs, hnp⟩ :=
      after_decrypt_of_messageKey hk hr hpt fresh ct
    obtain ⟨ht, -⟩ :=
      after_decrypt_of_messageKey hk' hr hpt fresh ct
    have hafter := h.after (.decrypt fresh header ct) hnp
    rw [hs, ht, hn] at hafter
    refine stranded_distinguishable_of_notMem (s := s.without _)
      (t := (s.stranded r chain j).without _) hC hr hc hu (fun i hi => ?_)
      (AList.lookup_erase _ _) hr rfl rfl (AList.lookup_erase _ _) fresh hafter
    exact Nat.lt_of_le_of_lt
      (size_stash_mono (Nat.le_refl i) fun key hkey => (AList.mem_erase.mp hkey).2)
      (hfull.1 i hi)

theorem encrypt_announces {plaintext : List UInt8} {ct : C.Sealed}
    (h : (DoubleRatchet.encrypt plaintext).run s = .ok (header, ct) t) :
    header.dhPub = s.dhSelfPub := by
  obtain ⟨chain, padded, -, -, -, -, rfl, -⟩ := DoubleRatchet.encrypt_cases h
  rfl

theorem turned_distinguishable (hC : C.Lawful) {chain : C.Key} (hn : t.sendN = 0)
    (hc : t.sendChain = some chain) (hpub : t.dhSelfPub ≠ s.dhSelfPub) :
    ¬ Indistinguishable s t := by
  intro h
  have hfits : ([] : List UInt8).length ≤ 65532 := Nat.zero_le _
  obtain ⟨ct, ht, -⟩ := DoubleRatchet.encrypt_fits hC hc (by omega) hfits
  have hseen := h.seen (.encrypt [])
  simp only [Call.perform, EStateM.run_bind, ht, EStateM.run_pure, Method.seen_ok] at hseen
  cases hs : (DoubleRatchet.encrypt []).run s with
  | error f s' => simp [hs] at hseen
  | ok a s' =>
    obtain ⟨header, ct'⟩ := a
    simp only [hs, Method.seen_ok, Except.ok.injEq, Reply.encrypted.injEq] at hseen
    have hold := encrypt_announces hs
    rw [hseen.1] at hold
    exact hpub hold

/-- A `decrypt` that returns an error leaves the session as it was exactly when it refused
the frame before touching anything. -/
theorem decrypt_error_unchanged_iff (hC : C.Lawful) {ct : C.Sealed}
    (hfresh : C.publicKey fresh ≠ s.dhSelfPub)
    (h : (DoubleRatchet.decrypt fresh header ct).run s = .error (.err e) t) :
    Indistinguishable s t ↔ RefusedUntouched s header := by
  constructor
  · intro hst
    cases aftermath_of_decrypt h with
    | untouched hun => exact hun
    | keyLost hr hpt hl => exact absurd hst (keyLost_distinguishable hC hr hpt hl fresh)
    | chainSpent hr hpt hl hk =>
      exact absurd hst (chainSpent_distinguishable hC hr hpt hl hk fresh)
    | stranded hr hc hu hfull =>
      exact absurd hst (stranded_distinguishable hC hr hc hu hfull fresh)
    | turned hpub hn hc =>
      exact absurd hst (turned_distinguishable hC hn hc (hpub ▸ hfresh))
  · rintro ⟨r, hr, hpt, hl, hspent⟩
    by_cases hlt : header.n.toNat < s.recvN
    · have hk := DoubleRatchet.messageKeyFor_consumed hr hl hlt
      rw [decrypt_of_noMessageKey hk hr hpt] at h
      cases h
      exact .refl s
    · have hc : s.recvChain = none := hspent.resolve_left hlt
      have hk := DoubleRatchet.messageKeyFor_noChain hr hl (Nat.not_lt.mp hlt) hc
      rw [decrypt_of_noMessageKey hk hr hpt] at h
      cases h
      exact .refl s

end Aftermath

section Tampering

def genuineHeader : Header toySuite := { dhPub := ⟨.mul {0}, 0⟩, pn := 0, n := 0 }

def genuineCiphertext : toySuite.Sealed :=
  match (DoubleRatchet.encrypt [104, 105]).run
    (.initInitiator (C := toySuite) (0 : Nat) (.protocol "") ⟨.mul {1}, 0⟩) with
  | .ok (_, ct) _ => ct
  | .error _ _ => .bytes []

def freshResponder : DoubleRatchet toySuite := .initResponder (.protocol "") (1 : Nat)

def decryptTampered : RatchetM toySuite (List UInt8) :=
  DoubleRatchet.decrypt (2 : Nat) genuineHeader (.bytes [])

theorem decryptTampered_run : decryptTampered.run freshResponder =
    .error (.err (.crypto "open failed: forged or corrupted ciphertext"))
      (Method.after (decryptTampered.run freshResponder)) := rfl

/-- A tampered copy of the first message uses up the key of the genuine one. -/
theorem not_decrypt_error_unchanged :
    ¬ ∀ (C : Suite), C.Lawful → ∀ s : DoubleRatchet C, Reachable .checked s →
      ∀ fresh header ct e t,
        (DoubleRatchet.decrypt fresh header ct).run s = .error (.err e) t →
          Indistinguishable s t := by
  intro h
  have hsame := h toySuite (Symbolic.lawful_suite _) freshResponder (.responder _ _) (2 : Nat)
    genuineHeader (.bytes []) _ _ decryptTampered_run
  have hseen := hsame.seen (.decrypt (3 : Nat) genuineHeader genuineCiphertext)
  have hbefore : Method.seen ((Call.decrypt (3 : Nat) genuineHeader genuineCiphertext).perform.run
      freshResponder) = .ok (.decrypted [104, 105]) := rfl
  rw [hbefore] at hseen
  cases hseen

theorem decrypt_error_unchanged_iff_tampered :
    Indistinguishable freshResponder (Method.after (decryptTampered.run freshResponder)) ↔
      RefusedUntouched freshResponder genuineHeader :=
  decrypt_error_unchanged_iff (Symbolic.lawful_suite _)
    (show toySuite.publicKey (2 : Nat) ≠ freshResponder.dhSelfPub by decide)
    decryptTampered_run

end Tampering

end ProjectMesh.Crypto.Ratchet
