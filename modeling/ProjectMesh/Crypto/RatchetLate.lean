import ProjectMesh.Crypto.RatchetPairLaws

namespace ProjectMesh.Crypto.Ratchet

open ProjectMesh.Lib

variable {C : Suite}

/-- A message of a new chain does not decrypt when its sender derived another chain. -/
theorem DoubleRatchet.decrypt_wrongChain {s : DoubleRatchet C} {header : Header C}
    {ct : C.Sealed} (hold : s.hasRemote header.dhPub = false)
    (hpn : header.pn.toNat ≤ s.recvN) (hn : header.n = 0)
    (hnone : s.skipped.lookup (header.dhPub, 0) = none)
    (hopen : C.decrypt
      (messageKeyAt (kdfRk s.rootKey (C.diffieHellman s.dhSelf header.dhPub)).2 0)
      header.toBytes ct = none) (fresh : C.Secret) :
    ∃ e t, (decrypt fresh header ct).run s = .error e t := by
  obtain ⟨u, hturn, hhalf, hskip⟩ : ∃ u : DoubleRatchet C,
      (turn fresh header).run s = .ok () (u.turned fresh header.dhPub) ∧
        u.sendingHalf = s.sendingHalf ∧ u.skipped = s.skipped := by
    cases hc : s.recvChain with
    | none => exact ⟨s, turn_noChain fresh hc, rfl, rfl⟩
    | some chain =>
      cases hr : s.dhRemote with
      | none => exact ⟨s, turn_noRemote fresh hr, rfl, rfl⟩
      | some r =>
        have hzero : header.pn.toNat - s.recvN = 0 := by omega
        have hroom : Room s r chain (header.pn.toNat - s.recvN) := by
          rw [hzero]
          exact fun j hj => absurd hj (Nat.not_lt_zero j)
        have hturn := turn_room fresh hc hr hroom
        rw [hzero] at hturn
        exact ⟨_, hturn, rfl, rfl⟩
  simp only [sendingHalf, Prod.mk.injEq] at hhalf
  obtain ⟨hself, -, -, hroot, -⟩ := hhalf
  rw [← hself, ← hroot] at hopen
  rw [← hskip] at hnone
  have hidx : header.n.toNat = 0 := by
    rw [hn]
    rfl
  have hk : (messageKeyFor header.n.toNat).run (u.turned fresh header.dhPub) =
      .ok (messageKeyAt (kdfRk u.rootKey (C.diffieHellman u.dhSelf header.dhPub)).2 0)
        ((u.turned fresh header.dhPub).advanced header.dhPub
          (kdfRk u.rootKey (C.diffieHellman u.dhSelf header.dhPub)).2 0) := by
    rw [hidx]
    exact messageKeyFor_advance (s := u.turned fresh header.dhPub) rfl hnone (Nat.le_refl 0) rfl
      (by decide) fun j hj => absurd hj (Nat.not_lt_zero j)
  have hfail : openMessage
      (messageKeyAt (kdfRk u.rootKey (C.diffieHellman u.dhSelf header.dhPub)).2 0) header ct =
        .error (.crypto "open failed: forged or corrupted ciphertext") := by
    simp only [openMessage, aeadOpenOnce, hopen]
    rfl
  have hrun := decrypt_newRemote hold fresh ct
  rw [EStateM.run_bind, hturn] at hrun
  simp only at hrun
  rw [receive_run_ok hk, hfail, Method.run_ofExcept_error] at hrun
  exact ⟨_, _, hrun⟩

namespace World

def FirstTime (w : World C) : Action C → Prop
  | .encrypt _ _ => True
  | .deliver p i _ => i ∉ w.delivered p

def OnceStep (w w' : World C) : Prop := ∃ a, w.Allowed a ∧ w.FirstTime a ∧ w.act a = some w'

/-- The actions make a run: each is allowed where it is taken, and returns. -/
def Runs (w : World C) : List (Action C) → Prop
  | [] => True
  | a :: as => w.Allowed a ∧ w.FirstTime a ∧ ∃ w₁, w.act a = some w₁ ∧ Runs w₁ as

def AllDecrypt (w : World C) : Prop :=
  ∀ w', Relation.ReflTransGen OnceStep w w' → ∀ p i fresh m, (w'.sent p)[i]? = some m →
    w'.FirstTime (.deliver p i fresh) → w'.Allowed (.deliver p i fresh) →
      ∃ s, (DoubleRatchet.decrypt fresh m.header m.ciphertext).run (w'.ratchet p.other) =
        .ok m.plaintext s

def LateHandled (w : World C) (p : Party) (i : Nat) (fresh : C.Secret) : Prop :=
  ∀ m, (w.sent p)[i]? = some m →
    ∃ s, (DoubleRatchet.decrypt fresh m.header m.ciphertext).run (w.ratchet p.other) =
        .ok m.plaintext s ∧ (w.afterDelivery p i s).AllDecrypt

def Handles (w : World C) : List (Action C) → Prop
  | [] => True
  | .encrypt p plaintext :: as => ∀ w₁, w.act (.encrypt p plaintext) = some w₁ → Handles w₁ as
  | .deliver p i fresh :: as => (w.Late p i → w.LateHandled p i fresh) ∧
      ∀ w₁, w.act (.deliver p i fresh) = some w₁ → Handles w₁ as

def HasLate (w : World C) : List (Action C) → Prop
  | [] => False
  | a :: as => ¬ w.InOrder a ∨ ∃ w₁, w.act a = some w₁ ∧ HasLate w₁ as

instance (w : World C) : (a : Action C) → Decidable (w.FirstTime a)
  | .encrypt _ _ => isTrue trivial
  | .deliver p i _ => inferInstanceAs (Decidable (i ∉ w.delivered p))

instance decidableRuns : (actions : List (Action C)) → (w : World C) →
    Decidable (w.Runs actions)
  | [], _ => isTrue trivial
  | a :: as, w =>
    have := decidableRuns as
    inferInstanceAs (Decidable (w.Allowed a ∧ w.FirstTime a ∧
      ∃ w₁, w.act a = some w₁ ∧ Runs w₁ as))

instance decidableHasLate : (actions : List (Action C)) → (w : World C) →
    Decidable (w.HasLate actions)
  | [], _ => isFalse id
  | a :: as, w =>
    have := decidableHasLate as
    inferInstanceAs (Decidable (¬ w.InOrder a ∨ ∃ w₁, w.act a = some w₁ ∧ HasLate w₁ as))

section Late

variable {L : Ladder C} {top i : Nat} {w w' : World C} {p : Party} {m : Message C}
  {fresh : C.Secret}

/-- A session that went back to an old key of the other side: its sending chain comes from
a key the other side no longer has. -/
structure Derailed (L : Ladder C) (top : Nat) (p : Party) (fresh : C.Secret)
    (s : DoubleRatchet C) : Prop where
  dhSelfPub : s.dhSelfPub = C.publicKey fresh
  sendN : s.sendN = 0
  prevSendN : s.prevSendN = L.len (p.level top)
  sendChain : ∃ t < p.other.level top, ∃ root, s.sendChain =
    some (kdfRk root (C.diffieHellman fresh (L.pub t))).2

theorem Late.level (hcom : w.Common L top) (hside : w.Side L top p.other)
    (hlate : w.Late p i) (hi : (w.sent p)[i]? = some m) (hC : C.Lawful) :
    ∃ t r n, p.other.level top = r + 1 ∧ t < r ∧ t < p.level top ∧ r ≤ p.level top ∧
      n < L.len t ∧ i = L.offset t + n ∧ m.header = L.header t n ∧
      i < w.frontier L top p := by
  obtain ⟨m', hm', j, hj, hij, m'', hm'', hne⟩ := hlate
  rw [hi] at hm'
  cases hm'
  have hT := hcom.transcript p
  obtain ⟨t, ht, htp, n, hn, rfl, hhead, -⟩ := hT.slot hi
  obtain ⟨t', ht', htp', n', hn', rfl, hhead', -⟩ := hT.slot hm''
  have hne' : t ≠ t' := by
    rintro rfl
    rw [hhead, hhead'] at hne
    simp [Ladder.header, hC.samePoint_refl] at hne
  have hlt : t < t' := by
    by_contra hge
    have := Ladder.offset_add_len_le_of_lt (L := L) (s := t') (t := t) (by omega) (by omega)
    omega
  have hrec := hside.receiver
  rw [p.other_other] at hrec
  have hfront : L.offset t' + n' < w.frontier L top p := hrec.below _ hj
  have hle := hrec.recvN_le
  have hadj := p.level_other hcom.pos
  obtain ⟨r, hr⟩ : ∃ r, p.other.level top = r + 1 := by
    refine ⟨p.other.level top - 1, ?_⟩
    by_contra hzero
    have hz : p.other.level top = 0 := by omega
    rw [frontier, hz] at hfront
    rw [hz] at hle
    simp only [Nat.zero_sub, hcom.zero, Ladder.offset] at hle hfront
    omega
  rw [hr] at hle
  have htr : t' ≤ r := by
    by_contra hgt
    have := Ladder.offset_add_len_le_of_lt (L := L) (s := r) (t := t') (by omega) (by omega)
    rw [frontier, hr] at hfront
    simp only [Nat.add_sub_cancel] at hle hfront
    omega
  exact ⟨t, r, n, hr, by omega, by omega, by omega, hn, rfl, hhead, by omega⟩

theorem Late.newRemote (hcom : w.Common L top) (hside : w.Side L top p.other)
    (hlate : w.Late p i) (hi : (w.sent p)[i]? = some m) (hC : C.Lawful) :
    (w.ratchet p.other).hasRemote m.header.dhPub = false := by
  obtain ⟨t, r, n, hr, htr, htp, hrp, -, -, hhead, -⟩ :=
    Late.level hcom hside hlate hi hC
  have htop := p.level_le top
  have hrec := hside.receiver
  rw [p.other_other, hr] at hrec
  rw [DoubleRatchet.hasRemote, hrec.remote, hhead]
  exact hcom.linked.distinct r (by omega) t (by omega) (by omega)

/-- A late message stops at the guard, or derails the session that decrypts it. -/
theorem deliver_late (hC : C.Lawful) (h : w.Coupled L top) (hi : (w.sent p)[i]? = some m)
    (hnew : i ∉ w.delivered p) (hlate : w.Late p i) :
    (∃ s, (DoubleRatchet.decrypt fresh m.header m.ciphertext).run (w.ratchet p.other) =
        .error (.err tooMany) s) ∨
      ∃ s, (DoubleRatchet.decrypt fresh m.header m.ciphertext).run (w.ratchet p.other) =
        .ok m.plaintext s ∧ Derailed L top p.other fresh s := by
  have hside := h.side p.other
  obtain ⟨t, r, n, hr, htr, htp, hrp, hn, rfl, hhead, hfront⟩ :=
    Late.level h.common hside hlate hi hC
  have htop := p.level_le top
  have hrec := hside.receiver
  rw [p.other_other] at hrec
  have hslots := (h.common.transcript p).slotsDistinct hC h.common.linked htop
  obtain ⟨mk, hl, hopen⟩ := hrec.stored.stored _ m hi (mem_missing.mpr ⟨hfront, hnew⟩)
  have hpub : m.header.dhPub = L.pub t := by
    rw [hhead]
    rfl
  rw [hr] at hrec
  have hremote := hrec.remote
  have hchain := hrec.chain (by omega)
  have hold := Late.newRemote h.common hside hlate hi hC
  rcases room_or_fullAt (w.ratchet p.other) (L.pub r)
    (chainAt (L.rung r).chain (w.ratchet p.other).recvN)
    (m.header.pn.toNat - (w.ratchet p.other).recvN) with hroom | ⟨j, hj, hfull⟩
  · right
    have hturn := DoubleRatchet.turn_room fresh hchain hremote hroom
    rw [hpub] at hturn
    have hkeep : (stash (L.pub r) (chainAt (L.rung r).chain (w.ratchet p.other).recvN)
        (w.ratchet p.other).recvN (m.header.pn.toNat - (w.ratchet p.other).recvN)
        (w.ratchet p.other).skipped).lookup m.slot = some mk := by
      rw [lookup_stash_of_ne, hl]
      intro j _ heq
      have hpt : L.pub t = L.pub r := hpub.symm.trans (congrArg Prod.fst heq)
      have := h.common.linked.pub_inj hC (by omega) (by omega) hpt
      omega
    rw [Message.slot, hpub] at hkeep
    let u := ((w.ratchet p.other).stashed (L.pub r)
      (chainAt (L.rung r).chain (w.ratchet p.other).recvN)
      (m.header.pn.toNat - (w.ratchet p.other).recvN)).turned fresh (L.pub t)
    have hk := DoubleRatchet.messageKeyFor_stored (s := u) rfl hkeep
    refine ⟨u.without (L.pub t, m.header.n.toNat), ?_, ⟨rfl, rfl, hside.sender.sendN, t,
      p.other_other.symm ▸ htp, _, rfl⟩⟩
    rw [DoubleRatchet.decrypt_newRemote hold, EStateM.run_bind, hturn]
    simp only
    rw [receive_run_ok hk]
    exact congrArg (fun r => (Method.ofExcept r).run _) hopen
  · left
    refine ⟨(w.ratchet p.other).stranded (L.pub r)
      (chainAt (L.rung r).chain (w.ratchet p.other).recvN) j, ?_⟩
    rw [DoubleRatchet.decrypt_newRemote hold, EStateM.run_bind,
      DoubleRatchet.turn_full fresh hchain hremote hj hfull]

structure Flushed (L : Ladder C) (top : Nat) (w : World C) (p : Party) (L' : Ladder C)
    (top' : Nat) (w' : World C) : Prop where
  run : Relation.ReflTransGen OnceStep w w'
  grows : L'.Grows L top top'
  level : p.level top' = p.level top
  common : w'.Common L' top'
  receiverSide : w'.Side L' top' p.other
  frontier : w'.frontier L' top' p = (w'.sent p).length
  ratchet : w'.ratchet p = w.ratchet p

theorem exists_flushed (hC : C.Ideal) (hcom : w.Common L top) (hside : w.Side L top p.other)
    {k : Nat} (hk : (w.sent p).length = w.frontier L top p + k) :
    ∃ L' top' w', Flushed L top w p L' top' w' := by
  induction k generalizing L top w with
  | zero => exact ⟨L, top, w, .refl, .refl L top, rfl, hcom, hside, hk.symm, rfl⟩
  | succ k ih =>
    obtain ⟨m, hm⟩ : ∃ m, (w.sent p)[w.frontier L top p]? = some m :=
      ⟨_, List.getElem?_eq_getElem (by omega)⟩
    have hrec := hside.receiver
    rw [p.other_other] at hrec
    have hbelow : ∀ j ∈ w.delivered p, j < w.frontier L top p := hrec.below
    have hbound : (missing (w.frontier L top p) (w.delivered p)).card ≤ maxSkip := hrec.bounded
    obtain ⟨fresh, hfresh⟩ := hC.exists_fresh w.generated
    have hallow : w.Allowed (.deliver p (w.frontier L top p) fresh) := by
      refine ⟨fun _ _ _ => hfresh, ?_⟩
      rw [skippedOver_markDelivered hcom hside (by omega), Nat.max_eq_right (Nat.le_succ _),
        missing_insert_frontier]
      exact hbound
    have horder : ¬ w.Late p (w.frontier L top p) := by
      rintro ⟨_, _, j, hj, hlt, _⟩
      have := hbelow j hj
      omega
    have hnew : w.frontier L top p ∉ w.delivered p := fun hd => by
      have := hbelow _ hd
      omega
    obtain ⟨s, L₁, top₁, hd⟩ := deliver hC.toLawful hcom hside hm hallow horder
    have hrec₁ := hd.receiverSide.receiver
    rw [p.other_other] at hrec₁
    have hdel : (w.afterDelivery p (w.frontier L top p) s).delivered p =
        insert (w.frontier L top p) (w.delivered p) := markDelivered_delivered_self
    rw [hdel] at hrec₁
    -- the frontier moved by one
    have hstep : (w.afterDelivery p (w.frontier L top p) s).frontier L₁ top₁ p =
        w.frontier L top p + 1 := by
      have hlow : w.frontier L top p <
          (w.afterDelivery p (w.frontier L top p) s).frontier L₁ top₁ p :=
        hrec₁.below _ (Finset.mem_insert_self _ _)
      have hlast := hrec₁.last
        ((w.afterDelivery p (w.frontier L top p) s).frontier L₁ top₁ p - 1)
        (Nat.sub_add_cancel (Nat.one_le_of_lt hlow)).symm
      rcases Finset.mem_insert.mp hlast with heq | hmem
      · omega
      · have := hbelow _ hmem
        omega
    obtain ⟨L', top', w', hf⟩ := ih hd.common hd.receiverSide
      (show (w.sent p).length = _ by rw [hstep]; omega)
    refine ⟨L', top', w', .head ⟨_, hallow, hnew, hd.act⟩ hf.run, hd.grows.trans hf.grows,
      hf.level.trans hd.level, hf.common, hf.receiverSide, hf.frontier, ?_⟩
    exact hf.ratchet.trans (setRatchet_ratchet_of_ne p.ne_other)

theorem skippedOver_markDelivered_last (hlen : (w.sent p).length = i + 1)
    (hbelow : ∀ j ∈ w.delivered p, j < i) :
    (w.markDelivered p i).skippedOver p = missing i (w.delivered p) := by
  have hbelow' : ∀ j ∈ (w.markDelivered p i).delivered p, j < i + 1 := by
    intro j hj
    rw [markDelivered_delivered_self] at hj
    rcases Finset.mem_insert.mp hj with rfl | hj
    · exact Nat.lt_succ_self j
    · exact Nat.lt_succ_of_lt (hbelow j hj)
  have hlast : ∀ j, i + 1 = j + 1 → j ∈ (w.markDelivered p i).delivered p := by
    rintro j hj
    obtain rfl : i = j := by omega
    rw [markDelivered_delivered_self]
    exact Finset.mem_insert_self _ _
  rw [skippedOver_eq hbelow' hlast (Nat.le_of_eq hlen.symm), markDelivered_delivered_self,
    missing_insert_frontier]

theorem Flushed.len_le_recvN {L' : Ladder C} {top' : Nat} (hf : Flushed L top w p L' top' w') :
    L.len (p.level top) ≤ (w'.ratchet p.other).recvN := by
  have hcom := hf.common
  have hrec := hf.receiverSide.receiver
  have hle := hrec.recvN_le
  have hfront := hf.frontier
  have hadj := p.level_other hcom.pos
  rw [World.frontier, (hcom.transcript p).length] at hfront
  rw [← hf.grows.len, ← hf.level]
  by_cases hzero : p.other.level top' = 0
  · rw [hzero] at hle hfront
    simp only [Nat.zero_sub, hcom.zero, Ladder.offset] at hle hfront
    omega
  · by_cases heq : p.other.level top' - 1 = p.level top'
    · rw [heq] at hfront
      omega
    · have := Ladder.offset_add_len_le_of_lt (L := L')
        (s := p.other.level top' - 1) (t := p.level top') (by omega) (by omega)
      omega

theorem Derailed.encrypt (hC : C.Ideal) {s : DoubleRatchet C} (hder : Derailed L top p fresh s) :
    ∃ t < p.other.level top, ∃ root ct padded s',
      C.encrypt (messageKeyAt (kdfRk root (C.diffieHellman fresh (L.pub t))).2 0)
        s.nextHeader.toBytes padded = some ct ∧
      (DoubleRatchet.encrypt []).run s = .ok (s.nextHeader, ct) s' := by
  obtain ⟨t, ht, root, hchain⟩ := hder.sendChain
  obtain ⟨padded, hpad, hlen, -⟩ :=
    Padding.unpad_padToBucket (show ([] : List UInt8).length ≤ 65532 by simp)
  obtain ⟨ct, hseal, -⟩ := hC.decrypt_encrypt
    (messageKeyAt (kdfRk root (C.diffieHellman fresh (L.pub t))).2 0) s.nextHeader.toBytes padded
    hlen
  have hrun := DoubleRatchet.encrypt_chain hchain (by rw [hder.sendN]; decide) []
  have hsealed : sealMessage (kdfCk (kdfRk root (C.diffieHellman fresh (L.pub t))).2).2
      s.nextHeader [] = .ok (s.nextHeader, ct) :=
    sealMessage_eq_ok.mpr ⟨padded, hpad, hseal, rfl⟩
  rw [hsealed, Method.run_ofExcept_ok] at hrun
  exact ⟨t, ht, root, ct, padded, _, hseal, hrun⟩

theorem Flushed.notMem_skipped (hC : C.Lawful) {L' : Ladder C} {top' : Nat}
    (hf : Flushed L top w p L' top' w')
    (hnew : ∀ r ≤ p.level top', C.samePoint (L'.pub r) (C.publicKey fresh) = false) :
    (C.publicKey fresh, 0) ∉ (w'.ratchet p.other).skipped := by
  intro hmem
  have hrec := hf.receiverSide.receiver
  rw [p.other_other] at hrec
  obtain ⟨j, m, hj, -, hslot⟩ := hrec.stored.onlyStored _ hmem
  obtain ⟨r, hr, -, n, -, -, hhead, -⟩ := (hf.common.transcript p).slot hj
  have hsame : C.publicKey fresh = L'.pub r := by
    rw [Message.slot, hhead] at hslot
    exact congrArg Prod.fst hslot
  have := hnew r hr
  rw [hsame, hC.samePoint_refl] at this
  cases this

theorem Flushed.decrypt_derailed (hC : C.Ideal) (hcom : w.Common L top) {L' : Ladder C}
    {top' t : Nat} {root : C.Key} {padded : List UInt8} {ct : C.Sealed}
    (hf : Flushed L top w p L' top' w') (hder : Derailed L top p fresh (w.ratchet p))
    (hnew : ∀ t ≤ top, C.samePoint (L.pub t) (C.publicKey fresh) = false)
    (ht : t < p.other.level top)
    (hseal : C.encrypt (messageKeyAt (kdfRk root (C.diffieHellman fresh (L.pub t))).2 0)
      (w.ratchet p).nextHeader.toBytes padded = some ct) (fresh₂ : C.Secret) :
    ∃ e s, (DoubleRatchet.decrypt fresh₂ (w.ratchet p).nextHeader ct).run (w'.ratchet p.other) =
      .error e s := by
  have hrec := hf.receiverSide.receiver
  rw [p.other_other] at hrec
  have hpub : (w.ratchet p).nextHeader.dhPub = C.publicKey fresh := hder.dhSelfPub
  have htop : p.level top ≤ top := p.level_le top
  have hadj := p.level_other hf.common.pos
  have hlev := hf.level
  have hnew' : ∀ r ≤ p.level top', C.samePoint (L'.pub r) (C.publicKey fresh) = false := by
    intro r hr
    rw [hf.grows.pub (by omega)]
    exact hnew r (by omega)
  have hold : (w'.ratchet p.other).hasRemote (w.ratchet p).nextHeader.dhPub = false :=
    hrec.hasRemote_eq_false fun hzero => by
      rw [hpub]
      exact hnew' (p.other.level top' - 1) (by omega)
  have hpn : (w.ratchet p).nextHeader.pn.toNat ≤ (w'.ratchet p.other).recvN := by
    have hprev : (w.ratchet p).nextHeader.pn.toNat = L.len (p.level top) := by
      change (UInt32.ofNat (w.ratchet p).prevSendN).toNat = _
      rw [hder.prevSendN]
      exact UInt32.toNat_ofNat_of_lt' ((hcom.transcript p).bound _ (Nat.le_refl _) rfl)
    rw [hprev]
    exact hf.len_le_recvN
  have hn : (w.ratchet p).nextHeader.n = 0 := by
    change UInt32.ofNat (w.ratchet p).sendN = 0
    rw [hder.sendN]
    rfl
  have hnone : (w'.ratchet p.other).skipped.lookup ((w.ratchet p).nextHeader.dhPub, 0) = none := by
    rw [AList.lookup_eq_none, hpub]
    exact hf.notMem_skipped hC.toLawful hnew'
  have hwrong : C.decrypt (messageKeyAt (kdfRk (w'.ratchet p.other).rootKey
      (C.diffieHellman (w'.ratchet p.other).dhSelf (w.ratchet p).nextHeader.dhPub)).2 0)
      (w.ratchet p).nextHeader.toBytes ct = none := by
    refine hC.decrypt_wrongKey _ _ _ _ _ _ (fun heq => ?_) hseal
    have hdh := hC.hkdf_inj _ _ _ _ _ (hC.hmac_inj _ _ _ heq)
    have hle := p.other.level_mono hf.grows.le
    have htop' := p.other.level_le top
    have htop'' := p.other.level_le top'
    rw [hpub, hf.receiverSide.sender.dhSelf, hC.dh_comm, ← hf.grows.pub (by omega)] at hdh
    have hpt := hC.diffieHellman_inj _ _ _ hdh
    have hne := hf.common.linked.distinct t (by omega) (p.other.level top') htop'' (by omega)
    rw [Ladder.pub, Ladder.pub, hpt] at hne
    cases hne
  exact DoubleRatchet.decrypt_wrongChain hold hpn hn hnone hwrong fresh₂

/-- Once a session has derailed, the other side can get all that was sent before and then
fails on its next message. -/
theorem not_allDecrypt_of_derailed (hC : C.Ideal) (hcom : w.Common L top)
    (hside : w.Side L top p.other) (hder : Derailed L top p fresh (w.ratchet p))
    (hnew : ∀ t ≤ top, C.samePoint (L.pub t) (C.publicKey fresh) = false) :
    ¬ w.AllDecrypt := by
  intro hall
  have hrec₀ := hside.receiver
  rw [p.other_other] at hrec₀
  obtain ⟨k, hk⟩ := Nat.exists_eq_add_of_le (hcom.frontier_le hrec₀)
  obtain ⟨L', top', w', hf⟩ := exists_flushed hC hcom hside hk
  -- the derailed side encrypts once more
  obtain ⟨t, ht, root, ct, padded, s₁, hseal, hrun⟩ := hder.encrypt hC
  let g : Message C := ⟨(w.ratchet p).nextHeader, ct, []⟩
  have hact : w'.act (.encrypt p []) = some ((w'.setRatchet p s₁).send p g) := by
    rw [← hf.ratchet] at hrun
    simp only [act, hrun]
    rw [hf.ratchet]
  -- the message arrives next at a session that has all the others
  have hrec := hf.receiverSide.receiver
  rw [p.other_other] at hrec
  have hfront := hf.frontier
  have hbelow : ∀ j ∈ w'.delivered p, j < (w'.sent p).length := hfront ▸ hrec.below
  have hbound : (missing (w'.sent p).length (w'.delivered p)).card ≤ maxSkip :=
    hfront ▸ hrec.bounded
  have hg : (((w'.setRatchet p s₁).send p g).sent p)[(w'.sent p).length]? = some g := by
    rw [send_sent_self, setRatchet_sent, List.getElem?_concat_length]
  obtain ⟨fresh₂, hfresh₂⟩ := hC.exists_fresh ((w'.setRatchet p s₁).send p g).generated
  have hskip : ((((w'.setRatchet p s₁).send p g).markDelivered p
      (w'.sent p).length).skippedOver p).card ≤ maxSkip := by
    have hlen' : (((w'.setRatchet p s₁).send p g).sent p).length = (w'.sent p).length + 1 := by
      rw [send_sent_self, setRatchet_sent, List.length_append, List.length_singleton]
    exact (skippedOver_markDelivered_last hlen' hbelow).symm ▸ hbound
  obtain ⟨s₂, hs₂⟩ := hall _ (hf.run.tail ⟨.encrypt p [], Nat.zero_le _, trivial, hact⟩) p
    (w'.sent p).length fresh₂ g hg (fun hd => Nat.lt_irrefl _ (hbelow _ hd))
    ⟨fun _ _ _ => hfresh₂, hskip⟩
  rw [send_ratchet, setRatchet_ratchet_of_ne p.other_ne] at hs₂
  obtain ⟨e, s₃, hs₃⟩ := hf.decrypt_derailed hC hcom hder hnew ht hseal fresh₂
  rw [hs₂] at hs₃
  cases hs₃

theorem Coupled.not_lateHandled (hC : C.Ideal) (h : w.Coupled L top)
    (hi : (w.sent p)[i]? = some m) (hnew : i ∉ w.delivered p)
    (hallow : w.Allowed (.deliver p i fresh)) (hlate : w.Late p i) :
    ¬ w.LateHandled p i fresh := by
  intro hhandled
  obtain ⟨s, hs, hall⟩ := hhandled m hi
  have hold := Late.newRemote h.common (h.side p.other) hlate hi hC.toLawful
  have hfresh := hallow.1 m hi hold
  rcases deliver_late hC.toLawful h hi hnew hlate with ⟨s', hs'⟩ | ⟨s', hs', hder⟩
  · rw [hs] at hs'
    cases hs'
  · rw [hs] at hs'
    cases hs'
    have hside : (w.afterDelivery p i s).Side L top p :=
      (h.side p).congr (setRatchet_ratchet_of_ne p.ne_other) rfl
        (markDelivered_delivered_of_ne p.other_ne)
    have hself : (w.afterDelivery p i s).ratchet p.other = s := setRatchet_ratchet_self
    exact not_allDecrypt_of_derailed hC h.common.setRatchet.markDelivered
      (p.other_other.symm ▸ hside) (hself.symm ▸ hder)
      (fun t ht => hfresh _ (h.common.generated t ht)) hall

theorem Coupled.not_handles (hC : C.Ideal) {actions : List (Action C)} (h : w.Coupled L top)
    (hruns : w.Runs actions) (hlate : w.HasLate actions) : ¬ w.Handles actions := by
  induction actions generalizing w L top with
  | nil => exact hlate.elim
  | cons a as ih =>
    intro hhandles
    obtain ⟨hallow, hfirst, w₁, hact, hruns⟩ := hruns
    by_cases horder : w.InOrder a
    · obtain ⟨L', top', h'⟩ := h.step hC.toLawful ⟨a, hallow, horder, hact⟩
      obtain ⟨w₂, hact₂, hlate₂⟩ := hlate.resolve_left (not_not.mpr horder)
      rw [hact, Option.some.injEq] at hact₂
      subst hact₂
      refine ih h' hruns hlate₂ ?_
      cases a with
      | encrypt p plaintext => exact hhandles w₁ hact
      | deliver p i fresh => exact hhandles.2 w₁ hact
    · cases a with
      | encrypt p plaintext => exact horder trivial
      | deliver p i fresh =>
        have hl : w.Late p i := not_not.mp horder
        obtain ⟨m, hm, -⟩ := hl
        exact h.not_lateHandled hC hm hfirst hallow (not_not.mp horder)
          (hhandles.1 (not_not.mp horder))

/-- No run with a late message handles all of its late messages. -/
theorem late_never_handled (hC : C.Ideal) {secret : C.Key} {a b : C.Secret}
    (hne : C.samePoint (C.publicKey b) (C.publicKey a) = false) {actions : List (Action C)}
    (hruns : (initial secret a b).Runs actions)
    (hlate : (initial secret a b).HasLate actions) :
    ¬ (initial secret a b).Handles actions :=
  Coupled.not_handles hC ⟨common_initial hC.toLawful hne, side_initial⟩ hruns hlate

def lateRun : List (Action Symbolic.toySuite) :=
  [.encrypt .initiator [1], .encrypt .initiator [2], .deliver .initiator 1 (2 : Nat),
    .encrypt .responder [3], .deliver .responder 0 (3 : Nat), .encrypt .initiator [4],
    .deliver .initiator 2 (4 : Nat), .deliver .initiator 0 (5 : Nat)]

def lateRunStart : World Symbolic.toySuite := initial (.protocol "") (0 : Nat) (1 : Nat)

theorem runs_lateRun : lateRunStart.Runs lateRun := by decide +kernel

theorem hasLate_lateRun : lateRunStart.HasLate lateRun := by decide +kernel

theorem late_never_handled_lateRun : ¬ lateRunStart.Handles lateRun :=
  late_never_handled (Symbolic.ideal_suite _) (by decide) runs_lateRun hasLate_lateRun

theorem not_late_handled :
    ¬ ∀ (C : Suite), C.Ideal → ∀ (secret : C.Key) (a b : C.Secret),
      C.samePoint (C.publicKey b) (C.publicKey a) = false → ∀ actions : List (Action C),
        (initial secret a b).Runs actions → (initial secret a b).Handles actions := by
  intro h
  have hne : Symbolic.toySuite.samePoint (Symbolic.toySuite.publicKey (1 : Nat))
      (Symbolic.toySuite.publicKey (0 : Nat)) = false := by decide
  have hcoupled : lateRunStart.Coupled _ 1 :=
    ⟨common_initial (Symbolic.lawful_suite _) hne, side_initial⟩
  exact hcoupled.not_handles (Symbolic.ideal_suite _) runs_lateRun hasLate_lateRun
    (h _ (Symbolic.ideal_suite _) _ _ _ hne _ runs_lateRun)

end Late

end World

end ProjectMesh.Crypto.Ratchet
