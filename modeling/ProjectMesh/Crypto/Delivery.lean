import ProjectMesh.Crypto.LadderLaws

namespace ProjectMesh.Crypto.Ratchet

open ProjectMesh.Lib

variable {C : Suite}

namespace Ladder

structure Transcript (L : Ladder C) (l : Nat) (msgs : List (Message C)) : Prop where
  length : msgs.length = L.offset l + L.len l
  holds : ∀ t ≤ l, t % 2 = l % 2 → ∀ n < L.len t, ∃ m, msgs[L.offset t + n]? = some m ∧
    m.header = L.header t n ∧ m.OpensWith (L.messageKey t n)
  bound : ∀ t ≤ l, t % 2 = l % 2 → L.len t < 2 ^ 32

structure Sender (L : Ladder C) (l : Nat) (s : DoubleRatchet C) : Prop where
  dhSelf : s.dhSelf = (L.rung l).secret
  dhSelfPub : s.dhSelfPub = L.pub l
  rootKey : s.rootKey = (L.rung l).root
  sendN : s.sendN = L.len l
  prevSendN : s.prevSendN = L.prevLen l
  sendChain : s.sendChain = if l = 0 then none else some (chainAt (L.rung l).chain (L.len l))

/-- The receiving half of a session whose own key is rung `l`, when the other side has sent
`msgs` and those of `delivered` have arrived. -/
structure Receiver (L : Ladder C) (l : Nat) (msgs : List (Message C)) (delivered : Finset Nat)
    (s : DoubleRatchet C) : Prop where
  dhRemote : s.dhRemote = if l = 0 then none else some (L.pub (l - 1))
  recvChain : s.recvChain =
    if l < 2 then none else some (chainAt (L.rung (l - 1)).chain s.recvN)
  recvN_le : s.recvN ≤ L.len (l - 1)
  recvN_pos : 2 ≤ l → 0 < s.recvN
  below : ∀ i ∈ delivered, i < L.offset (l - 1) + s.recvN
  last : ∀ i, L.offset (l - 1) + s.recvN = i + 1 → i ∈ delivered
  stored : Stored msgs (L.offset (l - 1) + s.recvN) delivered s.skipped
  bounded : (missing (L.offset (l - 1) + s.recvN) delivered).card ≤ maxSkip

variable {L : Ladder C} {l top t n i k a : Nat} {msgs : List (Message C)}
  {delivered : Finset Nat} {s : DoubleRatchet C} {m : Message C} {fresh : C.Secret}

theorem header_n (hn : n < 2 ^ 32) : (L.header t n).n.toNat = n :=
  UInt32.toNat_ofNat_of_lt' hn

theorem Transcript.slot (h : L.Transcript l msgs) (hi : msgs[i]? = some m) :
    ∃ t ≤ l, t % 2 = l % 2 ∧ ∃ n < L.len t, i = L.offset t + n ∧ m.header = L.header t n ∧
      m.OpensWith (L.messageKey t n) := by
  have hlt : i < msgs.length := (List.getElem?_eq_some_iff.mp hi).1
  rw [h.length] at hlt
  obtain ⟨t, ht, hpar, n, hn, rfl⟩ := L.exists_slot l hlt
  obtain ⟨m', hm', hhead, hopen⟩ := h.holds t ht hpar n hn
  rw [hi] at hm'
  cases hm'
  exact ⟨t, ht, hpar, n, hn, rfl, hhead, hopen⟩

theorem Transcript.slotsDistinct (hC : C.Lawful) (hL : L.Linked top) (hl : l ≤ top)
    (h : L.Transcript l msgs) : SlotsDistinct msgs := by
  intro i j m m' hi hj heq
  obtain ⟨t, ht, htp, n, hn, rfl, hhead, -⟩ := h.slot hi
  obtain ⟨t', ht', htp', n', hn', rfl, hhead', -⟩ := h.slot hj
  have hb := h.bound t ht htp
  have hb' := h.bound t' ht' htp'
  simp only [Message.slot, hhead, hhead', Prod.mk.injEq, header_n (Nat.lt_trans hn hb),
    header_n (Nat.lt_trans hn' hb')] at heq
  obtain ⟨hpub, rfl⟩ := heq
  rw [hL.pub_inj hC (Nat.le_trans ht hl) (Nat.le_trans ht' hl) hpub]

theorem Transcript.ahead (h : L.Transcript l msgs) (ht : t ≤ l) (hpar : t % 2 = l % 2)
    (hk : a + k ≤ L.len t) :
    Stored.Ahead msgs (L.offset t + a) (L.pub t) (chainAt (L.rung t).chain a) a k := by
  intro j hj
  obtain ⟨m, hm, hhead, hopen⟩ := h.holds t ht hpar (a + j) (by omega)
  have hb := h.bound t ht hpar
  refine ⟨m, by rw [Nat.add_assoc]; exact hm, ?_, ?_⟩
  · rw [Message.slot, hhead, header_n (by omega)]
    rfl
  · rw [messageKeyAt_add]
    exact hopen

theorem Sender.of_sendingHalf {s' : DoubleRatchet C} (h : L.Sender l s)
    (heq : s'.sendingHalf = s.sendingHalf) : L.Sender l s' := by
  simp only [DoubleRatchet.sendingHalf, Prod.mk.injEq] at heq
  obtain ⟨hself, hpub, -, hroot, hchain, hn, hprev⟩ := heq
  exact ⟨hself ▸ h.dhSelf, hpub ▸ h.dhSelfPub, hroot ▸ h.rootKey, hn ▸ h.sendN,
    hprev ▸ h.prevSendN, hchain ▸ h.sendChain⟩

theorem Receiver.remote (h : L.Receiver (t + 1) msgs delivered s) :
    s.dhRemote = some (L.pub t) := by
  simpa using h.dhRemote

theorem Receiver.chain (h : L.Receiver (t + 1) msgs delivered s) (ht : 0 < t) :
    s.recvChain = some (chainAt (L.rung t).chain s.recvN) := by
  simpa [Nat.not_lt.mpr (show 2 ≤ t + 1 by omega)] using h.recvChain

theorem Receiver.hasRemote_eq_false (h : L.Receiver l msgs delivered s) {pub : C.Public}
    (hnew : l ≠ 0 → C.samePoint (L.pub (l - 1)) pub = false) : s.hasRemote pub = false := by
  rw [DoubleRatchet.hasRemote, h.dhRemote]
  by_cases hl : l = 0
  · simp [hl]
  · simpa [hl] using hnew hl

structure Received (m : Message C) (isNew : Prop) (s s' : DoubleRatchet C)
    (fresh : C.Secret) : Prop where
  run_new : isNew → (DoubleRatchet.decrypt fresh m.header m.ciphertext).run s =
    .ok m.plaintext s'
  run_old : ¬ isNew → (DoubleRatchet.decrypt fresh m.header m.ciphertext).run s =
    .error (.err consumed) s'

theorem decrypt_of_opens (hr : s.dhRemote = some (L.pub t)) (hC : C.Lawful)
    (hhead : m.header = L.header t n) (hn : n < 2 ^ 32) {mk : C.Key} {s' : DoubleRatchet C}
    (hk : (DoubleRatchet.messageKeyFor n).run s = .ok mk s') (hopen : m.OpensWith mk) :
    (DoubleRatchet.decrypt fresh m.header m.ciphertext).run s = .ok m.plaintext s' := by
  have hrem : s.hasRemote m.header.dhPub = true := by
    rw [DoubleRatchet.hasRemote, hr, hhead]
    exact hC.samePoint_refl _
  have hidx : m.header.n.toNat = n := by rw [hhead, header_n hn]
  rw [← hidx] at hk
  rw [DoubleRatchet.decrypt_sameRemote hrem, receive_run_ok hk, hopen, Method.run_ofExcept_ok]

theorem slot_of_header (hhead : m.header = L.header t n) (hn : n < 2 ^ 32) :
    m.slot = (L.pub t, n) := by
  rw [Message.slot, hhead, header_n hn]
  rfl

theorem Transcript.lookup_ahead (hT : L.Transcript l msgs) (hslots : SlotsDistinct msgs)
    (hle : t ≤ l) (hpar : t % 2 = l % 2) {stored : SkippedKeys C}
    (hstored : Stored msgs (L.offset t + a) delivered stored) (hge : a ≤ n) (hn : n < L.len t)
    (hi : msgs[L.offset t + n]? = some m) (hhead : m.header = L.header t n) :
    stored.lookup (L.pub t, n) = none := by
  have hnot : L.offset t + n ∉ missing (L.offset t + a) delivered := fun hm => by
    have := (mem_missing.mp hm).1
    omega
  have hnone := hstored.lookup_of_notMem_missing hslots hi hnot
  rwa [slot_of_header hhead (Nat.lt_trans hn (hT.bound t hle hpar))] at hnone

theorem Receiver.of_advanced {l' : Nat} (hT : L.Transcript l' msgs) (hslots : SlotsDistinct msgs)
    (ht : 0 < t) (hle : t ≤ l') (hpar : t % 2 = l' % 2) (hr : s.dhRemote = some (L.pub t))
    (hc : s.recvChain = some (chainAt (L.rung t).chain s.recvN))
    (hbelow : ∀ j ∈ delivered, j < L.offset t + s.recvN)
    (hstored : Stored msgs (L.offset t + s.recvN) delivered s.skipped) (hge : s.recvN ≤ n)
    (hn : n < L.len t) (hi : msgs[L.offset t + n]? = some m) (hhead : m.header = L.header t n)
    (hcard : (missing (L.offset t + n + 1) (insert (L.offset t + n) delivered)).card ≤ maxSkip) :
    ∃ s', (DoubleRatchet.messageKeyFor n).run s = .ok (L.messageKey t n) s' ∧
      s'.sendingHalf = s.sendingHalf ∧
      L.Receiver (t + 1) msgs (insert (L.offset t + n) delivered) s' := by
  have hlen := hT.bound t hle hpar
  have hidx : L.offset t + n = L.offset t + s.recvN + (n - s.recvN) := by omega
  have hnone := hT.lookup_ahead hslots hle hpar hstored hge hn hi hhead
  have hahead := hT.ahead hle hpar (a := s.recvN) (k := n - s.recvN) (by omega)
  have hbound := hcard
  rw [hidx, missing_insert_frontier, card_missing_add hbelow] at hcard
  have hroom := hstored.room hslots hahead hcard
  have hk := DoubleRatchet.messageKeyFor_advance hr hnone hge hc (by omega) hroom
  rw [messageKeyAt_add, Nat.add_sub_cancel' hge] at hk
  have hstash := (hstored.stash hslots hbelow hahead).arrive
  rw [← hidx] at hstash
  refine ⟨_, hk, rfl, ?_⟩
  exact {
    dhRemote := by
      rw [if_neg (by omega)]
      exact hr
    recvChain := by
      simp only [DoubleRatchet.advanced, chainAt_add]
      rw [if_neg (by omega), Nat.add_sub_cancel, ← Nat.add_assoc, Nat.add_sub_cancel' hge]
    recvN_le := hn
    recvN_pos := fun _ => Nat.succ_pos n
    below := fun j hj => by
      simp only [DoubleRatchet.advanced, Nat.add_sub_cancel]
      rcases Finset.mem_insert.mp hj with rfl | hj
      · omega
      · have := hbelow j hj
        omega
    last := fun j hj => by
      simp only [DoubleRatchet.advanced, Nat.add_sub_cancel] at hj
      exact Finset.mem_insert.mpr (.inl (by omega))
    stored := hstash
    bounded := hbound }

section SameChain

variable (hC : C.Lawful) (hslots : SlotsDistinct msgs) (h : L.Receiver (t + 1) msgs delivered s)
  (hb : n < 2 ^ 32) (hi : msgs[L.offset t + n]? = some m) (hhead : m.header = L.header t n)

include hC hslots h hb hi hhead

theorem Receiver.seen (hlt : n < s.recvN) (hd : L.offset t + n ∈ delivered) (fresh : C.Secret) :
    (DoubleRatchet.decrypt fresh m.header m.ciphertext).run s = .error (.err consumed) s := by
  have hslot := slot_of_header hhead hb
  have hnone := h.stored.lookup_of_notMem_missing hslots hi (fun hm => (mem_missing.mp hm).2 hd)
  rw [hslot] at hnone
  have hk := DoubleRatchet.messageKeyFor_consumed h.remote hnone hlt
  have hidx : m.header.n.toNat = n := congrArg Prod.snd hslot
  have hrem : s.hasRemote m.header.dhPub = true := by
    rw [DoubleRatchet.hasRemote, h.remote, hhead]
    exact hC.samePoint_refl _
  rw [← hidx] at hk
  rw [DoubleRatchet.decrypt_sameRemote hrem, receive_run_error hk]

theorem Receiver.kept (hlt : n < s.recvN) (hd : L.offset t + n ∉ delivered)
    (hcard : (missing (L.offset t + s.recvN) (insert (L.offset t + n) delivered)).card ≤ maxSkip)
    (fresh : C.Secret) :
    ∃ s', (DoubleRatchet.decrypt fresh m.header m.ciphertext).run s = .ok m.plaintext s' ∧
      s'.sendingHalf = s.sendingHalf ∧
      L.Receiver (t + 1) msgs (insert (L.offset t + n) delivered) s' := by
  have hstored : Stored msgs (L.offset t + s.recvN) delivered s.skipped := h.stored
  have hmiss : L.offset t + n ∈ missing (L.offset t + s.recvN) delivered :=
    mem_missing.mpr ⟨by omega, hd⟩
  obtain ⟨mk, hl, hopen'⟩ := hstored.stored _ _ hi hmiss
  have htake := hstored.take hslots hi hmiss
  rw [slot_of_header hhead hb] at hl htake
  have hk := DoubleRatchet.messageKeyFor_stored h.remote hl
  refine ⟨s.without (L.pub t, n), decrypt_of_opens h.remote hC hhead hb hk hopen', rfl, ?_⟩
  exact {
    dhRemote := h.dhRemote
    recvChain := h.recvChain
    recvN_le := h.recvN_le
    recvN_pos := h.recvN_pos
    below := fun j hj => by
      rcases Finset.mem_insert.mp hj with rfl | hj
      · exact Nat.add_lt_add_left hlt _
      · exact h.below j hj
    last := fun j hj => Finset.mem_insert_of_mem (h.last j hj)
    stored := htake
    bounded := hcard }

end SameChain

theorem Receiver.sameChain (hC : C.Lawful) {l' : Nat} (hT : L.Transcript l' msgs)
    (hslots : SlotsDistinct msgs) (ht : 0 < t) (hle : t ≤ l') (hpar : t % 2 = l' % 2)
    (h : L.Receiver (t + 1) msgs delivered s) (hn : n < L.len t)
    (hi : msgs[L.offset t + n]? = some m) (hhead : m.header = L.header t n)
    (hopen : m.OpensWith (L.messageKey t n))
    (hcard : (missing (max (L.offset t + s.recvN) (L.offset t + n + 1))
      (insert (L.offset t + n) delivered)).card ≤ maxSkip) (fresh : C.Secret) :
    ∃ s', Received m (L.offset t + n ∉ delivered) s s' fresh ∧
      s'.sendingHalf = s.sendingHalf ∧
      L.Receiver (t + 1) msgs (insert (L.offset t + n) delivered) s' := by
  have hb : n < 2 ^ 32 := Nat.lt_trans hn (hT.bound t hle hpar)
  have hbelow : ∀ j ∈ delivered, j < L.offset t + s.recvN := h.below
  by_cases hlt : n < s.recvN
  · rw [Nat.max_eq_left (by omega)] at hcard
    by_cases hd : L.offset t + n ∈ delivered
    · have hseen := h.seen hC hslots hb hi hhead hlt hd fresh
      refine ⟨s, ⟨fun hnew => absurd hd hnew, fun _ => hseen⟩, rfl, ?_⟩
      rwa [Finset.insert_eq_self.mpr hd]
    · obtain ⟨s', hrun, hhalf, hrec⟩ := h.kept hC hslots hb hi hhead hlt hd hcard fresh
      exact ⟨s', ⟨fun _ => hrun, fun hold => absurd hd hold⟩, hhalf, hrec⟩
  · have hge : s.recvN ≤ n := Nat.not_lt.mp hlt
    rw [Nat.max_eq_right (by omega)] at hcard
    have hd : L.offset t + n ∉ delivered := fun hd => by
      have := hbelow _ hd
      omega
    obtain ⟨s', hk, hhalf, hrec⟩ := Receiver.of_advanced hT hslots ht hle hpar h.remote (h.chain ht)
      hbelow h.stored hge hn hi hhead hcard
    exact ⟨s', ⟨fun _ => decrypt_of_opens h.remote hC hhead hb hk hopen,
      fun hold => absurd hd hold⟩, hhalf, hrec⟩

theorem Receiver.rest (hT : L.Transcript (t + 1 + 1) msgs)
    (h : L.Receiver (t + 1) msgs delivered s) (hhead : m.header = L.header (t + 1 + 1) n) :
    m.header.pn.toNat = L.len t ∧
      L.offset (t + 1 + 1) = L.offset t + s.recvN + (L.len t - s.recvN) ∧
      Stored.Ahead msgs (L.offset t + s.recvN) (L.pub t) (chainAt (L.rung t).chain s.recvN)
        s.recvN (L.len t - s.recvN) := by
  have hle : s.recvN ≤ L.len t := h.recvN_le
  refine ⟨?_, ?_, hT.ahead (by omega) (by omega) (by omega)⟩
  · rw [hhead]
    exact UInt32.toNat_ofNat_of_lt' (hT.bound t (by omega) (by omega))
  · rw [offset]
    omega

theorem Receiver.drain (hT : L.Transcript (l + 1) msgs) (hslots : SlotsDistinct msgs)
    (hzero : L.len 0 = 0) (h : L.Receiver l msgs delivered s)
    (hhead : m.header = L.header (l + 1) n)
    (hcard : (missing (L.offset (l + 1)) delivered).card ≤ maxSkip) (fresh : C.Secret) :
    ∃ u : DoubleRatchet C, (DoubleRatchet.turn fresh m.header).run s =
        .ok () (u.turned fresh (L.pub (l + 1))) ∧
      u.sendingHalf = s.sendingHalf ∧ (∀ i ∈ delivered, i < L.offset (l + 1)) ∧
      Stored msgs (L.offset (l + 1)) delivered u.skipped := by
  have hpub : m.header.dhPub = L.pub (l + 1) := by
    rw [hhead]
    rfl
  by_cases hl : l < 2
  · -- no chain yet
    have hc : s.recvChain = none := by simpa [hl] using h.recvChain
    have hzero' : L.offset (l - 1) + s.recvN = L.offset (l + 1) := by
      have hle := h.recvN_le
      obtain rfl | rfl : l = 0 ∨ l = 1 := by omega
      · simp only [Nat.zero_sub, hzero] at hle
        simp only [Nat.zero_sub, Nat.zero_add, offset]
        omega
      · simp only [Nat.sub_self, hzero] at hle
        simp only [Nat.sub_self, offset, hzero]
        omega
    refine ⟨s, ?_, rfl, ?_, ?_⟩
    · rw [DoubleRatchet.turn_noChain fresh hc, hpub]
    · rw [← hzero']
      exact h.below
    · rw [← hzero']
      exact h.stored
  · obtain ⟨t, rfl⟩ : ∃ t, l = t + 1 := ⟨l - 1, by omega⟩
    have hbelow : ∀ j ∈ delivered, j < L.offset t + s.recvN := h.below
    have hstored : Stored msgs (L.offset t + s.recvN) delivered s.skipped := h.stored
    obtain ⟨hpn, hend, hahead⟩ := h.rest hT hhead
    rw [hend] at hcard ⊢
    rw [card_missing_add hbelow] at hcard
    have hroom := hstored.room hslots hahead hcard
    refine ⟨s.stashed (L.pub t) (chainAt (L.rung t).chain s.recvN) (L.len t - s.recvN),
      ?_, rfl, fun i hi => Nat.lt_of_lt_of_le (hbelow i hi) (Nat.le_add_right _ _), ?_⟩
    · rw [DoubleRatchet.turn_room fresh (h.chain (by omega)) h.remote (hpn.symm ▸ hroom), hpub,
        hpn]
    · exact hstored.stash hslots hbelow hahead

theorem Sender.extend (h : L.Sender l s) (hl : l ≤ top) : (L.extend top fresh).Sender l s where
  dhSelf := by rw [extend_rung hl]; exact h.dhSelf
  dhSelfPub := by rw [extend_pub hl]; exact h.dhSelfPub
  rootKey := by rw [extend_rung hl]; exact h.rootKey
  sendN := h.sendN
  prevSendN := by rw [extend_prevLen]; exact h.prevSendN
  sendChain := by rw [extend_rung hl]; exact h.sendChain

theorem Receiver.extend (h : L.Receiver l msgs delivered s) (hl : l ≤ top + 1) :
    (L.extend top fresh).Receiver l msgs delivered s where
  dhRemote := by rw [extend_pub (by omega)]; exact h.dhRemote
  recvChain := by rw [extend_rung (by omega)]; exact h.recvChain
  recvN_le := h.recvN_le
  recvN_pos := h.recvN_pos
  below := by rw [extend_offset]; exact h.below
  last := by rw [extend_offset]; exact h.last
  stored := by rw [extend_offset]; exact h.stored
  bounded := by rw [extend_offset]; exact h.bounded

section NewChain

variable (hC : C.Lawful) (hL : L.Linked (l + 1)) (hs : L.Sender l s)

include hC hL hs

theorem Sender.kdfRk_eq : kdfRk s.rootKey (C.diffieHellman s.dhSelf (L.pub (l + 1))) =
    ((L.rung (l + 1)).root, (L.rung (l + 1)).chain) := by
  rw [hs.rootKey, hs.dhSelf, pub, hC.dh_comm]
  exact hL.step l (Nat.lt_succ_self l)

theorem Sender.recvChain_turned (fresh : C.Secret) :
    (s.turned fresh (L.pub (l + 1))).recvChain = some (L.rung (l + 1)).chain := by
  simp only [DoubleRatchet.turned, hs.kdfRk_eq hC hL]

theorem Sender.turned (hnext : L.len (l + 2) = 0) (fresh : C.Secret) :
    (L.extend (l + 1) fresh).Sender (l + 2) (s.turned fresh (L.pub (l + 1))) where
  dhSelf := by rw [extend_rung_top]; rfl
  dhSelfPub := extend_pub_top.symm
  rootKey := by
    rw [extend_rung_top]
    simp only [DoubleRatchet.turned, hs.kdfRk_eq hC hL]
  sendN := hnext.symm
  prevSendN := hs.sendN
  sendChain := by
    rw [extend_rung_top, extend_len, hnext]
    simp only [DoubleRatchet.turned, hs.kdfRk_eq hC hL]
    rfl

end NewChain

theorem Receiver.hasRemote_newChain (hL : L.Linked (l + 1)) (h : L.Receiver l msgs delivered s)
    (hhead : m.header = L.header (l + 1) n) : s.hasRemote m.header.dhPub = false := by
  have hpub : m.header.dhPub = L.pub (l + 1) := by
    rw [hhead]
    rfl
  refine h.hasRemote_eq_false fun hl => ?_
  rw [hpub]
  exact hL.distinct (l - 1) (by omega) (l + 1) (Nat.le_refl _) (by omega)

theorem Receiver.newChain (hC : C.Lawful) (hL : L.Linked (l + 1))
    (hT : L.Transcript (l + 1) msgs) (hslots : SlotsDistinct msgs) (hzero : L.len 0 = 0)
    (hnext : L.len (l + 2) = 0) (hs : L.Sender l s) (h : L.Receiver l msgs delivered s)
    (hn : n < L.len (l + 1)) (hi : msgs[L.offset (l + 1) + n]? = some m)
    (hhead : m.header = L.header (l + 1) n) (hopen : m.OpensWith (L.messageKey (l + 1) n))
    (hcard : (missing (L.offset (l + 1) + n + 1)
      (insert (L.offset (l + 1) + n) delivered)).card ≤ maxSkip) (fresh : C.Secret) :
    ∃ s', (DoubleRatchet.decrypt fresh m.header m.ciphertext).run s = .ok m.plaintext s' ∧
      (L.extend (l + 1) fresh).Sender (l + 2) s' ∧
      (L.extend (l + 1) fresh).Receiver (l + 2) msgs
        (insert (L.offset (l + 1) + n) delivered) s' := by
  have hold := h.hasRemote_newChain hL hhead
  have hcard' : (missing (L.offset (l + 1)) delivered).card ≤ maxSkip := by
    refine Nat.le_trans (Finset.card_le_card fun j hj => ?_) hcard
    rw [missing_insert_frontier, mem_missing]
    rw [mem_missing] at hj
    exact ⟨by omega, hj.2⟩
  obtain ⟨u, hturn, hu, hbelow, hstored⟩ := h.drain hT hslots hzero hhead hcard' fresh
  have hsu := hs.of_sendingHalf hu
  obtain ⟨s', hk, hhalf, hrec⟩ := Receiver.of_advanced (s := u.turned fresh (L.pub (l + 1))) hT
    hslots (Nat.succ_pos l) (Nat.le_refl _) rfl rfl (hsu.recvChain_turned hC hL fresh) hbelow
    hstored (Nat.zero_le n) hn hi hhead hcard
  refine ⟨s', ?_, (hsu.turned hC hL hnext fresh).of_sendingHalf hhalf,
    hrec.extend (Nat.le_refl _)⟩
  have hidx : m.header.n.toNat = n := by
    rw [hhead, header_n (Nat.lt_trans hn (hT.bound (l + 1) (Nat.le_refl _) rfl))]
  rw [← hidx] at hk
  rw [DoubleRatchet.decrypt_newRemote hold, EStateM.run_bind, hturn]
  simp only
  rw [receive_run_ok hk, hidx, hopen, Method.run_ofExcept_ok]

theorem extend_header (ht : t ≤ top) : (L.extend top fresh).header t n = L.header t n := by
  rw [header, extend_pub ht, extend_prevLen, header]

theorem extend_messageKey (ht : t ≤ top) :
    (L.extend top fresh).messageKey t n = L.messageKey t n := by
  rw [messageKey, extend_rung ht, messageKey]

theorem Transcript.extend (h : L.Transcript l msgs) (hl : l ≤ top) :
    (L.extend top fresh).Transcript l msgs where
  length := by rw [extend_offset]; exact h.length
  holds t ht hpar n hn := by
    rw [extend_offset, extend_header (Nat.le_trans ht hl),
      extend_messageKey (Nat.le_trans ht hl)]
    exact h.holds t ht hpar n hn
  bound := h.bound

theorem Sender.sendOn (h : L.Sender l s) (hne : l ≠ t) (hle : l ≤ t + 1) :
    (L.sendOn t).Sender l s where
  dhSelf := h.dhSelf
  dhSelfPub := h.dhSelfPub
  rootKey := h.rootKey
  sendN := by rw [sendOn_len_of_ne hne]; exact h.sendN
  prevSendN := by rw [sendOn_prevLen hle]; exact h.prevSendN
  sendChain := by rw [sendOn_len_of_ne hne]; exact h.sendChain

theorem Receiver.sendOn (h : L.Receiver l msgs delivered s) (hle : l - 1 ≤ t + 1) :
    (L.sendOn t).Receiver l msgs delivered s where
  dhRemote := h.dhRemote
  recvChain := h.recvChain
  recvN_le := Nat.le_trans h.recvN_le le_sendOn_len
  recvN_pos := h.recvN_pos
  below := by rw [sendOn_offset L hle]; exact h.below
  last := by rw [sendOn_offset L hle]; exact h.last
  stored := by rw [sendOn_offset L hle]; exact h.stored
  bounded := by rw [sendOn_offset L hle]; exact h.bounded

theorem Receiver.append (h : L.Receiver l msgs delivered s)
    (hle : L.offset (l - 1) + s.recvN ≤ msgs.length) (more : List (Message C)) :
    L.Receiver l (msgs ++ more) delivered s where
  dhRemote := h.dhRemote
  recvChain := h.recvChain
  recvN_le := h.recvN_le
  recvN_pos := h.recvN_pos
  below := h.below
  last := h.last
  stored := h.stored.append hle more
  bounded := h.bounded

theorem Receiver.of_encrypt {chain : Option C.Key} (h : L.Receiver l msgs delivered s) :
    L.Receiver l msgs delivered { s with sendChain := chain, sendN := n } :=
  ⟨h.dhRemote, h.recvChain, h.recvN_le, h.recvN_pos, h.below, h.last, h.stored, h.bounded⟩

theorem sendOn_header (ht : i ≤ t + 1) : (L.sendOn t).header i n = L.header i n := by
  rw [header, sendOn_prevLen ht, header]
  rfl

theorem Transcript.sendOn_other (h : L.Transcript l msgs) (hpar : l % 2 ≠ t % 2)
    (hle : l ≤ t + 1) : (L.sendOn t).Transcript l msgs where
  length := by
    rw [sendOn_offset L hle, sendOn_len_of_ne (by omega)]
    exact h.length
  holds i hi hip n hn := by
    rw [sendOn_len_of_ne (by omega)] at hn
    rw [sendOn_offset L (by omega), sendOn_header (by omega)]
    exact h.holds i hi hip n hn
  bound i hi hip := by
    rw [sendOn_len_of_ne (by omega)]
    exact h.bound i hi hip

theorem Transcript.sendOn (h : L.Transcript l msgs) (hb : L.len l + 1 < 2 ^ 32)
    (hhead : m.header = L.header l (L.len l))
    (hopen : m.OpensWith (L.messageKey l (L.len l))) :
    (L.sendOn l).Transcript l (msgs ++ [m]) where
  length := by
    rw [sendOn_offset L (Nat.le_succ l), sendOn_len_self, List.length_append, h.length]
    rfl
  holds t ht hpar n hn := by
    rw [sendOn_offset L (by omega), sendOn_header (by omega)]
    by_cases hlast : t = l ∧ n = L.len l
    · obtain ⟨rfl, rfl⟩ := hlast
      refine ⟨m, ?_, hhead, hopen⟩
      rw [← h.length, List.getElem?_concat_length]
    · have hn' : n < L.len t := by
        by_cases htl : t = l
        · subst htl
          rw [sendOn_len_self] at hn
          omega
        · rwa [sendOn_len_of_ne htl] at hn
      obtain ⟨m', hm', hrest⟩ := h.holds t ht hpar n hn'
      refine ⟨m', ?_, hrest⟩
      rw [List.getElem?_append_left (List.getElem?_eq_some_iff.mp hm').1]
      exact hm'
  bound t ht hpar := by
    by_cases htl : t = l
    · subst htl
      rwa [sendOn_len_self]
    · rw [sendOn_len_of_ne htl]
      exact h.bound t ht hpar

theorem Sender.encrypt (hC : C.Lawful) (h : L.Sender l s) (hl : l ≠ 0)
    (hb : L.len l + 1 < 2 ^ 32) {plaintext : List UInt8} (hlen : plaintext.length ≤ 65532) :
    ∃ ct, (DoubleRatchet.encrypt plaintext).run s = .ok (L.header l (L.len l), ct)
        { s with
          sendChain := some (chainAt (L.rung l).chain (L.len l + 1))
          sendN := L.len l + 1 } ∧
      openMessage (L.messageKey l (L.len l)) (L.header l (L.len l)) ct = .ok plaintext := by
  have hchain : s.sendChain = some (chainAt (L.rung l).chain (L.len l)) := by
    rw [h.sendChain, if_neg hl]
  have hhead : s.nextHeader = L.header l (L.len l) := by
    rw [DoubleRatchet.nextHeader, h.dhSelfPub, h.prevSendN, h.sendN, header]
  have hfits := DoubleRatchet.encrypt_fits hC hchain (h.sendN ▸ hb) hlen
  rw [DoubleRatchet.sentOn, hhead, h.sendN] at hfits
  exact hfits

theorem Sender.encrypted (h : L.Sender l s) (hl : l ≠ 0) :
    (L.sendOn l).Sender l { s with
      sendChain := some (chainAt (L.rung l).chain (L.len l + 1))
      sendN := L.len l + 1 } where
  dhSelf := h.dhSelf
  dhSelfPub := h.dhSelfPub
  rootKey := h.rootKey
  sendN := sendOn_len_self.symm
  prevSendN := by rw [sendOn_prevLen (Nat.le_succ l)]; exact h.prevSendN
  sendChain := by
    rw [if_neg hl, sendOn_len_self]
    rfl

end Ladder

end ProjectMesh.Crypto.Ratchet
