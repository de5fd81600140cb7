import ProjectMesh.Crypto.Delivery
import ProjectMesh.Crypto.Symbolic

namespace ProjectMesh.Crypto.Ratchet

open ProjectMesh.Lib

variable {C : Suite}

def Party.parity : Party → Nat
  | .initiator => 1
  | .responder => 0

theorem Party.parity_lt (p : Party) : p.parity < 2 := by cases p <;> decide

theorem Party.parity_other (p : Party) : p.other.parity = 1 - p.parity := by cases p <;> rfl

def Party.level (p : Party) (top : Nat) : Nat := if top % 2 = p.parity then top else top - 1

theorem Party.level_le (p : Party) (top : Nat) : p.level top ≤ top := by
  rw [level]
  split <;> omega

theorem Party.level_other (p : Party) {top : Nat} (h : 1 ≤ top) :
    (p.level top = top ∧ p.other.level top = top - 1) ∨
      (p.level top = top - 1 ∧ p.other.level top = top) := by
  have := p.parity_lt
  rw [level, level, p.parity_other]
  split <;> split <;> omega

theorem Party.level_succ_of_lt (p : Party) {top : Nat} (h : p.level top < top) :
    p.level (top + 1) = top + 1 := by
  have := p.parity_lt
  rw [level] at h ⊢
  split at h <;> split <;> omega

theorem Party.level_succ_of_eq (p : Party) {top : Nat} (h : p.level top = top) (ht : 1 ≤ top) :
    p.level (top + 1) = top := by
  have := p.parity_lt
  rw [level] at h ⊢
  split at h <;> split <;> omega

theorem Party.level_mono (p : Party) {top top' : Nat} (h : top ≤ top') :
    p.level top ≤ p.level top' := by
  have := p.parity_lt
  rw [level, level]
  split <;> split <;> omega

namespace World

structure Common (L : Ladder C) (top : Nat) (w : World C) : Prop where
  pos : 1 ≤ top
  linked : L.Linked top
  zero : L.len 0 = 0
  unsent : ∀ t, top < t → L.len t = 0
  generated : ∀ t ≤ top, L.pub t ∈ w.generated
  transcript : ∀ p : Party, L.Transcript (p.level top) (w.sent p)

structure Side (L : Ladder C) (top : Nat) (w : World C) (p : Party) : Prop where
  sender : L.Sender (p.level top) (w.ratchet p)
  receiver : L.Receiver (p.level top) (w.sent p.other) (w.delivered p.other) (w.ratchet p)

structure Coupled (L : Ladder C) (top : Nat) (w : World C) : Prop where
  common : w.Common L top
  side : ∀ p, w.Side L top p

section Updates

variable {w : World C} {p q : Party} {s : DoubleRatchet C} {i : Nat} {m : Message C}

@[simp] theorem setRatchet_ratchet_self : (w.setRatchet p s).ratchet p = s :=
  Function.update_self _ _ _

theorem setRatchet_ratchet_of_ne (h : q ≠ p) : (w.setRatchet p s).ratchet q = w.ratchet q :=
  Function.update_of_ne h _ _

@[simp] theorem setRatchet_sent : (w.setRatchet p s).sent = w.sent := rfl

@[simp] theorem setRatchet_generated :
    (w.setRatchet p s).generated = s.dhSelfPub :: w.generated := rfl

@[simp] theorem send_ratchet : (w.send p m).ratchet = w.ratchet := rfl

@[simp] theorem send_sent_self : (w.send p m).sent p = w.sent p ++ [m] :=
  Function.update_self _ _ _

theorem send_sent_of_ne (h : q ≠ p) : (w.send p m).sent q = w.sent q :=
  Function.update_of_ne h _ _

@[simp] theorem markDelivered_ratchet : (w.markDelivered p i).ratchet = w.ratchet := rfl

@[simp] theorem markDelivered_sent : (w.markDelivered p i).sent = w.sent := rfl

@[simp] theorem markDelivered_delivered_self :
    (w.markDelivered p i).delivered p = insert i (w.delivered p) :=
  Function.update_self _ _ _

theorem markDelivered_delivered_of_ne (h : q ≠ p) :
    (w.markDelivered p i).delivered q = w.delivered q := Function.update_of_ne h _ _

end Updates

theorem mem_skippedOver {w : World C} {p : Party} {k : Nat} : k ∈ w.skippedOver p ↔
    k < (w.sent p).length ∧ k ∉ w.delivered p ∧ ∃ j ∈ w.delivered p, k < j := by
  simp [skippedOver]

theorem skippedOver_eq {w : World C} {p : Party} {frontier : Nat}
    (hbelow : ∀ j ∈ w.delivered p, j < frontier)
    (hlast : ∀ j, frontier = j + 1 → j ∈ w.delivered p)
    (hle : frontier ≤ (w.sent p).length) :
    w.skippedOver p = missing frontier (w.delivered p) := by
  ext k
  rw [mem_skippedOver, mem_missing]
  constructor
  · rintro ⟨-, hd, j, hj, hlt⟩
    have := hbelow j hj
    exact ⟨by omega, hd⟩
  · rintro ⟨hk, hd⟩
    obtain ⟨j, rfl⟩ : ∃ j, frontier = j + 1 := ⟨frontier - 1, by omega⟩
    have hj := hlast j rfl
    have hne : k ≠ j := fun h => hd (h ▸ hj)
    exact ⟨by omega, hd, j, hj, by omega⟩

section Initial

variable (secret : C.Key) (a b : C.Secret)

def initialLadder : Ladder C where
  rung
    | 0 => ⟨b, secret, secret⟩
    | _ + 1 =>
      let next := kdfRk secret (C.diffieHellman a (C.publicKey b))
      ⟨a, next.1, next.2⟩
  len _ := 0

theorem initialLadder_offset : ∀ t, (initialLadder secret a b).offset t = 0
  | 0 => rfl
  | 1 => rfl
  | t + 2 => by
    rw [Ladder.offset, initialLadder_offset t]
    rfl

variable {secret a b}

theorem common_initial (hC : C.Lawful)
    (hne : C.samePoint (C.publicKey b) (C.publicKey a) = false) :
    (initial secret a b).Common (initialLadder secret a b) 1 where
  pos := Nat.le_refl 1
  linked := {
    step := fun t ht => by
      obtain rfl : t = 0 := by omega
      rfl
    distinct := fun s hs t ht hst => by
      obtain ⟨rfl, rfl⟩ | ⟨rfl, rfl⟩ : (s = 0 ∧ t = 1) ∨ (s = 1 ∧ t = 0) := by omega
      · exact hne
      · rw [hC.samePoint_symm]
        exact hne }
  zero := rfl
  unsent _ _ := rfl
  generated t ht := by
    obtain rfl | rfl : t = 0 ∨ t = 1 := by omega
    · exact List.mem_cons_of_mem _ (List.mem_singleton.mpr rfl)
    · exact List.mem_cons_self
  transcript p := {
    length := (initialLadder_offset secret a b _).symm
    holds := fun t _ _ n hn => absurd hn (Nat.not_lt_zero n)
    bound := fun t _ _ => Nat.two_pow_pos 32 }

theorem stored_empty (msgs : List (Message C)) : Stored msgs 0 ∅ (∅ : SkippedKeys C) where
  stored i _ _ hm := absurd (mem_missing.mp hm).1 (Nat.not_lt_zero i)
  onlyStored key hkey := absurd hkey (AList.notMem_empty key)
  size := rfl

theorem side_initial (p : Party) :
    (initial secret a b).Side (initialLadder secret a b) 1 p := by
  cases p with
  | initiator =>
    exact {
      sender := ⟨rfl, rfl, rfl, rfl, rfl, rfl⟩
      receiver := ⟨rfl, rfl, Nat.le_refl 0, fun h => absurd h (by decide),
        fun i hi => absurd hi (Finset.notMem_empty i),
        fun i hi => absurd hi (Nat.zero_ne_add_one i), stored_empty _, Nat.zero_le _⟩ }
  | responder =>
    exact {
      sender := ⟨rfl, rfl, rfl, rfl, rfl, rfl⟩
      receiver := ⟨rfl, rfl, Nat.le_refl 0, fun h => absurd h (by decide),
        fun i hi => absurd hi (Finset.notMem_empty i),
        fun i hi => absurd hi (Nat.zero_ne_add_one i), stored_empty _, Nat.zero_le _⟩ }

end Initial

section Steps

variable {L : Ladder C} {top i : Nat} {w w' : World C} {p : Party} {m : Message C}
  {s : DoubleRatchet C} {fresh : C.Secret} {plaintext : List UInt8}

theorem Common.frontier_le (hcom : w.Common L top)
    (h : L.Receiver (p.other.level top) (w.sent p) (w.delivered p) s) :
    L.offset (p.other.level top - 1) + s.recvN ≤ (w.sent p).length := by
  have hle := h.recvN_le
  rw [(hcom.transcript p).length]
  have hadj := p.level_other hcom.pos
  by_cases hzero : p.other.level top = 0
  · rw [hzero] at hle ⊢
    simp only [Nat.zero_sub, hcom.zero, Ladder.offset] at hle ⊢
    omega
  · by_cases heq : p.other.level top - 1 = p.level top
    · rw [heq] at hle ⊢
      omega
    · have := Ladder.offset_add_len_le_of_lt (L := L)
        (s := p.other.level top - 1) (t := p.level top) (by omega) (by omega)
      omega

theorem Common.setRatchet (h : w.Common L top) : (w.setRatchet p s).Common L top where
  pos := h.pos
  linked := h.linked
  zero := h.zero
  unsent := h.unsent
  generated t ht := List.mem_cons_of_mem _ (h.generated t ht)
  transcript := h.transcript

theorem Common.markDelivered (h : w.Common L top) : (w.markDelivered p i).Common L top where
  pos := h.pos
  linked := h.linked
  zero := h.zero
  unsent := h.unsent
  generated := h.generated
  transcript := h.transcript

/-- A party's side does not depend on the other party's session, nor on what has arrived
there. -/
theorem Side.congr (h : w.Side L top p) (hr : w'.ratchet p = w.ratchet p)
    (hs : w'.sent p.other = w.sent p.other) (hd : w'.delivered p.other = w.delivered p.other) :
    w'.Side L top p where
  sender := by rw [hr]; exact h.sender
  receiver := by rw [hr, hs, hd]; exact h.receiver

theorem Common.sendOn (h : w.Common L top) (hpos : p.level top ≠ 0)
    (hb : L.len (p.level top) + 1 < 2 ^ 32)
    (hhead : m.header = L.header (p.level top) (L.len (p.level top)))
    (hopen : m.OpensWith (L.messageKey (p.level top) (L.len (p.level top)))) :
    (w.send p m).Common (L.sendOn (p.level top)) top where
  pos := h.pos
  linked := ⟨h.linked.step, h.linked.distinct⟩
  zero := by
    rw [Ladder.sendOn_len_of_ne (Ne.symm hpos)]
    exact h.zero
  unsent t ht := by
    have := p.level_le top
    rw [Ladder.sendOn_len_of_ne (by omega)]
    exact h.unsent t ht
  generated := h.generated
  transcript q := by
    have hadj := p.level_other h.pos
    rcases p.eq_or_eq_other q with rfl | rfl
    · rw [send_sent_self]
      exact (h.transcript q).sendOn hb hhead hopen
    · rw [send_sent_of_ne p.other_ne]
      exact (h.transcript p.other).sendOn_other (by omega) (by omega)

theorem Coupled.encrypt (hC : C.Lawful) (h : w.Coupled L top) (hlen : plaintext.length ≤ 65532)
    (hact : w.act (.encrypt p plaintext) = some w') : ∃ L', w'.Coupled L' top := by
  have hside := h.side p
  have hadj := p.level_other h.common.pos
  by_cases hpos : p.level top = 0
  · have hc : (w.ratchet p).sendChain = none := by
      rw [hside.sender.sendChain, if_pos hpos]
    simp only [act, DoubleRatchet.encrypt_noChain hc, Option.some.injEq] at hact
    subst hact
    refine ⟨L, h.common.setRatchet, fun q => (h.side q).congr ?_ rfl rfl⟩
    exact congrFun (Function.update_eq_self p w.ratchet) q
  by_cases hb : L.len (p.level top) + 1 < 2 ^ 32
  · obtain ⟨ct, hrun, hopen⟩ := hside.sender.encrypt hC hpos hb hlen
    simp only [act, hrun, Option.some.injEq] at hact
    subst hact
    refine ⟨L.sendOn (p.level top), h.common.setRatchet.sendOn hpos hb rfl hopen, fun q => ?_⟩
    rcases p.eq_or_eq_other q with rfl | rfl
    · exact {
        sender := by
          rw [send_ratchet, setRatchet_ratchet_self]
          exact hside.sender.encrypted hpos
        receiver := by
          rw [send_ratchet, setRatchet_ratchet_self, send_sent_of_ne q.other_ne]
          exact (hside.receiver.sendOn (by omega)).of_encrypt }
    · have hother := h.side p.other
      have hrec := hother.receiver
      rw [p.other_other] at hrec
      exact {
        sender := by
          rw [send_ratchet, setRatchet_ratchet_of_ne p.other_ne]
          exact hother.sender.sendOn (by omega) (by omega)
        receiver := by
          rw [send_ratchet, setRatchet_ratchet_of_ne p.other_ne, p.other_other,
            send_sent_self]
          refine (hrec.append (h.common.frontier_le hrec) _).sendOn ?_
          omega }
  · obtain ⟨chain, hc⟩ : ∃ chain, (w.ratchet p).sendChain = some chain :=
      ⟨_, by rw [hside.sender.sendChain, if_neg hpos]⟩
    obtain ⟨t, hpanic⟩ :=
      DoubleRatchet.encrypt_overflow hc (hside.sender.sendN.symm ▸ hb) plaintext
    simp [act, hpanic] at hact

theorem Common.extend (hC : C.Lawful) (h : w.Common L top)
    (hfresh : ∀ t ≤ top, C.samePoint (L.pub t) (C.publicKey fresh) = false)
    (hmem : C.publicKey fresh ∈ w.generated) :
    w.Common (L.extend top fresh) (top + 1) where
  pos := by omega
  linked := h.linked.extend hC hfresh
  zero := h.zero
  unsent t ht := h.unsent t (by omega)
  generated t ht := by
    rcases Nat.le_succ_iff.mp ht with ht | rfl
    · rw [Ladder.extend_pub ht]
      exact h.generated t ht
    · rw [Ladder.extend_pub_top]
      exact hmem
  transcript p := by
    have hle := p.level_le top
    by_cases hlt : p.level top = top
    · rw [p.level_succ_of_eq hlt h.pos]
      exact (hlt ▸ h.transcript p).extend (Nat.le_refl _)
    · have hT := h.transcript p
      have hadj := p.level_other h.pos
      have hlev : p.level top + 2 = top + 1 := by omega
      rw [p.level_succ_of_lt (by omega), ← hlev]
      -- nothing has been sent on the new chain
      have hnone : L.len (p.level top + 2) = 0 := h.unsent _ (by omega)
      have hlen : ∀ t ≤ p.level top + 2, t % 2 = (p.level top + 2) % 2 → L.len t = 0 ∨
          (t ≤ p.level top ∧ t % 2 = p.level top % 2) := fun t ht hpar => by
        by_cases heq : t = p.level top + 2
        · exact .inl (heq ▸ hnone)
        · exact .inr ⟨by omega, by omega⟩
      exact {
        length := by
          rw [Ladder.extend_offset, Ladder.offset, Ladder.extend_len, hnone]
          exact hT.length
        holds := fun t ht hpar n hn => by
          rcases hlen t ht hpar with hz | ⟨hle', hpar'⟩
          · rw [Ladder.extend_len, hz] at hn
            exact absurd hn (Nat.not_lt_zero n)
          · exact (hT.extend hle).holds t hle' hpar' n hn
        bound := fun t ht hpar => by
          rcases hlen t ht hpar with hz | ⟨hle', hpar'⟩
          · rw [Ladder.extend_len, hz]
            exact Nat.two_pow_pos 32
          · exact hT.bound t hle' hpar' }

/-- A message that is not late is of the chain in use or of the next one. -/
theorem Side.level_of_not_late (hcom : w.Common L top) (hside : w.Side L top p.other)
    {t n : Nat} (hi : (w.sent p)[L.offset t + n]? = some m) (ht : t ≤ p.level top)
    (hpar : t % 2 = p.level top % 2) (hn : n < L.len t) (hhead : m.header = L.header t n)
    (hlate : ¬ w.Late p (L.offset t + n)) :
    t + 1 = p.other.level top ∨ t = p.other.level top + 1 := by
  have hadj := p.level_other hcom.pos
  have hone := hcom.pos
  by_contra hne
  obtain ⟨r, hr⟩ : ∃ r, p.other.level top = r + 1 := ⟨p.other.level top - 1, by omega⟩
  have hrec := hside.receiver
  rw [p.other_other, hr] at hrec
  have hpos := hrec.recvN_pos (by omega)
  have hle : (w.ratchet p.other).recvN ≤ L.len r := hrec.recvN_le
  have hlast : L.offset r + ((w.ratchet p.other).recvN - 1) ∈ w.delivered p :=
    hrec.last _ (by simp only [Nat.add_sub_cancel]; omega)
  obtain ⟨m', hm', hhead', -⟩ := (hcom.transcript p).holds r (by omega) (by omega)
    ((w.ratchet p.other).recvN - 1) (by omega)
  have hoff := Ladder.offset_add_len_le_of_lt (L := L) (s := t) (t := r) (by omega) (by omega)
  have htop := p.other.level_le top
  refine hlate ⟨m, hi, _, hlast, by omega, m', hm', ?_⟩
  rw [hhead, hhead']
  exact hcom.linked.distinct t (by omega) r (by omega) (by omega)

def afterDelivery (w : World C) (p : Party) (i : Nat) (s : DoubleRatchet C) : World C :=
  (w.setRatchet p.other s).markDelivered p i

theorem act_deliver_ok (hi : (w.sent p)[i]? = some m)
    (hrun : (DoubleRatchet.decrypt fresh m.header m.ciphertext).run (w.ratchet p.other) =
      .ok plaintext s) :
    w.act (.deliver p i fresh) = some (w.afterDelivery p i s) := by
  simp only [act, hi, hrun, afterDelivery]

theorem act_deliver_error {e : MeshError} (hi : (w.sent p)[i]? = some m)
    (hrun : (DoubleRatchet.decrypt fresh m.header m.ciphertext).run (w.ratchet p.other) =
      .error (.err e) s) :
    w.act (.deliver p i fresh) = some (w.afterDelivery p i s) := by
  simp only [act, hi, hrun, afterDelivery]

def frontier (L : Ladder C) (top : Nat) (w : World C) (p : Party) : Nat :=
  L.offset (p.other.level top - 1) + (w.ratchet p.other).recvN

theorem skippedOver_markDelivered (hcom : w.Common L top) (hside : w.Side L top p.other)
    (hi : i < (w.sent p).length) :
    (w.markDelivered p i).skippedOver p =
      missing (max (w.frontier L top p) (i + 1)) (insert i (w.delivered p)) := by
  have hrec := hside.receiver
  rw [p.other_other] at hrec
  have hle : w.frontier L top p ≤ (w.sent p).length := hcom.frontier_le hrec
  have hold : ∀ j ∈ w.delivered p, j < w.frontier L top p := hrec.below
  have hbelow : ∀ j ∈ (w.markDelivered p i).delivered p,
      j < max (w.frontier L top p) (i + 1) := by
    intro j hj
    rw [markDelivered_delivered_self] at hj
    rcases Finset.mem_insert.mp hj with rfl | hj
    · omega
    · have := hold j hj
      omega
  have hlast : ∀ j, max (w.frontier L top p) (i + 1) = j + 1 →
      j ∈ (w.markDelivered p i).delivered p := by
    intro j hj
    rw [markDelivered_delivered_self]
    by_cases hmax : i + 1 ≤ w.frontier L top p
    · exact Finset.mem_insert_of_mem (hrec.last j (by rw [frontier] at *; omega))
    · exact Finset.mem_insert.mpr (.inl (by omega))
  have hlen : max (w.frontier L top p) (i + 1) ≤ ((w.markDelivered p i).sent p).length := by
    rw [markDelivered_sent]
    omega
  rw [skippedOver_eq hbelow hlast hlen, markDelivered_delivered_self]

/-- The outcome of a delivery that is not late: a message that is new gives its plaintext,
and both sides are where the ladder says. -/
structure Delivered (w : World C) (p : Party) (i : Nat) (m : Message C) (fresh : C.Secret)
    (s : DoubleRatchet C) (L : Ladder C) (top : Nat) (L' : Ladder C) (top' : Nat) : Prop where
  act : w.act (.deliver p i fresh) = some (w.afterDelivery p i s)
  decrypts : i ∉ w.delivered p →
    (DoubleRatchet.decrypt fresh m.header m.ciphertext).run (w.ratchet p.other) =
      .ok m.plaintext s
  grows : L'.Grows L top top'
  level : p.level top' = p.level top
  common : (w.afterDelivery p i s).Common L' top'
  receiverSide : (w.afterDelivery p i s).Side L' top' p.other
  senderSide : w.Side L top p → (w.afterDelivery p i s).Side L' top' p

theorem deliver_sameChain (hC : C.Lawful) (hcom : w.Common L top)
    (hside : w.Side L top p.other) {t n : Nat} (ht : t ≤ p.level top)
    (hpar : t % 2 = p.level top % 2) (hn : n < L.len t)
    (hi : (w.sent p)[L.offset t + n]? = some m) (hhead : m.header = L.header t n)
    (hopen : m.OpensWith (L.messageKey t n)) (hlev : t + 1 = p.other.level top)
    (hallow : ((w.markDelivered p (L.offset t + n)).skippedOver p).card ≤ maxSkip)
    (fresh : C.Secret) :
    ∃ s, w.Delivered p (L.offset t + n) m fresh s L top L top := by
  have hlt := (List.getElem?_eq_some_iff.mp hi).1
  have hslots := (hcom.transcript p).slotsDistinct hC hcom.linked (p.level_le top)
  have hrec := hside.receiver
  rw [skippedOver_markDelivered hcom hside hlt, frontier, ← hlev, Nat.add_sub_cancel] at hallow
  rw [p.other_other, ← hlev] at hrec
  have hpos : 0 < t := by
    rcases Nat.eq_zero_or_pos t with rfl | hpos
    · rw [hcom.zero] at hn
      omega
    · exact hpos
  obtain ⟨s, hout, hhalf, hrec'⟩ := hrec.sameChain hC (hcom.transcript p) hslots hpos ht hpar
    hn hi hhead hopen hallow fresh
  refine ⟨s, ?_, hout.run_new, .refl L top, rfl, hcom.setRatchet.markDelivered, ?_,
    fun h => ?_⟩
  · by_cases hnew : L.offset t + n ∉ w.delivered p
    · exact act_deliver_ok hi (hout.run_new hnew)
    · exact act_deliver_error hi (hout.run_old hnew)
  · exact {
      sender := by
        rw [afterDelivery, markDelivered_ratchet, setRatchet_ratchet_self]
        exact hside.sender.of_sendingHalf hhalf
      receiver := by
        rw [afterDelivery, markDelivered_ratchet, setRatchet_ratchet_self, p.other_other,
          ← hlev, markDelivered_delivered_self]
        exact hrec' }
  · exact h.congr (setRatchet_ratchet_of_ne p.ne_other) rfl
      (markDelivered_delivered_of_ne p.other_ne)

theorem deliver_newChain (hC : C.Lawful) (hcom : w.Common L top)
    (hside : w.Side L top p.other) {t n : Nat} (ht : t ≤ p.level top) (hn : n < L.len t)
    (hi : (w.sent p)[L.offset t + n]? = some m) (hhead : m.header = L.header t n)
    (hopen : m.OpensWith (L.messageKey t n)) (hlev : t = p.other.level top + 1)
    (hallow : ((w.markDelivered p (L.offset t + n)).skippedOver p).card ≤ maxSkip)
    (hfresh : w.Fresh fresh) :
    ∃ s, w.Delivered p (L.offset t + n) m fresh s L top (L.extend top fresh) (top + 1) := by
  have hlt := (List.getElem?_eq_some_iff.mp hi).1
  have hadj := p.level_other hcom.pos
  obtain ⟨l, hl⟩ : ∃ l, p.other.level top = l := ⟨_, rfl⟩
  obtain rfl : top = l + 1 := by omega
  obtain rfl : t = l + 1 := by omega
  have hp : p.level (l + 1) = l + 1 := by omega
  have hT := hcom.transcript p
  have hslots := hT.slotsDistinct hC hcom.linked (p.level_le _)
  have hrec := hside.receiver
  have hsend := hside.sender
  rw [p.other_other, hl] at hrec
  rw [hl] at hsend
  rw [hp] at hT
  have hfront : w.frontier L (l + 1) p ≤ L.offset (l + 1) := by
    have hle := hrec.recvN_le
    rw [frontier, hl]
    match l with
    | 0 =>
      simp only [Nat.zero_sub, hcom.zero, Ladder.offset] at hle ⊢
      omega
    | l + 1 =>
      simp only [Nat.add_sub_cancel, Ladder.offset] at hle ⊢
      omega
  rw [skippedOver_markDelivered hcom hside hlt, Nat.max_eq_right (by omega)] at hallow
  obtain ⟨s, hrun, hsend', hrec'⟩ := hrec.newChain hC hcom.linked hT hslots hcom.zero
    (hcom.unsent _ (by omega)) hsend hn hi hhead hopen hallow fresh
  have hpub : s.dhSelfPub = C.publicKey fresh := by
    rw [hsend'.dhSelfPub, Ladder.extend_pub_top]
  have hlev' : p.level (l + 1 + 1) = p.level (l + 1) := by
    rw [hp]
    exact p.level_succ_of_eq hp (by omega)
  refine ⟨s, act_deliver_ok hi hrun, fun _ => hrun, .extend L (l + 1) fresh, hlev', ?_, ?_,
    fun h => ?_⟩
  · refine (hcom.setRatchet.extend hC (fun t ht => hfresh _ (hcom.generated t ht))
      ?_).markDelivered
    rw [setRatchet_generated, hpub]
    exact List.mem_cons_self
  · have hlev' : p.other.level (l + 1 + 1) = l + 2 := p.other.level_succ_of_lt (by omega)
    exact {
      sender := by
        rw [afterDelivery, markDelivered_ratchet, setRatchet_ratchet_self, hlev']
        exact hsend'
      receiver := by
        rw [afterDelivery, markDelivered_ratchet, setRatchet_ratchet_self, p.other_other,
          hlev', markDelivered_delivered_self]
        exact hrec' }
  · have hside' : (w.afterDelivery p (L.offset (l + 1) + n) s).Side L (l + 1) p :=
      h.congr (setRatchet_ratchet_of_ne p.ne_other) rfl
        (markDelivered_delivered_of_ne p.other_ne)
    exact {
      sender := by
        rw [hlev']
        exact hside'.sender.extend (p.level_le _)
      receiver := by
        rw [hlev']
        exact hside'.receiver.extend (Nat.le_succ_of_le (p.level_le _)) }

theorem deliver (hC : C.Lawful) (hcom : w.Common L top) (hside : w.Side L top p.other)
    (hi : (w.sent p)[i]? = some m) (hallow : w.Allowed (.deliver p i fresh))
    (hlate : ¬ w.Late p i) : ∃ s L' top', w.Delivered p i m fresh s L top L' top' := by
  obtain ⟨t, ht, hpar, n, hn, rfl, hhead, hopen⟩ := (hcom.transcript p).slot hi
  obtain ⟨hfresh, hcard⟩ := hallow
  rcases hside.level_of_not_late hcom hi ht hpar hn hhead hlate with hlev | hlev
  · obtain ⟨s, hs⟩ :=
      deliver_sameChain hC hcom hside ht hpar hn hi hhead hopen hlev hcard fresh
    exact ⟨s, L, top, hs⟩
  · have htop := p.level_le top
    have hpub : m.header.dhPub = L.pub t := by
      rw [hhead]
      rfl
    have hold : (w.ratchet p.other).hasRemote m.header.dhPub = false :=
      hside.receiver.hasRemote_eq_false fun hzero => by
        rw [hpub]
        exact hcom.linked.distinct (p.other.level top - 1) (by omega) t (by omega) (by omega)
    obtain ⟨s, hs⟩ := deliver_newChain hC hcom hside ht hn hi hhead hopen hlev hcard
      (hfresh m hi hold)
    exact ⟨s, _, _, hs⟩

theorem Coupled.step (hC : C.Lawful) (h : w.Coupled L top) (hstep : OrderedStep w w') :
    ∃ L' top', w'.Coupled L' top' := by
  obtain ⟨a, hallow, horder, hact⟩ := hstep
  cases a with
  | encrypt p plaintext =>
    obtain ⟨L', h'⟩ := h.encrypt hC hallow hact
    exact ⟨L', top, h'⟩
  | deliver p i fresh =>
    cases hi : (w.sent p)[i]? with
    | none => simp [act, hi] at hact
    | some m =>
      obtain ⟨s, L', top', hd⟩ := deliver hC h.common (h.side p.other) hi hallow horder
      rw [hd.act, Option.some.injEq] at hact
      subst hact
      refine ⟨L', top', hd.common, fun q => ?_⟩
      rcases p.eq_or_eq_other q with rfl | rfl
      · exact hd.senderSide (h.side q)
      · exact hd.receiverSide

def firstMessage : World Symbolic.toySuite :=
  let w := initial (C := Symbolic.toySuite) (.protocol "") (0 : Nat) (1 : Nat)
  (w.act (.encrypt .initiator [104, 105])).getD w

def hello : Message Symbolic.toySuite :=
  (firstMessage.sent .initiator).head (List.cons_ne_nil _ _)

end Steps

end World

end ProjectMesh.Crypto.Ratchet
