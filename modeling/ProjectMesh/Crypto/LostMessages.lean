import ProjectMesh.Crypto.RatchetLate

namespace ProjectMesh.Crypto.Ratchet

open ProjectMesh.Lib

variable {C : Suite}

namespace Ladder

variable {L : Ladder C} {l t n : Nat} {msgs : List (Message C)} {delivered : Finset Nat}
  {s : DoubleRatchet C} {m : Message C}

end Ladder

namespace World

variable {L : Ladder C} {top i : Nat} {w : World C} {p : Party} {m : Message C}
  {fresh : C.Secret}

theorem not_late_of_newest (hnewest : ∀ j ∈ w.delivered p, j < i) : ¬ w.Late p i := by
  rintro ⟨_, _, j, hj, hij, _⟩
  have := hnewest j hj
  omega

theorem skippedOver_newest (hnewest : ∀ j ∈ w.delivered p, j < i)
    (hi : i < (w.sent p).length) :
    (w.markDelivered p i).skippedOver p = missing i (w.delivered p) := by
  ext k
  rw [mem_skippedOver, markDelivered_sent, markDelivered_delivered_self, mem_missing]
  constructor
  · rintro ⟨-, hd, j, hj, hkj⟩
    rw [Finset.mem_insert, not_or] at hd
    rcases Finset.mem_insert.mp hj with rfl | hj
    · exact ⟨hkj, hd.2⟩
    · have := hnewest j hj
      exact ⟨by omega, hd.2⟩
  · rintro ⟨hki, hd⟩
    refine ⟨by omega, fun hins => ?_, i, Finset.mem_insert_self i _, hki⟩
    rcases Finset.mem_insert.mp hins with rfl | hmem
    · exact Nat.lt_irrefl _ hki
    · exact hd hmem

end World

structure Lossy (C : Suite) where
  ratchet : Party → DoubleRatchet C
  /-- What came of the keys a party took from its sending chains, oldest first: a message, or
  none where `encrypt` failed. -/
  made : Party → List (Option (Message C))
  /-- Which places of a party's messages have reached the other side. -/
  delivered : Party → Finset Nat
  /-- The public halves of the ratchet keys generated so far. -/
  generated : List C.Public

namespace Lossy

def initial (secret : C.Key) (a b : C.Secret) : Lossy C where
  ratchet
    | .initiator => .initInitiator a secret (C.publicKey b)
    | .responder => .initResponder secret b
  made _ := []
  delivered _ := ∅
  generated := [C.publicKey a, C.publicKey b]

def setRatchet (w : Lossy C) (p : Party) (s : DoubleRatchet C) : Lossy C :=
  { w with
    ratchet := Function.update w.ratchet p s
    generated := s.dhSelfPub :: w.generated }

def make (w : Lossy C) (p : Party) (m : Option (Message C)) : Lossy C :=
  { w with made := Function.update w.made p (w.made p ++ [m]) }

def markDelivered (w : Lossy C) (p : Party) (i : Nat) : Lossy C :=
  { w with delivered := Function.update w.delivered p (insert i (w.delivered p)) }

def message (w : Lossy C) (p : Party) (i : Nat) : Option (Message C) := (w.made p)[i]?.join

/-- A call that panics does not return, and there is no next state. -/
def act (w : Lossy C) : Action C → Option (Lossy C)
  | .encrypt p plaintext =>
    match (DoubleRatchet.encrypt plaintext).run (w.ratchet p) with
    | .ok (header, ct) s => some ((w.setRatchet p s).make p (some ⟨header, ct, plaintext⟩))
    | .error (.err _) s =>
      if (w.ratchet p).sendChain.isSome then some ((w.setRatchet p s).make p none)
      else some (w.setRatchet p s)
    | .error .panic _ => none
  | .deliver p i fresh =>
    match w.message p i with
    | none => none
    | some m =>
      match (DoubleRatchet.decrypt fresh m.header m.ciphertext).run (w.ratchet p.other) with
      | .ok _ s => some ((w.setRatchet p.other s).markDelivered p i)
      | .error (.err _) s => some ((w.setRatchet p.other s).markDelivered p i)
      | .error .panic _ => none

/-- Messages of a direction arrive in the order they were made, and a ratchet key that is
asked for is new. -/
def Honest (w : Lossy C) : Action C → Prop
  | .encrypt _ _ => True
  | .deliver p i fresh => ∃ m, w.message p i = some m ∧
    (∀ j ∈ w.delivered p, j < i) ∧
    ((w.ratchet p.other).hasRemote m.header.dhPub = false →
      ∀ q ∈ w.generated, C.samePoint q (C.publicKey fresh) = false)

def Decrypts (w : Lossy C) : Action C → Prop
  | .encrypt _ _ => True
  | .deliver p i fresh => ∀ m, w.message p i = some m →
    ∃ s, (DoubleRatchet.decrypt fresh m.header m.ciphertext).run (w.ratchet p.other) =
      .ok m.plaintext s

/-- No more than `maxSkip` messages are lost before one that arrives. -/
def LossWithin (w : Lossy C) : Action C → Prop
  | .encrypt _ _ => True
  | .deliver p i _ => (missing i (w.delivered p)).card ≤ maxSkip

def Along (P : Lossy C → Action C → Prop) : Lossy C → List (Action C) → Prop
  | _, [] => True
  | w, a :: as => P w a ∧ ∀ w', w.act a = some w' → Along P w' as

section Decidable

variable (w : Lossy C)

instance : (a : Action C) → Decidable (w.Honest a)
  | .encrypt _ _ => isTrue trivial
  | .deliver p i _ => inferInstanceAs (Decidable (∃ m, w.message p i = some m ∧ _))

instance : (a : Action C) → Decidable (w.LossWithin a)
  | .encrypt _ _ => isTrue trivial
  | .deliver _ _ _ => inferInstanceAs (Decidable (_ ≤ _))

instance decidableAlong (P : Lossy C → Action C → Prop) [∀ w a, Decidable (P w a)] :
    (w : Lossy C) → (actions : List (Action C)) → Decidable (Along P w actions)
  | _, [] => isTrue trivial
  | w, a :: as =>
    have := fun w' => decidableAlong P w' as
    inferInstanceAs (Decidable (P w a ∧ ∀ w', w.act a = some w' → Along P w' as))

end Decidable

structure Covers (w : Lossy C) (v : World C) : Prop where
  ratchet : v.ratchet = w.ratchet
  delivered : v.delivered = w.delivered
  generated : v.generated = w.generated
  length : ∀ p, (v.sent p).length = (w.made p).length
  sent : ∀ p i m, w.message p i = some m → (v.sent p)[i]? = some m

section Covers

variable {w w' : Lossy C} {v : World C} {p : Party} {i : Nat} {m : Message C}
  {s : DoubleRatchet C} {o : Option (Message C)} {plaintext : List UInt8} {fresh : C.Secret}

theorem Covers.initial (secret : C.Key) (a b : C.Secret) :
    (initial secret a b).Covers (World.initial secret a b) where
  ratchet := rfl
  delivered := rfl
  generated := rfl
  length _ := rfl
  sent p i m h := by simp [message, Lossy.initial] at h

theorem Covers.setRatchet (h : w.Covers v) : (w.setRatchet p s).Covers (v.setRatchet p s) where
  ratchet := by rw [World.setRatchet, Lossy.setRatchet, h.ratchet]
  delivered := h.delivered
  generated := congrArg (s.dhSelfPub :: ·) h.generated
  length := h.length
  sent := h.sent

theorem Covers.markDelivered (h : w.Covers v) :
    (w.markDelivered p i).Covers (v.markDelivered p i) where
  ratchet := h.ratchet
  delivered := by rw [World.markDelivered, Lossy.markDelivered, h.delivered]
  generated := h.generated
  length := h.length
  sent := h.sent

theorem Covers.make (h : w.Covers v) (ho : ∀ m', o = some m' → m' = m) :
    (w.make p o).Covers (v.send p m) where
  ratchet := h.ratchet
  delivered := h.delivered
  generated := h.generated
  length q := by
    by_cases hq : q = p
    · subst hq
      simp [World.send, Lossy.make, h.length]
    · simp [World.send, Lossy.make, hq, h.length]
  sent q j m' hj := by
    by_cases hq : q = p
    · subst hq
      simp only [World.send, message, Lossy.make, Function.update_self] at hj ⊢
      rcases Nat.lt_trichotomy j (w.made q).length with hlt | heq | hgt
      · rw [List.getElem?_append_left hlt] at hj
        rw [List.getElem?_append_left (h.length q ▸ hlt)]
        exact h.sent q j m' hj
      · rw [heq, List.getElem?_concat_length, Option.join_some] at hj
        rw [heq, ← h.length q, List.getElem?_concat_length, ho m' hj]
      · rw [List.getElem?_eq_none (by simp; omega)] at hj
        cases hj
    · simp only [World.send, message, Lossy.make, Function.update_of_ne hq] at hj ⊢
      exact h.sent q j m' hj

theorem Covers.encrypt (hC : C.Lawful) (h : w.Covers v)
    (hact : w.act (.encrypt p plaintext) = some w') :
    ∃ sent v', sent.length ≤ 65532 ∧ v.act (.encrypt p sent) = some v' ∧ w'.Covers v' := by
  cases hc : (w.ratchet p).sendChain with
  | none =>
    simp only [act, DoubleRatchet.encrypt_noChain hc, hc, Option.isSome_none,
      Bool.false_eq_true, if_false, Option.some.injEq] at hact
    subst hact
    refine ⟨[], v.setRatchet p (w.ratchet p), by simp, ?_, h.setRatchet⟩
    simp only [World.act, h.ratchet, DoubleRatchet.encrypt_noChain hc]
  | some chain =>
    by_cases hn : (w.ratchet p).sendN + 1 < 2 ^ 32
    · by_cases hlen : plaintext.length ≤ 65532
      · obtain ⟨ct, hrun, -⟩ := DoubleRatchet.encrypt_fits hC hc hn hlen
        simp only [act, hrun, Option.some.injEq] at hact
        subst hact
        refine ⟨plaintext, _, hlen, ?_, h.setRatchet.make fun m' hm' => (Option.some.inj hm').symm⟩
        simp only [World.act, h.ratchet, hrun]
      · obtain ⟨e, hrun⟩ := DoubleRatchet.encrypt_tooLarge hc hn (Nat.not_le.mp hlen)
        simp only [act, hrun, hc, Option.isSome_some, if_true, Option.some.injEq] at hact
        subst hact
        have hempty : ([] : List UInt8).length ≤ 65532 := Nat.zero_le _
        obtain ⟨ct, hrun', -⟩ := DoubleRatchet.encrypt_fits hC hc hn hempty
        refine ⟨[], _, hempty, ?_, h.setRatchet.make (m := ⟨(w.ratchet p).nextHeader, ct, []⟩)
          fun m' hm' => (Option.some_ne_none m' hm'.symm).elim⟩
        simp only [World.act, h.ratchet, hrun']
    · obtain ⟨t, hrun⟩ := DoubleRatchet.encrypt_overflow hc hn plaintext
      simp [act, hrun] at hact

theorem Covers.deliver (h : w.Covers v) (hi : w.message p i = some m)
    (hact : w.act (.deliver p i fresh) = some w') :
    ∃ v', v.act (.deliver p i fresh) = some v' ∧ w'.Covers v' := by
  simp only [act, hi] at hact
  simp only [World.act, h.sent p i m hi, h.ratchet]
  cases hrun : (DoubleRatchet.decrypt fresh m.header m.ciphertext).run (w.ratchet p.other) with
  | ok pt s =>
    rw [hrun] at hact
    cases hact
    exact ⟨_, rfl, h.setRatchet.markDelivered⟩
  | error fault s =>
    rw [hrun] at hact
    cases fault with
    | err e =>
      cases hact
      exact ⟨_, rfl, h.setRatchet.markDelivered⟩
    | panic => cases hact

theorem Covers.allowed (h : w.Covers v) (hhonest : w.Honest (.deliver p i fresh))
    (hloss : w.LossWithin (.deliver p i fresh)) :
    v.Allowed (.deliver p i fresh) ∧ v.InOrder (.deliver p i fresh) := by
  obtain ⟨m, hm, hnewest, hfresh⟩ := hhonest
  have hi := h.sent p i m hm
  rw [← h.delivered] at hnewest
  rw [← h.ratchet, ← h.generated] at hfresh
  rw [LossWithin, ← h.delivered] at hloss
  refine ⟨⟨fun m' hm' hold => ?_, ?_⟩, World.not_late_of_newest hnewest⟩
  · rw [hi, Option.some.injEq] at hm'
    subst hm'
    exact hfresh hold
  · rw [World.skippedOver_newest hnewest (List.getElem?_eq_some_iff.mp hi).1]
    exact hloss

end Covers

def InStep (w : Lossy C) : Prop := ∃ v L top, w.Covers v ∧ v.Coupled L top

section Runs

variable {w w' : Lossy C} {a : Action C} {actions : List (Action C)}

theorem InStep.act (hC : C.Lawful) (h : w.InStep) (hhonest : w.Honest a)
    (hloss : w.LossWithin a) (hact : w.act a = some w') : w'.InStep := by
  obtain ⟨v, L, top, hcov, hcoupled⟩ := h
  cases a with
  | encrypt p plaintext =>
    obtain ⟨sent, v', hlen, hact', hcov'⟩ := hcov.encrypt hC hact
    obtain ⟨L', hcoupled'⟩ := hcoupled.encrypt hC hlen hact'
    exact ⟨v', L', top, hcov', hcoupled'⟩
  | deliver p i fresh =>
    obtain ⟨hallow, horder⟩ := hcov.allowed hhonest hloss
    obtain ⟨m, hm, -⟩ := hhonest
    obtain ⟨v', hact', hcov'⟩ := hcov.deliver hm hact
    obtain ⟨L', top', hcoupled'⟩ := hcoupled.step hC ⟨_, hallow, horder, hact'⟩
    exact ⟨v', L', top', hcov', hcoupled'⟩

structure Sent (k : Nat) (w : Lossy C) : Prop where
  sendChain : ∃ chain, (w.ratchet .initiator).sendChain = some chain
  sendN : (w.ratchet .initiator).sendN = k
  made : (w.made .initiator).length = k
  message : ∀ i < k, ∃ m, w.message .initiator i = some m
  delivered : w.delivered .initiator = ∅

theorem Sent.encrypt (hC : C.Lawful) {k : Nat} (h : Sent k w) (hk : k + 1 < 2 ^ 32) :
    ∃ w', w.act (.encrypt .initiator []) = some w' ∧ Sent (k + 1) w' := by
  obtain ⟨chain, hc⟩ := h.sendChain
  have hlen : ([] : List UInt8).length ≤ 65532 := Nat.zero_le _
  obtain ⟨ct, hrun, -⟩ := DoubleRatchet.encrypt_fits hC hc (h.sendN ▸ hk) hlen
  refine ⟨(w.setRatchet .initiator ((w.ratchet .initiator).sentOn chain)).make .initiator
    (some ⟨(w.ratchet .initiator).nextHeader, ct, []⟩), ?_, ?_⟩
  · simp only [Lossy.act, hrun]
  · exact {
      sendChain := by
        simp only [make, setRatchet, Function.update_self]
        exact ⟨_, rfl⟩
      sendN := by
        simp only [make, setRatchet, Function.update_self]
        exact congrArg (· + 1) h.sendN
      made := by
        simp only [make, setRatchet, Function.update_self, List.length_append, h.made]
        rfl
      message := fun i hi => by
        simp only [Lossy.message, make, setRatchet, Function.update_self]
        rcases Nat.lt_succ_iff_lt_or_eq.mp hi with hlt | rfl
        · rw [List.getElem?_append_left (h.made ▸ hlt)]
          exact h.message i hlt
        · rw [← h.made, List.getElem?_concat_length]
          exact ⟨_, rfl⟩
      delivered := h.delivered }

theorem Sent.encrypts (hC : C.Lawful) {n k : Nat} (h : Sent k w) (hk : k + n < 2 ^ 32) :
    ∃ w', Sent (k + n) w' ∧ ∀ P : Lossy C → Action C → Prop,
      (∀ u p plaintext, P u (.encrypt p plaintext)) → ∀ as,
        (Along P w (List.replicate n (.encrypt .initiator []) ++ as) ↔ Along P w' as) := by
  induction n generalizing k w with
  | zero => exact ⟨w, h, fun P _ as => Iff.rfl⟩
  | succ n ih =>
    obtain ⟨w₁, hact, h₁⟩ := h.encrypt hC (by omega)
    obtain ⟨w', h', halong⟩ := ih h₁ (by omega)
    refine ⟨w', by rw [← Nat.add_right_comm, Nat.add_assoc] at h'; exact h', fun P hP as => ?_⟩
    rw [List.replicate_succ, List.cons_append, Along, ← halong P hP as]
    constructor
    · rintro ⟨-, hrest⟩
      exact hrest w₁ hact
    · intro hrest
      refine ⟨hP _ _ _, fun w₂ hact₂ => ?_⟩
      rw [hact, Option.some.injEq] at hact₂
      exact hact₂ ▸ hrest

theorem Sent.deliver {k i : Nat} (h : Sent k w) (hi : i < k) {fresh : C.Secret}
    (hdec : w.Decrypts (.deliver .initiator i fresh)) :
    ∃ w', w.act (.deliver .initiator i fresh) = some w' ∧ w'.delivered .initiator = {i} ∧
      w'.message .initiator = w.message .initiator := by
  obtain ⟨m, hm⟩ := h.message i hi
  obtain ⟨s, hs⟩ := hdec m hm
  refine ⟨(w.setRatchet Party.initiator.other s).markDelivered .initiator i, ?_, ?_, rfl⟩
  · simp only [Lossy.act, hm, hs]
  · simp only [markDelivered, setRatchet, Function.update_self, h.delivered]
    rfl

theorem Sent.honest {k i : Nat} (h : Sent k w) (hi : i < k) {fresh : C.Secret}
    (hfresh : ∀ q ∈ w.generated, C.samePoint q (C.publicKey fresh) = false) :
    w.Honest (.deliver .initiator i fresh) := by
  obtain ⟨m, hm⟩ := h.message i hi
  refine ⟨m, hm, fun j hj => ?_, fun _ => hfresh⟩
  rw [h.delivered] at hj
  exact absurd hj (Finset.notMem_empty j)

end Runs

end Lossy

end ProjectMesh.Crypto.Ratchet
