import Mathlib.Data.Finset.Card
import Mathlib.Logic.Function.Basic
import Mathlib.Logic.Relation
import ProjectMesh.Crypto.Ratchet

namespace ProjectMesh.Crypto.Ratchet

open ProjectMesh.Lib

variable {C : Suite}

inductive Party : Type
  | initiator
  | responder
  deriving DecidableEq

def Party.other : Party → Party
  | .initiator => .responder
  | .responder => .initiator

@[simp] theorem Party.other_other (p : Party) : p.other.other = p := by cases p <;> rfl

@[simp] theorem Party.other_ne (p : Party) : p.other ≠ p := by cases p <;> decide

@[simp] theorem Party.ne_other (p : Party) : p ≠ p.other := by cases p <;> decide

theorem Party.eq_or_eq_other (p q : Party) : q = p ∨ q = p.other := by
  cases p <;> cases q <;> decide

/-- A message a session produced, with the plaintext it was given. -/
structure Message (C : Suite) where
  header : Header C
  ciphertext : C.Sealed
  plaintext : List UInt8

/-- Two sessions and the network between them.  The network keeps every message, so it
can lose, reorder and repeat them. -/
structure World (C : Suite) where
  ratchet : Party → DoubleRatchet C
  /-- What a party has sent, oldest first. -/
  sent : Party → List (Message C)
  /-- Which of a party's messages have reached the other side. -/
  delivered : Party → Finset Nat
  /-- The public halves of the ratchet keys generated so far. -/
  generated : List C.Public

inductive Action (C : Suite) : Type
  | encrypt (sender : Party) (plaintext : List UInt8)
  /-- Message `i` of the sender reaches the other side.  `fresh` is the secret the random
  generator returns if it is asked. -/
  | deliver (sender : Party) (i : Nat) (fresh : C.Secret)

namespace World

def initial (secret : C.Key) (a b : C.Secret) : World C where
  ratchet
    | .initiator => .initInitiator a secret (C.publicKey b)
    | .responder => .initResponder secret b
  sent _ := []
  delivered _ := ∅
  generated := [C.publicKey a, C.publicKey b]

def setRatchet (w : World C) (p : Party) (s : DoubleRatchet C) : World C :=
  { w with
    ratchet := Function.update w.ratchet p s
    generated := s.dhSelfPub :: w.generated }

def send (w : World C) (p : Party) (m : Message C) : World C :=
  { w with sent := Function.update w.sent p (w.sent p ++ [m]) }

def markDelivered (w : World C) (p : Party) (i : Nat) : World C :=
  { w with delivered := Function.update w.delivered p (insert i (w.delivered p)) }

/-- A call that panics does not return, and there is no next state. -/
def act (w : World C) : Action C → Option (World C)
  | .encrypt p plaintext =>
    match (DoubleRatchet.encrypt plaintext).run (w.ratchet p) with
    | .ok (header, ct) s => some ((w.setRatchet p s).send p ⟨header, ct, plaintext⟩)
    | .error (.err _) s => some (w.setRatchet p s)
    | .error .panic _ => none
  | .deliver p i fresh =>
    match (w.sent p)[i]? with
    | none => none
    | some m =>
      match (DoubleRatchet.decrypt fresh m.header m.ciphertext).run (w.ratchet p.other) with
      | .ok _ s => some ((w.setRatchet p.other s).markDelivered p i)
      | .error (.err _) s => some ((w.setRatchet p.other s).markDelivered p i)
      | .error .panic _ => none

def skippedOver (w : World C) (p : Party) : Finset Nat :=
  (Finset.range (w.sent p).length).filter fun k =>
    k ∉ w.delivered p ∧ ∃ j ∈ w.delivered p, k < j

def Fresh (w : World C) (fresh : C.Secret) : Prop :=
  ∀ q ∈ w.generated, C.samePoint q (C.publicKey fresh) = false

/-- What the two sides and the network promise about one step: plaintexts fit a bucket,
a key that is asked for is new, and no more than `maxSkip` messages are overtaken. -/
def Allowed (w : World C) : Action C → Prop
  | .encrypt _ plaintext => plaintext.length ≤ 65532
  | .deliver p i fresh =>
    (∀ m, (w.sent p)[i]? = some m → (w.ratchet p.other).hasRemote m.header.dhPub = false →
      w.Fresh fresh) ∧
    ((w.markDelivered p i).skippedOver p).card ≤ maxSkip

def Late (w : World C) (p : Party) (i : Nat) : Prop :=
  ∃ m, (w.sent p)[i]? = some m ∧ ∃ j ∈ w.delivered p, i < j ∧
    ∃ m', (w.sent p)[j]? = some m' ∧ C.samePoint m.header.dhPub m'.header.dhPub = false

def InOrder (w : World C) : Action C → Prop
  | .encrypt _ _ => True
  | .deliver p i _ => ¬ w.Late p i

/-- A run in which no message arrives after one of a later chain. -/
def OrderedStep (w w' : World C) : Prop := ∃ a, w.Allowed a ∧ w.InOrder a ∧ w.act a = some w'

def Reachable (step : World C → World C → Prop) (w : World C) : Prop :=
  ∃ secret a b, C.samePoint (C.publicKey b) (C.publicKey a) = false ∧
    Relation.ReflTransGen step (initial secret a b) w

section Decidable

variable (w : World C)

instance (o : Option α) (P : α → Prop) [DecidablePred P] :
    Decidable (∀ a, o = some a → P a) :=
  match o with
  | none => isTrue (by simp)
  | some a => decidable_of_iff (P a) (by simp)

instance (o : Option α) (P : α → Prop) [DecidablePred P] :
    Decidable (∃ a, o = some a ∧ P a) :=
  match o with
  | none => isFalse (by simp)
  | some a => decidable_of_iff (P a) (by simp)

instance (fresh : C.Secret) : Decidable (w.Fresh fresh) :=
  inferInstanceAs (Decidable (∀ q ∈ w.generated, _))

instance : (a : Action C) → Decidable (w.Allowed a)
  | .encrypt _ _ => inferInstanceAs (Decidable (_ ≤ _))
  | .deliver p i _ => inferInstanceAs (Decidable ((∀ m, (w.sent p)[i]? = some m → _) ∧ _))

instance (p : Party) (i : Nat) : Decidable (w.Late p i) :=
  inferInstanceAs (Decidable (∃ m, (w.sent p)[i]? = some m ∧ ∃ j ∈ w.delivered p, i < j ∧
    ∃ m', (w.sent p)[j]? = some m' ∧ _))

instance : (a : Action C) → Decidable (w.InOrder a)
  | .encrypt _ _ => isTrue trivial
  | .deliver p i _ => inferInstanceAs (Decidable (¬ w.Late p i))

end Decidable

end World

end ProjectMesh.Crypto.Ratchet
