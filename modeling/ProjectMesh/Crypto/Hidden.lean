import ProjectMesh.Crypto.Attacker

namespace ProjectMesh.Crypto.Symbolic

section Mentions

-- a secret, as it occurs in what was computed from it
variable (f : Nat)

def Point.Mentions : Point → Prop
  | .mul scalars => f ∈ scalars
  | .small _ => False

def Key.Mentions : Key → Prop
  | .protocol _ => False
  | .hash h _ => h.Mentions
  | .mixKey _ ck ikm => ck.Mentions ∨ ikm.Mentions f
  | .split _ ck => ck.Mentions
  | .hkdf _ salt ikm _ => salt.Mentions ∨ ikm.Mentions f
  | .hmac key _ => key.Mentions

def Item.Mentions : Item → Prop
  | .secret a => a = f
  | .point p => p.Mentions f
  | .key k => k.Mentions f
  | .sealed (.box k _ _) => k.Mentions f
  | .sealed (.noiseBox k _ _ (.inl p)) => k.Mentions f ∨ p.point.Mentions f
  | .sealed (.noiseBox k _ _ (.inr _)) => k.Mentions f
  | .sealed (.bytes _) => False

end Mentions

section Hidden

variable (hidden : Point → Prop) (owned : Nat → Prop) (given : Sealed → Prop)

def Key.Carries : Key → Prop
  | .protocol _ => False
  | .hash h _ => h.Carries
  | .mixKey _ ck ikm => ck.Carries ∨ hidden ikm
  | .split _ ck => ck.Carries
  | .hkdf _ salt ikm _ => salt.Carries ∨ hidden ikm
  | .hmac key _ => key.Carries

structure Hides : Prop where
  base : ¬ hidden (.mul 0)
  small : ∀ i, ¬ hidden (.small i)
  scale : ∀ a p, owned a → ¬ hidden p → ¬ hidden (p.scale a)

/-- An item that helps nobody to a hidden point, or to a ciphertext but these under a key that
carries one. -/
def Item.Harmless : Item → Prop
  | .secret a => owned a
  | .point p => ¬ hidden p
  | .key k => ¬ k.Carries hidden
  | .sealed (.box k ad m) => k.Carries hidden → given (.box k ad m)
  | .sealed (.noiseBox k _ _ (.inl p)) => k.Carries hidden ∨ ¬ hidden p.point
  | .sealed (.noiseBox _ _ _ (.inr _)) => True
  | .sealed (.bytes _) => True

variable {hidden owned given} {seen : Item → Prop} {x : Item}

theorem Knows.harmless (hides : Hides hidden owned)
    (hseen : ∀ x, seen x → x.Harmless hidden owned given) (h : Knows owned seen x) :
    x.Harmless hidden owned given := by
  induction h with
  | seen h => exact hseen _ h
  | own h => exact h
  | base => exact hides.base
  | small => exact hides.small _
  | scale _ _ iha ihp => exact hides.scale _ _ iha ihp
  | protocol => exact id
  | hash _ ih => exact ih
  | mixKey _ _ ihk ihp => exact not_or.mpr ⟨ihk, ihp⟩
  | split _ ih => exact ih
  | hkdf _ _ ihk ihp => exact not_or.mpr ⟨ihk, ihp⟩
  | hmac _ ih => exact ih
  | box _ ih => exact fun h => absurd h ih
  | noiseBox _ _ _ ihp => exact .inr ihp
  | noiseBoxBytes => trivial
  | noiseOpen _ _ ihk ihc => exact ihc.resolve_left ihk
  | bytes => trivial

end Hidden

def Point.Owned (owned : Nat → Prop) : Point → Prop
  | .mul scalars => ∀ a ∈ scalars, owned a
  | .small _ => True

section Owned

variable {owned : Nat → Prop} {seen : Item → Prop} {f : Nat} {p : Point}

theorem Knows.add_owned {s t : Multiset Nat} (howned : ∀ a ∈ s, owned a)
    (h : Knows owned seen (.point (.mul t))) : Knows owned seen (.point (.mul (s + t))) := by
  induction s using Multiset.induction with
  | empty => rwa [Multiset.zero_add]
  | cons a s ih =>
    rw [Multiset.cons_add]
    have hs := ih fun x hx => howned x (Multiset.mem_cons_of_mem hx)
    exact .scale (.own (howned a (Multiset.mem_cons_self a s))) hs

theorem Knows.of_owned (h : p.Owned owned) : Knows owned seen (.point p) := by
  cases p with
  | small i => exact .small
  | mul s =>
    have hmul : Knows owned seen (.point (.mul (s + 0))) := Knows.add_owned h .base
    rwa [Multiset.add_zero] at hmul

theorem Knows.scale_owned (h : p.Owned owned) (hf : Knows owned seen (.point (.mul {f}))) :
    Knows owned seen (.point (p.scale f)) := by
  cases p with
  | small i => exact .small
  | mul s =>
    have hmul := Knows.add_owned h hf
    rwa [Multiset.add_comm, Multiset.singleton_add] at hmul

end Owned

section Beyond

variable (owned : Nat → Prop) (f : Nat)

def Beyond : Point → Prop
  | .mul scalars => ∃ a, ¬ owned a ∧ ({f, a} : Multiset Nat) ≤ scalars
  | .small _ => False

variable {owned f} {given : Sealed → Prop}

theorem beyond_scale_iff {p : Point} : Beyond owned f (p.scale f) ↔ ¬ p.Owned owned := by
  cases p with
  | small i => simp [Beyond, Point.scale, Point.Owned]
  | mul s =>
    have hpair : ∀ a, ({f, a} : Multiset Nat) ≤ f ::ₘ s ↔ a ∈ s := fun a =>
      (Multiset.cons_le_cons_iff f).trans Multiset.singleton_le
    simp only [Beyond, Point.scale, Point.Owned, hpair, not_forall, exists_prop, and_comm]

theorem hides_beyond (hf : ¬ owned f) : Hides (Beyond owned f) owned where
  base := by
    rintro ⟨a, -, hle⟩
    exact absurd (Multiset.card_le_card hle) (by simp)
  small _ := id
  scale a p ha hp := by
    cases p with
    | small i => exact id
    | mul s =>
      rintro ⟨b, hb, hle⟩
      refine hp ⟨b, hb, (Multiset.le_cons_of_notMem fun hmem => ?_).mp hle⟩
      rcases Multiset.mem_cons.mp hmem with rfl | hmem
      · exact hf ha
      · exact hb (Multiset.mem_singleton.mp hmem ▸ ha)

theorem not_beyond_publicKey {a : Nat} : ¬ Beyond owned f (.mul {a}) := by
  rintro ⟨b, -, hle⟩
  exact absurd (Multiset.card_le_card hle) (by simp)

theorem mentions_of_beyond {p : Point} (h : Beyond owned f p) : p.Mentions f := by
  cases p with
  | small i => exact h
  | mul s =>
    obtain ⟨a, -, hle⟩ := h
    exact Multiset.mem_of_le hle (Multiset.mem_cons_self f _)

theorem mentions_of_carries {k : Key} (h : k.Carries (Beyond owned f)) : k.Mentions f := by
  induction k with
  | protocol name => exact h
  | hash k data ih => exact ih h
  | mixKey half ck ikm ih => exact h.imp ih mentions_of_beyond
  | split half ck ih => exact ih h
  | hkdf half salt ikm info ih => exact h.imp ih mentions_of_beyond
  | hmac key byte ih => exact ih h

theorem harmless_of_not_mentions {x : Item} (h : ¬ x.Mentions f)
    (howned : ∀ a, x = .secret a → owned a) : x.Harmless (Beyond owned f) owned given := by
  cases x with
  | secret a => exact howned a rfl
  | point p => exact fun hp => h (mentions_of_beyond hp)
  | key k => exact fun hk => h (mentions_of_carries hk)
  | sealed c =>
    cases c with
    | box k ad m => exact fun hk => absurd (mentions_of_carries hk) h
    | noiseBox k n hash content =>
      cases content with
      | inl p => exact .inr fun hp => h (.inr (mentions_of_beyond hp))
      | inr bs => trivial
    | bytes bs => trivial

end Beyond

end ProjectMesh.Crypto.Symbolic
