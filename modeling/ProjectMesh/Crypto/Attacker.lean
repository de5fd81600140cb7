import ProjectMesh.Crypto.Symbolic

namespace ProjectMesh.Crypto.Symbolic

section Secrecy

-- `attacker` are the attacker's own secrets; the public key of `b` is never shown either
variable (attacker : Nat → Prop) (b : Nat)

/-- A point the attacker cannot get at: it involves the hidden secret, or two secrets
that are not the attacker's. -/
def SecretPoint : Point → Prop
  | .mul scalars => b ∈ scalars ∨
    ∃ x y, ¬ attacker x ∧ ¬ attacker y ∧ ({x, y} : Multiset Nat) ≤ scalars
  | .small _ => False

def SecretKey : Key → Prop
  | .protocol _ => False
  | .hash h _ => SecretKey h
  | .mixKey _ ck ikm => SecretKey ck ∨ SecretPoint attacker b ikm
  | .split _ ck => SecretKey ck
  | .hkdf _ salt ikm _ => SecretKey salt ∨ SecretPoint attacker b ikm
  | .hmac key _ => SecretKey key

inductive Item : Type
  | secret (a : Nat)
  | point (p : Point)
  | key (k : Key)
  | sealed (c : Sealed)

/-- What the attacker can derive from what he has seen.  He knows all bytes. -/
inductive Knows (seen : Item → Prop) : Item → Prop
  | seen {x} : seen x → Knows seen x
  | own {a} : attacker a → Knows seen (.secret a)
  | base : Knows seen (.point (.mul 0))
  | small {i} : Knows seen (.point (.small i))
  | scale {a p} : Knows seen (.secret a) → Knows seen (.point p) →
    Knows seen (.point (p.scale a))
  | protocol {name} : Knows seen (.key (.protocol name))
  | hash {h data} : Knows seen (.key h) → Knows seen (.key (.hash h data))
  | mixKey {half ck p} : Knows seen (.key ck) → Knows seen (.point p) →
    Knows seen (.key (.mixKey half ck p))
  | split {half ck} : Knows seen (.key ck) → Knows seen (.key (.split half ck))
  | hkdf {half salt p info} : Knows seen (.key salt) → Knows seen (.point p) →
    Knows seen (.key (.hkdf half salt p info))
  | hmac {k byte} : Knows seen (.key k) → Knows seen (.key (.hmac k byte))
  | box {k ad m} : Knows seen (.key k) → Knows seen (.sealed (.box k ad m))
  | noiseBox {k n h p} : Knows seen (.key k) → Knows seen (.point p.point) →
    Knows seen (.sealed (.noiseBox k n h (.inl p)))
  | noiseBoxBytes {k n h bs} : Knows seen (.key k) →
    Knows seen (.sealed (.noiseBox k n h (.inr bs)))
  | noiseOpen {k n h p} : Knows seen (.key k) →
    Knows seen (.sealed (.noiseBox k n h (.inl p))) → Knows seen (.point p.point)
  | bytes {bs} : Knows seen (.sealed (.bytes bs))

/-- An item that gives the attacker nothing he should not have; `honest` are the ciphertexts
of the two sessions. -/
def Safe (honest : Sealed → Prop) : Item → Prop
  | .secret a => attacker a
  | .point p => ¬ SecretPoint attacker b p
  | .key k => ¬ SecretKey attacker b k
  | .sealed (.box k ad m) => SecretKey attacker b k → honest (.box k ad m)
  | .sealed (.noiseBox k _ _ (.inl p)) =>
    SecretKey attacker b k ∨ ¬ SecretPoint attacker b p.point
  | .sealed (.noiseBox _ _ _ (.inr _)) => True
  | .sealed (.bytes _) => True

variable {attacker b} {honest honest' : Sealed → Prop} {seen : Item → Prop} {x : Item}

theorem not_secretPoint_mul_zero : ¬ SecretPoint attacker b (.mul 0) := by
  rintro (h | ⟨x, y, -, -, hle⟩)
  · exact Multiset.notMem_zero b h
  · exact absurd (Multiset.card_le_card hle) (by simp)

theorem not_secretPoint_scale {a : Nat} {p : Point} (hb : ¬ attacker b) (ha : attacker a)
    (hp : ¬ SecretPoint attacker b p) : ¬ SecretPoint attacker b (p.scale a) := by
  cases p with
  | small i => exact hp
  | mul scalars =>
    rintro (h | ⟨x, y, hx, hy, hle⟩)
    · rcases Multiset.mem_cons.mp h with rfl | h
      · exact hb ha
      · exact hp (.inl h)
    · refine hp (.inr ⟨x, y, hx, hy, ?_⟩)
      refine (Multiset.le_cons_of_notMem fun hmem => ?_).mp hle
      rcases Multiset.mem_cons.mp hmem with rfl | hmem
      · exact hx ha
      · exact hy (Multiset.mem_singleton.mp hmem ▸ ha)

theorem secretPoint_scale_hidden {p : Point} (hp : ∀ i, p ≠ .small i) :
    SecretPoint attacker b (p.scale b) := by
  cases p with
  | small i => exact absurd rfl (hp i)
  | mul scalars => exact .inl (Multiset.mem_cons_self _ _)

theorem not_secretPoint_publicKey {a : Nat} (ha : a ≠ b) :
    ¬ SecretPoint attacker b (.mul {a}) := by
  rintro (h | ⟨x, y, -, -, hle⟩)
  · exact ha (Multiset.mem_singleton.mp h).symm
  · exact absurd (Multiset.card_le_card hle) (by simp)

theorem secretPoint_pair {a c : Nat} (ha : ¬ attacker a) (hc : ¬ attacker c) :
    SecretPoint attacker b (Point.scale a (.mul {c})) :=
  .inr ⟨a, c, ha, hc, le_refl _⟩

theorem Knows.safe (hb : ¬ attacker b) (hseen : ∀ x, seen x → Safe attacker b honest x)
    (h : Knows attacker seen x) : Safe attacker b honest x := by
  induction h with
  | seen h => exact hseen _ h
  | own h => exact h
  | base => exact not_secretPoint_mul_zero
  | small => exact id
  | scale _ _ iha ihp => exact not_secretPoint_scale hb iha ihp
  | protocol => exact id
  | hash _ ih => exact ih
  | mixKey _ _ ihk ihp => exact not_or.mpr ⟨ihk, ihp⟩
  | split _ ih => exact ih
  | hkdf _ _ ihk ihp => exact not_or.mpr ⟨ihk, ihp⟩
  | hmac _ ih => exact ih
  | box _ ih => exact fun h => absurd h ih
  | noiseBox _ _ _ ihp => exact .inr ihp
  | noiseBoxBytes => trivial
  | noiseOpen _ _ ihk ihc => exact ihc.resolve_left ihk
  | bytes => trivial

theorem Safe.mono (h : Safe attacker b honest x) (hsub : ∀ c, honest c → honest' c) :
    Safe attacker b honest' x := by
  cases x with
  | sealed c =>
    cases c with
    | box k ad m => exact fun hk => hsub _ (h hk)
    | noiseBox k n hash content => cases content <;> exact h
    | bytes bs => trivial
  | _ => exact h

theorem Knows.made (hb : ¬ attacker b) (hseen : ∀ x, seen x → Safe attacker b honest x)
    {k : Key} {ad m : List UInt8} (h : Knows attacker seen (.sealed (.box k ad m)))
    (hk : SecretKey attacker b k) : honest (.box k ad m) :=
  h.safe hb hseen hk

end Secrecy

def Key.depth : Key → Nat
  | .protocol _ => 0
  | .hash h _ => h.depth
  | .mixKey _ _ _ => 0
  | .split _ _ => 0
  | .hkdf _ salt _ _ => salt.depth + 1
  | .hmac key _ => key.depth

def Key.index : Key → Nat
  | .hmac key byte => if byte = 2 then key.index + 1 else key.index
  | _ => 0

def Key.label (k : Key) : Nat × Nat := (k.depth, k.index)

end ProjectMesh.Crypto.Symbolic
