import ProjectMesh.Crypto.Guarded
import ProjectMesh.Crypto.SessionSeed

namespace ProjectMesh.Crypto.Session

open ProjectMesh.Lib
open ProjectMesh.Crypto.Noise
open ProjectMesh.Crypto.Ratchet
open ProjectMesh.Crypto.Symbolic

variable {encode : Public → List UInt8} {encodeSealed : Sealed → List UInt8}
  {attacker : Nat → Prop} {b : Nat} {honest : Sealed → Prop}

def tokenItems : Token (noiseSuite encode encodeSealed) → List Item
  | .clear (.publicKey p) => [.point p.point]
  | .clear (.bytes _) => []
  | .sealed c => [.sealed c]

def wireItems (wire : WireMessage (noiseSuite encode encodeSealed)) : List Item :=
  wire.flatMap tokenItems

section Handshake

abbrev Handshake (encode : Public → List UInt8) (encodeSealed : Sealed → List UInt8) :=
  HandshakeState (noiseSuite encode encodeSealed)

variable {st st' st'' : Handshake encode encodeSealed}
  {wire rest : WireMessage (noiseSuite encode encodeSealed)}
  {token : Token (noiseSuite encode encodeSealed)} {payload : Payload (suite encode)}
  {pattern : Pattern} {patterns : List Pattern} {fresh : Nat} {bs : List UInt8}

structure Keeps (attacker : Nat → Prop) (b : Nat) (st st' : Handshake encode encodeSealed) :
    Prop where
  s : st'.s = st.s
  ck : SecretKey attacker b st.ck → SecretKey attacker b st'.ck

theorem Keeps.refl : Keeps attacker b st st := ⟨rfl, id⟩

theorem Keeps.trans (h : Keeps attacker b st st') (h' : Keeps attacker b st' st'') :
    Keeps attacker b st st'' := ⟨h'.s.trans h.s, h'.ck ∘ h.ck⟩

theorem keeps_encryptAndHash : Keeps attacker b st (st.encryptAndHash payload).2 := by
  rw [HandshakeState.encryptAndHash]
  split <;> exact ⟨rfl, id⟩

theorem keeps_decryptAndHash (h : st.decryptAndHash token = some (payload, st')) :
    Keeps attacker b st st' := by
  cases token with
  | clear p =>
    rw [HandshakeState.decryptAndHash] at h
    split at h
    · cases h
    · cases h
      exact ⟨rfl, id⟩
  | sealed c =>
    simp only [HandshakeState.decryptAndHash, Option.bind_eq_bind, Option.bind_eq_some_iff] at h
    obtain ⟨k, -, p, -, heq⟩ := h
    cases heq
    exact ⟨rfl, id⟩

theorem keeps_mixKey (shared : Point) : Keeps attacker b st (st.mixKey shared) :=
  ⟨rfl, Or.inl⟩

theorem keeps_writePattern (h : st.writePattern fresh pattern = some (wire, st')) :
    Keeps attacker b st st' := by
  cases pattern with
  | e =>
    cases h
    exact ⟨rfl, id⟩
  | s =>
    cases h
    exact keeps_encryptAndHash
  | ee | es | se =>
    simp only [HandshakeState.writePattern, Option.bind_eq_bind, Option.bind_eq_some_iff] at h
    obtain ⟨d, -, heq⟩ := h
    cases heq
    exact keeps_mixKey d

theorem keeps_writePatterns (h : st.writePatterns fresh patterns = some (wire, st')) :
    Keeps attacker b st st' := by
  induction patterns generalizing st wire with
  | nil =>
    cases h
    exact .refl
  | cons pattern patterns ih =>
    simp only [HandshakeState.writePatterns, Option.bind_eq_bind, Option.bind_eq_some_iff] at h
    obtain ⟨⟨tokens, st₁⟩, hfirst, ⟨more, st₂⟩, hmore, heq⟩ := h
    cases heq
    exact (keeps_writePattern hfirst).trans (ih hmore)

theorem keeps_writeMessage (h : st.writeMessage fresh bs = some (wire, st')) :
    Keeps attacker b st st' := by
  obtain ⟨patterns, pending, tokens, st₁, hpat, rfl, rfl⟩ := HandshakeState.writeMessage_cases h
  have hlast : Keeps attacker b st₁ (st₁.encryptAndHash (.bytes bs)).2 := keeps_encryptAndHash
  exact (keeps_writePatterns hpat).trans ⟨hlast.s, hlast.ck⟩

theorem keeps_readPattern (h : st.readPattern wire pattern = some (rest, st')) :
    Keeps attacker b st st' := by
  cases pattern with
  | e =>
    simp only [HandshakeState.readPattern] at h
    split at h
    · cases h
      exact ⟨rfl, id⟩
    · cases h
  | s =>
    simp only [HandshakeState.readPattern] at h
    split at h
    · simp only [Option.bind_eq_bind, Option.bind_eq_some_iff] at h
      obtain ⟨⟨payload, st₁⟩, hdec, heq⟩ := h
      have hfirst : Keeps attacker b st st₁ := keeps_decryptAndHash hdec
      cases payload with
      | publicKey p =>
        cases heq
        exact ⟨hfirst.s, hfirst.ck⟩
      | bytes bs => cases heq
    · cases h
  | ee | es | se =>
    simp only [HandshakeState.readPattern, Option.bind_eq_bind, Option.bind_eq_some_iff] at h
    obtain ⟨d, -, heq⟩ := h
    cases heq
    exact keeps_mixKey d

theorem keeps_readPatterns (h : st.readPatterns wire patterns = some (rest, st')) :
    Keeps attacker b st st' := by
  induction patterns generalizing st wire with
  | nil =>
    cases h
    exact .refl
  | cons pattern patterns ih =>
    simp only [HandshakeState.readPatterns, Option.bind_eq_bind, Option.bind_eq_some_iff] at h
    obtain ⟨⟨wire₁, st₁⟩, hfirst, hmore⟩ := h
    exact (keeps_readPattern hfirst).trans (ih hmore)

theorem keeps_readMessage (h : st.readMessage wire = some (payload, st')) :
    Keeps attacker b st st' := by
  obtain ⟨patterns, pending, token, st₁, st₂, hpat, hdec, rfl⟩ :=
    HandshakeState.readMessage_cases h
  have hnext : Keeps attacker b st₁ st₂ := keeps_decryptAndHash hdec
  exact (keeps_readPatterns hpat).trans ⟨hnext.s, hnext.ck⟩

def SafeWire (attacker : Nat → Prop) (b : Nat)
    (wire : WireMessage (noiseSuite encode encodeSealed)) : Prop :=
  ∀ honest, ∀ x ∈ wireItems wire, Safe attacker b honest x

theorem SafeWire.append {more : WireMessage (noiseSuite encode encodeSealed)}
    (h : SafeWire attacker b wire) (h' : SafeWire attacker b more) :
    SafeWire attacker b (wire ++ more) := fun honest x hx => by
  rw [wireItems, List.flatMap_append] at hx
  exact (List.mem_append.mp hx).elim (h honest x) (h' honest x)

theorem safeWire_encryptAndHash
    (hp : ∀ p, payload = .publicKey p → ¬ SecretPoint attacker b p.point) :
    SafeWire attacker b [(st.encryptAndHash payload).1] := by
  intro honest x hx
  rw [HandshakeState.encryptAndHash] at hx
  split at hx
  · obtain rfl := List.mem_singleton.mp hx
    cases payload with
    | publicKey p => exact .inr (hp p rfl)
    | bytes bs => trivial
  · cases payload with
    | publicKey p =>
      obtain rfl := List.mem_singleton.mp hx
      exact hp p rfl
    | bytes bs => cases hx

theorem safeWire_writePattern (hs : st.s ≠ b) (hfresh : fresh ≠ b)
    (h : st.writePattern fresh pattern = some (wire, st')) : SafeWire attacker b wire := by
  cases pattern with
  | e =>
    cases h
    intro honest x hx
    obtain rfl := List.mem_singleton.mp hx
    exact not_secretPoint_publicKey hfresh
  | s =>
    cases h
    refine safeWire_encryptAndHash fun p hp => ?_
    cases hp
    exact not_secretPoint_publicKey hs
  | ee | es | se =>
    simp only [HandshakeState.writePattern, Option.bind_eq_bind, Option.bind_eq_some_iff] at h
    obtain ⟨d, -, heq⟩ := h
    cases heq
    intro honest x hx
    cases hx

theorem safeWire_writePatterns (hs : st.s ≠ b) (hfresh : fresh ≠ b)
    (h : st.writePatterns fresh patterns = some (wire, st')) : SafeWire attacker b wire := by
  induction patterns generalizing st wire with
  | nil =>
    cases h
    intro honest x hx
    cases hx
  | cons pattern patterns ih =>
    simp only [HandshakeState.writePatterns, Option.bind_eq_bind, Option.bind_eq_some_iff] at h
    obtain ⟨⟨tokens, st₁⟩, hfirst, ⟨more, st₂⟩, hmore, heq⟩ := h
    cases heq
    have hkeeps : Keeps attacker b st st₁ := keeps_writePattern hfirst
    exact (safeWire_writePattern hs hfresh hfirst).append (ih (hkeeps.s ▸ hs) hmore)

theorem safeWire_writeMessage (hs : st.s ≠ b) (hfresh : fresh ≠ b)
    (h : st.writeMessage fresh bs = some (wire, st')) : SafeWire attacker b wire := by
  obtain ⟨patterns, pending, tokens, st₁, hpat, rfl, rfl⟩ := HandshakeState.writeMessage_cases h
  refine (safeWire_writePatterns hs hfresh hpat).append (safeWire_encryptAndHash ?_)
  rintro p ⟨⟩

end Handshake

theorem depth_absorb (h : Key) (wire : WireMessage (noiseSuite encode encodeSealed)) :
    (absorb h wire).depth = h.depth := by
  induction wire generalizing h with
  | nil => rfl
  | cons token wire ih => exact ih _

theorem depth_handshakeSharedSecret {st : Handshake encode encodeSealed}
    {m₁ m₂ m₃ : WireMessage (noiseSuite encode encodeSealed)} (h : Completed st m₁ m₂ m₃) :
    (handshakeSharedSecret st).depth = 0 := by
  have heq : st.h = absorb _ _ := h.h_eq
  rw [handshakeSharedSecret, HandshakeState.handshakeHash, heq, depth_absorb]
  rfl

section Exchange

variable {si sr ei er : Nat} {x : Exchange (noiseSuite encode encodeSealed)}

theorem exchange_secure
    (hx : exchange ei er (buildInitiator si) (buildResponder sr) = some x)
    (hei : ¬ attacker ei) (her : ¬ attacker er) (hsib : si ≠ b) (hsrb : sr ≠ b) (heib : ei ≠ b)
    (herb : er ≠ b) :
    SafeWire attacker b (x.m₁ ++ x.m₂ ++ x.m₃) ∧ SecretKey attacker b x.responder.ck := by
  simp only [exchange, Option.bind_eq_bind, Option.bind_eq_some_iff] at hx
  obtain ⟨⟨m₁, i₁⟩, h₁, ⟨p₁, r₁⟩, h₂, ⟨m₂, r₂⟩, h₃, ⟨p₂, i₂⟩, h₄, ⟨m₃, i₃⟩, h₅, ⟨p₃, r₃⟩, h₆,
    heq⟩ := hx
  cases heq
  have hi₁ : Keeps attacker b _ i₁ := keeps_writeMessage h₁
  have hi₂ : Keeps attacker b i₁ i₂ := keeps_readMessage h₄
  have hr₁ : Keeps attacker b _ r₁ := keeps_readMessage h₂
  have hr₃ : Keeps attacker b r₂ r₃ := keeps_readMessage h₆
  refine ⟨((safeWire_writeMessage hsib heib h₁).append
    (safeWire_writeMessage (hr₁.s ▸ hsrb) herb h₃)).append
    (safeWire_writeMessage ((hi₁.trans hi₂).s ▸ hsib) heib h₅), hr₃.ck ?_⟩
  cases h₁
  cases h₂
  cases h₃
  exact .inl (.inr (secretPoint_pair her hei))

end Exchange

end ProjectMesh.Crypto.Session
