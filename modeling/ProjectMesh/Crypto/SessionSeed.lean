import ProjectMesh.Crypto.Session
import ProjectMesh.Crypto.Symbolic

namespace ProjectMesh.Crypto.Noise

variable {N : NoiseSuite}

def absorb (h : N.Key) (wire : WireMessage N) : N.Key :=
  wire.foldl (fun h token => N.hash h token.toBytes) h

theorem absorb_append (h : N.Key) (wire more : WireMessage N) :
    absorb h (wire ++ more) = absorb (absorb h wire) more := List.foldl_append

namespace HandshakeState

variable {st st' : HandshakeState N} {wire rest : WireMessage N} {token : Token N}
  {payload : Payload N.toSuite} {pattern : Pattern} {patterns : List Pattern}
  {fresh : N.Secret} {bs : List UInt8}

theorem encryptAndHash_h (st : HandshakeState N) (payload : Payload N.toSuite) :
    (st.encryptAndHash payload).2.h = absorb st.h [(st.encryptAndHash payload).1] := by
  rw [encryptAndHash]
  split <;> rfl

theorem decryptAndHash_h (h : st.decryptAndHash token = some (payload, st')) :
    st'.h = absorb st.h [token] := by
  cases token with
  | clear p =>
    rw [decryptAndHash] at h
    split at h
    · cases h
    · cases h
      rfl
  | sealed c =>
    simp only [decryptAndHash, Option.bind_eq_bind, Option.bind_eq_some_iff] at h
    obtain ⟨k, -, p, -, heq⟩ := h
    cases heq
    rfl

theorem writePattern_h (h : st.writePattern fresh pattern = some (wire, st')) :
    st'.h = absorb st.h wire := by
  cases pattern with
  | e =>
    cases h
    rfl
  | s =>
    cases h
    exact st.encryptAndHash_h _
  | ee | es | se =>
    simp only [writePattern, Option.bind_eq_bind, Option.bind_eq_some_iff] at h
    obtain ⟨d, -, heq⟩ := h
    cases heq
    rfl

theorem writePatterns_h (h : st.writePatterns fresh patterns = some (wire, st')) :
    st'.h = absorb st.h wire := by
  induction patterns generalizing st wire with
  | nil =>
    cases h
    rfl
  | cons pattern patterns ih =>
    simp only [writePatterns, Option.bind_eq_bind, Option.bind_eq_some_iff] at h
    obtain ⟨⟨tokens, st₁⟩, hfirst, ⟨more, st₂⟩, hmore, heq⟩ := h
    cases heq
    rw [absorb_append, ← writePattern_h hfirst]
    exact ih hmore

theorem writeMessage_cases (h : st.writeMessage fresh bs = some (wire, st')) :
    ∃ patterns pending tokens st₁, st.writePatterns fresh patterns = some (tokens, st₁) ∧
      wire = tokens ++ [(st₁.encryptAndHash (.bytes bs)).1] ∧
      st' = { (st₁.encryptAndHash (.bytes bs)).2 with myTurn := false, pending := pending } := by
  rw [writeMessage] at h
  split at h
  · next patterns pending _ _ =>
    simp only [Option.bind_eq_bind, Option.bind_eq_some_iff] at h
    obtain ⟨⟨tokens, st₁⟩, hpat, heq⟩ := h
    cases heq
    exact ⟨patterns, pending, tokens, st₁, hpat, rfl, rfl⟩
  · cases h

theorem writeMessage_h (h : st.writeMessage fresh bs = some (wire, st')) :
    st'.h = absorb st.h wire := by
  obtain ⟨patterns, pending, tokens, st₁, hpat, rfl, rfl⟩ := writeMessage_cases h
  rw [absorb_append, ← writePatterns_h hpat]
  exact st₁.encryptAndHash_h _

theorem readPattern_h (h : st.readPattern wire pattern = some (rest, st')) :
    ∃ used, wire = used ++ rest ∧ st'.h = absorb st.h used := by
  cases pattern with
  | e =>
    simp only [readPattern] at h
    split at h
    · cases h
      exact ⟨[_], rfl, rfl⟩
    · cases h
  | s =>
    simp only [readPattern] at h
    split at h
    · simp only [Option.bind_eq_bind, Option.bind_eq_some_iff] at h
      obtain ⟨⟨payload, st₁⟩, hdec, heq⟩ := h
      cases payload with
      | publicKey p =>
        cases heq
        have hst : st₁.h = _ := decryptAndHash_h hdec
        exact ⟨[_], rfl, hst⟩
      | bytes bs => cases heq
    · cases h
  | ee | es | se =>
    simp only [readPattern, Option.bind_eq_bind, Option.bind_eq_some_iff] at h
    obtain ⟨d, -, heq⟩ := h
    cases heq
    exact ⟨[], rfl, rfl⟩

theorem readPatterns_h (h : st.readPatterns wire patterns = some (rest, st')) :
    ∃ used, wire = used ++ rest ∧ st'.h = absorb st.h used := by
  induction patterns generalizing st wire with
  | nil =>
    cases h
    exact ⟨[], rfl, rfl⟩
  | cons pattern patterns ih =>
    simp only [readPatterns, Option.bind_eq_bind, Option.bind_eq_some_iff] at h
    obtain ⟨⟨wire₁, st₁⟩, hfirst, hmore⟩ := h
    obtain ⟨used, rfl, hused⟩ := readPattern_h hfirst
    obtain ⟨used₁, rfl, hused₁⟩ := ih hmore
    exact ⟨used ++ used₁, (List.append_assoc _ _ _).symm,
      by rw [absorb_append, ← hused, hused₁]⟩

theorem readMessage_cases (h : st.readMessage wire = some (payload, st')) :
    ∃ patterns pending token st₁ st₂, st.readPatterns wire patterns = some ([token], st₁) ∧
      st₁.decryptAndHash token = some (payload, st₂) ∧
      st' = { st₂ with myTurn := true, pending := pending } := by
  rw [readMessage] at h
  split at h
  · next patterns pending _ _ =>
    simp only [Option.bind_eq_bind, Option.bind_eq_some_iff] at h
    obtain ⟨⟨left, st₁⟩, hpat, hlast⟩ := h
    rcases left with _ | ⟨token, _ | ⟨token', left⟩⟩
    · cases hlast
    · simp only [Option.bind_eq_some_iff] at hlast
      obtain ⟨⟨p, st₂⟩, hdec, heq⟩ := hlast
      cases heq
      exact ⟨patterns, pending, token, st₁, st₂, hpat, hdec, rfl⟩
    · cases hlast
  · cases h

theorem readMessage_h (h : st.readMessage wire = some (payload, st')) :
    st'.h = absorb st.h wire := by
  obtain ⟨patterns, pending, token, st₁, st₂, hpat, hdec, rfl⟩ := readMessage_cases h
  obtain ⟨used, rfl, hused⟩ := readPatterns_h hpat
  have hst : st₂.h = _ := decryptAndHash_h hdec
  rw [absorb_append, ← hused]
  exact hst

end HandshakeState

/-- A side that has sent and read the three messages of the exchange. -/
inductive Completed : HandshakeState N → WireMessage N → WireMessage N → WireMessage N → Prop
  | initiator {s e e' p₁ p₂ p₃ m₁ m₂ m₃ st₁ st₂ st₃} :
    (buildInitiator s).writeMessage e p₁ = some (m₁, st₁) →
    st₁.readMessage m₂ = some (p₂, st₂) →
    st₂.writeMessage e' p₃ = some (m₃, st₃) → Completed st₃ m₁ m₂ m₃
  | responder {s e p₁ p₂ p₃ m₁ m₂ m₃ st₁ st₂ st₃} :
    (buildResponder s).readMessage m₁ = some (p₁, st₁) →
    st₁.writeMessage e p₂ = some (m₂, st₂) →
    st₂.readMessage m₃ = some (p₃, st₃) → Completed st₃ m₁ m₂ m₃

theorem Completed.h_eq {st : HandshakeState N} {m₁ m₂ m₃ : WireMessage N}
    (h : Completed st m₁ m₂ m₃) : st.h = absorb (initialHash N) (m₁ ++ m₂ ++ m₃) := by
  rw [absorb_append, absorb_append]
  cases h with
  | initiator h₁ h₂ h₃ =>
    rw [HandshakeState.writeMessage_h h₃, HandshakeState.readMessage_h h₂,
      HandshakeState.writeMessage_h h₁]
    rfl
  | responder h₁ h₂ h₃ =>
    rw [HandshakeState.readMessage_h h₃, HandshakeState.writeMessage_h h₂,
      HandshakeState.readMessage_h h₁]
    rfl

theorem completed_of_exchange {ei er si sr : N.Secret} {x : Exchange N}
    (h : exchange ei er (buildInitiator si) (buildResponder sr) = some x) :
    Completed x.initiator x.m₁ x.m₂ x.m₃ ∧ Completed x.responder x.m₁ x.m₂ x.m₃ := by
  simp only [exchange, Option.bind_eq_bind, Option.bind_eq_some_iff] at h
  obtain ⟨⟨m₁, i₁⟩, h₁, ⟨p₁, r₁⟩, h₂, ⟨m₂, r₂⟩, h₃, ⟨p₂, i₂⟩, h₄, ⟨m₃, i₃⟩, h₅, ⟨p₃, r₃⟩, h₆,
    heq⟩ := h
  cases heq
  exact ⟨.initiator h₁ h₄ h₅, .responder h₂ h₃ h₆⟩

end ProjectMesh.Crypto.Noise

namespace ProjectMesh.Crypto.Session

open ProjectMesh.Crypto.Noise

/-- The seed of the ratchet is a function of what is on the wire: whoever sees the three
messages can compute it. -/
theorem sharedSecret_of_wire (N : NoiseSuite) :
    ∃ f : WireMessage N → WireMessage N → WireMessage N → N.Key,
      ∀ st m₁ m₂ m₃, Completed st m₁ m₂ m₃ → handshakeSharedSecret st = f m₁ m₂ m₃ :=
  ⟨fun m₁ m₂ m₃ => absorb (initialHash N) (m₁ ++ m₂ ++ m₃), fun _ _ _ _ h => h.h_eq⟩

def toyExchange : Exchange Symbolic.toyNoiseSuite :=
  (exchange (10 : Nat) (11 : Nat) (buildInitiator (N := Symbolic.toyNoiseSuite) (12 : Nat))
    (buildResponder (13 : Nat))).get (by decide)

theorem sharedSecret_of_wire_toyExchange :
    ∃ f : WireMessage Symbolic.toyNoiseSuite → WireMessage Symbolic.toyNoiseSuite →
        WireMessage Symbolic.toyNoiseSuite → Symbolic.Key,
      handshakeSharedSecret toyExchange.initiator =
          f toyExchange.m₁ toyExchange.m₂ toyExchange.m₃ ∧
        handshakeSharedSecret toyExchange.responder =
          f toyExchange.m₁ toyExchange.m₂ toyExchange.m₃ := by
  obtain ⟨f, hf⟩ := sharedSecret_of_wire Symbolic.toyNoiseSuite
  have hx : exchange (10 : Nat) (11 : Nat)
      (buildInitiator (N := Symbolic.toyNoiseSuite) (12 : Nat)) (buildResponder (13 : Nat)) =
        some toyExchange := (Option.some_get _).symm
  obtain ⟨hi, hr⟩ := completed_of_exchange hx
  exact ⟨f, hf _ _ _ _ hi, hf _ _ _ _ hr⟩

theorem not_sharedSecret_secret :
    ¬ ∀ N : NoiseSuite, ¬ ∃ f : WireMessage N → WireMessage N → WireMessage N → N.Key,
      ∀ st m₁ m₂ m₃, Completed st m₁ m₂ m₃ → handshakeSharedSecret st = f m₁ m₂ m₃ := by
  intro h
  exact h Symbolic.toyNoiseSuite
    ⟨fun m₁ m₂ m₃ => absorb (initialHash _) (m₁ ++ m₂ ++ m₃), fun _ _ _ _ h => h.h_eq⟩

end ProjectMesh.Crypto.Session
