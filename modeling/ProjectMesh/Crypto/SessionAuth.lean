import ProjectMesh.Crypto.HandshakeSecrecy

namespace ProjectMesh.Crypto.Session

open ProjectMesh.Lib
open ProjectMesh.Crypto.Noise
open ProjectMesh.Crypto.Ratchet
open ProjectMesh.Crypto.Symbolic

variable {encode : Public → List UInt8} {encodeSealed : Sealed → List UInt8}
  {attacker : Nat → Prop} {b : Nat}

/-- The two sessions of a handshake, with the attacker as the network between them. -/
structure Channel (encode : Public → List UInt8) where
  ratchet : Party → DoubleRatchet (suite encode)
  sent : Party → List (Message (suite encode))
  /-- What a party's `decrypt` returned with `Ok`. -/
  accepted : Party → List (Message (suite encode))
  seen : List Item

inductive Event (encode : Public → List UInt8) : Type
  | encrypt (p : Party) (plaintext : List UInt8)
  /-- The party gets a message.  `fresh` is the secret the random generator returns if it is
  asked. -/
  | inject (p : Party) (header : Header (suite encode)) (ciphertext : Sealed) (fresh : Nat)

/-- A handshake between honest sides: `a` and `b` are the ratchet secrets they draw. -/
inductive Established (encodeSealed : Sealed → List UInt8) (attacker : Nat → Prop) (b : Nat) :
    Channel encode → Prop
  | intro {si sr ei er a : Nat} {x : Exchange (noiseSuite encode encodeSealed)}
    {initiator responder : DoubleRatchet (suite encode)} {message : Sealed} :
    ¬ attacker b → (∀ s ∈ [si, sr, ei, er, a], ¬ attacker s ∧ s ≠ b) →
    exchange ei er (buildInitiator si) (buildResponder sr) = some x →
    establishAsResponder b x.responder = .ok (responder, message) →
    establishAsInitiator a x.initiator message = .ok initiator →
    Established encodeSealed attacker b
      { ratchet
          | .initiator => initiator
          | .responder => responder
        sent _ := []
        accepted _ := []
        seen := .sealed message :: wireItems (x.m₁ ++ x.m₂ ++ x.m₃) }

namespace Channel

def setRatchet (w : Channel encode) (p : Party) (s : DoubleRatchet (suite encode)) :
    Channel encode :=
  { w with ratchet := Function.update w.ratchet p s }

def send (w : Channel encode) (p : Party) (m : Message (suite encode)) : Channel encode :=
  { w with
    sent := Function.update w.sent p (w.sent p ++ [m])
    seen := .point m.header.dhPub.point :: .sealed m.ciphertext :: w.seen }

def accept (w : Channel encode) (p : Party) (m : Message (suite encode)) : Channel encode :=
  { w with accepted := Function.update w.accepted p (w.accepted p ++ [m]) }

section Updates

variable {w : Channel encode} {p q : Party} {s : DoubleRatchet (suite encode)}
  {m : Message (suite encode)}

@[simp] theorem setRatchet_self : (w.setRatchet p s).ratchet p = s :=
  Function.update_self ..

@[simp] theorem setRatchet_of_ne (h : q ≠ p) : (w.setRatchet p s).ratchet q = w.ratchet q :=
  Function.update_of_ne h ..

@[simp] theorem send_self : (w.send p m).sent p = w.sent p ++ [m] := Function.update_self ..

@[simp] theorem send_of_ne (h : q ≠ p) : (w.send p m).sent q = w.sent q :=
  Function.update_of_ne h ..

@[simp] theorem accept_self : (w.accept p m).accepted p = w.accepted p ++ [m] :=
  Function.update_self ..

@[simp] theorem accept_of_ne (h : q ≠ p) : (w.accept p m).accepted q = w.accepted q :=
  Function.update_of_ne h ..

theorem mem_sent_send {m' : Message (suite encode)} (h : m' ∈ w.sent q) :
    m' ∈ (w.send p m).sent q := by
  by_cases hq : q = p
  · subst hq
    rw [send_self]
    exact List.mem_append_left _ h
  · rwa [send_of_ne hq]

end Updates

def act (w : Channel encode) : Event encode → Option (Channel encode)
  | .encrypt p plaintext =>
    match (DoubleRatchet.encrypt plaintext).run (w.ratchet p) with
    | .ok (header, ct) s => some ((w.setRatchet p s).send p ⟨header, ct, plaintext⟩)
    | .error (.err _) s => some (w.setRatchet p s)
    | .error .panic _ => none
  | .inject p header ct fresh =>
    match (DoubleRatchet.decrypt fresh header ct).run (w.ratchet p) with
    | .ok plaintext s => some ((w.setRatchet p s).accept p ⟨header, ct, plaintext⟩)
    | .error (.err _) s => some (w.setRatchet p s)
    | .error .panic _ => none

def Able (attacker : Nat → Prop) (b : Nat) (w : Channel encode) : Event encode → Prop
  | .encrypt _ _ => True
  | .inject _ header ct fresh => Knows attacker (· ∈ w.seen) (.point header.dhPub.point) ∧
    Knows attacker (· ∈ w.seen) (.sealed ct) ∧ ¬ attacker fresh ∧ fresh ≠ b

def NotSmall (w : Channel encode) : Event encode → Prop
  | .encrypt _ _ => True
  | .inject p header _ _ =>
    (w.ratchet p).dhRemote = none → ∀ i, header.dhPub.point ≠ .small i

def Step (attacker : Nat → Prop) (b : Nat) (w w' : Channel encode) : Prop :=
  ∃ e, w.Able attacker b e ∧ w.act e = some w'

def NotSmallStep (attacker : Nat → Prop) (b : Nat) (w w' : Channel encode) : Prop :=
  ∃ e, w.Able attacker b e ∧ w.NotSmall e ∧ w.act e = some w'

def Honest (w : Channel encode) (c : Sealed) : Prop := ∃ p, ∃ m ∈ w.sent p, m.ciphertext = c

end Channel

def sealingKey : Sealed → Option Key
  | .box k _ _ => some k
  | .noiseBox .. => none
  | .bytes _ => none

/-- A message of a party: sealed under a key of its own chains. -/
def Made (p : Party) (m : Message (suite encode)) : Prop :=
  ∃ k ad padded, m.ciphertext = .box k ad padded ∧ k.depth % 2 = p.parity ∧
    Padding.unpad padded = .ok m.plaintext

def Genuine (w : Channel encode) (p : Party) (m : Message (suite encode)) : Prop :=
  ∃ m' ∈ w.sent p.other, m'.ciphertext = m.ciphertext ∧ m'.plaintext = m.plaintext

structure Secure (attacker : Nat → Prop) (b : Nat) (w : Channel encode) : Prop where
  hidden : ¬ attacker b
  guarded : ∀ p, ∃ used, Guarded attacker b p (w.ratchet p) used ∧
    (w.accepted p).map (sealingKey ∘ Message.ciphertext) = used.map some
  safe : ∀ x ∈ w.seen, Safe attacker b w.Honest x
  made : ∀ p, ∀ m ∈ w.sent p, Made p m
  genuine : ∀ p, ∀ m ∈ w.accepted p, Genuine w p m

section Start

variable {st : Handshake encode encodeSealed} {message : Sealed}
  {s : DoubleRatchet (suite encode)} {p : Public} {a n : Nat} {k : Key} {hash : Option Key}

theorem establishAsResponder_ok (h : establishAsResponder b st = .ok (s, message)) :
    s = .initResponder (handshakeSharedSecret st) b ∧
      ∃ half, message =
        .noiseBox (.split half st.ck) 0 none (.inl ((suite encode).publicKey b)) := by
  rw [establishAsResponder, HandshakeState.intoTransportMode] at h
  split at h
  · cases h
  · next transport htransport =>
    split at htransport
    · dsimp only at htransport
      split at htransport
      · cases htransport
        cases h
        exact ⟨rfl, false, rfl⟩
      · cases htransport
        cases h
        exact ⟨rfl, true, rfl⟩
    · cases htransport

theorem readMessage_noiseBox {t t' : TransportState (noiseSuite encode encodeSealed)}
    {payload : Payload (suite encode)}
    (h : t.readMessage (Sealed.noiseBox k n hash (.inl p)) = some (payload, t')) :
    payload = .publicKey p := by
  simp only [TransportState.readMessage, Option.bind_eq_bind, Option.bind_eq_some_iff] at h
  obtain ⟨payload', hopen, heq⟩ := h
  cases heq
  by_cases hkey : t.recvKey = k ∧ t.recvN = n ∧ none = hash
  · simp only [Sealed.noiseOpen, if_pos hkey] at hopen
    cases hopen
    rfl
  · simp only [Sealed.noiseOpen, if_neg hkey] at hopen
    cases hopen

theorem establishAsInitiator_ok
    (h : establishAsInitiator a st (.noiseBox k n hash (.inl p)) = .ok s) :
    s = .initInitiator a (handshakeSharedSecret st) p := by
  rw [establishAsInitiator] at h
  split at h
  · cases h
  · split at h
    · cases h
    · cases h
    · next hread =>
      cases readMessage_noiseBox hread
      cases h
      rfl

theorem guarded_initiator {secret : Key} {a : Nat} (hdepth : secret.depth = 0) (hab : a ≠ b) :
    Guarded attacker b .initiator
      (.initInitiator (C := suite encode) a secret ((suite encode).publicKey b)) [] where
  self := rfl
  parity := by
    have : (DoubleRatchet.initInitiator (C := suite encode) a secret
      ((suite encode).publicKey b)).rootKey.depth = secret.depth + 1 := rfl
    rw [this, hdepth]
    rfl
  root := .inr (.inr (.inl (by simp)))
  noRemote := fun hr => nomatch hr
  recv := fun _ hc => nomatch hc
  send := fun c hc => by
    obtain rfl := Option.some.inj hc
    exact ⟨.inr (.inl (by simp)), rfl, hab⟩
  storedKeys := fun key mk hl => by cases hl
  usedKeys := fun mk hmk => by cases hmk
  distinct := fun key key' mk mk' hl => by cases hl
  unused := fun key mk hl => by cases hl
  nodup := List.nodup_nil

theorem guarded_responder {secret : Key} (hdepth : secret.depth = 0) :
    Guarded attacker b .responder (.initResponder (C := suite encode) secret b) [] where
  self := rfl
  parity := by
    have : (DoubleRatchet.initResponder (C := suite encode) secret b).rootKey.depth =
      secret.depth := rfl
    rw [this, hdepth]
    rfl
  root := .inl rfl
  noRemote := fun _ => ⟨rfl, rfl⟩
  recv := fun _ hc => nomatch hc
  send := fun _ hc => nomatch hc
  storedKeys := fun key mk hl => by cases hl
  usedKeys := fun mk hmk => by cases hmk
  distinct := fun key key' mk mk' hl => by cases hl
  unused := fun key mk hl => by cases hl
  nodup := List.nodup_nil

end Start

namespace Secure

variable {w w' : Channel encode} {p q : Party} {s : DoubleRatchet (suite encode)}
  {used : List Key} {m : Message (suite encode)}

theorem established (h : Established encodeSealed attacker b w) : Secure attacker b w := by
  cases h with
  | @intro si sr ei er a x initiator responder message hb hsecrets hx hresponder hinitiator =>
    have hsecret : ∀ s ∈ [si, sr, ei, er, a], s ≠ b := fun s hs => (hsecrets s hs).2
    simp only [List.mem_cons, List.not_mem_nil, or_false, forall_eq_or_imp, forall_eq] at hsecret
    obtain ⟨hsi, hsr, hei, her, ha⟩ := hsecret
    obtain ⟨hwire, hck⟩ := exchange_secure hx (hsecrets ei (by simp)).1
      (hsecrets er (by simp)).1 hsi hsr hei her
    obtain ⟨hci, hcr⟩ := completed_of_exchange hx
    obtain ⟨rfl, half, rfl⟩ := establishAsResponder_ok hresponder
    obtain rfl := establishAsInitiator_ok hinitiator
    exact {
      hidden := hb
      guarded := fun p => by
        cases p with
        | initiator =>
          exact ⟨[], guarded_initiator (depth_handshakeSharedSecret hci) ha, rfl⟩
        | responder => exact ⟨[], guarded_responder (depth_handshakeSharedSecret hcr), rfl⟩
      safe := fun x hx => by
        rcases List.mem_cons.mp hx with rfl | hx
        · exact .inl hck
        · exact hwire _ x hx
      made := fun p m hm => nomatch hm
      genuine := fun p m hm => nomatch hm }

theorem setRatchet (h : Secure attacker b w) (hs : Guarded attacker b p s used)
    (hused : (w.accepted p).map (sealingKey ∘ Message.ciphertext) = used.map some) :
    Secure attacker b (w.setRatchet p s) :=
  { h with
    guarded := fun q => by
      by_cases hq : q = p
      · subst hq
        exact ⟨used, Channel.setRatchet_self ▸ hs, hused⟩
      · rw [Channel.setRatchet_of_ne hq]
        exact h.guarded q }

theorem send (h : Secure attacker b w) (hm : Made p m)
    (hpoint : ¬ SecretPoint attacker b m.header.dhPub.point) :
    Secure attacker b (w.send p m) where
  hidden := h.hidden
  guarded := h.guarded
  safe x hx := by
    rcases List.mem_cons.mp hx with rfl | hx
    · exact hpoint
    rcases List.mem_cons.mp hx with rfl | hx
    · obtain ⟨k, ad, padded, hct, -⟩ := hm
      rw [hct]
      exact fun _ => ⟨p, m, by simp, hct⟩
    · exact (h.safe x hx).mono fun c ⟨q, m', hm', hc⟩ => ⟨q, m', Channel.mem_sent_send hm', hc⟩
  made q m' hm' := by
    by_cases hq : q = p
    · subst hq
      rw [Channel.send_self] at hm'
      rcases List.mem_append.mp hm' with hm' | hm'
      · exact h.made q m' hm'
      · exact List.mem_singleton.mp hm' ▸ hm
    · rw [Channel.send_of_ne hq] at hm'
      exact h.made q m' hm'
  genuine q m' hm' := by
    obtain ⟨m'', hmem, heq⟩ := h.genuine q m' hm'
    exact ⟨m'', Channel.mem_sent_send hmem, heq⟩

theorem accept {mk : Key} (h : Secure attacker b w)
    (hs : Guarded attacker b p s (used ++ [mk]))
    (hused : (w.accepted p).map (sealingKey ∘ Message.ciphertext) = used.map some)
    (hkey : sealingKey m.ciphertext = some mk) (hm : Genuine w p m) :
    Secure attacker b ((w.setRatchet p s).accept p m) where
  hidden := h.hidden
  guarded q := by
    by_cases hq : q = p
    · subst hq
      refine ⟨used ++ [mk], ?_, ?_⟩
      · exact (Channel.setRatchet_self (w := w) (s := s)).symm ▸ hs
      · rw [Channel.accept_self, List.map_append, List.map_append]
        exact congrArg₂ _ hused (congrArg ([·]) hkey)
    · rw [Channel.accept_of_ne hq]
      exact (Channel.setRatchet_of_ne (w := w) (s := s) hq).symm ▸ h.guarded q
  safe := h.safe
  made := h.made
  genuine q m' hm' := by
    by_cases hq : q = p
    · subst hq
      rw [Channel.accept_self] at hm'
      rcases List.mem_append.mp hm' with hm' | hm'
      · exact h.genuine q m' hm'
      · exact List.mem_singleton.mp hm' ▸ hm
    · rw [Channel.accept_of_ne hq] at hm'
      exact h.genuine q m' hm'

theorem genuine_of_secretKey {header : Header (suite encode)} {plaintext padded ad : List UInt8}
    {mk : Key} (h : Secure attacker b w)
    (hknows : Knows attacker (· ∈ w.seen) (.sealed (.box mk ad padded)))
    (hsecret : SecretKey attacker b mk) (hdepth : mk.depth % 2 ≠ p.parity)
    (hpad : Padding.unpad padded = .ok plaintext) :
    Genuine w p ⟨header, .box mk ad padded, plaintext⟩ := by
  obtain ⟨q, m', hm', hct⟩ := hknows.made h.hidden h.safe hsecret
  obtain ⟨k, ad', padded', hbox, hparity, hpad'⟩ := h.made q m' hm'
  have heq : Sealed.box mk ad padded = .box k ad' padded' := hct.symm.trans hbox
  cases heq
  rcases p.eq_or_eq_other q with rfl | rfl
  · exact absurd hparity hdepth
  · exact ⟨m', hm', hct, Except.ok.inj (hpad'.symm.trans hpad)⟩

theorem act {e : Event encode} (h : Secure attacker b w) (hable : w.Able attacker b e)
    (hsmall : w.NotSmall e) (hact : w.act e = some w') : Secure attacker b w' := by
  cases e with
  | encrypt p plaintext =>
    obtain ⟨used, hguarded, hused⟩ := h.guarded p
    simp only [Channel.act] at hact
    split at hact
    · next header ct s hrun =>
      cases hact
      obtain ⟨hs, hpoint, hmade⟩ := hguarded.encrypt_ok hrun
      exact (h.setRatchet hs hused).send hmade hpoint
    · next e s hrun =>
      cases hact
      exact h.setRatchet (hguarded.encrypt_error hrun) hused
    · cases hact
  | inject p header ct fresh =>
    obtain ⟨used, hguarded, hused⟩ := h.guarded p
    obtain ⟨-, hknows, -, hfresh⟩ := hable
    simp only [Channel.act] at hact
    split at hact
    · next plaintext s hrun =>
      cases hact
      obtain ⟨mk, padded, rfl, hpad, hs⟩ := hguarded.decrypt_ok hsmall hfresh hrun
      obtain ⟨hsecret, hdepth, -⟩ := hs.usedKeys mk (by simp)
      exact h.accept hs hused rfl (h.genuine_of_secretKey hknows hsecret hdepth hpad)
    · next e s hrun =>
      cases hact
      exact h.setRatchet (hguarded.decrypt_error hsmall hfresh hrun) hused
    · cases hact

theorem run {w₀ : Channel encode} (h : Secure attacker b w₀)
    (hrun : Relation.ReflTransGen (Channel.NotSmallStep attacker b) w₀ w) :
    Secure attacker b w := by
  induction hrun with
  | refl => exact h
  | tail _ hstep ih =>
    obtain ⟨e, hable, hsmall, hact⟩ := hstep
    exact ih.act hable hsmall hact

theorem nodup_accepted (h : Secure attacker b w) (p : Party) :
    ((w.accepted p).map Message.ciphertext).Nodup := by
  obtain ⟨used, hguarded, hused⟩ := h.guarded p
  have hnodup : used.Nodup := hguarded.nodup.of_map _
  apply List.Nodup.of_map sealingKey
  rw [List.map_map, hused]
  exact hnodup.map (Option.some_injective _)

end Secure

/-- In a run in which no session without a remote key gets one of small order, a party
accepts what the other side encrypted, and each ciphertext once. -/
theorem accepted_sent {w₀ w : Channel encode} (hstart : Established encodeSealed attacker b w₀)
    (hrun : Relation.ReflTransGen (Channel.NotSmallStep attacker b) w₀ w) (p : Party) :
    (∀ m ∈ w.accepted p, ∃ m' ∈ w.sent p.other, m'.ciphertext = m.ciphertext ∧
      m'.plaintext = m.plaintext) ∧ ((w.accepted p).map Message.ciphertext).Nodup := by
  have h := (Secure.established hstart).run hrun
  exact ⟨h.genuine p, h.nodup_accepted p⟩

section Examples

def toyRatchetKey : Sealed :=
  .noiseBox (.split true toyExchange.responder.ck) 0 none (.inl (toySuite.publicKey (15 : Nat)))

def toyChannel : Channel Symbolic.encode where
  ratchet
    | .initiator => .initInitiator (14 : Nat) (handshakeSharedSecret toyExchange.initiator)
        (toySuite.publicKey (15 : Nat))
    | .responder => .initResponder (handshakeSharedSecret toyExchange.responder) (15 : Nat)
  sent _ := []
  accepted _ := []
  seen := .sealed toyRatchetKey :: wireItems (toyExchange.m₁ ++ toyExchange.m₂ ++ toyExchange.m₃)

theorem established_toyChannel :
    Established toyNoiseSuite.sealedBytes (fun _ => False) 15 toyChannel := by
  have hresponder : establishAsResponder (15 : Nat) toyExchange.responder =
      .ok (toyChannel.ratchet .responder, toyRatchetKey) := by rfl
  have hinitiator : establishAsInitiator (14 : Nat) toyExchange.initiator toyRatchetKey =
      .ok (toyChannel.ratchet .initiator) := by rfl
  have heq : toyChannel = _ := rfl
  exact .intro (x := toyExchange) id (by simp) (Option.some_get _).symm hresponder hinitiator

theorem act_getD {w : Channel encode} {e : Event encode} (h : (w.act e).isSome) :
    w.act e = some ((w.act e).getD w) := by
  obtain ⟨w', hw'⟩ := Option.isSome_iff_exists.mp h
  rw [hw']
  rfl

def toySent : Channel Symbolic.encode :=
  (toyChannel.act (.encrypt .initiator [104, 105])).getD toyChannel

def toyMessage : Message toySuite := (toySent.sent .initiator).head (List.cons_ne_nil _ _)

def toyDelivery : Event Symbolic.encode :=
  .inject .responder toyMessage.header toyMessage.ciphertext 16

theorem run_toyDelivery :
    Relation.ReflTransGen (Channel.NotSmallStep (fun _ => False) 15) toyChannel
      ((toySent.act toyDelivery).getD toySent) := by
  have hsent : toyChannel.act (.encrypt .initiator [104, 105]) = some toySent := rfl
  have hpoint : Item.point toyMessage.header.dhPub.point ∈ toySent.seen := .head _
  have hsealed : Item.sealed toyMessage.ciphertext ∈ toySent.seen := .tail _ (.head _)
  have hable : toySent.Able (fun _ => False) 15 toyDelivery :=
    ⟨.seen hpoint, .seen hsealed, id, by decide⟩
  have hsmall : toySent.NotSmall toyDelivery := fun _ i h => by cases h
  have hsome : (toySent.act toyDelivery).isSome := by decide
  exact .tail (.single ⟨.encrypt .initiator [104, 105], trivial, trivial, hsent⟩)
    ⟨_, hable, hsmall, act_getD hsome⟩

theorem accepted_sent_toyDelivery :
    ∃ w : Channel Symbolic.encode, (w.accepted .responder).map Message.plaintext = [[104, 105]] ∧
      (∀ m ∈ w.accepted .responder, ∃ m' ∈ w.sent .initiator, m'.ciphertext = m.ciphertext ∧
        m'.plaintext = m.plaintext) ∧
      ((w.accepted .responder).map Message.ciphertext).Nodup :=
  ⟨_, by decide, accepted_sent established_toyChannel run_toyDelivery .responder⟩

theorem knows_absorb {seen : Item → Prop} {h : Key} (hk : Knows attacker seen (.key h))
    (wire : WireMessage (noiseSuite encode encodeSealed)) :
    Knows attacker seen (.key (absorb h wire)) := by
  induction wire generalizing h with
  | nil => exact hk
  | cons token wire ih => exact ih (.hash hk)

theorem knows_handshakeSharedSecret {seen : Item → Prop} {st : Handshake encode encodeSealed}
    {m₁ m₂ m₃ : WireMessage (noiseSuite encode encodeSealed)} (h : Completed st m₁ m₂ m₃) :
    Knows attacker seen (.key (handshakeSharedSecret st)) := by
  have heq : st.h = absorb _ _ := h.h_eq
  rw [handshakeSharedSecret, HandshakeState.handshakeHash, heq]
  exact knows_absorb (.hash .protocol) _

def forgedHeader : Header toySuite := { dhPub := ⟨.small 0, 0⟩, pn := 0, n := 0 }

def forgedChain : Key :=
  .hkdf true (handshakeSharedSecret toyExchange.responder) (.small 0) "MESH_DR_RK"

def forgery : Event Symbolic.encode :=
  .inject .responder forgedHeader
    (.box (.hmac forgedChain 1) forgedHeader.toBytes [1, 0, 0, 0, 102]) 16

theorem step_forgery : Channel.Step (fun _ => False) 15 toyChannel
    ((toyChannel.act forgery).getD toyChannel) := by
  have hx : exchange (10 : Nat) (11 : Nat)
      (buildInitiator (N := toyNoiseSuite) (12 : Nat)) (buildResponder (13 : Nat)) =
        some toyExchange := (Option.some_get _).symm
  have hseed : Knows (fun _ => False) (· ∈ toyChannel.seen)
      (.key (handshakeSharedSecret toyExchange.responder)) :=
    knows_handshakeSharedSecret (completed_of_exchange hx).2
  have hable : toyChannel.Able (fun _ => False) 15 forgery :=
    ⟨.small, .box (.hmac (.hkdf hseed .small)), id, by decide⟩
  have hsome : (toyChannel.act forgery).isSome := by decide
  exact ⟨forgery, hable, act_getD hsome⟩

theorem not_accepted_sent :
    ¬ ∀ (encode : Public → List UInt8) (encodeSealed : Sealed → List UInt8)
      (attacker : Nat → Prop) (b : Nat) (w₀ w : Channel encode),
      Established encodeSealed attacker b w₀ →
      Relation.ReflTransGen (Channel.Step attacker b) w₀ w →
      (∀ m ∈ w.accepted .responder, ∃ m' ∈ w.sent .initiator, m'.plaintext = m.plaintext) ∧
        ((w.accepted .responder).map Message.ciphertext).Nodup := by
  intro h
  have hforged := (h _ _ _ _ _ _ established_toyChannel (.single step_forgery)).1
  have haccepted : (((toyChannel.act forgery).getD toyChannel).accepted .responder).length = 1 := by
    decide
  obtain ⟨m, hm⟩ := List.length_eq_one_iff.mp haccepted
  obtain ⟨m', hm', -⟩ := hforged m (by rw [hm]; exact List.mem_singleton_self m)
  have hsent : ((toyChannel.act forgery).getD toyChannel).sent .initiator = [] := rfl
  rw [hsent] at hm'
  cases hm'

end Examples

end ProjectMesh.Crypto.Session
