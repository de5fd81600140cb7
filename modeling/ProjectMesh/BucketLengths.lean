import ProjectMesh.Crypto.Channel
import ProjectMesh.Crypto.RatchetLaws

namespace ProjectMesh

open ProjectMesh.Lib
open ProjectMesh.Crypto
open ProjectMesh.Crypto.Padding
open ProjectMesh.Crypto.Ratchet
open ProjectMesh.Crypto.Ratchet.DoubleRatchet
open ProjectMesh.Routing

/-- The suite's keys, public keys and ciphertexts as bytes: its AEAD is ChaCha20-Poly1305
under the zero nonce. -/
structure OverBytes (C : Suite) (P : Primitives) where
  keyBytes : C.Key → Bytes 32
  sealedBytes : C.Sealed → List UInt8
  length_publicBytes : ∀ p, (C.publicBytes p).length = 32
  encrypt : ∀ key associatedData plaintext,
    (C.encrypt key associatedData plaintext).map sealedBytes =
      P.chachaEncrypt (keyBytes key) ⟨List.replicate 12 0, rfl⟩ associatedData plaintext
  decrypt : ∀ key associatedData ciphertext, C.decrypt key associatedData ciphertext =
    P.chachaDecrypt (keyBytes key) ⟨List.replicate 12 0, rfl⟩ associatedData
      (sealedBytes ciphertext)

def SameBucket (plaintext plaintext' : List UInt8) : Prop :=
  ∃ padded padded', padToBucket plaintext = .ok padded ∧ padToBucket plaintext' = .ok padded' ∧
    padded.length = padded'.length

structure SameLengths (P : Primitives) (sealed sealed' : List UInt8) : Prop where
  payload : sealed.length = sealed'.length
  envelope : ∀ e e' : Envelope P, e.sealed = sealed → e'.sealed = sealed' →
    e.addressing.tag = e'.addressing.tag → e.toBytes.length = e'.toBytes.length
  frame : ∀ e e' : Envelope P, e.sealed = sealed → e'.sealed = sealed' →
    e.addressing.tag = e'.addressing.tag → ∀ nonce nonce' : UInt64,
      (ContactMessage.data e nonce).toBytes.length =
        (ContactMessage.data e' nonce').toBytes.length

section Lengths

variable {P : Primitives} {C : Suite} {sealed sealed' plaintext plaintext' : List UInt8}

theorem SameBucket.length_eq (h : SameBucket plaintext plaintext') {padded padded' : List UInt8}
    (hpad : padToBucket plaintext = .ok padded) (hpad' : padToBucket plaintext' = .ok padded') :
    padded.length = padded'.length := by
  obtain ⟨p, p', hp, hp', hlen⟩ := h
  cases hp.symm.trans hpad
  cases hp'.symm.trans hpad'
  exact hlen

theorem length_targetBytes (a : Addressing) :
    a.targetBytes.length = if a.tag = 0 then 0 else 32 := by
  cases a with
  | broadcast => rfl
  | channel target | group target | direct target => exact target.2

theorem sameLengths_of_length (h : sealed.length = sealed'.length) :
    SameLengths P sealed sealed' := by
  have henvelope : ∀ e e' : Envelope P, e.sealed = sealed → e'.sealed = sealed' →
      e.addressing.tag = e'.addressing.tag → e.toBytes.length = e'.toBytes.length := by
    rintro e e' rfl rfl htag
    simp only [Envelope.toBytes, Envelope.encodeBody, List.length_cons, List.length_append,
      length_leBytes, length_targetBytes, htag, h]
  refine ⟨h, henvelope, fun e e' he he' htag nonce nonce' => ?_⟩
  simp only [ContactMessage.toBytes, ContactMessage.payload, List.length_cons,
    List.length_append, length_leBytes, henvelope e e' he he' htag]

theorem length_header (base : OverBytes C P) (header : Header C) : header.toBytes.length = 40 := by
  simp only [Header.toBytes, List.length_append, base.length_publicBytes, length_leBytes]

end Lengths

namespace Crypto.Ratchet.DoubleRatchet

variable {P : Primitives} {C : Suite} {s s' : DoubleRatchet C} {plaintext : List UInt8}
  {header : Header C} {ciphertext : C.Sealed} {overflow : Overflow}

theorem encrypt_ok_iff (hseals : P.Seals) (base : OverBytes C P) :
    (∃ header ciphertext s', (encrypt plaintext overflow).run s = .ok (header, ciphertext) s') ↔
      plaintext.length ≤ 65532 ∧ s.sendChain.isSome ∧
        (overflow = .checked → s.sendN + 1 < 2 ^ 32) := by
  constructor
  · rintro ⟨header, ciphertext, s', h⟩
    obtain ⟨chain, padded, hchain, hn, hpad, -, -⟩ := encrypt_sealed h
    exact ⟨le_of_padToBucket hpad, Option.isSome_of_eq_some hchain, hn⟩
  · rintro ⟨hlen, hchain, hn⟩
    obtain ⟨chain, hchain⟩ := Option.isSome_iff_exists.mp hchain
    obtain ⟨padded, hpad, -⟩ := unpad_padToBucket hlen
    obtain ⟨ciphertext, hencrypt⟩ := chachaEncrypt_bucket hseals (length_padToBucket hpad)
      (base.keyBytes (kdfCk chain).2) ⟨List.replicate 12 0, rfl⟩ s.nextHeader.toBytes
    rw [← base.encrypt] at hencrypt
    obtain ⟨ct, hct, -⟩ := Option.map_eq_some_iff.mp hencrypt
    have hsealed : sealMessage (kdfCk chain).2 s.nextHeader plaintext = .ok (s.nextHeader, ct) :=
      sealMessage_eq_ok.mpr ⟨padded, hpad, hct, rfl⟩
    rcases encrypt_chain_cases hchain plaintext overflow with
      ⟨hchecked, hend, -⟩ | ⟨-, n, -, hrun⟩
    · exact absurd (hn hchecked) (Nat.not_lt.mpr hend)
    · exact ⟨s.nextHeader, ct, _, by rw [hrun, hsealed, Method.run_ofExcept_ok]⟩

theorem length_encrypt (htags : P.Tags) (base : OverBytes C P)
    (h : (encrypt plaintext overflow).run s = .ok (header, ciphertext) s') :
    ∃ padded, padToBucket plaintext = .ok padded ∧
      (base.sealedBytes ciphertext).length = padded.length + 16 := by
  obtain ⟨chain, padded, -, -, hpad, hencrypt, rfl⟩ := encrypt_sealed h
  refine ⟨padded, hpad, htags (base.keyBytes (kdfCk chain).2) ⟨List.replicate 12 0, rfl⟩
    s.nextHeader.toBytes padded _ ?_⟩
  rw [← base.encrypt, hencrypt]
  rfl

theorem openOnce_of_encrypt (hopens : P.Opens) (base : OverBytes C P)
    (h : (encrypt plaintext overflow).run s = .ok (header, ciphertext) s') :
    ∃ chain padded, s.sendChain = some chain ∧
      aeadOpenOnce (kdfCk chain).2 header.toBytes ciphertext = .ok padded ∧
      unpad padded = .ok plaintext := by
  obtain ⟨chain, padded, hchain, -, hpad, hencrypt, rfl⟩ := encrypt_sealed h
  have hbytes : P.chachaEncrypt (base.keyBytes (kdfCk chain).2) ⟨List.replicate 12 0, rfl⟩
      s.nextHeader.toBytes padded = some (base.sealedBytes ciphertext) := by
    rw [← base.encrypt, hencrypt]
    rfl
  refine ⟨chain, padded, hchain, ?_, unpad_of_padToBucket hpad⟩
  rw [aeadOpenOnce, base.decrypt, hopens _ _ _ _ _ hbytes]

end Crypto.Ratchet.DoubleRatchet

structure ChannelHides (P : Primitives) : Prop where
  lengths : ∀ (channel channel' : Channel) nonce nonce' plaintext plaintext' sealed sealed',
    SameBucket plaintext plaintext' → channel.seal P nonce plaintext = .ok sealed →
    channel'.seal P nonce' plaintext' = .ok sealed' → SameLengths P sealed sealed'
  succeeds : ∀ (channel : Channel) nonce plaintext,
    (∃ sealed, channel.seal P nonce plaintext = .ok sealed) ↔ plaintext.length ≤ 65532
  bucket : ∀ (channel : Channel) nonce plaintext sealed,
    channel.seal P nonce plaintext = .ok sealed →
      ∃ b, IsBucket plaintext.length b ∧ sealed.length = 12 + (b + 16)
  opens : ∀ (channel : Channel) nonce plaintext sealed,
    channel.seal P nonce plaintext = .ok sealed → channel.open P sealed = .ok plaintext

/-- What a relay can tell of the messages of sessions, sent with the header or without. -/
structure RatchetHides {C : Suite} {P : Primitives} (base : OverBytes C P)
    (overflow : Overflow) : Prop where
  lengths : ∀ (s₁ s₂ s₁' s₂' : DoubleRatchet C) plaintext₁ plaintext₂ header₁ header₂ ct₁ ct₂,
    SameBucket plaintext₁ plaintext₂ →
    (encrypt plaintext₁ overflow).run s₁ = .ok (header₁, ct₁) s₁' →
    (encrypt plaintext₂ overflow).run s₂ = .ok (header₂, ct₂) s₂' →
      header₁.toBytes.length = header₂.toBytes.length ∧
        SameLengths P (base.sealedBytes ct₁) (base.sealedBytes ct₂) ∧
        SameLengths P (header₁.toBytes ++ base.sealedBytes ct₁)
          (header₂.toBytes ++ base.sealedBytes ct₂)
  /-- With overflow checks, the call panics where `send_n` cannot be raised. -/
  succeeds : ∀ (s : DoubleRatchet C) plaintext,
    (∃ header ciphertext s', (encrypt plaintext overflow).run s = .ok (header, ciphertext) s') ↔
      plaintext.length ≤ 65532 ∧ s.sendChain.isSome ∧
        (overflow = .checked → s.sendN + 1 < 2 ^ 32)
  bucket : ∀ (s s' : DoubleRatchet C) plaintext header ciphertext,
    (encrypt plaintext overflow).run s = .ok (header, ciphertext) s' →
      ∃ b, IsBucket plaintext.length b ∧ (base.sealedBytes ciphertext).length = b + 16
  opens : ∀ (s s' : DoubleRatchet C) plaintext header ciphertext,
    (encrypt plaintext overflow).run s = .ok (header, ciphertext) s' →
      ∃ chain padded, s.sendChain = some chain ∧
        aeadOpenOnce (kdfCk chain).2 header.toBytes ciphertext = .ok padded ∧
        unpad padded = .ok plaintext

section Hides

variable {P : Primitives} {C : Suite}

theorem channel_hides (hopens : P.Opens) (hseals : P.Seals) (htags : P.Tags) :
    ChannelHides P where
  lengths channel channel' nonce nonce' plaintext plaintext' sealed sealed' hsame h h' := by
    obtain ⟨padded, hpad, hlen⟩ := Channel.length_seal htags h
    obtain ⟨padded', hpad', hlen'⟩ := Channel.length_seal htags h'
    apply sameLengths_of_length
    rw [hlen, hlen', hsame.length_eq hpad hpad']
  succeeds channel nonce plaintext := Channel.seal_ok_iff hseals
  bucket channel nonce plaintext sealed h := by
    obtain ⟨padded, hpad, hlen⟩ := Channel.length_seal htags h
    exact ⟨padded.length, length_padToBucket hpad, hlen⟩
  opens channel nonce plaintext sealed h := Channel.open_of_seal hopens h

theorem ratchet_hides (hopens : P.Opens) (hseals : P.Seals) (htags : P.Tags)
    (base : OverBytes C P) (overflow : Overflow) : RatchetHides base overflow where
  lengths s₁ s₂ s₁' s₂' plaintext₁ plaintext₂ header₁ header₂ ct₁ ct₂ hsame h₁ h₂ := by
    obtain ⟨padded₁, hpad₁, hlen₁⟩ := length_encrypt htags base h₁
    obtain ⟨padded₂, hpad₂, hlen₂⟩ := length_encrypt htags base h₂
    have hct : (base.sealedBytes ct₁).length = (base.sealedBytes ct₂).length := by
      rw [hlen₁, hlen₂, hsame.length_eq hpad₁ hpad₂]
    have hheader : header₁.toBytes.length = header₂.toBytes.length := by
      rw [length_header base, length_header base]
    refine ⟨hheader, sameLengths_of_length hct, sameLengths_of_length ?_⟩
    rw [List.length_append, List.length_append, hheader, hct]
  succeeds s plaintext := encrypt_ok_iff hseals base
  bucket s s' plaintext header ciphertext h := by
    obtain ⟨padded, hpad, hlen⟩ := length_encrypt htags base h
    exact ⟨padded.length, length_padToBucket hpad, hlen⟩
  opens s s' plaintext header ciphertext h := openOnce_of_encrypt hopens base h

/-- The length of what is sent tells the bucket of a message and no more. -/
theorem length_reveals_bucket (hopens : P.Opens) (hseals : P.Seals) (htags : P.Tags)
    (base : OverBytes C P) : ChannelHides P ∧ ∀ overflow, RatchetHides base overflow :=
  ⟨channel_hides hopens hseals htags, ratchet_hides hopens hseals htags base⟩

end Hides

theorem length_zeroNonce : (List.replicate 12 (0 : UInt8)).length = 12 := rfl

def toyByteSuite : Suite where
  Secret := Bytes 32
  Public := Bytes 32
  Shared := Bytes 32
  Key := Bytes 32
  Sealed := List UInt8
  publicEq := inferInstance
  publicKey secret := secret
  samePoint p q := p == q
  publicBytes p := p.1
  diffieHellman _ p := p
  hkdf salt ikm _ := (ikm, salt)
  hmac key _ := key
  encrypt key := toyPrimitives.chachaEncrypt key ⟨List.replicate 12 0, length_zeroNonce⟩
  decrypt key := toyPrimitives.chachaDecrypt key ⟨List.replicate 12 0, length_zeroNonce⟩

def toyOverBytes : OverBytes toyByteSuite toyPrimitives where
  keyBytes key := key
  sealedBytes ciphertext := ciphertext
  length_publicBytes p := p.2
  encrypt _ _ _ := Option.map_id_apply
  decrypt _ _ _ := rfl

/-- A session that has numbered as many messages as a `u32` can count. -/
def fullSession : DoubleRatchet toyByteSuite :=
  let key : Bytes 32 := ⟨List.replicate 32 7, rfl⟩
  { dhSelf := key
    dhSelfPub := key
    dhRemote := some key
    rootKey := key
    sendChain := some key
    recvChain := none
    sendN := 2 ^ 32 - 1
    recvN := 0
    prevSendN := 0
    skipped := ∅ }

theorem length_reveals_bucket_fullSession :
    ChannelHides toyPrimitives ∧ (∀ overflow, RatchetHides toyOverBytes overflow) ∧
      ∀ overflow, (∃ header ciphertext s',
        (encrypt [] overflow).run fullSession = .ok (header, ciphertext) s') ↔
          overflow = .wrapping := by
  obtain ⟨hchannel, hratchet⟩ := length_reveals_bucket opens_toyPrimitives
    DurableStore.seals_toyPrimitives DurableStore.tags_toyPrimitives toyOverBytes
  refine ⟨hchannel, hratchet, fun overflow => ?_⟩
  rw [(hratchet overflow).succeeds]
  cases overflow <;> decide

end ProjectMesh
