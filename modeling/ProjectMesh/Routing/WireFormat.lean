import ProjectMesh.Routing.RelayRun

namespace ProjectMesh.Routing

open ProjectMesh.Lib

variable {P : Primitives} {bytes cursor rest : List UInt8}

section Canonical

theorem Priority.tag_fromTag {tag : UInt8} {priority : Priority}
    (h : Priority.fromTag tag = .ok priority) : priority.tag = tag := by
  rw [Priority.fromTag] at h
  split at h
  · next htag =>
    cases h
    exact htag.symm
  · split at h
    · next htag =>
      cases h
      exact htag.symm
    · split at h
      · next htag =>
        cases h
        exact htag.symm
      · split at h
        · next htag =>
          cases h
          exact htag.symm
        · cases h

namespace Envelope

theorem readAddressing_sound {tag : UInt8} {addressing : Addressing}
    (h : readAddressing tag cursor = .ok (addressing, rest)) :
    addressing.tag = tag ∧ cursor = addressing.targetBytes ++ rest := by
  rw [readAddressing] at h
  split at h
  · next htag =>
    cases h
    exact ⟨htag.symm, rfl⟩
  · split at h
    · next htags =>
      obtain ⟨⟨target, tail⟩, hsplit, h⟩ := bind_eq_ok.mp h
      have hcursor := Cursor.split_sound hsplit
      dsimp only at h
      split at h
      · next htag =>
        cases h
        exact ⟨htag.symm, hcursor⟩
      · next hne₁ =>
        split at h
        · next htag =>
          cases h
          exact ⟨htag.symm, hcursor⟩
        · next hne₂ =>
          cases h
          exact ⟨((htags.resolve_left hne₁).resolve_left hne₂).symm, hcursor⟩
    · cases h

theorem readSealed_sound {sealed : List UInt8} (h : readSealed cursor = .ok sealed) :
    cursor = leBytes 4 sealed.length ++ sealed := by
  rw [readSealed] at h
  obtain ⟨⟨len, tail⟩, hsplit, h⟩ := bind_eq_ok.mp h
  have hcursor := Cursor.split_sound hsplit
  dsimp only at h
  split at h
  · cases h
  · next hlen =>
    cases h
    rw [hcursor, not_not.mp hlen, leBytes_leNat_bytes]

theorem toNat_ofNat_leNat (expiry : Bytes 8) :
    leBytes 8 (UInt64.ofNat (leNat expiry.1)).toNat = expiry.1 := by
  rw [UInt64.toNat_ofNat_of_lt' (leNat_bytes_lt expiry), leBytes_leNat_bytes]

theorem toBytes_fromBytes {e : Envelope P} (h : fromBytes P bytes = .ok e) :
    e.toBytes = bytes := by
  rw [fromBytes] at h
  obtain ⟨⟨version, c₁⟩, hversion, h⟩ := bind_eq_ok.mp h
  have hc₁ := Cursor.first_sound hversion
  dsimp only at h
  split at h
  · cases h
  next hwire =>
  obtain ⟨⟨tag, c₂⟩, htag, h⟩ := bind_eq_ok.mp h
  obtain ⟨⟨addressing, c₃⟩, haddressing, h⟩ := bind_eq_ok.mp h
  obtain ⟨⟨priorityTag, c₄⟩, hpriorityTag, h⟩ := bind_eq_ok.mp h
  obtain ⟨priority, hpriority, h⟩ := bind_eq_ok.mp h
  obtain ⟨⟨ttlHops, c₅⟩, httl, h⟩ := bind_eq_ok.mp h
  obtain ⟨⟨expiry, c₆⟩, hexpiry, h⟩ := bind_eq_ok.mp h
  obtain ⟨sealed, hsealed, h⟩ := bind_eq_ok.mp h
  cases h
  obtain ⟨htagEq, hc₃⟩ := readAddressing_sound haddressing
  have hpriorityEq := Priority.tag_fromTag hpriority
  calc (new P addressing priority ttlHops (.ofNat (leNat expiry.1)) sealed).toBytes
      = wireVersion :: addressing.tag :: (addressing.targetBytes ++ priority.tag :: ttlHops ::
          (leBytes 8 (UInt64.ofNat (leNat expiry.1)).toNat ++
            (leBytes 4 sealed.length ++ sealed))) := rfl
    _ = version :: tag :: (addressing.targetBytes ++ priorityTag :: ttlHops ::
          (expiry.1 ++ c₆)) := by
        rw [toNat_ofNat_leNat, ← readSealed_sound hsealed, htagEq, hpriorityEq, not_not.mp hwire]
    _ = bytes := by
        rw [← Cursor.split_sound hexpiry, ← Cursor.first_sound httl,
          ← Cursor.first_sound hpriorityTag, ← hc₃, ← Cursor.first_sound htag, hc₁]

end Envelope

namespace BloomFilter

theorem exists_parts {f : BloomFilter} (h : fromBytes bytes = .ok f) :
    ∃ (size : Bytes 4) (hashes : UInt8), bytes = size.1 ++ (hashes :: f.bits) ∧
      f.numBits = leNat size.1 ∧ f.numHashes = hashes.toNat := by
  rw [fromBytes] at h
  obtain ⟨⟨size, c₁⟩, hsize, h⟩ := bind_eq_ok.mp h
  obtain ⟨⟨hashes, c₂⟩, hhashes, h⟩ := bind_eq_ok.mp h
  dsimp only at h
  split at h
  · cases h
  split at h
  · cases h
  cases h
  have htail : c₁ = hashes :: c₂ := Cursor.first_sound hhashes
  exact ⟨size, hashes, htail ▸ Cursor.split_sound hsize, rfl, rfl⟩

theorem numBits_fromBytes_lt {f : BloomFilter} (h : fromBytes bytes = .ok f) :
    f.numBits < 2 ^ 32 := by
  obtain ⟨size, hashes, -, hsize, -⟩ := exists_parts h
  rw [hsize]
  exact leNat_bytes_lt size

theorem toBytes_fromBytes {f : BloomFilter} (h : fromBytes bytes = .ok f) :
    f.toBytes = bytes := by
  obtain ⟨size, hashes, hbytes, hsize, hhashes⟩ := exists_parts h
  rw [toBytes, hsize, hhashes, leBytes_leNat_bytes, UInt8.ofNat_toNat, hbytes]

end BloomFilter

end Canonical

namespace ContactMessage

variable {m : ContactMessage P}

theorem payload_readData (h : readData P cursor = .ok m) : m.tag = 1 ∧ m.payload = cursor := by
  rw [readData] at h
  obtain ⟨⟨nonce, body⟩, hnonce, h⟩ := bind_eq_ok.mp h
  obtain ⟨envelope, henvelope, h⟩ := bind_eq_ok.mp h
  cases h
  refine ⟨rfl, ?_⟩
  rw [payload, Envelope.toNat_ofNat_leNat, Envelope.toBytes_fromBytes henvelope,
    ← Cursor.split_sound hnonce]

theorem payload_readSummary
    (h : (ContactMessage.summary (P := P) <$> BloomFilter.fromBytes cursor) = .ok m) :
    m.tag = 0 ∧ m.payload = cursor := by
  cases hf : BloomFilter.fromBytes cursor with
  | error err =>
    rw [hf] at h
    cases h
  | ok f =>
    rw [hf] at h
    cases h
    exact ⟨rfl, BloomFilter.toBytes_fromBytes hf⟩

theorem toBytes_fromBytes (h : fromBytes P bytes = .ok m) : m.toBytes = bytes := by
  unfold fromBytes at h
  split at h
  · next version tag b₀ b₁ b₂ b₃ payload =>
    split at h
    · cases h
    next hversion =>
    split at h
    · cases h
    next hlen =>
    have hmessage : m.tag = tag ∧ m.payload = payload := by
      split at h
      · next htag => exact htag ▸ payload_readSummary h
      · split at h
        · next htag => exact htag ▸ payload_readData h
        · cases h
    have hlength : leBytes 4 payload.length = [b₀, b₁, b₂, b₃] := by
      rw [not_not.mp hlen]
      exact leBytes_leNat [b₀, b₁, b₂, b₃]
    rw [toBytes, hmessage.1, hmessage.2, hlength, not_not.mp hversion]
    rfl
  · cases h

theorem fromBytes_append (h : fromBytes P bytes = .ok m) (hrest : rest ≠ []) :
    fromBytes P (bytes ++ rest) = .error (.malformed "contact message length mismatch") := by
  unfold fromBytes at h
  split at h
  · next version tag b₀ b₁ b₂ b₃ payload =>
    split at h
    · cases h
    next hversion =>
    split at h
    · cases h
    next hlen =>
    have hlen' : (payload ++ rest).length ≠ leNat [b₀, b₁, b₂, b₃] := by
      rw [List.length_append, not_not.mp hlen]
      have hpos := List.length_pos_iff.mpr hrest
      omega
    simp only [List.cons_append, fromBytes, if_neg hversion, if_pos hlen']
  · cases h

/-- What a peer can send: a data message with a ciphertext that leaves room for its header in
the `u32` length prefix, a filter of fewer than 2^32 bits, or a filter that was read. -/
def Regular : ContactMessage P → Prop
  | .data envelope _ => envelope.sealed.length < 2 ^ 32 - 64
  | .summary filter => filter.numBits < 2 ^ 32 ∨ ∃ bytes, BloomFilter.fromBytes bytes = .ok filter

theorem length_toBytes_le {e : Envelope P} : e.toBytes.length ≤ e.sealed.length + 48 := by
  have htarget : e.addressing.targetBytes.length ≤ 32 := by
    cases e.addressing with
    | broadcast => exact Nat.zero_le _
    | channel target | group target | direct target => exact Nat.le_of_eq target.2
  simp only [Envelope.toBytes, Envelope.encodeBody, List.length_cons, List.length_append,
    length_leBytes]
  omega

theorem fits_of_regular {e : Envelope P} {nonce : UInt64} (h : (data e nonce).Regular) :
    (data e nonce).Fits := by
  have hsealed : e.sealed.length < 2 ^ 32 - 64 := h
  have hle := length_toBytes_le (e := e)
  simp only [Fits, payload, List.length_append, length_leBytes]
  omega

theorem fromBytes_toBytes_of_regular (h : m.Regular) : fromBytes P m.toBytes = .ok m := by
  cases m with
  | data e nonce => exact fromBytes_data (fits_of_regular h)
  | summary f =>
    rcases h with h | ⟨bytes, h⟩
    · exact fromBytes_summary h
    · exact fromBytes_summary (BloomFilter.numBits_fromBytes_lt h)

/-- The format is a bijection between messages and the byte strings it reads: no two strings
read as one message, and none reads with bytes behind it. -/
theorem format_bijective :
    (∀ m : ContactMessage P, m.Regular → fromBytes P m.toBytes = .ok m) ∧
      (∀ (bytes : List UInt8) (m : ContactMessage P), fromBytes P bytes = .ok m →
        m.toBytes = bytes) ∧
      (∀ (bytes bytes' : List UInt8) (m : ContactMessage P), fromBytes P bytes = .ok m →
        fromBytes P bytes' = .ok m → bytes = bytes') ∧
      ∀ (bytes rest : List UInt8) (m : ContactMessage P), fromBytes P bytes = .ok m →
        rest ≠ [] → ∃ err, fromBytes P (bytes ++ rest) = .error err := by
  refine ⟨fun m => fromBytes_toBytes_of_regular, fun bytes m => toBytes_fromBytes, ?_, ?_⟩
  · intro bytes bytes' m h h'
    rw [← toBytes_fromBytes h, toBytes_fromBytes h']
  · intro bytes rest m h hrest
    exact ⟨_, fromBytes_append h hrest⟩

theorem format_bijective_toyEnvelope :
    fromBytes toyPrimitives (ContactMessage.data (toyEnvelope 3) 0).toBytes =
      .ok (.data (toyEnvelope 3) 0) := by
  have hsealed : (toyEnvelope 3).sealed.length < 2 ^ 32 - 64 := by decide
  exact format_bijective.1 (.data (toyEnvelope 3) 0) hsealed

end ContactMessage

end ProjectMesh.Routing
