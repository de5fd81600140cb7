import ProjectMesh.Lib.Slice
import ProjectMesh.Routing.Relay

namespace ProjectMesh.Routing

open ProjectMesh.Lib

variable {P : Primitives}

namespace Envelope

def sliceAddressing (tag : UInt8) (cursor : List UInt8) :
    Parse MeshError (Addressing × List UInt8) :=
  if tag = 0 then return (.broadcast, cursor)
  else if tag = 1 ∨ tag = 2 ∨ tag = 3 then
    if cursor.length < 32 then Parse.fail (.malformed "truncated addressing target")
    else do
      let target ← Parse.arrayAt 0 32 cursor
      let cursor ← Parse.rangeFrom 32 cursor
      if tag = 1 then return (.channel target, cursor)
      else if tag = 2 then return (.group target, cursor)
      else return (.direct target, cursor)
  else Parse.fail (.malformed "unknown addressing tag")

def fromSlice (P : Primitives) (bytes : List UInt8) : Parse MeshError (Envelope P) := do
  let version ← Parse.okOr bytes.head? (MeshError.malformed "empty envelope")
  if version ≠ wireVersion then
    Parse.fail (.malformed "unsupported wire version")
  else do
    let cursor ← Parse.rangeFrom 1 bytes
    let tag ← Parse.okOr cursor.head? (MeshError.malformed "missing addressing tag")
    let cursor ← Parse.rangeFrom 1 cursor
    let (addressing, cursor) ← sliceAddressing tag cursor
    let priorityTag ← Parse.okOr cursor.head? (MeshError.malformed "missing priority")
    let priority ← Parse.ofExcept (Priority.fromTag priorityTag)
    let cursor ← Parse.rangeFrom 1 cursor
    let ttlHops ← Parse.okOr cursor.head? (MeshError.malformed "missing ttl")
    let cursor ← Parse.rangeFrom 1 cursor
    if cursor.length < 8 then Parse.fail (.malformed "truncated expiry")
    else do
      let expiresAt ← Parse.arrayAt 0 8 cursor
      let cursor ← Parse.rangeFrom 8 cursor
      if cursor.length < 4 then Parse.fail (.malformed "truncated length prefix")
      else do
        let sealedLen ← Parse.arrayAt 0 4 cursor
        let cursor ← Parse.rangeFrom 4 cursor
        if cursor.length ≠ leNat sealedLen.1 then
          Parse.fail (.malformed "sealed payload length mismatch")
        else return new P addressing priority ttlHops (.ofNat (leNat expiresAt.1)) cursor

theorem sliceAddressing_eq (tag : UInt8) (cursor : List UInt8) :
    sliceAddressing tag cursor = Parse.ofExcept (readAddressing tag cursor) := by
  rw [sliceAddressing, readAddressing]
  split
  · rfl
  · split
    · apply Parse.split_bind
      intro target cursor
      dsimp only
      split
      · rfl
      · split
        · rfl
        · rfl
    · rfl

theorem fromSlice_eq (bytes : List UInt8) :
    fromSlice P bytes = Parse.ofExcept (fromBytes P bytes) := by
  cases bytes with
  | nil => rfl
  | cons version cursor =>
    apply Parse.ofExcept_guard
    intro _
    apply Parse.first_bind
    intro tag cursor _
    dsimp only
    rw [sliceAddressing_eq]
    apply Parse.ofExcept_bind
    rintro ⟨addressing, cursor⟩
    cases cursor with
    | nil => rfl
    | cons priorityTag cursor =>
      apply Parse.ofExcept_bind
      intro priority
      apply Parse.first_bind
      intro ttlHops cursor _
      apply Parse.split_bind
      intro expiry cursor
      rw [readSealed, bind_assoc]
      apply Parse.split_bind
      intro sealedLen cursor
      dsimp only
      split
      · rfl
      · rfl

end Envelope

namespace BloomFilter

def fromSlice (bytes : List UInt8) : Parse MeshError BloomFilter :=
  if bytes.length < 5 then Parse.fail (.malformed "bloom filter shorter than header")
  else do
    let size ← Parse.arrayAt 0 4 bytes
    let hashes ← Parse.index 4 bytes
    let numBits := leNat size.1
    let numHashes := hashes.toNat
    if hparams : numBits < minBits ∨ numHashes < minHashes ∨ numHashes > maxHashes then
      Parse.fail (.malformed "bloom filter parameters out of range")
    else do
      let bits ← Parse.rangeFrom 5 bytes
      if hlen : bits.length ≠ (numBits + 7) / 8 then
        Parse.fail (.malformed "bloom filter bit array length mismatch")
      else
        return {
          bits := bits
          numBits := numBits
          numHashes := numHashes
          minBits_le := by omega
          hashes := by omega
          length := not_not.mp hlen }

theorem fromSlice_eq (bytes : List UInt8) :
    fromSlice bytes = Parse.ofExcept (fromBytes bytes) := by
  match bytes with
  | [] | [_] | [_, _] | [_, _, _] | [_, _, _, _] => rfl
  | b₀ :: b₁ :: b₂ :: b₃ :: hashes :: bits =>
    apply Parse.ofExcept_guard_of
    intro _
    apply Parse.ofExcept_guard_of
    intro _
    rfl

end BloomFilter

namespace ContactMessage

def fromSlice (P : Primitives) (bytes : List UInt8) : Parse MeshError (ContactMessage P) :=
  if bytes.length < 6 then Parse.fail (.malformed "contact message shorter than header")
  else do
    let version ← Parse.index 0 bytes
    if version ≠ wireVersion then
      Parse.fail (.malformed "unsupported contact message version")
    else do
      let tag ← Parse.index 1 bytes
      let len ← Parse.arrayAt 2 4 bytes
      let payload ← Parse.rangeFrom 6 bytes
      if payload.length ≠ leNat len.1 then
        Parse.fail (.malformed "contact message length mismatch")
      else if tag = 0 then .summary <$> BloomFilter.fromSlice payload
      else if tag = 1 then
        if payload.length < 8 then
          Parse.fail (.malformed "data message shorter than puzzle nonce")
        else do
          let puzzleNonce ← Parse.arrayAt 0 8 payload
          let body ← Parse.rangeFrom 8 payload
          let envelope ← Envelope.fromSlice P body
          return .data envelope (.ofNat (leNat puzzleNonce.1))
      else Parse.fail (.malformed "unknown contact message tag")

theorem fromSlice_eq (bytes : List UInt8) :
    fromSlice P bytes = Parse.ofExcept (fromBytes P bytes) := by
  match bytes with
  | [] | [_] | [_, _] | [_, _, _] | [_, _, _, _] | [_, _, _, _, _] => rfl
  | version :: tag :: b₀ :: b₁ :: b₂ :: b₃ :: payload =>
    apply Parse.ofExcept_guard
    intro _
    apply Parse.ofExcept_guard
    intro _
    apply Parse.ofExcept_guard
    intro _
    apply Parse.ofExcept_ite
    · rw [BloomFilter.fromSlice_eq]
      change ContactMessage.summary <$> Parse.ofExcept (BloomFilter.fromBytes payload) = _
      cases BloomFilter.fromBytes payload with
      | ok filter => rfl
      | error e => rfl
    · apply Parse.ofExcept_ite
      · apply Parse.split_bind
        intro puzzleNonce body
        dsimp only
        rw [Envelope.fromSlice_eq]
        apply Parse.ofExcept_bind
        intro envelope
        rfl
      · rfl

end ContactMessage

end ProjectMesh.Routing
