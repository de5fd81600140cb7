import ProjectMesh.Error
import ProjectMesh.Lib.Cursor

namespace ProjectMesh.Routing

open ProjectMesh.Lib

/-- What the routing core calls of other crates, and of floating point. -/
structure Primitives where
  blake3 : List UInt8 → Bytes 32
  /-- ChaCha20-Poly1305: key, nonce, associated data, plaintext. -/
  chachaEncrypt : Bytes 32 → Bytes 12 → List UInt8 → List UInt8 → Option (List UInt8)
  chachaDecrypt : Bytes 32 → Bytes 12 → List UInt8 → List UInt8 → Option (List UInt8)
  /-- `ceil(-(n * ln p) / ln(2)^2) as usize` at the rate `p = 0.01`. -/
  bloomBits : Nat → Nat
  /-- `round((m / n) * ln 2) as usize`. -/
  bloomHashes : Nat → Nat → Nat

def wireVersion : UInt8 := 1

structure EnvelopeId where
  bytes : Bytes 32
  deriving DecidableEq

inductive Addressing : Type
  | broadcast
  | channel (target : Bytes 32)
  | group (target : Bytes 32)
  | direct (target : Bytes 32)
  deriving DecidableEq

namespace Addressing

def tag : Addressing → UInt8
  | .broadcast => 0
  | .channel _ => 1
  | .group _ => 2
  | .direct _ => 3

def target : Addressing → Option (Bytes 32)
  | .broadcast => none
  | .channel id | .group id | .direct id => some id

def targetBytes (a : Addressing) : List UInt8 :=
  match a.target with
  | some target => target.1
  | none => []

end Addressing

/-- Lower ordinal = higher priority = evicted last. -/
inductive Priority : Type
  | sos
  | bulletin
  | normal
  | low
  deriving DecidableEq

namespace Priority

def toNat : Priority → Nat
  | .sos => 0
  | .bulletin => 1
  | .normal => 2
  | .low => 3

def tag (p : Priority) : UInt8 := .ofNat p.toNat

def fromTag (tag : UInt8) : Except MeshError Priority :=
  if tag = 0 then .ok .sos
  else if tag = 1 then .ok .bulletin
  else if tag = 2 then .ok .normal
  else if tag = 3 then .ok .low
  else .error (.malformed "unknown priority tag")

@[simp] theorem fromTag_tag (p : Priority) : fromTag p.tag = .ok p := by cases p <;> rfl

theorem toNat_injective {p q : Priority} (h : p.toNat = q.toNat) : p = q := by
  cases p <;> cases q <;> first | rfl | cases h

end Priority

/-- The id leaves out the hop count, which changes on the way. -/
def computeId (P : Primitives) (addressing : Addressing) (priority : Priority)
    (expiresAt : UInt64) (sealed : List UInt8) : EnvelopeId :=
  ⟨P.blake3 ([wireVersion, addressing.tag] ++ addressing.targetBytes ++ [priority.tag] ++
    leBytes 8 expiresAt.toNat ++ leBytes 4 sealed.length ++ sealed)⟩

/-- A sealed envelope.  `new` and `from_bytes` are the only ways to build one, and both
derive the id from the content. -/
structure Envelope (P : Primitives) where
  id : EnvelopeId
  addressing : Addressing
  priority : Priority
  ttlHops : UInt8
  expiresAt : UInt64
  sealed : List UInt8
  derived : id = computeId P addressing priority expiresAt sealed
  deriving DecidableEq

namespace Envelope

variable {P : Primitives}

def new (P : Primitives) (addressing : Addressing) (priority : Priority) (ttlHops : UInt8)
    (expiresAt : UInt64) (sealed : List UInt8) : Envelope P where
  id := computeId P addressing priority expiresAt sealed
  addressing := addressing
  priority := priority
  ttlHops := ttlHops
  expiresAt := expiresAt
  sealed := sealed
  derived := rfl

def encodeBody (addressing : Addressing) (priority : Priority) (ttlHops : UInt8)
    (expiresAt : UInt64) (sealed : List UInt8) : List UInt8 :=
  wireVersion :: addressing.tag :: (addressing.targetBytes ++ priority.tag :: ttlHops ::
    (leBytes 8 expiresAt.toNat ++ (leBytes 4 sealed.length ++ sealed)))

def toBytes (e : Envelope P) : List UInt8 :=
  encodeBody e.addressing e.priority e.ttlHops e.expiresAt e.sealed

def readAddressing (tag : UInt8) (cursor : List UInt8) :
    Except MeshError (Addressing × List UInt8) :=
  if tag = 0 then .ok (.broadcast, cursor)
  else if tag = 1 ∨ tag = 2 ∨ tag = 3 then do
    let (target, cursor) ← Cursor.split 32 (.malformed "truncated addressing target") cursor
    if tag = 1 then return (.channel target, cursor)
    else if tag = 2 then return (.group target, cursor)
    else return (.direct target, cursor)
  else .error (.malformed "unknown addressing tag")

/-- What is left after the header: the length of the ciphertext, and the ciphertext. -/
def readSealed (cursor : List UInt8) : Except MeshError (List UInt8) := do
  let (len, sealed) ← Cursor.split 4 (MeshError.malformed "truncated length prefix") cursor
  if sealed.length ≠ leNat len.1 then
    .error (.malformed "sealed payload length mismatch")
  else return sealed

def fromBytes (P : Primitives) (bytes : List UInt8) : Except MeshError (Envelope P) := do
  let (version, cursor) ← Cursor.first (MeshError.malformed "empty envelope") bytes
  if version ≠ wireVersion then
    .error (.malformed "unsupported wire version")
  else do
    let (tag, cursor) ← Cursor.first (MeshError.malformed "missing addressing tag") cursor
    let (addressing, cursor) ← readAddressing tag cursor
    let (priorityTag, cursor) ← Cursor.first (MeshError.malformed "missing priority") cursor
    let priority ← Priority.fromTag priorityTag
    let (ttlHops, cursor) ← Cursor.first (MeshError.malformed "missing ttl") cursor
    let (expiry, cursor) ← Cursor.split 8 (MeshError.malformed "truncated expiry") cursor
    let sealed ← readSealed cursor
    return new P addressing priority ttlHops (.ofNat (leNat expiry.1)) sealed

def isExpired (e : Envelope P) (now : UInt64) : Bool := now ≥ e.expiresAt

theorem new_eta (e : Envelope P) :
    new P e.addressing e.priority e.ttlHops e.expiresAt e.sealed = e := by
  obtain ⟨id, addressing, priority, ttlHops, expiresAt, sealed, derived⟩ := e
  simp only [new, derived]

@[simp] theorem readAddressing_tag (a : Addressing) (cursor : List UInt8) :
    readAddressing a.tag (a.targetBytes ++ cursor) = .ok (a, cursor) := by
  cases a with
  | broadcast => rfl
  | channel target | group target | direct target =>
    simp only [Addressing.targetBytes, Addressing.target, readAddressing, Addressing.tag,
      Cursor.split_append]
    rfl

/-- The length prefix is a `u32`, and a longer ciphertext does not match it. -/
theorem readSealed_leBytes (sealed : List UInt8) :
    readSealed (leBytes 4 sealed.length ++ sealed) =
      if sealed.length < 2 ^ 32 then .ok sealed
      else .error (.malformed "sealed payload length mismatch") := by
  have hnum : leNat (leBytes 4 sealed.length) = sealed.length % 2 ^ 32 := leNat_leBytes 4 _
  rw [readSealed, Cursor.split_append_of_length (length_leBytes 4 _)]
  by_cases h : sealed.length < 2 ^ 32
  · have hmod : sealed.length % 2 ^ 32 = sealed.length := Nat.mod_eq_of_lt h
    simp only [bind, Except.bind, hnum, hmod, if_pos h, ne_eq, not_true_eq_false, if_false]
    rfl
  · have hmod : sealed.length ≠ sealed.length % 2 ^ 32 := by omega
    simp only [bind, Except.bind, hnum, if_neg h, ne_eq, hmod, not_false_eq_true, if_true]

theorem ofNat_leNat_expiry (t : UInt64) : UInt64.ofNat (leNat (leBytes 8 t.toNat)) = t := by
  rw [leNat_leBytes_of_lt t.toNat_lt, UInt64.ofNat_toNat]

theorem fromBytes_toBytes (e : Envelope P) :
    fromBytes P e.toBytes =
      if e.sealed.length < 2 ^ 32 then .ok e
      else .error (.malformed "sealed payload length mismatch") := by
  simp only [toBytes, encodeBody, fromBytes, Cursor.first_cons, bind, Except.bind,
    readAddressing_tag, Priority.fromTag_tag, Cursor.split_append_of_length (length_leBytes 8 _),
    readSealed_leBytes, ne_eq, not_true_eq_false, if_false, ofNat_leNat_expiry]
  split <;> rename_i h
  · split at h
    · cases h
    · cases h
      rw [if_neg ‹_›]
  · split at h
    · cases h
      rw [if_pos ‹_›]
      exact congrArg Except.ok e.new_eta
    · cases h

end Envelope

end ProjectMesh.Routing
