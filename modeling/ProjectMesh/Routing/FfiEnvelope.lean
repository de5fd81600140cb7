import ProjectMesh.Crypto.FfiPrekey
import ProjectMesh.Routing.HexIds
import ProjectMesh.Routing.WireFormat

namespace ProjectMesh.Routing

open ProjectMesh.Lib
open ProjectMesh.Crypto.FfiPrekey

structure FfiParsedEnvelope where
  idHex : List Char
  addressingTag : UInt8
  addressingTarget : Option (List UInt8)
  priorityTag : UInt8
  ttlHops : UInt8
  expiresAt : UInt64
  sealed : List UInt8
  deriving DecidableEq

def ffi {α : Type} (r : Except MeshError α) : Except FfiError α :=
  match r with
  | .ok a => .ok a
  | .error e => .error (.ofMeshError e)

def decodeAddressing (tag : UInt8) (target : Option (List UInt8)) : Except FfiError Addressing :=
  if tag = 0 then .ok .broadcast
  else if tag = 1 ∨ tag = 2 ∨ tag = 3 then
    match target with
    | none => .error (.malformed "addressing target required")
    | some t =>
      if h : t.length = 32 then
        if tag = 1 then .ok (.channel ⟨t, h⟩)
        else if tag = 2 then .ok (.group ⟨t, h⟩)
        else .ok (.direct ⟨t, h⟩)
      else .error (.malformed "addressing target must be 32 bytes")
  else .error (.malformed "unknown addressing tag")

def encodeAddressing : Addressing → UInt8 × Option (List UInt8)
  | .broadcast => (0, none)
  | .channel id => (1, some id.1)
  | .group id => (2, some id.1)
  | .direct id => (3, some id.1)

def decodePriority (tag : UInt8) : Except FfiError Priority :=
  if tag = 0 then .ok .sos
  else if tag = 1 then .ok .bulletin
  else if tag = 2 then .ok .normal
  else if tag = 3 then .ok .low
  else .error (.malformed "unknown priority tag")

def envelopePack (P : Primitives) (addressingTag : UInt8) (addressingTarget : Option (List UInt8))
    (priorityTag ttlHops : UInt8) (expiresAt : UInt64) (sealed : List UInt8) :
    Except FfiError (List UInt8) := do
  let addressing ← decodeAddressing addressingTag addressingTarget
  let priority ← decodePriority priorityTag
  return (Envelope.new P addressing priority ttlHops expiresAt sealed).toBytes

def FfiParsedEnvelope.ofEnvelope {P : Primitives} (env : Envelope P) : FfiParsedEnvelope where
  idHex := env.id.toHex
  addressingTag := (encodeAddressing env.addressing).1
  addressingTarget := (encodeAddressing env.addressing).2
  priorityTag := env.priority.tag
  ttlHops := env.ttlHops
  expiresAt := env.expiresAt
  sealed := env.sealed

def envelopeUnpack (P : Primitives) (bytes : List UInt8) : Except FfiError FfiParsedEnvelope := do
  let env ← ffi (Envelope.fromBytes P bytes)
  return .ofEnvelope env

section Tags

variable {tag : UInt8} {target : Option (List UInt8)} {addressing : Addressing}
  {priority : Priority}

theorem encodeAddressing_of_decode (h : decodeAddressing tag target = .ok addressing) :
    encodeAddressing addressing = (tag, if tag = 0 then none else target) := by
  rw [decodeAddressing.eq_def] at h
  split at h
  · next htag =>
    cases h
    rw [if_pos htag, htag]
    rfl
  · next hne =>
    rw [if_neg hne]
    split at h
    · next htags =>
      split at h
      · cases h
      · split at h
        · split at h
          · next htag =>
            cases h
            rw [htag]
            rfl
          · next hne₁ =>
            split at h
            · next htag =>
              cases h
              rw [htag]
              rfl
            · next hne₂ =>
              cases h
              rw [(htags.resolve_left hne₁).resolve_left hne₂]
              rfl
        · cases h
    · cases h

theorem decodePriority_eq : decodePriority tag = ffi (Priority.fromTag tag) := by
  rw [decodePriority, Priority.fromTag]
  split
  · rfl
  · split
    · rfl
    · split
      · rfl
      · split <;> rfl

theorem tag_of_decodePriority (h : decodePriority tag = .ok priority) : priority.tag = tag := by
  rw [decodePriority_eq] at h
  cases hfrom : Priority.fromTag tag with
  | error e =>
    rw [hfrom] at h
    cases h
  | ok p =>
    rw [hfrom] at h
    cases h
    exact Priority.tag_fromTag hfrom

end Tags

section Codec

variable {P : Primitives} {tag priorityTag ttlHops : UInt8} {target : Option (List UInt8)}
  {expiresAt : UInt64} {sealed bytes : List UInt8} {e : Envelope P} {parsed : FfiParsedEnvelope}

theorem envelopePack_ok (h : envelopePack P tag target priorityTag ttlHops expiresAt sealed =
    .ok bytes) : ∃ addressing priority, decodeAddressing tag target = .ok addressing ∧
      decodePriority priorityTag = .ok priority ∧
      bytes = (Envelope.new P addressing priority ttlHops expiresAt sealed).toBytes := by
  obtain ⟨addressing, haddressing, h⟩ := bind_eq_ok.mp h
  obtain ⟨priority, hpriority, h⟩ := bind_eq_ok.mp h
  cases h
  exact ⟨addressing, priority, haddressing, hpriority, rfl⟩

theorem envelopeUnpack_toBytes (e : Envelope P) : envelopeUnpack P e.toBytes =
    if e.sealed.length < 2 ^ 32 then .ok (.ofEnvelope e)
    else .error (.malformed "sealed payload length mismatch") := by
  rw [envelopeUnpack, Envelope.fromBytes_toBytes]
  split <;> rfl

theorem envelopeUnpack_ok_iff : envelopeUnpack P bytes = .ok parsed ↔
    ∃ e : Envelope P, Envelope.fromBytes P bytes = .ok e ∧ parsed = .ofEnvelope e := by
  rw [envelopeUnpack]
  cases Envelope.fromBytes P bytes with
  | error err =>
    refine iff_of_false nofun ?_
    rintro ⟨e, ⟨⟩, -⟩
  | ok e =>
    constructor
    · rintro ⟨⟩
      exact ⟨e, rfl, rfl⟩
    · rintro ⟨e', ⟨⟩, rfl⟩
      rfl

end Codec

end ProjectMesh.Routing
