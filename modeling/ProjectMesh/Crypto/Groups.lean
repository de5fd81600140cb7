import ProjectMesh.Error
import ProjectMesh.Lib.Slice

namespace ProjectMesh.Crypto.Groups

open ProjectMesh.Lib

def readU32 (cursor : List UInt8) : Parse MeshError (Nat × List UInt8) :=
  if cursor.length < 4 then Parse.fail (.group "truncated group snapshot")
  else do
    let v ← Parse.arrayAt 0 4 cursor
    let cursor ← Parse.rangeFrom 4 cursor
    return (leNat v.1, cursor)

/-- One round of the loop of `decode_kv_pairs`. -/
def readEntry (cursor : List UInt8) :
    Parse MeshError ((List UInt8 × List UInt8) × List UInt8) := do
  let (klen, cursor) ← readU32 cursor
  if cursor.length < klen then Parse.fail (.group "truncated group snapshot (key)")
  else do
    let (k, cursor) ← Parse.splitAt klen cursor
    let (vlen, cursor) ← readU32 cursor
    if cursor.length < vlen then Parse.fail (.group "truncated group snapshot (value)")
    else do
      let (v, cursor) ← Parse.splitAt vlen cursor
      return ((k, v), cursor)

def readEntries : Nat → List UInt8 → Parse MeshError (List (List UInt8 × List UInt8))
  | 0, _ => return []
  | count + 1, cursor => do
    let (entry, cursor) ← readEntry cursor
    let entries ← readEntries count cursor
    return entry :: entries

def decodeKvPairs (buf : List UInt8) : Parse MeshError (List (List UInt8 × List UInt8)) := do
  let (count, cursor) ← readU32 buf
  readEntries count cursor

theorem ensures_readU32 (cursor : List UInt8) : (readU32 cursor).Ensures fun _ => True := by
  apply Parse.ensures_guard
  intro hlen
  apply (Parse.ensures_arrayAt (by omega)).bind
  intro v _
  apply (Parse.ensures_rangeFrom (by omega)).bind
  intro rest _
  exact Parse.ensures_ok trivial

theorem ensures_readEntry (cursor : List UInt8) : (readEntry cursor).Ensures fun _ => True := by
  apply (ensures_readU32 cursor).bind
  rintro ⟨klen, cursor⟩ _
  apply Parse.ensures_guard
  intro hklen
  apply Parse.ensures_splitAt_bind (Nat.not_lt.mp hklen)
  intro k cursor _ _
  apply (ensures_readU32 cursor).bind
  rintro ⟨vlen, cursor⟩ _
  apply Parse.ensures_guard
  intro hvlen
  apply Parse.ensures_splitAt_bind (Nat.not_lt.mp hvlen)
  intro v cursor _ _
  exact Parse.ensures_ok trivial

theorem ensures_readEntries (count : Nat) (cursor : List UInt8) :
    (readEntries count cursor).Ensures fun _ => True := by
  induction count generalizing cursor with
  | zero => exact Parse.ensures_ok trivial
  | succ count ih =>
    apply (ensures_readEntry cursor).bind
    rintro ⟨entry, cursor⟩ _
    apply (ih cursor).bind
    intro entries _
    exact Parse.ensures_ok trivial

theorem returns_decodeKvPairs (buf : List UInt8) : (decodeKvPairs buf).Returns := by
  apply Parse.Ensures.returns
  apply (ensures_readU32 buf).bind
  rintro ⟨count, cursor⟩ _
  exact ensures_readEntries count cursor

end ProjectMesh.Crypto.Groups
