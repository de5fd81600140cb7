import ProjectMesh.Lib.Reader
import ProjectMesh.Crypto.Groups
import ProjectMesh.Routing.AtRest

namespace ProjectMesh.Crypto.Groups

open ProjectMesh.Lib
open ProjectMesh.Routing (encodeKvPairs)

def encodeEntry (kv : List UInt8 × List UInt8) : List UInt8 :=
  leBytes 4 kv.1.length ++ (kv.1 ++ (leBytes 4 kv.2.length ++ kv.2))

/-- What a `u32` in the snapshot can count. -/
def Fits (entries : List (List UInt8 × List UInt8)) : Prop :=
  entries.length < 2 ^ 32 ∧ ∀ kv ∈ entries, kv.1.length < 2 ^ 32 ∧ kv.2.length < 2 ^ 32

def readKvPairs : Reader MeshError (List (List UInt8 × List UInt8)) :=
  Reader.andThen readU32 (Reader.times readEntry)

def decodeCounting (buf : List UInt8) :
    Nat × Parse MeshError (List (List UInt8 × List UInt8)) :=
  match readU32 buf with
  | .error fault => (0, .error fault)
  | .ok (count, cursor) => Reader.counting readEntry count cursor

section Shape

theorem encodeKvPairs_eq (entries : List (List UInt8 × List UInt8)) :
    encodeKvPairs entries = leBytes 4 entries.length ++ entries.flatMap encodeEntry := by
  refine congrArg (leBytes 4 entries.length ++ ·) (List.flatMap_congr fun kv _ => ?_)
  simp only [encodeEntry, List.append_assoc]

theorem readU32_eq : readU32 =
    Reader.field (.group "truncated group snapshot") 4 fun bytes cursor =>
      .ok (leNat bytes, cursor) := by
  funext cursor
  rw [readU32, Reader.field]
  split
  · rfl
  · next hlen =>
    have hle := Nat.not_lt.mp hlen
    rw [Parse.arrayAt_zero hle, Parse.rangeFrom, if_pos hle, Parse.splitAt, if_pos hle]
    rfl

theorem readEntry_eq : readEntry =
    Reader.andThen readU32 fun klen =>
      Reader.field (.group "truncated group snapshot (key)") klen fun k =>
        Reader.andThen readU32 fun vlen =>
          Reader.field (.group "truncated group snapshot (value)") vlen fun v cursor =>
            .ok ((k, v), cursor) := rfl

theorem readEntries_eq (count : Nat) (cursor : List UInt8) :
    readEntries count cursor = Reader.times readEntry count cursor >>= fun r => .ok r.1 := by
  induction count generalizing cursor with
  | zero => rfl
  | succ count ih =>
    rw [readEntries, Reader.times]
    cases readEntry cursor with
    | error fault => rfl
    | ok r =>
      change readEntries count r.2 >>= _ = (Reader.times readEntry count r.2 >>= _) >>= _
      rw [ih]
      cases Reader.times readEntry count r.2 <;> rfl

theorem decodeKvPairs_eq (buf : List UInt8) :
    decodeKvPairs buf = readKvPairs buf >>= fun r => .ok r.1 := by
  rw [decodeKvPairs, readKvPairs, Reader.andThen]
  cases readU32 buf with
  | error fault => rfl
  | ok r => exact readEntries_eq r.1 r.2

theorem decodeCounting_snd (buf : List UInt8) : (decodeCounting buf).2 = decodeKvPairs buf := by
  rw [decodeCounting, decodeKvPairs]
  cases readU32 buf with
  | error fault => rfl
  | ok r => exact (Reader.counting_snd r.1 r.2).trans (readEntries_eq r.1 r.2).symm

end Shape

section Reads

theorem reads_readU32 {n : Nat} (h : n < 2 ^ 32) : Reader.Reads readU32 (leBytes 4 n) n := by
  have hread := Reader.reads_field_ok (e := MeshError.group "truncated group snapshot")
    (f := leNat) (length_leBytes 4 n)
  rwa [leNat_leBytes_of_lt h, ← readU32_eq] at hread

theorem reads_readEntry {kv : List UInt8 × List UInt8}
    (h : kv.1.length < 2 ^ 32 ∧ kv.2.length < 2 ^ 32) :
    Reader.Reads readEntry (encodeEntry kv) kv := by
  rw [readEntry_eq]
  apply (reads_readU32 h.1).andThen
  apply Reader.reads_field rfl
  apply (reads_readU32 h.2).andThen
  exact Reader.reads_field_ok (f := fun v => (kv.1, v)) rfl

theorem reads_readKvPairs {entries : List (List UInt8 × List UInt8)} (h : Fits entries) :
    Reader.Reads readKvPairs (encodeKvPairs entries) entries := by
  rw [encodeKvPairs_eq]
  exact (reads_readU32 h.1).andThen (Reader.reads_times fun kv hkv => reads_readEntry (h.2 kv hkv))

end Reads

section Bounds

theorem takes_readU32 : Reader.Takes 4 readU32 := by
  intro cursor
  apply Parse.ensures_guard
  intro hlen
  apply (Parse.ensures_arrayAt (by omega)).bind
  intro v _
  apply (Parse.ensures_rangeFrom (Nat.not_lt.mp hlen)).bind
  intro rest hrest
  have htaken : rest.length + 4 ≤ cursor.length := by omega
  exact Parse.ensures_ok htaken

theorem takes_readEntry : Reader.Takes 8 readEntry := by
  rw [readEntry_eq]
  change Reader.Takes (4 + (4 + 0)) _
  apply takes_readU32.andThen
  intro klen
  apply Reader.takes_field
  intro k
  apply takes_readU32.andThen
  intro vlen
  apply Reader.takes_field
  intro v
  exact Reader.takes_ok (k, v)

theorem local_readU32 : Reader.Local readU32 := by
  rw [readU32_eq]
  apply Reader.local_field
  intro bytes
  exact Reader.local_ok (leNat bytes)

theorem local_readEntry : Reader.Local readEntry := by
  rw [readEntry_eq]
  apply local_readU32.andThen
  intro klen
  apply Reader.local_field
  intro k
  apply local_readU32.andThen
  intro vlen
  apply Reader.local_field
  intro v
  exact Reader.local_ok (k, v)

theorem local_readKvPairs : Reader.Local readKvPairs :=
  local_readU32.andThen local_readEntry.times

theorem returns_readKvPairs (buf : List UInt8) : (readKvPairs buf).Returns := by
  apply Parse.Ensures.returns
  apply (takes_readU32 buf).bind
  intro r _
  exact ⟨takes_readEntry.returns_times r.1 r.2, fun _ _ => trivial⟩

theorem rounds_le (buf : List UInt8) : (decodeCounting buf).1 ≤ buf.length / 8 + 1 := by
  rw [decodeCounting]
  cases hread : readU32 buf with
  | error fault => exact Nat.zero_le _
  | ok r =>
    have hlen : r.2.length + 4 ≤ buf.length := (takes_readU32 buf).2 r hread
    have hrounds := takes_readEntry.rounds_le_div (by decide) r.1 r.2
    have hdiv : r.2.length / 8 ≤ buf.length / 8 := Nat.div_le_div_right (by omega)
    exact Nat.le_trans hrounds (Nat.succ_le_succ hdiv)

end Bounds

section Snapshot

variable {entries : List (List UInt8 × List UInt8)}

theorem decodeKvPairs_encodeKvPairs (h : Fits entries) :
    decodeKvPairs (encodeKvPairs entries) = .ok entries := by
  have hread := reads_readKvPairs h []
  rw [List.append_nil] at hread
  rw [decodeKvPairs_eq, hread]
  rfl

theorem decodeKvPairs_prefix (h : Fits entries) {front : List UInt8}
    (hfront : front <+: encodeKvPairs entries) (hne : front ≠ encodeKvPairs entries) :
    ∃ e, decodeKvPairs front = Parse.fail e := by
  obtain ⟨e, he⟩ :=
    local_readKvPairs.fails_of_prefix returns_readKvPairs (reads_readKvPairs h) hfront hne
  exact ⟨e, by rw [decodeKvPairs_eq, he]; rfl⟩

/-- A snapshot decodes to the pairs it was made of, all of it or none, and no count makes the
loop run longer than the bytes that are there. -/
theorem snapshot_codec :
    (∀ entries, Fits entries → decodeKvPairs (encodeKvPairs entries) = .ok entries ∧
      ∀ front, front <+: encodeKvPairs entries → front ≠ encodeKvPairs entries →
        ∃ e, decodeKvPairs front = Parse.fail e) ∧
      (∀ count cursor,
        (Reader.counting readEntry count cursor).2 = readEntries count cursor ∧
        (Reader.counting readEntry count cursor).1 ≤ cursor.length / 8 + 1 ∧
        (readEntries count cursor).Returns) ∧
      ∀ buf, (decodeCounting buf).2 = decodeKvPairs buf ∧
        (decodeCounting buf).1 ≤ buf.length / 8 + 1 ∧ (decodeKvPairs buf).Returns := by
  refine ⟨?_, ?_, ?_⟩
  · intro entries h
    exact ⟨decodeKvPairs_encodeKvPairs h, fun front => decodeKvPairs_prefix h⟩
  · intro count cursor
    exact ⟨(Reader.counting_snd count cursor).trans (readEntries_eq count cursor).symm,
      takes_readEntry.rounds_le_div (by decide) count cursor,
      (ensures_readEntries count cursor).returns⟩
  · intro buf
    exact ⟨decodeCounting_snd buf, rounds_le buf, returns_decodeKvPairs buf⟩

theorem snapshot_codec_duplicates :
    decodeKvPairs (encodeKvPairs [([], [1]), ([2], []), ([], [1])]) =
      .ok [([], [1]), ([2], []), ([], [1])] :=
  (snapshot_codec.1 _ ⟨by decide, by decide⟩).1

end Snapshot

end ProjectMesh.Crypto.Groups
