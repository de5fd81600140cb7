import ProjectMesh.Lib.Bytes

namespace ProjectMesh.Lib

abbrev Bytes (n : Nat) := { bs : List UInt8 // bs.length = n }

theorem leBytes_leNat_bytes {n : Nat} (bs : Bytes n) : leBytes n (leNat bs.1) = bs.1 := by
  obtain ⟨bs, rfl⟩ := bs
  exact leBytes_leNat bs

theorem leNat_bytes_lt {n : Nat} (bs : Bytes n) : leNat bs.1 < 256 ^ n := by
  obtain ⟨bs, rfl⟩ := bs
  exact leNat_lt bs

theorem bind_eq_ok {ε α β : Type} {x : Except ε α} {f : α → Except ε β} {b : β} :
    x >>= f = .ok b ↔ ∃ a, x = .ok a ∧ f a = .ok b := by
  cases x with
  | error e =>
    constructor
    · intro h
      cases h
    · rintro ⟨a, h, -⟩
      cases h
  | ok a =>
    constructor
    · exact fun h => ⟨a, rfl, h⟩
    · rintro ⟨a, h, hf⟩
      cases h
      exact hf

namespace Cursor

variable {ε : Type} {e : ε} {b : UInt8} {n : Nat} {rest : List UInt8}

/-- The byte a slice starts with (`first().ok_or(e)?`), and the slice behind it. -/
def first (e : ε) : List UInt8 → Except ε (UInt8 × List UInt8)
  | [] => .error e
  | b :: rest => .ok (b, rest)

/-- The `n` bytes a slice starts with, and the slice behind them. -/
def split (n : Nat) (e : ε) (cursor : List UInt8) : Except ε (Bytes n × List UInt8) :=
  if h : cursor.length < n then .error e
  else .ok (⟨cursor.take n, by rw [List.length_take]; omega⟩, cursor.drop n)

@[simp] theorem first_cons : first e (b :: rest) = .ok (b, rest) := rfl

@[simp] theorem split_append (bs : Bytes n) : split n e (bs.1 ++ rest) = .ok (bs, rest) := by
  obtain ⟨bs, rfl⟩ := bs
  simp [split]

theorem split_append_of_length {bs : List UInt8} (h : bs.length = n) :
    split n e (bs ++ rest) = .ok (⟨bs, h⟩, rest) := split_append ⟨bs, h⟩

theorem split_short {cursor : List UInt8} (h : cursor.length < n) :
    split n e cursor = .error e := dif_pos h

theorem first_sound {cursor : List UInt8} (h : first e cursor = .ok (b, rest)) :
    cursor = b :: rest := by
  cases cursor with
  | nil => cases h
  | cons c cursor =>
    cases h
    rfl

theorem split_sound {cursor : List UInt8} {bs : Bytes n} (h : split n e cursor = .ok (bs, rest)) :
    cursor = bs.1 ++ rest := by
  rw [split] at h
  split at h
  · cases h
  · cases h
    exact (List.take_append_drop n cursor).symm

end Cursor

end ProjectMesh.Lib
