import ProjectMesh.Lib.Slice

namespace ProjectMesh.Lib.Str

open ProjectMesh.Lib

variable {ε : Type} {s before rest : List Char} {c d : Char} {n lo v : Nat}

def byteLen (s : List Char) : Nat := (s.map Char.utf8Size).sum

/-- `split_at_checked`: no split inside a character, or behind the end. -/
def splitAt : Nat → List Char → Option (List Char × List Char)
  | 0, s => some ([], s)
  | _ + 1, [] => none
  | n + 1, c :: s =>
    if c.utf8Size ≤ n + 1 then
      (splitAt (n + 1 - c.utf8Size) s).map fun halves => (c :: halves.1, halves.2)
    else none

def slice (lo hi : Nat) (s : List Char) : Parse ε (List Char) :=
  if hi < lo then Parse.halt
  else
    match splitAt lo s with
    | none => Parse.halt
    | some (_, rest) =>
      match splitAt (hi - lo) rest with
      | none => Parse.halt
      | some (mid, _) => .ok mid

def toDigit16 (c : Char) : Option Nat :=
  if 48 ≤ c.toNat ∧ c.toNat ≤ 57 then some (c.toNat - 48)
  else if 97 ≤ c.toNat ∧ c.toNat ≤ 102 then some (c.toNat - 87)
  else if 65 ≤ c.toNat ∧ c.toNat ≤ 70 then some (c.toNat - 55)
  else none

def readDigits16 (acc : Nat) : List Char → Option Nat
  | [] => some acc
  | c :: s => do
    let digit ← toDigit16 c
    if acc * 16 + digit < 256 then readDigits16 (acc * 16 + digit) s else none

def u8FromStrRadix16 : List Char → Option UInt8
  | [] => none
  | ['+'] => none
  | '+' :: digits => (readDigits16 0 digits).map UInt8.ofNat
  | digits => (readDigits16 0 digits).map UInt8.ofNat

def hexChar (v : Nat) : Char := if v < 10 then .ofNat (48 + v) else .ofNat (87 + v)

/-- Each byte as `{:02x}` writes it. -/
def toHex (bytes : List UInt8) : List Char :=
  bytes.flatMap fun b => [hexChar (b.toNat / 16), hexChar (b.toNat % 16)]

def AllHex (s : List Char) : Prop := ∀ c ∈ s, (toDigit16 c).isSome

instance : Decidable (AllHex s) := inferInstanceAs (Decidable (∀ c ∈ s, _))

section Bytes

@[simp] theorem byteLen_nil : byteLen [] = 0 := rfl

@[simp] theorem byteLen_cons : byteLen (c :: s) = c.utf8Size + byteLen s := rfl

theorem byteLen_append : byteLen (before ++ rest) = byteLen before + byteLen rest := by
  rw [byteLen, List.map_append, List.sum_append, byteLen, byteLen]

theorem utf8Size_pos (c : Char) : 1 ≤ c.utf8Size := by
  rw [Char.utf8Size]
  split
  · decide
  · split
    · decide
    · split <;> decide

theorem utf8Size_eq_one_iff : c.utf8Size = 1 ↔ c.toNat < 128 := by
  rw [Char.utf8Size, Char.toNat]
  split
  · next h => exact iff_of_true rfl (Nat.lt_succ_of_le (UInt32.le_iff_toNat_le.mp h))
  · next h =>
    refine iff_of_false ?_ fun hlt => h (UInt32.le_iff_toNat_le.mpr (Nat.le_of_lt_succ hlt))
    split
    · decide
    · split <;> decide

theorem byteLen_eq_zero (h : byteLen s = 0) : s = [] := by
  cases s with
  | nil => rfl
  | cons c s =>
    have := utf8Size_pos c
    rw [byteLen_cons] at h
    omega

theorem splitAt_append (before rest : List Char) :
    splitAt (byteLen before) (before ++ rest) = some (before, rest) := by
  induction before with
  | nil => rw [byteLen_nil, splitAt, List.nil_append]
  | cons c before ih =>
    obtain ⟨n, hn⟩ : ∃ n, c.utf8Size + byteLen before = n + 1 :=
      Nat.exists_eq_add_one.mpr (Nat.add_pos_left (utf8Size_pos c) _)
    rw [byteLen_cons, List.cons_append, hn, splitAt, ← hn, Nat.add_sub_cancel_left, ih,
      if_pos (Nat.le_add_right _ _)]
    rfl

theorem slice_append (h : byteLen before = lo) (n : Nat) :
    (slice lo (lo + n) (before ++ rest) : Parse ε (List Char)) =
      match splitAt n rest with
      | none => Parse.halt
      | some (mid, _) => .ok mid := by
  subst h
  rw [slice, if_neg (Nat.not_lt.mpr (Nat.le_add_right _ n)), splitAt_append]
  simp only [Nat.add_sub_cancel_left]

end Bytes

section Digits

theorem forall_char_lt {b : Nat} {Q : Char → Prop} (h : ∀ k < b, Q (.ofNat k)) (hc : c.toNat < b) :
    Q c := by
  have hQ := h c.toNat hc
  rwa [Char.ofNat_toNat] at hQ

theorem toNat_of_toDigit16 (h : (toDigit16 c).isSome) : c.toNat < 103 := by
  rw [toDigit16] at h
  split at h
  · omega
  · split at h
    · omega
    · split at h
      · omega
      · cases h

theorem toDigit16_spec (h : toDigit16 c = some v) : v < 16 ∧ c.toLower = hexChar v := by
  have hall : ∀ k < 103, ∀ v, toDigit16 (.ofNat k) = some v →
      v < 16 ∧ (Char.ofNat k).toLower = hexChar v := by
    have hcheck : ∀ k < 103, (toDigit16 (.ofNat k)).all fun v =>
        decide (v < 16 ∧ (Char.ofNat k).toLower = hexChar v) := by decide
    intro k hk v hv
    have hkv := hcheck k hk
    rw [hv] at hkv
    exact of_decide_eq_true hkv
  have hlt := toNat_of_toDigit16 (Option.isSome_of_eq_some h)
  exact forall_char_lt (Q := fun c => ∀ v, toDigit16 c = some v →
    v < 16 ∧ c.toLower = hexChar v) hall hlt v h

theorem toDigit16_hexChar : ∀ v < 16, toDigit16 (hexChar v) = some v := by decide

theorem utf8Size_of_toDigit16 (h : (toDigit16 c).isSome) : c.utf8Size = 1 :=
  utf8Size_eq_one_iff.mpr (Nat.lt_trans (toNat_of_toDigit16 h) (by decide))

theorem byteLen_of_allHex (h : AllHex s) : byteLen s = s.length := by
  induction s with
  | nil => rfl
  | cons c s ih =>
    obtain ⟨hc, hs⟩ := List.forall_mem_cons.mp h
    rw [byteLen_cons, utf8Size_of_toDigit16 hc, ih hs, List.length_cons, Nat.add_comm]

theorem length_toHex (bytes : List UInt8) : (toHex bytes).length = 2 * bytes.length := by
  rw [toHex, List.length_flatMap]
  simp [Nat.mul_comm]

theorem allHex_toHex (bytes : List UInt8) : AllHex (toHex bytes) := by
  intro c hc
  obtain ⟨b, -, hc⟩ := List.mem_flatMap.mp hc
  have hb := b.toNat_lt
  rcases List.mem_pair.mp hc with rfl | rfl
  · rw [toDigit16_hexChar _ (by omega)]
    rfl
  · rw [toDigit16_hexChar _ (by omega)]
    rfl

theorem map_toLower_toHex (bytes : List UInt8) :
    (toHex bytes).map Char.toLower = toHex bytes := by
  have hlower : ∀ v < 16, (hexChar v).toLower = hexChar v := by decide
  induction bytes with
  | nil => rfl
  | cons b bytes ih =>
    have hb := b.toNat_lt
    change (hexChar (b.toNat / 16)).toLower :: (hexChar (b.toNat % 16)).toLower ::
      (toHex bytes).map Char.toLower = _
    rw [hlower _ (by omega), hlower _ (by omega), ih]
    rfl

theorem hexChar_inj {v w : Nat} (hv : v < 16) (hw : w < 16) (h : hexChar v = hexChar w) :
    v = w := by
  have hdigit := toDigit16_hexChar v hv
  rw [h, toDigit16_hexChar w hw] at hdigit
  exact (Option.some.inj hdigit).symm

theorem toHex_injective {bytes bytes' : List UInt8} (h : toHex bytes = toHex bytes') :
    bytes = bytes' := by
  induction bytes generalizing bytes' with
  | nil =>
    cases bytes' with
    | nil => rfl
    | cons b bytes' => cases h
  | cons b bytes ih =>
    cases bytes' with
    | nil => cases h
    | cons b' bytes' =>
      obtain ⟨hhigh, h⟩ := List.cons.inj h
      obtain ⟨hlow, h⟩ := List.cons.inj h
      have hb := b.toNat_lt
      have hb' := b'.toNat_lt
      have hdiv := hexChar_inj (by omega) (by omega) hhigh
      have hmod := hexChar_inj (by omega) (by omega) hlow
      have hbyte : b = b' := UInt8.toNat_inj.mp (by omega)
      rw [hbyte, ih h]

end Digits

end ProjectMesh.Lib.Str
