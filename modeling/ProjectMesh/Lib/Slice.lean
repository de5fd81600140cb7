import ProjectMesh.Lib.Cursor
import ProjectMesh.Lib.Method

namespace ProjectMesh.Lib

/-- The widths of a `usize`, whose sums here wrap around as in a release build
(`Overflow.wrapping`). -/
inductive Word : Type
  | w32
  | w64
  deriving DecidableEq

namespace Word

def bits : Word → Nat
  | .w32 => 32
  | .w64 => 64

def add (w : Word) (a b : Nat) : Nat := (a + b) % 2 ^ w.bits

def sub (w : Word) (a b : Nat) : Nat := (a + (2 ^ w.bits - b)) % 2 ^ w.bits

def mul (w : Word) (a b : Nat) : Nat := (a * b) % 2 ^ w.bits

variable {w : Word} {a b : Nat}

theorem bits_le : 32 ≤ w.bits := by cases w <;> decide

theorem two_pow_le : 2 ^ 32 ≤ 2 ^ w.bits := Nat.pow_le_pow_right (by decide) bits_le

theorem add_eq (h : a + b < 2 ^ w.bits) : w.add a b = a + b := Nat.mod_eq_of_lt h

theorem sub_eq (h : b ≤ a) (ha : a < 2 ^ w.bits) : w.sub a b = a - b := by
  have hsum : a + (2 ^ w.bits - b) = a - b + 2 ^ w.bits := by omega
  rw [sub, hsum, Nat.add_mod_right]
  exact Nat.mod_eq_of_lt (by omega)

theorem mul_eq (h : a * b < 2 ^ w.bits) : w.mul a b = a * b := Nat.mod_eq_of_lt h

/-- A sum that leaves 32 bits is small on the 32-bit targets. -/
theorem add_w32 (h : 2 ^ 32 ≤ a + b) (hlt : a + b < 2 ^ 33) : add .w32 a b = a + b - 2 ^ 32 := by
  rw [add, bits, Nat.mod_eq_sub_mod h]
  exact Nat.mod_eq_of_lt (by omega)

end Word

/-- No slice has more than `isize::MAX` bytes. -/
abbrev Slice (w : Word) := { bs : List UInt8 // bs.length < 2 ^ (w.bits - 1) }

theorem Slice.length_lt_bits {w : Word} (bytes : Slice w) : bytes.1.length < 2 ^ w.bits :=
  Nat.lt_of_lt_of_le bytes.2 (Nat.pow_le_pow_right (by decide) (Nat.sub_le _ _))

@[simp] theorem length_bytes {n : Nat} (bytes : Bytes n) : bytes.1.length = n := bytes.2

theorem leNat_take_lt (n : Nat) (bytes : List UInt8) : leNat (bytes.take n) < 256 ^ n :=
  Nat.lt_of_lt_of_le (leNat_lt _)
    (Nat.pow_le_pow_right (n := 256) (by decide) (List.length_take_le n bytes))

/-- What a parser does with the bytes of others: it gives a value or an error, or a slice
out of bounds makes it panic. -/
abbrev Parse (ε α : Type) := Except (Fault ε) α

namespace Parse

variable {ε α β : Type} {e : ε} {n lo hi : Nat} {slice : List UInt8}

def fail (e : ε) : Parse ε α := .error (.err e)

def halt : Parse ε α := .error .panic

def ofExcept (r : Except ε α) : Parse ε α :=
  match r with
  | .ok a => .ok a
  | .error e => fail e

def okOr (o : Option α) (e : ε) : Parse ε α :=
  match o with
  | some a => .ok a
  | none => fail e

def splitAt (n : Nat) (slice : List UInt8) : Parse ε (List UInt8 × List UInt8) :=
  if n ≤ slice.length then .ok (slice.take n, slice.drop n) else halt

def range (lo hi : Nat) (slice : List UInt8) : Parse ε (List UInt8) :=
  if lo ≤ hi ∧ hi ≤ slice.length then .ok ((slice.take hi).drop lo) else halt

def rangeFrom (n : Nat) (slice : List UInt8) : Parse ε (List UInt8) :=
  if n ≤ slice.length then .ok (slice.drop n) else halt

/-- `slice[n]` -/
def index (n : Nat) (slice : List UInt8) : Parse ε UInt8 :=
  match slice[n]? with
  | some b => .ok b
  | none => halt

def array (n : Nat) (slice : List UInt8) : Parse ε (Bytes n) :=
  if h : slice.length = n then .ok ⟨slice, h⟩ else halt

def arrayAt (lo n : Nat) (slice : List UInt8) : Parse ε (Bytes n) :=
  range lo (lo + n) slice >>= array n

/-- `slice.chunks_exact(n)`: what is left over at the end is left out. -/
def chunksExact (n : Nat) (slice : List UInt8) : List (List UInt8) :=
  (List.range (slice.length / n)).map fun i => (slice.drop (n * i)).take n

/-- The call comes back, with a value or an error. -/
def Returns (x : Parse ε α) : Prop := x ≠ halt

def Ensures (x : Parse ε α) (Q : α → Prop) : Prop := x.Returns ∧ ∀ a, x = .ok a → Q a

section Rules

variable {x : Parse ε α} {f : α → Parse ε β} {Q : α → Prop} {R : β → Prop} {a : α}

theorem returns_ok : Returns (.ok a : Parse ε α) := nofun

theorem returns_fail : Returns (fail e : Parse ε α) := nofun

theorem not_returns_halt : ¬ Returns (halt : Parse ε α) := fun h => h rfl

theorem returns_ofExcept (r : Except ε α) : (ofExcept r).Returns := by
  cases r with
  | ok a => exact returns_ok
  | error e => exact returns_fail

theorem Ensures.returns (h : x.Ensures fun _ => True) : x.Returns := h.1

theorem Ensures.mono (h : x.Ensures Q) {Q' : α → Prop} (hQ : ∀ a, Q a → Q' a) : x.Ensures Q' :=
  ⟨h.1, fun a ha => hQ a (h.2 a ha)⟩

theorem ensures_ok (h : Q a) : Ensures (.ok a : Parse ε α) Q := by
  refine ⟨returns_ok, ?_⟩
  intro b hb
  cases hb
  exact h

theorem ensures_fail : Ensures (fail e : Parse ε α) Q := ⟨returns_fail, nofun⟩

theorem ensures_okOr (o : Option α) : (okOr o e).Ensures fun a => o = some a := by
  cases o with
  | none => exact ensures_fail
  | some a => exact ensures_ok rfl

theorem Ensures.bind (h : x.Ensures Q) (hf : ∀ a, Q a → (f a).Ensures R) :
    (x >>= f).Ensures R := by
  obtain ⟨hx, hQ⟩ := h
  cases x with
  | error fault =>
    cases fault with
    | err e => exact ensures_fail
    | panic => exact absurd rfl hx
  | ok a => exact hf a (hQ a rfl)

theorem ensures_guard {p : Prop} [Decidable p] (h : ¬ p → x.Ensures Q) :
    (if p then fail e else x).Ensures Q := by
  split
  · exact ensures_fail
  · exact h ‹_›

theorem ensures_splitAt_bind {f : List UInt8 × List UInt8 → Parse ε β} (h : n ≤ slice.length)
    (hf : ∀ front back, front.length = n → back.length = slice.length - n →
      (f (front, back)).Ensures R) :
    (splitAt n slice >>= f).Ensures R := by
  rw [splitAt, if_pos h]
  exact hf _ _ (List.length_take_of_le h) List.length_drop

theorem ensures_range (h : lo ≤ hi ∧ hi ≤ slice.length) :
    (range lo hi slice : Parse ε _).Ensures fun bytes => bytes.length = hi - lo := by
  rw [range, if_pos h]
  exact ensures_ok (by rw [List.length_drop, List.length_take_of_le h.2])

theorem ensures_rangeFrom (h : n ≤ slice.length) :
    (rangeFrom n slice : Parse ε _).Ensures fun rest => rest.length = slice.length - n := by
  rw [rangeFrom, if_pos h]
  exact ensures_ok List.length_drop

theorem ensures_index (h : n < slice.length) :
    (index n slice : Parse ε _).Ensures fun _ => True := by
  rw [index, List.getElem?_eq_getElem h]
  exact ensures_ok trivial

theorem ensures_array (h : slice.length = n) :
    (array n slice : Parse ε _).Ensures fun bytes => bytes.1 = slice := by
  rw [array, dif_pos h]
  exact ensures_ok rfl

theorem arrayAt_eq (h : lo + n ≤ slice.length) :
    (arrayAt lo n slice : Parse ε _) =
      .ok ⟨(slice.take (lo + n)).drop lo, by simp [Nat.min_eq_left h]⟩ := by
  have hlen : ((slice.take (lo + n)).drop lo).length = n := by simp [Nat.min_eq_left h]
  rw [arrayAt, range, if_pos ⟨Nat.le_add_right lo n, h⟩]
  exact dif_pos hlen

theorem ensures_arrayAt (h : lo + n ≤ slice.length) :
    (arrayAt lo n slice : Parse ε _).Ensures fun _ => True := by
  rw [arrayAt_eq h]
  exact ensures_ok trivial

theorem arrayAt_zero (h : n ≤ slice.length) :
    (arrayAt 0 n slice : Parse ε _) = .ok ⟨slice.take n, List.length_take_of_le h⟩ := by
  rw [arrayAt_eq (by omega)]
  simp only [Nat.zero_add, List.drop_zero]

theorem ofExcept_bind {r : Except ε α} {g : α → Except ε β} (h : ∀ a, f a = ofExcept (g a)) :
    ofExcept r >>= f = ofExcept (r >>= g) := by
  cases r with
  | ok a => exact h a
  | error e => rfl

theorem ofExcept_ite {p : Prop} [Decidable p] {y : Parse ε α} {r s : Except ε α}
    (hx : x = ofExcept r) (hy : y = ofExcept s) :
    (if p then x else y) = ofExcept (if p then r else s) := by
  rw [hx, hy]
  exact (apply_ite ofExcept p r s).symm

theorem ofExcept_guard {p : Prop} [Decidable p] {r : Except ε α} (h : ¬ p → x = ofExcept r) :
    (if p then fail e else x) = ofExcept (if p then .error e else r) := by
  by_cases hp : p
  · rw [if_pos hp, if_pos hp]
    rfl
  · rw [if_neg hp, if_neg hp]
    exact h hp

theorem ofExcept_guard_of {p : Prop} [Decidable p] {y : ¬ p → Parse ε α} {r : ¬ p → Except ε α}
    (h : ∀ hp, y hp = ofExcept (r hp)) :
    (if hp : p then fail e else y hp) = ofExcept (if hp : p then .error e else r hp) := by
  by_cases hp : p
  · rw [dif_pos hp, dif_pos hp]
    rfl
  · rw [dif_neg hp, dif_neg hp]
    exact h hp

theorem first_bind {cursor : List UInt8} {f : UInt8 → List UInt8 → Parse ε β}
    {g : UInt8 × List UInt8 → Except ε β}
    (h : ∀ b rest, cursor = b :: rest → f b rest = ofExcept (g (b, rest))) :
    (okOr cursor.head? e >>= fun b => rangeFrom 1 cursor >>= f b) =
      ofExcept (Cursor.first e cursor >>= g) := by
  cases cursor with
  | nil => rfl
  | cons b rest => exact h b rest rfl

theorem split_bind {cursor : List UInt8} {f : Bytes n → List UInt8 → Parse ε β}
    {g : Bytes n × List UInt8 → Except ε β}
    (h : ∀ bytes rest, f bytes rest = ofExcept (g (bytes, rest))) :
    (if cursor.length < n then fail e
      else arrayAt 0 n cursor >>= fun bytes => rangeFrom n cursor >>= f bytes) =
      ofExcept (Cursor.split n e cursor >>= g) := by
  by_cases hlen : cursor.length < n
  · rw [if_pos hlen, Cursor.split_short hlen]
    rfl
  · have hle := Nat.not_lt.mp hlen
    rw [if_neg hlen, arrayAt_zero hle, rangeFrom, if_pos hle, Cursor.split, dif_neg hlen]
    exact h _ _

theorem ensures_mapM {γ : Type} {g : γ → Parse ε β} {cs : List γ}
    (h : ∀ c ∈ cs, (g c).Ensures fun _ => True) : (cs.mapM g).Ensures fun _ => True := by
  induction cs with
  | nil => exact ensures_ok trivial
  | cons c cs ih =>
    rw [List.mapM_cons]
    apply (h c List.mem_cons_self).bind
    intro b _
    apply (ih fun c hc => h c (List.mem_cons_of_mem _ hc)).bind
    intro bs _
    exact ensures_ok trivial

theorem length_of_mem_chunksExact {chunk : List UInt8} (h : chunk ∈ chunksExact n slice) :
    chunk.length = n := by
  rw [chunksExact, List.mem_map] at h
  obtain ⟨i, hi, rfl⟩ := h
  have hle : n * (i + 1) ≤ n * (slice.length / n) :=
    Nat.mul_le_mul_left n (List.mem_range.mp hi)
  have hmul := Nat.mul_div_le slice.length n
  rw [Nat.mul_succ] at hle
  exact List.length_take_of_le (by rw [List.length_drop]; omega)

end Rules

section Layout

variable {front rest : List UInt8} {b : UInt8}

theorem splitAt_append (h : front.length = n) :
    (splitAt n (front ++ rest) : Parse ε _) = .ok (front, rest) := by
  rw [splitAt, List.length_append, if_pos (by omega), List.take_left' h, List.drop_left' h]

theorem splitAt_sound {back : List UInt8}
    (h : (splitAt n slice : Parse ε _) = .ok (front, back)) : slice = front ++ back := by
  rw [splitAt] at h
  split at h
  · cases h
    exact (List.take_append_drop n slice).symm
  · cases h

theorem length_of_splitAt {back : List UInt8}
    (h : (splitAt n slice : Parse ε _) = .ok (front, back)) : front.length = n := by
  rw [splitAt] at h
  split at h
  · next hn =>
    cases h
    rw [List.length_take, Nat.min_eq_left hn]
  · cases h

theorem array_val (bytes : Bytes n) : (array n bytes.1 : Parse ε _) = .ok bytes :=
  dif_pos bytes.2

theorem array_sound {bytes : Bytes n} (h : (array n slice : Parse ε _) = .ok bytes) :
    slice = bytes.1 := by
  rw [array] at h
  split at h
  · cases h
    rfl
  · cases h

theorem okOr_sound {a : α} {o : Option α} (h : (okOr o e : Parse ε α) = .ok a) : o = some a := by
  cases o with
  | none => cases h
  | some a' =>
    cases h
    rfl

theorem index_rangeFrom_sound (hindex : (index 0 slice : Parse ε _) = .ok b)
    (hrest : (rangeFrom 1 slice : Parse ε _) = .ok rest) : slice = b :: rest := by
  cases slice with
  | nil => cases hindex
  | cons b' slice =>
    cases hindex
    rw [rangeFrom, List.length_cons, if_pos (Nat.le_add_left 1 slice.length)] at hrest
    cases hrest
    rfl

theorem arrayAt_append (h : front.length = lo) (bytes : Bytes n) :
    (arrayAt lo n (front ++ (bytes.1 ++ rest)) : Parse ε _) = .ok bytes := by
  have hlen : lo + n ≤ (front ++ (bytes.1 ++ rest)).length := by
    rw [List.length_append, List.length_append, bytes.2]
    omega
  rw [arrayAt_eq hlen]
  refine congrArg Except.ok (Subtype.ext ?_)
  dsimp only
  rw [List.drop_take, Nat.add_sub_cancel_left, List.drop_left' h, List.take_left' bytes.2]

theorem arrayAt_zero_append (bytes : Bytes n) :
    (arrayAt 0 n (bytes.1 ++ rest) : Parse ε _) = .ok bytes :=
  @arrayAt_append ε n 0 [] rest rfl bytes

theorem arrayAt_zero_sound {bytes : Bytes n}
    (h : (arrayAt 0 n slice : Parse ε _) = .ok bytes) : slice = bytes.1 ++ slice.drop n := by
  by_cases hlen : n ≤ slice.length
  · rw [arrayAt_zero hlen] at h
    cases h
    exact (List.take_append_drop n slice).symm
  · rw [arrayAt, range, if_neg fun hrange => hlen (by omega)] at h
    cases h

theorem arrayAt_last (h : front.length = lo) (bytes : Bytes n) :
    (arrayAt lo n (front ++ bytes.1) : Parse ε _) = .ok bytes := by
  have happend := @arrayAt_append ε n lo front [] h bytes
  rwa [List.append_nil] at happend

theorem range_zero_append (h : front.length = n) :
    (range 0 n (front ++ rest) : Parse ε _) = .ok front := by
  rw [range, List.length_append, if_pos (by omega), List.take_left' h, List.drop_zero]

theorem rangeFrom_append (h : front.length = n) :
    (rangeFrom n (front ++ rest) : Parse ε _) = .ok rest := by
  rw [rangeFrom, List.length_append, if_pos (by omega), List.drop_left' h]

theorem index_append (h : front.length = n) :
    (index n (front ++ b :: rest) : Parse ε _) = .ok b := by
  rw [index, List.getElem?_append_right (Nat.le_of_eq h), h, Nat.sub_self]
  rfl

theorem chunksExact_nil (n : Nat) : chunksExact n [] = [] := by
  rw [chunksExact, List.length_nil, Nat.zero_div]
  rfl

theorem chunksExact_cons (hn : 0 < n) (h : front.length = n) :
    chunksExact n (front ++ rest) = front :: chunksExact n rest := by
  have hdiv : (front ++ rest).length / n = rest.length / n + 1 := by
    rw [List.length_append, h, Nat.add_comm, Nat.add_div_right _ hn]
  rw [chunksExact, hdiv, List.range_succ_eq_map, List.map_cons, List.map_map, Nat.mul_zero,
    List.drop_zero, List.take_left' h]
  refine congrArg (front :: ·) (List.map_congr_left fun i _ => ?_)
  have hshift : n * (i + 1) = front.length + n * i := by rw [h, Nat.mul_succ, Nat.add_comm]
  change ((front ++ rest).drop (n * (i + 1))).take n = (rest.drop (n * i)).take n
  rw [hshift, ← List.drop_drop, List.drop_left' rfl]

end Layout

end Parse

end ProjectMesh.Lib
