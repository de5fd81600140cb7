import ProjectMesh.Lib.Slice

namespace ProjectMesh.Lib

/-- A parser of the front of a slice, which gives back what is behind it. -/
abbrev Reader (ε α : Type) := List UInt8 → Parse ε (α × List UInt8)

namespace Reader

variable {ε α β : Type} {read : Reader ε α} {f : α → Reader ε β} {e : ε} {n : Nat}

def andThen (read : Reader ε α) (f : α → Reader ε β) : Reader ε β := fun slice =>
  read slice >>= fun r => f r.1 r.2

def field (e : ε) (n : Nat) (f : List UInt8 → Reader ε β) : Reader ε β := fun slice =>
  if slice.length < n then Parse.fail e
  else Parse.splitAt n slice >>= fun r => f r.1 r.2

def times (read : Reader ε α) : Nat → Reader ε (List α)
  | 0, slice => .ok ([], slice)
  | n + 1, slice => do
    let (a, slice) ← read slice
    let (as, slice) ← times read n slice
    return (a :: as, slice)

def counting (read : Reader ε α) : Nat → List UInt8 → Nat × Parse ε (List α)
  | 0, _ => (0, .ok [])
  | n + 1, slice =>
    match read slice with
    | .error fault => (1, .error fault)
    | .ok (a, slice) =>
      let (rounds, as) := counting read n slice
      (rounds + 1, as >>= fun as => .ok (a :: as))

theorem times_succ (n : Nat) :
    times read (n + 1) =
      andThen read fun a => andThen (times read n) fun as slice => .ok (a :: as, slice) := rfl

theorem counting_snd (n : Nat) (slice : List UInt8) :
    (counting read n slice).2 = times read n slice >>= fun r => .ok r.1 := by
  induction n generalizing slice with
  | zero => rfl
  | succ n ih =>
    rw [counting, times]
    cases read slice with
    | error fault => rfl
    | ok r =>
      change (counting read n r.2).2 >>= _ = (times read n r.2 >>= _) >>= _
      rw [ih]
      cases times read n r.2 <;> rfl

section Takes

/-- Every call comes back, and one that reads takes `c` bytes or more. -/
def Takes (c : Nat) (read : Reader ε α) : Prop :=
  ∀ slice, (read slice).Ensures fun r => r.2.length + c ≤ slice.length

variable {c c' : Nat}

theorem takes_ok (b : β) : Takes 0 fun slice => (.ok (b, slice) : Parse ε _) := fun _ =>
  Parse.ensures_ok (Nat.le_refl _)

theorem Takes.andThen (h : Takes c read) (hf : ∀ a, Takes c' (f a)) :
    Takes (c + c') (andThen read f) := by
  intro slice
  apply (h slice).bind
  intro r hr
  apply (hf r.1 r.2).mono
  intro r' hr'
  omega

theorem takes_field {f : List UInt8 → Reader ε β} (h : ∀ bytes, Takes c (f bytes)) :
    Takes c (field e n f) := by
  intro slice
  apply Parse.ensures_guard
  intro hlen
  apply Parse.ensures_splitAt_bind (Nat.not_lt.mp hlen)
  intro front back _ hback
  apply (h front back).mono
  intro r hr
  omega

theorem Takes.returns_times (h : Takes c read) (n : Nat) (slice : List UInt8) :
    (times read n slice).Returns := by
  apply Parse.Ensures.returns
  induction n generalizing slice with
  | zero => exact Parse.ensures_ok trivial
  | succ n ih =>
    apply (h slice).bind
    intro r _
    apply (ih r.2).bind
    intro r' _
    exact Parse.ensures_ok trivial

theorem Takes.rounds_le (h : Takes c read) (n : Nat) (slice : List UInt8) :
    c * (counting read n slice).1 ≤ slice.length + c := by
  induction n generalizing slice with
  | zero => exact Nat.zero_le _
  | succ n ih =>
    rw [counting]
    cases hread : read slice with
    | error fault =>
      change c * 1 ≤ slice.length + c
      rw [Nat.mul_one]
      exact Nat.le_add_left c slice.length
    | ok r =>
      have hr := (h slice).2 r hread
      have hrounds := ih r.2
      change c * ((counting read n r.2).1 + 1) ≤ slice.length + c
      rw [Nat.mul_succ]
      omega

theorem Takes.rounds_le_div (h : Takes c read) (hc : 0 < c) (n : Nat) (slice : List UInt8) :
    (counting read n slice).1 ≤ slice.length / c + 1 := by
  have hrounds := h.rounds_le n slice
  rw [← Nat.add_div_right _ hc]
  exact (Nat.le_div_iff_mul_le hc).mpr (Nat.mul_comm c _ ▸ hrounds)

end Takes

section Reads

def Reads (read : Reader ε α) (bytes : List UInt8) (a : α) : Prop :=
  ∀ rest, read (bytes ++ rest) = .ok (a, rest)

variable {bytes bytes' : List UInt8} {a : α} {b : β}

theorem reads_ok (b : β) : Reads (fun slice => (.ok (b, slice) : Parse ε _)) [] b := fun _ => rfl

theorem Reads.andThen (h : Reads read bytes a) (hf : Reads (f a) bytes' b) :
    Reads (andThen read f) (bytes ++ bytes') b := by
  intro rest
  rw [Reader.andThen, List.append_assoc, h]
  exact hf rest

theorem reads_field {f : List UInt8 → Reader ε β} (hn : bytes.length = n)
    (hf : Reads (f bytes) bytes' b) : Reads (field e n f) (bytes ++ bytes') b := by
  intro rest
  have hlen : ¬ (bytes ++ (bytes' ++ rest)).length < n := by
    rw [List.length_append, hn]
    exact Nat.not_lt.mpr (Nat.le_add_right n _)
  rw [field, List.append_assoc, if_neg hlen, Parse.splitAt_append hn]
  exact hf rest

theorem reads_field_ok {f : List UInt8 → β} (hn : bytes.length = n) :
    Reads (field e n fun bytes slice => .ok (f bytes, slice)) bytes (f bytes) := by
  have hread := reads_field (e := e) (f := fun bytes slice => .ok (f bytes, slice)) hn
    (reads_ok (f bytes))
  rwa [List.append_nil] at hread

theorem reads_times {encode : α → List UInt8} {as : List α}
    (h : ∀ a ∈ as, Reads read (encode a) a) :
    Reads (times read as.length) (as.flatMap encode) as := by
  induction as with
  | nil => exact reads_ok []
  | cons a as ih =>
    have ha := h a List.mem_cons_self
    have has := ih fun a ha => h a (List.mem_cons_of_mem _ ha)
    rw [List.length_cons, List.flatMap_cons, times_succ, ← List.append_nil (as.flatMap encode)]
    exact ha.andThen (has.andThen (reads_ok (a :: as)))

end Reads

section Local

/-- Bytes that come after those that were there do not change what was read. -/
def Local (read : Reader ε α) : Prop :=
  ∀ slice more a rest, read slice = .ok (a, rest) → read (slice ++ more) = .ok (a, rest ++ more)

theorem local_ok (b : β) : Local fun slice => (.ok (b, slice) : Parse ε _) := by
  intro slice more a rest h
  cases h
  rfl

theorem Local.andThen (h : Local read) (hf : ∀ a, Local (f a)) : Local (andThen read f) := by
  intro slice more b rest hread
  obtain ⟨⟨a, slice'⟩, ha, hb⟩ := bind_eq_ok.mp hread
  rw [Reader.andThen, h slice more a slice' ha]
  exact hf a slice' more b rest hb

theorem local_field {f : List UInt8 → Reader ε β} (h : ∀ bytes, Local (f bytes)) :
    Local (field e n f) := by
  intro slice more b rest hread
  rw [field] at hread
  split at hread
  · cases hread
  · next hlen =>
    have hn := Nat.not_lt.mp hlen
    have hsum := Nat.le_trans hn (Nat.le_add_right slice.length more.length)
    rw [Parse.splitAt, if_pos hn] at hread
    rw [field, Parse.splitAt, List.length_append, if_neg (Nat.not_lt.mpr hsum), if_pos hsum,
      List.take_append_of_le_length hn, List.drop_append_of_le_length hn]
    exact h _ _ more b rest hread

theorem Local.times (h : Local read) (n : Nat) : Local (times read n) := by
  induction n with
  | zero => exact local_ok []
  | succ n ih =>
    rw [times_succ]
    exact h.andThen fun a => ih.andThen fun as => local_ok (a :: as)

theorem Local.fails_of_prefix (h : Local read) (hreturns : ∀ slice, (read slice).Returns)
    {whole front : List UInt8} {a : α} (hwhole : Reads read whole a) (hfront : front <+: whole)
    (hne : front ≠ whole) : ∃ e, read front = Parse.fail e := by
  cases hread : read front with
  | error fault =>
    cases fault with
    | err e => exact ⟨e, rfl⟩
    | panic => exact absurd hread (hreturns front)
  | ok r =>
    obtain ⟨more, rfl⟩ := hfront
    have hmore := h front more r.1 r.2 hread
    have hall := hwhole []
    rw [List.append_nil, hmore] at hall
    have hnil : more = [] := (List.append_eq_nil_iff.mp (Prod.mk.inj (Except.ok.inj hall)).2).2
    exact absurd (by rw [hnil, List.append_nil]) hne

end Local

end Reader

end ProjectMesh.Lib
