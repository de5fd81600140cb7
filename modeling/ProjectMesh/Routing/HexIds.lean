import ProjectMesh.Lib.Str
import ProjectMesh.Routing.Envelope

namespace ProjectMesh.Routing

open ProjectMesh.Lib
open ProjectMesh.Lib.Str

def EnvelopeId.toHex (id : EnvelopeId) : List Char := Str.toHex id.bytes.1

def bytesToHex (bytes : List UInt8) : List Char := Str.toHex bytes

def hexPairs (hex : List Char) : (i n : Nat) → Parse Unit (Bytes n)
  | _, 0 => .ok ⟨[], rfl⟩
  | i, n + 1 => do
    let pair ← Str.slice (i * 2) (i * 2 + 2) hex
    let byte ← Parse.okOr (u8FromStrRadix16 pair) ()
    let bytes ← hexPairs hex (i + 1) n
    return ⟨byte :: bytes.1, congrArg Nat.succ bytes.2⟩

/-- An error is the `None` of the source. -/
def hexToId (hex : List Char) : Parse Unit EnvelopeId :=
  if byteLen hex ≠ 64 then Parse.fail ()
  else do
    let bytes ← hexPairs hex 0 32
    return ⟨bytes⟩

def hexDecode (hex : List Char) : Parse Unit (List UInt8) :=
  if byteLen hex % 2 ≠ 0 then Parse.fail ()
  else do
    let bytes ← hexPairs hex 0 (byteLen hex / 2)
    return bytes.1

/-- A digit or a sign, then a digit: what the radix parser makes a byte of. -/
def pairReads (c d : Char) : Bool := (c == '+' || (toDigit16 c).isSome) && (toDigit16 d).isSome

def readable : List Char → Bool
  | [] => true
  | [_] => false
  | c :: d :: s => pairReads c d && readable s

def cutsChar : List Char → Bool
  | [] => false
  | [c] => decide (2 < c.utf8Size)
  | c :: d :: s =>
    if pairReads c d then cutsChar s
    else decide (2 < c.utf8Size ∨ c.utf8Size = 1 ∧ 1 < d.utf8Size)

/-- Some pair of bytes is cut out of a character, or a sign is read. -/
def Misread (s : List Char) : Prop := cutsChar s = true ∨ readable s = true ∧ '+' ∈ s

section Pair

variable {c d : Char} {s : List Char}

theorem pairReads_iff :
    pairReads c d = true ↔ (c = '+' ∨ (toDigit16 c).isSome) ∧ (toDigit16 d).isSome := by
  simp [pairReads]

theorem utf8Size_of_pairReads (h : pairReads c d = true) : c.utf8Size = 1 ∧ d.utf8Size = 1 := by
  obtain ⟨rfl | hc, hd⟩ := pairReads_iff.mp h
  · exact ⟨rfl, utf8Size_of_toDigit16 hd⟩
  · exact ⟨utf8Size_of_toDigit16 hc, utf8Size_of_toDigit16 hd⟩

theorem u8FromStrRadix16_of_ne (h : c ≠ '+') :
    u8FromStrRadix16 (c :: s) = (readDigits16 0 (c :: s)).map UInt8.ofNat := by
  have hne : ∀ digits, c :: s ≠ '+' :: digits := fun digits heq => h (List.cons.inj heq).1
  rw [u8FromStrRadix16]
  · exact List.cons_ne_nil c s
  · exact hne []
  · exact hne

theorem u8_single (h : toDigit16 c = none) (hc : c ≠ '+') : u8FromStrRadix16 [c] = none := by
  rw [u8FromStrRadix16_of_ne hc, readDigits16, h]
  rfl

theorem readDigits16_single {acc : Nat} (h : ∀ w < 16, acc * 16 + w < 256) :
    readDigits16 acc [d] = (toDigit16 d).map (acc * 16 + ·) := by
  rw [readDigits16]
  cases hd : toDigit16 d with
  | none => rfl
  | some w => exact if_pos (h w (toDigit16_spec hd).1)

theorem u8_signed : u8FromStrRadix16 ['+', d] = (toDigit16 d).map UInt8.ofNat := by
  have hread : readDigits16 0 [d] = (toDigit16 d).map (0 * 16 + ·) :=
    readDigits16_single fun w hw => by omega
  rw [u8FromStrRadix16, hread, Option.map_map]
  · cases toDigit16 d with
    | none => rfl
    | some w => simp
  · simp

theorem u8_digits {v : Nat} (hv : toDigit16 c = some v) :
    u8FromStrRadix16 [c, d] = (toDigit16 d).map fun w => UInt8.ofNat (v * 16 + w) := by
  have hlt := (toDigit16_spec hv).1
  have hc : c ≠ '+' := by
    rintro rfl
    cases hv
  have hread : readDigits16 v [d] = (toDigit16 d).map (v * 16 + ·) :=
    readDigits16_single fun w hw => by omega
  have hfirst : readDigits16 0 [c, d] = readDigits16 v [d] := by
    rw [readDigits16, hv]
    have hdigit : 0 * 16 + v = v := by omega
    simp only [bind, Option.bind, hdigit]
    exact if_pos (by omega)
  rw [u8FromStrRadix16_of_ne hc, hfirst, hread, Option.map_map]
  rfl

theorem u8_none_of_not_reads (h : pairReads c d = false) : u8FromStrRadix16 [c, d] = none := by
  have hnot := Bool.eq_false_iff.mp h
  rw [Ne, pairReads_iff] at hnot
  by_cases hc : c = '+'
  · subst hc
    rw [u8_signed]
    cases hd : toDigit16 d with
    | none => rfl
    | some w => exact absurd ⟨.inl rfl, by rw [hd]; rfl⟩ hnot
  · cases hv : toDigit16 c with
    | none =>
      rw [u8FromStrRadix16_of_ne hc, readDigits16, hv]
      rfl
    | some v =>
      rw [u8_digits hv]
      cases hd : toDigit16 d with
      | none => rfl
      | some w => exact absurd ⟨.inr (by rw [hv]; rfl), by rw [hd]; rfl⟩ hnot

theorem u8_of_reads (h : pairReads c d = true) : ∃ byte, u8FromStrRadix16 [c, d] = some byte ∧
    (c ≠ '+' → [c.toLower, d.toLower] = Str.toHex [byte]) := by
  obtain ⟨hc, hd⟩ := pairReads_iff.mp h
  obtain ⟨w, hw⟩ := Option.isSome_iff_exists.mp hd
  obtain ⟨hw16, hlower⟩ := toDigit16_spec hw
  rcases hc with rfl | hc
  · rw [u8_signed, hw]
    exact ⟨_, rfl, fun hne => absurd rfl hne⟩
  · obtain ⟨v, hv⟩ := Option.isSome_iff_exists.mp hc
    obtain ⟨hv16, hlower'⟩ := toDigit16_spec hv
    have hbyte : (UInt8.ofNat (v * 16 + w)).toNat = v * 16 + w := by
      rw [UInt8.toNat_ofNat']
      omega
    have hdiv : (v * 16 + w) / 16 = v := by omega
    have hmod : (v * 16 + w) % 16 = w := by omega
    rw [u8_digits hv, hw]
    refine ⟨_, rfl, fun _ => ?_⟩
    rw [hlower, hlower']
    simp only [Str.toHex, List.flatMap_cons, List.flatMap_nil, List.append_nil, hbyte, hdiv, hmod]

end Pair

section Reading

variable {c d : Char} {s before : List Char} {i n : Nat}

inductive Reading (s : List Char) (n : Nat) : Parse Unit (Bytes n) → Prop
  | read {bytes} : readable s = true →
    ('+' ∉ s → s.map Char.toLower = Str.toHex bytes.1) → Reading s n (.ok bytes)
  | cut : cutsChar s = true → Reading s n Parse.halt
  | refused : readable s = false → cutsChar s = false → Reading s n (Parse.fail ())

theorem readable_cons (h : pairReads c d = true) : readable (c :: d :: s) = readable s := by
  rw [readable, h, Bool.true_and]

theorem cutsChar_cons (h : pairReads c d = true) : cutsChar (c :: d :: s) = cutsChar s := by
  rw [cutsChar, if_pos h]

theorem cutsChar_of_readable (h : readable s = true) : cutsChar s = false := by
  fun_induction readable s with
  | case1 => rfl
  | case2 c => cases h
  | case3 c d s ih =>
    rw [Bool.and_eq_true] at h
    rw [cutsChar_cons h.1, ih h.2]

theorem not_readable (h : c.utf8Size ≠ 1) : readable (c :: s) = false := by
  cases s with
  | nil => rfl
  | cons d s =>
    rw [readable, Bool.and_eq_false_imp]
    exact fun hreads => absurd (utf8Size_of_pairReads hreads).1 h

theorem cutsChar_wide (h : c.utf8Size ≠ 1) : cutsChar (c :: s) = decide (2 < c.utf8Size) := by
  cases s with
  | nil => rfl
  | cons d s =>
    rw [cutsChar, if_neg fun hreads => h (utf8Size_of_pairReads hreads).1]
    simp only [h, false_and, or_false]

theorem splitAt_wide (h : 2 < c.utf8Size) : Str.splitAt 2 (c :: s) = none :=
  if_neg (Nat.not_le.mpr h)

theorem splitAt_two (h : c.utf8Size = 2) : Str.splitAt 2 (c :: s) = some ([c], s) := by
  rw [Str.splitAt, if_pos (Nat.le_of_eq h), h, Str.splitAt]
  rfl

theorem splitAt_one_one (hc : c.utf8Size = 1) (hd : d.utf8Size = 1) :
    Str.splitAt 2 (c :: d :: s) = some ([c, d], s) := by
  rw [Str.splitAt, if_pos (by omega), hc, Str.splitAt, if_pos (by omega), hd, Str.splitAt]
  rfl

theorem splitAt_one_wide (hc : c.utf8Size = 1) (hd : d.utf8Size ≠ 1) :
    Str.splitAt 2 (c :: d :: s) = none := by
  have hpos := utf8Size_pos d
  rw [Str.splitAt, if_pos (by omega), hc, Str.splitAt, if_neg (by omega)]
  rfl

theorem hexPairs_succ (hbefore : byteLen before = i * 2) :
    hexPairs (before ++ s) i (n + 1) =
      match Str.splitAt 2 s with
      | none => Parse.halt
      | some (pair, _) =>
        match u8FromStrRadix16 pair with
        | none => Parse.fail ()
        | some byte => (hexPairs (before ++ s) (i + 1) n).map fun bytes =>
          ⟨byte :: bytes.1, congrArg Nat.succ bytes.2⟩ := by
  rw [hexPairs, slice_append hbefore]
  cases Str.splitAt 2 s with
  | none => rfl
  | some halves =>
    simp only [bind, Except.bind]
    cases u8FromStrRadix16 halves.1 with
    | none => rfl
    | some byte => cases hexPairs (before ++ s) (i + 1) n <;> rfl

theorem Reading.cons {byte : UInt8} {result : Parse Unit (Bytes n)} (h : Reading s n result)
    (hreads : pairReads c d = true)
    (hlower : c ≠ '+' → [c.toLower, d.toLower] = Str.toHex [byte]) :
    Reading (c :: d :: s) (n + 1)
      (result.map fun bytes => ⟨byte :: bytes.1, congrArg Nat.succ bytes.2⟩) := by
  cases h with
  | @read bytes hread hbytes =>
    refine .read ((readable_cons hreads).trans hread) fun hplus => ?_
    rw [List.mem_cons, List.mem_cons, not_or, not_or] at hplus
    have hhead := hlower (Ne.symm hplus.1)
    have htail := hbytes hplus.2.2
    calc (c :: d :: s).map Char.toLower = [c.toLower, d.toLower] ++ s.map Char.toLower := rfl
      _ = Str.toHex [byte] ++ Str.toHex bytes.1 := by rw [hhead, htail]
      _ = Str.toHex (byte :: bytes.1) := rfl
  | cut hcut => exact .cut ((cutsChar_cons hreads).trans hcut)
  | refused hread hcut =>
    exact .refused ((readable_cons hreads).trans hread) ((cutsChar_cons hreads).trans hcut)

theorem reading_pair (hbefore : byteLen before = i * 2) (hc : c.utf8Size = 1)
    (hd : d.utf8Size = 1)
    (hrest : Reading s n (hexPairs (before ++ c :: d :: s) (i + 1) n)) :
    Reading (c :: d :: s) (n + 1) (hexPairs (before ++ c :: d :: s) i (n + 1)) := by
  rw [hexPairs_succ hbefore, splitAt_one_one hc hd]
  cases hreads : pairReads c d with
  | true =>
    obtain ⟨byte, hbyte, hlower⟩ := u8_of_reads hreads
    simp only [hbyte]
    exact hrest.cons hreads hlower
  | false =>
    simp only [u8_none_of_not_reads hreads]
    refine .refused ?_ ?_
    · rw [readable, hreads, Bool.false_and]
    · rw [cutsChar, hreads, if_neg Bool.false_ne_true, hc, hd]
      rfl

theorem reading_cut (hbefore : byteLen before = i * 2) (hsplit : Str.splitAt 2 s = none)
    (hcut : cutsChar s = true) : Reading s (n + 1) (hexPairs (before ++ s) i (n + 1)) := by
  rw [hexPairs_succ hbefore, hsplit]
  exact .cut hcut

theorem reading_two (hbefore : byteLen before = i * 2) (hc : c.utf8Size = 2) :
    Reading (c :: s) (n + 1) (hexPairs (before ++ c :: s) i (n + 1)) := by
  have hone : c.utf8Size ≠ 1 := by omega
  have hdigit : toDigit16 c = none := by
    cases h : toDigit16 c with
    | none => rfl
    | some v => exact absurd (utf8Size_of_toDigit16 (Option.isSome_of_eq_some h)) hone
  have hplus : c ≠ '+' := by
    rintro rfl
    exact hone rfl
  rw [hexPairs_succ hbefore, splitAt_two hc]
  simp only [u8_single hdigit hplus]
  refine .refused (not_readable hone) ?_
  rw [cutsChar_wide hone, hc]
  rfl

theorem hexPairs_reading (hbefore : byteLen before = i * 2) (hs : byteLen s = n * 2) :
    Reading s n (hexPairs (before ++ s) i n) := by
  induction n generalizing before s i with
  | zero =>
    rw [Nat.zero_mul] at hs
    obtain rfl := byteLen_eq_zero hs
    exact .read rfl fun _ => rfl
  | succ n ih =>
    cases s with
    | nil => cases (byteLen_nil.symm.trans hs).trans (Nat.succ_mul n 2)
    | cons c s =>
      rw [byteLen_cons] at hs
      have hpos := utf8Size_pos c
      by_cases hc : c.utf8Size = 1
      · cases s with
        | nil =>
          rw [byteLen_nil] at hs
          omega
        | cons d s =>
          rw [byteLen_cons] at hs
          by_cases hd : d.utf8Size = 1
          · have hbefore' : byteLen (before ++ [c, d]) = (i + 1) * 2 := by
              rw [byteLen_append, hbefore, byteLen_cons, byteLen_cons, byteLen_nil, hc, hd]
              omega
            have hrest := ih hbefore' (s := s) (by omega)
            rw [List.append_assoc] at hrest
            exact reading_pair hbefore hc hd hrest
          · have hpos' := utf8Size_pos d
            have hnot : pairReads c d = false :=
              Bool.eq_false_iff.mpr fun hreads => hd (utf8Size_of_pairReads hreads).2
            refine reading_cut hbefore (splitAt_one_wide hc hd) ?_
            rw [cutsChar, hnot, if_neg Bool.false_ne_true]
            exact decide_eq_true (.inr ⟨hc, by omega⟩)
      · by_cases htwo : c.utf8Size = 2
        · exact reading_two hbefore htwo
        · have hwide : 2 < c.utf8Size := by omega
          refine reading_cut hbefore (splitAt_wide hwide) ?_
          rw [cutsChar_wide hc]
          exact decide_eq_true hwide

end Reading

/-- The string parses without a panic, exactly when it is the hexadecimal it should be, and the
result is written as the string is in lower case. -/
structure ParsesHex {α : Type} (toHex : α → List Char) (result : Parse Unit α) (s : List Char)
    (wellFormed : Prop) : Prop where
  returns : result.Returns
  accepts : (∃ a, result = .ok a) ↔ wellFormed
  inverse : ∀ a, result = .ok a → s.map Char.toLower = toHex a

section Law

variable {s : List Char} {n : Nat}

theorem readable_of_allHex (hs : AllHex s) (heven : s.length = n * 2) :
    readable s = true ∧ '+' ∉ s := by
  have hplus : '+' ∉ s := fun hmem => Bool.false_ne_true (hs '+' hmem)
  refine ⟨?_, hplus⟩
  induction n generalizing s with
  | zero =>
    rw [Nat.zero_mul] at heven
    rw [List.length_eq_zero_iff.mp heven]
    rfl
  | succ n ih =>
    obtain ⟨c, d, s, rfl⟩ : ∃ c d t, s = c :: d :: t := by
      cases s with
      | nil => cases heven.trans (Nat.succ_mul n 2)
      | cons c s =>
        cases s with
        | nil =>
          rw [List.length_singleton] at heven
          omega
        | cons d s => exact ⟨c, d, s, rfl⟩
    obtain ⟨hc, hs⟩ := List.forall_mem_cons.mp hs
    obtain ⟨hd, hs⟩ := List.forall_mem_cons.mp hs
    rw [readable, pairReads_iff.mpr ⟨.inr hc, hd⟩, Bool.true_and]
    refine ih hs ?_ fun hmem => hplus ?_
    · rw [List.length_cons, List.length_cons] at heven
      omega
    · exact List.mem_cons_of_mem _ (List.mem_cons_of_mem _ hmem)

theorem allHex_of_readable (hs : readable s = true) (hplus : '+' ∉ s) : AllHex s := by
  fun_induction readable s with
  | case1 => exact fun c hc => absurd hc List.not_mem_nil
  | case2 c => cases hs
  | case3 c d s ih =>
    rw [Bool.and_eq_true, pairReads_iff] at hs
    rw [List.mem_cons, List.mem_cons, not_or, not_or] at hplus
    obtain ⟨⟨hc, hd⟩, hs⟩ := hs
    exact List.forall_mem_cons.mpr ⟨hc.resolve_left (Ne.symm hplus.1),
      List.forall_mem_cons.mpr ⟨hd, ih hs hplus.2.2⟩⟩

/-- The pairs of a string parse as they should unless it is misread. -/
theorem parsesHex_iff (hs : byteLen s = n * 2) {α : Type} {toHex : α → List Char}
    {f : Bytes n → α} (hf : ∀ bytes, toHex (f bytes) = Str.toHex bytes.1)
    {wellFormed : Prop} (hwell : wellFormed ↔ s.length = n * 2 ∧ AllHex s) :
    ParsesHex toHex ((hexPairs s 0 n).map f) s wellFormed ↔ ¬ Misread s := by
  have hreading : Reading s n (hexPairs s 0 n) := @hexPairs_reading s [] 0 n rfl hs
  have hhex : wellFormed ↔ readable s = true ∧ '+' ∉ s := by
    rw [hwell]
    constructor
    · rintro ⟨hlen, hall⟩
      exact readable_of_allHex hall hlen
    · rintro ⟨hread, hplus⟩
      have hall := allHex_of_readable hread hplus
      exact ⟨(byteLen_of_allHex hall).symm.trans hs, hall⟩
  rw [Misread]
  generalize hexPairs s 0 n = result at hreading
  cases hreading with
  | @read bytes hread hbytes =>
    constructor
    · rintro ⟨-, haccepts, -⟩ (h | ⟨-, hplus⟩)
      · cases (cutsChar_of_readable hread).symm.trans h
      · exact (hhex.mp (haccepts.mp ⟨_, rfl⟩)).2 hplus
    · intro h
      have hplus : '+' ∉ s := fun hmem => h (.inr ⟨hread, hmem⟩)
      refine ⟨Parse.returns_ok, ⟨fun _ => hhex.mpr ⟨hread, hplus⟩, fun _ => ⟨_, rfl⟩⟩, ?_⟩
      rintro a ⟨⟩
      rw [hbytes hplus, hf]
  | cut hcut => exact iff_of_false (fun h => h.returns rfl) fun h => h (.inl hcut)
  | refused hread hcut =>
    refine iff_of_true ⟨Parse.returns_fail, ?_, ?_⟩ ?_
    · rw [hhex, hread]
      exact iff_of_false (by rintro ⟨a, ⟨⟩⟩) fun h => Bool.false_ne_true h.1
    · rintro a ⟨⟩
    · rintro (h | ⟨h, -⟩)
      · cases hcut.symm.trans h
      · cases hread.symm.trans h

theorem map_pure_eq {α β : Type} (x : Parse Unit α) (f : α → β) :
    (do let a ← x; return f a) = x.map f := by
  cases x <;> rfl

theorem hexToId_of_length (hs : byteLen s = 64) :
    hexToId s = (hexPairs s 0 32).map EnvelopeId.mk := by
  rw [hexToId, if_neg (not_not.mpr hs)]
  exact map_pure_eq _ _

theorem hexDecode_of_even (hs : byteLen s % 2 = 0) :
    hexDecode s = (hexPairs s 0 (byteLen s / 2)).map Subtype.val := by
  rw [hexDecode, if_neg (not_not.mpr hs)]
  exact map_pure_eq _ _

theorem hexToId_of_readable (hread : readable s = true) (hs : byteLen s = 64) :
    ∃ id, hexToId s = .ok id := by
  have hreading : Reading s 32 (hexPairs s 0 32) := @hexPairs_reading s [] 0 32 rfl hs
  rw [hexToId_of_length hs]
  generalize hexPairs s 0 32 = result at hreading
  cases hreading with
  | read => exact ⟨_, rfl⟩
  | cut hcut => cases (cutsChar_of_readable hread).symm.trans hcut
  | refused hnot => cases hread.symm.trans hnot

theorem parsesHex_fail {α : Type} {toHex : α → List Char} {wellFormed : Prop}
    (h : ¬ wellFormed) : ParsesHex toHex (Parse.fail ()) s wellFormed where
  returns := Parse.returns_fail
  accepts := iff_of_false (by rintro ⟨a, ⟨⟩⟩) h
  inverse := by rintro a ⟨⟩

theorem hexToId_law : ParsesHex EnvelopeId.toHex (hexToId s) s (s.length = 64 ∧ AllHex s) ↔
    ¬ (byteLen s = 64 ∧ Misread s) := by
  by_cases hs : byteLen s = 64
  · rw [hexToId_of_length hs, and_iff_right hs]
    exact parsesHex_iff (n := 32) (f := EnvelopeId.mk) hs (fun _ => rfl) Iff.rfl
  · refine iff_of_true ?_ fun h => hs h.1
    rw [hexToId, if_pos hs]
    exact parsesHex_fail fun h => hs ((byteLen_of_allHex h.2).trans h.1)

theorem hexDecode_law : ParsesHex bytesToHex (hexDecode s) s (s.length % 2 = 0 ∧ AllHex s) ↔
    ¬ (byteLen s % 2 = 0 ∧ Misread s) := by
  by_cases hs : byteLen s % 2 = 0
  · rw [hexDecode_of_even hs, and_iff_right hs]
    refine parsesHex_iff (Nat.div_mul_cancel (Nat.dvd_of_mod_eq_zero hs)).symm (fun _ => rfl) ?_
    rw [and_congr_left_iff]
    intro hall
    rw [byteLen_of_allHex hall]
    omega
  · refine iff_of_true ?_ fun h => hs h.1
    rw [hexDecode, if_pos hs]
    exact parsesHex_fail fun h => hs (byteLen_of_allHex h.2 ▸ h.1)

theorem not_misread_of_allHex (hs : AllHex s) (heven : s.length = n * 2) : ¬ Misread s := by
  obtain ⟨hread, hplus⟩ := readable_of_allHex hs heven
  rintro (h | ⟨-, h⟩)
  · cases (cutsChar_of_readable hread).symm.trans h
  · exact hplus h

theorem ParsesHex.of_toHex {bytes : List UInt8} {α : Type} {toHex : α → List Char}
    {result : Parse Unit α} {wellFormed : Prop} {a : α}
    (h : ParsesHex toHex result (toHex a) wellFormed) (hwell : wellFormed)
    (ha : toHex a = Str.toHex bytes) (hinj : ∀ b, toHex b = toHex a → b = a) : result = .ok a := by
  obtain ⟨b, hb⟩ := h.accepts.mpr hwell
  have hlower := h.inverse b hb
  rw [ha, map_toLower_toHex, ← ha] at hlower
  rw [hb, hinj b hlower.symm]

theorem hexToId_toHex (id : EnvelopeId) : hexToId id.toHex = .ok id := by
  have hall : AllHex id.toHex := allHex_toHex id.bytes.1
  have hlen : id.toHex.length = 64 := by rw [EnvelopeId.toHex, length_toHex, id.bytes.2]
  have hlaw := hexToId_law.mpr fun h => not_misread_of_allHex (n := 32) hall hlen h.2
  refine hlaw.of_toHex ⟨hlen, hall⟩ rfl fun other h => ?_
  obtain ⟨bytes⟩ := id
  obtain ⟨bytes'⟩ := other
  exact congrArg EnvelopeId.mk (Subtype.ext (toHex_injective h))

theorem hexDecode_bytesToHex (bytes : List UInt8) : hexDecode (bytesToHex bytes) = .ok bytes := by
  have hall : AllHex (bytesToHex bytes) := allHex_toHex bytes
  have hlen : (bytesToHex bytes).length = bytes.length * 2 := by
    rw [bytesToHex, length_toHex, Nat.mul_comm]
  have hlaw := hexDecode_law.mpr fun h => not_misread_of_allHex hall hlen h.2
  refine hlaw.of_toHex ⟨?_, hall⟩ rfl fun other h => toHex_injective h
  rw [hlen, Nat.mul_mod_left]

/-- Both parsers do what they should on all strings but those that are misread. -/
theorem hex_parses_unless_misread (s : List Char) (id : EnvelopeId) (bytes : List UInt8) :
    (ParsesHex EnvelopeId.toHex (hexToId s) s (s.length = 64 ∧ AllHex s) ↔
        ¬ (byteLen s = 64 ∧ Misread s)) ∧
      (ParsesHex bytesToHex (hexDecode s) s (s.length % 2 = 0 ∧ AllHex s) ↔
        ¬ (byteLen s % 2 = 0 ∧ Misread s)) ∧
      hexToId id.toHex = .ok id ∧ hexDecode (bytesToHex bytes) = .ok bytes :=
  ⟨hexToId_law, hexDecode_law, hexToId_toHex id, hexDecode_bytesToHex bytes⟩

def cutString : List Char := 'a' :: '€' :: List.replicate 60 'a'

def signedString : List Char := (List.replicate 32 ['+', 'f']).flatten

/-- A string that makes the parser panic, and one that is no hexadecimal and gives an id. -/
theorem cutString_panics_signedString_parses :
    hexToId cutString = Parse.halt ∧ (∃ id, hexToId signedString = .ok id) ∧
      ¬ AllHex signedString ∧ hexDecode cutString = Parse.halt := by
  have hplus : '+' ∈ signedString :=
    List.mem_flatten.mpr ⟨_, List.mem_replicate.mpr ⟨by decide, rfl⟩, List.mem_cons_self⟩
  refine ⟨by decide, hexToId_of_readable ?_ ?_, fun hs => Bool.false_ne_true (hs '+' hplus),
    by decide⟩
  · decide
  · decide

end Law

end ProjectMesh.Routing
