import Mathlib.Data.List.Induction
import Mathlib.Logic.Function.Basic

namespace ProjectMesh.Lib.Flood

variable {ν : Type}

abbrev Copies (ν : Type) := ν → Option Nat

def pass (own other : Option Nat) : Option Nat :=
  match own with
  | some hops => some hops
  | none => other.bind fun hops => if 2 ≤ hops then some (hops - 1) else none

def meet [DecidableEq ν] (c : Copies ν) (a b : ν) : Copies ν :=
  Function.update (Function.update c a (pass (c a) (c b))) b (pass (c b) (c a))

def run [DecidableEq ν] (c : Copies ν) : List (ν × ν) → Copies ν
  | [] => c
  | (a, b) :: events => run (meet c a b) events

def Joins (event : ν × ν) (a b : ν) : Prop := event = (a, b) ∨ event = (b, a)

/-- A node is reached over so many of the contacts so far, each later than the one before. -/
inductive Journey (origin : ν) : List (ν × ν) → Nat → ν → Prop
  | start {past} : Journey origin past 0 origin
  | wait {past event length node} : Journey origin past length node →
    Journey origin (past ++ [event]) length node
  | hop {past event length a b} : Journey origin past length a → Joins event a b →
    Journey origin (past ++ [event]) (length + 1) b

/-- No journey to the node that came before leaves it fewer hops. -/
def Unshadowed (c : Copies ν) (past : List (ν × ν)) (hops : Nat) (node : ν) : Prop :=
  ∀ origin budget length, c origin = some budget → Journey origin past length node →
    length < budget → hops ≤ budget - length

inductive Clear (c : Copies ν) (origin : ν) (budget : Nat) : List (ν × ν) → Nat → ν → Prop
  | start {past} : Clear c origin budget past 0 origin
  | wait {past event length node} : Clear c origin budget past length node →
    Clear c origin budget (past ++ [event]) length node
  | hop {past event length a b} : Clear c origin budget past length a → Joins event a b →
    Unshadowed c past (budget - (length + 1)) b →
    Clear c origin budget (past ++ [event]) (length + 1) b

/-- A journey that is unshadowed wherever it goes on from. -/
inductive Arrives (c : Copies ν) (origin : ν) (budget : Nat) : List (ν × ν) → Nat → ν → Prop
  | start {past} : Arrives c origin budget past 0 origin
  | wait {past event length node} : Arrives c origin budget past length node →
    Arrives c origin budget (past ++ [event]) length node
  | hop {past event length a b} : Clear c origin budget past length a → Joins event a b →
    Arrives c origin budget (past ++ [event]) (length + 1) b

theorem Journey.eq_of_nil {origin node : ν} {length : Nat} (h : Journey origin [] length node) :
    node = origin := by
  generalize hpast : [] = past at h
  cases h with
  | start => rfl
  | wait _ | hop _ _ =>
    exact absurd hpast.symm (List.append_ne_nil_of_right_ne_nil _ (List.cons_ne_nil _ _))

def Positive (c : Copies ν) : Prop := ∀ node hops, c node = some hops → 1 ≤ hops

section Pass

variable {own other : Option Nat} {hops : Nat}

@[simp] theorem pass_some : pass (some hops) other = some hops := rfl

theorem pass_none_of_le (h : 2 ≤ hops) : pass none (some hops) = some (hops - 1) := by
  simp [pass, h]

theorem pass_eq_some (h : pass own other = some hops) :
    own = some hops ∨ own = none ∧ other = some (hops + 1) ∧ 1 ≤ hops := by
  cases own with
  | some n => exact .inl h
  | none =>
    simp only [pass, Option.bind_eq_some_iff] at h
    obtain ⟨n, rfl, h⟩ := h
    split at h
    · next hle =>
      cases h
      exact .inr ⟨rfl, by rw [Nat.sub_add_cancel (by omega)], by omega⟩
    · cases h

end Pass

variable [DecidableEq ν] {c : Copies ν} {a b node origin : ν} {hops length budget : Nat}
  {past events : List (ν × ν)} {event : ν × ν}

theorem meet_of_ne (ha : node ≠ a) (hb : node ≠ b) : meet c a b node = c node := by
  rw [meet, Function.update_of_ne hb, Function.update_of_ne ha]

theorem meet_right : meet c a b b = pass (c b) (c a) := Function.update_self ..

theorem meet_left (h : a ≠ b) : meet c a b a = pass (c a) (c b) := by
  rw [meet, Function.update_of_ne h, Function.update_self]

theorem run_append : run c (past ++ events) = run (run c past) events := by
  induction past generalizing c with
  | nil => rfl
  | cons event past ih => exact ih

theorem run_snoc : run c (past ++ [event]) = meet (run c past) event.1 event.2 := run_append

theorem meet_of_some (h : c node = some hops) : meet c a b node = some hops := by
  by_cases hb : node = b
  · subst hb
    rw [meet_right, h, pass_some]
  · by_cases ha : node = a
    · subst ha
      rw [meet_left hb, h, pass_some]
    · rw [meet_of_ne ha hb, h]

theorem run_of_some (h : c node = some hops) : run c events node = some hops := by
  induction events generalizing c with
  | nil => exact h
  | cons event events ih => exact ih (meet_of_some h)

theorem meet_eq_some (h : meet c a b node = some hops) :
    c node = some hops ∨
      ∃ other, Joins (a, b) other node ∧ c other = some (hops + 1) ∧ 1 ≤ hops := by
  by_cases hb : node = b
  · subst hb
    rw [meet_right] at h
    rcases pass_eq_some h with h | ⟨-, h, hle⟩
    · exact .inl h
    · exact .inr ⟨a, .inl rfl, h, hle⟩
  · by_cases ha : node = a
    · subst ha
      rw [meet_left hb] at h
      rcases pass_eq_some h with h | ⟨-, h, hle⟩
      · exact .inl h
      · exact .inr ⟨b, .inr rfl, h, hle⟩
    · rw [meet_of_ne ha hb] at h
      exact .inl h

theorem meet_of_joins (hjoins : Joins event a b) (ha : c a = some hops) (hle : 2 ≤ hops)
    (hb : c b = none) : meet c event.1 event.2 b = some (hops - 1) := by
  have hne : b ≠ a := by
    rintro rfl
    rw [hb] at ha
    cases ha
  rcases hjoins with rfl | rfl
  · rw [meet_right, hb, ha, pass_none_of_le hle]
  · rw [meet_left hne, hb, ha, pass_none_of_le hle]

theorem positive_run (h : Positive c) : Positive (run c events) := by
  induction events generalizing c with
  | nil => exact h
  | cons event events ih =>
    refine ih fun node hops hnode => ?_
    rcases meet_eq_some hnode with hnode | ⟨-, -, -, hle⟩
    · exact h node hops hnode
    · exact hle

/-- Every copy came by a journey that cost it a hop for each contact. -/
theorem journey_of_run (h : run c past node = some hops) :
    ∃ origin budget length, c origin = some budget ∧ Journey origin past length node ∧
      length + hops = budget := by
  induction past using List.reverseRecOn generalizing node hops with
  | nil => exact ⟨node, hops, 0, h, .start, Nat.zero_add _⟩
  | append_singleton past event ih =>
    rw [run_snoc] at h
    rcases meet_eq_some h with h | ⟨other, hjoins, h, -⟩
    · obtain ⟨origin, budget, length, hcopy, hjourney, hlen⟩ := ih h
      exact ⟨origin, budget, length, hcopy, hjourney.wait, hlen⟩
    · obtain ⟨origin, budget, length, hcopy, hjourney, hlen⟩ := ih h
      exact ⟨origin, budget, length + 1, hcopy, hjourney.hop hjoins, by omega⟩

theorem Clear.copy (hpositive : Positive c) (horigin : c origin = some budget)
    (h : Clear c origin budget past length node) (hlt : length < budget) :
    ∃ hops, run c past node = some hops ∧ budget ≤ length + hops := by
  induction h with
  | start => exact ⟨budget, run_of_some horigin, Nat.le_add_left _ _⟩
  | wait _ ih =>
    obtain ⟨hops, hcopy, hle⟩ := ih hlt
    exact ⟨hops, by rw [run_snoc, meet_of_some hcopy], hle⟩
  | @hop past event length a b _ hjoins hunshadowed ih =>
    obtain ⟨hops, hcopy, hle⟩ := ih (by omega)
    cases hb : run c past b with
    | none =>
      refine ⟨hops - 1, ?_, by omega⟩
      rw [run_snoc, meet_of_joins hjoins hcopy (by omega) hb]
    | some held =>
      obtain ⟨other, budget', length', hother, hjourney, hlen⟩ := journey_of_run hb
      have hpos := positive_run hpositive b held hb
      have hfewer := hunshadowed other budget' length' hother hjourney (by omega)
      exact ⟨held, by rw [run_snoc, meet_of_some hb], by omega⟩

/-- Who is reached with a hop left by a journey that is unshadowed on its way has a copy. -/
theorem Arrives.copy (hpositive : Positive c) (horigin : c origin = some budget)
    (h : Arrives c origin budget past length node) (hlt : length < budget) :
    (run c past node).isSome := by
  induction h with
  | start => rw [run_of_some horigin, Option.isSome_some]
  | wait _ ih =>
    obtain ⟨hops, hcopy⟩ := Option.isSome_iff_exists.mp (ih hlt)
    rw [run_snoc, meet_of_some hcopy, Option.isSome_some]
  | @hop past event length a b hclear hjoins =>
    obtain ⟨hops, hcopy, hle⟩ := hclear.copy hpositive horigin (by omega)
    cases hb : run c past b with
    | none => rw [run_snoc, meet_of_joins hjoins hcopy (by omega) hb, Option.isSome_some]
    | some held => rw [run_snoc, meet_of_some hb, Option.isSome_some]

end ProjectMesh.Lib.Flood
