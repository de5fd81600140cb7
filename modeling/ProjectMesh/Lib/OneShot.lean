import ProjectMesh.Lib.Method

namespace ProjectMesh.Lib

/-- `Option::take` behind a lock, and `e` where the value is gone. -/
def Method.take {ε σ : Type} (e : ε) : Method ε (Option σ) σ := fun s =>
  match s with
  | none => .error (.err e) none
  | some value => .ok value none

def Method.borrow {ε σ α : Type} (e : ε) (x : Method ε σ α) : Method ε (Option σ) α := fun s =>
  match s with
  | none => .error (.err e) none
  | some value =>
    match x.run value with
    | .ok a value => .ok a (some value)
    | .error fault value => .error fault (some value)

namespace Method

variable {ε σ α : Type} {e : ε}

theorem isSome_after_borrow (x : Method ε σ α) (value : σ) :
    (after ((borrow e x).run (some value))).isSome := by
  change (after (match x.run value with
    | .ok a value => .ok a (some value)
    | .error fault value => .error fault (some value))).isSome
  cases x.run value <;> rfl

theorem run_borrow_some (x : Method ε σ α) (value : σ) :
    (borrow e x).run (some value) =
      match x.run value with
      | .ok a value => .ok a (some value)
      | .error fault value => .error fault (some value) := rfl

theorem after_take_bind {f : σ → Method ε (Option σ) α}
    (h : ∀ value s, after ((f value).run s) = s) (s : Option σ) :
    after ((take e >>= f).run s) = none := by
  cases s with
  | none => rfl
  | some value => exact h value none

end Method

/-- An object whose value some calls take for good.  Such a call first looks at its arguments
and at the value, and may refuse. -/
structure OneShot (ε σ κ α : Type) where
  call : κ → Method ε (Option σ) α
  takes : κ → Bool
  admits : σ → κ → Bool
  gone : ε
  after_admits : ∀ value c, takes c = true → admits value c = true →
    Method.after ((call c).run (some value)) = none
  after_refuses : ∀ value c, takes c = true → admits value c = false →
    Method.after ((call c).run (some value)) = some value
  after_borrows : ∀ value c, takes c = false →
    (Method.after ((call c).run (some value))).isSome
  after_none : ∀ c, Method.after ((call c).run none) = none
  run_none : ∀ c, takes c = true → (call c).run none = .error (.err gone) none ∨
    ∃ fault, ∀ s, (call c).run s = .error fault s

namespace OneShot

variable {ε σ κ α : Type} {o : OneShot ε σ κ α} {value : σ} {s : Option σ} {c : κ} {cs : List κ}

def step (o : OneShot ε σ κ α) (s : Option σ) (c : κ) : Option σ :=
  Method.after ((o.call c).run s)

def run (o : OneShot ε σ κ α) (s : Option σ) (cs : List κ) : Option σ := cs.foldl o.step s

def Admits (o : OneShot ε σ κ α) (s : Option σ) (c : κ) : Prop :=
  o.takes c = true ∧ ∃ value, s = some value ∧ o.admits value c = true

def AllRefuse (o : OneShot ε σ κ α) : Option σ → List κ → Prop
  | _, [] => True
  | s, c :: cs => ¬ o.Admits s c ∧ o.AllRefuse (o.step s c) cs

def others (o : OneShot ε σ κ α) (cs : List κ) : List κ := cs.filter fun c => !o.takes c

theorem run_cons (s : Option σ) (c : κ) (cs : List κ) :
    o.run s (c :: cs) = o.run (o.step s c) cs := rfl

theorem step_none (c : κ) : o.step none c = none := o.after_none c

theorem run_none_eq (cs : List κ) : o.run none cs = none := by
  induction cs with
  | nil => rfl
  | cons c cs ih => rw [run_cons, step_none, ih]

theorem step_of_admits (h : o.Admits s c) : o.step s c = none := by
  obtain ⟨htakes, value, rfl, hadmits⟩ := h
  exact o.after_admits value c htakes hadmits

theorem step_of_refuses (h : ¬ o.Admits (some value) c) (htakes : o.takes c = true) :
    o.step (some value) c = some value := by
  apply o.after_refuses value c htakes
  rw [← Bool.not_eq_true]
  exact fun hadmits => h ⟨htakes, value, rfl, hadmits⟩

theorem exists_step (h : ¬ o.Admits (some value) c) :
    ∃ value', o.step (some value) c = some value' := by
  cases htakes : o.takes c with
  | true => exact ⟨value, step_of_refuses h htakes⟩
  | false => exact Option.isSome_iff_exists.mp (o.after_borrows value c htakes)

theorem run_of_not_allRefuse (h : ¬ o.AllRefuse s cs) : o.run s cs = none := by
  induction cs generalizing s with
  | nil => exact absurd trivial h
  | cons c cs ih =>
    rw [run_cons]
    by_cases hadmits : o.Admits s c
    · rw [step_of_admits hadmits, run_none_eq]
    · exact ih fun hrest => h ⟨hadmits, hrest⟩

/-- Attempts that refuse leave no trace. -/
theorem run_others (h : o.AllRefuse (some value) cs) :
    o.run (some value) (o.others cs) = o.run (some value) cs := by
  induction cs generalizing value with
  | nil => rfl
  | cons c cs ih =>
    obtain ⟨hrefuses, hrest⟩ := h
    cases htakes : o.takes c with
    | true =>
      rw [step_of_refuses hrefuses htakes] at hrest
      rw [others, List.filter_cons_of_neg (by rw [htakes]; decide), run_cons,
        step_of_refuses hrefuses htakes]
      exact ih hrest
    | false =>
      obtain ⟨value', hstep⟩ := exists_step hrefuses
      rw [hstep] at hrest
      rw [others, List.filter_cons_of_pos (by rw [htakes]; decide), run_cons, run_cons, hstep]
      exact ih hrest

theorem call_of_not_allRefuse (h : ¬ o.AllRefuse s cs) (htakes : o.takes c = true) :
    (o.call c).run (o.run s cs) = .error (.err o.gone) none ∨
      ∃ fault, ∀ s, (o.call c).run s = .error fault s := by
  rw [run_of_not_allRefuse h]
  exact o.run_none c htakes

end OneShot

end ProjectMesh.Lib
