import Mathlib.Algebra.Group.Nat.Defs
import Mathlib.Tactic.Common

namespace ProjectMesh.Lib

/-- How a call ends that gives no value: with an error its caller sees, or with a
panic, after which it never returns. -/
inductive Fault (ε : Type) : Type
  | err : ε → Fault ε
  | panic : Fault ε
  deriving DecidableEq

/-- What `+` does at the end of its type: it panics in a build with overflow checks, and starts
again at zero in a release build.  Where a result does not say which, the build has the checks:
up to a panic both do the same. -/
inductive Overflow : Type
  | checked
  | wrapping
  deriving DecidableEq

/-- A method on `&mut self` that returns a `Result`.  An early return keeps every
change made to the state before it. -/
abbrev Method (ε σ α : Type) := EStateM (Fault ε) σ α

namespace Method

def fail (e : ε) : Method ε σ α := throw (.err e)

def halt : Method ε σ α := throw .panic

def okOr (o : Option α) (e : ε) : Method ε σ α :=
  match o with
  | some a => pure a
  | none => fail e

def ofExcept (r : Except ε α) : Method ε σ α :=
  match r with
  | .ok a => pure a
  | .error e => fail e

def mapErr (f : ε → ε') (x : Method ε σ α) : Method ε' σ α := fun s =>
  match x.run s with
  | .ok a t => .ok a t
  | .error (.err e) t => .error (.err (f e)) t
  | .error .panic t => .error .panic t

def succ32 (n : Nat) (overflow : Overflow := .checked) : Method ε σ Nat :=
  if n + 1 < 2 ^ 32 then pure (n + 1)
  else
    match overflow with
    | .checked => halt
    | .wrapping => pure 0

def zoom (field : σ → τ) (setField : σ → τ → σ) (x : Method ε τ α) : Method ε σ α := fun s =>
  match x.run (field s) with
  | .ok a t => .ok a (setField s t)
  | .error f t => .error f (setField s t)

/-- What a caller sees of a call: its result without the state. -/
def seen : EStateM.Result (Fault ε) σ α → Except (Fault ε) α
  | .ok a _ => .ok a
  | .error f _ => .error f

/-- The state a call leaves behind, whatever its result. -/
def after : EStateM.Result (Fault ε) σ α → σ
  | .ok _ s => s
  | .error _ s => s

@[simp] theorem seen_ok (a : α) (s : σ) :
    seen (.ok a s : EStateM.Result (Fault ε) σ α) = .ok a := rfl

@[simp] theorem seen_error (f : Fault ε) (s : σ) :
    seen (.error f s : EStateM.Result (Fault ε) σ α) = .error f := rfl

@[simp] theorem after_ok (a : α) (s : σ) :
    after (.ok a s : EStateM.Result (Fault ε) σ α) = s := rfl

@[simp] theorem after_error (f : Fault ε) (s : σ) :
    after (.error f s : EStateM.Result (Fault ε) σ α) = s := rfl

@[simp] theorem run_fail (e : ε) (s : σ) :
    (fail e : Method ε σ α).run s = .error (.err e) s := rfl

@[simp] theorem run_halt (s : σ) :
    (halt : Method ε σ α).run s = .error .panic s := rfl

@[simp] theorem run_okOr_some (a : α) (e : ε) (s : σ) :
    (okOr (some a) e : Method ε σ α).run s = .ok a s := rfl

@[simp] theorem run_okOr_none (e : ε) (s : σ) :
    (okOr none e : Method ε σ α).run s = .error (.err e) s := rfl

@[simp] theorem run_ofExcept_ok (a : α) (s : σ) :
    (ofExcept (.ok a) : Method ε σ α).run s = .ok a s := rfl

@[simp] theorem run_ofExcept_error (e : ε) (s : σ) :
    (ofExcept (.error e) : Method ε σ α).run s = .error (.err e) s := rfl

@[simp] theorem after_ofExcept (r : Except ε α) (s : σ) :
    after ((ofExcept r : Method ε σ α).run s) = s := by
  cases r <;> rfl

theorem after_bind_congr {x : Method ε σ α} {f : α → Method ε σ β} {g : α → Method ε σ γ}
    (h : ∀ a t, after ((f a).run t) = after ((g a).run t)) (s : σ) :
    after ((x >>= f).run s) = after ((x >>= g).run s) := by
  rw [EStateM.run_bind, EStateM.run_bind]
  cases x.run s with
  | ok a t => exact h a t
  | error e t => rfl

theorem after_bind_keeps {x : Method ε σ α} {f : α → Method ε σ β}
    (h : ∀ a s, after ((f a).run s) = s) (s : σ) :
    after ((x >>= f).run s) = after (x.run s) := by
  rw [EStateM.run_bind]
  cases x.run s with
  | ok a t => exact h a t
  | error e t => rfl

theorem after_bind_pure (x : Method ε σ α) (f : α → β) (s : σ) :
    after ((x >>= fun a => pure (f a)).run s) = after (x.run s) :=
  after_bind_keeps (fun _ _ => rfl) s

theorem after_map (f : α → β) (x : Method ε σ α) (s : σ) :
    after ((f <$> x).run s) = after (x.run s) := by
  rw [map_eq_pure_bind]
  exact after_bind_pure x f s

theorem run_map_error {f : α → β} {x : Method ε σ α} {e : Fault ε} {s t : σ}
    (h : x.run s = .error e t) : (f <$> x).run s = .error e t := by
  rw [map_eq_pure_bind, EStateM.run_bind, h]

section MapErr

variable {f : ε → ε'} {x : Method ε σ α} {s t : σ}

theorem run_mapErr : (mapErr f x).run s =
    match x.run s with
    | .ok a t => .ok a t
    | .error (.err e) t => .error (.err (f e)) t
    | .error .panic t => .error .panic t := rfl

theorem run_mapErr_ok {a : α} (h : x.run s = .ok a t) : (mapErr f x).run s = .ok a t := by
  rw [run_mapErr, h]

theorem run_mapErr_error {e : Fault ε} (h : x.run s = .error e t) :
    ∃ e', (mapErr f x).run s = .error e' t := by
  rw [run_mapErr, h]
  cases e with
  | err e => exact ⟨.err (f e), rfl⟩
  | panic => exact ⟨.panic, rfl⟩

theorem mapErr_bind (f : ε → ε') (x : Method ε σ α) (g : α → Method ε σ β) :
    mapErr f (x >>= g) = mapErr f x >>= fun a => mapErr f (g a) := by
  funext s
  change (mapErr f (x >>= g)).run s = (mapErr f x >>= fun a => mapErr f (g a)).run s
  rw [EStateM.run_bind, run_mapErr, run_mapErr, EStateM.run_bind]
  cases x.run s with
  | ok a t => rfl
  | error e t => cases e <;> rfl

theorem run_mapErr_err {e : ε} (h : x.run s = .error (.err e) t) :
    (mapErr f x).run s = .error (.err (f e)) t := by
  rw [run_mapErr, h]

end MapErr

theorem run_succ32 {n : Nat} {overflow : Overflow} (h : n + 1 < 2 ^ 32) (s : σ) :
    (succ32 n overflow : Method ε σ Nat).run s = .ok (n + 1) s := by
  rw [succ32.eq_def, if_pos h]
  rfl

theorem run_succ32_panic {n : Nat} (h : ¬ n + 1 < 2 ^ 32) (s : σ) :
    (succ32 n : Method ε σ Nat).run s = .error .panic s := by
  rw [succ32.eq_def, if_neg h]
  rfl

theorem run_succ32_wraps {n : Nat} (h : ¬ n + 1 < 2 ^ 32) (s : σ) :
    (succ32 n .wrapping : Method ε σ Nat).run s = .ok 0 s := by
  rw [succ32.eq_def, if_neg h]
  rfl

theorem run_bind_ok {x : Method ε σ α} {f : α → Method ε σ β} {s s' : σ} {b : β} :
    (x >>= f).run s = .ok b s' ↔
      ∃ a t, x.run s = .ok a t ∧ (f a).run t = .ok b s' := by
  rw [EStateM.run_bind]
  cases x.run s with
  | ok a t => simp
  | error e t => simp

theorem run_bind_error {x : Method ε σ α} {f : α → Method ε σ β} {s s' : σ}
    {e : Fault ε} :
    (x >>= f).run s = .error e s' ↔
      x.run s = .error e s' ∨ ∃ a t, x.run s = .ok a t ∧ (f a).run t = .error e s' := by
  rw [EStateM.run_bind]
  cases x.run s with
  | ok a t => simp
  | error e t => simp

section Zoom

variable {field : σ → τ} {setField : σ → τ → σ} {x : Method ε τ α} {s s' : σ}

theorem run_zoom : (zoom field setField x).run s =
    match x.run (field s) with
    | .ok a t => .ok a (setField s t)
    | .error f t => .error f (setField s t) := rfl

theorem run_zoom_ok {a : α} : (zoom field setField x).run s = .ok a s' ↔
    ∃ t, x.run (field s) = .ok a t ∧ setField s t = s' := by
  rw [run_zoom]
  cases x.run (field s) with
  | ok a t => simp
  | error e t => simp

theorem run_zoom_error {e : Fault ε} : (zoom field setField x).run s = .error e s' ↔
    ∃ t, x.run (field s) = .error e t ∧ setField s t = s' := by
  rw [run_zoom]
  cases x.run (field s) with
  | ok a t => simp
  | error e t => simp

end Zoom

/-- The call comes back, if only with an error. -/
def Returns (x : Method ε σ α) : Prop := ∀ s t, x.run s ≠ .error .panic t

section Returns

variable {x : Method ε σ α}

theorem Returns.bind {f : α → Method ε σ β} (hx : Returns x) (hf : ∀ a, Returns (f a)) :
    Returns (x >>= f) := by
  intro s t h
  rcases run_bind_error.mp h with h | ⟨a, u, -, h⟩
  · exact hx s t h
  · exact hf a u t h

theorem Returns.zoom {field : τ → σ} {setField : τ → σ → τ} (hx : Returns x) :
    Returns (zoom field setField x) := by
  intro s t h
  obtain ⟨u, h, -⟩ := run_zoom_error.mp h
  exact hx (field s) u h

theorem returns_pure (a : α) : Returns (pure a : Method ε σ α) := by
  rintro s t ⟨⟩

theorem returns_get : Returns (get : Method ε σ σ) := by
  rintro s t ⟨⟩

theorem returns_set (u : σ) : Returns (set u : Method ε σ PUnit) := by
  rintro s t ⟨⟩

theorem returns_modify (f : σ → σ) : Returns (modify f : Method ε σ PUnit) := by
  rintro s t ⟨⟩

theorem returns_fail (e : ε) : Returns (fail e : Method ε σ α) := by
  rintro s t ⟨⟩

theorem returns_okOr (o : Option α) (e : ε) : Returns (okOr o e : Method ε σ α) := by
  cases o <;> rintro s t ⟨⟩

theorem returns_ofExcept (r : Except ε α) : Returns (ofExcept r : Method ε σ α) := by
  cases r <;> rintro s t ⟨⟩

theorem returns_succ32 (n : Nat) : Returns (succ32 n .wrapping : Method ε σ Nat) := by
  rw [succ32.eq_def]
  split
  · exact returns_pure _
  · exact returns_pure _

end Returns

/-- The second call ends as the first one does, unless that one panics. -/
def UpToPanic (x y : Method ε σ α) : Prop :=
  ∀ s, (∃ t, x.run s = .error .panic t) ∨ y.run s = x.run s

section UpToPanic

variable {x y : Method ε σ α}

theorem UpToPanic.refl (x : Method ε σ α) : UpToPanic x x := fun _ => .inr rfl

theorem UpToPanic.bind {f g : α → Method ε σ β} (hx : UpToPanic x y)
    (hf : ∀ a, UpToPanic (f a) (g a)) : UpToPanic (x >>= f) (y >>= g) := by
  intro s
  simp only [EStateM.run_bind]
  rcases hx s with ⟨t, hpanic⟩ | hsame
  · exact .inl ⟨t, by rw [hpanic]⟩
  · rw [hsame]
    cases x.run s with
    | ok a t => exact hf a t
    | error e t => exact .inr rfl

theorem UpToPanic.after (x : Method ε σ α) {f g : α → Method ε σ β}
    (hf : ∀ a, UpToPanic (f a) (g a)) : UpToPanic (x >>= f) (x >>= g) :=
  (UpToPanic.refl x).bind hf

theorem upToPanic_succ32 (n : Nat) (overflow : Overflow) :
    UpToPanic (succ32 n : Method ε σ Nat) (succ32 n overflow) := by
  intro s
  by_cases h : n + 1 < 2 ^ 32
  · exact .inr ((run_succ32 h s).trans (run_succ32 h s).symm)
  · exact .inl ⟨s, run_succ32_panic h s⟩

end UpToPanic

end Method

end ProjectMesh.Lib
