import ProjectMesh.Lib.Triple

namespace ProjectMesh.Lib

variable {ε σ α β : Type}

structure Counted (σ : Type) where
  state : σ
  count : Nat

namespace Counted

def free (x : Method ε σ α) : Method ε (Counted σ) α :=
  Method.zoom Counted.state (fun s t => { s with state := t }) x

def charge : Method ε (Counted σ) Unit := modify fun s => { s with count := s.count + 1 }

def erased : EStateM.Result (Fault ε) (Counted σ) α → EStateM.Result (Fault ε) σ α
  | .ok a s => .ok a s.state
  | .error f s => .error f s.state

def Counts (x : Method ε (Counted σ) α) (y : Method ε σ α) : Prop :=
  ∀ s, erased (x.run s) = y.run s.state

variable {x : Method ε (Counted σ) α} {y : Method ε σ α} {f : α → Method ε (Counted σ) β}
  {g : α → Method ε σ β}

theorem counts_free (y : Method ε σ α) : Counts (free y) y := by
  intro s
  rw [free, Method.run_zoom]
  cases y.run s.state <;> rfl

theorem counts_pure (a : α) : Counts (pure a : Method ε (Counted σ) α) (pure a) := fun _ => rfl

theorem Counts.bind (hx : Counts x y) (hf : ∀ a, Counts (f a) (g a)) :
    Counts (x >>= f) (y >>= g) := by
  intro s
  have hs := hx s
  rw [EStateM.run_bind, EStateM.run_bind, ← hs]
  cases x.run s with
  | ok a t => exact hf a t
  | error e t => rfl

theorem Counts.charged (hx : Counts x y) : Counts (charge >>= fun _ => x) y := fun s =>
  hx { s with count := s.count + 1 }

section Triple

variable {P E : Counted σ → Prop} {Q : α → Counted σ → Prop} {R : Unit → Counted σ → Prop}

theorem triple_free (h : ∀ c, Method.Triple (fun s => P ⟨s, c⟩) y (fun a s => Q a ⟨s, c⟩)
    fun s => E ⟨s, c⟩) : Method.Triple P (free y) Q E := by
  intro s hs
  have h := h s.count s.state hs
  rw [free, Method.run_zoom]
  cases hrun : y.run s.state with
  | ok a t =>
    rw [hrun] at h
    exact h
  | error e t =>
    rw [hrun] at h
    exact h

theorem triple_charge (h : ∀ s, P s → R () { s with count := s.count + 1 }) :
    Method.Triple P (charge : Method ε (Counted σ) Unit) R E := h

end Triple

end Counted

end ProjectMesh.Lib
