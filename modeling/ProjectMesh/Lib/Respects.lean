import ProjectMesh.Lib.Triple

namespace ProjectMesh.Lib.Method

variable {σ τ ε ε' α β : Type} {R : σ → σ → Prop} {S : τ → τ → Prop} {x : Method ε σ α}
  {f : α → Method ε σ β}

inductive Related (R : σ → σ → Prop) :
    EStateM.Result (Fault ε) σ α → EStateM.Result (Fault ε) σ α → Prop
  | ok {a s t} : R s t → Related R (.ok a s) (.ok a t)
  | error {fault s t} : R s t → Related R (.error fault s) (.error fault t)

def Respects (R : σ → σ → Prop) (x : Method ε σ α) : Prop :=
  ∀ s t, R s t → Related R (x.run s) (x.run t)

section Related

variable {r r' : EStateM.Result (Fault ε) σ α}

theorem Related.seen (h : Related R r r') : seen r = Method.seen r' := by
  cases h <;> rfl

theorem Related.after (h : Related R r r') : R (after r) (Method.after r') := by
  cases h with
  | ok h => exact h
  | error h => exact h

end Related

namespace Respects

theorem pure (a : α) : Respects R (Pure.pure a : Method ε σ α) := fun _ _ h => .ok h

theorem fail (e : ε) : Respects R (Method.fail e : Method ε σ α) := fun _ _ h => .error h

theorem ofExcept (r : Except ε α) : Respects R (Method.ofExcept r) := by
  cases r with
  | ok a => exact pure a
  | error e => exact fail e

theorem bind (hx : Respects R x) (hf : ∀ a, Respects R (f a)) : Respects R (x >>= f) := by
  intro s t hst
  have h := hx s t hst
  rw [EStateM.run_bind, EStateM.run_bind]
  generalize x.run s = r at h
  generalize x.run t = r' at h
  cases h with
  | ok h => exact hf _ _ _ h
  | error h => exact .error h

theorem get_bind {g : σ → Method ε σ α} (hg : ∀ s t, R s t → g s = g t)
    (h : ∀ s, Respects R (g s)) : Respects R (MonadState.get >>= g) := by
  intro s t hst
  have hs := h s s t hst
  change Related R ((g s).run s) ((g t).run t)
  rwa [← hg s t hst]

theorem mapErr (hx : Respects R x) (g : ε → ε') : Respects R (Method.mapErr g x) := by
  intro s t hst
  have h := hx s t hst
  rw [run_mapErr, run_mapErr]
  generalize x.run s = r at h
  generalize x.run t = r' at h
  cases h with
  | ok h => exact .ok h
  | @error fault _ _ h => cases fault <;> exact .error h

theorem zoom {field : τ → σ} {setField : τ → σ → τ} (hx : Respects R x)
    (hfield : ∀ s t, S s t → R (field s) (field t))
    (hset : ∀ s t u v, S s t → R u v → S (setField s u) (setField t v)) :
    Respects S (Method.zoom field setField x) := by
  intro s t hst
  have h := hx _ _ (hfield s t hst)
  rw [run_zoom, run_zoom]
  generalize x.run (field s) = r at h
  generalize x.run (field t) = r' at h
  cases h with
  | ok h => exact .ok (hset s t _ _ hst h)
  | error h => exact .error (hset s t _ _ hst h)

end Respects

end ProjectMesh.Lib.Method
