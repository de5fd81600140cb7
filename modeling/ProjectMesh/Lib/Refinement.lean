import Mathlib.Data.List.Basic

universe u v w x

namespace ProjectMesh.Lib

variable {σ : Type u} {ν : Type v} {κ : Type w} {ω : Type x}

/-- The answers of a machine to calls one after another, and what they leave. -/
def transcript (step : σ → κ → ω × σ) : σ → List κ → List (κ × ω) × σ
  | s, [] => ([], s)
  | s, k :: ks =>
    let (answer, s') := step s k
    let (answers, s'') := transcript step s' ks
    ((k, answer) :: answers, s'')

/-- Calls and answers that a specification allows, one after another. -/
inductive Serves (serve : ν → κ → ω → ν → Prop) : ν → List (κ × ω) → ν → Prop
  | nil {v} : Serves serve v [] v
  | cons {v k answer v' answers v''} : serve v k answer v' → Serves serve v' answers v'' →
    Serves serve v ((k, answer) :: answers) v''

/-- From related states every call is answered as specified, and leaves related states. -/
def Refines (step : σ → κ → ω × σ) (serve : ν → κ → ω → ν → Prop) (R : σ → ν → Prop) : Prop :=
  ∀ s v k, R s v → ∃ v', serve v k (step s k).1 v' ∧ R (step s k).2 v'

variable {step : σ → κ → ω × σ} {serve : ν → κ → ω → ν → Prop} {R : σ → ν → Prop} {s : σ} {v : ν}

theorem Refines.transcript (h : Refines step serve R) (hs : R s v) (ks : List κ) :
    ∃ v', Serves serve v (Lib.transcript step s ks).1 v' ∧ R (Lib.transcript step s ks).2 v' := by
  induction ks generalizing s v with
  | nil => exact ⟨v, .nil, hs⟩
  | cons k ks ih =>
    obtain ⟨v', hserve, hs'⟩ := h s v k hs
    obtain ⟨v'', hserves, hs''⟩ := ih hs'
    exact ⟨v'', .cons hserve hserves, hs''⟩

end ProjectMesh.Lib
