import Mathlib.Data.List.Basic

universe u v w x

namespace ProjectMesh.Lib

variable {σ : Type u} {ε : Type v} {ν : Type w} {ω : Type x}

structure Observer (ε : Type v) (ν : Type w) (ω : Type x) where
  sees : ε → Bool
  after : ν → ε → ν
  output : ν → ε → Option ω
  after_unseen : ∀ view event, sees event = false → after view event = view
  output_unseen : ∀ view event, sees event = false → output view event = none

namespace Observer

variable {o : Observer ε ν ω} {view : ν} {event : ε} {events events' : List ε}

def run (o : Observer ε ν ω) : ν → List ε → List ω
  | _, [] => []
  | view, event :: events => (o.output view event).toList ++ o.run (o.after view event) events

theorem run_filter (o : Observer ε ν ω) (view : ν) (events : List ε) :
    o.run view (events.filter o.sees) = o.run view events := by
  induction events generalizing view with
  | nil => rfl
  | cons event events ih =>
    cases h : o.sees event with
    | true => rw [List.filter_cons_of_pos h, run, run, ih]
    | false =>
      rw [List.filter_cons_of_neg (Bool.eq_false_iff.mp h), run, o.after_unseen view event h,
        o.output_unseen view event h, ih]
      rfl

theorem run_congr (view : ν) (h : events.filter o.sees = events'.filter o.sees) :
    o.run view events = o.run view events' := by
  rw [← run_filter o view events, h, run_filter]

end Observer

end ProjectMesh.Lib
