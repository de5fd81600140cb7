import ProjectMesh.Lib.Method

namespace ProjectMesh.Lib.Method

variable {σ ε α β : Type} {P P' : σ → Prop} {Q Q' : α → σ → Prop} {R : β → σ → Prop}
  {E E' I : σ → Prop} {x : Method ε σ α} {f : α → Method ε σ β}

/-- Where `P` holds before a call, `Q` holds after it returns a value, and `E` after an
error or a panic. -/
def Triple (P : σ → Prop) (x : Method ε σ α) (Q : α → σ → Prop) (E : σ → Prop) : Prop :=
  ∀ s, P s →
    match x.run s with
    | .ok a t => Q a t
    | .error _ t => E t

theorem Triple.pure {a : α} (h : ∀ s, P s → Q a s) :
    Triple P (Pure.pure a : Method ε σ α) Q E := h

theorem Triple.bind (hx : Triple P x Q E) (hf : ∀ a, Triple (Q a) (f a) R E) :
    Triple P (x >>= f) R E := by
  intro s hs
  have h := hx s hs
  rw [EStateM.run_bind]
  cases hrun : x.run s with
  | ok a t =>
    rw [hrun] at h
    exact hf a t h
  | error e t =>
    rw [hrun] at h
    exact h

theorem Triple.mono (h : Triple P x Q E) (hP : ∀ s, P' s → P s) (hQ : ∀ a s, Q a s → Q' a s)
    (hE : ∀ s, E s → E' s) : Triple P' x Q' E' := by
  intro s hs
  have h := h s (hP s hs)
  cases hrun : x.run s with
  | ok a t =>
    rw [hrun] at h
    exact hQ a t h
  | error e t =>
    rw [hrun] at h
    exact hE t h

theorem Triple.get {Q : σ → σ → Prop} (h : ∀ s, P s → Q s s) :
    Triple P (get : Method ε σ σ) Q E := h

theorem Triple.set {t : σ} {Q : PUnit → σ → Prop} (h : ∀ s, P s → Q ⟨⟩ t) :
    Triple P (set t : Method ε σ PUnit) Q E := h

theorem Triple.modify {g : σ → σ} {Q : PUnit → σ → Prop} (h : ∀ s, P s → Q ⟨⟩ (g s)) :
    Triple P (modify g : Method ε σ PUnit) Q E := h

theorem Triple.fail {e : ε} (h : ∀ s, P s → E s) :
    Triple P (Method.fail e : Method ε σ α) Q E := h

theorem Triple.halt (h : ∀ s, P s → E s) : Triple P (Method.halt : Method ε σ α) Q E := h

theorem Triple.okOr {o : Option α} {e : ε} (hsome : ∀ a, o = some a → ∀ s, P s → Q a s)
    (hnone : ∀ s, P s → E s) : Triple P (Method.okOr o e) Q E := by
  cases o with
  | none => exact Triple.fail hnone
  | some a => exact Triple.pure (hsome a rfl)

theorem Triple.ofExcept {r : Except ε α} (hok : ∀ a, r = .ok a → ∀ s, P s → Q a s)
    (herror : ∀ s, P s → E s) : Triple P (Method.ofExcept r) Q E := by
  cases r with
  | error e => exact Triple.fail herror
  | ok a => exact Triple.pure (hok a rfl)

theorem Triple.succ32 {n : Nat} {overflow : Overflow} {Q : Nat → σ → Prop}
    (hok : ∀ m s, P s → Q m s) (hpanic : ∀ s, P s → E s) :
    Triple P (Method.succ32 n overflow : Method ε σ Nat) Q E := by
  rw [Method.succ32.eq_def]
  split
  · exact Triple.pure (hok _)
  · cases overflow with
    | checked => exact Triple.halt hpanic
    | wrapping => exact Triple.pure (hok 0)

theorem Triple.succ32_of_lt {n : Nat} {overflow : Overflow} {Q : Nat → σ → Prop}
    (hn : n + 1 < 2 ^ 32) (hok : ∀ s, P s → Q (n + 1) s) :
    Triple P (Method.succ32 n overflow : Method ε σ Nat) Q E := by
  rw [Method.succ32.eq_def, if_pos hn]
  exact Triple.pure hok

theorem Triple.zoom {τ : Type} {field : τ → σ} {setField : τ → σ → τ} {J : τ → Prop}
    (hx : Triple I x (fun _ => I) I) (hfield : ∀ t, J t → I (field t))
    (hset : ∀ t s, J t → I s → J (setField t s)) :
    Triple J (Method.zoom field setField x) (fun _ => J) J := by
  intro t ht
  have h := hx (field t) (hfield t ht)
  rw [run_zoom]
  cases hrun : x.run (field t) with
  | ok a s =>
    rw [hrun] at h
    exact hset t s ht h
  | error e s =>
    rw [hrun] at h
    exact hset t s ht h

theorem Triple.after {s : σ} (h : Triple P x (fun _ => I) I) (hs : P s) :
    I (Method.after (x.run s)) := by
  have h := h s hs
  cases hrun : x.run s with
  | ok a t =>
    rw [hrun] at h
    exact h
  | error e t =>
    rw [hrun] at h
    exact h

theorem Triple.of_after (h : ∀ s, P s → I (Method.after (x.run s))) :
    Triple P x (fun _ => I) I := by
  intro s hs
  have h := h s hs
  cases hrun : x.run s with
  | ok a t =>
    rw [hrun] at h
    exact h
  | error e t =>
    rw [hrun] at h
    exact h

end ProjectMesh.Lib.Method
