import Mathlib.Data.List.Perm.Subperm
import Mathlib.Logic.Relation

universe u

namespace ProjectMesh.Lib

open Relation

variable {α : Type u} {Step : α → α → Prop} {a b c root : α} {held held' used : List α}

/-- Steps that each show what they were taken from, and never lead back. -/
structure Forest (Step : α → α → Prop) : Prop where
  unique : ∀ {a b c}, Step a c → Step b c → a = b
  acyclic : ∀ a, ¬ TransGen Step a a

/-- No steps lead from one to the other. -/
def Apart (Step : α → α → Prop) (a b : α) : Prop :=
  ¬ ReflTransGen Step a b ∧ ¬ ReflTransGen Step b a

namespace Forest

theorem of_height (height : α → Nat) (hunique : ∀ {a b c}, Step a c → Step b c → a = b)
    (hlt : ∀ {a b}, Step a b → height a < height b) : Forest Step where
  unique := hunique
  acyclic a h := by
    have hup : ∀ {b}, TransGen Step a b → height a < height b := by
      intro b hab
      induction hab with
      | single hstep => exact hlt hstep
      | tail _ hstep ih => exact Nat.lt_trans ih (hlt hstep)
    exact Nat.lt_irrefl _ (hup h)

theorem comparable (hF : Forest Step) (hac : ReflTransGen Step a c)
    (hbc : ReflTransGen Step b c) : ReflTransGen Step a b ∨ ReflTransGen Step b a := by
  have hright : Relator.RightUnique (Function.swap Step) := fun _ _ _ h h' => hF.unique h h'
  have hca := reflTransGen_swap.mpr hac
  have hcb := reflTransGen_swap.mpr hbc
  rcases ReflTransGen.total_of_right_unique hright hca hcb with h | h
  · exact .inr (reflTransGen_swap.mp h)
  · exact .inl (reflTransGen_swap.mp h)

theorem not_reached_back (hF : Forest Step) (hab : Step a b) : ¬ ReflTransGen Step b a :=
  fun hba => hF.acyclic b (TransGen.tail' hba hab)

theorem apart_children (hF : Forest Step) (hb : Step a b) (hc : Step a c) (hne : b ≠ c) :
    Apart Step b c := by
  have hnot : ∀ {b c}, Step a b → Step a c → b ≠ c → ¬ ReflTransGen Step b c := by
    intro b c hb hc hne hbc
    rcases hbc.cases_tail with heq | ⟨d, hbd, hdc⟩
    · exact hne heq.symm
    · rw [hF.unique hdc hc] at hbd
      exact hF.not_reached_back hb hbd
  exact ⟨hnot hb hc hne, hnot hc hb hne.symm⟩

end Forest

theorem Apart.symm (h : Apart Step a b) : Apart Step b a := h.imp id id |>.symm

theorem Apart.descend (hF : Forest Step) (h : Apart Step a b) (hac : ReflTransGen Step a c) :
    Apart Step c b := by
  refine ⟨fun hcb => h.1 (hac.trans hcb), fun hbc => ?_⟩
  rcases hF.comparable hac hbc with hab | hba
  · exact h.1 hab
  · exact h.2 hba

/-- A party that forgets: it holds some nodes, and what it has used comes from none of them.
All come from one root. -/
structure Spent (Step : α → α → Prop) (root : α) (held used : List α) : Prop where
  apart : held.Pairwise (Apart Step)
  fromRoot : ∀ a ∈ held, ReflTransGen Step root a
  usedFromRoot : ∀ u ∈ used, ReflTransGen Step root u
  gone : ∀ a ∈ held, ∀ u ∈ used, ¬ ReflTransGen Step a u

namespace Spent

theorem start (root : α) : Spent Step root [root] [] where
  apart := List.pairwise_singleton _ _
  fromRoot a ha := by rw [List.mem_singleton.mp ha]
  usedFromRoot u hu := absurd hu List.not_mem_nil
  gone a _ u hu := absurd hu List.not_mem_nil

theorem subperm (h : Spent Step root held used) (hsub : held'.Subperm held) :
    Spent Step root held' used where
  apart := by
    obtain ⟨l, hperm, hl⟩ := hsub
    exact (hperm.pairwise_iff fun hab => hab.symm).mp (h.apart.sublist hl)
  fromRoot a ha := h.fromRoot a (hsub.subset ha)
  usedFromRoot := h.usedFromRoot
  gone a ha := h.gone a (hsub.subset ha)

theorem of_count [DecidableEq α] (h : Spent Step root held used)
    (hle : ∀ a, held'.count a ≤ held.count a) : Spent Step root held' used :=
  h.subperm (List.subperm_ext_iff.mpr fun a _ => hle a)

theorem advance (hF : Forest Step) (h : Spent Step root (a :: held) used)
    (hab : ReflTransGen Step a b) : Spent Step root (b :: held) used where
  apart := by
    obtain ⟨ha, hheld⟩ := List.pairwise_cons.mp h.apart
    exact List.pairwise_cons.mpr ⟨fun c hc => (ha c hc).descend hF hab, hheld⟩
  fromRoot c hc := by
    rcases List.mem_cons.mp hc with rfl | hc
    · exact (h.fromRoot a List.mem_cons_self).trans hab
    · exact h.fromRoot c (List.mem_cons_of_mem _ hc)
  usedFromRoot := h.usedFromRoot
  gone c hc u hu := by
    rcases List.mem_cons.mp hc with rfl | hc
    · exact fun hcu => h.gone a List.mem_cons_self u hu (hab.trans hcu)
    · exact h.gone c (List.mem_cons_of_mem _ hc) u hu

theorem branch (hF : Forest Step) (h : Spent Step root (a :: held) used) (hb : Step a b)
    (hc : Step a c) (hne : b ≠ c) : Spent Step root (b :: c :: held) used where
  apart := by
    have hcheld := (h.advance hF (.single hc)).apart
    have hbheld := (h.advance hF (.single hb)).apart
    refine List.pairwise_cons.mpr ⟨fun d hd => ?_, hcheld⟩
    rcases List.mem_cons.mp hd with rfl | hd
    · exact hF.apart_children hb hc hne
    · exact (List.pairwise_cons.mp hbheld).1 d hd
  fromRoot d hd := by
    rcases List.mem_cons.mp hd with rfl | hd
    · exact (h.fromRoot a List.mem_cons_self).tail hb
    · exact (h.advance hF (.single hc)).fromRoot d hd
  usedFromRoot := h.usedFromRoot
  gone d hd := by
    rcases List.mem_cons.mp hd with rfl | hd
    · exact (h.advance hF (.single hb)).gone d List.mem_cons_self
    · exact (h.advance hF (.single hc)).gone d hd

theorem use (h : Spent Step root (a :: held) used) : Spent Step root held (a :: used) where
  apart := (List.pairwise_cons.mp h.apart).2
  fromRoot b hb := h.fromRoot b (List.mem_cons_of_mem _ hb)
  usedFromRoot u hu := by
    rcases List.mem_cons.mp hu with rfl | hu
    · exact h.fromRoot u List.mem_cons_self
    · exact h.usedFromRoot u hu
  gone b hb u hu := by
    rcases List.mem_cons.mp hu with rfl | hu
    · exact ((List.pairwise_cons.mp h.apart).1 b hb).2
    · exact h.gone b (List.mem_cons_of_mem _ hb) u hu

/-- What has been used comes from nothing that is held, and from nothing apart from the
root. -/
theorem not_reached (hF : Forest Step) (h : Spent Step root held used) (hu : b ∈ used)
    (ha : a ∈ held ∨ Apart Step root a) : ¬ ReflTransGen Step a b := by
  rcases ha with ha | ha
  · exact h.gone a ha b hu
  · intro hab
    rcases hF.comparable (h.usedFromRoot b hu) hab with h' | h'
    · exact ha.1 h'
    · exact ha.2 h'

end Spent

end ProjectMesh.Lib
