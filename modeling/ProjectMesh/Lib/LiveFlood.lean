import Mathlib.Data.Set.Card
import Mathlib.Logic.Relation

namespace ProjectMesh.Lib.LiveFlood

open Relation

variable {ν π : Type}

/-- What the ports of the nodes are linked to: each to one that is linked back to it. -/
structure Links (ν π : Type) where
  route : ν → π → Option (ν × π)
  symm : ∀ {a p b q}, route a p = some (b, q) → route b q = some (a, p)
  up : ν → Set π

def Links.Joined (links : Links ν π) (a b : ν) : Prop :=
  ∃ p ∈ links.up a, ∃ q, links.route a p = some (b, q)

structure Parcel (ν π : Type) where
  receiver : ν
  port : π
  hops : Nat

structure Flow (ν π : Type) where
  copy : ν → Option Nat
  inFlight : Set (Parcel ν π)

def Flow.holders (f : Flow ν π) : Set ν := {node | (f.copy node).isSome}

theorem Flow.mem_holders {f : Flow ν π} {node : ν} : node ∈ f.holders ↔ (f.copy node).isSome :=
  Iff.rfl

/-- The node sends a copy with so many hops over the ports that are up, but for some. -/
def Links.Floods (links : Links ν π) (node : ν) (hops : Nat) (except : Set π)
    (inFlight : Set (Parcel ν π)) : Prop :=
  2 ≤ hops → ∀ p ∈ links.up node, p ∉ except → ∀ b q, links.route node p = some (b, q) →
    ⟨b, q, hops - 1⟩ ∈ inFlight

/-- What may happen: copies stay, who gets one floods it but for where it came from, what has
arrived was taken in or was there already, and what is sent is one hop less of a copy. -/
structure Step (links : Links ν π) (f f' : Flow ν π) : Prop where
  kept : ∀ {node hops}, f.copy node = some hops → f'.copy node = some hops
  fresh : ∀ {node hops}, f.copy node = none → f'.copy node = some hops →
    ∃ port, ⟨node, port, hops⟩ ∈ f.inFlight ∧ links.Floods node hops {port} f'.inFlight
  arrived : ∀ parcel ∈ f.inFlight, parcel ∉ f'.inFlight → 1 ≤ parcel.hops →
    (f'.copy parcel.receiver).isSome
  sent : ∀ parcel ∈ f'.inFlight, parcel ∉ f.inFlight → 1 ≤ parcel.hops ∧
    ∃ node p, f'.copy node = some (parcel.hops + 1) ∧
      links.route node p = some (parcel.receiver, parcel.port)

/-- Hops that are gone were spent on nodes that have a copy, and who could flood has. -/
structure Spread (links : Links ν π) (budget : Nat) (f : Flow ν π) : Prop where
  held : ∀ {node hops}, f.copy node = some hops → 1 ≤ hops ∧ budget + 1 ≤ hops + f.holders.ncard
  flying : ∀ parcel ∈ f.inFlight, 1 ≤ parcel.hops ∧ budget ≤ parcel.hops + f.holders.ncard ∧
    ∃ node p, links.route node p = some (parcel.receiver, parcel.port) ∧ (f.copy node).isSome
  covered : ∀ {node hops p b q}, f.copy node = some hops → 2 ≤ hops → p ∈ links.up node →
    links.route node p = some (b, q) →
    (f.copy b).isSome ∨ ∃ parcel ∈ f.inFlight, parcel.receiver = b

section Step

variable {links : Links ν π} {f f' : Flow ν π} {budget : Nat}

theorem Step.isSome (h : Step links f f') {node : ν} (hcopy : (f.copy node).isSome) :
    (f'.copy node).isSome := by
  obtain ⟨hops, hhops⟩ := Option.isSome_iff_exists.mp hcopy
  rw [h.kept hhops, Option.isSome_some]

theorem Step.run_isSome (h : ReflTransGen (Step links) f f') {node : ν}
    (hcopy : (f.copy node).isSome) : (f'.copy node).isSome := by
  induction h with
  | refl => exact hcopy
  | tail _ hstep ih => exact hstep.isSome ih

theorem Step.holders_subset (h : Step links f f') : f.holders ⊆ f'.holders := fun _ => h.isSome

theorem Step.ncard_fresh [Finite ν] (h : Step links f f') {node : ν} (hnone : f.copy node = none)
    (hsome : (f'.copy node).isSome) : f.holders.ncard + 1 ≤ f'.holders.ncard := by
  have hmem : node ∉ f.holders := by
    rw [Flow.mem_holders, hnone]
    exact Bool.false_ne_true
  rw [← Set.ncard_insert_of_notMem hmem (Set.toFinite _)]
  exact Set.ncard_le_ncard (Set.insert_subset hsome h.holders_subset) (Set.toFinite _)

theorem Spread.held_step [Finite ν] (hspread : Spread links budget f) (h : Step links f f')
    {node : ν} {hops : Nat} (hcopy : f'.copy node = some hops) :
    1 ≤ hops ∧ budget + 1 ≤ hops + f'.holders.ncard := by
  cases hbefore : f.copy node with
  | some before =>
    cases (h.kept hbefore).symm.trans hcopy
    obtain ⟨hpos, hle⟩ := hspread.held hbefore
    have hmono := Set.ncard_le_ncard h.holders_subset (Set.toFinite _)
    omega
  | none =>
    obtain ⟨port, hparcel, -⟩ := h.fresh hbefore hcopy
    obtain ⟨hpos, hle, -⟩ := hspread.flying _ hparcel
    have hmore := h.ncard_fresh hbefore (by rw [hcopy, Option.isSome_some])
    dsimp only at hpos hle
    omega

theorem Spread.flying_step [Finite ν] (hspread : Spread links budget f) (h : Step links f f')
    {parcel : Parcel ν π} (hparcel : parcel ∈ f'.inFlight) :
    1 ≤ parcel.hops ∧ budget ≤ parcel.hops + f'.holders.ncard ∧
      ∃ node p, links.route node p = some (parcel.receiver, parcel.port) ∧
        (f'.copy node).isSome := by
  by_cases hbefore : parcel ∈ f.inFlight
  · obtain ⟨hpos, hle, node, p, hroute, hsome⟩ := hspread.flying parcel hbefore
    have hmono := Set.ncard_le_ncard h.holders_subset (Set.toFinite _)
    exact ⟨hpos, by omega, node, p, hroute, h.isSome hsome⟩
  · obtain ⟨hpos, node, p, hcopy, hroute⟩ := h.sent parcel hparcel hbefore
    have hle := (hspread.held_step h hcopy).2
    exact ⟨hpos, by omega, node, p, hroute, by rw [hcopy, Option.isSome_some]⟩

theorem Spread.covered_step (hspread : Spread links budget f) (h : Step links f f')
    {node b : ν} {hops : Nat} {p q : π} (hcopy : f'.copy node = some hops) (hhops : 2 ≤ hops)
    (hup : p ∈ links.up node) (hroute : links.route node p = some (b, q)) :
    (f'.copy b).isSome ∨ ∃ parcel ∈ f'.inFlight, parcel.receiver = b := by
  cases hbefore : f.copy node with
  | some before =>
    cases (h.kept hbefore).symm.trans hcopy
    rcases hspread.covered hbefore hhops hup hroute with hsome | ⟨parcel, hparcel, rfl⟩
    · exact .inl (h.isSome hsome)
    · by_cases hstill : parcel ∈ f'.inFlight
      · exact .inr ⟨parcel, hstill, rfl⟩
      · exact .inl (h.arrived parcel hparcel hstill (hspread.flying parcel hparcel).1)
  | none =>
    obtain ⟨port, hparcel, hfloods⟩ := h.fresh hbefore hcopy
    by_cases hport : p = port
    · -- the copy came from there
      subst hport
      obtain ⟨-, -, sender, p', hroute', hsome⟩ := hspread.flying _ hparcel
      have hback := links.symm hroute'
      cases hroute.symm.trans hback
      exact .inl (h.isSome hsome)
    · exact .inr ⟨_, hfloods hhops p hup hport b q hroute, rfl⟩

theorem Spread.step [Finite ν] (hspread : Spread links budget f) (h : Step links f f') :
    Spread links budget f' where
  held := hspread.held_step h
  flying _ := hspread.flying_step h
  covered := hspread.covered_step h

theorem Spread.start {origin : ν} (horigin : f.copy origin = some budget)
    (hothers : ∀ node, node ≠ origin → f.copy node = none) (hbudget : 1 ≤ budget)
    (hfloods : links.Floods origin budget ∅ f.inFlight)
    (hsent : ∀ parcel ∈ f.inFlight, 1 ≤ parcel.hops ∧ parcel.hops + 1 = budget ∧
      ∃ p, links.route origin p = some (parcel.receiver, parcel.port)) :
    Spread links budget f := by
  have heq : ∀ {node hops}, f.copy node = some hops → node = origin ∧ hops = budget := by
    intro node hops h
    by_cases hnode : node = origin
    · subst hnode
      exact ⟨rfl, Option.some.inj (h.symm.trans horigin)⟩
    · rw [hothers node hnode] at h
      cases h
  have hholders : f.holders = {origin} := by
    ext node
    rw [Set.mem_singleton_iff, Flow.mem_holders]
    constructor
    · intro hsome
      obtain ⟨hops, hhops⟩ := Option.isSome_iff_exists.mp hsome
      exact (heq hhops).1
    · rintro rfl
      rw [horigin, Option.isSome_some]
  constructor
  · intro node hops h
    obtain ⟨-, rfl⟩ := heq h
    rw [hholders, Set.ncard_singleton]
    exact ⟨hbudget, Nat.le_refl _⟩
  · intro parcel hparcel
    obtain ⟨hpos, hhops, p, hroute⟩ := hsent parcel hparcel
    rw [hholders, Set.ncard_singleton]
    exact ⟨hpos, by omega, origin, p, hroute, by rw [horigin, Option.isSome_some]⟩
  · intro node hops p b q h hhops hup hroute
    obtain ⟨rfl, rfl⟩ := heq h
    exact .inr ⟨_, hfloods hhops p hup (Set.notMem_empty p) b q hroute, rfl⟩

theorem Spread.run [Finite ν] (hspread : Spread links budget f)
    (h : ReflTransGen (Step links) f f') : Spread links budget f' := by
  induction h with
  | refl => exact hspread
  | tail _ hstep ih => exact ih.step hstep

/-- When nothing is on its way any more, everyone linked to a holder has a copy, or as many as
there were hops have one. -/
theorem Spread.reaches (hspread : Spread links budget f) (hquiet : f.inFlight = ∅)
    {origin node : ν} (horigin : (f.copy origin).isSome)
    (hlinked : ReflTransGen links.Joined origin node) :
    (f.copy node).isSome ∨ budget ≤ f.holders.ncard := by
  induction hlinked with
  | refl => exact .inl horigin
  | @tail a b _ hjoined ih =>
    rcases ih with hsome | hmany
    · obtain ⟨hops, hhops⟩ := Option.isSome_iff_exists.mp hsome
      obtain ⟨hpos, hle⟩ := hspread.held hhops
      obtain ⟨p, hup, q, hroute⟩ := hjoined
      by_cases hspent : 2 ≤ hops
      · rcases hspread.covered hhops hspent hup hroute with hsome | ⟨parcel, hparcel, -⟩
        · exact .inl hsome
        · rw [hquiet] at hparcel
          cases hparcel
      · exact .inr (by omega)
    · exact .inr hmany

end Step

end ProjectMesh.Lib.LiveFlood
