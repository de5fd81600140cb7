import Mathlib.Logic.Function.Basic
import Mathlib.Logic.Relation
import ProjectMesh.Routing.RelayRun

namespace ProjectMesh.Routing

open ProjectMesh.Lib

variable {P : Primitives} {ι : Type}

inductive Travel (P : Primitives) (ι : Type) : Type
  | composed (node : ι) (envelope : Envelope P)
  | transmitted (sender receiver : ι) (envelope : Envelope P)

/-- Engines and the links between them, whatever they are: a frame may reach any node, under
any handle of its sender, any number of times, or never. -/
structure Network (P : Primitives) (ι : Type) where
  engine : ι → RelayEngine P
  /-- Every frame that was sent, with its sender. -/
  frames : List (ι × List UInt8)
  /-- Newest first. -/
  log : List (Travel P ι)

inductive NetworkEvent (P : Primitives) (ι : Type) : Type
  | connected (node : ι) (peer : UInt64)
  | lost (node : ι) (peer : UInt64)
  | compose (node : ι) (envelope : Envelope P) (now : UInt64)
  | setPuzzleDifficulty (node : ι) (difficultyBits : UInt8)
  | setRateLimits (node : ι) (limits : RateLimitConfig)
  /-- The `k`th frame arrives. -/
  | deliver (k : Nat) (receiver : ι) (fromPeer : UInt64) (now : UInt64)

def received (P : Primitives) (sender receiver : ι) (frame : List UInt8) : List (Travel P ι) :=
  match ContactMessage.fromBytes P frame with
  | .ok (.data envelope _) => [.transmitted sender receiver envelope]
  | _ => []

/-- The nodes a copy went through, the last first: each hands on one hop less than it got, from
the `budget` the first composed it with. -/
inductive Path (id : EnvelopeId) (budget : Nat) : List (Travel P ι) → List ι → Prop
  | composed {log node} {envelope : Envelope P} : envelope.id = id →
    envelope.ttlHops.toNat = budget → Path id budget (.composed node envelope :: log) [node]
  | transmitted {log sender receiver path} {envelope : Envelope P} : envelope.id = id →
    (sender :: path).length + envelope.ttlHops.toNat = budget →
    Path id budget log (sender :: path) →
    Path id budget (.transmitted sender receiver envelope :: log) (receiver :: sender :: path)
  | later {log path travel} : Path id budget log path → Path id budget (travel :: log) path

theorem Path.append {id : EnvelopeId} {budget : Nat} {log : List (Travel P ι)} {path : List ι}
    (h : Path id budget log path) (more : List (Travel P ι)) :
    Path id budget (more ++ log) path := by
  induction more with
  | nil => exact h
  | cons travel more ih => exact .later ih

theorem Path.budget_composed {id : EnvelopeId} {budget : Nat} {log : List (Travel P ι)}
    {path : List ι} (h : Path id budget log path) :
    ∃ node envelope, .composed node envelope ∈ log ∧ envelope.id = id ∧
      envelope.ttlHops.toNat = budget := by
  induction h with
  | composed hid hbudget => exact ⟨_, _, List.mem_cons_self .., hid, hbudget⟩
  | transmitted _ _ _ ih | later _ ih =>
    obtain ⟨node, envelope, hmem, h⟩ := ih
    exact ⟨node, envelope, List.mem_cons_of_mem _ hmem, h⟩

section Carried

variable {node receiver : ι} {envelope source : Envelope P} {log more : List (Travel P ι)}

/-- A copy the node has: it has hops left, and came over a path of as many transmissions as
its hops are short of the budget. -/
def Carried (log : List (Travel P ι)) (node : ι) (envelope : Envelope P) : Prop :=
  1 ≤ envelope.ttlHops.toNat ∧ ∃ budget path, Path envelope.id budget log (node :: path) ∧
    path.length + envelope.ttlHops.toNat = budget

def Sent (log : List (Travel P ι)) (node : ι) (envelope : Envelope P) : Prop :=
  1 ≤ envelope.ttlHops.toNat ∧ ∃ budget path, Path envelope.id budget log (node :: path) ∧
    path.length + 1 + envelope.ttlHops.toNat = budget

theorem Carried.append (h : Carried log node envelope) : Carried (more ++ log) node envelope := by
  obtain ⟨httl, budget, path, hpath, hlen⟩ := h
  exact ⟨httl, budget, path, hpath.append more, hlen⟩

theorem Sent.append (h : Sent log node envelope) : Sent (more ++ log) node envelope := by
  obtain ⟨httl, budget, path, hpath, hlen⟩ := h
  exact ⟨httl, budget, path, hpath.append more, hlen⟩

theorem Carried.sent (h : Carried log node source)
    (hdec : decrementTtl source = some envelope) : Sent log node envelope := by
  obtain ⟨-, budget, path, hpath, hlen⟩ := h
  obtain ⟨httl, hpos⟩ := ttlHops_decrementTtl hdec
  refine ⟨hpos, budget, path, id_decrementTtl hdec ▸ hpath, ?_⟩
  omega

theorem Sent.carried (h : Sent log node envelope) :
    Carried (.transmitted node receiver envelope :: log) receiver envelope := by
  obtain ⟨httl, budget, path, hpath, hlen⟩ := h
  exact ⟨httl, budget, node :: path, .transmitted rfl hlen hpath, hlen⟩

end Carried

variable [DecidableEq ι]

namespace Network

def call (w : Network P ι) (node : ι) (event : Event P) (travel : List (Travel P ι)) :
    Option (Network P ι) := do
  let (outbound, next) ← (w.engine node).act event
  return {
    engine := Function.update w.engine node next
    frames := w.frames ++ outbound.map fun o => (node, o.2)
    log := travel ++ w.log }

def act (w : Network P ι) : NetworkEvent P ι → Option (Network P ι)
  | .connected node peer => w.call node (.connected peer) []
  | .lost node peer => w.call node (.lost peer) []
  | .compose node envelope now => w.call node (.compose envelope now) [.composed node envelope]
  | .setPuzzleDifficulty node difficultyBits =>
    w.call node (.setPuzzleDifficulty difficultyBits) []
  | .setRateLimits node limits => w.call node (.setRateLimits limits) []
  | .deliver k receiver fromPeer now => do
    let (sender, frame) ← w.frames[k]?
    w.call receiver (.frame fromPeer frame now) (received P sender receiver frame)

def Step (w w' : Network P ι) : Prop := ∃ event, w.act event = some w'

def Initial (w : Network P ι) : Prop :=
  (∀ node, ∃ store : DurableStore P, w.engine node = .new store ∧
    ∀ id, store.memory.get id = none) ∧ w.frames = [] ∧ w.log = []

def Reachable (w : Network P ι) : Prop := ∃ w₀, Initial w₀ ∧ Relation.ReflTransGen Step w₀ w

end Network

namespace Network

variable {w w' : Network P ι} {node : ι} {travel : List (Travel P ι)} {event : Event P}

structure Bounded (w : Network P ι) : Prop where
  held : ∀ node envelope, (w.engine node).held.get envelope.id = some envelope →
    Carried w.log node envelope
  frames : ∀ node frame, (node, frame) ∈ w.frames → ∀ envelope nonce,
    ContactMessage.fromBytes P frame = .ok (.data envelope nonce) → Sent w.log node envelope

namespace Bounded

omit [DecidableEq ι] in
theorem initial (h : Initial w) : Bounded w where
  held node envelope hget := by
    obtain ⟨store, hnew, hempty⟩ := h.1 node
    rw [hnew] at hget
    have hnone : (RelayEngine.new store).held.get envelope.id = none := hempty _
    rw [hnone] at hget
    cases hget
  frames node frame hmem := by
    rw [h.2.1] at hmem
    cases hmem

theorem call (h : Bounded w)
    (hoffers : ∀ envelope, RelayEngine.Offers envelope event → envelope.ttlHops ≠ 0 →
      Carried (travel ++ w.log) node envelope)
    (hcall : w.call node event travel = some w') : Bounded w' := by
  simp only [Network.call, Option.bind_eq_bind, Option.bind_eq_some_iff] at hcall
  obtain ⟨⟨outbound, next⟩, hact, heq⟩ := hcall
  cases heq
  constructor
  · intro i envelope hget
    by_cases hi : i = node
    · subst hi
      simp only [Function.update_self] at hget
      rcases RelayEngine.held_act hact hget with hget | ⟨hoffer, httl⟩
      · exact (h.held i envelope hget).append
      · exact hoffers envelope hoffer httl
    · simp only [Function.update_of_ne hi] at hget
      exact (h.held i envelope hget).append
  · intro i frame hmem envelope nonce hparse
    rcases List.mem_append.mp hmem with hmem | hmem
    · exact (h.frames i frame hmem envelope nonce hparse).append
    · obtain ⟨⟨peer, frame'⟩, hout, heq⟩ := List.mem_map.mp hmem
      cases heq
      obtain ⟨source, hdec, hsource, -⟩ := RelayEngine.outbound_act hact hout hparse
      rcases hsource with hget | hoffer
      · exact (h.held node source hget).append.sent hdec
      · have hne : source.ttlHops ≠ 0 := fun hz => by
          have hle := (decrementTtl_eq_some_iff.mp hdec).1
          rw [hz] at hle
          exact absurd hle (by decide)
        exact (hoffers source hoffer hne).sent hdec

theorem step (h : Bounded w) (hstep : Step w w') : Bounded w' := by
  obtain ⟨event, hact⟩ := hstep
  cases event with
  | connected i peer | lost i peer | setPuzzleDifficulty i bits | setRateLimits i limits =>
    refine h.call ?_ hact
    rintro envelope ⟨⟩
  | compose i composed now =>
    refine h.call (fun envelope hoffer httl => ?_) hact
    cases hoffer
    have hpos : 1 ≤ composed.ttlHops.toNat := by
      have hne : composed.ttlHops.toNat ≠ 0 := fun hz => httl (UInt8.toNat_inj.mp hz)
      omega
    exact ⟨hpos, _, [], .composed rfl rfl, Nat.zero_add _⟩
  | deliver k receiver fromPeer now =>
    simp only [act, Option.bind_eq_bind, Option.bind_eq_some_iff] at hact
    obtain ⟨⟨sender, frame⟩, hk, hcall⟩ := hact
    refine h.call (fun envelope hoffer httl => ?_) hcall
    cases hoffer with
    | frame hparse =>
      have hsent := h.frames sender frame (List.mem_of_getElem? hk) envelope _ hparse
      rw [received, hparse]
      exact hsent.carried

theorem reachable (h : Reachable w) : Bounded w := by
  obtain ⟨w₀, hinit, hrun⟩ := h
  induction hrun with
  | refl => exact initial hinit
  | tail _ hstep ih => exact ih.step hstep

end Bounded

/-- The hop budget.  A copy that is held, or on its way from a node, has hops left; it came
over a path of exactly as many transmissions as its hops are short of the budget it was
composed with, and so of fewer than the largest budget. -/
theorem hop_budget (h : Reachable w) :
    (∀ node envelope, (w.engine node).held.get envelope.id = some envelope →
      1 ≤ envelope.ttlHops.toNat ∧ ∃ budget path,
        Path envelope.id budget w.log (node :: path) ∧
        path.length + envelope.ttlHops.toNat = budget ∧
        ∀ largest, (∀ i composed, .composed i composed ∈ w.log → composed.id = envelope.id →
          composed.ttlHops.toNat ≤ largest) → budget ≤ largest ∧ path.length ≤ largest - 1) ∧
    ∀ node frame, (node, frame) ∈ w.frames → ∀ envelope nonce,
      ContactMessage.fromBytes P frame = .ok (.data envelope nonce) →
      1 ≤ envelope.ttlHops.toNat ∧ ∃ budget path,
        Path envelope.id budget w.log (node :: path) ∧
        path.length + 1 + envelope.ttlHops.toNat = budget ∧
        ∀ largest, (∀ i composed, .composed i composed ∈ w.log → composed.id = envelope.id →
          composed.ttlHops.toNat ≤ largest) → budget ≤ largest := by
  have hbounded := Bounded.reachable h
  have hle : ∀ {id budget} {path : List ι}, Path id budget w.log path → ∀ largest,
      (∀ i composed, .composed i composed ∈ w.log → composed.id = id →
        composed.ttlHops.toNat ≤ largest) → budget ≤ largest := by
    intro id budget path hpath largest hlargest
    obtain ⟨i, composed, hmem, hid, hbudget⟩ := hpath.budget_composed
    exact hbudget ▸ hlargest i composed hmem hid
  constructor
  · intro node envelope hget
    obtain ⟨httl, budget, path, hpath, hlen⟩ := hbounded.held node envelope hget
    refine ⟨httl, budget, path, hpath, hlen, fun largest hlargest => ?_⟩
    have := hle hpath largest hlargest
    exact ⟨this, by omega⟩
  · intro node frame hmem envelope nonce hparse
    obtain ⟨httl, budget, path, hpath, hlen⟩ :=
      hbounded.frames node frame hmem envelope nonce hparse
    exact ⟨httl, budget, path, hpath, hlen, hle hpath⟩

section Examples

def run (w : Network P ι) : List (NetworkEvent P ι) → Option (Network P ι)
  | [] => some w
  | event :: events => do (← w.act event).run events

theorem reflTransGen_of_run {w w' : Network P ι} {events : List (NetworkEvent P ι)}
    (h : w.run events = some w') : Relation.ReflTransGen Step w w' := by
  induction events generalizing w with
  | nil =>
    cases h
    exact .refl
  | cons event events ih =>
    simp only [run, Option.bind_eq_bind, Option.bind_eq_some_iff] at h
    obtain ⟨next, hact, hrun⟩ := h
    exact .head ⟨event, hact⟩ (ih hrun)

def toyNetwork : Network toyPrimitives Bool where
  engine _ := .new toyStore
  frames := []
  log := []

def toyNetworkEvents : List (NetworkEvent toyPrimitives Bool) :=
  [.connected false 7, .compose false (toyEnvelope 3) 0, .deliver 1 true 9 1]

def toyNetworkAfter : Network toyPrimitives Bool :=
  (toyNetwork.run toyNetworkEvents).getD toyNetwork

theorem reachable_toyNetworkAfter : Reachable toyNetworkAfter := by
  have hsome : (toyNetwork.run toyNetworkEvents).isSome := by decide
  obtain ⟨w, hw⟩ := Option.isSome_iff_exists.mp hsome
  rw [toyNetworkAfter, hw]
  exact ⟨toyNetwork, ⟨fun _ => ⟨toyStore, rfl, fun _ => rfl⟩, rfl, rfl⟩, reflTransGen_of_run hw⟩

theorem hop_budget_toyNetworkAfter :
    (toyNetworkAfter.engine true).held.get (toyEnvelope 2).id = some (toyEnvelope 2) ∧
      ∃ budget path, Path (toyEnvelope 2).id budget toyNetworkAfter.log (true :: path) ∧
        path.length + 2 = budget := by
  have hget : (toyNetworkAfter.engine true).held.get (toyEnvelope 2).id =
      some (toyEnvelope 2) := by decide
  obtain ⟨-, budget, path, hpath, hlen, -⟩ := (hop_budget reachable_toyNetworkAfter).1 true _ hget
  exact ⟨hget, budget, path, hpath, hlen⟩

end Examples

end Network

end ProjectMesh.Routing
