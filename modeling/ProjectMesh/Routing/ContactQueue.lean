import ProjectMesh.Routing.DeadTraffic
import ProjectMesh.Routing.DtnDelivery
import ProjectMesh.Routing.RateCap

namespace ProjectMesh.Routing

open ProjectMesh.Lib

variable {P : Primitives} {n : Nat}

section Disk

open EncryptedStore

theorem sound_put (x : Envelope P) : Method.Triple Sound (put P x) (fun _ => Sound) Sound := by
  intro s hs
  cases hseal : s.sealing x with
  | ok sealed =>
    rw [hs.put_run hseal]
    exact sound_holding
  | error err =>
    rw [put_unsealed hseal]
    exact hs.drawn

theorem sound_remove (id : EnvelopeId) :
    Method.Triple Sound (remove id) (fun _ => Sound) Sound := by
  intro s hs
  rw [hs.remove_run]
  exact sound_holding

def DurableStore.Sound (d : DurableStore P) : Prop := d.disk.Sound

theorem sound_onDisk {α : Type} {m : Method MeshError EncryptedStore α}
    (h : Method.Triple Sound m (fun _ => Sound) Sound) :
    Method.Triple DurableStore.Sound (DurableStore.onDisk m : Method MeshError (DurableStore P) α)
      (fun _ => DurableStore.Sound) DurableStore.Sound :=
  h.zoom (fun _ hd => hd) fun _ _ _ hdisk => hdisk

theorem sound_accept (x : Envelope P) (now : UInt64) :
    Method.Triple DurableStore.Sound (DurableStore.accept x now) (fun _ => DurableStore.Sound)
      DurableStore.Sound := by
  have hput : ∀ outcome, Method.Triple DurableStore.Sound (if outcome = Accept.new then do
      DurableStore.onDisk (put P x)
      pure outcome
    else pure outcome : Method MeshError (DurableStore P) Accept) (fun _ => DurableStore.Sound)
      DurableStore.Sound := by
    intro outcome
    split
    · exact (sound_onDisk (sound_put x)).bind fun _ => .pure fun _ h => h
    · exact .pure fun _ h => h
  refine Method.Triple.bind (.get (Q := fun self _ => self.Sound) fun _ h => h) fun self => ?_
  obtain ⟨⟨⟨outcome, evicted⟩, memory⟩, hresult⟩ :
    ∃ result, self.memory.accept x now = result := ⟨_, rfl⟩
  simp only [hresult]
  refine Method.Triple.bind (Q := fun _ => DurableStore.Sound) (.set fun _ h => h) fun _ => ?_
  cases evicted with
  | none => exact hput outcome
  | some victim => exact (sound_onDisk (sound_remove victim)).bind fun _ => hput outcome

theorem sound_composeLocal (x : Envelope P) (now : UInt64) :
    Method.Triple RelayEngine.Sound (RelayEngine.composeLocal x now) (fun _ => RelayEngine.Sound)
      RelayEngine.Sound := by
  intro e he
  have haccept := sound_accept x now e.store he
  cases hsolve : Puzzle.solve P x.id e.puzzleDifficultyBits with
  | none =>
    rw [RelayEngine.composeLocal_unsolvable hsolve]
    exact he
  | some nonce =>
    cases hrun : (DurableStore.accept x now).run e.store with
    | ok outcome store =>
      rw [hrun] at haccept
      rw [RelayEngine.composeLocal_ok hsolve hrun]
      exact haccept
    | error fault store =>
      rw [hrun] at haccept
      rw [RelayEngine.composeLocal_error hsolve hrun]
      exact haccept

end Disk

structure Ready (e : RelayEngine P) : Prop extends Idle e where
  bounded : e.held.Bounded
  sound : e.Sound

structure Engaged (peer : UInt64) (e : RelayEngine P) : Prop where
  alone : ∀ p, p ≠ peer → e.peers.lookup p = none
  summarySent : (e.peerState peer).summarySent = true
  difficulty : e.puzzleDifficultyBits = 0
  rateLimit : e.rateLimit = .default
  capacity : e.held.capacity = 1000
  hops : ∀ id x, e.held.get id = some x → x.ttlHops ≠ 0
  bounded : e.held.Bounded
  sound : e.Sound

/-- A store after a frame came to it from a peer, and the limiter of that peer. -/
def Store.takeFrame (now : UInt64) (frame : List UInt8) (rate : RateLimiter) (s : Store P) :
    RateLimiter × Store P :=
  match ContactMessage.fromBytes P frame with
  | .ok (.data x _) =>
    let (allowed, rate) := rate.allow now frame.length .default
    (rate, if allowed then (s.accept x now).2 else s)
  | _ => (rate, s)

def Store.takeFrames (now : UInt64) : List (List UInt8) → RateLimiter → Store P → Store P
  | [], _, s => s
  | frame :: frames, rate, s =>
    let (rate, s) := s.takeFrame now frame rate
    s.takeFrames now frames rate

def Store.gives (s : Store P) (filter : BloomFilter) : List (Envelope P) :=
  (s.missingFromBloom filter).filterMap decrementTtl

namespace RelayEngine

def takeIn (peer now : UInt64) (frames : List (List UInt8)) (e : RelayEngine P) : RelayEngine P :=
  frames.foldl (fun e frame => Method.after ((onFrame peer frame now).run e)) e

end RelayEngine

section Engaged

open RelayEngine

variable {e next : RelayEngine P} {peer now : UInt64} {x : Envelope P} {filter : BloomFilter}
  {frames : List (List UInt8)}

theorem Ready.connected (h : Ready e) (peer : UInt64) :
    Engaged peer (e.onPeerConnected peer).2 where
  alone p hp := (Assoc.lookup_insert_of_ne hp).trans (h.peers p)
  summarySent := by simp [RelayEngine.onPeerConnected, PeerState.new]
  difficulty := h.difficulty
  rateLimit := h.rateLimit
  capacity := h.capacity
  hops := h.hops
  bounded := h.bounded
  sound := h.sound

theorem Engaged.lost (h : Engaged peer e) : Ready (e.onPeerLost peer) where
  peers := lookup_onPeerLost h.alone
  difficulty := h.difficulty
  rateLimit := h.rateLimit
  capacity := h.capacity
  hops := h.hops
  bounded := h.bounded
  sound := h.sound

theorem Engaged.charged (h : Engaged peer e) (now : UInt64) (size : Nat) :
    Engaged peer (e.charged peer now size) where
  alone p hp := (lookup_charged_of_ne hp).trans (h.alone p hp)
  summarySent := summarySent_charged.trans h.summarySent
  difficulty := h.difficulty
  rateLimit := h.rateLimit
  capacity := h.capacity
  hops := h.hops
  bounded := h.bounded
  sound := h.sound

theorem Engaged.offer (h : Engaged peer e) {disk : EncryptedStore} (hdisk : disk.Sound)
    (now : UInt64) (x : Envelope P) : Engaged peer (e.offer now x disk) where
  alone := h.alone
  summarySent := h.summarySent
  difficulty := h.difficulty
  rateLimit := h.rateLimit
  capacity := (Store.accept_offered e.held x now).capacity_eq.trans h.capacity
  hops id y hy := by
    rcases held_offer_cases hy with hy | ⟨rfl, hne⟩
    · exact h.hops id y hy
    · exact hne
  bounded := h.bounded.accept x now
  sound := hdisk

theorem fromBytes_dataFrame (h : x.Sendable) :
    ContactMessage.fromBytes P (dataFrame 0 x) = .ok (.data x 0) := by
  rw [dataFrame, Puzzle.solve_zero, Option.getD_some]
  exact ContactMessage.fromBytes_data (fits_data_iff.mpr h)

theorem takeFrame_dataFrame (hx : x.Sendable) (now : UInt64) (rate : RateLimiter) (s : Store P) :
    s.takeFrame now (dataFrame 0 x) rate =
      ((rate.allow now (dataFrame 0 x).length .default).2,
        if (rate.allow now (dataFrame 0 x).length .default).1 then (s.accept x now).2 else s) := by
  rw [Store.takeFrame, fromBytes_dataFrame hx]

theorem Engaged.onData (h : Engaged peer e) (hencrypts : P.Encrypts) (hx : x.Sendable)
    (now : UInt64) :
    ∃ next, (onFrame peer (dataFrame 0 x) now).run e = .ok [] next ∧ Engaged peer next ∧
      ((next.peerState peer).rate, next.held) =
        e.held.takeFrame now (dataFrame 0 x) (e.peerState peer).rate := by
  have hmsg := fromBytes_dataFrame hx
  obtain ⟨outbound, next, hrun, hsound⟩ := onFrame_sound hencrypts h.sound hmsg hx peer now
  have htaken := takeFrame_dataFrame hx now (e.peerState peer).rate e.held
  rw [← h.rateLimit] at htaken
  have houtcome := onFrame_outcome e peer (dataFrame 0 x) now
  rw [hrun] at houtcome ⊢
  cases houtcome with
  | summary hmsg' =>
    rw [hmsg] at hmsg'
    cases hmsg'
  | unproven hmsg' hverify =>
    rw [h.difficulty, Puzzle.verify_zero] at hverify
    cases hverify
  | overBudget _ _ hbudget =>
    have hallow : ((e.peerState peer).rate.allow now (dataFrame 0 x).length e.rateLimit).1 =
      false := hbudget
    refine ⟨_, rfl, h.charged now _, ?_⟩
    rw [htaken, hallow, rate_charged_self]
    rfl
  | offered hmsg' _ hbudget =>
    rw [hmsg] at hmsg'
    cases hmsg'
    have hallow : ((e.peerState peer).rate.allow now (dataFrame 0 x).length e.rateLimit).1 =
      true := hbudget
    have hcharged := h.charged now (dataFrame 0 x).length
    rw [relayToOthers_alone hcharged.alone, ite_self]
    refine ⟨_, rfl, hcharged.offer hsound now x, ?_⟩
    rw [htaken, hallow, if_pos rfl]
    exact congrArg (·, _) rate_charged_self

theorem onData_unsendable (hx : ¬ x.Sendable) (e : RelayEngine P) (peer now : UInt64) :
    ∃ err, (onFrame peer (dataFrame 0 x) now).run e = .error err e := by
  have hfits : ¬ (ContactMessage.data x ((Puzzle.solve P x.id 0).getD 0)).Fits :=
    fun hfits => hx (fits_data_iff.mp hfits)
  exact ⟨_, onFrame_malformed (ContactMessage.fromBytes_data_of_not_fits hfits)⟩

theorem Engaged.onSummary (h : Engaged peer e) (hfilter : filter.numBits < 2 ^ 32)
    (now : UInt64) :
    (onFrame peer (ContactMessage.summary (P := P) filter).toBytes now).run e =
      .ok ((e.held.gives filter).map fun x => (peer, dataFrame 0 x)) e := by
  have hsolvable : e.Solvable (e.held.missingFromBloom filter) := by
    intro x _
    rw [h.difficulty, Puzzle.solve_zero]
    rfl
  rw [onFrame_asked (ContactMessage.fromBytes_summary hfilter) hsolvable h.summarySent,
    pushFrames_eq, h.difficulty]
  rfl

end Engaged

section TakeIn

open RelayEngine

variable {e : RelayEngine P} {peer now : UInt64} {frames : List (List UInt8)}

theorem sendable_of_mem {x y : Envelope P} (hx : x.Sendable)
    (h : (dataFrame 0 y : List UInt8) = dataFrame 0 x) : y.Sendable ∧ y = x := by
  have hmsg := fromBytes_dataFrame hx
  rw [← h, dataFrame] at hmsg
  obtain ⟨heq, hfits⟩ := ContactMessage.eq_of_fromBytes_data hmsg
  cases heq
  exact ⟨fits_data_iff.mp hfits, rfl⟩

theorem takeIn_cons (frame : List UInt8) (e : RelayEngine P) :
    e.takeIn peer now (frame :: frames) =
      (Method.after ((onFrame peer frame now).run e)).takeIn peer now frames := rfl

def Readable (P : Primitives) (frames : List (List UInt8)) : Prop :=
  ∀ frame ∈ frames, ∃ x : Envelope P, x.Sendable ∧ frame = dataFrame 0 x

theorem Engaged.takeIn (h : Engaged peer e) (hencrypts : P.Encrypts)
    (hframes : Readable P frames) (now : UInt64) : Engaged peer (e.takeIn peer now frames) := by
  induction frames generalizing e with
  | nil => exact h
  | cons frame frames ih =>
    obtain ⟨x, hx, rfl⟩ := hframes frame List.mem_cons_self
    obtain ⟨next, hrun, hnext, -⟩ := h.onData hencrypts hx now
    rw [takeIn_cons, hrun, Method.after_ok]
    exact ih hnext fun frame hframe => hframes frame (List.mem_cons_of_mem _ hframe)

theorem Engaged.held_takeIn (h : Engaged peer e) (hencrypts : P.Encrypts)
    (hframes : Readable P frames) :
    (e.takeIn peer now frames).held =
      e.held.takeFrames now frames (e.peerState peer).rate := by
  induction frames generalizing e with
  | nil => rfl
  | cons frame frames ih =>
    obtain ⟨x, hx, rfl⟩ := hframes frame List.mem_cons_self
    obtain ⟨next, hrun, hnext, htaken⟩ := h.onData hencrypts hx now
    rw [takeIn_cons, hrun, Method.after_ok, Store.takeFrames, ← htaken]
    exact ih hnext fun frame hframe => hframes frame (List.mem_cons_of_mem _ hframe)

theorem Store.get_takeFrames {s : Store P} {rate : RateLimiter} (hframes : Readable P frames)
    {id : EnvelopeId} {y : Envelope P} (hy : (s.takeFrames now frames rate).get id = some y) :
    s.get id = some y ∨ (dataFrame 0 y : List UInt8) ∈ frames := by
  induction frames generalizing s rate with
  | nil => exact .inl hy
  | cons frame frames ih =>
    obtain ⟨x, hx, rfl⟩ := hframes frame List.mem_cons_self
    rw [Store.takeFrames, takeFrame_dataFrame hx] at hy
    rcases ih (fun frame hframe => hframes frame (List.mem_cons_of_mem _ hframe)) hy with hy | hy
    · split at hy
      · rcases Store.get_accept hy with hy | ⟨rfl, -, -⟩
        · exact .inl hy
        · exact .inr List.mem_cons_self
      · exact .inl hy
    · exact .inr (List.mem_cons_of_mem _ hy)

end TakeIn

namespace Simulation

section Queue

open RelayEngine

variable {order : Nat → Shuffle} {now peer : UInt64} {engine engine' : Fin n → RelayEngine P}
  {i : Fin n} {base : List (Packet (Fin n))} {frames : List (List UInt8)} {k : Nat}

def addressed (i : Fin n) (peer : UInt64) (frames : List (List UInt8)) :
    List (Packet (Fin n)) :=
  frames.map fun bytes => { receiver := i, fromPeer := peer, bytes := bytes }

theorem converge_nil (k : Nat) (engine : Fin n → RelayEngine P) :
    converge order now k engine [] = some engine := by
  cases k <;> rfl

theorem converge_zero (packet : Packet (Fin n)) :
    converge order now 0 engine (base ++ [packet]) = none := by
  rw [converge, if_neg]
  simp

theorem converge_ok {frame : List UInt8} {outbound : List Outbound} {next : RelayEngine P}
    (h : (onFrame peer frame now).run (engine i) = .ok outbound next) :
    converge order now (k + 1) engine (base ++ addressed i peer [frame]) =
      converge order now k (Function.update engine i next)
        (base ++ (simTopology n).packets i ((order k).apply outbound)) := by
  rw [addressed, List.map_singleton, converge, List.getLast?_concat]
  simp only [h, List.dropLast_concat]

theorem converge_error {frame : List UInt8} {fault : Fault MeshError} {next : RelayEngine P}
    (h : (onFrame peer frame now).run (engine i) = .error fault next) :
    converge order now (k + 1) engine (base ++ addressed i peer [frame]) = none := by
  rw [addressed, List.map_singleton, converge, List.getLast?_concat]
  simp only [h]

theorem packets_nil (shuffle : Shuffle) :
    (simTopology n).packets i (shuffle.apply []) = [] := by
  rw [(shuffle.perm []).eq_nil]
  rfl

theorem addressed_append (frames frames' : List (List UInt8)) :
    base ++ addressed i peer (frames ++ frames') =
      (base ++ addressed i peer frames) ++ addressed i peer frames' := by
  rw [addressed, List.map_append, ← List.append_assoc]
  rfl

theorem takeIn_concat {frame : List UInt8} {e next : RelayEngine P}
    (h : (onFrame peer frame now).run e = .ok [] next) :
    e.takeIn peer now (frames ++ [frame]).reverse = next.takeIn peer now frames.reverse := by
  rw [List.reverse_append, List.reverse_singleton, List.singleton_append, takeIn_cons, h,
    Method.after_ok]

theorem readable_concat {x : Envelope P} (hx : x.Sendable) :
    Readable P (frames ++ [dataFrame 0 x]) ↔ Readable P frames := by
  constructor
  · intro h frame hframe
    exact h frame (List.mem_append_left _ hframe)
  · intro h frame hframe
    rcases List.mem_append.mp hframe with hframe | hframe
    · exact h frame hframe
    · exact ⟨x, hx, List.mem_singleton.mp hframe⟩

/-- The frames at the end of the queue are worked off, each in an iteration of its own, before
what lies under them. -/
theorem converge_addressed_iff (hencrypts : P.Encrypts) (hengaged : Engaged peer (engine i))
    (hframes : ∀ frame ∈ frames, ∃ x : Envelope P, frame = dataFrame 0 x) :
    converge order now k engine (base ++ addressed i peer frames) = some engine' ↔
      Readable P frames ∧ ∃ k', k = k' + frames.length ∧
        converge order now k'
          (Function.update engine i ((engine i).takeIn peer now frames.reverse)) base =
            some engine' := by
  induction frames using List.reverseRecOn generalizing engine k with
  | nil =>
    have hsame : Function.update engine i ((engine i).takeIn peer now [].reverse) = engine :=
      Function.update_eq_self i engine
    rw [hsame, addressed, List.map_nil, List.append_nil]
    constructor
    · intro h
      exact ⟨fun frame hframe => absurd hframe List.not_mem_nil, k, rfl, h⟩
    · rintro ⟨-, k', rfl, h⟩
      exact h
  | append_singleton frames frame ih =>
    obtain ⟨x, rfl⟩ := hframes frame (List.mem_append_right _ List.mem_cons_self)
    have hrest : ∀ frame ∈ frames, ∃ x : Envelope P, frame = dataFrame 0 x :=
      fun frame hframe => hframes frame (List.mem_append_left _ hframe)
    rw [addressed_append, List.length_append, List.length_singleton]
    cases k with
    | zero =>
      rw [addressed, addressed, List.map_singleton, converge_zero]
      constructor
      · intro h
        cases h
      · rintro ⟨-, k', hk, -⟩
        omega
    | succ k =>
      by_cases hx : x.Sendable
      · obtain ⟨next, hrun, hnext, -⟩ := hengaged.onData hencrypts hx now
        have hself : Function.update engine i next i = next := Function.update_self ..
        have hstep := @ih (Function.update engine i next) k (hself.symm.subst hnext) hrest
        rw [hself, Function.update_idem] at hstep
        rw [converge_ok hrun, packets_nil, List.append_nil, hstep, readable_concat hx,
          takeIn_concat hrun]
        simp only [← Nat.add_assoc, Nat.add_right_cancel_iff]
      · obtain ⟨err, hrun⟩ := onData_unsendable hx (engine i) peer now
        rw [converge_error hrun]
        constructor
        · intro h
          cases h
        · rintro ⟨hreadable, -⟩
          obtain ⟨y, hy, heq⟩ := hreadable _ (List.mem_append_right _ List.mem_cons_self)
          exact absurd (sendable_of_mem hy heq).1 hx

def sentFrames (shuffle : Shuffle) (peer : UInt64) (xs : List (Envelope P)) :
    List (List UInt8) :=
  (shuffle.apply (xs.map fun x => (peer, dataFrame 0 x))).map Prod.snd

section SentFrames

variable {shuffle : Shuffle} {xs : List (Envelope P)} {j : Fin n}

theorem sentFrames_perm : (sentFrames shuffle peer xs).Perm (xs.map (dataFrame 0)) := by
  have hperm := (shuffle.perm (xs.map fun x => (peer, dataFrame 0 x))).map Prod.snd
  rwa [List.map_map] at hperm

theorem length_sentFrames : (sentFrames shuffle peer xs).length = xs.length := by
  rw [sentFrames_perm.length_eq, List.length_map]

theorem exists_of_mem_sentFrames {frame : List UInt8} (h : frame ∈ sentFrames shuffle peer xs) :
    ∃ x ∈ xs, frame = dataFrame 0 x := by
  obtain ⟨x, hx, rfl⟩ := List.mem_map.mp (sentFrames_perm.mem_iff.mp h)
  exact ⟨x, hx, rfl⟩

theorem readable_sentFrames : Readable P (sentFrames shuffle peer xs) ↔ ∀ x ∈ xs, x.Sendable := by
  constructor
  · intro h x hx
    obtain ⟨y, hy, heq⟩ := h _ (sentFrames_perm.mem_iff.mpr (List.mem_map_of_mem hx))
    exact (sendable_of_mem hy heq).1
  · intro h frame hframe
    obtain ⟨x, hx, rfl⟩ := exists_of_mem_sentFrames hframe
    exact ⟨x, h x hx, rfl⟩

theorem packets_sentFrames (size_le : n ≤ UInt64.size) :
    (simTopology n).packets i (shuffle.apply (xs.map fun x => (nodeId j, dataFrame 0 x))) =
      addressed j (nodeId i) (sentFrames shuffle (nodeId j) xs) := by
  have hpeer : ∀ o ∈ shuffle.apply (xs.map fun x => (nodeId j, dataFrame 0 x)),
      o.1 = nodeId j := by
    intro o ho
    obtain ⟨x, -, rfl⟩ := List.mem_map.mp ((shuffle.perm _).mem_iff.mp ho)
    rfl
  rw [sentFrames, addressed, List.map_map]
  generalize shuffle.apply (xs.map fun x => (nodeId j, dataFrame 0 x)) = outbound at hpeer
  induction outbound with
  | nil => rfl
  | cons o outbound ih =>
    obtain ⟨p, bytes⟩ := o
    obtain rfl : p = nodeId j := hpeer _ List.mem_cons_self
    have hroute : simTopology n i (nodeId j) = some (j, nodeId i) := by
      rw [simTopology, idToIndex_nodeId size_le]
      rfl
    have hrest := ih fun o ho => hpeer o (List.mem_cons_of_mem _ ho)
    rw [Topology.packets] at hrest ⊢
    rw [List.filterMap_cons]
    simp only [hroute, Option.map_some, hrest]
    rfl

theorem converge_summary (size_le : n ≤ UInt64.size) (hengaged : Engaged (nodeId j) (engine i))
    {filter : BloomFilter} (hfilter : filter.numBits < 2 ^ 32) :
    converge order now (k + 1) engine
        (base ++ addressed i (nodeId j) [(ContactMessage.summary (P := P) filter).toBytes]) =
      converge order now k engine (base ++ addressed j (nodeId i)
        (sentFrames (order k) (nodeId j) ((engine i).held.gives filter))) := by
  rw [converge_ok (hengaged.onSummary hfilter now), Function.update_eq_self,
    packets_sentFrames size_le]

theorem converge_exchange_iff (size_le : n ≤ UInt64.size) (hencrypts : P.Encrypts)
    (hi : Engaged (nodeId j) (engine i)) (hj : Engaged (nodeId i) (engine j))
    {filter : BloomFilter} (hfilter : filter.numBits < 2 ^ 32)
    (hframes : sentFrames (order k) (nodeId j) ((engine i).held.gives filter) = frames) :
    converge order now (k + 1) engine
        (base ++ addressed i (nodeId j) [(ContactMessage.summary (P := P) filter).toBytes]) =
          some engine' ↔
      Readable P frames ∧ ∃ k', k = k' + frames.length ∧
        converge order now k'
          (Function.update engine j ((engine j).takeIn (nodeId i) now frames.reverse)) base =
            some engine' := by
  rw [converge_summary size_le hi hfilter, hframes]
  refine converge_addressed_iff hencrypts hj fun frame hframe => ?_
  rw [← hframes] at hframe
  obtain ⟨x, -, rfl⟩ := exists_of_mem_sentFrames hframe
  exact ⟨x, rfl⟩

end SentFrames

end Queue

end Simulation

end ProjectMesh.Routing
