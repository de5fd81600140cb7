import ProjectMesh.Routing.Contact

namespace ProjectMesh.Routing

open ProjectMesh.Lib Relation

variable {P : Primitives} {ι : Type}

/-- Two nodes that know each other, each under a handle of its own. -/
structure Link (route : Topology ι) where
  node : Bool → ι
  peer : Bool → UInt64
  ne : node false ≠ node true
  route_eq : ∀ side, route (node side) (peer side) = some (node !side, peer !side)

theorem Link.node_not_ne {route : Topology ι} (l : Link route) (side : Bool) :
    l.node (!side) ≠ l.node side := by
  cases side
  · exact l.ne.symm
  · exact l.ne

inductive Half (P : Primitives) : Type
  | waiting
  | giving (pending got : List (Envelope P))

def Half.got : Half P → List (Envelope P)
  | .waiting => []
  | .giving _ got => got

section Underway

variable {route : Topology ι} (l : Link route) (w₀ : Traffic P ι)

/-- What is in flight for the sake of one side's giving: the other's summary, and then what
that asked for. -/
def Half.packets (side : Bool) : Half P → List (Packet ι)
  | .waiting => [{
      receiver := l.node side
      fromPeer := l.peer side
      bytes := (w₀.engine (l.node !side)).summary }]
  | .giving pending _ => pending.map fun x => {
      receiver := l.node !side
      fromPeer := l.peer !side
      bytes := RelayEngine.dataFrame (w₀.engine (l.node side)).puzzleDifficultyBits x }

def due (side : Bool) : List (Envelope P) :=
  (w₀.engine (l.node side)).held.relayable (w₀.engine (l.node !side)).held

/-- How many frames are still to arrive for the sake of one side's giving. -/
def Half.left (side : Bool) : Half P → Nat
  | .waiting => (due l w₀ side).length + 1
  | .giving pending _ => pending.length

structure Underway (now : UInt64) (half : Bool → Half P) (w : Traffic P ι) : Prop where
  plan : ∀ side pending got, half side = .giving pending got →
    (pending ++ got).Perm (due l w₀ side)
  received : ∀ side, Received now (w₀.engine (l.node side)) (l.peer side) (half !side).got
    (w.engine (l.node side))
  inFlight : ∀ side,
    w.inFlight.Perm ((half side).packets l w₀ side ++ (half !side).packets l w₀ !side)
  others : ∀ node, (∀ side, node ≠ l.node side) → w.engine node = w₀.engine node
  summaries : w.sent.countP (fun packet => isSummary packet.bytes) = 2

inductive Answers (e : RelayEngine P) (packet : Packet ι) (t : UInt64) :
    List Outbound → RelayEngine P → Prop
  | ok {outbound next} :
    (RelayEngine.onFrame packet.fromPeer packet.bytes t).run e = .ok outbound next →
    Answers e packet t outbound next
  | diskFault {err next} :
    (RelayEngine.onFrame packet.fromPeer packet.bytes t).run e = .error (.err err) next →
    Answers e packet t [] next

theorem Answers.act {e next : RelayEngine P} {packet : Packet ι} {t : UInt64}
    {outbound : List Outbound} (h : Answers e packet t outbound next) :
    e.act (.frame packet.fromPeer packet.bytes t) = some (outbound, next) := by
  cases h with
  | ok h => simp only [RelayEngine.act, h]
  | diskFault h => simp only [RelayEngine.act, h]

variable {l w₀} {clock : Set UInt64} {now t : UInt64} {half : Bool → Half P}
  {w : Traffic P ι} {side : Bool} {x : Envelope P} {pending got : List (Envelope P)}

theorem Underway.got_due (h : Underway l w₀ now half w) (hx : x ∈ (half side).got) :
    x ∈ due l w₀ side := by
  cases hhalf : half side with
  | waiting =>
    rw [hhalf] at hx
    cases hx
  | giving pending got =>
    rw [hhalf] at hx
    exact (h.plan side pending got hhalf).mem_iff.mp (List.mem_append_right _ hx)

theorem Underway.exists_side (h : Underway l w₀ now half w) {packet : Packet ι}
    (hmem : packet ∈ w.inFlight) : ∃ side, packet ∈ (half side).packets l w₀ side := by
  rcases List.mem_append.mp ((h.inFlight false).mem_iff.mp hmem) with hmem | hmem
  · exact ⟨false, hmem⟩
  · exact ⟨true, hmem⟩

theorem Underway.asked (h : Underway l w₀ now half w)
    (hgives : Gives clock now (w₀.engine (l.node side)) (w₀.engine (l.node !side)))
    (hfits : Fits (w₀.engine (l.node side)) (w₀.engine (l.node !side))) :
    ∃ pushed : List (Envelope P), pushed.Perm (due l w₀ side) ∧
      (RelayEngine.onFrame (l.peer side) (w₀.engine (l.node !side)).summary t).run
          (w.engine (l.node side)) =
        .ok (pushed.map fun x => (l.peer side,
          RelayEngine.dataFrame (w₀.engine (l.node side)).puzzleDifficultyBits x))
          (w.engine (l.node side)) := by
  have hreceived := h.received side
  have hgot : ∀ x ∈ (half !side).got,
      (w₀.engine (l.node !side)).held.contains x.id = true := fun x hx =>
    Store.contains_of_mem_relayable (h.got_due hx)
  have hperm := hreceived.missing_perm hgot hgives.noFalsePositive
  refine ⟨_, hperm, ?_⟩
  have hsolvable : (w.engine (l.node side)).Solvable
      ((w.engine (l.node side)).held.missingFromBloom
        (w₀.engine (l.node !side)).held.summaryBloom) := by
    intro relayed hrelayed
    rw [hreceived.difficulty]
    exact hgives.solves relayed (hperm.mem_iff.mp hrelayed)
  have hmsg : ContactMessage.fromBytes P (w₀.engine (l.node !side)).summary =
      .ok (.summary (w₀.engine (l.node !side)).held.summaryBloom) :=
    ContactMessage.fromBytes_summary hfits.filter
  rw [RelayEngine.onFrame_asked hmsg hsolvable hreceived.summarySent, RelayEngine.pushFrames_eq,
    hreceived.difficulty]

theorem frameBytes_append {bits : UInt8} {xs ys : List (Envelope P)} :
    frameBytes bits (xs ++ ys) = frameBytes bits xs + frameBytes bits ys := by
  simp only [frameBytes, List.map_append, List.sum_append]

theorem Gives.due (hgives : Gives clock now (w₀.engine (l.node side)) (w₀.engine (l.node !side)))
    (hplan : (pending ++ x :: got).Perm (due l w₀ side)) :
    Due (w₀.engine (l.node !side)) got x := by
  have hx : x ∈ Routing.due l w₀ side := hplan.mem_iff.mp (by simp)
  have hnodup : ((pending ++ x :: got).map Envelope.id).Nodup :=
    (hplan.map _).nodup_iff.mpr Store.nodup_relayable
  have hlen := hplan.length_eq
  have hbytes := frameBytes_perm (w₀.engine (l.node side)).puzzleDifficultyBits hplan
  have henvelopes : (Routing.due l w₀ side).length ≤ _ := hgives.envelopes
  have hmaxBytes : frameBytes _ (Routing.due l w₀ side) ≤ _ := hgives.bytes
  rw [List.length_append, List.length_cons] at hlen
  rw [frameBytes_append] at hbytes
  refine ⟨Store.not_contains_of_mem_relayable hx, ?_, Store.ttlHops_of_mem_relayable hx,
    by omega, ?_⟩
  · rw [List.map_append, List.map_cons] at hnodup
    exact (List.nodup_cons.mp (List.nodup_append.mp hnodup).2.1).1
  · rw [← hgives.difficulty]
    omega

theorem Underway.given (h : Underway l w₀ now half w) (ht : t ∈ clock)
    (hgives : Gives clock now (w₀.engine (l.node side)) (w₀.engine (l.node !side)))
    (hfits : Fits (w₀.engine (l.node side)) (w₀.engine (l.node !side)))
    (hhalf : (half side).got = got) (hplan : (pending ++ x :: got).Perm (due l w₀ side)) :
    ∃ next, Answers (w.engine (l.node !side)) {
        receiver := l.node !side
        fromPeer := l.peer !side
        bytes := RelayEngine.dataFrame (w₀.engine (l.node side)).puzzleDifficultyBits x } t []
        next ∧
      Received now (w₀.engine (l.node !side)) (l.peer !side) (x :: got) next := by
  have hreceived := h.received !side
  rw [Bool.not_not, hhalf] at hreceived
  have hdue := hgives.due hplan
  have hx : x ∈ due l w₀ side := hplan.mem_iff.mp (by simp)
  have hmsg : ContactMessage.fromBytes P
      (RelayEngine.dataFrame (w₀.engine (l.node side)).puzzleDifficultyBits x) = .ok (.data x _) :=
    ContactMessage.fromBytes_data (RelayEngine.fits_data_iff.mpr (hfits.envelopes x hx))
  obtain ⟨nonce, hnonce⟩ := Option.isSome_iff_exists.mp (hgives.solves x hx)
  have hdifficulty : (w.engine (l.node !side)).puzzleDifficultyBits =
      (w₀.engine (l.node side)).puzzleDifficultyBits :=
    hreceived.difficulty.trans hgives.difficulty.symm
  rw [hnonce, Option.getD_some] at hmsg
  have hverify := Puzzle.verify_of_solve hnonce
  rw [← hdifficulty] at hverify
  have hsize : (RelayEngine.dataFrame (w₀.engine (l.node side)).puzzleDifficultyBits x).length =
      (RelayEngine.dataFrame (w₀.engine (l.node !side)).puzzleDifficultyBits x).length := by
    rw [hgives.difficulty]
  have hroom : x.isExpired now = false →
      (w.engine (l.node !side)).held.len < (w.engine (l.node !side)).held.capacity := by
    intro hlive
    have hcapacity : _ + ((due l w₀ side).filter fun x => !x.isExpired now).length ≤ _ :=
      hgives.capacity
    have hcount := (hplan.filter fun x => !x.isExpired now).length_eq
    rw [List.filter_append, List.filter_cons_of_pos (by simp [hlive]), List.length_append,
      List.length_cons] at hcount
    rw [hreceived.len, hreceived.capacity]
    omega
  obtain ⟨disk, hrun⟩ := RelayEngine.onFrame_given (t := t) hmsg hverify
    (hreceived.budget hdue hsize).1 hreceived.alone
  refine ⟨_, ?_, hreceived.offer hdue (hgives.clock t ht x hx) hroom hsize disk⟩
  rcases hrun with hrun | ⟨err, hrun⟩
  · exact .ok hrun
  · exact .diskFault hrun

variable (l w₀) in
def left (half : Bool → Half P) : Nat :=
  (half false).left l w₀ false + (half true).left l w₀ true

theorem left_eq (side : Bool) :
    left l w₀ half = (half side).left l w₀ side + (half !side).left l w₀ !side := by
  cases side
  · rfl
  · exact Nat.add_comm _ _

theorem left_update {half' : Half P} :
    left l w₀ (Function.update half side half') =
      half'.left l w₀ side + (half !side).left l w₀ !side := by
  rw [left_eq side, Function.update_self, Function.update_of_ne (Bool.not_ne_self side)]

theorem packets_push {xs : List (Envelope P)} {frame : Envelope P → List UInt8} :
    route.packets (l.node side) (xs.map fun x => (l.peer side, frame x)) =
      xs.map fun x => { receiver := l.node !side, fromPeer := l.peer !side, bytes := frame x } := by
  simp only [Topology.packets, List.filterMap_map, Function.comp_def, l.route_eq, Option.map_some,
    List.filterMap_eq_map']

variable [DecidableEq ι]

theorem Underway.update (h : Underway l w₀ now half w) {half' : Half P} {node : Bool}
    {next : RelayEngine P} {w' : Traffic P ι} {new : List (Packet ι)}
    (hengine : w'.engine = Function.update w.engine (l.node node) next)
    (hplan : ∀ pending got, half' = .giving pending got → (pending ++ got).Perm (due l w₀ side))
    (hreceived : ∀ s, Received now (w₀.engine (l.node s)) (l.peer s)
      (Function.update half side half' !s).got (w'.engine (l.node s)))
    (hflight : w'.inFlight.Perm (half'.packets l w₀ side ++ (half !side).packets l w₀ !side))
    (hsent : w'.sent = w.sent ++ new) (hdata : ∀ packet ∈ new, isSummary packet.bytes = false) :
    Underway l w₀ now (Function.update half side half') w' where
  plan s pending got hs := by
    rcases Bool.eq_or_eq_not s side with rfl | rfl
    · rw [Function.update_self] at hs
      exact hplan pending got hs
    · rw [Function.update_of_ne (Bool.not_ne_self side)] at hs
      exact h.plan _ pending got hs
  received := hreceived
  inFlight s := by
    rcases Bool.eq_or_eq_not s side with rfl | rfl
    · rw [Function.update_self, Function.update_of_ne (Bool.not_ne_self s)]
      exact hflight
    · rw [Bool.not_not, Function.update_self, Function.update_of_ne (Bool.not_ne_self side)]
      exact hflight.trans List.perm_append_comm
  others i hi := by
    rw [hengine, Function.update_of_ne (hi node), h.others i hi]
  summaries := by
    rw [hsent, List.countP_append, h.summaries, List.countP_eq_zero.mpr]
    intro packet hpacket
    rw [hdata packet hpacket]
    exact Bool.false_ne_true

omit [DecidableEq ι] in
theorem Underway.inFlight_of_left (h : Underway l w₀ now half w) (hleft : left l w₀ half = 0) :
    w.inFlight = [] := by
  by_contra hflight
  obtain ⟨packet, hmem⟩ := List.exists_mem_of_ne_nil _ hflight
  obtain ⟨side, hside⟩ := h.exists_side hmem
  rw [left_eq side] at hleft
  cases hhalf : half side with
  | waiting =>
    rw [hhalf, Half.left] at hleft
    omega
  | giving pending got =>
    rw [hhalf] at hside hleft
    have hpending : pending = [] := List.eq_nil_of_length_eq_zero (by
      rw [Half.left] at hleft
      omega)
    rw [hpending] at hside
    cases hside

theorem Underway.handle (h : Underway l w₀ now half w) (ht : t ∈ clock)
    (hgives : ∀ side, Gives clock now (w₀.engine (l.node side)) (w₀.engine (l.node !side)))
    (hfits : ∀ side, Fits (w₀.engine (l.node side)) (w₀.engine (l.node !side)))
    {packet : Packet ι} {rest : List (Packet ι)} (hperm : (packet :: rest).Perm w.inFlight) :
    ∃ outbound next half', Answers (w.engine packet.receiver) packet t outbound next ∧
      left l w₀ half' + 1 = left l w₀ half ∧
      ∀ w' : Traffic P ι, w'.engine = Function.update w.engine packet.receiver next →
        w'.inFlight.Perm (rest ++ route.packets packet.receiver outbound) →
        w'.sent = w.sent ++ route.packets packet.receiver outbound →
        Underway l w₀ now half' w' := by
  have hmem : packet ∈ w.inFlight := hperm.mem_iff.mp (List.mem_cons_self ..)
  obtain ⟨side, hside⟩ := h.exists_side hmem
  have hflight := hperm.trans (h.inFlight side)
  have hne := l.node_not_ne side
  cases hhalf : half side with
  | waiting =>
    rw [hhalf] at hside hflight
    cases List.mem_singleton.mp hside
    have hrest : rest.Perm ((half !side).packets l w₀ !side) := hflight.cons_inv
    obtain ⟨pushed, hpushed, hrun⟩ := h.asked (t := t) (hgives side) (hfits side)
    refine ⟨_, _, Function.update half side (.giving pushed []), .ok hrun, ?_, ?_⟩
    · rw [left_update, left_eq side, hhalf, Half.left, Half.left, hpushed.length_eq]
      omega
    · intro w' hengine hw' hsent
      simp only [packets_push] at hw' hsent
      refine h.update hengine ?_ (fun s => ?_) ?_ hsent ?_
      · rintro pending got ⟨⟩
        rw [List.append_nil]
        exact hpushed
      · have hengine' : w'.engine = w.engine := by
          rw [hengine]
          exact Function.update_eq_self _ _
        have hgot : (Function.update half side (.giving pushed []) !s).got = (half !s).got := by
          by_cases hs : (!s) = side
          · rw [hs, Function.update_self, hhalf]
            rfl
          · rw [Function.update_of_ne hs]
        rw [hgot, hengine']
        exact h.received s
      · exact hw'.trans ((List.Perm.append_right _ hrest).trans List.perm_append_comm)
      · intro packet hpacket
        obtain ⟨x, -, rfl⟩ := List.mem_map.mp hpacket
        rfl
  | giving pending got =>
    rw [hhalf] at hside hflight
    obtain ⟨x, hx, rfl⟩ := List.mem_map.mp hside
    have herase : pending.Perm (x :: pending.erase x) := List.perm_cons_erase hx
    have hplan : (pending.erase x ++ x :: got).Perm (due l w₀ side) :=
      List.perm_middle.trans ((herase.symm.append_right got).trans (h.plan side _ _ hhalf))
    have hrest : rest.Perm ((Half.giving (pending.erase x) (x :: got)).packets l w₀ side ++
        (half !side).packets l w₀ !side) :=
      (hflight.trans ((herase.map _).append_right _)).cons_inv
    obtain ⟨next, hanswers, hreceived⟩ := h.given ht (hgives side) (hfits side)
      (by rw [hhalf]; rfl) hplan
    refine ⟨[], next, Function.update half side (.giving (pending.erase x) (x :: got)), hanswers,
      ?_, ?_⟩
    · rw [left_update, left_eq side, hhalf, Half.left, Half.left, herase.length_eq,
        List.length_cons]
      omega
    · intro w' hengine hw' hsent
      have hnone : route.packets (l.node !side) [] = [] := rfl
      simp only [hnone, List.append_nil] at hw'
      refine h.update hengine ?_ (fun s => ?_) (hw'.trans hrest) hsent nofun
      · rintro _ _ ⟨⟩
        exact hplan
      · rcases Bool.eq_or_eq_not s side with rfl | rfl
        · rw [hengine, Function.update_of_ne hne.symm, Function.update_of_ne (Bool.not_ne_self s)]
          exact h.received s
        · rw [hengine, Bool.not_not, Function.update_self, Function.update_self]
          exact hreceived

omit [DecidableEq ι] in
theorem Underway.not_held (h : Underway l w₀ now half w)
    (hgives : ∀ side, Gives clock now (w₀.engine (l.node side)) (w₀.engine (l.node !side)))
    {packet : Packet ι} (hmem : packet ∈ w.inFlight) {nonce : UInt64}
    (hparse : ContactMessage.fromBytes P packet.bytes = .ok (.data x nonce)) :
    (w.engine packet.receiver).held.contains x.id = false := by
  obtain ⟨side, hside⟩ := h.exists_side hmem
  cases hhalf : half side with
  | waiting =>
    rw [hhalf] at hside
    cases List.mem_singleton.mp hside
    exact absurd hparse RelayEngine.not_data_summary
  | giving pending got =>
    rw [hhalf] at hside
    obtain ⟨y, hy, rfl⟩ := List.mem_map.mp hside
    cases (ContactMessage.eq_of_fromBytes_data hparse).1
    have hplan : (pending.erase x ++ x :: got).Perm (due l w₀ side) :=
      List.perm_middle.trans
        (((List.perm_cons_erase hy).symm.append_right got).trans (h.plan side _ _ hhalf))
    have hreceived := h.received !side
    rw [Bool.not_not, hhalf] at hreceived
    exact hreceived.contains_eq_false ((hgives side).due hplan)

omit [DecidableEq ι] in
theorem Underway.readable (h : Underway l w₀ now half w)
    (hfits : ∀ side, Fits (w₀.engine (l.node side)) (w₀.engine (l.node !side)))
    {packet : Packet ι} (hmem : packet ∈ w.inFlight) :
    (∃ filter, ContactMessage.fromBytes P packet.bytes = .ok (.summary filter)) ∨
      ∃ x nonce, ContactMessage.fromBytes P packet.bytes = .ok (.data x nonce) ∧
        x.Sendable := by
  obtain ⟨side, hside⟩ := h.exists_side hmem
  cases hhalf : half side with
  | waiting =>
    rw [hhalf] at hside
    cases List.mem_singleton.mp hside
    exact .inl ⟨_, ContactMessage.fromBytes_summary (hfits side).filter⟩
  | giving pending got =>
    rw [hhalf] at hside
    obtain ⟨x, hx, rfl⟩ := List.mem_map.mp hside
    have hdue := (h.plan side _ _ hhalf).mem_iff.mp (List.mem_append_left _ hx)
    have hsendable := (hfits side).envelopes x hdue
    exact .inr ⟨x, _,
      ContactMessage.fromBytes_data (RelayEngine.fits_data_iff.mpr hsendable), hsendable⟩

/-- What a store has become that was `own` before it met a holder of `other`. -/
def Merged (now : UInt64) (own other s : Store P) : Prop :=
  ∀ id x, s.get id = some x ↔ own.get id = some x ∨
    own.get id = none ∧ ∃ source, other.get id = some source ∧ source.isExpired now = false ∧
      2 ≤ source.ttlHops.toNat ∧ x = { source with ttlHops := source.ttlHops - 1 }

omit [DecidableEq ι] in
/-- When nothing is in flight any more, the stores are merged. -/
theorem Underway.merged (h : Underway l w₀ now half w) (hquiet : w.inFlight = []) (side : Bool) :
    Merged now (w₀.engine (l.node side)).held (w₀.engine (l.node !side)).held
      (w.engine (l.node side)).held := by
  have hempty : (half !side).packets l w₀ (!side) = [] := by
    have hflight := h.inFlight side
    rw [hquiet] at hflight
    exact (List.append_eq_nil_iff.mp hflight.symm.eq_nil).2
  have hgot : (half !side).got.Perm (due l w₀ !side) := by
    cases hhalf : half !side with
    | waiting =>
      rw [hhalf] at hempty
      cases hempty
    | giving pending got =>
      rw [hhalf] at hempty
      have hplan := h.plan _ pending got hhalf
      rwa [List.map_eq_nil_iff.mp hempty, List.nil_append] at hplan
  intro id x
  rw [(h.received side).get, hgot.mem_iff, due, Store.mem_relayable_iff, Bool.not_not]
  refine or_congr_right ⟨?_, ?_⟩
  · rintro ⟨⟨source, hget, hnot, hdec⟩, rfl, hlive⟩
    obtain ⟨httl, rfl⟩ := decrementTtl_eq_some_iff.mp hdec
    exact ⟨Store.contains_eq_false_iff.mp hnot, source, hget, hlive, httl, rfl⟩
  · rintro ⟨hnot, source, hget, hlive, httl, rfl⟩
    cases Store.id_of_get hget
    exact ⟨⟨source, hget, Store.contains_eq_false_iff.mpr hnot,
      decrementTtl_eq_some_iff.mpr ⟨httl, rfl⟩⟩, rfl, hlive⟩

end Underway

section Meeting

variable [DecidableEq ι] {route : Topology ι} {l : Link route} {clock : Set UInt64}
  {now : UInt64} {w₀ w w' : Traffic P ι}

def Traffic.connect (l : Link route) (w : Traffic P ι) : Option (Traffic P ι) := do
  let w ← w.call route (l.node false) (.connected (l.peer false))
  w.call route (l.node true) (.connected (l.peer true))

/-- Two engines connect that know nobody else, and can give each other what they hold. -/
structure Meeting (l : Link route) (clock : Set UInt64) (now : UInt64) (w₀ w : Traffic P ι) :
    Prop where
  inFlight : w₀.inFlight = []
  sent : w₀.sent = []
  alone : ∀ side p, p ≠ l.peer side → (w₀.engine (l.node side)).peers.lookup p = none
  gives : ∀ side, Gives clock now (w₀.engine (l.node side)) (w₀.engine (l.node !side))
  connects : w₀.connect l = some w

omit [DecidableEq ι] in
theorem packets_single {side : Bool} {frame : List UInt8} :
    route.packets (l.node side) [(l.peer side, frame)] =
      [{ receiver := l.node !side, fromPeer := l.peer !side, bytes := frame }] := by
  simp only [Topology.packets, List.filterMap_cons, l.route_eq, Option.map_some,
    List.filterMap_nil]

def hello (l : Link route) (w : Traffic P ι) (side : Bool) : Packet ι where
  receiver := l.node !side
  fromPeer := l.peer !side
  bytes := (w.engine (l.node side)).summary

theorem call_connected (w : Traffic P ι) (side : Bool) :
    w.call route (l.node side) (.connected (l.peer side)) = some {
      engine := Function.update w.engine (l.node side)
        ((w.engine (l.node side)).onPeerConnected (l.peer side)).2
      inFlight := w.inFlight ++ [hello l w side]
      sent := w.sent ++ [hello l w side] } := by
  simp only [Traffic.call, RelayEngine.act, Option.bind_eq_bind, Option.bind_some, packets_single]
  rfl

theorem connect_eq (l : Link route) (w : Traffic P ι) :
    w.connect l = some {
      engine := Function.update (Function.update w.engine (l.node false)
        ((w.engine (l.node false)).onPeerConnected (l.peer false)).2) (l.node true)
        ((w.engine (l.node true)).onPeerConnected (l.peer true)).2
      inFlight := w.inFlight ++ [hello l w false] ++ [hello l w true]
      sent := w.sent ++ [hello l w false] ++ [hello l w true] } := by
  rw [Traffic.connect, call_connected]
  simp only [Option.bind_eq_bind, Option.bind_some]
  rw [call_connected]
  simp only [hello, Function.update_of_ne l.ne.symm]

theorem Meeting.underway (h : Meeting l clock now w₀ w) :
    Underway l w₀ now (fun _ => .waiting) w := by
  have hconnects := h.connects
  rw [connect_eq, h.inFlight, h.sent] at hconnects
  cases hconnects
  refine ⟨nofun, fun side => ?_, fun side => ?_, fun node hnode => ?_, rfl⟩
  · have hconnected := Received.connected now (h.alone side)
    cases side
    · simp only [Function.update_of_ne l.ne, Function.update_self]
      exact hconnected
    · simp only [Function.update_self]
      exact hconnected
  · cases side
    · exact List.Perm.swap _ _ _
    · exact List.Perm.refl _
  · simp only [Function.update_of_ne (hnode true), Function.update_of_ne (hnode false)]

variable (hmeeting : Meeting l clock now w₀ w)
  (hfits : ∀ side, Fits (w₀.engine (l.node side)) (w₀.engine (l.node !side)))
include hmeeting hfits

theorem Meeting.underway_of_delivers (hrun : ReflTransGen (Traffic.Delivers route clock) w w') :
    ∃ half, Underway l w₀ now half w' := by
  induction hrun with
  | refl => exact ⟨_, hmeeting.underway⟩
  | tail _ hstep ih =>
    obtain ⟨half, hunderway⟩ := ih
    obtain ⟨k, t, ht, hdeliver⟩ := hstep
    obtain ⟨packet, outbound, next, hpacket, hact, rfl⟩ := Traffic.deliver_cases hdeliver
    obtain ⟨hk, rfl⟩ := List.getElem?_eq_some_iff.mp hpacket
    obtain ⟨outbound', next', half', hanswers, -, hnext⟩ := hunderway.handle ht hmeeting.gives
      hfits (List.getElem_cons_eraseIdx_perm hk)
    rw [hanswers.act] at hact
    cases hact
    exact ⟨half', hnext _ rfl (List.Perm.refl _) rfl⟩

/-- A contact merges the stores, in whatever order its frames arrive: each side holds what it
held, and what it lacked of the other's that had hops and time left, one hop on.  Two
summaries are sent, and no envelope to a side that holds it. -/
theorem merges :
    (∀ w', ReflTransGen (Traffic.Delivers route clock) w w' → w'.inFlight = [] →
      ∀ side, Merged now (w₀.engine (l.node side)).held (w₀.engine (l.node !side)).held
        (w'.engine (l.node side)).held) ∧
      ∀ w', ReflTransGen (Traffic.Delivers route clock) w w' →
        w'.sent.countP (fun packet => isSummary packet.bytes) = 2 ∧
          ∀ packet ∈ w'.inFlight, ∀ envelope nonce,
            ContactMessage.fromBytes P packet.bytes = .ok (.data envelope nonce) →
            (w'.engine packet.receiver).held.contains envelope.id = false := by
  refine ⟨fun w' hrun hquiet side => ?_, fun w' hrun => ?_⟩
  · obtain ⟨half, hunderway⟩ := hmeeting.underway_of_delivers hfits hrun
    exact hunderway.merged hquiet side
  · obtain ⟨half, hunderway⟩ := hmeeting.underway_of_delivers hfits hrun
    exact ⟨hunderway.summaries, fun packet hmem envelope nonce hparse =>
      hunderway.not_held hmeeting.gives hmem hparse⟩

end Meeting

section Counterexample

variable {route : Topology ι} {clock : Set UInt64} {w₀ w w' : Traffic P ι}

structure Inert (w₀ w : Traffic P ι) : Prop where
  unsendable : ∀ node x, (w.engine node).held.get x.id = some x → ¬ x.Sendable
  held : ∀ node x, (w.engine node).held.get x.id = some x →
    (w₀.engine node).held.get x.id = some x
  inFlight : ∀ packet ∈ w.inFlight, ∀ envelope nonce,
    ContactMessage.fromBytes P packet.bytes ≠ .ok (.data envelope nonce)

variable [DecidableEq ι]

theorem Inert.step (h : Inert w₀ w) (hstep : w.Delivers route clock w') : Inert w₀ w' := by
  obtain ⟨k, t, -, hdeliver⟩ := hstep
  obtain ⟨packet, outbound, next, hpacket, hact, rfl⟩ := Traffic.deliver_cases hdeliver
  have hframe := h.inFlight packet (List.mem_of_getElem? hpacket)
  have hheld : ∀ node x,
      (Function.update w.engine packet.receiver next node).held.get x.id = some x →
      (w.engine node).held.get x.id = some x := by
    intro node x hget
    by_cases hnode : node = packet.receiver
    · subst hnode
      rw [Function.update_self] at hget
      rcases RelayEngine.held_act hact hget with hget | ⟨hoffers, -⟩
      · exact hget
      · cases hoffers with
        | frame hparse => exact absurd hparse (hframe _ _)
    · rwa [Function.update_of_ne hnode] at hget
  refine ⟨fun node x hget => h.unsendable node x (hheld node x hget),
    fun node x hget => h.held node x (hheld node x hget),
    fun packet' hmem envelope nonce hparse => ?_⟩
  rcases List.mem_append.mp hmem with hmem | hmem
  · exact h.inFlight packet' (List.mem_of_mem_eraseIdx hmem) envelope nonce hparse
  · obtain ⟨peer, hout, -⟩ := Traffic.frame_of_mem_packets hmem
    obtain ⟨source, hdec, hsource, hfits⟩ := RelayEngine.outbound_act hact hout hparse
    rcases hsource with hget | hoffers
    · refine h.unsendable _ source hget ?_
      rw [← RelayEngine.sendable_decrementTtl hdec]
      exact RelayEngine.fits_data_iff.mp hfits
    · cases hoffers with
      | frame hparse' => exact absurd hparse' (hframe _ _)

theorem Inert.of_run (h : Inert w₀ w) (hrun : ReflTransGen (Traffic.Delivers route clock) w w') :
    Inert w₀ w' := by
  induction hrun with
  | refl => exact h
  | tail _ hstep ih => exact ih.step hstep

theorem Meeting.inert {l : Link route} {now : UInt64} (h : Meeting l clock now w₀ w)
    (hunsendable : ∀ node x, (w₀.engine node).held.get x.id = some x → ¬ x.Sendable) :
    Inert w₀ w := by
  have hunderway := h.underway
  have hheld : ∀ node (x : Envelope P), (w.engine node).held.get x.id = some x →
      (w₀.engine node).held.get x.id = some x := by
    intro node x hget
    by_cases hnode : ∃ side, node = l.node side
    · obtain ⟨side, rfl⟩ := hnode
      rw [(hunderway.received side).get] at hget
      exact hget.resolve_right fun hgot => nomatch hgot.1
    · rwa [hunderway.others node fun side hside => hnode ⟨side, hside⟩] at hget
  refine ⟨fun node x hget => hunsendable node x (hheld node x hget), hheld, ?_⟩
  intro packet hmem envelope nonce
  rcases List.mem_append.mp ((hunderway.inFlight false).mem_iff.mp hmem) with hmem | hmem
  · cases List.mem_singleton.mp hmem
    exact RelayEngine.not_data_summary
  · cases List.mem_singleton.mp hmem
    exact RelayEngine.not_data_summary

def toyLink : Link Traffic.toyTopology where
  node side := side
  peer _ := 7
  ne := Bool.false_ne_true
  route_eq _ := rfl

def loneStore (e : Envelope P) : Bool → Store P
  | false => (Store.new P 10).insert e
  | true => .new P 10

def lone (e : Envelope P) : Traffic P Bool where
  engine side := {
    store := ⟨loneStore e side, toyStore.disk⟩
    peers := ∅
    puzzleDifficultyBits := 0
    rateLimit := {
      maxEnvelopesPerWindow := 1
      maxBytesPerWindow := frameBytes 0 ((loneStore e false).relayable (loneStore e true))
      windowSeconds := 60 } }
  inFlight := []
  sent := []

theorem get_loneStore {e x : Envelope P} {id : EnvelopeId} {side : Bool}
    (h : (loneStore e side).get id = some x) : x = e ∧ side = false := by
  cases side with
  | true => cases h
  | false =>
    refine ⟨?_, rfl⟩
    by_cases hid : id = e.id
    · subst hid
      rw [loneStore, Store.get_insert_self] at h
      exact (Option.some.inj h).symm
    · rw [loneStore, Store.get_insert_of_ne hid] at h
      cases h

theorem length_relayable_loneStore {e : Envelope P} :
    ((loneStore e false).relayable (loneStore e true)).length ≤ 1 :=
  (List.length_filterMap_le _ _).trans (List.length_filter_le _ _)

theorem meeting_lone (e : Envelope P) {w : Traffic P Bool}
    (hconnects : (lone e).connect toyLink = some w) : Meeting toyLink {0} 0 (lone e) w where
  inFlight := rfl
  sent := rfl
  alone _ _ _ := rfl
  connects := hconnects
  gives side := by
    have hlen := length_relayable_loneStore (e := e)
    cases side with
    | false =>
      refine ⟨rfl, fun x _ => ?_, ?_, ?_, hlen, Nat.le_refl _, fun x _ _ => ?_⟩
      · exact Option.isSome_iff_exists.mpr ⟨0, Puzzle.solve_zero⟩
      · rintro t rfl x -
        rfl
      · have hle := (List.length_filter_le (fun x : Envelope P => !x.isExpired 0) _).trans hlen
        exact Nat.le_trans (Nat.add_le_add_left hle _) (by decide : 0 + 1 ≤ 10)
      · exact BloomFilter.contains_new
    | true =>
      refine ⟨rfl, nofun, ?_, ?_, Nat.zero_le _, Nat.zero_le _, fun x hx => ?_⟩
      · rintro t - x ⟨⟩
      · exact Nat.le_trans (Nat.le_of_eq rfl) (by decide : 1 ≤ 10)
      · have hget : (loneStore e true).get x.id = some x := hx
        cases (get_loneStore hget).2

def heavy (P : Primitives) (length : Nat) : Envelope P :=
  .new P .broadcast .normal 2 100 (List.replicate length 0)

omit [DecidableEq ι] in
theorem not_sendable_heavy {length : Nat} (h : 2 ^ 32 ≤ length) :
    ¬ (heavy P length).Sendable := by
  intro hsendable
  have hlt : (heavy P length).sealed.length < 2 ^ 32 := ContactMessage.length_sealed_lt hsendable
  rw [heavy, Envelope.new, List.length_replicate] at hlt
  omega

/-- Stores do not always merge: an envelope of 4 GiB is pushed in a frame that nobody can
read. -/
theorem not_merges : ¬ ∃ P : Primitives, ∀ (route : Topology Bool) (l : Link route)
    (clock : Set UInt64) (now : UInt64) (w₀ w w' : Traffic P Bool), Meeting l clock now w₀ w →
    ReflTransGen (Traffic.Delivers route clock) w w' → w'.inFlight = [] →
    ∀ side, Merged now (w₀.engine (l.node side)).held (w₀.engine (l.node !side)).held
      (w'.engine (l.node side)).held := by
  rintro ⟨P, hmerges⟩
  obtain ⟨w, hconnects⟩ : ∃ w, (lone (heavy P (2 ^ 32))).connect toyLink = some w :=
    ⟨_, connect_eq toyLink _⟩
  have hmeeting := meeting_lone _ hconnects
  have hinert : Inert (lone (heavy P (2 ^ 32))) w := by
    refine hmeeting.inert fun side x hget => ?_
    have hget' : (loneStore (heavy P (2 ^ 32)) side).get x.id = some x := hget
    rw [(get_loneStore hget').1]
    exact not_sendable_heavy (Nat.le_refl _)
  have hsolve : ∀ node id,
      (Puzzle.solve P id (w.engine node).puzzleDifficultyBits).isSome := by
    intro node id
    have hbits : (w.engine node).puzzleDifficultyBits = 0 :=
      (hmeeting.underway.received node).difficulty
    rw [hbits, Puzzle.solve_zero]
    rfl
  obtain ⟨w', hrun, hquiet⟩ := Traffic.exists_quiet hsolve (Set.singleton_nonempty 0)
  have hmerged := hmerges _ toyLink {0} 0 _ w w' hmeeting hrun hquiet true
  have hgiven : (w'.engine true).held.get (heavy P (2 ^ 32)).id =
      some { heavy P (2 ^ 32) with ttlHops := (heavy P (2 ^ 32)).ttlHops - 1 } :=
    (hmerged _ _).mpr
      (.inr ⟨rfl, heavy P (2 ^ 32), Store.get_insert_self, rfl, Nat.le_refl 2, rfl⟩)
  have hheld := (hinert.of_run hrun).held true
    { heavy P (2 ^ 32) with ttlHops := (heavy P (2 ^ 32)).ttlHops - 1 } hgiven
  cases hheld

def toyStart : Traffic toyPrimitives Bool := lone (toyEnvelope 3)

def toyConnected : Traffic toyPrimitives Bool := (toyStart.connect toyLink).getD toyStart

def toyMet : Traffic toyPrimitives Bool := (do
  let w ← toyConnected.deliver Traffic.toyTopology 0 0
  let w ← w.deliver Traffic.toyTopology 0 0
  w.deliver Traffic.toyTopology 0 0).getD toyConnected

theorem fits_toyStart (side : Bool) :
    Fits (toyStart.engine (toyLink.node side)) (toyStart.engine (toyLink.node !side)) := by
  have hfilter : ∀ side, (toyStart.engine (toyLink.node !side)).held.summaryBloom.numBits <
    2 ^ 32 := by decide
  have henvelopes : ∀ side, ∀ x ∈ (toyStart.engine (toyLink.node side)).held.relayable
      (toyStart.engine (toyLink.node !side)).held, (ContactMessage.data x 0).Fits := by
    decide
  exact ⟨hfilter side, henvelopes side⟩

theorem merges_toyMet : toyMet.inFlight = [] ∧
    (toyMet.engine true).held.get (toyEnvelope 2).id = some (toyEnvelope 2) := by
  have hconnects : toyStart.connect toyLink = some toyConnected := by
    rw [toyConnected, connect_eq, Option.getD_some]
  have hsome : (do
      let w ← toyConnected.deliver Traffic.toyTopology 0 0
      let w ← w.deliver Traffic.toyTopology 0 0
      w.deliver Traffic.toyTopology 0 0).isSome := by decide
  obtain ⟨w, hw⟩ := Option.isSome_iff_exists.mp hsome
  have hmet : toyMet = w := by rw [toyMet, hw, Option.getD_some]
  simp only [Option.bind_eq_bind, Option.bind_eq_some_iff] at hw
  obtain ⟨w₁, h₁, w₂, h₂, h₃⟩ := hw
  have hrun : ReflTransGen (Traffic.Delivers Traffic.toyTopology {0}) toyConnected toyMet :=
    hmet ▸ .head ⟨0, 0, rfl, h₁⟩ (.head ⟨0, 0, rfl, h₂⟩ (.single ⟨0, 0, rfl, h₃⟩))
  have hquiet : toyMet.inFlight = [] := by decide
  have hmerged := (merges (meeting_lone _ hconnects) fits_toyStart).1 toyMet hrun hquiet true
  refine ⟨hquiet, (hmerged _ _).mpr (.inr ⟨?_, toyEnvelope 3, ?_, ?_, ?_, ?_⟩)⟩ <;> decide

end Counterexample

end ProjectMesh.Routing
