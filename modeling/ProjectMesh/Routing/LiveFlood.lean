import ProjectMesh.Lib.LiveFlood
import ProjectMesh.Routing.ContactQueue
import ProjectMesh.Routing.LiveLinks
import ProjectMesh.Routing.ProvenFrames
import ProjectMesh.Routing.Traffic
import ProjectMesh.Routing.WireFormat

namespace ProjectMesh.Routing

open ProjectMesh.Lib Relation

variable {P : Primitives} {ι : Type}

/-- Nothing keeps the envelope of that id from an engine: what it is offered it has room for,
its links stay, and the frames of the envelope come in time and within the sender's budget. -/
structure Unhindered (id : EnvelopeId) (e : RelayEngine P) (event : Event P) : Prop where
  room : ∀ {x}, RelayEngine.Offers x event → e.held.len < e.held.capacity
  linked : ∀ peer, event ≠ .lost peer
  difficulty : ∀ bits, event ≠ .setPuzzleDifficulty bits
  other : ∀ x now, event = .compose x now → x.id ≠ id
  inTime : ∀ {fromPeer bytes now x nonce}, event = .frame fromPeer bytes now →
    ContactMessage.fromBytes P bytes = .ok (.data x nonce) → x.id = id →
    x.isExpired now = false ∧ (e.budget fromPeer now bytes.length).1 = true

namespace Store

variable {s : Store P} {x y : Envelope P} {now : UInt64} {id : EnvelopeId}

theorem accept_of_room (x : Envelope P) (now : UInt64) (hroom : s.len < s.capacity) :
    (s.accept x now).1.1 ≠ .new ∧ (s.accept x now).2 = s ∨
      s.contains x.id = false ∧ s.accept x now = ((.new, none), s.insert x) := by
  have hoffered := accept_offered s x now
  generalize s.accept x now = result at hoffered
  cases hoffered with
  | duplicate | expired | ttlExhausted => exact .inl ⟨nofun, rfl⟩
  | new hdup => exact .inr ⟨hdup, rfl⟩
  | refused _ _ _ hfull | replaced _ _ _ hfull => exact absurd hroom (Nat.not_lt.mpr hfull)
  | overfull _ _ _ _ _ hfull =>
    refine absurd hroom (Nat.not_lt.mpr (Nat.le_trans hfull ?_))
    exact Assoc.size_erase_le _ _

theorem get_accept_of_room (hroom : s.len < s.capacity) (h : s.get id = some y) :
    (s.accept x now).2.get id = some y := by
  rcases accept_of_room x now hroom with ⟨-, heq⟩ | ⟨hdup, heq⟩
  · rw [heq, h]
  · rw [heq]
    have hne : id ≠ x.id := by
      rintro rfl
      rw [contains_eq_false_iff.mp hdup] at h
      cases h
    exact (get_insert_of_ne hne).trans h

theorem get_of_accept_new (hroom : s.len < s.capacity) (h : (s.accept x now).1.1 = .new) :
    (s.accept x now).2.get x.id = some x := by
  rcases accept_of_room x now hroom with ⟨hnew, -⟩ | ⟨-, heq⟩
  · exact absurd h hnew
  · rw [heq]
    exact get_insert_self

end Store

namespace RelayEngine

variable {e next : RelayEngine P} {event : Event P} {outbound : List Outbound}
  {id : EnvelopeId} {x y : Envelope P} {bytes frame : List UInt8}
  {fromPeer peer now nonce : UInt64}

theorem sendable_of_fromBytes (h : ContactMessage.fromBytes P bytes = .ok (.data x nonce)) :
    x.Sendable := by
  have hbytes := h
  rw [← ContactMessage.toBytes_fromBytes h] at hbytes
  exact fits_data_iff.mp (ContactMessage.eq_of_fromBytes_data hbytes).2

theorem sound_act (hencrypts : P.Encrypts) (hsound : e.Sound)
    (hact : e.act event = some (outbound, next)) : next.Sound := by
  cases event with
  | connected | lost | setPuzzleDifficulty | setRateLimits =>
    cases hact
    exact hsound
  | compose x now =>
    have hcompose := sound_composeLocal x now e hsound
    rw [act] at hact
    split at hact
    · next hrun =>
      cases hact
      rwa [hrun] at hcompose
    · next hrun =>
      cases hact
      rwa [hrun] at hcompose
    · cases hact
  | frame fromPeer bytes now =>
    cases hmsg : ContactMessage.fromBytes P bytes with
    | error err =>
      rw [act, onFrame_malformed hmsg] at hact
      cases hact
      exact hsound
    | ok message =>
      cases message with
      | data x nonce =>
        obtain ⟨sent, after, hrun, hafter⟩ := onFrame_sound hencrypts hsound hmsg
          (sendable_of_fromBytes hmsg) fromPeer now
        rw [act, hrun] at hact
        cases hact
        exact hafter
      | summary filter =>
        rcases frame_acted hact with h | ⟨-, err, h⟩
        · cases h with
          | summary =>
            rw [greeted]
            split
            · exact hsound
            · exact hsound
          | unproven hmsg' | overBudget hmsg' | offered hmsg' => cases hmsg.symm.trans hmsg'
        · cases h with
          | malformed hmsg' | diskFault hmsg' => cases hmsg.symm.trans hmsg'

theorem frame_offered (hencrypts : P.Encrypts) (hsound : e.Sound)
    (hmsg : ContactMessage.fromBytes P bytes = .ok (.data x nonce))
    (hverify : Puzzle.verify P x.id nonce e.puzzleDifficultyBits = true)
    (hbudget : (e.budget fromPeer now bytes.length).1 = true)
    (hact : e.act (.frame fromPeer bytes now) = some (outbound, next)) :
    next.held = (e.held.accept x now).2 ∧
      outbound = if (e.held.accept x now).1.1 = .new then
        (e.charged fromPeer now bytes.length).relayToOthers x nonce fromPeer else [] := by
  obtain ⟨sent, after, hrun, -⟩ := onFrame_sound hencrypts hsound hmsg
    (sendable_of_fromBytes hmsg) fromPeer now
  rw [act, hrun] at hact
  cases hact
  have houtcome := onFrame_outcome e fromPeer bytes now
  rw [hrun] at houtcome
  cases houtcome with
  | summary hmsg' =>
    rw [hmsg] at hmsg'
    cases hmsg'
  | unproven hmsg' hverify' =>
    cases hmsg.symm.trans hmsg'
    cases hverify.symm.trans hverify'
  | overBudget hmsg' _ hbudget' =>
    cases hbudget.symm.trans hbudget'
  | offered hmsg' =>
    cases hmsg.symm.trans hmsg'
    exact ⟨rfl, rfl⟩

theorem compose_room (hencrypts : P.Encrypts) (hsound : e.Sound) (hsendable : x.Sendable)
    (hnone : e.held.get x.id = none) (hexpired : x.isExpired now = false) (httl : x.ttlHops ≠ 0)
    (hroom : e.held.len < e.held.capacity)
    (hact : e.act (.compose x now) = some (outbound, next)) :
    ∃ nonce, Puzzle.verify P x.id nonce e.puzzleDifficultyBits = true ∧
      outbound = e.relayToAll x nonce ∧ next.held = e.held.insert x ∧ next.peers = e.peers ∧
      next.puzzleDifficultyBits = e.puzzleDifficultyBits := by
  have haccept : e.store.memory.accept x now = ((.new, none), e.held.insert x) :=
    Store.accept_room (Store.contains_eq_false_iff.mpr hnone) hexpired httl hroom
  obtain ⟨disk, hrun, -⟩ := DurableStore.accept_run_sound hencrypts hsound
    (length_toBytes_of_sendable hsendable) now
  rw [haccept] at hrun
  cases hsolve : Puzzle.solve P x.id e.puzzleDifficultyBits with
  | none =>
    rw [act, composeLocal_unsolvable hsolve] at hact
    cases hact
  | some nonce =>
    rw [act, composeLocal_new hsolve hrun] at hact
    cases hact
    exact ⟨nonce, Puzzle.verify_of_solve hsolve, rfl, rfl, rfl, rfl⟩

section Unhindered

variable (hclear : Unhindered id e event) (hact : e.act event = some (outbound, next))

include hclear hact

theorem get_of_unhindered (h : e.held.get id = some y) : next.held.get id = some y := by
  cases acted hact with
  | connected | lost | malformed | unproven | overBudget | setPuzzleDifficulty | setRateLimits =>
    exact h
  | asked => rwa [held_greeted]
  | offered hmsg | offerFault hmsg =>
    exact Store.get_accept_of_room (hclear.room (.frame hmsg)) h
  | composed | composeFault => exact Store.get_accept_of_room (hclear.room .compose) h

theorem puzzleDifficultyBits_of_unhindered :
    next.puzzleDifficultyBits = e.puzzleDifficultyBits := by
  cases acted hact with
  | asked =>
    rw [greeted]
    split <;> rfl
  | @setPuzzleDifficulty bits => exact absurd rfl (hclear.difficulty bits)
  | _ => rfl

theorem mem_peers_of_unhindered (h : peer ∈ e.peers) : peer ∈ next.peers := by
  by_cases hconnected : ∃ other, event = .connected other
  · obtain ⟨other, rfl⟩ := hconnected
    cases hact
    exact mem_peers_setPeer.mpr (.inr h)
  · exact (mem_peers_act hact (fun other heq => hconnected ⟨other, heq⟩) hclear.linked).mpr (.inr h)

theorem frame_of_unhindered (hencrypts : P.Encrypts) (hsound : e.Sound)
    (hevent : event = .frame fromPeer bytes now)
    (hmsg : ContactMessage.fromBytes P bytes = .ok (.data x nonce)) (hid : x.id = id)
    (hverify : Puzzle.verify P id nonce e.puzzleDifficultyBits = true) :
    next.held = (e.held.accept x now).2 ∧ x.isExpired now = false ∧
      outbound = if (e.held.accept x now).1.1 = .new then
        (e.charged fromPeer now bytes.length).relayToOthers x nonce fromPeer else [] := by
  obtain ⟨hexpired, hbudget⟩ := hclear.inTime hevent hmsg hid
  subst hevent hid
  obtain ⟨hheld, houtbound⟩ := frame_offered hencrypts hsound hmsg hverify hbudget hact
  exact ⟨hheld, hexpired, houtbound⟩

theorem isSome_of_unhindered (hencrypts : P.Encrypts) (hsound : e.Sound)
    (hevent : event = .frame fromPeer bytes now)
    (hmsg : ContactMessage.fromBytes P bytes = .ok (.data x nonce)) (hid : x.id = id)
    (hverify : Puzzle.verify P id nonce e.puzzleDifficultyBits = true)
    (httl : 1 ≤ x.ttlHops.toNat) : (next.held.get id).isSome := by
  have hoffers : Offers x event := by
    rw [hevent]
    exact .frame hmsg
  have hroom := hclear.room hoffers
  obtain ⟨hheld, hexpired, -⟩ :=
    frame_of_unhindered hclear hact hencrypts hsound hevent hmsg hid hverify
  subst hid
  cases hdup : e.held.contains x.id with
  | true =>
    rw [hheld, Store.accept_duplicate hdup]
    exact hdup
  | false =>
    have hne : x.ttlHops ≠ 0 := by
      intro hzero
      rw [hzero] at httl
      exact absurd httl (by decide)
    rw [hheld, Store.accept_room hdup hexpired hne hroom, Store.get_insert_self]
    rfl

theorem fresh_of_unhindered (hencrypts : P.Encrypts) (hsound : e.Sound)
    (hverify : ∀ {fromPeer bytes now x nonce}, event = .frame fromPeer bytes now →
      ContactMessage.fromBytes P bytes = .ok (.data x nonce) → x.id = id →
      Puzzle.verify P id nonce e.puzzleDifficultyBits = true)
    (hnone : e.held.get id = none) (hsome : next.held.get id = some y) :
    ∃ fromPeer bytes now nonce, event = .frame fromPeer bytes now ∧
      ContactMessage.fromBytes P bytes = .ok (.data y nonce) ∧
      ∀ relayed, decrementTtl y = some relayed → ∀ peer ∈ e.peers, peer ≠ fromPeer →
        (peer, (ContactMessage.data relayed nonce).toBytes) ∈ outbound := by
  have hid := Store.id_of_get hsome
  rcases held_act hact hsome with hheld | ⟨hoffers, -⟩
  · cases hnone.symm.trans hheld
  · cases hoffers with
    | compose => exact absurd hid (hclear.other y _ rfl)
    | @frame fromPeer bytes now nonce hmsg =>
      obtain ⟨hheld, -, houtbound⟩ := frame_of_unhindered hclear hact hencrypts hsound rfl hmsg hid
        (hverify rfl hmsg hid)
      have hnew : (e.held.accept y now).1.1 = .new := by
        rw [hheld] at hsome
        rcases Store.get_accept hsome with h | ⟨-, -, h⟩
        · cases hnone.symm.trans h
        · exact h
      refine ⟨fromPeer, bytes, now, nonce, rfl, hmsg, fun relayed hdec peer hpeer hne => ?_⟩
      rw [houtbound, if_pos hnew]
      exact mem_relayTo_of_decrementTtl hdec (mem_peers_setPeer.mpr (.inr hpeer))
        (beq_eq_false_iff_ne.mpr hne)

theorem sent_of_unhindered (hmem : (peer, frame) ∈ outbound)
    (hmsg : ContactMessage.fromBytes P frame = .ok (.data x nonce)) (hid : x.id = id) :
    1 ≤ x.ttlHops.toNat ∧
      ∃ y, next.held.get id = some y ∧ y.ttlHops.toNat = x.ttlHops.toNat + 1 := by
  have hsource : ∀ {y : Envelope P}, decrementTtl y = some x → next.held.get y.id = some y →
      1 ≤ x.ttlHops.toNat ∧
        ∃ y, next.held.get id = some y ∧ y.ttlHops.toNat = x.ttlHops.toNat + 1 := by
    intro y hdec hget
    obtain ⟨heq, hpos⟩ := ttlHops_decrementTtl hdec
    rw [← id_decrementTtl hdec, hid] at hget
    exact ⟨hpos, y, hget, heq⟩
  cases acted hact with
  | connected =>
    cases List.mem_singleton.mp hmem
    exact absurd hmsg not_data_summary
  | lost | setPuzzleDifficulty | setRateLimits | malformed | unproven | overBudget | offerFault
  | composeFault => cases hmem
  | asked =>
    rcases List.mem_append.mp hmem with hmem | hmem
    · exact absurd hmsg (not_data_reply hmem)
    · obtain ⟨⟨y, hy, hdec⟩, -⟩ := mem_pushFrames hmem hmsg
      refine hsource hdec ?_
      rw [held_greeted]
      exact (Store.mem_missingFromBloom_iff.mp hy).1
  | offered hmsg' =>
    split at hmem
    · next hnew =>
      exact hsource (mem_relayTo hmem hmsg).1
        (Store.get_of_accept_new (hclear.room (.frame hmsg')) hnew)
    · cases hmem
  | composed =>
    split at hmem
    · next hnew =>
      exact hsource (mem_relayTo hmem hmsg).1 (Store.get_of_accept_new (hclear.room .compose) hnew)
    · cases hmem

end Unhindered

end RelayEngine

def Topology.links (route : Topology ι)
    (hsymm : ∀ {a p b q}, route a p = some (b, q) → route b q = some (a, p))
    (w : Traffic P ι) : LiveFlood.Links ι UInt64 where
  route := route
  symm := hsymm
  up node := {peer | peer ∈ (w.engine node).peers}

namespace Traffic

def Carries (P : Primitives) (id : EnvelopeId) (bytes : List UInt8) (x : Envelope P)
    (nonce : UInt64) : Prop :=
  ContactMessage.fromBytes P bytes = .ok (.data x nonce) ∧ x.id = id

def flow (w : Traffic P ι) (id : EnvelopeId) : LiveFlood.Flow ι UInt64 where
  copy node := ((w.engine node).held.get id).map fun x => x.ttlHops.toNat
  inFlight := {parcel | ∃ bytes x nonce, ⟨parcel.receiver, parcel.port, bytes⟩ ∈ w.inFlight ∧
    Carries P id bytes x nonce ∧ x.ttlHops.toNat = parcel.hops}

def Quiet (w : Traffic P ι) (id : EnvelopeId) : Prop :=
  ∀ packet ∈ w.inFlight, ∀ x nonce, ¬ Carries P id packet.bytes x nonce

structure Healthy (bits : UInt8) (id : EnvelopeId) (w : Traffic P ι) : Prop where
  sound : ∀ node, (w.engine node).Sound
  difficulty : ∀ node, (w.engine node).puzzleDifficultyBits = bits
  proven : ∀ packet ∈ w.inFlight, ∀ x nonce, Carries P id packet.bytes x nonce →
    Puzzle.verify P id nonce bits = true

theorem verify_of_sent {e next : RelayEngine P} {event : Event P} {outbound : List Outbound}
    {id : EnvelopeId} {bits : UInt8} {peer nonce : UInt64} {bytes : List UInt8} {x : Envelope P}
    (hbits : e.puzzleDifficultyBits = bits) (hact : e.act event = some (outbound, next))
    (hmem : (peer, bytes) ∈ outbound) (hcarries : Carries P id bytes x nonce) :
    Puzzle.verify P id nonce bits = true := by
  obtain ⟨hmsg, rfl⟩ := hcarries
  rcases RelayEngine.proven_act hact hmem with ⟨filter, heq⟩ | ⟨y, nonce', heq, hverify⟩
  · cases heq
    obtain ⟨other, hother⟩ := ContactMessage.summary_of_fromBytes hmsg
    cases hother
  · cases heq
    cases (ContactMessage.eq_of_fromBytes_data hmsg).1
    rwa [← hbits]

section Flow

variable [DecidableEq ι] {route : Topology ι} {w w' : Traffic P ι} {id : EnvelopeId}
  {bits : UInt8} {node : ι} {event : Event P} {outbound : List Outbound} {next : RelayEngine P}
  {rest : List (Packet ι)}

omit [DecidableEq ι] in
theorem copy_eq_some {hops : Nat} : (w.flow id).copy node = some hops ↔
    ∃ x, (w.engine node).held.get id = some x ∧ x.ttlHops.toNat = hops :=
  Option.map_eq_some_iff

structure Took (w : Traffic P ι) (node : ι) (event : Event P) (rest : List (Packet ι)) : Prop where
  subset : ∀ packet ∈ rest, packet ∈ w.inFlight
  gone : ∀ packet ∈ w.inFlight, packet ∈ rest ∨ packet.receiver = node ∧
    ∃ now, event = .frame packet.fromPeer packet.bytes now

def Genuine (w : Traffic P ι) (id : EnvelopeId) (node : ι) (event : Event P) : Prop :=
  ∀ {fromPeer bytes now x nonce}, event = .frame fromPeer bytes now →
    Carries P id bytes x nonce → ⟨node, fromPeer, bytes⟩ ∈ w.inFlight

omit [DecidableEq ι] in
theorem mem_packets {peer fromPeer : UInt64} {bytes : List UInt8} {receiver : ι}
    (hmem : (peer, bytes) ∈ outbound) (hroute : route node peer = some (receiver, fromPeer)) :
    ⟨receiver, fromPeer, bytes⟩ ∈ route.packets node outbound :=
  List.mem_filterMap.mpr ⟨(peer, bytes), hmem, by simp only [hroute, Option.map_some]⟩

variable (hsymm : ∀ {a p b q}, route a p = some (b, q) → route b q = some (a, p))
  {w₀ : Traffic P ι}

theorem step_of_unhindered (hencrypts : P.Encrypts) (hhealthy : w.Healthy bits id)
    (hpeers : ∀ node peer, peer ∈ (w₀.engine node).peers → peer ∈ (w.engine node).peers)
    (hclear : Unhindered id (w.engine node) event) (htook : w.Took node event rest)
    (hgenuine : w.Genuine id node event)
    (hact : (w.engine node).act event = some (outbound, next))
    (hengine : w'.engine = Function.update w.engine node next)
    (hflight : w'.inFlight = rest ++ route.packets node outbound) :
    LiveFlood.Step (route.links hsymm w₀) (w.flow id) (w'.flow id) := by
  have hsound := hhealthy.sound node
  have hverify : ∀ {fromPeer bytes now x nonce}, event = .frame fromPeer bytes now →
      ContactMessage.fromBytes P bytes = .ok (.data x nonce) → x.id = id →
      Puzzle.verify P id nonce (w.engine node).puzzleDifficultyBits = true := by
    intro fromPeer bytes now x nonce hevent hmsg hid
    rw [hhealthy.difficulty]
    exact hhealthy.proven _ (hgenuine hevent ⟨hmsg, hid⟩) x nonce ⟨hmsg, hid⟩
  constructor
  · intro other hops hcopy
    obtain ⟨x, hget, rfl⟩ := copy_eq_some.mp hcopy
    refine copy_eq_some.mpr ⟨x, ?_, rfl⟩
    rw [hengine]
    by_cases hother : other = node
    · subst hother
      rw [Function.update_self]
      exact RelayEngine.get_of_unhindered hclear hact hget
    · rwa [Function.update_of_ne hother]
  · intro other hops hnone hcopy
    obtain ⟨x, hget, rfl⟩ := copy_eq_some.mp hcopy
    have hnone : (w.engine other).held.get id = none := Option.map_eq_none_iff.mp hnone
    rw [hengine] at hget
    by_cases hother : other = node
    · subst hother
      rw [Function.update_self] at hget
      obtain ⟨fromPeer, bytes, now, nonce, hevent, hmsg, hfloods⟩ :=
        RelayEngine.fresh_of_unhindered hclear hact hencrypts hsound hverify hnone hget
      have hid := Store.id_of_get hget
      refine ⟨fromPeer, ⟨bytes, x, nonce, hgenuine hevent ⟨hmsg, hid⟩, ⟨hmsg, hid⟩, rfl⟩, ?_⟩
      intro hhops peer hpeer hne receiver port hroute
      have hdec := decrementTtl_eq_some_iff.mpr ⟨hhops, rfl⟩
      have hframe := hfloods _ hdec peer (hpeers other peer hpeer) hne
      have hsendable := (RelayEngine.sendable_decrementTtl hdec).mpr
        (RelayEngine.sendable_of_fromBytes hmsg)
      refine ⟨_, _, nonce, ?_, ⟨ContactMessage.fromBytes_data
        (RelayEngine.fits_data_iff.mpr hsendable), hid⟩, ?_⟩
      · rw [hflight]
        exact List.mem_append_right _ (mem_packets hframe hroute)
      · exact Nat.eq_sub_of_add_eq (ttlHops_decrementTtl hdec).1.symm
    · rw [Function.update_of_ne hother, hnone] at hget
      cases hget
  · rintro ⟨receiver, fromPeer, hops⟩ ⟨bytes, x, nonce, hmem, hcarries, rfl⟩ hgone hpos
    rcases htook.gone _ hmem with hrest | ⟨rfl, now, hevent⟩
    · refine absurd ⟨bytes, x, nonce, ?_, hcarries, rfl⟩ hgone
      rw [hflight]
      exact List.mem_append_left _ hrest
    · have hsome := RelayEngine.isSome_of_unhindered hclear hact hencrypts hsound hevent
        hcarries.1 hcarries.2 (hverify hevent hcarries.1 hcarries.2) hpos
      rw [flow, Option.isSome_map, hengine, Function.update_self]
      exact hsome
  · rintro ⟨receiver, fromPeer, hops⟩ ⟨bytes, x, nonce, hmem, hcarries, rfl⟩ hnew
    rw [hflight] at hmem
    rcases List.mem_append.mp hmem with hrest | hsent
    · exact absurd ⟨bytes, x, nonce, htook.subset _ hrest, hcarries, rfl⟩ hnew
    · obtain ⟨peer, hframe, hroute⟩ := frame_of_mem_packets hsent
      obtain ⟨hpos, y, hget, hhops⟩ :=
        RelayEngine.sent_of_unhindered hclear hact hframe hcarries.1 hcarries.2
      refine ⟨hpos, node, peer, copy_eq_some.mpr ⟨y, ?_, hhops⟩, hroute⟩
      rw [hengine, Function.update_self]
      exact hget

theorem Healthy.step (hencrypts : P.Encrypts) (h : w.Healthy bits id)
    (hclear : Unhindered id (w.engine node) event) (htook : w.Took node event rest)
    (hact : (w.engine node).act event = some (outbound, next))
    (hengine : w'.engine = Function.update w.engine node next)
    (hflight : w'.inFlight = rest ++ route.packets node outbound) : w'.Healthy bits id := by
  constructor
  · rw [hengine, Function.forall_update_iff w.engine fun _ e => e.Sound]
    exact ⟨RelayEngine.sound_act hencrypts (h.sound node) hact, fun other _ => h.sound other⟩
  · rw [hengine, Function.forall_update_iff w.engine fun _ e => e.puzzleDifficultyBits = bits,
      RelayEngine.puzzleDifficultyBits_of_unhindered hclear hact]
    exact ⟨h.difficulty node, fun other _ => h.difficulty other⟩
  · intro packet hmem x nonce hcarries
    rw [hflight] at hmem
    rcases List.mem_append.mp hmem with hrest | hsent
    · exact h.proven packet (htook.subset packet hrest) x nonce hcarries
    · obtain ⟨peer, hframe, -⟩ := frame_of_mem_packets hsent
      exact verify_of_sent (h.difficulty node) hact hframe hcarries

/-- A frame in flight arrives, or a node does something else, and nothing hinders the envelope.
What comes to a node from elsewhere is anything but a frame of it. -/
inductive Goes (route : Topology ι) (id : EnvelopeId) (w w' : Traffic P ι) : Prop
  | arrives {k : Nat} {now : UInt64} {packet : Packet ι} : w.inFlight[k]? = some packet →
    Unhindered id (w.engine packet.receiver) (.frame packet.fromPeer packet.bytes now) →
    w.deliver route k now = some w' → Goes route id w w'
  | acts {node : ι} {event : Event P} : Unhindered id (w.engine node) event →
    (∀ fromPeer bytes now x nonce, event = .frame fromPeer bytes now →
      ¬ Carries P id bytes x nonce) →
    w.call route node event = some w' → Goes route id w w'

theorem Goes.cases (h : Goes route id w w') : ∃ node event outbound next rest,
    Unhindered id (w.engine node) event ∧ w.Took node event rest ∧ w.Genuine id node event ∧
      (w.engine node).act event = some (outbound, next) ∧
      w'.engine = Function.update w.engine node next ∧
      w'.inFlight = rest ++ route.packets node outbound := by
  cases h with
  | @arrives k now packet hpacket hclear hdeliver =>
    obtain ⟨packet', outbound, next, hpacket', hact, rfl⟩ := deliver_cases hdeliver
    cases hpacket.symm.trans hpacket'
    obtain ⟨hk, hget⟩ := List.getElem?_eq_some_iff.mp hpacket
    have hperm := List.getElem_cons_eraseIdx_perm hk
    refine ⟨_, _, outbound, next, _, hclear, ⟨fun other hmem => ?_, fun other hmem => ?_⟩, ?_,
      hact, rfl, rfl⟩
    · exact List.eraseIdx_subset hmem
    · rcases List.mem_cons.mp (hperm.mem_iff.mpr hmem) with heq | hmem
      · rw [hget] at heq
        subst heq
        exact .inr ⟨rfl, now, rfl⟩
      · exact .inl hmem
    · intro fromPeer bytes now x nonce hevent hcarries
      cases hevent
      exact List.mem_of_getElem? hpacket
  | @acts node event hclear hforeign hcall =>
    simp only [call, Option.bind_eq_bind, Option.bind_eq_some_iff] at hcall
    obtain ⟨⟨outbound, next⟩, hact, heq⟩ := hcall
    cases heq
    refine ⟨node, event, outbound, next, w.inFlight, hclear, ⟨fun _ h => h, fun _ h => .inl h⟩,
      ?_, hact, rfl, rfl⟩
    intro fromPeer bytes now x nonce hevent hcarries
    exact absurd hcarries (hforeign fromPeer bytes now x nonce hevent)

structure Flooding (bits : UInt8) (id : EnvelopeId) (w₀ w : Traffic P ι) :
    Prop extends Healthy bits id w where
  peers : ∀ node peer, peer ∈ (w₀.engine node).peers → peer ∈ (w.engine node).peers

theorem Flooding.goes (hencrypts : P.Encrypts) (h : Flooding bits id w₀ w)
    (hgoes : Goes route id w w') :
    Flooding bits id w₀ w' ∧
      LiveFlood.Step (route.links hsymm w₀) (w.flow id) (w'.flow id) := by
  obtain ⟨node, event, outbound, next, rest, hclear, htook, hgenuine, hact, hengine, hflight⟩ :=
    hgoes.cases
  refine ⟨⟨h.toHealthy.step hencrypts hclear htook hact hengine hflight, ?_⟩, ?_⟩
  · rw [hengine, Function.forall_update_iff w.engine fun other e =>
      ∀ peer, peer ∈ (w₀.engine other).peers → peer ∈ e.peers]
    exact ⟨fun peer hpeer => RelayEngine.mem_peers_of_unhindered hclear hact
      (h.peers node peer hpeer), fun other _ => h.peers other⟩
  · exact step_of_unhindered hsymm hencrypts h.toHealthy h.peers hclear htook hgenuine hact
      hengine hflight

theorem Flooding.run (hencrypts : P.Encrypts) (h : Flooding bits id w₀ w)
    (hrun : ReflTransGen (Goes route id) w w') :
    Flooding bits id w₀ w' ∧
      ReflTransGen (LiveFlood.Step (route.links hsymm w₀)) (w.flow id) (w'.flow id) := by
  induction hrun with
  | refl => exact ⟨h, .refl⟩
  | tail _ hgoes ih =>
    obtain ⟨hnext, hstep⟩ := ih.1.goes hsymm hencrypts hgoes
    exact ⟨hnext, ih.2.tail hstep⟩

theorem flooding_of_compose {x : Envelope P} {origin : ι} {now : UInt64} {w₁ : Traffic P ι}
    (hencrypts : P.Encrypts) (hsound : ∀ node, (w.engine node).Sound)
    (hbits : ∀ node, (w.engine node).puzzleDifficultyBits = bits)
    (hnone : ∀ node, (w.engine node).held.get x.id = none) (hquiet : w.Quiet x.id)
    (hsendable : x.Sendable) (hexpired : x.isExpired now = false) (httl : x.ttlHops ≠ 0)
    (hroom : (w.engine origin).held.len < (w.engine origin).held.capacity)
    (hcompose : w.call route origin (.compose x now) = some w₁) :
    Flooding bits x.id w w₁ ∧
      LiveFlood.Spread (route.links hsymm w) x.ttlHops.toNat (w₁.flow x.id) ∧
      (w₁.engine origin).held.get x.id = some x := by
  simp only [call, Option.bind_eq_bind, Option.bind_eq_some_iff] at hcompose
  obtain ⟨⟨outbound, next⟩, hact, heq⟩ := hcompose
  cases heq
  obtain ⟨nonce, hverify, houtbound, hheld, hpeers, hdifficulty⟩ :=
    RelayEngine.compose_room hencrypts (hsound origin) hsendable (hnone origin) hexpired httl hroom
      hact
  have hparcel : ∀ {receiver fromPeer bytes y nonce'},
      (⟨receiver, fromPeer, bytes⟩ : Packet ι) ∈ w.inFlight ++ route.packets origin outbound →
        Carries P x.id bytes y nonce' → decrementTtl x = some y ∧
          (∃ peer, route origin peer = some (receiver, fromPeer)) ∧
          Puzzle.verify P x.id nonce' bits = true := by
    intro receiver fromPeer bytes y nonce' hmem hcarries
    rcases List.mem_append.mp hmem with hmem | hmem
    · exact absurd hcarries (hquiet _ hmem y nonce')
    · obtain ⟨peer, hframe, hroute⟩ := frame_of_mem_packets hmem
      refine ⟨?_, ⟨peer, hroute⟩, verify_of_sent (hbits origin) hact hframe hcarries⟩
      rw [houtbound] at hframe
      exact (RelayEngine.mem_relayTo hframe hcarries.1).1
  have horigin : ((Function.update w.engine origin next) origin).held.get x.id = some x := by
    rw [Function.update_self, hheld, Store.get_insert_self]
  refine ⟨⟨⟨?_, ?_, fun packet hmem y nonce' hcarries => (hparcel hmem hcarries).2.2⟩, ?_⟩, ?_,
    horigin⟩
  · exact (Function.forall_update_iff w.engine fun _ e => e.Sound).mpr
      ⟨RelayEngine.sound_act hencrypts (hsound origin) hact, fun node _ => hsound node⟩
  · exact (Function.forall_update_iff w.engine fun _ e => e.puzzleDifficultyBits = bits).mpr
      ⟨hdifficulty.trans (hbits origin), fun node _ => hbits node⟩
  · refine (Function.forall_update_iff w.engine fun node e =>
      ∀ peer, peer ∈ (w.engine node).peers → peer ∈ e.peers).mpr ⟨?_, fun node _ peer h => h⟩
    rw [hpeers]
    exact fun peer h => h
  · have hpos : 1 ≤ x.ttlHops.toNat :=
      Nat.one_le_iff_ne_zero.mpr fun h => httl (UInt8.toNat_inj.mp h)
    refine LiveFlood.Spread.start (copy_eq_some.mpr ⟨x, horigin, rfl⟩) ?_ hpos ?_ ?_
    · intro node hnode
      simp only [flow, Option.map_eq_none_iff, Function.update_of_ne hnode, hnone]
    · intro hhops peer hpeer _ receiver fromPeer hroute
      have hdec := decrementTtl_eq_some_iff.mpr ⟨hhops, rfl⟩
      have hsendable' := (RelayEngine.sendable_decrementTtl hdec).mpr hsendable
      have hframe : (peer, _) ∈ (w.engine origin).relayToAll x nonce :=
        RelayEngine.mem_relayTo_of_decrementTtl hdec hpeer rfl
      rw [← houtbound] at hframe
      refine ⟨_, _, nonce, List.mem_append_right _ (mem_packets hframe hroute),
        ⟨ContactMessage.fromBytes_data (RelayEngine.fits_data_iff.mpr hsendable'), rfl⟩, ?_⟩
      exact Nat.eq_sub_of_add_eq (ttlHops_decrementTtl hdec).1.symm
    · rintro ⟨receiver, fromPeer, hops⟩ ⟨bytes, y, nonce', hmem, hcarries, rfl⟩
      obtain ⟨hdec, hroute, -⟩ := hparcel hmem hcarries
      obtain ⟨hhops, hpos⟩ := ttlHops_decrementTtl hdec
      exact ⟨hpos, hhops.symm, hroute⟩

def Linked (route : Topology ι) (w : Traffic P ι) (a b : ι) : Prop :=
  ∃ peer ∈ (w.engine a).peers, ∃ fromPeer, route a peer = some (b, fromPeer)

end Flow

section Spreads

variable [DecidableEq ι] {route : Topology ι} {w w₁ w₂ : Traffic P ι} {bits : UInt8}
  {x : Envelope P} {origin : ι} {now : UInt64}

/-- Where nothing hinders it, an envelope spreads over live links, whatever the order in which
its frames arrive and whatever else goes on.  Once no frame of it is in flight, all nodes that
are linked to its origin hold it, or as many nodes as it had hops do. -/
theorem spreads_live [Finite ι] (hencrypts : P.Encrypts)
    (hsymm : ∀ {a p b q}, route a p = some (b, q) → route b q = some (a, p))
    (hsound : ∀ node, (w.engine node).Sound)
    (hbits : ∀ node, (w.engine node).puzzleDifficultyBits = bits)
    (hnone : ∀ node, (w.engine node).held.get x.id = none) (hquiet : w.Quiet x.id)
    (hsendable : x.Sendable) (hexpired : x.isExpired now = false) (httl : x.ttlHops ≠ 0)
    (hroom : (w.engine origin).held.len < (w.engine origin).held.capacity)
    (hcompose : w.call route origin (.compose x now) = some w₁)
    (hrun : ReflTransGen (Goes route x.id) w₁ w₂) (hdone : w₂.Quiet x.id) :
    (∀ node, ReflTransGen (Linked route w) origin node →
        ((w₂.engine node).held.get x.id).isSome) ∨
      x.ttlHops.toNat ≤ {node | ((w₂.engine node).held.get x.id).isSome}.ncard := by
  obtain ⟨hstart, hspread, hheld⟩ := flooding_of_compose hsymm hencrypts hsound hbits hnone
    hquiet hsendable hexpired httl hroom hcompose
  obtain ⟨-, hsteps⟩ := hstart.run hsymm hencrypts hrun
  have horigin := LiveFlood.Step.run_isSome hsteps
    (Option.isSome_of_eq_some (copy_eq_some.mpr ⟨x, hheld, rfl⟩))
  have hempty : (w₂.flow x.id).inFlight = ∅ := by
    refine Set.eq_empty_of_forall_notMem ?_
    rintro parcel ⟨bytes, y, nonce, hmem, hcarries, -⟩
    exact hdone _ hmem y nonce hcarries
  have hcopy : ∀ node, ((w₂.flow x.id).copy node).isSome =
      ((w₂.engine node).held.get x.id).isSome := fun node => Option.isSome_map
  have hholders : (w₂.flow x.id).holders =
      {node | ((w₂.engine node).held.get x.id).isSome} := by
    ext node
    rw [LiveFlood.Flow.mem_holders, hcopy]
    rfl
  by_cases hmany : x.ttlHops.toNat ≤ {node | ((w₂.engine node).held.get x.id).isSome}.ncard
  · exact .inr hmany
  · refine .inl fun node hlinked => ?_
    rcases (hspread.run hsteps).reaches hempty horigin hlinked with hsome | hle
    · rwa [hcopy] at hsome
    · rw [hholders] at hle
      exact absurd hle hmany

end Spreads

section Examples

theorem toyTopology_symm {a b : Bool} {p q : UInt64} (h : toyTopology a p = some (b, q)) :
    toyTopology b q = some (a, p) := by
  cases h
  simp [toyTopology]

def stillTraffic : Traffic toyPrimitives Bool := { toyTraffic with inFlight := [] }

def postedTraffic : Traffic toyPrimitives Bool :=
  (stillTraffic.call toyTopology false (.compose (toyEnvelope 3) 0)).getD stillTraffic

def postedPacket : Packet Bool := ⟨true, 7, (ContactMessage.data (toyEnvelope 2) 0).toBytes⟩

def spreadTraffic : Traffic toyPrimitives Bool :=
  (postedTraffic.deliver toyTopology 0 1).getD postedTraffic

theorem eq_some_getD {α : Type} {o : Option α} (h : o.isSome) (default : α) :
    o = some (o.getD default) :=
  (Option.getD_of_ne_none (Option.ne_none_iff_isSome.mpr h) default).symm

theorem call_stillTraffic : stillTraffic.call toyTopology false (.compose (toyEnvelope 3) 0) =
    some postedTraffic := eq_some_getD (by decide) _

theorem deliver_postedTraffic : postedTraffic.deliver toyTopology 0 1 = some spreadTraffic :=
  eq_some_getD (by decide) _

theorem unhindered_postedPacket : Unhindered (toyEnvelope 3).id (postedTraffic.engine true)
    (.frame postedPacket.fromPeer postedPacket.bytes 1) where
  room _ := by decide
  linked _ := nofun
  difficulty _ := nofun
  other _ _ := nofun
  inTime := by
    rintro _ _ _ x nonce ⟨⟩ hmsg -
    cases (ContactMessage.eq_of_fromBytes_data hmsg).1
    exact ⟨by decide, by decide⟩

theorem goes_postedTraffic :
    Goes toyTopology (toyEnvelope 3).id postedTraffic spreadTraffic := by
  have hpacket : postedTraffic.inFlight[0]? = some postedPacket := by decide
  exact .arrives hpacket unhindered_postedPacket deliver_postedTraffic

theorem linked_stillTraffic : Linked toyTopology stillTraffic false true :=
  ⟨7, by decide, 7, rfl⟩

theorem spreads_live_toyTraffic :
    ((spreadTraffic.engine true).held.get (toyEnvelope 3).id).isSome := by
  have hsound : ∀ node, (stillTraffic.engine node).Sound := fun _ => rfl
  have hbits : ∀ node, (stillTraffic.engine node).puzzleDifficultyBits = 0 := fun _ => rfl
  have hnone : ∀ node, (stillTraffic.engine node).held.get (toyEnvelope 3).id = none :=
    fun _ => rfl
  have hdone : spreadTraffic.inFlight = [] := by decide
  have hquiet : ∀ {w : Traffic toyPrimitives Bool} {id : EnvelopeId}, w.inFlight = [] →
      w.Quiet id := by
    intro w id hnil packet hmem
    rw [hnil] at hmem
    cases hmem
  rcases spreads_live (P := toyPrimitives) (fun _ _ _ _ _ => rfl) toyTopology_symm hsound hbits
    hnone (hquiet rfl) (by decide) rfl (by decide) (by decide) call_stillTraffic
    (.single goes_postedTraffic) (hquiet hdone) with hall | hmany
  · exact hall true (.single linked_stillTraffic)
  · have hle := Set.ncard_le_card {node |
      ((spreadTraffic.engine node).held.get (toyEnvelope 3).id).isSome}
    have hthree : (toyEnvelope 3).ttlHops.toNat = 3 := rfl
    rw [Nat.card_eq_fintype_card, Fintype.card_bool] at hle
    omega

end Examples

end Traffic

end ProjectMesh.Routing
