import Mathlib.Data.Finset.Basic
import ProjectMesh.Routing.RateCap

namespace ProjectMesh.Routing

open ProjectMesh.Lib

variable {P : Primitives}

/-- The peers whose link is up, and those that an engine knows although theirs is not: a
frame of theirs came before they connected, or after they were lost. -/
structure Links where
  up : Finset UInt64
  stray : Finset UInt64

/-- The peer that a frame puts on the map, wherever it comes from. -/
def RelayEngine.registers (e : RelayEngine P) : Event P → Option UInt64
  | .frame fromPeer bytes _ =>
    match ContactMessage.fromBytes P bytes with
    | .ok (.summary _) => some fromPeer
    | .ok (.data envelope nonce) =>
      if Puzzle.verify P envelope.id nonce e.puzzleDifficultyBits then some fromPeer else none
    | .error _ => none
  | _ => none

namespace RelayEngine

def Stores (e : RelayEngine P) (envelope : Envelope P) (now : UInt64) : Prop :=
  Method.seen ((DurableStore.accept envelope now).run e.store) = .ok .new

instance {e : RelayEngine P} {envelope : Envelope P} {now : UInt64} :
    Decidable (e.Stores envelope now) := inferInstanceAs (Decidable (_ = _))

/-- The event brings the store an envelope that has a hop to go, and the store takes it in. -/
def spreads (e : RelayEngine P) (event : Event P) : Bool :=
  (e.offering event).any fun offer =>
    decide (e.Stores offer.1 offer.2 ∧ 2 ≤ offer.1.ttlHops.toNat)

theorem stores_or (e : RelayEngine P) (envelope : Envelope P) (now : UInt64) :
    (e.Stores envelope now ∧
        ∃ store, (DurableStore.accept envelope now).run e.store = .ok .new store) ∨
      ¬ e.Stores envelope now ∧
        ((∃ outcome store, outcome ≠ .new ∧
            (DurableStore.accept envelope now).run e.store = .ok outcome store) ∨
          ∃ f store, (DurableStore.accept envelope now).run e.store = .error f store) := by
  rw [Stores]
  cases (DurableStore.accept envelope now).run e.store with
  | ok outcome store =>
    rw [Method.seen_ok]
    by_cases hnew : outcome = .new
    · exact .inl ⟨congrArg _ hnew, store, hnew ▸ rfl⟩
    · exact .inr ⟨fun h => hnew (Except.ok.inj h), .inl ⟨outcome, store, hnew, rfl⟩⟩
  | error f store =>
    refine .inr ⟨fun h => ?_, .inr ⟨f, store, rfl⟩⟩
    cases h

theorem spreads_iff {e : RelayEngine P} {event : Event P} : e.spreads event = true ↔
    ∃ envelope now store, e.offering event = some (envelope, now) ∧ 2 ≤ envelope.ttlHops.toNat ∧
      (DurableStore.accept envelope now).run e.store = .ok .new store := by
  simp only [spreads, Option.any_eq_true, Prod.exists, decide_eq_true_iff]
  refine exists_congr fun envelope => exists_congr fun now => ?_
  rcases e.stores_or envelope now with ⟨hstores, store, haccept⟩ |
    ⟨hstores, ⟨outcome, store, hnew, haccept⟩ | ⟨f, store, haccept⟩⟩
  · exact ⟨fun h => ⟨store, h.1, h.2.2, haccept⟩, fun ⟨_, hoffering, httl, _⟩ =>
      ⟨hoffering, hstores, httl⟩⟩
  · refine iff_of_false (fun h => hstores h.2.1) ?_
    rintro ⟨store', -, -, h⟩
    cases haccept.symm.trans h
    exact hnew rfl
  · refine iff_of_false (fun h => hstores h.2.1) ?_
    rintro ⟨store', -, -, h⟩
    cases haccept.symm.trans h

end RelayEngine

namespace Links

def start : Links where
  up := ∅
  stray := ∅

def register (links : Links) (peer : UInt64) : Links :=
  if peer ∈ links.up then links else { links with stray := insert peer links.stray }

def after (links : Links) (call : Call P) : Links :=
  match call.event with
  | .connected peer => { up := insert peer links.up, stray := links.stray.erase peer }
  | .lost peer => { up := links.up.erase peer, stray := links.stray.erase peer }
  | event => (call.before.registers event).elim links links.register

def ofCalls (calls : List (Call P)) : Links := calls.foldl after start

end Links

namespace Call

def sender (call : Call P) : Option UInt64 :=
  match call.event with
  | .frame fromPeer _ _ => some fromPeer
  | _ => none

/-- Every frame goes to a link that is up, or answers the frame that is handled. -/
def ToLinks (links : Links) (call : Call P) : Prop :=
  ∀ o ∈ call.outbound, o.1 ∈ (links.after call).up ∨ call.sender = some o.1

instance {links : Links} {call : Call P} : Decidable (call.ToLinks links) :=
  inferInstanceAs (Decidable (∀ o ∈ call.outbound, _ ∨ _))

def Floods (call : Call P) : Prop := call.before.spreads call.event = true

def Reaches (call : Call P) (peers : Finset UInt64) : Prop :=
  (call.outbound.map Prod.fst).Nodup ∧ ∀ peer, peer ∈ call.outbound.map Prod.fst ↔ peer ∈ peers

end Call

namespace RelayEngine

section Peers

variable {e next : RelayEngine P} {peer fromPeer now : UInt64} {bytes : List UInt8}
  {event : Event P} {outbound : List Outbound}

theorem mem_peers_setPeer {state : PeerState} :
    peer ∈ (e.setPeer fromPeer state).peers ↔ peer = fromPeer ∨ peer ∈ e.peers :=
  AList.mem_insert e.peers

theorem mem_peers_of_summarySent (h : (e.peerState peer).summarySent = true) :
    peer ∈ e.peers := by
  by_contra hmem
  rw [peerState, AList.lookup_eq_none.mpr hmem, Option.getD_none] at h
  cases h

theorem mem_peers_greeted :
    peer ∈ (e.greeted fromPeer).peers ↔ peer = fromPeer ∨ peer ∈ e.peers := by
  rw [greeted]
  split
  · next hsent =>
    constructor
    · exact Or.inr
    · rintro (rfl | hmem)
      · exact mem_peers_of_summarySent hsent
      · exact hmem
  · exact mem_peers_setPeer

theorem mem_peers_act (hact : e.act event = some (outbound, next))
    (hconnected : ∀ other, event ≠ .connected other) (hlost : ∀ other, event ≠ .lost other) :
    peer ∈ next.peers ↔ e.registers event = some peer ∨ peer ∈ e.peers := by
  cases event with
  | connected other => exact absurd rfl (hconnected other)
  | lost other => exact absurd rfl (hlost other)
  | setPuzzleDifficulty | setRateLimits =>
    cases hact
    exact (or_iff_right nofun).symm
  | compose envelope now =>
    cases acted hact with
    | composed | composeFault => exact (or_iff_right nofun).symm
  | frame fromPeer bytes now =>
    have hsome : ∀ {q : UInt64}, some q = some peer ↔ peer = q := by
      intro q
      rw [Option.some_inj, eq_comm]
    rcases frame_acted hact with h | ⟨rfl, err, h⟩
    · cases h with
      | summary hmsg =>
        simp only [registers, hmsg, hsome]
        exact mem_peers_greeted
      | unproven hmsg hverify =>
        simp only [registers, hmsg, hverify, Bool.false_eq_true, if_false, reduceCtorEq, false_or]
      | overBudget hmsg hverify | offered hmsg hverify =>
        simp only [registers, hmsg, hverify, if_true, hsome]
        exact mem_peers_setPeer
    · cases h with
      | malformed hmsg => simp only [registers, hmsg, reduceCtorEq, false_or]
      | diskFault hmsg hverify =>
        simp only [registers, hmsg, hverify, if_true, hsome]
        exact mem_peers_setPeer

end Peers

end RelayEngine

namespace Links

variable {e next : RelayEngine P} {links : Links} {event : Event P} {outbound : List Outbound}

structure Tracks (links : Links) (e : RelayEngine P) : Prop where
  mem : ∀ peer, peer ∈ e.peers ↔ peer ∈ links.up ∨ peer ∈ links.stray
  apart : ∀ peer ∈ links.up, peer ∉ links.stray

theorem Tracks.register (h : links.Tracks e) {other : UInt64}
    (hmem : ∀ peer, peer ∈ next.peers ↔ peer = other ∨ peer ∈ e.peers) :
    (links.register other).Tracks next := by
  rw [Links.register]
  split
  · next hup =>
    refine ⟨fun peer => ?_, h.apart⟩
    rw [hmem, ← h.mem]
    refine or_iff_right_of_imp fun heq => ?_
    rw [heq]
    exact (h.mem other).mpr (.inl hup)
  · next hup =>
    refine ⟨fun peer => ?_, fun peer hpeer hstray => ?_⟩
    · rw [hmem, h.mem, Finset.mem_insert]
      exact or_left_comm
    · rcases Finset.mem_insert.mp hstray with rfl | hstray
      · exact hup hpeer
      · exact h.apart peer hpeer hstray

theorem Tracks.registers (h : links.Tracks e)
    (hmem : ∀ peer, peer ∈ next.peers ↔ e.registers event = some peer ∨ peer ∈ e.peers) :
    ((e.registers event).elim links links.register).Tracks next := by
  cases hregisters : e.registers event with
  | none =>
    refine ⟨fun peer => ?_, h.apart⟩
    rw [hmem, hregisters, or_iff_right nofun, h.mem]
    rfl
  | some other =>
    refine h.register fun peer => ?_
    rw [hmem, hregisters, Option.some_inj, eq_comm]

theorem Tracks.act (h : links.Tracks e) (hact : e.act event = some (outbound, next)) :
    (links.after ⟨e, event, outbound⟩).Tracks next := by
  cases event with
  | connected other =>
    cases hact
    refine ⟨fun peer => ?_, fun peer hup hstray => ?_⟩
    · refine RelayEngine.mem_peers_setPeer.trans ?_
      rw [h.mem, after, Finset.mem_insert, Finset.mem_erase]
      by_cases heq : peer = other
      · simp [heq]
      · simp [heq]
    · obtain ⟨hne, hstray⟩ := Finset.mem_erase.mp hstray
      exact h.apart peer ((Finset.mem_insert.mp hup).resolve_left hne) hstray
  | lost other =>
    cases hact
    refine ⟨fun peer => ?_, fun peer hup hstray => ?_⟩
    · refine AList.mem_erase.trans ?_
      rw [h.mem, after, Finset.mem_erase, Finset.mem_erase, and_or_left]
    · exact h.apart peer (Finset.mem_erase.mp hup).2 (Finset.mem_erase.mp hstray).2
  | frame | compose | setPuzzleDifficulty | setRateLimits =>
    exact h.registers fun peer => RelayEngine.mem_peers_act hact nofun nofun

theorem Tracks.run {events : List (Event P)} {past : List (Call P)} {call : Call P}
    {later : List (Call P)} (h : links.Tracks e)
    (hrun : e.run events = some (past ++ call :: later)) :
    (past.foldl after links).Tracks call.before ∧
      ∃ next, call.before.act call.event = some (call.outbound, next) := by
  induction past generalizing e links events with
  | nil =>
    cases events with
    | nil => cases hrun
    | cons event events =>
      obtain ⟨outbound, next, rest, hact, -, heq⟩ := RelayEngine.run_cons_iff.mp hrun
      cases heq
      exact ⟨h, next, hact⟩
  | cons first past ih =>
    cases events with
    | nil => cases hrun
    | cons event events =>
      obtain ⟨outbound, next, rest, hact, hrest, heq⟩ := RelayEngine.run_cons_iff.mp hrun
      cases heq
      exact ih (h.act hact) hrest

end Links

namespace RelayEngine

section Addresses

variable {e next : RelayEngine P} {envelope relayed : Envelope P} {nonce : UInt64}
  {exclude : UInt64 → Bool} {event : Event P} {outbound : List Outbound} {call : Call P}

theorem addresses_relayTo (h : 2 ≤ envelope.ttlHops.toNat) :
    (e.relayTo envelope nonce exclude).map Prod.fst =
      e.peers.keys.filter fun peer => !exclude peer := by
  rw [relayTo, decrementTtl_eq_some_iff.mpr ⟨h, rfl⟩, List.map_map]
  exact List.map_id _

theorem relayTo_of_spent (h : ¬ 2 ≤ envelope.ttlHops.toNat) :
    e.relayTo envelope nonce exclude = [] := by
  cases hdec : decrementTtl envelope with
  | none => rw [relayTo, hdec]
  | some relayed => exact absurd (decrementTtl_eq_some_iff.mp hdec).1 h

theorem mem_addresses_relayTo (h : 2 ≤ envelope.ttlHops.toNat) {peer : UInt64} :
    peer ∈ (e.relayTo envelope nonce exclude).map Prod.fst ↔
      peer ∈ e.peers ∧ exclude peer = false := by
  rw [addresses_relayTo h, List.mem_filter, Bool.not_eq_true', AList.mem_keys]

theorem nodup_addresses_relayTo (h : 2 ≤ envelope.ttlHops.toNat) :
    ((e.relayTo envelope nonce exclude).map Prod.fst).Nodup := by
  rw [addresses_relayTo h]
  exact e.peers.keys_nodup.filter _

theorem outbound_of_floods (hact : call.before.act call.event = some (call.outbound, next))
    (h : call.Floods) : ∃ envelope nonce, 2 ≤ envelope.ttlHops.toNat ∧
      ((call.sender = none ∧ call.outbound = call.before.relayToAll envelope nonce) ∨
        ∃ fromPeer now size, call.sender = some fromPeer ∧ call.outbound =
          (call.before.charged fromPeer now size).relayToOthers envelope nonce fromPeer) := by
  obtain ⟨e, event, outbound⟩ := call
  obtain ⟨envelope, now, store, hoffering, httl, haccept⟩ := spreads_iff.mp h
  rcases offering_cases hoffering with ⟨nonce, rfl, hsolve⟩ |
    ⟨fromPeer, bytes, nonce, rfl, hmsg, hverify, hbudget⟩
  · rw [act, composeLocal_ok hsolve haccept, if_pos rfl] at hact
    have houtbound := congrArg Prod.fst (Option.some.inj hact)
    exact ⟨envelope, nonce, httl, .inl ⟨rfl, houtbound.symm⟩⟩
  · rw [act, onFrame_data hmsg, onData_ok hverify hbudget haccept, if_pos rfl] at hact
    have houtbound := congrArg Prod.fst (Option.some.inj hact)
    exact ⟨envelope, nonce, httl, .inr ⟨fromPeer, now, bytes.length, rfl, houtbound.symm⟩⟩

theorem addresses_of_floods (hact : call.before.act call.event = some (call.outbound, next))
    (h : call.Floods) :
    (call.outbound.map Prod.fst).Nodup ∧ ∀ peer,
      peer ∈ call.outbound.map Prod.fst ↔ peer ∈ call.before.peers ∧ call.sender ≠ some peer := by
  obtain ⟨envelope, nonce, httl, hsent⟩ := outbound_of_floods hact h
  rcases hsent with ⟨hsender, houtbound⟩ | ⟨fromPeer, now, size, hsender, houtbound⟩
  · rw [hsender, houtbound]
    refine ⟨nodup_addresses_relayTo httl, fun peer => (mem_addresses_relayTo httl).trans ?_⟩
    exact and_congr_right fun _ => iff_of_true rfl nofun
  · rw [hsender, houtbound]
    refine ⟨nodup_addresses_relayTo httl, fun peer => (mem_addresses_relayTo httl).trans ?_⟩
    rw [charged, mem_peers_setPeer, beq_eq_false_iff_ne]
    constructor
    · rintro ⟨rfl | hmem, hne⟩
      · exact absurd rfl hne
      · exact ⟨hmem, fun h => hne (Option.some.inj h).symm⟩
    · rintro ⟨hmem, hne⟩
      exact ⟨.inr hmem, fun h => hne (congrArg some h.symm)⟩

/-- What an engine relays of an envelope it was offered is a flood, or nothing. -/
theorem floods_or_nil {now : UInt64} {outcome : Accept} {store : DurableStore P}
    (hoffering : e.offering event = some (envelope, now))
    (haccept : (DurableStore.accept envelope now).run e.store = .ok outcome store)
    (outbound : List Outbound) (e' : RelayEngine P) :
    Call.Floods ⟨e, event, outbound⟩ ∨
      (if outcome = .new then e'.relayTo envelope nonce exclude else []) = [] := by
  by_cases hnew : outcome = .new
  · by_cases httl : 2 ≤ envelope.ttlHops.toNat
    · exact .inl (spreads_iff.mpr ⟨_, _, _, hoffering, httl, hnew ▸ haccept⟩)
    · rw [if_pos hnew, relayTo_of_spent httl]
      exact .inr rfl
  · rw [if_neg hnew]
    exact .inr rfl

theorem addressed_compose {now : UInt64}
    (hact : e.act (.compose envelope now) = some (outbound, next)) :
    Call.Floods ⟨e, .compose envelope now, outbound⟩ ∨ outbound = [] := by
  cases hsolve : Puzzle.solve P envelope.id e.puzzleDifficultyBits with
  | none =>
    rw [act, composeLocal_unsolvable hsolve] at hact
    cases hact
  | some nonce =>
    rcases DurableStore.accept_run e.store envelope now with ⟨disk, h⟩ | ⟨err, disk, h⟩
    · rw [act, composeLocal_ok hsolve h] at hact
      cases hact
      exact floods_or_nil (offering_compose hsolve) h _ e
    · rw [act, composeLocal_error hsolve h] at hact
      cases hact
      exact .inr rfl

theorem addressed_frame {fromPeer now : UInt64} {bytes : List UInt8}
    (hact : e.act (.frame fromPeer bytes now) = some (outbound, next)) :
    Call.Floods ⟨e, .frame fromPeer bytes now, outbound⟩ ∨ ∀ o ∈ outbound, o.1 = fromPeer := by
  have hnil : outbound = [] → ∀ o ∈ outbound, o.1 = fromPeer := by
    rintro rfl o ho
    cases ho
  have houtcome := onFrame_outcome e fromPeer bytes now
  rw [act] at hact
  generalize hrun : (onFrame fromPeer bytes now).run e = result at hact houtcome
  cases houtcome with
  | unsolvable => cases hact
  | malformed | unproven | overBudget | diskFault =>
    cases hact
    exact .inr (hnil rfl)
  | summary hmsg =>
    cases hact
    refine .inr fun o ho => ?_
    rcases List.mem_append.mp ho with ho | ho
    · rw [reply] at ho
      split at ho
      · cases ho
      · rw [List.mem_singleton.mp ho]
    · obtain ⟨relayed, -, rfl⟩ := List.mem_map.mp ho
      rfl
  | offered hmsg hverify hbudget =>
    cases hact
    rcases DurableStore.accept_run e.store _ now with ⟨disk, h⟩ | ⟨err, disk, h⟩
    · exact (floods_or_nil (offering_frame hmsg hverify hbudget) h _ _).imp_right hnil
    · rw [onFrame_data hmsg, onData_error hverify hbudget h] at hrun
      cases hrun

theorem addressed_act (hact : e.act event = some (outbound, next)) :
    (∀ o ∈ outbound, Call.sender ⟨e, event, outbound⟩ = some o.1) ∨
      (∃ peer, event = .connected peer ∧ ∀ o ∈ outbound, o.1 = peer) ∨
      Call.Floods ⟨e, event, outbound⟩ := by
  cases event with
  | connected peer =>
    cases hact
    refine .inr (.inl ⟨peer, rfl, fun o ho => ?_⟩)
    rw [List.mem_singleton.mp ho]
  | lost peer | setPuzzleDifficulty | setRateLimits =>
    cases hact
    exact .inl fun o ho => absurd ho List.not_mem_nil
  | compose envelope now =>
    rcases addressed_compose hact with hfloods | rfl
    · exact .inr (.inr hfloods)
    · exact .inl fun o ho => absurd ho List.not_mem_nil
  | frame fromPeer bytes now =>
    rcases addressed_frame hact with hfloods | hback
    · exact .inr (.inr hfloods)
    · exact .inl fun o ho => congrArg some (hback o ho).symm

end Addresses

section Run

variable {store : DurableStore P} {events : List (Event P)} {past later : List (Call P)}
  {call : Call P}

theorem tracks_start (store : DurableStore P) : Links.start.Tracks (new store) where
  mem peer := by
    constructor
    · exact fun h => absurd h (AList.notMem_empty peer)
    · rintro (h | h)
      · exact absurd h (Finset.notMem_empty peer)
      · exact absurd h (Finset.notMem_empty peer)
  apart peer h := absurd h (Finset.notMem_empty peer)

theorem up_after_of_floods {links : Links} (h : call.Floods) :
    (links.after call).up = links.up := by
  have hregister : ∀ peer? : Option UInt64, (peer?.elim links links.register).up = links.up := by
    intro peer?
    cases peer? with
    | none => rfl
    | some peer =>
      rw [Option.elim_some, Links.register]
      split <;> rfl
  obtain ⟨e, event, outbound⟩ := call
  obtain ⟨envelope, now, store, hoffering, -⟩ := spreads_iff.mp h
  rcases offering_cases hoffering with ⟨nonce, rfl, -⟩ | ⟨fromPeer, bytes, nonce, rfl, -⟩
  · exact hregister _
  · exact hregister _

/-- In every run, the frames of a call go to links that are up or to the sender, unless it
floods while the engine knows a stray; and a composed envelope reaches just the links that are
up if there is none. -/
theorem frames_go_to_links (hrun : (new store).run events = some (past ++ call :: later)) :
    (call.ToLinks (Links.ofCalls past) ↔
        (call.Floods → ∀ peer ∈ (Links.ofCalls past).stray, call.sender = some peer)) ∧
      (call.Floods → call.sender = none →
        (call.Reaches (Links.ofCalls past).up ↔ (Links.ofCalls past).stray = ∅)) := by
  obtain ⟨htracks, next, hact⟩ := (tracks_start store).run hrun
  change (Links.ofCalls past).Tracks call.before at htracks
  refine ⟨⟨fun hto hfloods peer hstray => ?_, fun hstray o ho => ?_⟩, fun hfloods hsender => ?_⟩
  · by_contra hne
    have hpeer : peer ∈ call.outbound.map Prod.fst :=
      ((addresses_of_floods hact hfloods).2 peer).mpr ⟨(htracks.mem peer).mpr (.inr hstray), hne⟩
    obtain ⟨o, ho, rfl⟩ := List.mem_map.mp hpeer
    rcases hto o ho with hup | hsender
    · rw [up_after_of_floods hfloods] at hup
      exact htracks.apart _ hup hstray
    · exact hne hsender
  · rcases addressed_act hact with hsender | ⟨peer, hevent, hpeer⟩ | hfloods
    · exact .inr (hsender o ho)
    · rw [hpeer o ho, Links.after, hevent]
      exact .inl (Finset.mem_insert_self _ _)
    · obtain ⟨hmem, hne⟩ :=
        ((addresses_of_floods hact hfloods).2 o.1).mp (List.mem_map_of_mem ho)
      rw [up_after_of_floods hfloods]
      refine ((htracks.mem o.1).mp hmem).imp_right fun h => ?_
      exact absurd (hstray hfloods o.1 h) hne
  · obtain ⟨hnodup, hmem⟩ := addresses_of_floods hact hfloods
    have hpeers : ∀ peer, peer ∈ call.outbound.map Prod.fst ↔
        peer ∈ (Links.ofCalls past).up ∨ peer ∈ (Links.ofCalls past).stray := by
      intro peer
      rw [hmem, hsender, ← htracks.mem]
      exact and_iff_left nofun
    rw [Call.Reaches, Finset.eq_empty_iff_forall_notMem]
    constructor
    · rintro ⟨-, hreaches⟩ peer hstray
      exact htracks.apart peer ((hreaches peer).mp ((hpeers peer).mpr (.inr hstray))) hstray
    · exact fun hempty => ⟨hnodup, fun peer =>
        (hpeers peer).trans (or_iff_left (hempty peer))⟩

def lateEvents : List (Event toyPrimitives) :=
  [.connected 7, .lost 7, .frame 7 (new toyStore).summary 0, .compose (toyEnvelope 3) 0]

def lateCalls : List (Call toyPrimitives) := ((new toyStore).run lateEvents).getD []

theorem run_lateEvents : (new toyStore).run lateEvents = some lateCalls :=
  run_getD (by decide)

theorem lateCalls_ne_nil : lateCalls ≠ [] :=
  List.ne_nil_of_length_pos (by decide)

def lateCall : Call toyPrimitives := lateCalls.getLast lateCalls_ne_nil

theorem run_lateEvents_split :
    (new toyStore).run lateEvents = some (lateCalls.dropLast ++ [lateCall]) := by
  rw [run_lateEvents, lateCall, List.dropLast_append_getLast]

theorem frames_go_to_links_lateCall :
    (lateCall.ToLinks (Links.ofCalls lateCalls.dropLast) ↔
        (lateCall.Floods → ∀ peer ∈ (Links.ofCalls lateCalls.dropLast).stray,
          lateCall.sender = some peer)) ∧
      (lateCall.Floods → lateCall.sender = none →
        (lateCall.Reaches (Links.ofCalls lateCalls.dropLast).up ↔
          (Links.ofCalls lateCalls.dropLast).stray = ∅)) :=
  frames_go_to_links run_lateEvents_split

/-- The composed envelope is sent to the peer that was lost. -/
theorem stray_is_flooded :
    (new toyStore).run lateEvents = some (lateCalls.dropLast ++ [lateCall]) ∧
      (Links.ofCalls lateCalls.dropLast).up = ∅ ∧ lateCall.outbound.map Prod.fst = [7] ∧
      ¬ lateCall.ToLinks (Links.ofCalls lateCalls.dropLast) :=
  ⟨run_lateEvents_split, by decide, by decide, by decide⟩

end Run

end RelayEngine

end ProjectMesh.Routing
