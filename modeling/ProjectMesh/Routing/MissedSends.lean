import ProjectMesh.Routing.EnvelopeIdentity
import ProjectMesh.Routing.UrgentFirst

namespace ProjectMesh.Routing

open ProjectMesh.Lib

variable {P : Primitives}

namespace BloomFilter

/-- The encoding tells the filter, for all that the header holds the number of bits modulo
`2 ^ 32`: the length of the bit array tells the rest. -/
theorem toBytes_injective {f g : BloomFilter} (h : f.toBytes = g.toBytes) : f = g := by
  obtain ⟨bits, numBits, numHashes, hmin, hhashes, hlen⟩ := f
  obtain ⟨bits', numBits', numHashes', hmin', hhashes', hlen'⟩ := g
  obtain ⟨hsize, hrest⟩ := List.append_inj h (by rw [length_leBytes, length_leBytes])
  obtain ⟨hnum, rfl⟩ := List.cons.inj hrest
  have hnumHashes : numHashes = numHashes' := by
    have hnat := congrArg UInt8.toNat hnum
    have hmax : maxHashes = 32 := rfl
    simp only [UInt8.toNat_ofNat'] at hnat
    omega
  have hnumBits : numBits = numBits' := by
    have hnat := congrArg leNat hsize
    simp only [leNat_leBytes, Nat.reducePow] at hnat
    dsimp only at hlen hlen'
    omega
  subst hnumHashes hnumBits
  rfl

end BloomFilter

theorem Envelope.toBytes_injective {a b : Envelope P} (h : a.toBytes = b.toBytes) : a = b := by
  simp only [toBytes, encodeBody, List.cons.injEq, true_and] at h
  obtain ⟨htag, h⟩ := h
  obtain ⟨haddressing, h⟩ := addressing_eq_of_append htag h
  obtain ⟨hpriority, h⟩ := List.cons.inj h
  obtain ⟨httl, h⟩ := List.cons.inj h
  obtain ⟨hexpiry, h⟩ := List.append_inj h (by rw [length_leBytes, length_leBytes])
  obtain ⟨-, hsealed⟩ := List.append_inj h (by rw [length_leBytes, length_leBytes])
  rw [← a.new_eta, ← b.new_eta, haddressing, Priority.tag_injective hpriority, httl, hsealed,
    UInt64.toNat_inj.mp (leBytes_injOn a.expiresAt.toNat_lt b.expiresAt.toNat_lt hexpiry)]

namespace ContactMessage

theorem eq_of_fromBytes_summary {f : BloomFilter} {m : ContactMessage P}
    (h : fromBytes P (summary (P := P) f).toBytes = .ok m) : m = summary f := by
  obtain ⟨g, rfl⟩ := summary_of_fromBytes h
  have hbytes := toBytes_fromBytes h
  obtain ⟨-, hpayload⟩ := List.append_inj (List.cons.inj (List.cons.inj hbytes).2).2
    (by rw [length_leBytes, length_leBytes])
  rw [BloomFilter.toBytes_injective hpayload]

theorem data_injective {x y : Envelope P} {nonce nonce' : UInt64}
    (h : (data x nonce).toBytes = (data y nonce').toBytes) : x = y ∧ nonce = nonce' := by
  obtain ⟨-, hpayload⟩ := List.append_inj (List.cons.inj (List.cons.inj h).2).2
    (by rw [length_leBytes, length_leBytes])
  obtain ⟨hnonce, hbody⟩ := List.append_inj hpayload (by rw [length_leBytes, length_leBytes])
  exact ⟨Envelope.toBytes_injective hbody,
    UInt64.toNat_inj.mp (leBytes_injOn nonce.toNat_lt nonce'.toNat_lt hnonce)⟩

end ContactMessage

namespace Store

variable {s t : Store P} {id : EnvelopeId}

/-- A bit of the id is clear in the summary: in a filter of the size that the number of
envelopes held gives, none of them sets it. -/
def Clears (s : Store P) (id : EnvelopeId) : Prop :=
  ∃ index ∈ (BloomFilter.new P s.len).indices P id,
    ∀ other ∈ s.entries.keys, index ∉ (BloomFilter.new P s.len).indices P other

instance : Decidable (s.Clears id) := inferInstanceAs (Decidable (∃ _ ∈ _, _))

theorem contains_summaryBloom_eq_false_iff :
    s.summaryBloom.contains P id = false ↔ s.Clears id := by
  rw [← Bool.not_eq_true, summaryBloom, BloomFilter.contains_foldl_insert_iff, Clears]
  simp only [not_forall, not_exists, not_and, exists_prop]

theorem len_eq_of_contains (h : ∀ id, t.contains id = s.contains id) : t.len = s.len := by
  have hmem : ∀ id, id ∈ t.entries ↔ id ∈ s.entries := by
    intro id
    rw [AList.mem_keys, AList.mem_keys, mem_keys_iff, mem_keys_iff, h]
  exact Nat.le_antisymm (Assoc.size_le_of_subset fun id => (hmem id).mp)
    (Assoc.size_le_of_subset fun id => (hmem id).mpr)

theorem clears_congr (h : ∀ id, t.contains id = s.contains id) : t.Clears id ↔ s.Clears id := by
  have hmem : ∀ other, other ∈ t.entries.keys ↔ other ∈ s.entries.keys := by
    intro other
    rw [mem_keys_iff, mem_keys_iff, h]
  simp only [Clears, len_eq_of_contains h, hmem]

end Store

namespace Call

variable {call greeting ask : Call P} {filter : BloomFilter} {envelope : Envelope P}

def Pushes (call : Call P) (envelope : Envelope P) : Prop :=
  ∃ fromPeer bytes now nonce, call.event = .frame fromPeer bytes now ∧
    (fromPeer, (ContactMessage.data { envelope with ttlHops := envelope.ttlHops - 1 }
      nonce).toBytes) ∈ call.outbound

/-- The summary that one side sends in a call is what the other handles in a call of its own. -/
def Asks (greeting ask : Call P) (filter : BloomFilter) : Prop :=
  ∃ peer fromPeer bytes now, (peer, bytes) ∈ greeting.outbound ∧
    ask.event = .frame fromPeer bytes now ∧
      ContactMessage.fromBytes P bytes = .ok (.summary filter)

/-- The one side lacks the envelope, and its summary reports it to the other, which holds it. -/
structure Misses (greeting ask : Call P) (filter : BloomFilter) (envelope : Envelope P) :
    Prop where
  asks : Asks greeting ask filter
  held : ask.before.held.get envelope.id = some envelope
  lacked : greeting.before.held.contains envelope.id = false
  reported : filter.contains P envelope.id = true

end Call

namespace RelayEngine

variable {e next : RelayEngine P} {event : Event P} {outbound : List Outbound}
  {events : List (Event P)} {calls : List (Call P)} {call greeting ask : Call P}
  {filter : BloomFilter} {envelope : Envelope P}

theorem act_of_mem_run (hrun : e.run events = some calls) :
    ∀ call ∈ calls, ∃ next, call.before.act call.event = some (call.outbound, next) :=
  run_forall hrun fun _ _ _ next hact => ⟨next, hact⟩

theorem data_ne_summary {x : Envelope P} {nonce : UInt64} :
    (ContactMessage.data x nonce).toBytes ≠ e.summary := by
  intro h
  cases (List.cons.inj (List.cons.inj h).2).1

theorem not_summary_data {x : Envelope P} {nonce : UInt64} :
    ContactMessage.fromBytes P (ContactMessage.data x nonce).toBytes ≠ .ok (.summary filter) := by
  intro h
  cases (ContactMessage.eq_of_fromBytes_data h).1

theorem summary_of_mem_outbound (hact : e.act event = some (outbound, next)) {peer : UInt64}
    {bytes : List UInt8} (hmem : (peer, bytes) ∈ outbound)
    (hparse : ContactMessage.fromBytes P bytes = .ok (.summary filter)) :
    filter = e.held.summaryBloom := by
  cases emits_act hact hmem with
  | summary =>
    cases ContactMessage.eq_of_fromBytes_summary hparse
    rfl
  | data => exact absurd hparse not_summary_data

theorem outbound_of_summary {fromPeer now : UInt64} {bytes : List UInt8}
    (hact : e.act (.frame fromPeer bytes now) = some (outbound, next))
    (hmsg : ContactMessage.fromBytes P bytes = .ok (.summary filter)) :
    outbound = e.reply fromPeer ++ e.pushFrames fromPeer (e.held.missingFromBloom filter) := by
  rw [act, onFrame_summary hmsg] at hact
  rcases onSummary_run e fromPeer filter with ⟨-, hrun⟩ | ⟨-, t, hrun⟩
  · rw [hrun] at hact
    cases hact
    rfl
  · rw [hrun] at hact
    cases hact

theorem mem_pushFrames_iff {peer : UInt64} {relayed : Envelope P}
    {envelopes : List (Envelope P)} :
    (∃ nonce, (peer, (ContactMessage.data relayed nonce).toBytes) ∈ e.pushFrames peer envelopes) ↔
      ∃ source ∈ envelopes, decrementTtl source = some relayed := by
  rw [pushFrames]
  constructor
  · rintro ⟨nonce, hmem⟩
    obtain ⟨relayed', hrelayed, heq⟩ := List.mem_map.mp hmem
    cases (ContactMessage.data_injective (Prod.mk.inj heq).2).1
    exact List.mem_filterMap.mp hrelayed
  · intro hsource
    exact ⟨_, List.mem_map.mpr ⟨relayed, List.mem_filterMap.mpr hsource, rfl⟩⟩

theorem not_mem_reply {peer peer' nonce : UInt64} {x : Envelope P} :
    (peer', (ContactMessage.data x nonce).toBytes) ∉ e.reply peer := by
  intro hmem
  rw [reply] at hmem
  split at hmem
  · cases hmem
  · exact data_ne_summary (Prod.mk.inj (List.mem_singleton.mp hmem)).2

theorem pushes_iff (hact : call.before.act call.event = some (call.outbound, next))
    (hask : Call.Asks greeting call filter)
    (hheld : call.before.held.get envelope.id = some envelope)
    (httl : 2 ≤ envelope.ttlHops.toNat) :
    call.Pushes envelope ↔ filter.contains P envelope.id = false := by
  obtain ⟨peer, fromPeer, bytes, now, -, hevent, hmsg⟩ := hask
  have hdec := decrementTtl_eq_some_iff.mpr ⟨httl, rfl⟩
  rw [hevent] at hact
  have houtbound := outbound_of_summary hact hmsg
  constructor
  · rintro ⟨fromPeer', bytes', now', nonce, hevent', hmem⟩
    cases hevent.symm.trans hevent'
    rw [houtbound] at hmem
    obtain ⟨source, hsource, hdec'⟩ :=
      mem_pushFrames_iff.mp ⟨nonce, (List.mem_append.mp hmem).resolve_left not_mem_reply⟩
    obtain ⟨hget, hfilter⟩ := Store.mem_missingFromBloom_iff.mp hsource
    have hid : source.id = envelope.id := (id_decrementTtl hdec').symm
    rwa [hid] at hfilter
  · intro hfilter
    have hmem : envelope ∈ call.before.held.missingFromBloom filter :=
      Store.mem_missingFromBloom_iff.mpr ⟨hheld, hfilter⟩
    obtain ⟨nonce, hframe⟩ := mem_pushFrames_iff.mpr ⟨envelope, hmem, hdec⟩
    refine ⟨fromPeer, bytes, now, nonce, hevent, ?_⟩
    rw [houtbound]
    exact List.mem_append_right _ hframe

theorem reported_iff (hact : greeting.before.act greeting.event = some (greeting.outbound, next))
    (hask : Call.Asks greeting ask filter) (id : EnvelopeId) :
    filter.contains P id = false ↔ greeting.before.held.Clears id := by
  obtain ⟨peer, fromPeer, bytes, now, hmem, -, hmsg⟩ := hask
  rw [summary_of_mem_outbound hact hmem hmsg]
  exact Store.contains_summaryBloom_eq_false_iff

theorem act_of_summary {fromPeer now : UInt64} {bytes : List UInt8}
    (hmsg : ContactMessage.fromBytes P bytes = .ok (.summary filter))
    (hmissing : e.held.missingFromBloom filter = [])
    (hsent : (e.peerState fromPeer).summarySent = false) :
    e.act (.frame fromPeer bytes now) = some ([(fromPeer, e.summary)],
      e.setPeer fromPeer { e.peerState fromPeer with summarySent := true }) := by
  have hsolvable : e.Solvable (e.held.missingFromBloom filter) := by
    rw [hmissing]
    exact nofun
  have hsent' : ¬ (e.peerState fromPeer).summarySent = true := Bool.eq_false_iff.mp hsent
  rw [act, (onFrame_of_summary hmsg).mpr ⟨hsolvable, rfl, rfl⟩, hmissing, reply, greeted,
    if_neg hsent', if_neg hsent']
  rfl

section Run

variable {a b : RelayEngine P} {eventsA eventsB : List (Event P)}
  {pastA betweenA laterA pastB betweenB laterB : List (Call P)}
  {greeting' ask' : Call P} {filter' : BloomFilter}

/-- An envelope that a false positive made one contact skip is pushed in the next just when a
bit of its id is clear in the summary of then; never, if the other side still holds the same
ids. -/
theorem missed_send_pushed_iff
    (hB : b.run eventsB = some (pastB ++ greeting :: (betweenB ++ greeting' :: laterB)))
    (hA : a.run eventsA = some (pastA ++ ask :: (betweenA ++ ask' :: laterA)))
    (hmisses : Call.Misses greeting ask filter envelope) (httl : 2 ≤ envelope.ttlHops.toNat)
    (hasks : Call.Asks greeting' ask' filter')
    (hheld : ask'.before.held.get envelope.id = some envelope) :
    ¬ ask.Pushes envelope ∧
      (ask'.Pushes envelope ↔ greeting'.before.held.Clears envelope.id) ∧
      ((∀ id, greeting'.before.held.contains id = greeting.before.held.contains id) →
        ¬ ask'.Pushes envelope) := by
  obtain ⟨_, hgreeting⟩ := act_of_mem_run hB greeting (by simp)
  obtain ⟨_, hgreeting'⟩ := act_of_mem_run hB greeting' (by simp)
  obtain ⟨_, hask⟩ := act_of_mem_run hA ask (by simp)
  obtain ⟨_, hask'⟩ := act_of_mem_run hA ask' (by simp)
  have hfirst := (pushes_iff hask hmisses.asks hmisses.held httl).trans
    (reported_iff hgreeting hmisses.asks _)
  have hnext := (pushes_iff hask' hasks hheld httl).trans (reported_iff hgreeting' hasks _)
  have hreported : ¬ greeting.before.held.Clears envelope.id := by
    rw [← reported_iff hgreeting hmisses.asks, hmisses.reported]
    exact Bool.noConfusion
  refine ⟨fun h => hreported (hfirst.mp h), hnext, fun hsame h => hreported ?_⟩
  exact (Store.clears_congr hsame).mp (hnext.mp h)

end Run

end RelayEngine

section Crowded

def crowdedDigest (b : UInt8) : Bytes 32 := ⟨List.replicate 32 b, rfl⟩

/-- One id for the content of the missed envelope and another for everything else, and the
same bits for both. -/
def crowdedPrimitives : Primitives where
  blake3 bs := if bs = [1, 0, 2, 100, 0, 0, 0, 0, 0, 0, 0, 4, 0, 0, 0, 1, 1, 1, 1] then
    crowdedDigest 1 else crowdedDigest 0
  chachaEncrypt := toyPrimitives.chachaEncrypt
  chachaDecrypt := toyPrimitives.chachaDecrypt
  bloomBits := toyPrimitives.bloomBits
  bloomHashes := toyPrimitives.bloomHashes

def missedEnvelope : Envelope crowdedPrimitives :=
  .new crowdedPrimitives .broadcast .normal 3 100 [1, 1, 1, 1]

def otherEnvelope : Envelope crowdedPrimitives :=
  .new crowdedPrimitives .broadcast .normal 3 100 [2]

def crowdedEngine (x : Envelope crowdedPrimitives) : RelayEngine crowdedPrimitives :=
  .new ⟨(Store.new crowdedPrimitives 10).insert x, toyStore.disk⟩

def crowdedFilter : BloomFilter := (crowdedEngine otherEnvelope).held.summaryBloom

theorem fromBytes_crowdedFilter :
    ContactMessage.fromBytes crowdedPrimitives (crowdedEngine otherEnvelope).summary =
      .ok (.summary crowdedFilter) :=
  ContactMessage.fromBytes_summary (by decide)

open RelayEngine

def greetings : List (Event crowdedPrimitives) := [.connected 1, .lost 1, .connected 1]

def askings : List (Event crowdedPrimitives) :=
  [.frame 2 (crowdedEngine otherEnvelope).summary 0, .lost 2,
    .frame 2 (crowdedEngine otherEnvelope).summary 1]

def crowdedPeers (peer : UInt64) : Assoc UInt64 PeerState :=
  (∅ : Assoc UInt64 PeerState).insert peer (.new true)

def greetingCall (peers : Assoc UInt64 PeerState) : Call crowdedPrimitives where
  before := { crowdedEngine otherEnvelope with peers := peers }
  event := .connected 1
  outbound := [(1, (crowdedEngine otherEnvelope).summary)]

def askingCall (now : UInt64) (peers : Assoc UInt64 PeerState) : Call crowdedPrimitives where
  before := { crowdedEngine missedEnvelope with peers := peers }
  event := .frame 2 (crowdedEngine otherEnvelope).summary now
  outbound := [(2, (crowdedEngine missedEnvelope).summary)]

def lostCall (x : Envelope crowdedPrimitives) (peer : UInt64) : Call crowdedPrimitives where
  before := { crowdedEngine x with peers := crowdedPeers peer }
  event := .lost peer
  outbound := []

theorem run_greetings : (crowdedEngine otherEnvelope).run greetings = some
    (greetingCall ∅ :: ([lostCall otherEnvelope 1] ++
      [greetingCall ((crowdedPeers 1).erase 1)])) := rfl

theorem missing_crowdedFilter :
    (crowdedEngine missedEnvelope).held.missingFromBloom crowdedFilter = [] := by decide

theorem act_askingCall (now : UInt64) (peers : Assoc UInt64 PeerState)
    (hpeers : peers.lookup 2 = none) :
    (askingCall now peers).before.act (askingCall now peers).event =
      some ((askingCall now peers).outbound,
        { crowdedEngine missedEnvelope with peers := peers.insert 2 (.new true) }) := by
  have hstate : (askingCall now peers).before.peerState 2 = .new false := by
    rw [peerState, askingCall, hpeers, Option.getD_none]
  have hsent : ((askingCall now peers).before.peerState 2).summarySent = false := by
    rw [hstate]
    rfl
  have hmissing : (askingCall now peers).before.held.missingFromBloom crowdedFilter = [] :=
    missing_crowdedFilter
  refine (act_of_summary fromBytes_crowdedFilter hmissing hsent).trans ?_
  rw [hstate]
  rfl

theorem run_askings : (crowdedEngine missedEnvelope).run askings = some
    (askingCall 0 ∅ :: ([lostCall missedEnvelope 2] ++
      [askingCall 1 ((crowdedPeers 2).erase 2)])) := by
  have hfirst := act_askingCall 0 ∅ rfl
  have hnext := act_askingCall 1 ((crowdedPeers 2).erase 2) (AList.lookup_erase 2 _)
  refine run_cons_iff.mpr ⟨_, _, _, hfirst, ?_, rfl⟩
  refine run_cons_iff.mpr ⟨_, _, _, rfl, ?_, rfl⟩
  exact run_cons_iff.mpr ⟨_, _, _, hnext, rfl, rfl⟩

theorem misses_missedEnvelope :
    Call.Misses (greetingCall ∅) (askingCall 0 ∅) crowdedFilter missedEnvelope where
  asks := ⟨_, _, _, _, List.mem_singleton_self _, rfl, fromBytes_crowdedFilter⟩
  held := Store.get_insert_self
  lacked := by decide
  reported := by decide

theorem asks_again : Call.Asks (greetingCall ((crowdedPeers 1).erase 1))
    (askingCall 1 ((crowdedPeers 2).erase 2)) crowdedFilter :=
  ⟨_, _, _, _, List.mem_singleton_self _, rfl, fromBytes_crowdedFilter⟩

theorem missed_send_pushed_iff_missedEnvelope :
    ¬ (askingCall 0 ∅).Pushes missedEnvelope ∧
      ((askingCall 1 ((crowdedPeers 2).erase 2)).Pushes missedEnvelope ↔
        (greetingCall ((crowdedPeers 1).erase 1)).before.held.Clears missedEnvelope.id) ∧
      ((∀ id, (greetingCall ((crowdedPeers 1).erase 1)).before.held.contains id =
          (greetingCall ∅).before.held.contains id) →
        ¬ (askingCall 1 ((crowdedPeers 2).erase 2)).Pushes missedEnvelope) := by
  have hB : (crowdedEngine otherEnvelope).run greetings = some ([] ++ greetingCall ∅ ::
      ([lostCall otherEnvelope 1] ++ greetingCall ((crowdedPeers 1).erase 1) :: [])) :=
    run_greetings
  have hA : (crowdedEngine missedEnvelope).run askings = some ([] ++ askingCall 0 ∅ ::
      ([lostCall missedEnvelope 2] ++ askingCall 1 ((crowdedPeers 2).erase 2) :: [])) :=
    run_askings
  exact missed_send_pushed_iff hB hA misses_missedEnvelope (by decide) asks_again
    Store.get_insert_self

/-- The other side holds the same in both contacts, and the envelope is skipped in both. -/
theorem skipped_again :
    (crowdedEngine otherEnvelope).run greetings = some
        (greetingCall ∅ :: ([lostCall otherEnvelope 1] ++
          [greetingCall ((crowdedPeers 1).erase 1)])) ∧
      (crowdedEngine missedEnvelope).run askings = some
        (askingCall 0 ∅ :: ([lostCall missedEnvelope 2] ++
          [askingCall 1 ((crowdedPeers 2).erase 2)])) ∧
      Call.Misses (greetingCall ∅) (askingCall 0 ∅) crowdedFilter missedEnvelope ∧
      Call.Misses (greetingCall ((crowdedPeers 1).erase 1))
        (askingCall 1 ((crowdedPeers 2).erase 2)) crowdedFilter missedEnvelope ∧
      missedEnvelope.isExpired 1 = false ∧
      ¬ (askingCall 1 ((crowdedPeers 2).erase 2)).Pushes missedEnvelope := by
  refine ⟨run_greetings, run_askings, misses_missedEnvelope, ⟨asks_again, Store.get_insert_self,
    misses_missedEnvelope.lacked, misses_missedEnvelope.reported⟩, by decide, ?_⟩
  rintro ⟨fromPeer, bytes, now, nonce, -, hmem⟩
  exact data_ne_summary (Prod.mk.inj (List.mem_singleton.mp hmem)).2

end Crowded

end ProjectMesh.Routing
