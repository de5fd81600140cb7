import ProjectMesh.Routing.RelayRun

namespace ProjectMesh.Routing

open ProjectMesh.Lib

variable {P : Primitives}

def Event.now : Event P → Option UInt64
  | .frame _ _ now | .compose _ now => some now
  | _ => none

def Live (P : Primitives) (now : UInt64) (outbound : List Outbound) : Prop :=
  ∀ peer frame, (peer, frame) ∈ outbound → ∀ envelope nonce,
    ContactMessage.fromBytes P frame = .ok (.data envelope nonce) →
    envelope.isExpired now = false

namespace Call

def AllLive (call : Call P) : Prop :=
  ∀ now, call.event.now = some now → Live P now call.outbound

/-- A peer's summary does not ask for anything expired. -/
def AsksLive (call : Call P) : Prop :=
  ∀ peer bytes now filter, call.event = .frame peer bytes now →
    ContactMessage.fromBytes P bytes = .ok (.summary filter) →
    ∀ envelope ∈ call.before.held.missingFromBloom filter, 2 ≤ envelope.ttlHops.toNat →
      envelope.Sendable → envelope.isExpired now = false

end Call

namespace RelayEngine

variable {e : RelayEngine P} {peer : UInt64} {now : UInt64} {filter : BloomFilter}

theorem live_nil : Live P now [] := fun _ _ h => nomatch h

theorem live_append {out out' : List Outbound} :
    Live P now (out ++ out') ↔ Live P now out ∧ Live P now out' := by
  constructor
  · intro h
    exact ⟨fun peer frame hmem => h peer frame (List.mem_append_left _ hmem),
      fun peer frame hmem => h peer frame (List.mem_append_right _ hmem)⟩
  · rintro ⟨h, h'⟩ peer frame hmem
    exact (List.mem_append.mp hmem).elim (h peer frame) (h' peer frame)

theorem live_summary : Live P now [(peer, e.summary)] := by
  intro peer' frame hmem envelope nonce hframe
  cases List.mem_singleton.mp hmem
  obtain ⟨g, hg⟩ := ContactMessage.summary_of_fromBytes hframe
  cases hg

theorem live_reply : Live P now (e.reply peer) := by
  rw [reply]
  split
  · exact live_nil
  · exact live_summary

theorem live_pushFrames_iff {envelopes : List (Envelope P)} :
    Live P now (e.pushFrames peer envelopes) ↔
      ∀ envelope ∈ envelopes, 2 ≤ envelope.ttlHops.toNat → envelope.Sendable →
        envelope.isExpired now = false := by
  constructor
  · intro h envelope hmem httl hsend
    obtain ⟨relayed, hrelayed⟩ := Option.isSome_iff_exists.mp (decrementTtl_isSome_iff.mpr httl)
    have hframe : (peer, (ContactMessage.data relayed
        ((Puzzle.solve P relayed.id e.puzzleDifficultyBits).getD 0)).toBytes) ∈
          e.pushFrames peer envelopes :=
      List.mem_map.mpr ⟨relayed, List.mem_filterMap.mpr ⟨envelope, hmem, hrelayed⟩, rfl⟩
    have hfits : relayed.Sendable := (sendable_decrementTtl hrelayed).mpr hsend
    rw [← isExpired_decrementTtl hrelayed]
    exact h peer _ hframe relayed _ (ContactMessage.fromBytes_data (fits_data_iff.mpr hfits))
  · intro h peer' frame hframe envelope nonce hparse
    obtain ⟨⟨source, hsource, hrelayed⟩, hfits⟩ := mem_pushFrames hframe hparse
    rw [isExpired_decrementTtl hrelayed]
    exact h source hsource (decrementTtl_eq_some_iff.mp hrelayed).1
      ((sendable_decrementTtl hrelayed).mp (fits_data_iff.mp hfits))

theorem live_relayTo {envelope : Envelope P} {nonce : UInt64} {exclude : UInt64 → Bool}
    (h : envelope.isExpired now = false) : Live P now (e.relayTo envelope nonce exclude) := by
  intro peer frame hmem envelope' nonce' hparse
  rw [isExpired_decrementTtl (mem_relayTo hmem hparse).1]
  exact h

theorem asksLive_of_not_summary {e : RelayEngine P} {event : Event P} {out : List Outbound}
    (h : ∀ peer bytes now filter, event = .frame peer bytes now →
      ContactMessage.fromBytes P bytes ≠ .ok (.summary filter)) :
    Call.AsksLive ⟨e, event, out⟩ :=
  fun peer bytes now filter hevent hparse => absurd hparse (h peer bytes now filter hevent)

theorem allLive_frame_iff {e next : RelayEngine P} {fromPeer : UInt64} {bytes : List UInt8}
    {outbound : List Outbound}
    (hact : e.act (.frame fromPeer bytes now) = some (outbound, next)) :
    Live P now outbound ↔ Call.AsksLive ⟨e, .frame fromPeer bytes now, outbound⟩ := by
  have hdata : ∀ {envelope : Envelope P} {nonce : UInt64},
      ContactMessage.fromBytes P bytes = .ok (.data envelope nonce) →
      Call.AsksLive ⟨e, .frame fromPeer bytes now, outbound⟩ := by
    intro envelope nonce hmsg
    refine asksLive_of_not_summary fun peer bytes' now' filter hevent hparse => ?_
    cases hevent
    rw [hmsg] at hparse
    cases hparse
  cases acted hact with
  | malformed hmsg =>
    refine iff_of_true live_nil (asksLive_of_not_summary fun _ _ _ _ hevent hparse => ?_)
    cases hevent
    rw [hmsg] at hparse
    cases hparse
  | @asked _ _ _ filter hmsg =>
    rw [live_append, live_pushFrames_iff, and_iff_right live_reply]
    constructor
    · intro h peer bytes' now' filter' hevent hparse
      cases hevent
      rw [hmsg] at hparse
      cases hparse
      exact h
    · exact fun h => h fromPeer bytes now filter rfl hmsg
  | unproven hmsg | overBudget hmsg | offerFault hmsg => exact iff_of_true live_nil (hdata hmsg)
  | offered hmsg =>
    refine iff_of_true ?_ (hdata hmsg)
    split
    · next hnew => exact live_relayTo (Store.live_of_accept_new hnew).2.1
    · exact live_nil

theorem allLive_compose {e next : RelayEngine P} {envelope : Envelope P}
    {outbound : List Outbound} (hact : e.act (.compose envelope now) = some (outbound, next)) :
    Live P now outbound := by
  cases acted hact with
  | composed =>
    split
    · next hnew => exact live_relayTo (Store.live_of_accept_new hnew).2.1
    · exact live_nil
  | composeFault => exact live_nil

theorem allLive_iff {e next : RelayEngine P} {event : Event P} {outbound : List Outbound}
    (hact : e.act event = some (outbound, next)) :
    Call.AllLive ⟨e, event, outbound⟩ ↔ Call.AsksLive ⟨e, event, outbound⟩ := by
  cases event with
  | frame fromPeer bytes now =>
    rw [← allLive_frame_iff hact]
    constructor
    · exact fun h => h now rfl
    · rintro h now' hnow
      cases hnow
      exact h
  | compose envelope now =>
    refine iff_of_true (fun now' hnow => ?_) (asksLive_of_not_summary fun _ _ _ _ h => nomatch h)
    cases hnow
    exact allLive_compose hact
  | connected peer | lost peer | setPuzzleDifficulty bits | setRateLimits limits =>
    exact iff_of_true (fun now' hnow => nomatch hnow)
      (asksLive_of_not_summary fun _ _ _ _ h => nomatch h)

/-- In a run, no frame carries an expired envelope exactly when no summary asks for one. -/
theorem run_allLive_iff {store : DurableStore P} {events : List (Event P)}
    {calls : List (Call P)} (hrun : (new store).run events = some calls) :
    (∀ call ∈ calls, call.AllLive) ↔ ∀ call ∈ calls, call.AsksLive := by
  have hiff : ∀ call ∈ calls, call.AllLive ↔ call.AsksLive :=
    run_forall hrun fun e event outbound next hact => allLive_iff hact
  exact forall₂_congr hiff

section Examples

def expiryEvents : List (Event toyPrimitives) :=
  [.compose (toyEnvelope 3) 0, .connected 7,
    .frame 7 (ContactMessage.summary (P := toyPrimitives) (.new toyPrimitives 0)).toBytes 200]

def expiryCalls : List (Call toyPrimitives) := ((new toyStore).run expiryEvents).getD []

theorem run_expiryEvents : (new toyStore).run expiryEvents = some expiryCalls :=
  run_getD (by decide)

theorem run_allLive_iff_expiryCalls :
    (∀ call ∈ expiryCalls, call.AllLive) ↔ ∀ call ∈ expiryCalls, call.AsksLive :=
  run_allLive_iff run_expiryEvents

theorem not_run_allLive :
    ¬ ∀ (P : Primitives) (store : DurableStore P) (events : List (Event P))
      (calls : List (Call P)), (new store).run events = some calls →
      ∀ call ∈ calls, call.AllLive := by
  intro h
  have hpushed : ∃ call ∈ expiryCalls, call.event.now = some 200 ∧
      (7, (ContactMessage.data (toyEnvelope 2) 0).toBytes) ∈ call.outbound := by
    decide
  obtain ⟨call, hcall, hnow, hframe⟩ := hpushed
  have hfits : (ContactMessage.data (toyEnvelope 2) 0).Fits := by decide
  have hlive := h _ _ _ _ run_expiryEvents call hcall 200 hnow 7 _ hframe _ _
    (ContactMessage.fromBytes_data hfits)
  exact absurd hlive (by decide)

end Examples

end RelayEngine

end ProjectMesh.Routing
