import ProjectMesh.Lib.Meter
import ProjectMesh.Routing.RelayExpiry
import ProjectMesh.Routing.RelayOnce
import ProjectMesh.Routing.Traffic

namespace ProjectMesh.Routing

open ProjectMesh.Lib
open ProjectMesh.Lib.Meter

variable {P : Primitives}

def RateLimitConfig.windowOf (cfg : RateLimitConfig) (now : UInt64) : UInt64 :=
  now / max cfg.windowSeconds 1

theorem RateLimitConfig.windowOf_mono (cfg : RateLimitConfig) {now now' : UInt64}
    (h : now ≤ now') : (cfg.windowOf now).toNat ≤ (cfg.windowOf now').toNat := by
  rw [windowOf, windowOf, UInt64.toNat_div, UInt64.toNat_div]
  exact Nat.div_le_div_right (UInt64.le_iff_toNat_le.mp h)

namespace RateLimiter

variable {r : RateLimiter} {now : UInt64} {size : Nat} {cfg : RateLimitConfig}

def envelopeMeter (r : RateLimiter) : Meter Nat := ⟨r.window.toNat, r.envelopes⟩

def byteMeter (r : RateLimiter) : Meter Nat := ⟨r.window.toNat, r.bytes⟩

structure Metered (cap : RateLimitConfig → Nat) (cost : Nat → Nat)
    (meter : RateLimiter → Meter Nat) : Prop where
  default : meter .default = ⟨0, 0⟩
  allow : ∀ r now size cfg, Follows (cap cfg) (meter r)
    (.spend (cfg.windowOf now).toNat (if (r.allow now size cfg).1 then cost size else 0))
    (meter (r.allow now size cfg).2)

theorem roll_eq (r : RateLimiter) (now : UInt64) (cfg : RateLimitConfig) :
    r.roll now cfg = {
      window := cfg.windowOf now
      envelopes := r.envelopeMeter.carry (cfg.windowOf now).toNat
      bytes := r.byteMeter.carry (cfg.windowOf now).toNat } := by
  have hcarry : ∀ used, carry ⟨r.window.toNat, used⟩ (cfg.windowOf now).toNat =
      if cfg.windowOf now = r.window then used else 0 := by
    intro used
    rw [carry]
    exact if_congr (UInt64.toNat_inj.trans eq_comm) rfl rfl
  rw [envelopeMeter, byteMeter, hcarry, hcarry, roll]
  change (if cfg.windowOf now ≠ r.window then _ else _) = _
  by_cases h : cfg.windowOf now = r.window
  · rw [if_neg (not_not.mpr h), if_pos h, if_pos h, h]
  · rw [if_pos h, if_neg h, if_neg h]
    rfl

theorem allow_eq (r : RateLimiter) (now : UInt64) (size : Nat) (cfg : RateLimitConfig) :
    ((r.allow now size cfg).1 = false ∧ (r.allow now size cfg).2 = r.roll now cfg) ∨
      (r.allow now size cfg).1 = true ∧
        (r.roll now cfg).envelopes + 1 ≤ cfg.maxEnvelopesPerWindow ∧
        (r.roll now cfg).bytes + size ≤ cfg.maxBytesPerWindow ∧
        (r.allow now size cfg).2 = { r.roll now cfg with
          envelopes := (r.roll now cfg).envelopes + 1
          bytes := (r.roll now cfg).bytes + size } := by
  rw [allow]
  dsimp only
  split
  · exact .inl ⟨rfl, rfl⟩
  · next h =>
    rw [not_or, Nat.not_le, Nat.not_lt] at h
    exact .inr ⟨rfl, h.1, h.2, rfl⟩

theorem envelopes_metered :
    Metered RateLimitConfig.maxEnvelopesPerWindow (fun _ => 1) envelopeMeter where
  default := rfl
  allow r now size cfg := by
    rcases allow_eq r now size cfg with ⟨hok, hnext⟩ | ⟨hok, hcap, -, hnext⟩
    · rw [hok, hnext, roll_eq, if_neg Bool.false_ne_true]
      exact .spend (.inl rfl)
    · rw [roll_eq] at hcap hnext
      rw [hok, hnext, if_pos rfl]
      exact .spend (.inr hcap)

theorem bytes_metered : Metered RateLimitConfig.maxBytesPerWindow id byteMeter where
  default := rfl
  allow r now size cfg := by
    rcases allow_eq r now size cfg with ⟨hok, hnext⟩ | ⟨hok, -, hcap, hnext⟩
    · rw [hok, hnext, roll_eq, if_neg Bool.false_ne_true]
      exact .spend (.inl rfl)
    · rw [roll_eq] at hcap hnext
      rw [hok, hnext, if_pos rfl]
      exact .spend (.inr hcap)

end RateLimiter

namespace Call

/-- When the call let a Data frame of the peer past the limiter, and its size. -/
def admitted (peer : UInt64) (call : Call P) : Option (UInt64 × Nat) :=
  match call.event with
  | .frame fromPeer bytes now =>
    if fromPeer = peer ∧ (call.before.offering call.event).isSome then some (now, bytes.length)
    else none
  | _ => none

def changes (peer : UInt64) (call : Call P) : Bool :=
  match call.event with
  | .connected other | .lost other => other == peer
  | _ => false

end Call

/-- What was let through of the peer in the window. -/
def admittedIn (cfg : RateLimitConfig) (peer w : UInt64) (calls : List (Call P)) :
    List (UInt64 × Nat) :=
  (calls.filterMap (Call.admitted peer)).filter fun frame => cfg.windowOf frame.1 = w

def Event.size : Event P → Nat
  | .frame _ bytes _ => bytes.length
  | _ => 0

def contactChanges (peer : UInt64) (calls : List (Call P)) : Nat :=
  calls.countP (Call.changes peer)

def Call.charge (peer : UInt64) (cost : Nat → Nat) (call : Call P) : Charge Nat :=
  match call.event with
  | .connected other | .lost other => if other = peer then .reset else .skip
  | .frame fromPeer bytes now =>
    if fromPeer = peer then
      match ContactMessage.fromBytes P bytes with
      | .ok (.data envelope nonce) =>
        if Puzzle.verify P envelope.id nonce call.before.puzzleDifficultyBits then
          .spend (call.before.rateLimit.windowOf now).toNat
            (if (call.before.budget fromPeer now bytes.length).1 then cost bytes.length else 0)
        else .skip
      | _ => .skip
    else .skip
  | _ => .skip

namespace RelayEngine

section Step

variable {e next : RelayEngine P} {peer fromPeer now : UInt64} {bytes : List UInt8}
  {event : Event P} {outbound : List Outbound} {cap : RateLimitConfig → Nat} {cost : Nat → Nat}
  {meter : RateLimiter → Meter Nat}

@[simp] theorem rate_greeted :
    ((e.greeted fromPeer).peerState peer).rate = (e.peerState peer).rate := by
  rw [greeted]
  split
  · rfl
  · by_cases h : peer = fromPeer
    · subst h
      rw [peerState_setPeer_self]
    · rw [peerState_setPeer_of_ne h]

theorem rate_charged_self {size : Nat} :
    ((e.charged peer now size).peerState peer).rate = (e.budget peer now size).2 := by
  rw [charged, peerState_setPeer_self]

theorem peerState_charged_of_ne {size : Nat} (h : peer ≠ fromPeer) :
    (e.charged fromPeer now size).peerState peer = e.peerState peer := by
  rw [charged, peerState_setPeer_of_ne h]

theorem charge_of_ne (h : fromPeer ≠ peer) :
    Call.charge peer cost ⟨e, .frame fromPeer bytes now, outbound⟩ = .skip := if_neg h

theorem follows_limited (hm : RateLimiter.Metered cap cost meter) {envelope : Envelope P}
    {nonce : UInt64} (hmsg : ContactMessage.fromBytes P bytes = .ok (.data envelope nonce))
    (hverify : Puzzle.verify P envelope.id nonce e.puzzleDifficultyBits = true) :
    Follows (cap e.rateLimit) (meter (e.peerState peer).rate)
      (Call.charge peer cost ⟨e, .frame fromPeer bytes now, outbound⟩)
      (meter ((e.charged fromPeer now bytes.length).peerState peer).rate) := by
  by_cases h : fromPeer = peer
  · subst h
    have hcharge : Call.charge fromPeer cost ⟨e, .frame fromPeer bytes now, outbound⟩ =
        .spend (e.rateLimit.windowOf now).toNat
          (if (e.budget fromPeer now bytes.length).1 then cost bytes.length else 0) := by
      simp only [Call.charge, hmsg, hverify, if_true]
    rw [hcharge, rate_charged_self]
    exact hm.allow _ _ _ _
  · rw [charge_of_ne h, peerState_charged_of_ne (Ne.symm h)]
    exact .skip

theorem charge_of_not_limited
    (h : ∀ envelope nonce, ContactMessage.fromBytes P bytes = .ok (.data envelope nonce) →
      Puzzle.verify P envelope.id nonce e.puzzleDifficultyBits = false) :
    Call.charge peer cost ⟨e, .frame fromPeer bytes now, outbound⟩ = .skip := by
  by_cases hpeer : fromPeer = peer
  · simp only [Call.charge, hpeer, if_true]
    split
    · next envelope nonce hmsg => rw [h envelope nonce hmsg, if_neg Bool.false_ne_true]
    · rfl
  · exact charge_of_ne hpeer

theorem charge_connected_self :
    Call.charge peer cost ⟨e, .connected peer, outbound⟩ = .reset := if_pos rfl

theorem charge_lost_self : Call.charge peer cost ⟨e, .lost peer, outbound⟩ = .reset := if_pos rfl

theorem charge_of_other {other : UInt64}
    (hevent : event = .connected other ∨ event = .lost other) (h : other ≠ peer) :
    Call.charge peer cost ⟨e, event, outbound⟩ = .skip := by
  rcases hevent with rfl | rfl
  · exact if_neg h
  · exact if_neg h

theorem peerState_onPeerLost_self : (e.onPeerLost peer).peerState peer = .new false := by
  rw [peerState, onPeerLost, AList.lookup_erase, Option.getD_none]

theorem peerState_onPeerLost_of_ne {other : UInt64} (h : peer ≠ other) :
    (e.onPeerLost other).peerState peer = e.peerState peer := by
  rw [peerState, onPeerLost, Assoc.lookup_erase_of_ne h, peerState]

theorem follows_act (hm : RateLimiter.Metered cap cost meter)
    (hact : e.act event = some (outbound, next)) :
    Follows (cap e.rateLimit) (meter (e.peerState peer).rate)
      (Call.charge peer cost ⟨e, event, outbound⟩) (meter (next.peerState peer).rate) := by
  cases event with
  | connected other =>
    cases hact
    by_cases h : other = peer
    · subst h
      rw [charge_connected_self, peerState_setPeer_self, PeerState.new, hm.default]
      exact .reset
    · rw [charge_of_other (.inl rfl) h, peerState_setPeer_of_ne (Ne.symm h)]
      exact .skip
  | lost other =>
    cases hact
    by_cases h : other = peer
    · subst h
      rw [charge_lost_self, peerState_onPeerLost_self, PeerState.new, hm.default]
      exact .reset
    · rw [charge_of_other (.inr rfl) h, peerState_onPeerLost_of_ne (Ne.symm h)]
      exact .skip
  | setPuzzleDifficulty bits =>
    cases hact
    exact .skip
  | setRateLimits limits =>
    cases hact
    exact .skip
  | compose envelope now =>
    cases acted hact with
    | composed | composeFault => exact .skip
  | frame fromPeer bytes now =>
    rcases frame_acted hact with h | ⟨rfl, err, h⟩
    · cases h with
      | summary hmsg =>
        have hrate : meter ((e.greeted fromPeer).peerState peer).rate =
            meter (e.peerState peer).rate := congrArg meter rate_greeted
        rw [charge_of_not_limited fun envelope nonce h => by cases hmsg.symm.trans h]
        rw [hrate]
        exact .skip
      | unproven hmsg hverify =>
        rw [charge_of_not_limited fun envelope nonce h => by cases hmsg.symm.trans h; exact hverify]
        exact .skip
      | overBudget hmsg hverify | offered hmsg hverify => exact follows_limited hm hmsg hverify
    · cases h with
      | malformed hmsg =>
        rw [charge_of_not_limited fun envelope nonce h => by cases hmsg.symm.trans h]
        exact .skip
      | diskFault hmsg hverify => exact follows_limited hm hmsg hverify

theorem rateLimit_act (hact : e.act event = some (outbound, next))
    (hevent : ∀ limits, event ≠ .setRateLimits limits) : next.rateLimit = e.rateLimit := by
  cases acted hact with
  | setRateLimits => exact absurd rfl (hevent _)
  | asked =>
    rw [greeted]
    split <;> rfl
  | connected | lost | malformed | unproven | overBudget | offered | offerFault | composed
  | composeFault | setPuzzleDifficulty => rfl

end Step

section Run

variable {e : RelayEngine P} {events : List (Event P)} {calls calls' : List (Call P)}
  {peer : UInt64} {cap : RateLimitConfig → Nat} {cost : Nat → Nat}
  {meter : RateLimiter → Meter Nat}

theorem rateLimit_run (hrun : e.run events = some calls)
    (hfixed : ∀ event ∈ events, ∀ limits, event ≠ .setRateLimits limits) :
    ∀ call ∈ calls, call.before.rateLimit = e.rateLimit :=
  run_invariant_of_mem (Q := fun e' => e'.rateLimit = e.rateLimit) rfl hrun
    fun _ event hevent _ _ h hact => (rateLimit_act hact (hfixed event hevent)).trans h

theorem run_charges (peer : UInt64) (hm : RateLimiter.Metered cap cost meter)
    (hrun : e.run events = some calls)
    (hfixed : ∀ event ∈ events, ∀ limits, event ≠ .setRateLimits limits) :
    Run (cap e.rateLimit) (meter (e.peerState peer).rate) (calls.map (Call.charge peer cost)) := by
  induction events generalizing e calls with
  | nil =>
    cases hrun
    exact .nil
  | cons event events ih =>
    obtain ⟨outbound, next, rest, hact, hrest, heq⟩ := run_cons_iff.mp hrun
    cases heq
    rw [List.forall_mem_cons] at hfixed
    have hrest' := ih hrest hfixed.2
    rw [rateLimit_act hact hfixed.1] at hrest'
    exact .cons (follows_act hm hact) hrest'

end Run

section Counters

variable {e next : RelayEngine P} {event : Event P} {events : List (Event P)}
  {outbound : List Outbound} {calls : List (Call P)} {peer : UInt64}

theorem cost_charge_le :
    (Call.charge peer id ⟨e, event, outbound⟩).cost ≤ event.size := by
  cases event with
  | connected | lost =>
    simp only [Call.charge]
    split <;> exact Nat.zero_le _
  | compose | setPuzzleDifficulty | setRateLimits => exact Nat.zero_le _
  | frame fromPeer bytes now =>
    simp only [Call.charge]
    split
    · split
      · split
        · dsimp only [Charge.cost]
          split
          · exact Nat.le_refl _
          · exact Nat.zero_le _
        · exact Nat.zero_le _
      · exact Nat.zero_le _
    · exact Nat.zero_le _

theorem bytes_act_le (peer : UInt64) (hact : e.act event = some (outbound, next)) :
    (next.peerState peer).rate.bytes ≤ (e.peerState peer).rate.bytes + event.size :=
  (follows_act RateLimiter.bytes_metered hact).used_le.trans
    (Nat.add_le_add_left cost_charge_le _)

theorem nextSeq_act_le (hact : e.act event = some (outbound, next)) :
    next.held.nextSeq ≤ e.held.nextSeq + 1 := by
  rcases held_act_eq hact with h | ⟨x, now, h⟩
  · exact h ▸ Nat.le_succ _
  · exact h ▸ Store.nextSeq_accept_le

/-- `next_seq` and the limiter's `bytes` are `u64`s.  Neither sum wraps around in a run of fewer
than `2 ^ 64` calls that brings fewer than `2 ^ 64` bytes. -/
theorem counters_run (hrun : e.run events = some calls)
    (hseq : e.held.nextSeq + events.length < 2 ^ 64)
    (hbytes : (e.peerState peer).rate.bytes + (events.map Event.size).sum < 2 ^ 64) :
    ∀ call ∈ calls, call.before.held.nextSeq + 1 < 2 ^ 64 ∧
      (call.before.peerState peer).rate.bytes + call.event.size < 2 ^ 64 := by
  induction events generalizing e calls with
  | nil =>
    cases hrun
    exact fun call h => absurd h List.not_mem_nil
  | cons event events ih =>
    obtain ⟨outbound, next, rest, hact, hrest, heq⟩ := run_cons_iff.mp hrun
    cases heq
    rw [List.length_cons] at hseq
    rw [List.map_cons, List.sum_cons] at hbytes
    have hnextSeq := nextSeq_act_le hact
    have hnextBytes := bytes_act_le peer hact
    have hhere : e.held.nextSeq + 1 < 2 ^ 64 ∧
        (e.peerState peer).rate.bytes + event.size < 2 ^ 64 := by omega
    exact List.forall_mem_cons.mpr ⟨hhere, ih hrest (by omega) (by omega)⟩

end Counters

section Cap

variable {e : RelayEngine P} {limits : RateLimitConfig} {events : List (Event P)} {call : Call P}
  {calls : List (Call P)} {peer w : UInt64} {cost : Nat → Nat}

theorem admittedIn_cons (call : Call P) (calls : List (Call P)) :
    admittedIn limits peer w (call :: calls) =
      admittedIn limits peer w [call] ++ admittedIn limits peer w calls := by
  rw [admittedIn, admittedIn, admittedIn, ← List.filter_append, ← List.filterMap_append,
    List.singleton_append]

theorem admittedIn_of_none (h : call.admitted peer = none) :
    admittedIn limits peer w [call] = [] := by
  rw [admittedIn, List.filterMap_cons_none h]
  rfl

theorem admittedIn_of_some {now : UInt64} {size : Nat}
    (h : call.admitted peer = some (now, size)) :
    admittedIn limits peer w [call] =
      if limits.windowOf now = w then [(now, size)] else [] := by
  rw [admittedIn, List.filterMap_cons_some h, List.filterMap_nil, List.filter_cons,
    List.filter_nil]
  exact if_congr decide_eq_true_iff rfl rfl

theorem admitted_of_not_limited {fromPeer now : UInt64} {bytes : List UInt8}
    {outbound : List Outbound}
    (h : ∀ envelope nonce, ContactMessage.fromBytes P bytes = .ok (.data envelope nonce) →
      Puzzle.verify P envelope.id nonce e.puzzleDifficultyBits = false) :
    Call.admitted peer ⟨e, .frame fromPeer bytes now, outbound⟩ = none := by
  have hoffering : e.offering (.frame fromPeer bytes now) = none := by
    rw [offering]
    split
    · next envelope nonce hmsg =>
        rw [h envelope nonce hmsg, Bool.false_and, if_neg Bool.false_ne_true]
    · rfl
  simp only [Call.admitted, hoffering, Option.isSome_none, Bool.false_eq_true, and_false, if_false]

theorem amountIn_charge (hlimits : call.before.rateLimit = limits) :
    (call.charge peer cost).amountIn w.toNat =
      ((admittedIn limits peer w [call]).map fun frame => cost frame.2).sum := by
  obtain ⟨e, event, outbound⟩ := call
  subst hlimits
  cases event with
  | connected other | lost other =>
    rw [admittedIn_of_none rfl, Call.charge]
    dsimp only
    split <;> rfl
  | compose | setPuzzleDifficulty | setRateLimits =>
    rw [admittedIn_of_none rfl]
    rfl
  | frame fromPeer bytes now =>
    by_cases hpeer : fromPeer = peer
    · subst hpeer
      by_cases hlimited : ∃ envelope nonce,
          ContactMessage.fromBytes P bytes = .ok (.data envelope nonce) ∧
            Puzzle.verify P envelope.id nonce e.puzzleDifficultyBits = true
      · obtain ⟨envelope, nonce, hmsg, hverify⟩ := hlimited
        cases hbudget : (e.budget fromPeer now bytes.length).1 with
        | false =>
          rw [admittedIn_of_none (by simp [Call.admitted, offering, hmsg, hbudget])]
          simp [Call.charge, hmsg, hverify, hbudget, Charge.amountIn]
        | true =>
          have hadmitted : Call.admitted fromPeer ⟨e, .frame fromPeer bytes now, outbound⟩ =
              some (now, bytes.length) := by
            simp [Call.admitted, offering, hmsg, hverify, hbudget]
          rw [admittedIn_of_some hadmitted]
          simp only [Call.charge, hmsg, hverify, hbudget, if_true, Charge.amountIn,
            UInt64.toNat_inj]
          split
          · simp
          · rfl
      · have hnot : ∀ envelope nonce,
            ContactMessage.fromBytes P bytes = .ok (.data envelope nonce) →
              Puzzle.verify P envelope.id nonce e.puzzleDifficultyBits = false :=
          fun envelope nonce hmsg => Bool.eq_false_iff.mpr fun hverify =>
            hlimited ⟨envelope, nonce, hmsg, hverify⟩
        rw [charge_of_not_limited hnot, admittedIn_of_none (admitted_of_not_limited hnot)]
        rfl
    · rw [charge_of_ne hpeer, admittedIn_of_none (by simp [Call.admitted, hpeer])]
      rfl

theorem total_charges (hlimits : ∀ call ∈ calls, call.before.rateLimit = limits) :
    Charge.total w.toNat (calls.map (Call.charge peer cost)) =
      ((admittedIn limits peer w calls).map fun frame => cost frame.2).sum := by
  induction calls with
  | nil => rfl
  | cons call calls ih =>
    rw [List.forall_mem_cons] at hlimits
    rw [List.map_cons, Charge.total_cons, amountIn_charge hlimits.1, ih hlimits.2,
      admittedIn_cons call calls, List.map_append, List.sum_append]

theorem isReset_charge : (call.charge peer cost).isReset = call.changes peer := by
  obtain ⟨e, event, outbound⟩ := call
  cases event with
  | connected other | lost other =>
    by_cases h : other = peer
    · simp [Call.charge, Call.changes, h, Charge.isReset]
    · simp [Call.charge, Call.changes, h, Charge.isReset]
  | frame fromPeer bytes now =>
    simp only [Call.charge, Call.changes]
    repeat' split
    all_goals rfl
  | compose | setPuzzleDifficulty | setRateLimits => rfl

theorem resets_charges :
    Charge.resets (calls.map (Call.charge peer cost)) = contactChanges peer calls := by
  rw [Charge.resets, List.countP_map, contactChanges]
  exact List.countP_congr fun call _ => by rw [Function.comp_apply, isReset_charge]

theorem window_charge {v : Nat} (hlimits : call.before.rateLimit = limits)
    (h : (call.charge peer cost).window? = some v) :
    ∃ now, call.event.now = some now ∧ v = (limits.windowOf now).toNat := by
  obtain ⟨e, event, outbound⟩ := call
  subst hlimits
  cases event with
  | connected other | lost other =>
    simp only [Call.charge] at h
    split at h <;> cases h
  | compose | setPuzzleDifficulty | setRateLimits => cases h
  | frame fromPeer bytes now =>
    simp only [Call.charge] at h
    repeat' split at h
    all_goals cases h
    all_goals exact ⟨now, rfl, rfl⟩

theorem ordered_charges (hlimits : ∀ call ∈ calls, call.before.rateLimit = limits)
    (hclock : ((calls.map Call.event).filterMap Event.now).Pairwise (· ≤ ·)) :
    Charge.Ordered (calls.map (Call.charge peer cost)) := by
  rw [List.filterMap_map, List.pairwise_filterMap] at hclock
  rw [Charge.Ordered, List.filterMap_map, List.pairwise_filterMap]
  refine hclock.imp_of_mem fun {a b} ha hb hle v hv v' hv' => ?_
  obtain ⟨now, hnow, rfl⟩ := window_charge (hlimits a ha) hv
  obtain ⟨now', hnow', rfl⟩ := window_charge (hlimits b hb) hv'
  exact limits.windowOf_mono (hle now hnow now' hnow')

/-- Over a stretch of a run, what gets past the limiter of a peer in one window stays within
the caps, and within the caps again after each time the peer connects or is lost. -/
theorem admitted_within_caps {past stretch later : List (Call P)} (peer w : UInt64)
    (hfixed : ∀ event ∈ events, ∀ limits, event ≠ .setRateLimits limits)
    (hclock : (events.filterMap Event.now).Pairwise (· ≤ ·))
    (hrun : e.run events = some (past ++ stretch ++ later)) :
    (admittedIn e.rateLimit peer w stretch).length ≤
        (contactChanges peer stretch + 1) * e.rateLimit.maxEnvelopesPerWindow ∧
      ((admittedIn e.rateLimit peer w stretch).map Prod.snd).sum ≤
        (contactChanges peer stretch + 1) * e.rateLimit.maxBytesPerWindow := by
  have hlimits := rateLimit_run hrun hfixed
  obtain ⟨events₁, hprefix, hrun₁⟩ := run_earlier hrun
  obtain ⟨e₂, events₂, hsuffix, hrun₂⟩ := run_later hrun₁
  have hsub : events₂ <:+: events := hsuffix.isInfix.trans hprefix.isInfix
  have hfixed₂ : ∀ event ∈ events₂, ∀ limits, event ≠ .setRateLimits limits :=
    fun event hevent => hfixed event (hsub.subset hevent)
  have hstretch : ∀ call ∈ stretch, call.before.rateLimit = e.rateLimit := fun call hcall =>
    hlimits call (List.mem_append_left _ (List.mem_append_right _ hcall))
  have hclock₂ : ((stretch.map Call.event).filterMap Event.now).Pairwise (· ≤ ·) := by
    rw [map_event_run hrun₂]
    exact hclock.sublist (hsub.sublist.filterMap _)
  cases hcons : stretch with
  | nil => exact ⟨Nat.zero_le _, Nat.zero_le _⟩
  | cons call calls =>
    have hcall : call ∈ stretch := hcons ▸ List.mem_cons_self
    have hlimit₂ : e₂.rateLimit = e.rateLimit :=
      (rateLimit_run hrun₂ hfixed₂ call hcall).symm.trans (hstretch call hcall)
    rw [← hcons]
    constructor
    · have hcap := (run_charges peer RateLimiter.envelopes_metered hrun₂ hfixed₂).total_le
        (w := w.toNat) (ordered_charges hstretch hclock₂)
      rw [total_charges hstretch, resets_charges, hlimit₂, List.map_const', List.sum_replicate,
        smul_eq_mul, Nat.mul_one] at hcap
      exact hcap
    · have hcap := (run_charges peer RateLimiter.bytes_metered hrun₂ hfixed₂).total_le
        (w := w.toNat) (ordered_charges hstretch hclock₂)
      rw [total_charges hstretch, resets_charges, hlimit₂] at hcap
      exact hcap

def oneAMinute : RelayEngine toyPrimitives :=
  (new toyStore).setRateLimits
    { maxEnvelopesPerWindow := 1, maxBytesPerWindow := 1000, windowSeconds := 60 }

def toyFrame : List UInt8 := (ContactMessage.data (toyEnvelope 3) 0).toBytes

def reconnectEvents : List (Event toyPrimitives) :=
  [.connected 7, .frame 7 toyFrame 0, .connected 7, .frame 7 toyFrame 5]

def reconnectCalls : List (Call toyPrimitives) := (oneAMinute.run reconnectEvents).getD []

theorem run_reconnectEvents : oneAMinute.run reconnectEvents = some reconnectCalls :=
  run_getD (by decide)

theorem fixed_reconnectEvents :
    ∀ event ∈ reconnectEvents, ∀ limits, event ≠ .setRateLimits limits := by
  intro event hevent limits heq
  subst heq
  simp [reconnectEvents] at hevent

theorem clock_reconnectEvents : (reconnectEvents.filterMap Event.now).Pairwise (· ≤ ·) := by
  decide

theorem admitted_within_caps_reconnectCalls :
    (admittedIn oneAMinute.rateLimit 7 0 reconnectCalls).length ≤
        (contactChanges 7 reconnectCalls + 1) * 1 ∧
      ((admittedIn oneAMinute.rateLimit 7 0 reconnectCalls).map Prod.snd).sum ≤
        (contactChanges 7 reconnectCalls + 1) * 1000 := by
  have hrun : oneAMinute.run reconnectEvents = some ([] ++ reconnectCalls ++ []) := by
    rw [List.nil_append, List.append_nil]
    exact run_reconnectEvents
  exact admitted_within_caps 7 0 fixed_reconnectEvents clock_reconnectEvents hrun

/-- A peer that connects again gets its caps once more in the same window. -/
theorem reconnect_exceeds_cap :
    oneAMinute.peers = ∅ ∧
      (∀ event ∈ reconnectEvents, ∀ limits, event ≠ .setRateLimits limits) ∧
      (reconnectEvents.filterMap Event.now).Pairwise (· ≤ ·) ∧
      oneAMinute.run reconnectEvents = some reconnectCalls ∧
      ¬ (admittedIn oneAMinute.rateLimit 7 0 reconnectCalls).length ≤
        oneAMinute.rateLimit.maxEnvelopesPerWindow :=
  ⟨rfl, fixed_reconnectEvents, clock_reconnectEvents, run_reconnectEvents, by decide⟩

end Cap

end RelayEngine

end ProjectMesh.Routing
