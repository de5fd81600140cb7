import ProjectMesh.Lib.Observer
import ProjectMesh.Routing.RateCap

namespace ProjectMesh.Routing

open ProjectMesh.Lib

variable {P : Primitives}

inductive Ruling : Type
  | unproven
  | overBudget
  | admitted
  deriving DecidableEq

/-- A Data frame of a peer: when it came, its bytes, and what became of it. -/
abbrev Ruled := UInt64 × List UInt8 × Ruling

structure Account where
  rate : RateLimiter
  limits : RateLimitConfig
  difficultyBits : UInt8

/-- The event is about the peer, or sets the limits or the difficulty for everyone. -/
def Event.concerns (peer : UInt64) : Event P → Bool
  | .connected other | .lost other | .frame other _ _ => other == peer
  | .setPuzzleDifficulty _ | .setRateLimits _ => true
  | .compose _ _ => false

namespace RateLimiter

variable {r : RateLimiter} {cfg cfg' : RateLimitConfig} {now now' : UInt64}

def used (r : RateLimiter) (cfg : RateLimitConfig) (now : UInt64) : Nat × Nat :=
  ((r.roll now cfg).envelopes, (r.roll now cfg).bytes)

theorem roll_cases (r : RateLimiter) (now : UInt64) (cfg : RateLimitConfig) :
    r.roll now cfg = r ∨ (r.roll now cfg).envelopes = 0 ∧ (r.roll now cfg).bytes = 0 := by
  rw [roll]
  split
  · exact .inr ⟨rfl, rfl⟩
  · exact .inl rfl

theorem used_of_empty (henvelopes : r.envelopes = 0) (hbytes : r.bytes = 0) :
    r.used cfg now = (0, 0) := by
  rcases roll_cases r now cfg with h | ⟨h, h'⟩
  · rw [used, h, henvelopes, hbytes]
  · rw [used, h, h']

theorem used_roll_le : (r.roll now cfg).used cfg' now' ≤ r.used cfg' now' := by
  rcases roll_cases r now cfg with h | ⟨henvelopes, hbytes⟩
  · rw [h]
  · rw [used_of_empty henvelopes hbytes]
    exact ⟨Nat.zero_le _, Nat.zero_le _⟩

theorem used_default_le : RateLimiter.default.used cfg now ≤ r.used cfg now := by
  rw [used_of_empty rfl rfl]
  exact ⟨Nat.zero_le _, Nat.zero_le _⟩

end RateLimiter

namespace Account

def ruling (account : Account) (envelope : Envelope P) (nonce now : UInt64) (size : Nat) :
    Ruling :=
  if Puzzle.verify P envelope.id nonce account.difficultyBits then
    if (account.rate.allow now size account.limits).1 then .admitted else .overBudget
  else .unproven

/-- The account after a Data frame: the limiter is asked about those with a proof. -/
def charged (account : Account) (envelope : Envelope P) (nonce now : UInt64) (size : Nat) :
    Account :=
  if Puzzle.verify P envelope.id nonce account.difficultyBits then
    { account with rate := (account.rate.allow now size account.limits).2 }
  else account

def after (peer : UInt64) (account : Account) : Event P → Account
  | .connected other | .lost other =>
    if other = peer then { account with rate := .default } else account
  | .frame fromPeer bytes now =>
    if fromPeer = peer then
      match ContactMessage.fromBytes P bytes with
      | .ok (.data envelope nonce) => account.charged envelope nonce now bytes.length
      | _ => account
    else account
  | .compose _ _ => account
  | .setPuzzleDifficulty difficultyBits => { account with difficultyBits := difficultyBits }
  | .setRateLimits limits => { account with limits := limits }

def output (peer : UInt64) (account : Account) : Event P → Option Ruled
  | .frame fromPeer bytes now =>
    if fromPeer = peer then
      match ContactMessage.fromBytes P bytes with
      | .ok (.data envelope nonce) =>
        some (now, bytes, account.ruling envelope nonce now bytes.length)
      | _ => none
    else none
  | _ => none

def observer (P : Primitives) (peer : UInt64) : Observer (Event P) Account Ruled where
  sees := Event.concerns peer
  after := after peer
  output := output peer
  after_unseen account event h := by
    cases event with
    | connected | lost | frame => exact if_neg (beq_eq_false_iff_ne.mp h)
    | compose => rfl
    | setPuzzleDifficulty | setRateLimits => cases h
  output_unseen account event h := by
    cases event with
    | frame => exact if_neg (beq_eq_false_iff_ne.mp h)
    | connected | lost | compose | setPuzzleDifficulty | setRateLimits => rfl

variable {account : Account} {peer now : UInt64} {event : Event P} {cfg : RateLimitConfig}

theorem used_charged_le {envelope : Envelope P} {nonce now' : UInt64} {size : Nat}
    (h : account.ruling envelope nonce now' size ≠ .admitted) :
    (account.charged envelope nonce now' size).rate.used cfg now ≤ account.rate.used cfg now := by
  rw [ruling] at h
  rw [charged]
  split
  · next hverify =>
    rw [if_pos hverify] at h
    rcases RateLimiter.allow_eq account.rate now' size account.limits with
      ⟨-, hnext⟩ | ⟨hok, -⟩
    · rw [hnext]
      exact RateLimiter.used_roll_le
    · exact absurd (if_pos hok) h
  · exact le_rfl

theorem used_after_le (h : ∀ now bytes, account.output peer event ≠ some (now, bytes, .admitted)) :
    (account.after peer event).rate.used cfg now ≤ account.rate.used cfg now := by
  cases event with
  | connected | lost =>
    rw [after]
    split
    · exact RateLimiter.used_default_le
    · exact le_rfl
  | frame fromPeer bytes now' =>
    simp only [output] at h
    simp only [after]
    by_cases hpeer : fromPeer = peer
    · rw [if_pos hpeer] at h ⊢
      split
      · next envelope nonce hmsg =>
        rw [hmsg] at h
        refine used_charged_le fun hruling => h now' bytes ?_
        exact congrArg (fun r => some (now', bytes, r)) hruling
      · exact le_rfl
    · rw [if_neg hpeer]
  | compose | setPuzzleDifficulty | setRateLimits => exact le_rfl

end Account

namespace RelayEngine

def account (e : RelayEngine P) (peer : UInt64) : Account where
  rate := (e.peerState peer).rate
  limits := e.rateLimit
  difficultyBits := e.puzzleDifficultyBits

def used (e : RelayEngine P) (peer : UInt64) (cfg : RateLimitConfig) (now : UInt64) : Nat × Nat :=
  (e.peerState peer).rate.used cfg now

end RelayEngine

def Call.ruled (peer : UInt64) (call : Call P) : Option Ruled :=
  (call.before.account peer).output peer call.event

/-- Only what is admitted gets to the store, and the rest is dropped without a trace. -/
def Ruling.Obeyed (ruling : Ruling) (call : Call P) (now : UInt64) (bytes : List UInt8)
    (next : RelayEngine P) : Prop :=
  match ruling with
  | .admitted => ∃ envelope nonce, ContactMessage.fromBytes P bytes = .ok (.data envelope nonce) ∧
      next.held = (call.before.held.accept envelope now).2
  | .unproven | .overBudget => call.outbound = [] ∧ next.store = call.before.store

namespace RelayEngine

section Step

variable {e next : RelayEngine P} {peer fromPeer now : UInt64} {bytes : List UInt8}
  {event : Event P} {outbound : List Outbound} {envelope : Envelope P} {nonce : UInt64}

theorem account_setPeer_of_ne {state : PeerState} (h : peer ≠ fromPeer) :
    (e.setPeer fromPeer state).account peer = e.account peer := by
  rw [account, peerState_setPeer_of_ne h]
  rfl

theorem account_greeted : (e.greeted fromPeer).account peer = e.account peer := by
  rw [account, rate_greeted, greeted]
  split <;> rfl

theorem account_charged {size : Nat} :
    (e.charged peer now size).account peer =
      { e.account peer with rate := (e.budget peer now size).2 } := by
  rw [account, rate_charged_self]
  rfl

theorem account_charged_of_ne {size : Nat} (h : peer ≠ fromPeer) :
    (e.charged fromPeer now size).account peer = e.account peer := by
  rw [account, peerState_charged_of_ne h]
  rfl

theorem after_frame_of_ne {account : Account} (h : fromPeer ≠ peer) :
    account.after peer (.frame fromPeer bytes now : Event P) = account := if_neg h

theorem after_data {account : Account}
    (hmsg : ContactMessage.fromBytes P bytes = .ok (.data envelope nonce)) :
    account.after peer (.frame peer bytes now : Event P) =
      account.charged envelope nonce now bytes.length := by
  simp only [Account.after, hmsg, if_true]

theorem after_not_data {account : Account}
    (hmsg : ∀ (x : Envelope P) nonce, ContactMessage.fromBytes P bytes ≠ .ok (.data x nonce)) :
    account.after peer (.frame fromPeer bytes now : Event P) = account := by
  by_cases h : fromPeer = peer
  · simp only [Account.after, h, if_true]
  · exact after_frame_of_ne h

theorem account_limited
    (hmsg : ContactMessage.fromBytes P bytes = .ok (.data envelope nonce))
    (hverify : Puzzle.verify P envelope.id nonce e.puzzleDifficultyBits = true) :
    (e.charged fromPeer now bytes.length).account peer =
      (e.account peer).after peer (.frame fromPeer bytes now : Event P) := by
  by_cases h : fromPeer = peer
  · subst h
    rw [account_charged, after_data hmsg, Account.charged]
    exact (if_pos hverify).symm
  · rw [account_charged_of_ne (Ne.symm h), after_frame_of_ne h]

theorem account_act (hact : e.act event = some (outbound, next)) :
    next.account peer = (e.account peer).after peer event := by
  cases event with
  | connected other =>
    cases hact
    by_cases h : other = peer
    · subst h
      rw [account, peerState_setPeer_self]
      exact (if_pos rfl).symm
    · rw [account_setPeer_of_ne (Ne.symm h)]
      exact (if_neg h).symm
  | lost other =>
    cases hact
    by_cases h : other = peer
    · subst h
      rw [account, peerState_onPeerLost_self]
      exact (if_pos rfl).symm
    · rw [account, peerState_onPeerLost_of_ne (Ne.symm h)]
      exact (if_neg h).symm
  | setPuzzleDifficulty | setRateLimits =>
    cases hact
    rfl
  | compose envelope now =>
    cases acted hact with
    | composed | composeFault => rfl
  | frame fromPeer bytes now =>
    rcases frame_acted hact with h | ⟨rfl, err, h⟩
    · cases h with
      | summary hmsg =>
        rw [account_greeted, after_not_data fun x nonce h => by cases hmsg.symm.trans h]
      | unproven hmsg hverify =>
        by_cases hpeer : fromPeer = peer
        · subst hpeer
          rw [after_data hmsg, Account.charged]
          exact (if_neg (Bool.eq_false_iff.mp hverify)).symm
        · rw [after_frame_of_ne hpeer]
      | overBudget hmsg hverify | offered hmsg hverify => exact account_limited hmsg hverify
    · cases h with
      | malformed hmsg => rw [after_not_data fun x nonce h => by cases hmsg.symm.trans h]
      | diskFault hmsg hverify => exact account_limited hmsg hverify

theorem output_data {account : Account}
    (hmsg : ContactMessage.fromBytes P bytes = .ok (.data envelope nonce)) :
    account.output peer (.frame peer bytes now : Event P) =
      some (now, bytes, account.ruling envelope nonce now bytes.length) := by
  simp only [Account.output, hmsg, if_true]

theorem output_not_data {account : Account}
    (hmsg : ∀ (x : Envelope P) nonce, ContactMessage.fromBytes P bytes ≠ .ok (.data x nonce)) :
    account.output peer (.frame fromPeer bytes now : Event P) = none := by
  simp only [Account.output]
  split <;> rfl

theorem ruling_of_unproven (h : Puzzle.verify P envelope.id nonce e.puzzleDifficultyBits = false) :
    (e.account peer).ruling envelope nonce now bytes.length = .unproven :=
  if_neg (Bool.eq_false_iff.mp h)

theorem ruling_of_proven (h : Puzzle.verify P envelope.id nonce e.puzzleDifficultyBits = true) :
    (e.account peer).ruling envelope nonce now bytes.length =
      if (e.budget peer now bytes.length).1 then .admitted else .overBudget := if_pos h

theorem obeyed_act {bytes' : List UInt8} {now' : UInt64} {ruling : Ruling}
    (hact : e.act event = some (outbound, next))
    (hruled : Call.ruled peer ⟨e, event, outbound⟩ = some (now', bytes', ruling)) :
    ruling.Obeyed ⟨e, event, outbound⟩ now' bytes' next := by
  change (e.account peer).output peer event = _ at hruled
  cases event with
  | connected | lost | compose | setPuzzleDifficulty | setRateLimits => cases hruled
  | frame fromPeer bytes now =>
    obtain rfl : fromPeer = peer := by
      by_contra hne
      cases hruled.symm.trans (if_neg hne)
    rcases frame_acted hact with h | ⟨rfl, err, h⟩
    · cases h with
      | summary hmsg =>
        rw [output_not_data fun x nonce h => by cases hmsg.symm.trans h] at hruled
        cases hruled
      | unproven hmsg hverify =>
        rw [output_data hmsg, ruling_of_unproven hverify] at hruled
        cases hruled
        exact ⟨rfl, rfl⟩
      | overBudget hmsg hverify hbudget =>
        rw [output_data hmsg, ruling_of_proven hverify, hbudget] at hruled
        cases hruled
        exact ⟨rfl, rfl⟩
      | offered hmsg hverify hbudget =>
        rw [output_data hmsg, ruling_of_proven hverify, hbudget] at hruled
        cases hruled
        exact ⟨_, _, hmsg, rfl⟩
    · cases h with
      | malformed hmsg =>
        rw [output_not_data fun x nonce h => by cases hmsg.symm.trans h] at hruled
        cases hruled
      | diskFault hmsg hverify hbudget =>
        rw [output_data hmsg, ruling_of_proven hverify, hbudget] at hruled
        cases hruled
        exact ⟨_, _, hmsg, rfl⟩

end Step

section Run

variable {e e₁ e₂ : RelayEngine P} {events events₁ events₂ : List (Event P)}
  {calls calls₁ calls₂ : List (Call P)}

/-- What becomes of a peer's frames in a run is what its account alone says. -/
theorem run_ruled (peer : UInt64) (hrun : e.run events = some calls) :
    calls.filterMap (Call.ruled peer) = (Account.observer P peer).run (e.account peer) events := by
  induction events generalizing e calls with
  | nil =>
    cases hrun
    rfl
  | cons event events ih =>
    obtain ⟨outbound, next, rest, hact, hrest, heq⟩ := run_cons_iff.mp hrun
    cases heq
    have hruled : Call.ruled peer ⟨e, event, outbound⟩ = (e.account peer).output peer event := rfl
    have hstep : (Account.observer P peer).run (e.account peer) (event :: events) =
        ((e.account peer).output peer event).toList ++
          (Account.observer P peer).run ((e.account peer).after peer event) events := rfl
    rw [List.filterMap_cons, hruled, ih hrest, account_act hact, hstep]
    cases (e.account peer).output peer event with
    | none => rfl
    | some ruled => rfl

/-- Two runs that agree on what concerns a peer admit and drop the same frames of it, and only
what is admitted counts against its budget. -/
theorem peers_budgets_independent (peer : UInt64) (hlimits : e₁.rateLimit = e₂.rateLimit)
    (hdifficulty : e₁.puzzleDifficultyBits = e₂.puzzleDifficultyBits)
    (hrate : (e₁.peerState peer).rate = (e₂.peerState peer).rate)
    (hsame : events₁.filter (Event.concerns peer) = events₂.filter (Event.concerns peer))
    (hrun₁ : e₁.run events₁ = some calls₁) (hrun₂ : e₂.run events₂ = some calls₂) :
    calls₁.filterMap (Call.ruled peer) = calls₂.filterMap (Call.ruled peer) ∧
      ∀ call ∈ calls₁, ∀ next, call.before.act call.event = some (call.outbound, next) →
        (∀ now bytes ruling, call.ruled peer = some (now, bytes, ruling) →
          ruling.Obeyed call now bytes next) ∧
        ((∀ now bytes, call.ruled peer ≠ some (now, bytes, .admitted)) →
          ∀ cfg now, next.used peer cfg now ≤ call.before.used peer cfg now) := by
  constructor
  · have haccount : e₁.account peer = e₂.account peer := by
      rw [account, account, hlimits, hdifficulty, hrate]
    rw [run_ruled peer hrun₁, run_ruled peer hrun₂, haccount]
    exact Observer.run_congr _ hsame
  · intro call _ next hact
    refine ⟨fun now bytes ruling => obeyed_act hact, fun hruled cfg now => ?_⟩
    have hrate : (next.peerState peer).rate =
        ((call.before.account peer).after peer call.event).rate :=
      congrArg Account.rate (account_act hact)
    rw [used, hrate]
    exact Account.used_after_le hruled

def crowdedEvents : List (Event toyPrimitives) :=
  [.connected 8, .connected 7, .frame 8 toyFrame 0, .frame 7 toyFrame 0, .lost 8, .connected 7,
    .compose (toyEnvelope 3) 4, .frame 7 toyFrame 5]

def crowdedCalls : List (Call toyPrimitives) := (oneAMinute.run crowdedEvents).getD []

theorem run_crowdedEvents : oneAMinute.run crowdedEvents = some crowdedCalls :=
  run_getD (by decide)

theorem same_crowdedEvents :
    reconnectEvents.filter (Event.concerns 7) = crowdedEvents.filter (Event.concerns 7) := rfl

theorem peers_budgets_independent_crowdedEvents :
    reconnectCalls.filterMap (Call.ruled 7) = crowdedCalls.filterMap (Call.ruled 7) ∧
      ∀ call ∈ reconnectCalls, ∀ next, call.before.act call.event = some (call.outbound, next) →
        (∀ now bytes ruling, call.ruled 7 = some (now, bytes, ruling) →
          ruling.Obeyed call now bytes next) ∧
        ((∀ now bytes, call.ruled 7 ≠ some (now, bytes, .admitted)) →
          ∀ cfg now, next.used 7 cfg now ≤ call.before.used 7 cfg now) :=
  peers_budgets_independent 7 rfl rfl rfl same_crowdedEvents run_reconnectEvents run_crowdedEvents

end Run

end RelayEngine

end ProjectMesh.Routing
