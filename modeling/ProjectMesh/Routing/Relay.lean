import ProjectMesh.Routing.Persistence
import ProjectMesh.Routing.Puzzle

namespace ProjectMesh.Routing

open ProjectMesh.Lib

variable {P : Primitives}

inductive ContactMessage (P : Primitives) : Type
  | summary (filter : BloomFilter)
  | data (envelope : Envelope P) (puzzleNonce : UInt64)
  deriving DecidableEq

namespace ContactMessage

def tag : ContactMessage P → UInt8
  | .summary _ => 0
  | .data _ _ => 1

def payload : ContactMessage P → List UInt8
  | .summary filter => filter.toBytes
  | .data envelope puzzleNonce => leBytes 8 puzzleNonce.toNat ++ envelope.toBytes

def toBytes (message : ContactMessage P) : List UInt8 :=
  wireVersion :: message.tag :: (leBytes 4 message.payload.length ++ message.payload)

def readData (P : Primitives) (payload : List UInt8) : Except MeshError (ContactMessage P) := do
  let (nonce, body) ←
    Cursor.split 8 (MeshError.malformed "data message shorter than puzzle nonce") payload
  let envelope ← Envelope.fromBytes P body
  return .data envelope (.ofNat (leNat nonce.1))

def fromBytes (P : Primitives) (bytes : List UInt8) : Except MeshError (ContactMessage P) :=
  match bytes with
  | version :: tag :: b₀ :: b₁ :: b₂ :: b₃ :: payload =>
    if version ≠ wireVersion then
      .error (.malformed "unsupported contact message version")
    else if payload.length ≠ leNat [b₀, b₁, b₂, b₃] then
      .error (.malformed "contact message length mismatch")
    else if tag = 0 then .summary <$> BloomFilter.fromBytes payload
    else if tag = 1 then readData P payload
    else .error (.malformed "unknown contact message tag")
  | _ => .error (.malformed "contact message shorter than header")

end ContactMessage

structure RateLimitConfig where
  maxEnvelopesPerWindow : Nat
  maxBytesPerWindow : Nat
  windowSeconds : UInt64
  deriving DecidableEq

def RateLimitConfig.default : RateLimitConfig where
  maxEnvelopesPerWindow := 120
  maxBytesPerWindow := 2000000
  windowSeconds := 60

structure RateLimiter where
  window : UInt64
  envelopes : Nat
  bytes : Nat
  deriving DecidableEq

namespace RateLimiter

def default : RateLimiter where
  window := 0
  envelopes := 0
  bytes := 0

def roll (r : RateLimiter) (now : UInt64) (cfg : RateLimitConfig) : RateLimiter :=
  let window := now / max cfg.windowSeconds 1
  if window ≠ r.window then { window := window, envelopes := 0, bytes := 0 } else r

/-- Whether this envelope is within budget for the peer's current window. -/
def allow (r : RateLimiter) (now : UInt64) (envelopeBytes : Nat) (cfg : RateLimitConfig) :
    Bool × RateLimiter :=
  let r := r.roll now cfg
  let wouldBeBytes := r.bytes + envelopeBytes
  if r.envelopes ≥ cfg.maxEnvelopesPerWindow ∨ wouldBeBytes > cfg.maxBytesPerWindow then (false, r)
  else (true, { r with envelopes := r.envelopes + 1, bytes := wouldBeBytes })

end RateLimiter

structure PeerState where
  /-- Whether *our* summary went to this peer during the current contact. -/
  summarySent : Bool
  rate : RateLimiter
  deriving DecidableEq

def PeerState.new (summarySent : Bool) : PeerState where
  summarySent := summarySent
  rate := .default

abbrev Outbound := UInt64 × List UInt8

structure RelayEngine (P : Primitives) where
  store : DurableStore P
  peers : Assoc UInt64 PeerState
  puzzleDifficultyBits : UInt8
  rateLimit : RateLimitConfig

namespace RelayEngine

def new (store : DurableStore P) : RelayEngine P where
  store := store
  peers := ∅
  puzzleDifficultyBits := 0
  rateLimit := .default

def setPuzzleDifficulty (e : RelayEngine P) (difficultyBits : UInt8) : RelayEngine P :=
  { e with puzzleDifficultyBits := difficultyBits }

def setRateLimits (e : RelayEngine P) (limits : RateLimitConfig) : RelayEngine P :=
  { e with rateLimit := limits }

def held (e : RelayEngine P) : Store P := e.store.memory

def setPeer (e : RelayEngine P) (peer : UInt64) (state : PeerState) : RelayEngine P :=
  { e with peers := e.peers.insert peer state }

/-- `entry(peer).or_insert_with(|| PeerState::new(false))` -/
def peerState (e : RelayEngine P) (peer : UInt64) : PeerState :=
  (e.peers.lookup peer).getD (.new false)

def summary (e : RelayEngine P) : List UInt8 :=
  (ContactMessage.summary (P := P) e.held.summaryBloom).toBytes

def onPeerConnected (e : RelayEngine P) (peer : UInt64) : List UInt8 × RelayEngine P :=
  (e.summary, e.setPeer peer (.new true))

def onPeerLost (e : RelayEngine P) (peer : UInt64) : RelayEngine P :=
  { e with peers := e.peers.erase peer }

/-- A search that finds no nonce never returns. -/
def solve (e : RelayEngine P) (id : EnvelopeId) : Method MeshError (RelayEngine P) UInt64 :=
  match Puzzle.solve P id e.puzzleDifficultyBits with
  | some nonce => pure nonce
  | none => Method.halt

def push (fromPeer : UInt64) : List (Envelope P) → Method MeshError (RelayEngine P) (List Outbound)
  | [] => pure []
  | envelope :: rest => do
    let self ← get
    match decrementTtl envelope with
    | none => push fromPeer rest
    | some relayed =>
      let nonce ← self.solve relayed.id
      let outbound ← push fromPeer rest
      return (fromPeer, (ContactMessage.data relayed nonce).toBytes) :: outbound

def relayTo (e : RelayEngine P) (envelope : Envelope P) (puzzleNonce : UInt64)
    (exclude : UInt64 → Bool) : List Outbound :=
  match decrementTtl envelope with
  | none => []
  | some relayed => (e.peers.keys.filter fun peer => !exclude peer).map fun peer =>
    (peer, (ContactMessage.data relayed puzzleNonce).toBytes)

def relayToOthers (e : RelayEngine P) (envelope : Envelope P) (puzzleNonce exclude : UInt64) :
    List Outbound :=
  e.relayTo envelope puzzleNonce (· == exclude)

def relayToAll (e : RelayEngine P) (envelope : Envelope P) (puzzleNonce : UInt64) :
    List Outbound :=
  e.relayTo envelope puzzleNonce fun _ => false

def onStore (x : Method MeshError (DurableStore P) α) : Method MeshError (RelayEngine P) α :=
  Method.zoom store (fun self store => { self with store := store }) x

def onSummary (fromPeer : UInt64) (theirFilter : BloomFilter) :
    Method MeshError (RelayEngine P) (List Outbound) := do
  let self ← get
  let reply ←
    if !(self.peerState fromPeer).summarySent then do
      set (self.setPeer fromPeer { self.peerState fromPeer with summarySent := true })
      pure [(fromPeer, self.summary)]
    else pure []
  let pushed ← push fromPeer (self.held.missingFromBloom theirFilter)
  return reply ++ pushed

def onData (fromPeer : UInt64) (size : Nat) (envelope : Envelope P) (puzzleNonce now : UInt64) :
    Method MeshError (RelayEngine P) (List Outbound) := do
  let self ← get
  if !Puzzle.verify P envelope.id puzzleNonce self.puzzleDifficultyBits then
    return [] -- fails the proof-of-work requirement: drop silently
  else do
    let state := self.peerState fromPeer
    let (withinBudget, rate) := state.rate.allow now size self.rateLimit
    set (self.setPeer fromPeer { state with rate := rate })
    if !withinBudget then
      return [] -- over the per-peer rate cap this window: drop silently
    else do
      let outcome ← onStore (DurableStore.accept envelope now)
      let self ← get
      if outcome = .new then return self.relayToOthers envelope puzzleNonce fromPeer
      else return []

def onFrame (fromPeer : UInt64) (bytes : List UInt8) (now : UInt64) :
    Method MeshError (RelayEngine P) (List Outbound) := do
  match ← Method.ofExcept (ContactMessage.fromBytes P bytes) with
  | .summary theirFilter => onSummary fromPeer theirFilter
  | .data envelope puzzleNonce => onData fromPeer bytes.length envelope puzzleNonce now

def composeLocal (envelope : Envelope P) (now : UInt64) :
    Method MeshError (RelayEngine P) (Accept × List Outbound) := do
  let self ← get
  let nonce ← self.solve envelope.id
  let outcome ← onStore (DurableStore.accept envelope now)
  let self ← get
  if outcome = .new then return (outcome, self.relayToAll envelope nonce)
  else return (outcome, [])

end RelayEngine

end ProjectMesh.Routing
