import ProjectMesh.Lib.Triple
import ProjectMesh.Routing.EnvelopeIdentity
import ProjectMesh.Routing.FfiEnvelope
import ProjectMesh.Routing.NodeSends

namespace ProjectMesh.Routing

open ProjectMesh.Lib
open ProjectMesh.Crypto.FfiPrekey

variable {P : Primitives}

inductive NodeCall : Type
  | event (event : NodeEvent)
  | setPuzzleDifficulty (difficultyBits : UInt8)
  | setRateLimits (maxEnvelopesPerWindow : UInt32) (maxBytesPerWindow windowSeconds : UInt64)

namespace FfiMeshNode

/-- `FfiMeshNode::open`, on the file as it is and the nonces that will be drawn. -/
def openNode (P : Primitives) (db : Database) (nonces : List (Bytes 12)) (masterKey : List UInt8)
    (capacity : UInt32) (now : UInt64) (transport : FfiMeshTransport) :
    Except (Fault FfiError) (FfiMeshNode P) :=
  if h : masterKey.length = 32 then
    match (DurableStore.openStore now).run
        ⟨.new P capacity.toNat, { db := db, masterKey := ⟨masterKey, h⟩, nonces := nonces }⟩ with
    | .ok () store => .ok { transport := transport, engine := .new store }
    | .error (.err e) _ => .error (.err (.ofMeshError e))
    | .error .panic _ => .error .panic
  else .error (.err (.malformed "master_key must be 32 bytes"))

def len (self : FfiMeshNode P) : UInt32 := .ofNat self.engine.held.len

/-- An error is the `None` of the source. -/
def containsHex (self : FfiMeshNode P) (idHex : List Char) : Parse Unit Bool :=
  match hexToId idHex with
  | .ok id => .ok (self.engine.held.contains id)
  | .error (.err ()) => .ok false
  | .error .panic => Parse.halt

def allIdsHex (self : FfiMeshNode P) : List (List Char) :=
  self.engine.held.entries.keys.map EnvelopeId.toHex

def getEnvelopeHex (self : FfiMeshNode P) (idHex : List Char) : Parse Unit (List UInt8) := do
  let id ← hexToId idHex
  Parse.okOr ((self.engine.held.get id).map Envelope.toBytes) ()

def setPuzzleDifficulty (self : FfiMeshNode P) (difficultyBits : UInt8) : FfiMeshNode P :=
  { self with engine := self.engine.setPuzzleDifficulty difficultyBits }

def setRateLimits (self : FfiMeshNode P) (maxEnvelopesPerWindow : UInt32)
    (maxBytesPerWindow windowSeconds : UInt64) : FfiMeshNode P :=
  { self with engine := self.engine.setRateLimits {
      maxEnvelopesPerWindow := maxEnvelopesPerWindow.toNat
      maxBytesPerWindow := maxBytesPerWindow.toNat
      windowSeconds := windowSeconds } }

def step (self : FfiMeshNode P) : NodeCall → FfiMeshNode P
  | .event event => Method.after ((perform event).run self)
  | .setPuzzleDifficulty difficultyBits => self.setPuzzleDifficulty difficultyBits
  | .setRateLimits maxEnvelopesPerWindow maxBytesPerWindow windowSeconds =>
    self.setRateLimits maxEnvelopesPerWindow maxBytesPerWindow windowSeconds

def run (self : FfiMeshNode P) (calls : List NodeCall) : FfiMeshNode P := calls.foldl step self

end FfiMeshNode

inductive Brings (x : Envelope P) : NodeCall → Prop
  | frame {peerHandle bytes now nonce} :
    ContactMessage.fromBytes P bytes = .ok (.data x nonce) →
    Brings x (.event (.frame peerHandle bytes now))
  | compose {envelopeBytes now} : Envelope.fromBytes P envelopeBytes = .ok x →
    Brings x (.event (.compose envelopeBytes now))

def Store.OnWire (s : Store P) : Prop :=
  ∀ id x, s.get id = some x → Envelope.fromBytes P x.toBytes = .ok x

section Held

variable {s : Store P} {x : Envelope P} {bytes : List UInt8} {id : EnvelopeId} {now : UInt64}

theorem Envelope.fromBytes_again (h : Envelope.fromBytes P bytes = .ok x) :
    Envelope.fromBytes P x.toBytes = .ok x := by
  rw [Envelope.toBytes_fromBytes h, h]

theorem ContactMessage.exists_body {nonce : UInt64}
    (h : ContactMessage.fromBytes P bytes = .ok (.data x nonce)) :
    ∃ body, Envelope.fromBytes P body = .ok x := by
  unfold ContactMessage.fromBytes at h
  split at h
  · split at h
    · cases h
    split at h
    · cases h
    split at h
    · cases (payload_readSummary h).1
    · split at h
      · obtain ⟨⟨nonce, body⟩, -, h⟩ := bind_eq_ok.mp h
        obtain ⟨envelope, henvelope, h⟩ := bind_eq_ok.mp h
        cases h
        exact ⟨body, henvelope⟩
      · cases h
  · cases h

theorem Brings.onWire {call : NodeCall} (h : Brings x call) :
    Envelope.fromBytes P x.toBytes = .ok x := by
  cases h with
  | frame hmsg =>
    obtain ⟨body, hbody⟩ := ContactMessage.exists_body hmsg
    exact Envelope.fromBytes_again hbody
  | compose hparse => exact Envelope.fromBytes_again hparse

theorem Store.OnWire.accept (h : s.OnWire) (hx : Envelope.fromBytes P x.toBytes = .ok x) :
    (s.accept x now).2.OnWire := by
  intro id y hy
  rcases Store.get_accept hy with hy | ⟨rfl, -⟩
  · exact h id y hy
  · exact hx

theorem EncryptedStore.exists_plaintext {disk : EncryptedStore}
    (h : disk.record P id = .ok (some x)) : ∃ bytes, Envelope.fromBytes P bytes = .ok x := by
  rw [EncryptedStore.record] at h
  split at h
  · cases h
  · obtain ⟨plaintext, -, h⟩ := bind_eq_ok.mp h
    obtain ⟨envelope, henvelope, h⟩ := bind_eq_ok.mp h
    cases h
    exact ⟨plaintext, henvelope⟩

end Held

section Step

variable {self self' : FfiMeshNode P} {x : Envelope P} {id : EnvelopeId} {now : UInt64}

namespace RelayEngine

theorem held_after_onSummary (e : RelayEngine P) (fromPeer : UInt64) (filter : BloomFilter) :
    (Method.after ((onSummary fromPeer filter).run e)).held = e.held := by
  have hpush : ∀ (envelopes : List (Envelope P)) (t : RelayEngine P),
      Method.after ((push fromPeer envelopes).run t) = t := by
    intro envelopes t
    rcases push_run t fromPeer envelopes with ⟨-, h⟩ | ⟨-, h⟩
    · rw [h]
      rfl
    · rw [h]
      rfl
  have hrun : (onSummary fromPeer filter).run e =
      (do
        let pushed ← push fromPeer (e.held.missingFromBloom filter)
        return e.reply fromPeer ++ pushed).run (e.greeted fromPeer) := by
    simp only [onSummary, EStateM.run_bind, EStateM.run_get, reply, greeted]
    cases (e.peerState fromPeer).summarySent <;> rfl
  rw [hrun, Method.after_bind_pure, hpush, held_greeted]

theorem held_after_onFrame (e : RelayEngine P) (fromPeer : UInt64) (bytes : List UInt8)
    (now : UInt64) : (Method.after ((onFrame fromPeer bytes now).run e)).held = e.held ∨
      ∃ x nonce, ContactMessage.fromBytes P bytes = .ok (.data x nonce) ∧
        (Method.after ((onFrame fromPeer bytes now).run e)).held = (e.held.accept x now).2 := by
  cases hmsg : ContactMessage.fromBytes P bytes with
  | error err =>
    rw [onFrame_malformed hmsg]
    exact .inl rfl
  | ok message =>
    cases message with
    | summary filter =>
      rw [onFrame_summary hmsg]
      exact .inl (held_after_onSummary e fromPeer filter)
    | data x nonce =>
      have houtcome := onFrame_outcome e fromPeer bytes now
      generalize (onFrame fromPeer bytes now).run e = result at houtcome
      cases houtcome with
      | malformed hmsg' | unsolvable hmsg' | summary hmsg' => cases hmsg.symm.trans hmsg'
      | unproven | overBudget => exact .inl rfl
      | offered hmsg' | diskFault hmsg' =>
        cases hmsg.symm.trans hmsg'
        exact .inr ⟨x, nonce, rfl, rfl⟩

theorem held_after_composeLocal (e : RelayEngine P) (x : Envelope P) (now : UInt64) :
    (Method.after ((composeLocal x now).run e)).held = e.held ∨
      (Method.after ((composeLocal x now).run e)).held = (e.held.accept x now).2 := by
  have houtcome := composeLocal_outcome e x now
  generalize (composeLocal x now).run e = result at houtcome
  cases houtcome with
  | unsolvable => exact .inl rfl
  | offered | diskFault => exact .inr rfl

end RelayEngine

namespace FfiMeshNode

theorem engine_after_onTransport {α : Type} (m : Method FfiError FfiMeshTransport α)
    (self : FfiMeshNode P) :
    (Method.after ((onTransport m).run self)).engine = self.engine := by
  rw [onTransport, Method.run_zoom]
  cases m.run self.transport <;> rfl

theorem engine_after_onEngine {α β : Type} (m : Method MeshError (RelayEngine P) α)
    (f : α → Method FfiError (FfiMeshNode P) β)
    (hf : ∀ a self, (Method.after ((f a).run self)).engine = self.engine)
    (self : FfiMeshNode P) :
    (Method.after ((onEngine m >>= f).run self)).engine = Method.after (m.run self.engine) := by
  rw [EStateM.run_bind]
  cases hrun : m.run self.engine with
  | ok a engine =>
    rw [onEngine_ok hrun]
    exact hf a _
  | error fault engine =>
    obtain ⟨fault', h⟩ := onEngine_error hrun
    rw [h]
    rfl

theorem engine_after_composeLocal {envelopeBytes : List UInt8}
    (hparse : Envelope.fromBytes P envelopeBytes = .ok x) (self : FfiMeshNode P) :
    (Method.after ((composeLocal envelopeBytes now).run self)).engine =
      Method.after ((RelayEngine.composeLocal x now).run self.engine) := by
  rw [composeLocal, hparse]
  refine engine_after_onEngine (RelayEngine.composeLocal x now) _ (fun a self => ?_) self
  rw [Method.after_bind_pure]
  exact engine_after_onTransport _ self

theorem held_step (self : FfiMeshNode P) (call : NodeCall) :
    (self.step call).engine.held = self.engine.held ∨
      ∃ x now, Brings x call ∧
        (self.step call).engine.held = (self.engine.held.accept x now).2 := by
  cases call with
  | setPuzzleDifficulty difficultyBits => exact .inl rfl
  | setRateLimits maxEnvelopesPerWindow maxBytesPerWindow windowSeconds => exact .inl rfl
  | event event =>
    cases event with
    | connected peerHandle =>
      have hengine : (self.step (.event (.connected peerHandle))).engine =
          (self.engine.onPeerConnected peerHandle).2 :=
        engine_after_onTransport (FfiMeshTransport.send peerHandle self.engine.summary)
          { self with engine := (self.engine.onPeerConnected peerHandle).2 }
      rw [hengine]
      exact .inl rfl
    | lost peerHandle => exact .inl rfl
    | frame peerHandle bytes now =>
      have hengine : (self.step (.event (.frame peerHandle bytes now))).engine =
          Method.after ((RelayEngine.onFrame peerHandle bytes now).run self.engine) :=
        engine_after_onEngine (RelayEngine.onFrame peerHandle bytes now) _
          (fun outbound self => engine_after_onTransport _ self) self
      rw [hengine]
      refine (RelayEngine.held_after_onFrame self.engine peerHandle bytes now).imp id ?_
      rintro ⟨x, nonce, hmsg, h⟩
      exact ⟨x, now, .frame hmsg, h⟩
    | compose envelopeBytes now =>
      rw [step, perform, Method.after_bind_pure]
      cases hparse : Envelope.fromBytes P envelopeBytes with
      | error err =>
        rw [composeLocal, hparse]
        exact .inl rfl
      | ok x =>
        rw [engine_after_composeLocal hparse]
        refine (RelayEngine.held_after_composeLocal self.engine x now).imp id ?_
        exact fun h => ⟨x, now, .compose hparse, h⟩

theorem onWire_step (h : self.engine.held.OnWire) (call : NodeCall) :
    (self.step call).engine.held.OnWire := by
  rcases held_step self call with heq | ⟨x, now, hbrings, heq⟩
  · rw [heq]
    exact h
  · rw [heq]
    exact h.accept hbrings.onWire

theorem onWire_run (h : self.engine.held.OnWire) (calls : List NodeCall) :
    (self.run calls).engine.held.OnWire := by
  induction calls generalizing self with
  | nil => exact h
  | cons call calls ih => exact ih (onWire_step h call)

end FfiMeshNode

end Step

section Open

variable {d : DurableStore P} {ids : List EnvelopeId}

namespace DurableStore

theorem memory_after_onDisk {α : Type} (m : Method MeshError EncryptedStore α)
    (d : DurableStore P) : (Method.after ((onDisk m).run d)).memory = d.memory := by
  rw [onDisk, Method.run_zoom]
  cases m.run d.disk <;> rfl

def OnWire (d : DurableStore P) : Prop := d.memory.OnWire

theorem onWire_onDisk {α : Type} (m : Method MeshError EncryptedStore α) :
    Method.Triple OnWire (onDisk m : Method MeshError (DurableStore P) α) (fun _ => OnWire)
      OnWire :=
  .of_after fun d h => by
    rw [OnWire, memory_after_onDisk]
    exact h

theorem onWire_reload (now : UInt64) (id : EnvelopeId) :
    Method.Triple OnWire (reload (P := P) now id) (fun _ => OnWire) OnWire := by
  refine .of_after fun d h => ?_
  rw [reload, EStateM.run_bind, EStateM.run_get]
  dsimp only
  cases hget : (EncryptedStore.get P id).run d.disk with
  | error fault disk => cases fault <;> exact h
  | ok found disk =>
    cases found with
    | none => exact h
    | some x =>
      obtain ⟨bytes, hbytes⟩ := EncryptedStore.exists_plaintext (EncryptedStore.get_run_ok hget)
      have haccept : (d.memory.accept x now).2.OnWire :=
        Store.OnWire.accept h (Envelope.fromBytes_again hbytes)
      obtain ⟨⟨⟨outcome, evicted⟩, memory⟩, hresult⟩ :
        ∃ result, d.memory.accept x now = result := ⟨_, rfl⟩
      rw [hresult] at haccept
      have hnext : OnWire ⟨memory, disk⟩ := haccept
      have htail : Method.Triple OnWire (if outcome ≠ .new then
          onDisk (EncryptedStore.remove id) else pure () : Method MeshError (DurableStore P) Unit)
          (fun _ => OnWire) OnWire := by
        split
        · exact onWire_onDisk _
        · exact .pure fun _ h => h
      simp only [hresult]
      cases evicted with
      | none => exact htail.after hnext
      | some victim => exact ((onWire_onDisk _).bind fun _ => htail).after hnext

theorem onWire_openStore (now : UInt64) :
    Method.Triple OnWire (openStore (P := P) now) (fun _ => OnWire) OnWire := by
  have hreload : ∀ ids : List EnvelopeId,
      Method.Triple OnWire (reloadAll (P := P) now ids) (fun _ => OnWire) OnWire := by
    intro ids
    induction ids with
    | nil => exact .pure fun _ h => h
    | cons id ids ih => exact (onWire_reload now id).bind fun _ => ih
  exact (onWire_onDisk _).bind fun _ => (onWire_onDisk _).bind hreload

end DurableStore

theorem FfiMeshNode.onWire_openNode {self : FfiMeshNode P} {db : Database}
    {nonces : List (Bytes 12)} {masterKey : List UInt8} {capacity : UInt32} {now : UInt64}
    {transport : FfiMeshTransport}
    (h : openNode P db nonces masterKey capacity now transport = .ok self) :
    self.engine.held.OnWire := by
  rw [openNode] at h
  split at h
  · next hkey =>
    have hopen := DurableStore.onWire_openStore (P := P) now
      ⟨.new P capacity.toNat, { db := db, masterKey := ⟨masterKey, hkey⟩, nonces := nonces }⟩
      (fun id x hx => nomatch hx)
    split at h
    · next store hrun =>
      cases h
      rw [hrun] at hopen
      exact hopen
    · cases h
    · cases h
  · cases h

end Open

section Inbox

variable {self self' : FfiMeshNode P} {x : Envelope P} {id : EnvelopeId} {idHex : List Char}
  {bytes : List UInt8} {now : UInt64}

theorem EnvelopeId.toHex_injective {id id' : EnvelopeId} (h : id.toHex = id'.toHex) :
    id = id' := by
  obtain ⟨bytes⟩ := id
  obtain ⟨bytes'⟩ := id'
  exact congrArg EnvelopeId.mk (Subtype.ext (Str.toHex_injective h))

theorem Store.get_of_new {s : Store P} (h : (s.accept x now).1.1 = .new) :
    (s.accept x now).2.get x.id = some x := by
  have hoffered := s.accept_offered x now
  generalize s.accept x now = result at h hoffered
  cases hoffered with
  | new | replaced => exact get_insert_self
  | _ => cases h

namespace FfiMeshNode

theorem mem_allIdsHex_iff :
    idHex ∈ self.allIdsHex ↔ ∃ x, self.engine.held.get x.id = some x ∧ idHex = x.id.toHex := by
  rw [allIdsHex, List.mem_map]
  constructor
  · rintro ⟨id, hid, rfl⟩
    obtain ⟨x, hx⟩ := Store.contains_iff.mp (Store.mem_keys_iff.mp hid)
    obtain rfl := Store.id_of_get hx
    exact ⟨x, hx, rfl⟩
  · rintro ⟨x, hx, rfl⟩
    exact ⟨x.id, Store.mem_keys_iff.mpr (Store.contains_iff.mpr ⟨x, hx⟩), rfl⟩

theorem nodup_allIdsHex (self : FfiMeshNode P) : self.allIdsHex.Nodup :=
  self.engine.held.entries.keys_nodup.map fun _ _ h => EnvelopeId.toHex_injective h

theorem getEnvelopeHex_of_hexToId (hid : hexToId idHex = .ok id)
    (h : self.engine.held.get id = some x) : self.getEnvelopeHex idHex = .ok x.toBytes := by
  rw [getEnvelopeHex, hid]
  change Parse.okOr ((self.engine.held.get id).map Envelope.toBytes) () = _
  rw [h]
  rfl

theorem getEnvelopeHex_of_get (h : self.engine.held.get x.id = some x) :
    self.getEnvelopeHex x.id.toHex = .ok x.toBytes :=
  getEnvelopeHex_of_hexToId (hexToId_toHex x.id) h

theorem getEnvelopeHex_ok (h : self.getEnvelopeHex idHex = .ok bytes) :
    ∃ x, self.engine.held.get x.id = some x ∧ bytes = x.toBytes ∧ hexToId idHex = .ok x.id := by
  obtain ⟨id, hid, h⟩ := bind_eq_ok.mp h
  cases hget : self.engine.held.get id with
  | none =>
    rw [hget] at h
    cases h
  | some x =>
    rw [hget] at h
    cases h
    obtain rfl := Store.id_of_get hget
    exact ⟨x, hget, rfl, hid⟩

theorem composeLocal_new {envelopeBytes : List UInt8}
    (h : (composeLocal envelopeBytes now).run self = .ok .new self') :
    ∃ x, Envelope.fromBytes P envelopeBytes = .ok x ∧ self.engine.held.contains x.id = false ∧
      self'.engine.held.get x.id = some x := by
  obtain ⟨x, self₁, hparse, h⟩ := Method.run_bind_ok.mp h
  cases hfrom : Envelope.fromBytes P envelopeBytes with
  | error err =>
    rw [hfrom] at hparse
    cases hparse
  | ok x =>
    rw [hfrom] at hparse
    cases hparse
    obtain ⟨⟨outcome, outbound⟩, self₂, hengine, h⟩ := Method.run_bind_ok.mp h
    obtain ⟨⟨⟩, self₃, hsend, h⟩ := Method.run_bind_ok.mp h
    cases h
    have hlast := engine_after_onTransport (FfiMeshTransport.sendAll outbound) self₂
    rw [hsend] at hlast
    have hcompose := RelayEngine.composeLocal_outcome self.engine x now
    cases hrun : (RelayEngine.composeLocal x now).run self.engine with
    | error fault engine =>
      obtain ⟨fault', herror⟩ := onEngine_error hrun
      cases hengine.symm.trans herror
    | ok answer engine =>
      cases hengine.symm.trans (onEngine_ok hrun)
      rw [hrun] at hcompose
      generalize hanswer : (Accept.new, outbound) = answer at hcompose
      cases hcompose with
      | offered hsolve =>
        have hnew : (self.engine.held.accept x now).1.1 = .new := (Prod.mk.inj hanswer).1.symm
        have hheld : self'.engine.held = (self.engine.held.accept x now).2 :=
          congrArg RelayEngine.held hlast
        refine ⟨x, rfl, (Store.live_of_accept_new hnew).1, ?_⟩
        rw [hheld]
        exact Store.get_of_new hnew

/-- The inbox that an app polls, over whatever the native layer reports: it is without
repetition, what it lists can be fetched and unpacks to an envelope with that very id, nothing
else can be fetched, and what is new in it was brought by the last call. -/
theorem inbox_of_opened {self₀ : FfiMeshNode P} {db : Database} {nonces : List (Bytes 12)}
    {masterKey : List UInt8} {capacity : UInt32} {opened : UInt64} {transport : FfiMeshTransport}
    (hopen : openNode P db nonces masterKey capacity opened transport = .ok self₀)
    (calls : List NodeCall) (hrun : self₀.run calls = self) :
    self.allIdsHex.Nodup ∧ self.len = .ofNat self.allIdsHex.length ∧
    (∀ idHex, idHex ∈ self.allIdsHex ↔ ∃ bytes parsed, self.getEnvelopeHex idHex = .ok bytes ∧
      envelopeUnpack P bytes = .ok parsed ∧ parsed.idHex = idHex) ∧
    (∀ idHex bytes, self.getEnvelopeHex idHex = .ok bytes → self.containsHex idHex = .ok true ∧
      ∃ parsed, envelopeUnpack P bytes = .ok parsed ∧ parsed.idHex ∈ self.allIdsHex) ∧
    (∀ call idHex, idHex ∈ (self.step call).allIdsHex → idHex ∉ self.allIdsHex →
      ∃ x : Envelope P, Brings x call ∧ idHex = x.id.toHex ∧
        (self.step call).getEnvelopeHex idHex = .ok x.toBytes) ∧
    ∀ envelopeBytes now self', (composeLocal envelopeBytes now).run self = .ok .new self' →
      ∃ parsed, envelopeUnpack P envelopeBytes = .ok parsed ∧ parsed.idHex ∉ self.allIdsHex ∧
        parsed.idHex ∈ self'.allIdsHex ∧
        self'.getEnvelopeHex parsed.idHex = .ok envelopeBytes := by
  have hwire : self.engine.held.OnWire := hrun ▸ onWire_run (onWire_openNode hopen) calls
  have hunpack : ∀ x : Envelope P, self.engine.held.get x.id = some x →
      envelopeUnpack P x.toBytes = .ok (.ofEnvelope x) := fun x hx =>
    envelopeUnpack_ok_iff.mpr ⟨x, hwire x.id x hx, rfl⟩
  refine ⟨nodup_allIdsHex self, ?_, fun idHex => ?_, fun idHex bytes h => ?_,
    fun call idHex hlisted hnew => ?_, fun envelopeBytes now self' h => ?_⟩
  · rw [allIdsHex, List.length_map, len, Store.len, Assoc.size, AList.keys, List.keys,
      List.length_map]
  · constructor
    · intro hlisted
      obtain ⟨x, hx, rfl⟩ := mem_allIdsHex_iff.mp hlisted
      exact ⟨x.toBytes, _, getEnvelopeHex_of_get hx, hunpack x hx, rfl⟩
    · rintro ⟨bytes, parsed, hfetched, hparsed, rfl⟩
      obtain ⟨x, hx, rfl, -⟩ := getEnvelopeHex_ok hfetched
      cases (hunpack x hx).symm.trans hparsed
      exact mem_allIdsHex_iff.mpr ⟨x, hx, rfl⟩
  · obtain ⟨x, hx, rfl, hid⟩ := getEnvelopeHex_ok h
    refine ⟨?_, _, hunpack x hx, mem_allIdsHex_iff.mpr ⟨x, hx, rfl⟩⟩
    rw [containsHex, hid]
    exact congrArg Except.ok (Store.contains_iff.mpr ⟨x, hx⟩)
  · obtain ⟨x, hx, rfl⟩ := mem_allIdsHex_iff.mp hlisted
    have hfresh : self.engine.held.get x.id ≠ some x := fun hold =>
      hnew (mem_allIdsHex_iff.mpr ⟨x, hold, rfl⟩)
    rcases held_step self call with heq | ⟨y, now, hbrings, heq⟩
    · exact absurd (heq ▸ hx) hfresh
    · have hget := hx
      rw [heq] at hget
      rcases Store.get_accept hget with hold | ⟨rfl, -⟩
      · exact absurd hold hfresh
      · exact ⟨x, hbrings, rfl, getEnvelopeHex_of_get hx⟩
  · obtain ⟨x, hparse, hfresh, hx⟩ := composeLocal_new h
    refine ⟨.ofEnvelope x, envelopeUnpack_ok_iff.mpr ⟨x, hparse, rfl⟩, fun hlisted => ?_,
      mem_allIdsHex_iff.mpr ⟨x, hx, rfl⟩, ?_⟩
    · obtain ⟨y, hy, hid⟩ := mem_allIdsHex_iff.mp hlisted
      rw [EnvelopeId.toHex_injective hid, Store.contains_eq_false_iff, hy] at hfresh
      cases hfresh
    · rw [← Envelope.toBytes_fromBytes hparse]
      exact getEnvelopeHex_of_get hx

def toyNode : FfiMeshNode toyPrimitives where
  transport := { answer := fun _ _ => .ok (), handed := [] }
  engine := .new {
    memory := .new toyPrimitives 10
    disk := {
      db := { table := ∅, faults := [] }
      masterKey := ⟨List.replicate 32 0, List.length_replicate⟩
      nonces := [] } }

theorem openNode_toyNode : openNode toyPrimitives ⟨∅, []⟩ [] (List.replicate 32 0) 10 0
    toyNode.transport = .ok toyNode := rfl

theorem inbox_of_opened_toyNode : ∃ bytes parsed,
    (toyNode.run [.event (.compose (toyEnvelope 3).toBytes 0)]).getEnvelopeHex
      (toyEnvelope 3).id.toHex = .ok bytes ∧
    envelopeUnpack toyPrimitives bytes = .ok parsed ∧
    parsed.idHex = (toyEnvelope 3).id.toHex := by
  have hlists := (inbox_of_opened openNode_toyNode
    [.event (.compose (toyEnvelope 3).toBytes 0)] rfl).2.2.1
  refine (hlists _).mp ?_
  decide +kernel

end FfiMeshNode

end Inbox

end ProjectMesh.Routing
