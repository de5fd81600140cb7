import ProjectMesh.Crypto.Channel
import ProjectMesh.Routing.DtnDelivery
import ProjectMesh.Routing.Inbox

namespace ProjectMesh.Routing

open ProjectMesh.Lib

variable {P : Primitives} {n : Nat}

def Envelope.content (e : Envelope P) : Addressing × Priority × UInt64 × List UInt8 :=
  (e.addressing, e.priority, e.expiresAt, e.sealed)

namespace Simulation

variable {sim sim' sim₀ : Simulation P n} {built : Set (Envelope P)} {tick now : UInt64}
  {order : Nat → Shuffle} {orders : Nat → Nat → Shuffle} {a b i : Fin n} {x : Envelope P}
  {disk : EncryptedStore} {e : RelayEngine P}

def Authored (built : Set (Envelope P)) (sim : Simulation P n) : Prop :=
  ∀ i id x, (sim.engine i).held.get id = some x → ∃ y ∈ built, y.id = id ∧ y.content = x.content

def composed (compositions : List (Fin n × Envelope P × UInt64)) : Set (Envelope P) :=
  {x | ∃ c ∈ compositions, c.2.1 = x}

theorem held_openNode (hfresh : disk.db.table = ∅) (h : openNode P disk = some e) :
    e.held = .new P 1000 := by
  rw [openNode] at h
  split at h
  · next store hrun =>
    cases h
    exact memory_openStore hfresh hrun
  · cases h

theorem authored_new {size_le : n ≤ UInt64.size} {faults : Fin n → List (Option Stage)}
    {nonces : Fin n → List (Bytes 12)} (h : new P size_le faults nonces = some sim) :
    sim.Authored built := by
  intro i id x hx
  rw [new] at h
  split at h
  · next hopens =>
    cases h
    have hfresh : (freshDisk i (faults i) (nonces i)).db.table = ∅ := rfl
    have hheld := held_openNode hfresh (Option.some_get (hopens.2 i)).symm
    dsimp only at hx
    rw [hheld] at hx
    cases hx
  · cases h

theorem authored_composeAt (h : sim.Authored built) (hx : x ∈ built)
    (hrun : sim.composeAt i x now = some sim') : sim'.Authored built := by
  have houtcome := RelayEngine.composeLocal_outcome (sim.engine i) x now
  rw [composeAt] at hrun
  generalize (RelayEngine.composeLocal x now).run (sim.engine i) = result at hrun houtcome
  cases houtcome with
  | unsolvable | diskFault => cases hrun
  | offered =>
    cases hrun
    intro j id y hy
    by_cases hj : j = i
    · subst hj
      simp only [setEngine, Function.update_self] at hy
      rcases RelayEngine.held_offer_cases hy with hy | ⟨rfl, -⟩
      · exact h j id y hy
      · exact ⟨y, hx, Store.id_of_get hy, rfl⟩
    · simp only [setEngine, Function.update_of_ne hj] at hy
      exact h j id y hy

theorem authored_composeAll {compositions : List (Fin n × Envelope P × UInt64)}
    (h : sim.Authored built) (hbuilt : ∀ c ∈ compositions, c.2.1 ∈ built)
    (hrun : sim.composeAll compositions = some sim') : sim'.Authored built := by
  induction compositions generalizing sim with
  | nil =>
    cases hrun
    exact h
  | cons composition compositions ih =>
    simp only [composeAll, Option.bind_eq_bind, Option.bind_eq_some_iff] at hrun
    obtain ⟨next, hcompose, hrest⟩ := hrun
    obtain ⟨hfirst, hothers⟩ := List.forall_mem_cons.mp hbuilt
    exact ih (authored_composeAt h hfirst hcompose) hothers hrest

section Contact

variable (hidle : ∀ i, Idle (sim.engine i)) (hne : a ≠ b)
  (hab : Smooth tick (sim.engine a) (sim.engine b))
  (hba : Smooth tick (sim.engine b) (sim.engine a)) (hsmall : P.SmallFilters)

include hidle hne hab hba hsmall

theorem authored_contact (h : sim.Authored built)
    (hrun : sim.contact order tick a b = some sim') : sim'.Authored built := by
  obtain ⟨w, hconnects, heq⟩ := contact_eq order tick sim hne
  rw [heq] at hrun
  obtain ⟨engine, hconverge, rfl⟩ := Option.map_eq_some_iff.mp hrun
  have hmeeting := meeting hidle hne hab hba hconnects
  have hfits := fits_meeting hidle hne hab hba hsmall
  obtain ⟨half, sent, hunderway⟩ :=
    underway_of_converge hmeeting.gives hfits hmeeting.underway hconverge
  have hmerged : ∀ {own other : Fin n} {s : Store P},
      Merged tick (sim.engine own).held (sim.engine other).held s →
      ∀ id x, s.get id = some x → ∃ y ∈ built, y.id = id ∧ y.content = x.content := by
    intro own other s hs id x hx
    rcases (hs id x).mp hx with hx | ⟨-, source, hsource, -, -, rfl⟩
    · exact h own id x hx
    · exact h other id source hsource
  intro i id x hx
  by_cases hb : i = b
  · subst hb
    rw [engine_parted_right] at hx
    exact hmerged (hunderway.merged rfl true) id x hx
  · by_cases ha : i = a
    · subst ha
      rw [engine_parted_left hb] at hx
      exact hmerged (hunderway.merged rfl false) id x hx
    · have hother : engine i = sim.engine i := hunderway.others i fun side => by
        cases side
        · exact ha
        · exact hb
      rw [engine_parted_of_ne ha hb, hother] at hx
      exact h i id x hx

end Contact

theorem authored_runSchedule (hsmall : P.SmallFilters) (hidle : ∀ i, Idle (sim.engine i))
    {events : List (UInt64 × Fin n × Fin n)} (hsmooth : sim.SmoothRun orders events)
    (h : sim.Authored built) (hrun : sim.runSchedule orders events = some sim') :
    sim'.Authored built := by
  induction events generalizing sim orders with
  | nil =>
    cases hrun
    exact h
  | cons event events ih =>
    obtain ⟨tick, a, b⟩ := event
    obtain ⟨hne, hab, hba, hrest⟩ := hsmooth
    simp only [runSchedule, Option.bind_eq_bind, Option.bind_eq_some_iff] at hrun
    obtain ⟨next, hcontact, hrun⟩ := hrun
    exact ih (contact_some hidle hne hab hba hsmall hcontact).1 (hrest next hcontact)
      (authored_contact hidle hne hab hba hsmall h hcontact) hrun

end Simulation

end ProjectMesh.Routing

namespace ProjectMesh.Crypto

open ProjectMesh.Lib
open ProjectMesh.Routing
open ProjectMesh.Routing.Simulation
open ProjectMesh.Crypto.FfiPrekey

/-- Argon2id with its default parameters, and HKDF-SHA-256 without a salt expanded to 32 bytes. -/
structure PassphraseSuite where
  argon2id : List UInt8 → Bytes 16 → Option (Bytes 32)
  hkdfSha256 : Bytes 32 → String → Bytes 32

namespace Passphrase

def deriveKey (K : PassphraseSuite) (passphrase : List UInt8) (salt : Bytes 16) :
    Except MeshError (Bytes 32) :=
  match K.argon2id passphrase salt with
  | some key => .ok key
  | none => .error (.crypto "Argon2id key derivation failed")

end Passphrase

def asBytes (s : String) : List UInt8 := s.toUTF8.toList

namespace Channel

def deterministicSalt (P : Primitives) (passphraseBytes : List UInt8) : Bytes 16 :=
  ⟨(P.blake3 (asBytes "MESH_CHANNEL_SALT" ++ passphraseBytes)).1.take 16, by
    rw [List.length_take, (P.blake3 _).2]
    rfl⟩

def fromPassphrase (K : PassphraseSuite) (P : Primitives) (passphraseBytes : List UInt8) :
    Except MeshError Channel := do
  let salt := deterministicSalt P passphraseBytes
  let argon2Output ← Passphrase.deriveKey K passphraseBytes salt
  return {
    key := K.hkdfSha256 argon2Output "MESH_CHANNEL_KEY"
    selector := K.hkdfSha256 argon2Output "MESH_CHANNEL_SELECTOR" }

end Channel

deriving instance DecidableEq for Channel

/-- An `FfiChannel` is its channel. -/
abbrev FfiChannel := Channel

namespace FfiChannel

def fromPassphrase (K : PassphraseSuite) (P : Primitives) (passphrase : String) :
    Except FfiError FfiChannel := ffi (Channel.fromPassphrase K P (asBytes passphrase))

def selectorHex (self : FfiChannel) : List Char := bytesToHex self.selector.1

end FfiChannel

def FfiChannel.seal (P : Primitives) (nonce : Bytes 12) (self : FfiChannel)
    (plaintext : List UInt8) : Except FfiError (List UInt8) :=
  ffi (Channel.seal P nonce self plaintext)

def FfiChannel.open (P : Primitives) (self : FfiChannel) (sealed : List UInt8) :
    Except FfiError (List UInt8) := ffi (Channel.open P self sealed)

section Post

variable {P : Primitives} {K : PassphraseSuite} {n : Nat} {sim₀ sim sim' : Simulation P n}

theorem ffi_eq_ok {α : Type} {r : Except MeshError α} {a : α} : ffi r = .ok a ↔ r = .ok a := by
  cases r with
  | error e => exact iff_of_false nofun nofun
  | ok b => exact ⟨fun h => by cases h; rfl, fun h => by cases h; rfl⟩

def nodeOf (transport : FfiMeshTransport) (sim : Simulation P n) (i : Fin n) : FfiMeshNode P where
  transport := transport
  engine := sim.engine i

theorem length_seal_lt (htags : P.Tags) {channel : Channel} {nonce : Bytes 12}
    {plaintext sealed : List UInt8} (h : channel.seal P nonce plaintext = .ok sealed) :
    sealed.length < 2 ^ 32 := by
  obtain ⟨padded, hpad, hlen⟩ := Channel.length_seal htags h
  have hbucket := Padding.bucket_le (Padding.length_padToBucket hpad).mem
  omega

theorem content_of_authored {built : Set (Envelope P)}
    (hinj : Set.InjOn P.blake3 (Envelope.preimage '' built)) (h : sim.Authored built)
    (h' : sim'.Authored built) {i j : Fin n} {id : EnvelopeId} {x z : Envelope P}
    (hx : (sim.engine i).held.get id = some x) (hz : (sim'.engine j).held.get id = some z) :
    z.content = x.content := by
  obtain ⟨y, hy, hyid, hyx⟩ := h i id x hx
  obtain ⟨y', hy', hyid', hyz⟩ := h' j id z hz
  obtain ⟨haddressing, hpriority, hexpiry, hsealed⟩ :=
    (Envelope.id_eq_iff hinj hy' hy).mp (hyid'.trans hyid.symm)
  rw [← hyz, ← hyx, Envelope.content, Envelope.content, haddressing, hpriority, hexpiry, hsealed]

theorem arrives_content (hsmall : P.SmallFilters) {size_le : n ≤ UInt64.size}
    {faults : Fin n → List (Option Stage)} {nonces : Fin n → List (Bytes 12)}
    {compositions : List (Fin n × Envelope P × UInt64)} {orders : Nat → Nat → Shuffle}
    {events : List (UInt64 × Fin n × Fin n)} {origin node : Fin n} {x : Envelope P} {length : Nat}
    (hnew : Simulation.new P size_le faults nonces = some sim₀)
    (hcompose : sim₀.composeAll compositions = some sim)
    (hinj : Set.InjOn P.blake3 (Envelope.preimage '' composed compositions))
    (hsmooth : sim.SmoothRun orders events) (hrun : sim.runSchedule orders events = some sim')
    (hx : (sim.engine origin).held.get x.id = some x)
    (harrives : Flood.Arrives (sim.copies x.id) origin x.ttlHops.toNat (events.map (·.2)) length
      node) (hle : length ≤ x.ttlHops.toNat - 1) :
    ∃ z, (sim'.engine node).held.get x.id = some z ∧ z.content = x.content := by
  have hidle := idle_composeAll (idle_new hnew) hcompose
  have hcopy : sim.copies x.id origin = some x.ttlHops.toNat := by
    rw [copies, hx, Option.map_some]
  have hpositive := positive_copies hidle x.id
  have hhops := hpositive origin _ hcopy
  have hreached := harrives.copy hpositive hcopy (by omega)
  rw [← copies_runSchedule hsmall hidle hsmooth hrun, copies, Option.isSome_map] at hreached
  obtain ⟨z, hz⟩ := Option.isSome_iff_exists.mp hreached
  have hauthored : sim.Authored (composed compositions) :=
    authored_composeAll (authored_new hnew) (fun c hc => ⟨c, hc, rfl⟩) hcompose
  exact ⟨z, hz, content_of_authored hinj hauthored
    (authored_runSchedule hsmall hidle hsmooth hauthored hrun) hx hz⟩

/-- A message that is posted to a channel at one node is in the inbox of every node that a
journey of it reaches, under its id and addressed to the channel, and everyone with the
passphrase reads it there. -/
theorem post_reaches_readers (hopens : P.Opens) (htags : P.Tags) (hsmall : P.SmallFilters)
    {passphrase : String} {writer : FfiChannel} {nonce : Bytes 12}
    {plaintext sealed bytes : List UInt8} {priorityTag ttlHops : UInt8} {expiresAt : UInt64}
    (hwriter : FfiChannel.fromPassphrase K P passphrase = .ok writer)
    (hseal : writer.seal P nonce plaintext = .ok sealed)
    (hpack : envelopePack P 1 (some writer.selector.1) priorityTag ttlHops expiresAt sealed =
      .ok bytes) {size_le : n ≤ UInt64.size} {faults : Fin n → List (Option Stage)}
    {nonces : Fin n → List (Bytes 12)} {compositions : List (Fin n × Envelope P × UInt64)}
    {orders : Nat → Nat → Shuffle} {events : List (UInt64 × Fin n × Fin n)} {origin node : Fin n}
    {idHex : List Char} {id : EnvelopeId} {length : Nat} (transport : FfiMeshTransport)
    (hnew : Simulation.new P size_le faults nonces = some sim₀)
    (hcompose : sim₀.composeAll compositions = some sim)
    (hinj : Set.InjOn P.blake3 (Envelope.preimage '' composed compositions))
    (hsmooth : sim.SmoothRun orders events) (hrun : sim.runSchedule orders events = some sim')
    (hid : hexToId idHex = .ok id)
    (hposted : (nodeOf transport sim origin).getEnvelopeHex idHex = .ok bytes)
    (harrives : Flood.Arrives (sim.copies id) origin ttlHops.toNat (events.map (·.2)) length node)
    (hle : length ≤ ttlHops.toNat - 1) :
    ∃ bytes' parsed, (nodeOf transport sim' node).getEnvelopeHex idHex = .ok bytes' ∧
      envelopeUnpack P bytes' = .ok parsed ∧
      parsed.idHex ∈ (nodeOf transport sim' node).allIdsHex ∧ hexToId parsed.idHex = .ok id ∧
      parsed.addressingTag = 1 ∧ parsed.priorityTag = priorityTag ∧
      parsed.expiresAt = expiresAt ∧
      ∀ reader, FfiChannel.fromPassphrase K P passphrase = .ok reader →
        parsed.addressingTarget.map bytesToHex = some reader.selectorHex ∧
        reader.open P parsed.sealed = .ok plaintext := by
  have hseal := ffi_eq_ok.mp hseal
  have hlen := length_seal_lt htags hseal
  obtain ⟨x, hx, rfl, hxid⟩ := FfiMeshNode.getEnvelopeHex_ok hposted
  cases hid.symm.trans hxid
  obtain ⟨addressing, priority, haddressing, hpriority, hbytes⟩ := envelopePack_ok hpack
  have hparse : Envelope.fromBytes P x.toBytes =
      .ok (.new P addressing priority ttlHops expiresAt sealed) := by
    rw [hbytes, Envelope.fromBytes_toBytes]
    exact if_pos hlen
  have hxeq := eq_of_fromBytes_toBytes hparse
  obtain ⟨haddressing', hpriority', hexpiry', hsealed', httl'⟩ : x.addressing = addressing ∧
      x.priority = priority ∧ x.expiresAt = expiresAt ∧ x.sealed = sealed ∧
      x.ttlHops = ttlHops := by
    rw [← hxeq]
    exact ⟨rfl, rfl, rfl, rfl, rfl⟩
  rw [← httl'] at harrives hle
  obtain ⟨z, hz, hcontent⟩ := arrives_content hsmall hnew hcompose hinj hsmooth hrun hx harrives hle
  simp only [Envelope.content, Prod.mk.injEq] at hcontent
  obtain ⟨hzaddressing, hzpriority, hzexpiry, hzsealed⟩ := hcontent
  have hzid := Store.id_of_get hz
  have hzlen : z.sealed.length < 2 ^ 32 := by
    rw [hzsealed, hsealed']
    exact hlen
  have hfields := encodeAddressing_of_decode haddressing
  refine ⟨z.toBytes, .ofEnvelope z, FfiMeshNode.getEnvelopeHex_of_hexToId hid hz,
    by rw [envelopeUnpack_toBytes, if_pos hzlen],
    FfiMeshNode.mem_allIdsHex_iff.mpr ⟨z, hzid ▸ hz, rfl⟩, hzid ▸ hexToId_toHex z.id, ?_, ?_, ?_,
    fun reader hreader => ?_⟩
  · rw [FfiParsedEnvelope.ofEnvelope, hzaddressing, haddressing', hfields]
  · rw [FfiParsedEnvelope.ofEnvelope, hzpriority, hpriority', tag_of_decodePriority hpriority]
  · rw [FfiParsedEnvelope.ofEnvelope, hzexpiry, hexpiry']
  · cases hwriter.symm.trans hreader
    rw [FfiParsedEnvelope.ofEnvelope, hzaddressing, haddressing', hfields, hzsealed, hsealed']
    exact ⟨rfl, ffi_eq_ok.mpr (Channel.open_of_seal hopens hseal)⟩

end Post

section Toy

def toyPassphrases : PassphraseSuite where
  argon2id _ salt := some ⟨salt.1 ++ salt.1, by rw [List.length_append, salt.2]⟩
  hkdfSha256 ikm info := ⟨ikm.1.map (· + UInt8.ofNat info.length), by rw [List.length_map, ikm.2]⟩

def toyChannel : FfiChannel where
  key := ⟨List.replicate 32 16, List.length_replicate⟩
  selector := ⟨List.replicate 32 21, List.length_replicate⟩

theorem fromPassphrase_toyChannel :
    FfiChannel.fromPassphrase toyPassphrases toyPrimitives "north-gate-42" = .ok toyChannel := by
  decide +kernel

def toySealed : List UInt8 :=
  List.replicate 12 0 ++ ([2, 0, 0, 0, 104, 105] ++ List.replicate 58 0) ++ List.replicate 16 0

theorem seal_toyChannel : toyChannel.seal toyPrimitives ⟨List.replicate 12 0, rfl⟩ [104, 105] =
    .ok toySealed := by
  decide +kernel

def toyPost : Envelope toyPrimitives :=
  .new toyPrimitives (.channel toyChannel.selector) .bulletin 8 1000 toySealed

def toyFresh : Simulation toyPrimitives 3 :=
  (new toyPrimitives (by decide) (fun _ => []) (fun _ => [])).get (by decide +kernel)

def toyPosted : Simulation toyPrimitives 3 :=
  (toyFresh.composeAll [(0, toyPost, 0)]).get (by decide +kernel)

def toyContacts : List (UInt64 × Fin 3 × Fin 3) := [(1, 0, 1), (2, 1, 2)]

def toyCarried : Simulation toyPrimitives 3 :=
  (toyPosted.runSchedule inOrder toyContacts).get (by decide +kernel)

theorem smoothRun_toyPosted : toyPosted.SmoothRun inOrder toyContacts := by decide +kernel

theorem post_reaches_readers_toyPost : ∃ bytes parsed,
    (nodeOf FfiMeshNode.toyNode.transport toyCarried 2).getEnvelopeHex toyPost.id.toHex =
        .ok bytes ∧
      envelopeUnpack toyPrimitives bytes = .ok parsed ∧
      toyChannel.open toyPrimitives parsed.sealed = .ok [104, 105] := by
  have hinj : Set.InjOn toyPrimitives.blake3
      (Envelope.preimage '' composed [((0 : Fin 3), toyPost, 0)]) := by
    rintro _ ⟨x, ⟨c, hc, rfl⟩, rfl⟩ _ ⟨y, ⟨c', hc', rfl⟩, rfl⟩ -
    rw [List.mem_singleton.mp hc, List.mem_singleton.mp hc']
  have hpack : envelopePack toyPrimitives 1 (some toyChannel.selector.1) 1 8 1000 toySealed =
      .ok toyPost.toBytes := rfl
  have hheld : (toyPosted.engine 0).held.get toyPost.id = some toyPost := by decide +kernel
  have hcopies : toyPosted.copies toyPost.id 1 = none := by decide +kernel
  have hunshadowed : Flood.Unshadowed (toyPosted.copies toyPost.id) [] 7 1 := by
    intro other budget length hother hjourney
    rw [← hjourney.eq_of_nil, hcopies] at hother
    cases hother
  have hclear : Flood.Clear (toyPosted.copies toyPost.id) 0 8 ([] ++ [(0, 1)]) 1 1 :=
    .hop .start (.inl rfl) hunshadowed
  have harrives : Flood.Arrives (toyPosted.copies toyPost.id) 0 8 (([] ++ [(0, 1)]) ++ [(1, 2)])
      2 2 := .hop hclear (.inl rfl)
  obtain ⟨bytes, parsed, hfetched, hparsed, -, -, -, -, -, hreads⟩ :=
    post_reaches_readers (n := 3) opens_toyPrimitives DurableStore.tags_toyPrimitives
      smallFilters_toyPrimitives fromPassphrase_toyChannel seal_toyChannel hpack _ (Option.some_get _).symm
      (Option.some_get _).symm hinj smoothRun_toyPosted (Option.some_get _).symm
      (hexToId_toHex toyPost.id) (FfiMeshNode.getEnvelopeHex_of_get hheld) harrives (by decide)
  exact ⟨bytes, parsed, hfetched, hparsed, (hreads toyChannel fromPassphrase_toyChannel).2⟩

end Toy

end ProjectMesh.Crypto
