import ProjectMesh.Routing.ContactQueue
import ProjectMesh.Routing.StoreOrder

namespace ProjectMesh.Routing

open ProjectMesh.Lib

variable {P : Primitives} {n : Nat}

namespace Simulation

section Window

open RelayEngine

variable {sim sim' : Simulation P n} {order : Nat → Shuffle} {now : UInt64} {a b : Fin n}

def connected (sim : Simulation P n) (a b : Fin n) : Fin n → RelayEngine P :=
  Function.update (Function.update sim.engine a ((sim.engine a).onPeerConnected (nodeId b)).2) b
    ((sim.engine b).onPeerConnected (nodeId a)).2

def given (sim : Simulation P n) (a b : Fin n) : List (Envelope P) :=
  (sim.engine a).held.gives (sim.engine b).held.summaryBloom

def framesGiven (order : Nat → Shuffle) (a b : Fin n) (sim : Simulation P n) :
    List (List UInt8) :=
  sentFrames (order 999) (nodeId b) (sim.given a b)

def fed (order : Nat → Shuffle) (now : UInt64) (a b : Fin n) (sim : Simulation P n) : Store P :=
  (sim.engine b).held.takeFrames now (sim.framesGiven order a b).reverse .default

def returned (order : Nat → Shuffle) (now : UInt64) (a b : Fin n) (sim : Simulation P n) :
    List (Envelope P) :=
  (((sim.engine b).held.missingFromBloom (sim.engine a).held.summaryBloom).filter fun x =>
    (sim.fed order now a b).contains x.id).filterMap decrementTtl

/-- What two nodes have for each other fits frames, and the frames and the two summaries fit the
guard. -/
structure WithinGuard (order : Nat → Shuffle) (now : UInt64) (a b : Fin n)
    (sim : Simulation P n) : Prop where
  given : ∀ x ∈ sim.given a b, x.Sendable
  returned : ∀ x ∈ sim.returned order now a b, x.Sendable
  few : 2 + (sim.given a b).length + (sim.returned order now a b).length ≤ maxContactIterations

theorem contact_eq_converge (order : Nat → Shuffle) (now : UInt64) (sim : Simulation P n)
    (hab : a ≠ b) :
    sim.contact order now a b =
      (converge order now maxContactIterations (sim.connected a b)
        (addressed b (nodeId a) [(sim.engine a).summary] ++
          addressed a (nodeId b) [(sim.engine b).summary])).map (sim.parted a b) := by
  rw [contact, if_neg hab]
  simp only [RelayEngine.onPeerConnected, setEngine, Function.update_of_ne hab.symm]
  exact bind_pure_comp (sim.parted a b) _

def framesReturned (order : Nat → Shuffle) (now : UInt64) (a b : Fin n) (sim : Simulation P n) :
    List (List UInt8) :=
  sentFrames (order (998 - (sim.given a b).length)) (nodeId a)
    ((sim.fed order now a b).gives (sim.engine a).held.summaryBloom)

def met (order : Nat → Shuffle) (now : UInt64) (a b : Fin n) (sim : Simulation P n) :
    Fin n → RelayEngine P :=
  Function.update
    (Function.update (sim.connected a b) b
      ((sim.connected a b b).takeIn (nodeId a) now (sim.framesGiven order a b).reverse)) a
    ((sim.connected a b a).takeIn (nodeId b) now (sim.framesReturned order now a b).reverse)

theorem connected_left (hab : a ≠ b) :
    sim.connected a b a = ((sim.engine a).onPeerConnected (nodeId b)).2 := by
  rw [connected, Function.update_of_ne hab, Function.update_self]

@[simp] theorem rate_connected {e : RelayEngine P} {peer : UInt64} :
    ((e.onPeerConnected peer).2.peerState peer).rate = .default := by
  simp [RelayEngine.onPeerConnected, PeerState.new]

theorem connected_right :
    sim.connected a b b = ((sim.engine b).onPeerConnected (nodeId a)).2 := by
  rw [connected, Function.update_self]

theorem readable_framesGiven :
    Readable P (sim.framesGiven order a b) ↔ ∀ x ∈ sim.given a b, x.Sendable :=
  readable_sentFrames

theorem length_framesGiven : (sim.framesGiven order a b).length = (sim.given a b).length :=
  length_sentFrames

theorem contains_of_mem_framesGiven (hgiven : ∀ x ∈ sim.given a b, x.Sendable) {y : Envelope P}
    (h : (dataFrame 0 y : List UInt8) ∈ sim.framesGiven order a b) :
    (sim.engine a).held.summaryBloom.contains P y.id = true := by
  obtain ⟨x, hx, heq⟩ := exists_of_mem_sentFrames h
  obtain ⟨-, rfl⟩ := sendable_of_mem (hgiven x hx) heq
  obtain ⟨source, hsource, hdec⟩ := List.mem_filterMap.mp hx
  rw [id_decrementTtl hdec]
  exact Store.contains_summaryBloom
    (Store.contains_iff.mpr ⟨source, (Store.mem_missingFromBloom_iff.mp hsource).1⟩)

theorem gives_fed_perm (hgiven : ∀ x ∈ sim.given a b, x.Sendable) :
    ((sim.fed order now a b).gives (sim.engine a).held.summaryBloom).Perm
      (sim.returned order now a b) := by
  have hreadable : Readable P (sim.framesGiven order a b).reverse := fun frame hframe =>
    readable_framesGiven.mpr hgiven frame (List.mem_reverse.mp hframe)
  have hnodup : ∀ s : Store P,
      (s.missingFromBloom (sim.engine a).held.summaryBloom).Nodup := fun s =>
    (List.Nodup.of_map Envelope.id Store.nodup_envelopes).filter _
  refine ((List.perm_ext_iff_of_nodup (hnodup _) ((hnodup _).filter _)).mpr fun y => ?_).filterMap _
  rw [List.mem_filter, Store.mem_missingFromBloom_iff, Store.mem_missingFromBloom_iff]
  have hbefore : ∀ z, (sim.fed order now a b).get y.id = some z →
      (sim.engine a).held.summaryBloom.contains P y.id = false →
      (sim.engine b).held.get y.id = some z := by
    intro z hz hfilter
    rcases Store.get_takeFrames hreadable hz with hget | hframe
    · exact hget
    · have hcontains := contains_of_mem_framesGiven hgiven (List.mem_reverse.mp hframe)
      rw [Store.id_of_get hz, hfilter] at hcontains
      cases hcontains
  constructor
  · rintro ⟨hget, hfilter⟩
    exact ⟨⟨hbefore y hget hfilter, hfilter⟩, Store.contains_iff.mpr ⟨y, hget⟩⟩
  · rintro ⟨⟨hget, hfilter⟩, hcontains⟩
    obtain ⟨z, hz⟩ := Store.contains_iff.mp hcontains
    have hsame := hbefore z hz hfilter
    rw [hget] at hsame
    cases hsame
    exact ⟨hz, hfilter⟩

theorem readable_framesReturned (hgiven : ∀ x ∈ sim.given a b, x.Sendable) :
    Readable P (sim.framesReturned order now a b) ↔
      ∀ x ∈ sim.returned order now a b, x.Sendable :=
  readable_sentFrames.trans
    (forall_congr' fun _ => imp_congr (gives_fed_perm hgiven).mem_iff Iff.rfl)

theorem length_framesReturned (hgiven : ∀ x ∈ sim.given a b, x.Sendable) :
    (sim.framesReturned order now a b).length = (sim.returned order now a b).length :=
  length_sentFrames.trans (gives_fed_perm hgiven).length_eq

theorem engaged_left (hready : ∀ i, Ready (sim.engine i)) (hab : a ≠ b) :
    Engaged (nodeId b) (sim.connected a b a) := by
  rw [connected_left hab]
  exact (hready a).connected _

theorem engaged_right (hready : ∀ i, Ready (sim.engine i)) :
    Engaged (nodeId a) (sim.connected a b b) := by
  rw [connected_right]
  exact (hready b).connected _

theorem converge_fed_iff (hencrypts : P.Encrypts) (ha : Engaged (nodeId b) (sim.connected a b a))
    (hb : Engaged (nodeId a) (sim.connected a b b))
    (hfilter : (sim.engine a).held.summaryBloom.numBits < 2 ^ 32) (hab : a ≠ b) {k : Nat}
    (hk : k = 998 - (sim.given a b).length) (hgiven : ∀ x ∈ sim.given a b, x.Sendable)
    {engine : Fin n → RelayEngine P} :
    converge order now (k + 1) (Function.update (sim.connected a b) b
        ((sim.connected a b b).takeIn (nodeId a) now (sim.framesGiven order a b).reverse))
        (addressed b (nodeId a) [(sim.engine a).summary]) = some engine ↔
      (∀ x ∈ sim.returned order now a b, x.Sendable) ∧
        (sim.returned order now a b).length ≤ k ∧ sim.met order now a b = engine := by
  have hreadable : Readable P (sim.framesGiven order a b).reverse := fun frame hframe =>
    readable_framesGiven.mpr hgiven frame (List.mem_reverse.mp hframe)
  have hheld : ((sim.connected a b b).takeIn (nodeId a) now
      (sim.framesGiven order a b).reverse).held = sim.fed order now a b := by
    rw [hb.held_takeIn hencrypts hreadable, connected_right, rate_connected]
    rfl
  have hengaged := hb.takeIn hencrypts hreadable now
  obtain ⟨fedEngine, hfed⟩ : ∃ e, (sim.connected a b b).takeIn (nodeId a) now
      (sim.framesGiven order a b).reverse = e := ⟨_, rfl⟩
  rw [hfed] at hheld hengaged ⊢
  have hleft : Function.update (sim.connected a b) b fedEngine a = sim.connected a b a :=
    Function.update_of_ne hab _ _
  have hright : Function.update (sim.connected a b) b fedEngine b = fedEngine :=
    Function.update_self ..
  have hframes : sentFrames (order k) (nodeId a)
      ((Function.update (sim.connected a b) b fedEngine b).held.gives
        (sim.engine a).held.summaryBloom) = sim.framesReturned order now a b := by
    rw [hright, hheld, hk]
    rfl
  rw [RelayEngine.summary, ← List.nil_append (addressed _ _ _),
    converge_exchange_iff sim.size_le hencrypts (hright.symm.subst hengaged)
      (hleft.symm.subst ha) hfilter hframes, hleft, readable_framesReturned hgiven,
    length_framesReturned hgiven]
  simp only [converge_nil, Option.some_inj, met, hfed]
  refine and_congr_right fun _ => ⟨?_, ?_⟩
  · rintro ⟨k', rfl, hmet⟩
    exact ⟨Nat.le_add_left _ _, hmet⟩
  · rintro ⟨hle, hmet⟩
    exact ⟨_, (Nat.sub_add_cancel hle).symm, hmet⟩

theorem converge_connected_iff (hsmall : P.SmallFilters) (hencrypts : P.Encrypts)
    (hready : ∀ i, Ready (sim.engine i)) (hab : a ≠ b) {engine : Fin n → RelayEngine P} :
    converge order now maxContactIterations (sim.connected a b)
        (addressed b (nodeId a) [(sim.engine a).summary] ++
          addressed a (nodeId b) [(sim.engine b).summary]) = some engine ↔
      sim.WithinGuard order now a b ∧ sim.met order now a b = engine := by
  have hfilter : ∀ i, (sim.engine i).held.summaryBloom.numBits < 2 ^ 32 := fun i =>
    Store.numBits_summaryBloom hsmall ((hready i).bounded.trans_eq (hready i).capacity)
  have ha := engaged_left hready hab
  have hb : Engaged (nodeId a) (sim.connected a b b) := engaged_right hready
  have hgiven : sentFrames (order 999) (nodeId b)
      ((sim.connected a b a).held.gives (sim.engine b).held.summaryBloom) =
        sim.framesGiven order a b := by
    rw [connected_left hab]
    rfl
  rw [maxContactIterations, RelayEngine.summary, RelayEngine.summary,
    converge_exchange_iff sim.size_le hencrypts ha hb (hfilter b) hgiven, readable_framesGiven,
    length_framesGiven]
  have hback : ∀ k, k = 998 - (sim.given a b).length → (∀ x ∈ sim.given a b, x.Sendable) →
      (converge order now (k + 1) (Function.update (sim.connected a b) b
          ((sim.connected a b b).takeIn (nodeId a) now (sim.framesGiven order a b).reverse))
          (addressed b (nodeId a) [(sim.engine a).summary]) = some engine ↔
        (∀ x ∈ sim.returned order now a b, x.Sendable) ∧
          (sim.returned order now a b).length ≤ k ∧ sim.met order now a b = engine) :=
    fun k hk hsendable => converge_fed_iff hencrypts ha hb (hfilter a) hab hk hsendable
  constructor
  · rintro ⟨hsendable, k, hk, hconverge⟩
    cases k with
    | zero =>
      rw [addressed, List.map_singleton, ← List.nil_append [_], converge_zero] at hconverge
      cases hconverge
    | succ k =>
      obtain ⟨hreturned, hlen, hmet⟩ := (hback k (by omega) hsendable).mp hconverge
      refine ⟨⟨hsendable, hreturned, ?_⟩, hmet⟩
      rw [maxContactIterations]
      omega
  · rintro ⟨⟨hsendable, hreturned, hfew⟩, hmet⟩
    rw [maxContactIterations] at hfew
    refine ⟨hsendable, 998 - (sim.given a b).length + 1, by omega, ?_⟩
    exact (hback _ rfl hsendable).mpr ⟨hreturned, by omega, hmet⟩

theorem contact_eq_some_iff (hsmall : P.SmallFilters) (hencrypts : P.Encrypts)
    (hready : ∀ i, Ready (sim.engine i)) (hab : a ≠ b) :
    sim.contact order now a b = some sim' ↔
      sim.WithinGuard order now a b ∧ sim.parted a b (sim.met order now a b) = sim' := by
  rw [contact_eq_converge order now sim hab, Option.map_eq_some_iff]
  constructor
  · rintro ⟨engine, hconverge, hparted⟩
    obtain ⟨hguard, rfl⟩ := (converge_connected_iff hsmall hencrypts hready hab).mp hconverge
    exact ⟨hguard, hparted⟩
  · rintro ⟨hguard, hparted⟩
    exact ⟨_, (converge_connected_iff hsmall hencrypts hready hab).mpr ⟨hguard, rfl⟩, hparted⟩

theorem contact_isSome_iff (hsmall : P.SmallFilters) (hencrypts : P.Encrypts)
    (hready : ∀ i, Ready (sim.engine i)) (hab : a ≠ b) :
    (sim.contact order now a b).isSome ↔ sim.WithinGuard order now a b := by
  rw [Option.isSome_iff_exists]
  constructor
  · rintro ⟨sim', hrun⟩
    exact ((contact_eq_some_iff hsmall hencrypts hready hab).mp hrun).1
  · intro hguard
    exact ⟨_, (contact_eq_some_iff hsmall hencrypts hready hab).mpr ⟨hguard, rfl⟩⟩

theorem ready_contact (hsmall : P.SmallFilters) (hencrypts : P.Encrypts)
    (hready : ∀ i, Ready (sim.engine i)) (h : sim.contact order now a b = some sim')
    (i : Fin n) : Ready (sim'.engine i) := by
  have hab : a ≠ b := by
    rintro rfl
    rw [contact, if_pos rfl] at h
    cases h
  obtain ⟨hguard, rfl⟩ := (contact_eq_some_iff hsmall hencrypts hready hab).mp h
  have hgiven : Readable P (sim.framesGiven order a b).reverse := fun frame hframe =>
    readable_framesGiven.mpr hguard.given frame (List.mem_reverse.mp hframe)
  have hreturned : Readable P (sim.framesReturned order now a b).reverse := fun frame hframe =>
    (readable_framesReturned hguard.given).mpr hguard.returned frame (List.mem_reverse.mp hframe)
  by_cases ha : i = a
  · subst ha
    rw [engine_parted_left hab, met, Function.update_self]
    exact ((engaged_left hready hab).takeIn hencrypts hreturned now).lost
  · by_cases hb : i = b
    · subst hb
      rw [engine_parted_right, met, Function.update_of_ne ha, Function.update_self]
      exact ((engaged_right hready).takeIn hencrypts hgiven now).lost
    · rw [engine_parted_of_ne ha hb, met, Function.update_of_ne ha, Function.update_of_ne hb,
        connected, Function.update_of_ne hb, Function.update_of_ne ha]
      exact hready i

end Window

section Room

variable {sim : Simulation P n} {order : Nat → Shuffle} {now : UInt64} {a b : Fin n}
  {s : Store P} {rate : RateLimiter} {id : EnvelopeId} {frames : List (List UInt8)}

theorem given_of_empty (hempty : (sim.engine b).held = .new P 1000) :
    sim.given a b = (sim.engine a).held.envelopes.filterMap decrementTtl := by
  have hmissing : (sim.engine a).held.missingFromBloom (Store.new P 1000).summaryBloom =
      (sim.engine a).held.envelopes := by
    rw [Store.missingFromBloom, List.filter_eq_self]
    intro x _
    rw [Bool.not_eq_true']
    exact BloomFilter.contains_new
  rw [given, Store.gives, hempty, hmissing]

end Room

section Start

variable {sim sim' : Simulation P n} {disk : EncryptedStore}

theorem openNode_fresh (P : Primitives) (hfresh : disk.db.table = ∅) (hsound : disk.Sound) :
    ∃ disk', openNode P disk = some (.new ⟨.new P 1000, disk'⟩) ∧ disk'.Sound := by
  have hids : EncryptedStore.idsOf (disk.holding disk.table).table = [] := by
    rw [EncryptedStore.table_holding, EncryptedStore.table, hfresh]
    rfl
  have hholding : (disk.holding disk.table).Sound := EncryptedStore.sound_holding
  have hallIds := hholding.allIds_run
  rw [hids] at hallIds
  refine ⟨(disk.holding disk.table).holding disk.table, ?_, EncryptedStore.sound_holding⟩
  rw [openNode, DurableStore.openStore, EStateM.run_bind, DurableStore.onDisk_run hsound.init_run]
  dsimp only
  rw [EStateM.run_bind, DurableStore.onDisk_run hallIds]
  rfl

theorem engine_new {size_le : n ≤ UInt64.size} {nonces : Fin n → List (Bytes 12)}
    (h : new P size_le (fun _ => []) nonces = some sim) (i : Fin n) :
    ∃ disk, sim.engine i = .new ⟨.new P 1000, disk⟩ ∧ disk.Sound := by
  have hfresh : (freshDisk i [] (nonces i)).db.table = ∅ := rfl
  obtain ⟨disk, hopen, hdisk⟩ := openNode_fresh P hfresh rfl
  rw [new] at h
  split at h
  · cases h
    exact ⟨disk, Option.get_of_eq_some (Option.isSome_of_eq_some hopen) hopen, hdisk⟩
  · cases h

theorem ready_new {size_le : n ≤ UInt64.size} {nonces : Fin n → List (Bytes 12)}
    (h : new P size_le (fun _ => []) nonces = some sim) (i : Fin n) : Ready (sim.engine i) := by
  obtain ⟨disk, hengine, hdisk⟩ := engine_new h i
  exact { idle_new h i with
    bounded := by
      rw [hengine]
      exact Nat.zero_le _
    sound := by
      rw [hengine]
      exact hdisk }

theorem ready_composeAt {i : Fin n} {x : Envelope P} {now : UInt64}
    (hready : ∀ j, Ready (sim.engine j)) (h : sim.composeAt i x now = some sim') (j : Fin n) :
    Ready (sim'.engine j) := by
  have hidle := idle_composeAt (fun j => (hready j).toIdle) h j
  have hsound := (sound_composeLocal x now).after (hready i).sound
  have houtcome := RelayEngine.composeLocal_outcome (sim.engine i) x now
  rw [composeAt] at h
  generalize (RelayEngine.composeLocal x now).run (sim.engine i) = result at h hsound houtcome
  cases houtcome with
  | unsolvable | diskFault => cases h
  | offered =>
    cases h
    by_cases hj : j = i
    · subst hj
      simp only [setEngine, Function.update_self] at hidle ⊢
      exact { hidle with bounded := (hready j).bounded.accept x now, sound := hsound }
    · simp only [setEngine, Function.update_of_ne hj]
      exact hready j

end Start

section Runs

inductive Reachable : Simulation P n → Prop
  | new {size_le : n ≤ UInt64.size} {nonces : Fin n → List (Bytes 12)} {sim : Simulation P n} :
    new P size_le (fun _ => []) nonces = some sim → Reachable sim
  | composeAt {sim sim' : Simulation P n} {i : Fin n} {envelope : Envelope P} {now : UInt64} :
    Reachable sim → sim.composeAt i envelope now = some sim' → Reachable sim'
  | contact {sim sim' : Simulation P n} {order : Nat → Shuffle} {now : UInt64} {a b : Fin n} :
    Reachable sim → sim.contact order now a b = some sim' → Reachable sim'

inductive SimCall (P : Primitives) (n : Nat) where
  | composeAt (i : Fin n) (envelope : Envelope P) (now : UInt64)
  | contact (order : Nat → Shuffle) (now : UInt64) (a b : Fin n) (ne : a ≠ b)

def ContactsConverge : Simulation P n → List (SimCall P n) → Prop
  | _, [] => True
  | sim, .composeAt i envelope now :: calls =>
    ∀ sim', sim.composeAt i envelope now = some sim' → sim'.ContactsConverge calls
  | sim, .contact order now a b _ :: calls =>
    ∃ sim', sim.contact order now a b = some sim' ∧ sim'.ContactsConverge calls

def WithinGuards : Simulation P n → List (SimCall P n) → Prop
  | _, [] => True
  | sim, .composeAt i envelope now :: calls =>
    ∀ sim', sim.composeAt i envelope now = some sim' → sim'.WithinGuards calls
  | sim, .contact order now a b _ :: calls =>
    sim.WithinGuard order now a b ∧
      ∀ sim', sim.contact order now a b = some sim' → sim'.WithinGuards calls

variable {sim : Simulation P n}

theorem Reachable.ready (hsmall : P.SmallFilters) (hencrypts : P.Encrypts) (h : sim.Reachable) :
    ∀ i, Ready (sim.engine i) := by
  induction h with
  | new h => exact ready_new h
  | composeAt _ h ih => exact ready_composeAt ih h
  | contact _ h ih => exact ready_contact hsmall hencrypts ih h

theorem contactsConverge_iff (hsmall : P.SmallFilters) (hencrypts : P.Encrypts)
    (hready : ∀ i, Ready (sim.engine i)) (calls : List (SimCall P n)) :
    sim.ContactsConverge calls ↔ sim.WithinGuards calls := by
  induction calls generalizing sim with
  | nil => exact Iff.rfl
  | cons call calls ih =>
    cases call with
    | composeAt i envelope now =>
      exact forall_congr' fun sim' => forall_congr' fun h => ih (ready_composeAt hready h)
    | contact order now a b hab =>
      have hguard : (sim.contact order now a b).isSome ↔ sim.WithinGuard order now a b :=
        contact_isSome_iff hsmall hencrypts hready hab
      rw [ContactsConverge, WithinGuards]
      constructor
      · rintro ⟨sim', hrun, hrest⟩
        refine ⟨hguard.mp (Option.isSome_of_eq_some hrun), fun sim'' hrun' => ?_⟩
        rw [hrun] at hrun'
        cases hrun'
        exact (ih (ready_contact hsmall hencrypts hready hrun)).mp hrest
      · rintro ⟨hwithin, hrest⟩
        obtain ⟨sim', hrun⟩ := Option.isSome_iff_exists.mp (hguard.mpr hwithin)
        exact ⟨sim', hrun,
          (ih (ready_contact hsmall hencrypts hready hrun)).mpr (hrest sim' hrun)⟩

/-- A contact comes to its end if and only if the frames and the summaries fit the guard, and so
do all contacts of a test. -/
theorem contacts_converge (hsmall : P.SmallFilters) (hencrypts : P.Encrypts) {sim : Simulation P n}
    (hreachable : sim.Reachable) :
    (∀ (order : Nat → Shuffle) (now : UInt64) (a b : Fin n), a ≠ b →
      ((sim.contact order now a b).isSome ↔ sim.WithinGuard order now a b)) ∧
      ∀ calls, sim.ContactsConverge calls ↔ sim.WithinGuards calls := by
  have hready := hreachable.ready hsmall hencrypts
  exact ⟨fun order now a b hab => contact_isSome_iff hsmall hencrypts hready hab,
    contactsConverge_iff hsmall hencrypts hready⟩

end Runs

section Crowd

open RelayEngine

variable {sim : Simulation P n} {i : Fin n} {x : Envelope P} {xs : List (Envelope P)}
  {now : UInt64}

theorem composeAt_room (now : UInt64) (hencrypts : P.Encrypts)
    (hready : ∀ i, Ready (sim.engine i)) (hlen : x.toBytes.length < 2 ^ 32)
    (hdup : (sim.engine i).held.contains x.id = false) (hexp : x.isExpired now = false)
    (httl : x.ttlHops ≠ 0) (hroom : (sim.engine i).held.len < 1000) :
    ∃ sim', sim.composeAt i x now = some sim' ∧
      (sim'.engine i).held = (sim.engine i).held.insert x ∧
      ∀ j, j ≠ i → sim'.engine j = sim.engine j := by
  have haccept := Store.accept_room hdup hexp httl ((hready i).capacity ▸ hroom)
  obtain ⟨disk, hrun, -⟩ :=
    DurableStore.accept_run_sound hencrypts (d := (sim.engine i).store) (hready i).sound hlen now
  have hsolve : Puzzle.solve P x.id (sim.engine i).puzzleDifficultyBits = some 0 := by
    rw [(hready i).difficulty, Puzzle.solve_zero]
  have hmemory : ((sim.engine i).store.memory.accept x now) =
    ((.new, none), (sim.engine i).held.insert x) := haccept
  rw [hmemory] at hrun
  refine ⟨sim.setEngine i { sim.engine i with store := ⟨(sim.engine i).held.insert x, disk⟩ },
    ?_, ?_, fun j hj => Function.update_of_ne hj _ _⟩
  · rw [composeAt, composeLocal_ok hsolve hrun]
  · simp only [setEngine, Function.update_self]
    rfl

theorem composeAll_room (i : Fin n) (now : UInt64) (hencrypts : P.Encrypts)
    (hready : ∀ i, Ready (sim.engine i)) (hids : (xs.map Envelope.id).Nodup)
    (hxs : ∀ x ∈ xs, x.toBytes.length < 2 ^ 32 ∧ x.isExpired now = false ∧ x.ttlHops ≠ 0 ∧
      (sim.engine i).held.contains x.id = false)
    (hroom : (sim.engine i).held.len + xs.length ≤ 1000) :
    ∃ sim', sim.composeAll (xs.map fun x => (i, x, now)) = some sim' ∧
      (sim'.engine i).held.len = (sim.engine i).held.len + xs.length ∧
      (∀ y ∈ (sim'.engine i).held.envelopes, y ∈ (sim.engine i).held.envelopes ∨ y ∈ xs) ∧
      ∀ j, j ≠ i → sim'.engine j = sim.engine j := by
  induction xs generalizing sim with
  | nil => exact ⟨sim, rfl, rfl, fun y hy => .inl hy, fun j _ => rfl⟩
  | cons x xs ih =>
    rw [List.map_cons, List.nodup_cons] at hids
    rw [List.length_cons] at hroom
    obtain ⟨hlen, hexp, httl, hdup⟩ := hxs x List.mem_cons_self
    obtain ⟨next, hnext, hheld, hothers⟩ :=
      composeAt_room now hencrypts hready hlen hdup hexp httl (by omega)
    have hlenNext : (next.engine i).held.len = (sim.engine i).held.len + 1 := by
      rw [hheld, Store.len_insert hdup]
    have hxsNext : ∀ y ∈ xs, y.toBytes.length < 2 ^ 32 ∧ y.isExpired now = false ∧
        y.ttlHops ≠ 0 ∧ (next.engine i).held.contains y.id = false := by
      intro y hy
      obtain ⟨hlen, hexp, httl, hdup⟩ := hxs y (List.mem_cons_of_mem _ hy)
      refine ⟨hlen, hexp, httl, ?_⟩
      rw [hheld, Bool.eq_false_iff]
      intro hcontains
      rcases Store.contains_insert.mp hcontains with hid | hcontains
      · exact hids.1 (hid ▸ List.mem_map_of_mem hy)
      · rw [hdup] at hcontains
        cases hcontains
    obtain ⟨sim', hrest, hlen', hmem, hothers'⟩ :=
      ih (ready_composeAt hready hnext) hids.2 hxsNext (by omega)
    refine ⟨sim', ?_, ?_, fun y hy => ?_, fun j hj => (hothers' j hj).trans (hothers j hj)⟩
    · rw [List.map_cons, composeAll, hnext]
      exact hrest
    · rw [hlen', hlenNext, List.length_cons]
      omega
    · rcases hmem y hy with hy | hy
      · rw [Store.mem_envelopes_iff, hheld] at hy
        by_cases hid : y.id = x.id
        · rw [hid, Store.get_insert_self] at hy
          exact .inr (Option.some.inj hy ▸ List.mem_cons_self)
        · rw [Store.get_insert_of_ne hid] at hy
          exact .inl (Store.mem_envelopes_iff.mpr hy)
      · exact .inr (List.mem_cons_of_mem _ hy)

theorem Reachable.composeAll {compositions : List (Fin n × Envelope P × UInt64)}
    {sim' : Simulation P n} (h : sim.Reachable) (hrun : sim.composeAll compositions = some sim') :
    sim'.Reachable := by
  induction compositions generalizing sim with
  | nil =>
    cases hrun
    exact h
  | cons composition compositions ih =>
    simp only [Simulation.composeAll, Option.bind_eq_bind, Option.bind_eq_some_iff] at hrun
    obtain ⟨next, hcompose, hrest⟩ := hrun
    exact ih (h.composeAt hcompose) hrest

theorem new_isSome (size_le : n ≤ UInt64.size) (nonces : Fin n → List (Bytes 12)) (hn : 0 < n) :
    ∃ sim, new P size_le (fun _ => []) nonces = some sim := by
  have hopens : ∀ i, (openNode P (freshDisk i [] (nonces i))).isSome := fun i => by
    have hfresh : (freshDisk i [] (nonces i)).db.table = ∅ := rfl
    obtain ⟨disk, hopen, -⟩ := openNode_fresh P hfresh rfl
    exact Option.isSome_of_eq_some hopen
  exact ⟨_, dif_pos ⟨hn, hopens⟩⟩

/-- Envelopes that were composed at one node do not fit a contact with a fresh one, when there
are more than the guard leaves room for. -/
theorem contact_crowded (hsmall : P.SmallFilters) (hencrypts : P.Encrypts)
    (size_le : n ≤ UInt64.size) {a b : Fin n} (hab : a ≠ b) (hids : (xs.map Envelope.id).Nodup)
    (hxs : ∀ x ∈ xs, x.toBytes.length < 2 ^ 32 ∧ x.isExpired now = false ∧ 2 ≤ x.ttlHops.toNat)
    (hmany : maxContactIterations < 2 + xs.length) (hroom : xs.length ≤ 1000) :
    ∃ sim : Simulation P n, sim.Reachable ∧
      ∀ order now, sim.contact order now a b = none := by
  obtain ⟨sim₀, hnew⟩ := new_isSome (P := P) size_le (fun _ => []) (Nat.zero_lt_of_lt a.isLt)
  have hfresh : ∀ i, (sim₀.engine i).held = .new P 1000 := by
    intro i
    obtain ⟨disk, hengine, -⟩ := engine_new hnew i
    rw [hengine]
    rfl
  have hfits : ∀ x ∈ xs, x.toBytes.length < 2 ^ 32 ∧ x.isExpired now = false ∧
      x.ttlHops ≠ 0 ∧ (sim₀.engine a).held.contains x.id = false := by
    intro x hx
    obtain ⟨hlen, hexp, httl⟩ := hxs x hx
    refine ⟨hlen, hexp, fun hzero => ?_, ?_⟩
    · rw [hzero] at httl
      exact absurd httl (by decide)
    · rw [hfresh a]
      rfl
  have hroom₀ : (sim₀.engine a).held.len + xs.length ≤ 1000 := by
    rw [hfresh a]
    exact (Nat.zero_add _).trans_le hroom
  obtain ⟨sim, hcompose, hlen, hmem, hothers⟩ :=
    composeAll_room a now hencrypts (ready_new hnew) hids hfits hroom₀
  have hreachable := Reachable.composeAll (.new hnew) hcompose
  refine ⟨sim, hreachable, fun order now => ?_⟩
  rw [← Option.not_isSome_iff_eq_none,
    contact_isSome_iff hsmall hencrypts (hreachable.ready hsmall hencrypts) hab]
  intro hguard
  have hgiven : (sim.given a b).length = xs.length := by
    rw [given_of_empty ((congrArg RelayEngine.held (hothers b hab.symm)).trans (hfresh b)),
      List.filterMap_length_eq_length.mpr, Store.length_envelopes, hlen, hfresh a]
    · exact Nat.zero_add _
    · intro y hy
      rcases hmem y hy with hy | hy
      · rw [hfresh a] at hy
        cases hy
      · exact decrementTtl_isSome_iff.mpr (hxs y hy).2.2
  have hfew := hguard.few
  omega

end Crowd

section Examples

theorem contacts_converge_toySim : toySim.WithinGuard (inOrder 0) 1 0 1 := by
  have hreachable : toySim.Reachable :=
    Reachable.composeAll (.new (Option.some_get _).symm) (Option.some_get _).symm
  have hiff := (contacts_converge smallFilters_toyPrimitives (fun _ _ _ _ _ => rfl)
    hreachable).1 (inOrder 0) 1 0 1 (by decide)
  exact hiff.mp (by decide +kernel)

def crowdPrimitives : Primitives where
  blake3 bs := ⟨leBytes 32 bs.length, length_leBytes _ _⟩
  chachaEncrypt := toyPrimitives.chachaEncrypt
  chachaDecrypt := toyPrimitives.chachaDecrypt
  bloomBits := toyPrimitives.bloomBits
  bloomHashes := toyPrimitives.bloomHashes

def crowdEnvelope (k : Nat) : Envelope crowdPrimitives :=
  .new crowdPrimitives .broadcast .normal 3 100 (List.replicate k 0)

def crowd : List (Envelope crowdPrimitives) := (List.range 999).map crowdEnvelope

theorem id_crowdEnvelope (k : Nat) :
    (crowdEnvelope k).id = ⟨⟨leBytes 32 (k + 15), length_leBytes _ _⟩⟩ := by
  have hlen : ([wireVersion, Addressing.broadcast.tag] ++ Addressing.broadcast.targetBytes ++
      [Priority.normal.tag] ++ leBytes 8 (100 : UInt64).toNat ++
      leBytes 4 (List.replicate k (0 : UInt8)).length ++ List.replicate k (0 : UInt8)).length =
        k + 15 := by
    simp [Addressing.targetBytes, Addressing.target]
    omega
  simp only [crowdEnvelope, Envelope.new, computeId, crowdPrimitives, hlen]

theorem nodup_crowd : (crowd.map Envelope.id).Nodup := by
  rw [crowd, List.map_map]
  refine List.nodup_range.map_on fun j hj k hk hid => ?_
  rw [List.mem_range] at hj hk
  simp only [Function.comp, id_crowdEnvelope, EnvelopeId.mk.injEq, Subtype.mk.injEq] at hid
  have heq := leBytes_injOn (by omega) (by omega) hid
  omega

/-- A node with 999 envelopes to give does not get through to a fresh one. -/
theorem not_contacts_converge : ¬ ∀ (P : Primitives) (n : Nat) (sim : Simulation P n),
    P.SmallFilters → P.Encrypts → sim.Reachable →
    ∀ (order : Nat → Shuffle) (now : UInt64) (a b : Fin n), a ≠ b →
      (sim.contact order now a b).isSome := by
  intro hconverges
  have hcrowd : ∀ x ∈ crowd, x.toBytes.length < 2 ^ 32 ∧ x.isExpired 0 = false ∧
      2 ≤ x.ttlHops.toNat := by
    intro x hx
    obtain ⟨k, hk, rfl⟩ := List.mem_map.mp hx
    rw [List.mem_range] at hk
    refine ⟨?_, rfl, (by decide : 2 ≤ (3 : UInt8).toNat)⟩
    simp [crowdEnvelope, Envelope.new, Envelope.toBytes, Envelope.encodeBody,
      Addressing.targetBytes, Addressing.target]
    omega
  have hlen : crowd.length = 999 := by rw [crowd, List.length_map, List.length_range]
  have hsmall : crowdPrimitives.SmallFilters := smallFilters_toyPrimitives
  have hencrypts : crowdPrimitives.Encrypts := fun _ _ _ _ _ => rfl
  obtain ⟨sim, hreachable, hnone⟩ := contact_crowded (n := 2) (a := 0) (b := 1) hsmall hencrypts
    (by decide) (by decide) nodup_crowd hcrowd (by rw [hlen]; decide) (by rw [hlen]; decide)
  have hsome := hconverges crowdPrimitives 2 sim hsmall hencrypts hreachable (inOrder 0) 0 0 1
    (by decide)
  rw [hnone] at hsome
  cases hsome

end Examples

end Simulation

end ProjectMesh.Routing
