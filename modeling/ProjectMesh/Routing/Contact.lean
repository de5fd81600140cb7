import ProjectMesh.Routing.Traffic

namespace ProjectMesh.Routing

open ProjectMesh.Lib

variable {P : Primitives}

namespace Store

variable {s t : Store P} {e x : Envelope P} {now : UInt64}

def relayable (s t : Store P) : List (Envelope P) :=
  (s.envelopes.filter fun e => !t.contains e.id).filterMap decrementTtl

theorem mem_relayable_iff :
    x ∈ s.relayable t ↔ ∃ source, s.get source.id = some source ∧
      t.contains source.id = false ∧ decrementTtl source = some x := by
  simp only [relayable, List.mem_filterMap, List.mem_filter, mem_envelopes_iff,
    Bool.not_eq_true', and_assoc]

theorem contains_of_mem_relayable (h : x ∈ s.relayable t) : s.contains x.id = true := by
  obtain ⟨source, hget, -, hdec⟩ := mem_relayable_iff.mp h
  rw [id_decrementTtl hdec]
  exact contains_iff.mpr ⟨source, hget⟩

theorem not_contains_of_mem_relayable (h : x ∈ s.relayable t) : t.contains x.id = false := by
  obtain ⟨source, -, hnot, hdec⟩ := mem_relayable_iff.mp h
  rw [id_decrementTtl hdec]
  exact hnot

theorem ttlHops_of_mem_relayable (h : x ∈ s.relayable t) : x.ttlHops ≠ 0 := by
  obtain ⟨source, -, -, hdec⟩ := mem_relayable_iff.mp h
  have hle := (ttlHops_decrementTtl hdec).2
  intro hz
  rw [hz] at hle
  exact absurd hle (by decide)

theorem nodup_relayable : ((s.relayable t).map Envelope.id).Nodup := by
  have hsub : ∀ envelopes : List (Envelope P),
      ((envelopes.filterMap decrementTtl).map Envelope.id).Sublist
        (envelopes.map Envelope.id) := by
    intro envelopes
    induction envelopes with
    | nil => exact .slnil
    | cons e rest ih =>
      cases hdec : decrementTtl e with
      | none =>
        rw [List.filterMap_cons_none hdec]
        exact ih.cons _
      | some relayed =>
        rw [List.filterMap_cons_some hdec, List.map_cons, List.map_cons, id_decrementTtl hdec]
        exact ih.cons_cons _
  have hfilter : (s.envelopes.filter fun e => !t.contains e.id).Sublist s.envelopes :=
    List.filter_sublist
  exact ((hsub _).trans (hfilter.map _)).nodup nodup_envelopes

theorem accept_expired (hdup : s.contains e.id = false) (hexp : e.isExpired now = true) :
    s.accept e now = ((.expired, none), s) := by
  simp only [accept, hdup, hexp, Bool.false_eq_true, if_false, if_true]

end Store

namespace RelayEngine

variable {e : RelayEngine P} {peer : UInt64} {bytes : List UInt8} {t : UInt64}

def dataFrame (difficultyBits : UInt8) (relayed : Envelope P) : List UInt8 :=
  (ContactMessage.data relayed ((Puzzle.solve P relayed.id difficultyBits).getD 0)).toBytes

theorem pushFrames_eq (e : RelayEngine P) (peer : UInt64) (envelopes : List (Envelope P)) :
    e.pushFrames peer envelopes =
      (envelopes.filterMap decrementTtl).map fun x => (peer, dataFrame e.puzzleDifficultyBits x) :=
  rfl

theorem onFrame_asked {filter : BloomFilter}
    (hmsg : ContactMessage.fromBytes P bytes = .ok (.summary filter))
    (hsolvable : e.Solvable (e.held.missingFromBloom filter))
    (hsent : (e.peerState peer).summarySent = true) :
    (onFrame peer bytes t).run e =
      .ok (e.pushFrames peer (e.held.missingFromBloom filter)) e := by
  rw [onFrame_summary hmsg]
  rcases onSummary_run e peer filter with ⟨-, h⟩ | ⟨hnot, -⟩
  · rw [h, reply, greeted, if_pos hsent, if_pos hsent, List.nil_append]
  · exact absurd hsolvable hnot

theorem relayToOthers_alone {envelope : Envelope P} {nonce : UInt64}
    (halone : ∀ p, p ≠ peer → e.peers.lookup p = none) :
    e.relayToOthers envelope nonce peer = [] := by
  have hkeys : (e.peers.keys.filter fun p => !(p == peer)) = [] := by
    refine List.filter_eq_nil_iff.mpr fun p hp => ?_
    by_cases h : p = peer
    · simp [h]
    · exact absurd (AList.mem_keys.mpr hp) (Assoc.notMem_of_lookup (halone p h))
  rw [relayToOthers, relayTo]
  split
  · rfl
  · rw [hkeys, List.map_nil]

theorem lookup_charged_of_ne {p : UInt64} {size : Nat} (h : p ≠ peer) :
    (e.charged peer t size).peers.lookup p = e.peers.lookup p :=
  Assoc.lookup_insert_of_ne h

theorem onFrame_given {envelope : Envelope P} {nonce : UInt64}
    (hmsg : ContactMessage.fromBytes P bytes = .ok (.data envelope nonce))
    (hverify : Puzzle.verify P envelope.id nonce e.puzzleDifficultyBits = true)
    (hbudget : (e.budget peer t bytes.length).1 = true)
    (halone : ∀ p, p ≠ peer → e.peers.lookup p = none) :
    ∃ disk, (onFrame peer bytes t).run e =
        .ok [] ((e.charged peer t bytes.length).offer t envelope disk) ∨
      ∃ err, (onFrame peer bytes t).run e =
        .error (.err err) ((e.charged peer t bytes.length).offer t envelope disk) := by
  have halone' : ∀ p, p ≠ peer → (e.charged peer t bytes.length).peers.lookup p = none :=
    fun p hp => (lookup_charged_of_ne hp).trans (halone p hp)
  rw [onFrame_data hmsg]
  rcases DurableStore.accept_run e.store envelope t with ⟨disk, h⟩ | ⟨err, disk, h⟩
  · refine ⟨disk, .inl ?_⟩
    rw [onData_ok hverify hbudget h, relayToOthers_alone halone', ite_self]
    rfl
  · exact ⟨disk, .inr ⟨err, onData_error hverify hbudget h⟩⟩

end RelayEngine

namespace RateLimiter

variable {r : RateLimiter} {cfg : RateLimitConfig} {size : Nat}

theorem roll_le (r : RateLimiter) (now : UInt64) (cfg : RateLimitConfig) :
    (r.roll now cfg).envelopes ≤ r.envelopes ∧ (r.roll now cfg).bytes ≤ r.bytes := by
  rw [roll]
  split
  · exact ⟨Nat.zero_le _, Nat.zero_le _⟩
  · exact ⟨Nat.le_refl _, Nat.le_refl _⟩

theorem allow_of_room (now : UInt64) (henvelopes : r.envelopes < cfg.maxEnvelopesPerWindow)
    (hbytes : r.bytes + size ≤ cfg.maxBytesPerWindow) :
    (r.allow now size cfg).1 = true ∧ (r.allow now size cfg).2.envelopes ≤ r.envelopes + 1 ∧
      (r.allow now size cfg).2.bytes ≤ r.bytes + size := by
  obtain ⟨hroll, hroll'⟩ := roll_le r now cfg
  have hroom : ¬ ((r.roll now cfg).envelopes ≥ cfg.maxEnvelopesPerWindow ∨
      (r.roll now cfg).bytes + size > cfg.maxBytesPerWindow) := by omega
  simp only [allow, if_neg hroom, true_and]
  omega

end RateLimiter

def frameBytes (difficultyBits : UInt8) (relayed : List (Envelope P)) : Nat :=
  (relayed.map fun x => (RelayEngine.dataFrame difficultyBits x).length).sum

/-- An engine during a contact with `peer`, its only one: what it was at the `start`, and what
it has got since. -/
structure Received (now : UInt64) (start : RelayEngine P) (peer : UInt64)
    (got : List (Envelope P)) (e : RelayEngine P) : Prop where
  difficulty : e.puzzleDifficultyBits = start.puzzleDifficultyBits
  rateLimit : e.rateLimit = start.rateLimit
  capacity : e.held.capacity = start.held.capacity
  alone : ∀ p, p ≠ peer → e.peers.lookup p = none
  summarySent : (e.peerState peer).summarySent = true
  envelopes : (e.peerState peer).rate.envelopes ≤ got.length
  bytes : (e.peerState peer).rate.bytes ≤ frameBytes start.puzzleDifficultyBits got
  len : e.held.len = start.held.len + (got.filter fun x => !x.isExpired now).length
  get : ∀ id x, e.held.get id = some x ↔
    start.held.get id = some x ∨ x ∈ got ∧ x.id = id ∧ x.isExpired now = false

structure Gives (clock : Set UInt64) (now : UInt64) (giver receiver : RelayEngine P) : Prop where
  difficulty : giver.puzzleDifficultyBits = receiver.puzzleDifficultyBits
  solves : ∀ x ∈ giver.held.relayable receiver.held,
    (Puzzle.solve P x.id giver.puzzleDifficultyBits).isSome
  /-- Nothing expires during the contact. -/
  clock : ∀ t ∈ clock, ∀ x ∈ giver.held.relayable receiver.held, x.isExpired t = x.isExpired now
  capacity : receiver.held.len +
    ((giver.held.relayable receiver.held).filter fun x => !x.isExpired now).length ≤
      receiver.held.capacity
  envelopes : (giver.held.relayable receiver.held).length ≤
    receiver.rateLimit.maxEnvelopesPerWindow
  bytes : frameBytes giver.puzzleDifficultyBits (giver.held.relayable receiver.held) ≤
    receiver.rateLimit.maxBytesPerWindow
  noFalsePositive : ∀ e, giver.held.get e.id = some e → receiver.held.contains e.id = false →
    receiver.held.summaryBloom.contains P e.id = false

/-- What the `u32` prefixes of the formats can tell. -/
structure Fits (giver receiver : RelayEngine P) : Prop where
  filter : receiver.held.summaryBloom.numBits < 2 ^ 32
  envelopes : ∀ x ∈ giver.held.relayable receiver.held, x.Sendable

section Received

variable {clock : Set UInt64} {now t : UInt64} {start other e : RelayEngine P} {peer : UInt64}
  {got : List (Envelope P)} {x : Envelope P}

theorem Received.connected (now : UInt64)
    (halone : ∀ p, p ≠ peer → start.peers.lookup p = none) :
    Received now start peer [] (start.onPeerConnected peer).2 where
  difficulty := rfl
  rateLimit := rfl
  capacity := rfl
  alone p hp := (Assoc.lookup_insert_of_ne hp).trans (halone p hp)
  summarySent := by simp [RelayEngine.onPeerConnected, PeerState.new]
  envelopes := by simp [RelayEngine.onPeerConnected, PeerState.new, RateLimiter.default]
  bytes := by simp [RelayEngine.onPeerConnected, PeerState.new, RateLimiter.default]
  len := rfl
  get id x := by simp [RelayEngine.onPeerConnected, RelayEngine.setPeer, RelayEngine.held]

theorem Received.missing_perm (h : Received now start peer got e)
    (hgot : ∀ x ∈ got, other.held.contains x.id = true)
    (hfalse : ∀ e, start.held.get e.id = some e → other.held.contains e.id = false →
      other.held.summaryBloom.contains P e.id = false) :
    ((e.held.missingFromBloom other.held.summaryBloom).filterMap decrementTtl).Perm
      (start.held.relayable other.held) := by
  refine List.Perm.filterMap _ ?_
  have hnodup : (e.held.missingFromBloom other.held.summaryBloom).Nodup :=
    (Store.nodup_envelopes.of_map _).filter _
  have hnodup' : (start.held.envelopes.filter fun e => !other.held.contains e.id).Nodup :=
    (Store.nodup_envelopes.of_map _).filter _
  rw [List.perm_ext_iff_of_nodup hnodup hnodup']
  intro x
  rw [Store.mem_missingFromBloom_iff, List.mem_filter, Store.mem_envelopes_iff,
    Bool.not_eq_true', h.get]
  constructor
  · rintro ⟨hx, hfilter⟩
    have hnot : other.held.contains x.id = false := by
      refine Bool.eq_false_iff.mpr fun hc => ?_
      rw [Store.contains_summaryBloom hc] at hfilter
      cases hfilter
    rcases hx with hx | ⟨hx, -, -⟩
    · exact ⟨hx, hnot⟩
    · rw [hgot x hx] at hnot
      cases hnot
  · rintro ⟨hx, hnot⟩
    exact ⟨.inl hx, hfalse x hx hnot⟩

theorem frameBytes_cons {bits : UInt8} :
    frameBytes bits (x :: got) = (RelayEngine.dataFrame bits x).length + frameBytes bits got := by
  rw [frameBytes, List.map_cons, List.sum_cons, frameBytes]

theorem frameBytes_perm (bits : UInt8) {got' : List (Envelope P)} (h : got.Perm got') :
    frameBytes bits got = frameBytes bits got' := (h.map _).sum_eq

/-- The envelope is one that `start` lacks, and is neither got nor over budget. -/
structure Due (start : RelayEngine P) (got : List (Envelope P)) (x : Envelope P) : Prop where
  lacked : start.held.contains x.id = false
  notGot : x.id ∉ got.map Envelope.id
  hops : x.ttlHops ≠ 0
  envelopes : got.length < start.rateLimit.maxEnvelopesPerWindow
  bytes : frameBytes start.puzzleDifficultyBits (x :: got) ≤ start.rateLimit.maxBytesPerWindow

theorem Received.contains_eq_false (h : Received now start peer got e) (hdue : Due start got x) :
    e.held.contains x.id = false := by
  refine Store.contains_eq_false_iff.mpr (Option.eq_none_iff_forall_ne_some.mpr fun y hy => ?_)
  rcases (h.get x.id y).mp hy with hy | ⟨hy, hid, -⟩
  · have hcontains := Store.contains_iff.mpr ⟨y, hy⟩
    exact absurd (hdue.lacked.symm.trans hcontains) Bool.false_ne_true
  · exact hdue.notGot (List.mem_map.mpr ⟨y, hy, hid⟩)

theorem Received.budget (h : Received now start peer got e) (hdue : Due start got x) {size : Nat}
    (hsize : size = (RelayEngine.dataFrame start.puzzleDifficultyBits x).length) :
    (e.budget peer t size).1 = true ∧ (e.budget peer t size).2.envelopes ≤ (x :: got).length ∧
      (e.budget peer t size).2.bytes ≤ frameBytes start.puzzleDifficultyBits (x :: got) := by
  have henvelopes := h.envelopes
  have hbytes := h.bytes
  have hdueEnvelopes := hdue.envelopes
  have hdueBytes := hdue.bytes
  rw [frameBytes_cons, ← hsize] at hdueBytes ⊢
  rw [List.length_cons, RelayEngine.budget, h.rateLimit]
  have hcount : (e.peerState peer).rate.envelopes < start.rateLimit.maxEnvelopesPerWindow := by
    omega
  have hsum : (e.peerState peer).rate.bytes + size ≤ start.rateLimit.maxBytesPerWindow := by omega
  obtain ⟨hallow, hcount, hcountBytes⟩ := RateLimiter.allow_of_room t hcount hsum
  exact ⟨hallow, by omega, by omega⟩

section Offer

variable (h : Received now start peer got e) (hdue : Due start got x)
  (hclock : x.isExpired t = x.isExpired now)
  (hroom : x.isExpired now = false → e.held.len < e.held.capacity)

include h hdue hclock hroom

theorem Received.accept :
    x.isExpired now = true ∧ (e.held.accept x t).2 = e.held ∨
      x.isExpired now = false ∧ (e.held.accept x t).2 = e.held.insert x := by
  have hdup := h.contains_eq_false hdue
  cases hexpired : x.isExpired now with
  | true => exact .inl ⟨rfl, by rw [Store.accept_expired hdup (hclock.trans hexpired)]⟩
  | false =>
    refine .inr ⟨rfl, ?_⟩
    rw [Store.accept_room hdup (hclock.trans hexpired) hdue.hops (hroom hexpired)]

theorem Received.len_accept : (e.held.accept x t).2.len =
    start.held.len + ((x :: got).filter fun x => !x.isExpired now).length := by
  rcases h.accept hdue hclock hroom with ⟨hexpired, hheld⟩ | ⟨hlive, hheld⟩
  · rw [hheld, h.len, List.filter_cons_of_neg (by simp [hexpired])]
  · rw [hheld, Store.len_insert (h.contains_eq_false hdue), h.len,
      List.filter_cons_of_pos (by simp [hlive]), List.length_cons, Nat.add_assoc]

theorem Received.get_accept (id : EnvelopeId) (y : Envelope P) :
    (e.held.accept x t).2.get id = some y ↔
      start.held.get id = some y ∨ y ∈ x :: got ∧ y.id = id ∧ y.isExpired now = false := by
  have hcons : (start.held.get id = some y ∨ y ∈ x :: got ∧ y.id = id ∧ y.isExpired now = false) ↔
      (y = x ∧ x.id = id ∧ x.isExpired now = false) ∨ e.held.get id = some y := by
    rw [h.get, List.mem_cons, or_and_right, or_left_comm]
    refine or_congr_left (and_congr_right ?_)
    rintro rfl
    exact Iff.rfl
  rw [hcons]
  rcases h.accept hdue hclock hroom with ⟨hexpired, hheld⟩ | ⟨hlive, hheld⟩
  · rw [hheld, or_iff_right]
    rintro ⟨-, -, hlive⟩
    exact absurd (hlive.symm.trans hexpired) Bool.false_ne_true
  · rw [hheld]
    by_cases hid : id = x.id
    · subst hid
      have hnone := Store.contains_eq_false_iff.mp (h.contains_eq_false hdue)
      rw [Store.get_insert_self, hnone]
      simp [hlive, eq_comm]
    · rw [Store.get_insert_of_ne hid, or_iff_right]
      exact fun hx => hid hx.2.1.symm

theorem Received.offer {size : Nat}
    (hsize : size = (RelayEngine.dataFrame start.puzzleDifficultyBits x).length)
    (disk : EncryptedStore) :
    Received now start peer (x :: got) ((e.charged peer t size).offer t x disk) := by
  obtain ⟨-, hcount, hcountBytes⟩ := h.budget (t := t) hdue hsize
  have hstate : ((e.charged peer t size).offer t x disk).peerState peer =
      { e.peerState peer with rate := (e.budget peer t size).2 } :=
    RelayEngine.peerState_setPeer_self
  exact {
    difficulty := h.difficulty
    rateLimit := h.rateLimit
    capacity := (e.held.accept_offered x t).capacity_eq.trans h.capacity
    alone := fun p hp => (RelayEngine.lookup_charged_of_ne hp).trans (h.alone p hp)
    summarySent := by rw [hstate, h.summarySent]
    envelopes := by
      rw [hstate]
      exact hcount
    bytes := by
      rw [hstate]
      exact hcountBytes
    len := h.len_accept hdue hclock hroom
    get := h.get_accept hdue hclock hroom }

end Offer

end Received

end ProjectMesh.Routing
