import ProjectMesh.Crypto.PrekeyCodec

namespace ProjectMesh.Crypto.Pqxdh

open ProjectMesh.Lib
open ProjectMesh.Crypto.Prekey

variable {C : PrekeySuite} {w : Word}

/-- The most one-time prekeys for which the `100 + 32 * n` bytes of the classical pool fit the
`u32` that tells their number. -/
def mostStored : Nat := 134217724

inductive PoolCall (C : PrekeySuite) : Type
  | topUp (secrets : List C.Secret)
  | consume (pub : C.Public)
  | rotateSignedPrekey (identity : Identity C) (secret : C.Secret)
  | rotatePqPrekey (identity : Identity C) (seed : Bytes 64)
  | currentBundle (identity : PublicIdentity C)
  | availableCount
  | needsTopUp (threshold : Nat)
  | respond (identity : Identity C) (used : Option Nat) (sender : PublicIdentity C)
      (ephemeralPublic : C.Public) (pqCiphertext : Bytes 1568)

/-- A call, or a point at which the pool is replaced by `from_bytes(to_bytes(pool))`. -/
inductive PoolEvent (C : PrekeySuite) : Type
  | call (c : PoolCall C)
  | replace

inductive PoolOutput (C : PrekeySuite) : Type
  | bundle (b : HybridBundle C)
  | count (n : Nat)
  | low (answer : Bool)
  | consumed (otpk : Option (OneTimePrekey C))
  | secret (k : C.Key)

structure PoolLog (C : PrekeySuite) where
  pool : HybridPrekeyPool C
  outputs : List (PoolOutput C)

def PoolOutput.taken : PoolOutput C → Option (OneTimePrekey C)
  | .consumed otpk => otpk
  | .bundle _ | .count _ | .low _ | .secret _ => none

def PoolCall.generated : PoolCall C → List C.Public
  | .topUp secrets => secrets.map C.publicKey
  | .consume _ | .rotateSignedPrekey _ _ | .rotatePqPrekey _ _ | .currentBundle _
  | .availableCount | .needsTopUp _ | .respond _ _ _ _ _ => []

def callsOf : List (PoolEvent C) → List (PoolCall C)
  | [] => []
  | .call c :: later => c :: callsOf later
  | .replace :: later => callsOf later

namespace PoolLog

def ofPool (pool : HybridPrekeyPool C) : PoolLog C := ⟨pool, []⟩

def output (log : PoolLog C) (o : PoolOutput C) : PoolLog C :=
  { log with outputs := log.outputs ++ [o] }

def taken (log : PoolLog C) : List (OneTimePrekey C) := log.outputs.filterMap PoolOutput.taken

/-- `used` names the prekey to respond with by its place among those `consume` has returned. -/
def perform (log : PoolLog C) : PoolCall C → PoolLog C
  | .topUp secrets => { log with pool := log.pool.topUp secrets }
  | .consume pub =>
    match log.pool.consume pub with
    | none => log.output (.consumed none)
    | some (otpk, pool) => { log with pool := pool }.output (.consumed (some otpk))
  | .rotateSignedPrekey identity secret =>
    { log with pool := log.pool.rotateSignedPrekey identity secret }
  | .rotatePqPrekey identity seed => { log with pool := log.pool.rotatePqPrekey identity seed }
  | .currentBundle identity => log.output (.bundle (log.pool.currentBundle identity))
  | .availableCount => log.output (.count log.pool.availableCount)
  | .needsTopUp threshold => log.output (.low (log.pool.needsTopUp threshold))
  | .respond identity used sender ephemeralPublic pqCiphertext =>
    log.output (.secret (respond identity log.pool.classical.signedPrekey log.pool.pqPrekey
      (used.bind fun i => log.taken[i]?) sender ephemeralPublic pqCiphertext))

def replace (w : Word) (log : PoolLog C) : Parse MeshError (PoolLog C) := do
  let bytes ← Parse.ofExcept log.pool.toBytes
  let pool ← HybridPrekeyPool.fromBytes w bytes
  return { log with pool := pool }

def step (w : Word) (log : PoolLog C) : PoolEvent C → Parse MeshError (PoolLog C)
  | .call c => .ok (log.perform c)
  | .replace => log.replace w

def run (w : Word) (log : PoolLog C) (events : List (PoolEvent C)) :
    Parse MeshError (PoolLog C) :=
  events.foldlM (step w) log

end PoolLog

theorem perm_cons_eraseP {α : Type} {p : α → Bool} {l : List α} {a : α}
    (h : l.find? p = some a) : l.Perm (a :: l.eraseP p) := by
  obtain ⟨ha, front, back, rfl, hfront⟩ := List.find?_eq_some_iff_append.mp h
  have hnot : ∀ b ∈ front, ¬ p b = true := by
    intro b hb
    simpa using hfront b hb
  rw [List.eraseP_append_right _ hnot, List.eraseP_cons_of_pos ha]
  exact List.perm_middle

def PqPrekey.Seeded (prekey : PqPrekey C) : Prop :=
  ∃ seed, prekey.decapsulationKey = C.fromSeed seed

theorem PqPrekey.Seeded.toBytes_ok (hexports : ∀ seed, C.toSeed (C.fromSeed seed) = some seed)
    {prekey : PqPrekey C} (h : prekey.Seeded) : ∃ bytes, prekey.toBytes = .ok bytes := by
  obtain ⟨seed, hseed⟩ := h
  rw [toBytes, hseed, hexports]
  exact ⟨_, rfl⟩

theorem PqPrekey.Seeded.restorable (hexports : ∀ seed, C.toSeed (C.fromSeed seed) = some seed)
    {prekey : PqPrekey C} (h : prekey.Seeded) : prekey.Restorable := by
  obtain ⟨seed, hseed⟩ := h
  intro seed' hseed'
  rw [hseed, hexports] at hseed'
  rw [hseed, Option.some.inj hseed']

theorem PqPrekey.seeded_of_fromBytes {prekey : PqPrekey C} {bytes : List UInt8}
    (h : fromBytes bytes = .ok prekey) : prekey.Seeded := by
  rw [fromBytes] at h
  split at h
  · cases h
  · obtain ⟨seedBytes, -, h⟩ := bind_eq_ok.mp h
    split at h
    · cases h
    · obtain ⟨signature, -, h⟩ := bind_eq_ok.mp h
      cases h
      exact ⟨_, rfl⟩

namespace HybridPrekeyPool

variable {pool pool' : HybridPrekeyPool C}

inductive Created (w : Word) : HybridPrekeyPool C → Prop
  | new (identity : Identity C) (signedSecret : C.Secret) (initialBatch : List C.Secret)
      (seed : Bytes 64) : Created w (new identity signedSecret initialBatch seed)
  | fromBytes {bytes : List UInt8} {pool : HybridPrekeyPool C} :
    fromBytes w bytes = .ok pool → Created w pool

theorem Created.seeded (h : pool.Created w) : pool.pqPrekey.Seeded := by
  cases h with
  | new identity signedSecret initialBatch seed => exact ⟨seed, rfl⟩
  | fromBytes h =>
    rw [HybridPrekeyPool.fromBytes] at h
    split at h
    · cases h
    · obtain ⟨classicalLen, -, h⟩ := bind_eq_ok.mp h
      obtain ⟨rest, -, h⟩ := bind_eq_ok.mp h
      split at h
      · cases h
      · obtain ⟨⟨classicalBytes, pqBytes⟩, -, h⟩ := bind_eq_ok.mp h
        obtain ⟨classical, -, h⟩ := bind_eq_ok.mp h
        obtain ⟨pqPrekey, hpq, h⟩ := bind_eq_ok.mp h
        cases h
        exact PqPrekey.seeded_of_fromBytes hpq

theorem length_toBytes_lt_iff :
    pool.classical.toBytes.length < 2 ^ 32 ↔ pool.availableCount ≤ mostStored := by
  rw [PrekeyPool.length_toBytes, availableCount, PrekeyPool.availableCount, mostStored]
  omega

theorem of_consume {pub : C.Public} {otpk : OneTimePrekey C}
    (h : pool.consume pub = some (otpk, pool')) :
    pool.classical.available.Perm (otpk :: pool'.classical.available) ∧
      pool'.pqPrekey = pool.pqPrekey := by
  obtain ⟨⟨otpk', classical'⟩, hconsume, heq⟩ := Option.map_eq_some_iff.mp h
  cases heq
  rw [PrekeyPool.consume] at hconsume
  split at hconsume
  · cases hconsume
  · next hfind =>
    cases hconsume
    exact ⟨perm_cons_eraseP hfind, rfl⟩

end HybridPrekeyPool

namespace PoolLog

variable {log log' : PoolLog C} {events : List (PoolEvent C)}

theorem seeded_perform (h : log.pool.pqPrekey.Seeded) (c : PoolCall C) :
    (log.perform c).pool.pqPrekey.Seeded := by
  cases c with
  | topUp secrets => exact h
  | consume pub =>
    rw [perform]
    split
    · exact h
    · next otpk pool hconsume =>
      rw [← (HybridPrekeyPool.of_consume hconsume).2] at h
      exact h
  | rotateSignedPrekey identity secret => exact h
  | rotatePqPrekey identity seed => exact ⟨seed, rfl⟩
  | currentBundle identity => exact h
  | availableCount => exact h
  | needsTopUp threshold => exact h
  | respond identity used sender ephemeralPublic pqCiphertext => exact h

/-- A replaced pool is the pool that was there, as far as its length can be told. -/
theorem replace_eq_ok_iff (hexports : ∀ seed, C.toSeed (C.fromSeed seed) = some seed)
    (h : log.pool.pqPrekey.Seeded) :
    log.replace w = .ok log' ↔ log' = log ∧ log.pool.availableCount ≤ mostStored := by
  obtain ⟨pq, hpq⟩ := h.toBytes_ok hexports
  obtain ⟨bytes, hbytes⟩ : ∃ bytes, log.pool.toBytes = .ok bytes := by
    rw [HybridPrekeyPool.toBytes, hpq]
    exact ⟨_, rfl⟩
  rw [replace, hbytes, ← HybridPrekeyPool.length_toBytes_lt_iff]
  change (HybridPrekeyPool.fromBytes w bytes >>= _) = _ ↔ _
  constructor
  · intro hreplace
    obtain ⟨pool, hpool, heq⟩ := bind_eq_ok.mp hreplace
    cases heq
    obtain ⟨rfl, hlen⟩ := HybridPrekeyPool.of_fromBytes_toBytes (h.restorable hexports) hbytes hpool
    exact ⟨rfl, hlen⟩
  · rintro ⟨rfl, hlen⟩
    rw [HybridPrekeyPool.fromBytes_toBytes (h.restorable hexports) hbytes hlen]
    rfl

/-- The pool is replaced only where it has at most `mostStored` one-time prekeys. -/
def Storing : PoolLog C → List (PoolEvent C) → Prop
  | _, [] => True
  | log, .call c :: later => Storing (log.perform c) later
  | log, .replace :: later => log.pool.availableCount ≤ mostStored ∧ Storing log later

theorem run_eq_ok_iff (hexports : ∀ seed, C.toSeed (C.fromSeed seed) = some seed)
    (h : log.pool.pqPrekey.Seeded) :
    run w log events = .ok log' ↔
      log' = (callsOf events).foldl perform log ∧ Storing log events := by
  induction events generalizing log with
  | nil =>
    constructor
    · rintro ⟨⟩
      exact ⟨rfl, trivial⟩
    · rintro ⟨rfl, -⟩
      rfl
  | cons event later ih =>
    rw [run, List.foldlM_cons]
    cases event with
    | call c => exact ih (seeded_perform h c)
    | replace =>
      constructor
      · intro hrun
        obtain ⟨log₁, hreplace, hlater⟩ := bind_eq_ok.mp hrun
        obtain ⟨rfl, hlen⟩ := (replace_eq_ok_iff hexports h).mp hreplace
        obtain ⟨heq, hlater⟩ := (ih h).mp hlater
        exact ⟨heq, hlen, hlater⟩
      · rintro ⟨heq, hlen, hlater⟩
        exact bind_eq_ok.mpr ⟨log, (replace_eq_ok_iff hexports h).mpr ⟨rfl, hlen⟩,
          (ih h).mpr ⟨heq, hlater⟩⟩

theorem run_calls (w : Word) (log : PoolLog C) (cs : List (PoolCall C)) :
    run w log (cs.map .call) = .ok (cs.foldl perform log) := by
  induction cs generalizing log with
  | nil => rfl
  | cons c cs ih => exact ih (log.perform c)

section SingleUse

def Unlike (p q : C.Public) : Prop := C.samePoint p q = false ∧ C.samePoint q p = false

theorem Unlike.symm {p q : C.Public} (h : Unlike p q) : Unlike q p := ⟨h.2, h.1⟩

/-- The prekeys a pool has at first, and those generated in the run. -/
def generatedKeys (pool : HybridPrekeyPool C) (events : List (PoolEvent C)) : List C.Public :=
  pool.classical.available.map OneTimePrekey.pub ++ (callsOf events).flatMap PoolCall.generated

def keys (log : PoolLog C) (later : List C.Public) : List C.Public :=
  log.taken.map OneTimePrekey.pub ++
    (log.pool.classical.available.map OneTimePrekey.pub ++ later)

theorem taken_output (log : PoolLog C) (o : PoolOutput C) :
    (log.output o).taken = log.taken ++ o.taken.toList := by
  rw [taken, output, List.filterMap_append]
  cases h : o.taken with
  | none =>
    rw [List.filterMap_cons_none h]
    rfl
  | some otpk =>
    rw [List.filterMap_cons_some h]
    rfl

theorem keys_output (log : PoolLog C) {o : PoolOutput C} (h : o.taken = none)
    (later : List C.Public) : (log.output o).keys later = log.keys later := by
  rw [keys, taken_output, h, Option.toList_none, List.append_nil]
  rfl

theorem keys_perform (log : PoolLog C) (c : PoolCall C) (later : List C.Public) :
    ((log.perform c).keys later).Perm (log.keys (c.generated ++ later)) := by
  cases c with
  | topUp secrets =>
    have hmap : (log.pool.classical.topUp secrets).available.map OneTimePrekey.pub =
        log.pool.classical.available.map OneTimePrekey.pub ++ secrets.map C.publicKey := by
      rw [PrekeyPool.topUp, List.map_append, generateOneTimePrekeys, List.map_map]
      rfl
    change (log.taken.map OneTimePrekey.pub ++
      ((log.pool.classical.topUp secrets).available.map OneTimePrekey.pub ++ later)).Perm _
    rw [hmap, List.append_assoc]
    rfl
  | consume pub =>
    rw [perform]
    split
    · rw [keys_output _ rfl]
      rfl
    · next otpk pool hconsume =>
      have hperm := (HybridPrekeyPool.of_consume hconsume).1.map OneTimePrekey.pub
      rw [keys, taken_output, List.map_append, List.append_assoc]
      exact ((hperm.append_right later).append_left _).symm
  | rotateSignedPrekey identity secret => rfl
  | rotatePqPrekey identity seed => rfl
  | currentBundle identity =>
    rw [perform, keys_output _ rfl]
    rfl
  | availableCount =>
    rw [perform, keys_output _ rfl]
    rfl
  | needsTopUp threshold =>
    rw [perform, keys_output _ rfl]
    rfl
  | respond identity used sender ephemeralPublic pqCiphertext =>
    rw [perform, keys_output _ rfl]
    rfl

theorem keys_foldl_perform (log : PoolLog C) (later : List (PoolCall C)) :
    ((later.foldl perform log).keys []).Perm (log.keys (later.flatMap PoolCall.generated)) := by
  induction later generalizing log with
  | nil => rfl
  | cons c later ih => exact (ih (log.perform c)).trans (log.keys_perform c _)

end SingleUse

/-- Replacing the pool changes nothing if and only if it is always short enough to store, and
no one-time prekey is returned twice. -/
theorem run_eq_iff_storing (hexports : ∀ seed, C.toSeed (C.fromSeed seed) = some seed)
    {pool : HybridPrekeyPool C} (hpool : pool.Created w) (events : List (PoolEvent C))
    (hdistinct : (generatedKeys pool events).Pairwise Unlike) :
    (run w (ofPool pool) events = run w (ofPool pool) ((callsOf events).map .call) ↔
      Storing (ofPool pool) events) ∧
    ∀ log, run w (ofPool pool) events = .ok log →
      (log.taken.map OneTimePrekey.pub).Pairwise Unlike := by
  have hrun : ∀ log, run w (ofPool pool) events = .ok log ↔
      log = (callsOf events).foldl perform (ofPool pool) ∧ Storing (ofPool pool) events :=
    fun _ => run_eq_ok_iff hexports hpool.seeded
  constructor
  · rw [run_calls, hrun]
    exact and_iff_right rfl
  · intro log hlog
    obtain ⟨rfl, -⟩ := (hrun log).mp hlog
    have hperm := keys_foldl_perform (ofPool pool) (callsOf events)
    have hkeys := hdistinct.perm hperm.symm Unlike.symm
    exact (List.pairwise_append.mp hkeys).1

def numbered (n : Nat) : List (Bytes 32) :=
  (List.range n).map fun i => ⟨leBytes 32 i, length_leBytes 32 i⟩

def toyIdentity : Identity toyPrekeys := ⟨⟨leBytes 32 1, rfl⟩, ⟨leBytes 32 2, rfl⟩⟩

def numberedPool (n : Nat) : HybridPrekeyPool toyPrekeys :=
  .new toyIdentity (⟨leBytes 32 3, rfl⟩ : Bytes 32) (numbered n) ⟨leBytes 64 4, rfl⟩

theorem numbered_nodup {n : Nat} (h : n ≤ 256 ^ 32) : (numbered n).Nodup := by
  refine List.pairwise_map.mpr (List.nodup_range.imp_of_mem ?_)
  intro i j hi hj hne heq
  have hlt : ∀ {k}, k ∈ List.range n → k < 256 ^ 32 := fun hk =>
    Nat.lt_of_lt_of_le (List.mem_range.mp hk) h
  exact hne (leBytes_injOn (hlt hi) (hlt hj) (congrArg Subtype.val heq))

theorem Unlike.of_nodup {l : List (Bytes 32)} (h : l.Nodup) :
    l.Pairwise (Unlike (C := toyPrekeys)) :=
  h.imp fun hne => ⟨decide_eq_false hne, decide_eq_false hne.symm⟩

def toyEvents : List (PoolEvent toyPrekeys) :=
  [.replace, .call (.currentBundle toyIdentity.pub), .call (.consume ⟨leBytes 32 0, rfl⟩), .replace,
    .call (.topUp [(⟨leBytes 32 9, rfl⟩ : Bytes 32)]),
    .call (.rotatePqPrekey toyIdentity ⟨leBytes 64 5, rfl⟩), .replace,
    .call (.consume ⟨leBytes 32 0, rfl⟩),
    .call (.respond toyIdentity (some 0) toyIdentity.pub ⟨leBytes 32 6, rfl⟩
      ⟨leBytes 1568 7, length_leBytes _ _⟩), .call .availableCount]

theorem run_eq_iff_storing_toyEvents :
    run .w32 (ofPool (numberedPool 2)) toyEvents =
        run .w32 (ofPool (numberedPool 2)) ((callsOf toyEvents).map .call) ∧
      ∀ log, run .w32 (ofPool (numberedPool 2)) toyEvents = .ok log →
        (log.taken.map OneTimePrekey.pub).Pairwise Unlike := by
  have hdistinct : (generatedKeys (numberedPool 2) toyEvents).Pairwise Unlike :=
    Unlike.of_nodup (l := numbered 2 ++ [⟨leBytes 32 9, rfl⟩]) (by decide)
  have hstoring : Storing (ofPool (numberedPool 2)) toyEvents :=
    And.intro (by decide) (And.intro (by decide) (And.intro (by decide) trivial))
  have h := run_eq_iff_storing (w := .w32) toyPrekeys_ideal.toSeed_fromSeed (.new ..) toyEvents
    hdistinct
  exact ⟨h.1.mpr hstoring, h.2⟩

theorem generatedKeys_numberedPool (n : Nat) {events : List (PoolEvent toyPrekeys)}
    (h : (callsOf events).flatMap PoolCall.generated = []) :
    generatedKeys (numberedPool n) events = numbered n := by
  rw [generatedKeys, h, List.append_nil]
  exact (List.map_map ..).trans (List.map_id _)

theorem availableCount_numberedPool (n : Nat) : (numberedPool n).availableCount = n := by
  have hlen : (numbered n).length = n := (List.length_map _).trans List.length_range
  exact (List.length_map _).trans hlen

/-- A pool of one prekey too many is lost when it is replaced. -/
theorem not_run_numberedPool :
    (generatedKeys (numberedPool 134217725) [.replace, .call .availableCount]).Pairwise Unlike ∧
      (∃ log, run .w64 (ofPool (numberedPool 134217725)) [.call .availableCount] = .ok log ∧
        log.outputs = [.count 134217725]) ∧
      ∀ log, run .w64 (ofPool (numberedPool 134217725)) [.replace, .call .availableCount] ≠
        .ok log := by
  refine ⟨?_, ⟨_, run_calls .w64 _ [.availableCount], ?_⟩, ?_⟩
  · rw [generatedKeys_numberedPool _ rfl]
    exact Unlike.of_nodup (numbered_nodup (by decide))
  · change [PoolOutput.count (numberedPool 134217725).availableCount] = _
    rw [availableCount_numberedPool]
  · intro log hlog
    have hstoring := ((run_eq_ok_iff toyPrekeys_ideal.toSeed_fromSeed ⟨_, rfl⟩).mp hlog).2.1
    rw [ofPool, availableCount_numberedPool, mostStored] at hstoring
    omega

end PoolLog

end ProjectMesh.Crypto.Pqxdh
