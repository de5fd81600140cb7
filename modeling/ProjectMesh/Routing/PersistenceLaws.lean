import ProjectMesh.Routing.EngineLaws
import ProjectMesh.Routing.Persistence

namespace ProjectMesh.Routing

open ProjectMesh.Lib

variable {P : Primitives}

def Primitives.Opens (P : Primitives) : Prop :=
  ∀ key nonce associatedData plaintext ciphertext,
    P.chachaEncrypt key nonce associatedData plaintext = some ciphertext →
    P.chachaDecrypt key nonce associatedData ciphertext = some plaintext

theorem aeadOpen_of_aeadSeal (hopens : P.Opens) {key : Bytes 32} {nonce : Bytes 12}
    {associatedData plaintext sealed : List UInt8}
    (h : aeadSeal P key nonce associatedData plaintext = .ok sealed) :
    aeadOpen P key associatedData sealed = .ok plaintext := by
  rw [aeadSeal] at h
  split at h
  · next ciphertext hencrypt =>
    cases h
    have hdecrypt := hopens key nonce associatedData plaintext ciphertext hencrypt
    simp only [aeadOpen, Cursor.split_append, bind, Except.bind, hdecrypt]
    rfl
  · cases h

def Stage.writes : Stage → Bool
  | .begin | .openTable | .operation | .commit => true
  | .create | .entry => false

def Stage.reads : Stage → Bool
  | .begin | .openTable | .operation => true
  | .create | .entry | .commit => false

namespace EncryptedStore

variable {s t : EncryptedStore} {e r : Envelope P} {id : EnvelopeId}

def table (s : EncryptedStore) : Table := s.db.table

def next (s : EncryptedStore) (table : Table) : EncryptedStore :=
  { s with db := { table := table, faults := s.db.faults.tail } }

def drawn (s : EncryptedStore) : EncryptedStore := { s with nonces := s.nonces.tail }

theorem length_noNonce : (List.replicate 12 (0 : UInt8)).length = 12 := List.length_replicate

def nonce (s : EncryptedStore) : Bytes 12 := s.nonces.headD ⟨List.replicate 12 0, length_noNonce⟩

def WriteFails (s : EncryptedStore) : Prop := ∃ stage ∈ s.db.faults.head?.join, stage.writes = true

def ReadFails (s : EncryptedStore) : Prop := ∃ stage ∈ s.db.faults.head?.join, stage.reads = true

instance : Decidable s.WriteFails :=
  inferInstanceAs (Decidable (∃ stage ∈ s.db.faults.head?.join, stage.writes = true))

instance : Decidable s.ReadFails :=
  inferInstanceAs (Decidable (∃ stage ∈ s.db.faults.head?.join, stage.reads = true))

def record (P : Primitives) (s : EncryptedStore) (id : EnvelopeId) :
    Except MeshError (Option (Envelope P)) :=
  match s.table.lookup id.bytes.1 with
  | none => .ok none
  | some sealed => do
    let plaintext ← aeadOpen P s.masterKey id.bytes.1 sealed
    let envelope ← Envelope.fromBytes P plaintext
    return some envelope

def sealing (s : EncryptedStore) (e : Envelope P) : Except MeshError (List UInt8) :=
  aeadSeal P s.masterKey s.nonce e.id.bytes.1 e.toBytes

@[simp] theorem table_next {table : Table} : (s.next table).table = table := rfl

@[simp] theorem masterKey_next {table : Table} : (s.next table).masterKey = s.masterKey := rfl

@[simp] theorem table_drawn : s.drawn.table = s.table := rfl

@[simp] theorem masterKey_drawn : s.drawn.masterKey = s.masterKey := rfl

theorem call_run_some {text : Stage → Option String} {use : Table → Except MeshError α × Table}
    {why : String} (h : s.db.faults.head?.join.bind text = some why) :
    (call text use).run s = .error (.err (.malformed why)) (s.next s.table) := by
  have hdb : (Database.call text use).run s.db =
      .error (.err (.malformed why)) { s.db with faults := s.db.faults.tail } := by
    simp only [Database.call, EStateM.run_bind, EStateM.run_get, h, EStateM.run_set,
      Method.run_fail]
  exact Method.run_zoom_error.mpr ⟨_, hdb, rfl⟩

theorem call_run_none {text : Stage → Option String} {use : Table → Except MeshError α × Table}
    {a : α} (h : s.db.faults.head?.join.bind text = none) (huse : (use s.table).1 = .ok a) :
    (call text use).run s = .ok a (s.next (use s.table).2) := by
  have hdb : (Database.call text use).run s.db =
      .ok a { table := (use s.table).2, faults := s.db.faults.tail } := by
    have huse' : (use s.db.table).1 = .ok a := huse
    simp only [Database.call, EStateM.run_bind, EStateM.run_get, h, EStateM.run_set, huse',
      Method.run_ofExcept_ok]
    rfl
  exact Method.run_zoom_ok.mpr ⟨_, hdb, rfl⟩

theorem call_ok {text : Stage → Option String} {use : Table → Except MeshError α × Table} {a : α}
    (h : (call text use).run s = .ok a t) :
    (use s.table).1 = .ok a ∧ t.table = (use s.table).2 := by
  obtain ⟨db, hdb, rfl⟩ := Method.run_zoom_ok.mp h
  simp only [Database.call, EStateM.run_bind, EStateM.run_get] at hdb
  split at hdb
  · cases hdb
  · cases hresult : (use s.db.table).1 with
    | error err =>
      simp only [hresult] at hdb
      cases hdb
    | ok b =>
      simp only [hresult] at hdb
      cases hdb
      exact ⟨hresult, rfl⟩

section Transactions

variable {text : Stage → Option String} (fails : Stage → Bool)

theorem bind_text_iff (htext : ∀ stage, (text stage).isSome = fails stage) :
    (∃ why, s.db.faults.head?.join.bind text = some why) ↔
      ∃ stage ∈ s.db.faults.head?.join, fails stage = true := by
  constructor
  · rintro ⟨why, h⟩
    obtain ⟨stage, hstage, hwhy⟩ := Option.bind_eq_some_iff.mp h
    refine ⟨stage, hstage, ?_⟩
    rw [← htext, hwhy]
    rfl
  · rintro ⟨stage, hstage, hfails⟩
    rw [← htext, Option.isSome_iff_exists] at hfails
    obtain ⟨why, hwhy⟩ := hfails
    exact ⟨why, Option.bind_eq_some_iff.mpr ⟨stage, hstage, hwhy⟩⟩

theorem call_run_fails {use : Table → Except MeshError α × Table}
    (htext : ∀ stage, (text stage).isSome = fails stage)
    (h : ∃ stage ∈ s.db.faults.head?.join, fails stage = true) :
    ∃ err, (call text use).run s = .error (.err err) (s.next s.table) := by
  obtain ⟨why, hwhy⟩ := (bind_text_iff fails htext).mpr h
  exact ⟨_, call_run_some hwhy⟩

theorem call_run_ok {use : Table → Except MeshError α × Table} {a : α}
    (htext : ∀ stage, (text stage).isSome = fails stage)
    (h : ¬ ∃ stage ∈ s.db.faults.head?.join, fails stage = true)
    (huse : (use s.table).1 = .ok a) :
    (call text use).run s = .ok a (s.next (use s.table).2) := by
  refine call_run_none (Option.eq_none_iff_forall_ne_some.mpr fun why hwhy => ?_) huse
  exact h ((bind_text_iff fails htext).mp ⟨why, hwhy⟩)

end Transactions

theorem remove_ok (h : ¬ s.WriteFails) (id : EnvelopeId) :
    (remove id).run s = .ok () (s.next (s.table.erase id.bytes.1)) := by
  refine call_run_ok Stage.writes (fun stage => ?_) h rfl
  cases stage <;> rfl

theorem remove_error (h : s.WriteFails) (id : EnvelopeId) :
    ∃ err, (remove id).run s = .error (.err err) (s.next s.table) := by
  refine call_run_fails Stage.writes (fun stage => ?_) h
  cases stage <;> rfl

theorem put_unsealed {err : MeshError} (h : s.sealing e = .error err) :
    (put P e).run s = .error (.err err) s.drawn := by
  have hseal : aeadSeal P s.masterKey s.nonce e.id.bytes.1 e.toBytes = .error err := h
  have hrun : (put P e).run s =
      (Method.ofExcept (aeadSeal P s.masterKey s.nonce e.id.bytes.1 e.toBytes) >>= fun sealed =>
        call _ (fun table => (.ok (), table.insert e.id.bytes.1 sealed))).run s.drawn := rfl
  rw [hrun, EStateM.run_bind, hseal, Method.run_ofExcept_error]

theorem put_sealed {sealed : List UInt8} (h : s.sealing e = .ok sealed) :
    ∃ text : Stage → Option String, (∀ stage, (text stage).isSome = stage.writes) ∧
      (put P e).run s =
        (call text fun table => (.ok (), table.insert e.id.bytes.1 sealed)).run s.drawn := by
  have hseal : aeadSeal P s.masterKey s.nonce e.id.bytes.1 e.toBytes = .ok sealed := h
  have hrun : (put P e).run s =
      (Method.ofExcept (aeadSeal P s.masterKey s.nonce e.id.bytes.1 e.toBytes) >>= fun sealed =>
        call _ (fun table => (.ok (), table.insert e.id.bytes.1 sealed))).run s.drawn := rfl
  rw [EStateM.run_bind, hseal, Method.run_ofExcept_ok] at hrun
  exact ⟨_, fun stage => by cases stage <;> rfl, hrun⟩

theorem put_ok {sealed : List UInt8} (h : ¬ s.WriteFails) (hseal : s.sealing e = .ok sealed) :
    (put P e).run s = .ok () (s.drawn.next (s.table.insert e.id.bytes.1 sealed)) := by
  obtain ⟨text, htext, hrun⟩ := put_sealed hseal
  have hfails : ¬ s.drawn.WriteFails := h
  rw [hrun]
  exact call_run_ok Stage.writes htext hfails rfl

theorem put_error {sealed : List UInt8} (h : s.WriteFails) (hseal : s.sealing e = .ok sealed) :
    ∃ err, (put P e).run s = .error (.err err) (s.drawn.next s.table) := by
  obtain ⟨text, htext, hrun⟩ := put_sealed hseal
  have hfails : s.drawn.WriteFails := h
  rw [hrun]
  exact call_run_fails Stage.writes htext hfails

theorem get_error (P : Primitives) (h : s.ReadFails) (id : EnvelopeId) :
    ∃ err, (EncryptedStore.get P id).run s = .error (.err err) (s.next s.table) := by
  exact ⟨_, Method.run_bind_error.mpr (.inl (call_run_fails Stage.reads
    (fun stage => by cases stage <;> rfl) h).choose_spec)⟩

theorem get_ok (h : ¬ s.ReadFails) (id : EnvelopeId) :
    (EncryptedStore.get P id).run s =
      match s.record P id with
      | .ok r => .ok r (s.next s.table)
      | .error err => .error (.err err) (s.next s.table) := by
  rw [EncryptedStore.get, EStateM.run_bind, call_run_ok Stage.reads
    (fun stage => by cases stage <;> rfl) h rfl, record]
  dsimp only
  cases s.table.lookup id.bytes.1 with
  | none => rfl
  | some sealed =>
    dsimp only
    have hrun : (do
          let self ← (MonadState.get : Method MeshError EncryptedStore EncryptedStore)
          let plaintext ← Method.ofExcept (aeadOpen P self.masterKey id.bytes.1 sealed)
          let envelope ← Method.ofExcept (Envelope.fromBytes P plaintext)
          return some envelope : Method MeshError EncryptedStore (Option (Envelope P))).run
            (s.next s.table) =
        (Method.ofExcept (aeadOpen P s.masterKey id.bytes.1 sealed) >>= fun plaintext => do
          let envelope ← Method.ofExcept (Envelope.fromBytes P plaintext)
          return some envelope : Method MeshError EncryptedStore (Option (Envelope P))).run
            (s.next s.table) := rfl
    rw [hrun, EStateM.run_bind]
    cases aeadOpen P s.masterKey id.bytes.1 sealed with
    | error err => rfl
    | ok plaintext =>
      rw [Method.run_ofExcept_ok]
      dsimp only
      rw [EStateM.run_bind]
      cases hparse : Envelope.fromBytes P plaintext with
      | error err =>
        simp only [bind, Except.bind, hparse]
        rfl
      | ok envelope =>
        simp only [bind, Except.bind, hparse]
        rfl

section Sound

/-- No call of the disk is due to fail. -/
def Sound (s : EncryptedStore) : Prop := s.db.faults = []

def holding (s : EncryptedStore) (table : Table) : EncryptedStore :=
  { s with db := { table := table, faults := [] } }

def idsOf (table : Table) : List EnvelopeId :=
  (sortedKeys table).filterMap fun key => if h : key.length = 32 then some ⟨⟨key, h⟩⟩ else none

@[simp] theorem table_holding {table : Table} : (s.holding table).table = table := rfl

@[simp] theorem masterKey_holding {table : Table} : (s.holding table).masterKey = s.masterKey := rfl

@[simp] theorem holding_holding {table table' : Table} :
    (s.holding table).holding table' = s.holding table' := rfl

theorem sound_holding {table : Table} : (s.holding table).Sound := rfl

theorem Sound.drawn (h : s.Sound) : s.drawn.Sound := h

theorem Sound.next_eq (h : s.Sound) (table : Table) : s.next table = s.holding table := by
  have hfaults : s.db.faults = [] := h
  rw [next, holding, hfaults]
  rfl

theorem Sound.not_writeFails (h : s.Sound) : ¬ s.WriteFails := by
  have hfaults : s.db.faults = [] := h
  rintro ⟨stage, hstage, -⟩
  rw [hfaults] at hstage
  cases hstage

theorem Sound.not_readFails (h : s.Sound) : ¬ s.ReadFails := by
  have hfaults : s.db.faults = [] := h
  rintro ⟨stage, hstage, -⟩
  rw [hfaults] at hstage
  cases hstage

theorem Sound.call_run (h : s.Sound) {text : Stage → Option String}
    {use : Table → Except MeshError α × Table} {a : α} (huse : (use s.table).1 = .ok a) :
    (call text use).run s = .ok a (s.holding (use s.table).2) := by
  have hfaults : s.db.faults = [] := h
  have hnone : s.db.faults.head?.join.bind text = none := by
    rw [hfaults]
    rfl
  rw [call_run_none hnone huse, h.next_eq]

theorem Sound.init_run (h : s.Sound) : init.run s = .ok () (s.holding s.table) := by
  rw [init, EStateM.run_bind, h.call_run rfl]
  exact sound_holding.call_run rfl

theorem Sound.allIds_run (h : s.Sound) :
    allIds.run s = .ok (idsOf s.table) (s.holding s.table) := h.call_run rfl

theorem Sound.remove_run (h : s.Sound) (id : EnvelopeId) :
    (remove id).run s = .ok () (s.holding (s.table.erase id.bytes.1)) := by
  rw [remove_ok h.not_writeFails, h.next_eq]

theorem Sound.put_run (h : s.Sound) {sealed : List UInt8} (hseal : s.sealing e = .ok sealed) :
    (put P e).run s = .ok () (s.drawn.holding (s.table.insert e.id.bytes.1 sealed)) := by
  rw [put_ok h.not_writeFails hseal, h.drawn.next_eq]

theorem Sound.get_run (h : s.Sound) (id : EnvelopeId) :
    (EncryptedStore.get P id).run s =
      match s.record P id with
      | .ok r => .ok r (s.holding s.table)
      | .error err => .error (.err err) (s.holding s.table) := by
  rw [get_ok h.not_readFails, h.next_eq]

end Sound

section Records

theorem key_injective {id id' : EnvelopeId} (h : id.bytes.1 = id'.bytes.1) : id = id' := by
  obtain ⟨⟨bytes, hbytes⟩⟩ := id
  obtain ⟨⟨bytes', hbytes'⟩⟩ := id'
  cases h
  rfl

theorem record_congr (hkey : t.masterKey = s.masterKey)
    (hlookup : t.table.lookup id.bytes.1 = s.table.lookup id.bytes.1) :
    t.record P id = s.record P id := by
  rw [record, record, hkey, hlookup]

theorem record_absent (h : s.table.lookup id.bytes.1 = none) : s.record P id = .ok none := by
  rw [record, h]

theorem record_eq_none_iff : s.record P id = .ok none ↔ id.bytes.1 ∉ s.table := by
  rw [← AList.lookup_eq_none]
  constructor
  · intro h
    rw [record] at h
    split at h
    · next hlookup => exact hlookup
    · obtain ⟨plaintext, -, h⟩ := bind_eq_ok.mp h
      obtain ⟨envelope, -, h⟩ := bind_eq_ok.mp h
      cases h
  · exact record_absent

theorem mem_sortedKeys {table : Table} {key : List UInt8} :
    key ∈ sortedKeys table ↔ key ∈ table := by
  rw [sortedKeys, List.mem_insertionSort, AList.mem_keys]

theorem mem_idsOf {table : Table} : id ∈ idsOf table ↔ id.bytes.1 ∈ table := by
  rw [idsOf, List.mem_filterMap]
  constructor
  · rintro ⟨key, hkey, hid⟩
    split at hid
    · cases hid
      exact mem_sortedKeys.mp hkey
    · cases hid
  · exact fun h => ⟨_, mem_sortedKeys.mpr h, dif_pos id.bytes.2⟩

theorem nodup_idsOf (table : Table) : (idsOf table).Nodup := by
  have hsorted : (sortedKeys table).Nodup :=
    (List.perm_insertionSort _ _).nodup_iff.mpr table.keys_nodup
  refine hsorted.filterMap ?_
  intro key key' id hid hid'
  split at hid
  · split at hid'
    · cases hid
      cases hid'
      rfl
    · cases hid'
  · cases hid

end Records

end EncryptedStore

namespace DurableStore

section Reload

variable {d : DurableStore P} {disk : EncryptedStore} {memory : Store P} {now : UInt64}
  {id victim : EnvelopeId} {x : Envelope P} {outcome : Accept}

theorem reload_unreadable {err : MeshError}
    (h : (EncryptedStore.get P id).run d.disk = .error (.err err) disk) :
    (reload now id).run d =
      .ok () ⟨d.memory, Method.after ((EncryptedStore.remove id).run disk)⟩ := by
  rw [reload, EStateM.run_bind, EStateM.run_get]
  dsimp only
  rw [h]
  rfl

theorem reload_absent (h : (EncryptedStore.get P id).run d.disk = .ok none disk) :
    (reload now id).run d = .ok () ⟨d.memory, disk⟩ := by
  rw [reload, EStateM.run_bind, EStateM.run_get]
  dsimp only
  rw [h]
  rfl

theorem reload_new (h : (EncryptedStore.get P id).run d.disk = .ok (some x) disk)
    (hresult : d.memory.accept x now = ((.new, none), memory)) :
    (reload now id).run d = .ok () ⟨memory, disk⟩ := by
  rw [reload, EStateM.run_bind, EStateM.run_get]
  dsimp only
  rw [h]
  simp only [hresult]
  rfl

theorem reload_turnedAway (h : (EncryptedStore.get P id).run d.disk = .ok (some x) disk)
    (hresult : d.memory.accept x now = ((outcome, none), memory)) (hne : outcome ≠ .new) :
    (reload now id).run d = (onDisk (EncryptedStore.remove id)).run ⟨memory, disk⟩ := by
  rw [reload, EStateM.run_bind, EStateM.run_get]
  dsimp only
  rw [h]
  simp only [hresult, EStateM.run_bind, EStateM.run_set, if_pos hne]

theorem reload_evicting (h : (EncryptedStore.get P id).run d.disk = .ok (some x) disk)
    (hresult : d.memory.accept x now = ((.new, some victim), memory)) :
    (reload now id).run d = (onDisk (EncryptedStore.remove victim)).run ⟨memory, disk⟩ := by
  rw [reload, EStateM.run_bind, EStateM.run_get]
  dsimp only
  rw [h]
  simp only [hresult, EStateM.run_bind, EStateM.run_set]
  cases (onDisk (EncryptedStore.remove victim)).run ⟨memory, disk⟩ <;> rfl

end Reload

end DurableStore

end ProjectMesh.Routing
