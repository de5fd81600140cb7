import ProjectMesh.Lib.Refinement
import ProjectMesh.Routing.FfiEncryptedStore
import ProjectMesh.Routing.Inbox

namespace ProjectMesh.Routing

open ProjectMesh.Lib
open ProjectMesh.Crypto.FfiPrekey

variable {P : Primitives}

section Spec

inductive Query (P : Primitives) : Type
  | put (x : Envelope P)
  | get (id : EnvelopeId)
  | remove (id : EnvelopeId)
  | len
  | allIds

def idQuery (idHex : List Char) (query : EnvelopeId → Query P) :
    Except (Fault FfiError) (Query P) :=
  match hexToId idHex with
  | .ok id => .ok (query id)
  | .error (.err ()) => .error (.err (.malformed "invalid id hex"))
  | .error .panic => .error .panic

def StoreCall.query (P : Primitives) : StoreCall → Except (Fault FfiError) (Query P)
  | .put envelopeBytes =>
    match Envelope.fromBytes P envelopeBytes with
    | .ok x => .ok (.put x)
    | .error err => .error (.err (.ofMeshError err))
  | .getHex idHex => idQuery idHex .get
  | .removeHex idHex => idQuery idHex .remove
  | .len => .ok .len
  | .allIdsHex => .ok .allIds

def Query.text : Query P → Stage → Option String
  | .put _ => fun
    | .begin => some "failed to begin write transaction"
    | .openTable => some "failed to open envelopes table"
    | .operation => some "failed to insert envelope"
    | .commit => some "failed to commit envelope insert"
    | _ => none
  | .get _ => fun
    | .begin => some "failed to begin read transaction"
    | .openTable => some "failed to open envelopes table"
    | .operation => some "failed to read envelope"
    | _ => none
  | .remove _ => fun
    | .begin => some "failed to begin write transaction"
    | .openTable => some "failed to open envelopes table"
    | .operation => some "failed to remove envelope"
    | .commit => some "failed to commit envelope removal"
    | _ => none
  | .len => fun
    | .begin => some "failed to begin read transaction"
    | .openTable => some "failed to open envelopes table"
    | .operation => some "failed to count envelopes"
    | _ => none
  | .allIds => fun
    | .begin => some "failed to begin read transaction"
    | .openTable => some "failed to open envelopes table"
    | .operation => some "failed to iterate envelopes"
    | .entry => some "failed to read entry"
    | _ => none

def createText : Stage → Option String
  | .create => some "failed to open database file"
  | _ => none

def initText : Stage → Option String
  | .begin => some "failed to begin write transaction"
  | .openTable => some "failed to open envelopes table"
  | .commit => some "failed to commit table creation"
  | _ => none

/-- A map of envelopes with the keys they were put under.  `faults` is where its next
operations fail, and `key` what it is open with. -/
structure Vault (P : Primitives) where
  faults : List (Option Stage)
  key : Option (Bytes 32)
  record : EnvelopeId → Option (Bytes 32 × Envelope P)

namespace Vault

def failure (v : Vault P) (text : Stage → Option String) : Option String :=
  v.faults.head?.join.bind text

def spent (v : Vault P) : Vault P := { v with faults := v.faults.tail }

def closed (v : Vault P) : Vault P := { v with key := none }

structure Listing (v : Vault P) (ids : List EnvelopeId) : Prop where
  nodup : ids.Nodup
  sorted : ids.Pairwise fun id id' => bytesLe id.bytes.1 id'.bytes.1 = true
  mem_iff : ∀ id, id ∈ ids ↔ (v.record id).isSome

def foreign (P : Primitives) (key : Bytes 32) (id : EnvelopeId) (sealed : List UInt8) :
    Except (Fault FfiError) StoreAnswer :=
  match aeadOpen P key id.bytes.1 sealed >>= Envelope.fromBytes P with
  | .ok x => .ok (.envelope (some x.toBytes))
  | .error err => .error (.err (.ofMeshError err))

inductive Answers (key : Bytes 32) (v : Vault P) :
    Query P → Except (Fault FfiError) StoreAnswer → Vault P → Prop
  | failed {query why} : v.failure query.text = some why →
    Answers key v query (.error (.err (.malformed why))) v.spent
  | unsealed {x nonce err} : aeadSeal P key nonce x.id.bytes.1 x.toBytes = .error err →
    Answers key v (.put x) (.error (.err (.ofMeshError err))) v
  | put {x} : v.failure (Query.put x).text = none →
    Answers key v (.put x) (.ok .done)
      { v.spent with record := Function.update v.record x.id (some (key, x)) }
  | remove {id} : v.failure (Query.remove (P := P) id).text = none →
    Answers key v (.remove id) (.ok .done)
      { v.spent with record := Function.update v.record id none }
  | absent {id} : v.failure (Query.get (P := P) id).text = none → v.record id = none →
    Answers key v (.get id) (.ok (.envelope none)) v.spent
  | present {id x} : v.failure (Query.get (P := P) id).text = none →
    v.record id = some (key, x) →
    Answers key v (.get id) (.ok (.envelope (some x.toBytes))) v.spent
  | foreign {id key' x nonce sealed} : v.failure (Query.get (P := P) id).text = none →
    v.record id = some (key', x) → key' ≠ key →
    aeadSeal P key' nonce id.bytes.1 x.toBytes = .ok sealed →
    Answers key v (.get id) (Vault.foreign P key id sealed) v.spent
  | len {ids} : v.failure (Query.len (P := P)).text = none → v.Listing ids →
    Answers key v .len (.ok (.count (.ofNat ids.length))) v.spent
  | allIds {ids} : v.failure (Query.allIds (P := P)).text = none → v.Listing ids →
    Answers key v .allIds (.ok (.ids (ids.map EnvelopeId.toHex))) v.spent

inductive Serve (v : Vault P) :
    StoreEvent → Option (Except (Fault FfiError) StoreAnswer) → Vault P → Prop
  | badKey {nonces masterKey} : masterKey.length ≠ 32 →
    Serve v (.restart nonces masterKey)
      (some (.error (.err (.malformed "master_key must be 32 bytes")))) v.closed
  | notCreated {nonces masterKey why} : masterKey.length = 32 →
    v.failure createText = some why →
    Serve v (.restart nonces masterKey) (some (.error (.err (.malformed why)))) v.spent.closed
  | noTable {nonces masterKey why} : masterKey.length = 32 → v.failure createText = none →
    v.spent.failure initText = some why →
    Serve v (.restart nonces masterKey) (some (.error (.err (.malformed why))))
      v.spent.spent.closed
  | opened {nonces masterKey} (h : masterKey.length = 32) : v.failure createText = none →
    v.spent.failure initText = none →
    Serve v (.restart nonces masterKey) (some (.ok .opened))
      { v.spent.spent with key := some ⟨masterKey, h⟩ }
  | idle {c} : v.key = none → Serve v (.call c) none v
  | refused {c key fault} : v.key = some key → c.query P = .error fault →
    Serve v (.call c) (some (.error fault)) v
  | answered {c key query answer v'} : v.key = some key → c.query P = .ok query →
    Answers key v query answer v' → Serve v (.call c) (some answer) v'

end Vault

end Spec

section Holds

variable {table : Table} {id id' : EnvelopeId} {x : Envelope P} {key : Bytes 32}
  {record : EnvelopeId → Option (Bytes 32 × Envelope P)}

inductive Filed (P : Primitives) (table : Table) (id : EnvelopeId) :
    Option (Bytes 32 × Envelope P) → Prop
  | absent : table.lookup id.bytes.1 = none → Filed P table id none
  | present {key x nonce sealed} : Envelope.fromBytes P x.toBytes = .ok x →
    aeadSeal P key nonce id.bytes.1 x.toBytes = .ok sealed →
    table.lookup id.bytes.1 = some sealed → Filed P table id (some (key, x))

structure Holds (table : Table) (record : EnvelopeId → Option (Bytes 32 × Envelope P)) :
    Prop where
  filed : ∀ id, Filed P table id (record id)
  length_key : ∀ key ∈ table, key.length = 32

structure StoreProcess.Stands (process : StoreProcess) (v : Vault P) : Prop where
  holds : Holds process.file.table v.record
  faults : process.file.faults = v.faults
  key : process.key = v.key

theorem Filed.congr {table' : Table} {found : Option (Bytes 32 × Envelope P)}
    (h : Filed P table id found)
    (hlookup : table'.lookup id.bytes.1 = table.lookup id.bytes.1) : Filed P table' id found := by
  cases h with
  | absent habsent => exact .absent (hlookup.trans habsent)
  | present hparse hseal hpresent => exact .present hparse hseal (hlookup.trans hpresent)

theorem Filed.mem_iff {found : Option (Bytes 32 × Envelope P)} (h : Filed P table id found) :
    id.bytes.1 ∈ table ↔ found.isSome := by
  rw [← AList.lookup_isSome]
  cases h with
  | absent habsent => rw [habsent, Option.isSome_none, Option.isSome_none]
  | present _ _ hpresent => rw [hpresent, Option.isSome_some, Option.isSome_some]

theorem Holds.insert (h : Holds table record) {nonce : Bytes 12} {sealed : List UInt8}
    (hparse : Envelope.fromBytes P x.toBytes = .ok x)
    (hseal : aeadSeal P key nonce x.id.bytes.1 x.toBytes = .ok sealed) :
    Holds (table.insert x.id.bytes.1 sealed) (Function.update record x.id (some (key, x))) where
  filed id := by
    by_cases hid : id = x.id
    · subst hid
      rw [Function.update_self]
      exact .present hparse hseal (AList.lookup_insert _)
    · rw [Function.update_of_ne hid]
      refine (h.filed id).congr (Assoc.lookup_insert_of_ne fun heq => hid ?_)
      exact EncryptedStore.key_injective heq
  length_key key hkey := by
    rcases AList.mem_insert _ |>.mp hkey with rfl | hkey
    · exact x.id.bytes.2
    · exact h.length_key key hkey

theorem Holds.erase (h : Holds table record) (id : EnvelopeId) :
    Holds (table.erase id.bytes.1) (Function.update record id none) where
  filed id' := by
    by_cases hid : id' = id
    · subst hid
      rw [Function.update_self]
      exact .absent (AList.lookup_erase _ _)
    · rw [Function.update_of_ne hid]
      refine (h.filed id').congr (Assoc.lookup_erase_of_ne fun heq => hid ?_)
      exact EncryptedStore.key_injective heq
  length_key key hkey := h.length_key key (AList.mem_erase.mp hkey).2

theorem Holds.listing {v : Vault P} (h : Holds table v.record) :
    v.Listing (EncryptedStore.idsOf table) where
  nodup := EncryptedStore.nodup_idsOf table
  sorted := by
    refine List.Pairwise.filterMap _ ?_ (List.pairwise_insertionSort _ _)
    intro key key' hle id hid id' hid'
    split at hid
    · split at hid'
      · cases hid
        cases hid'
        exact hle
      · cases hid'
    · cases hid
  mem_iff id := EncryptedStore.mem_idsOf.trans (h.filed id).mem_iff

theorem Holds.length_idsOf (h : Holds table record) :
    (EncryptedStore.idsOf table).length = table.size := by
  have hkeys : (EncryptedStore.idsOf table).map (·.bytes.1) = EncryptedStore.sortedKeys table := by
    rw [EncryptedStore.idsOf, List.map_filterMap]
    refine (List.filterMap_congr fun key hkey => ?_).trans List.filterMap_some
    rw [dif_pos (h.length_key key (EncryptedStore.mem_sortedKeys.mp hkey))]
    rfl
  rw [← List.length_map (·.bytes.1), hkeys, EncryptedStore.sortedKeys, List.length_insertionSort,
    Assoc.size, AList.keys, List.keys, List.length_map]

end Holds

section Queries

def Query.run : Query P → Method MeshError EncryptedStore StoreAnswer
  | .put x => do
    EncryptedStore.put P x
    return .done
  | .get id => do
    let envelope ← EncryptedStore.get P id
    return .envelope (envelope.map Envelope.toBytes)
  | .remove id => do
    EncryptedStore.remove id
    return .done
  | .len => do
    let n ← EncryptedStore.len
    return .count (.ofNat n)
  | .allIds => do
    let ids ← EncryptedStore.allIds
    return .ids (ids.map EnvelopeId.toHex)

variable {s : EncryptedStore} {v : Vault P} {id : EnvelopeId} {x : Envelope P} {c : StoreCall}
  {query : Query P} {why : String}

theorem perform_run (c : StoreCall) (s : EncryptedStore) :
    (FfiEncryptedStore.perform P c).run s =
      match c.query P with
      | .ok query => (Method.mapErr .ofMeshError query.run).run s
      | .error fault => .error fault s := by
  cases c with
  | put envelopeBytes =>
    rw [StoreCall.query, FfiEncryptedStore.perform, FfiEncryptedStore.put]
    cases Envelope.fromBytes P envelopeBytes with
    | error err => rfl
    | ok x =>
      dsimp only
      rw [Query.run, Method.mapErr_bind]
      rfl
  | getHex idHex =>
    rw [StoreCall.query, FfiEncryptedStore.perform, FfiEncryptedStore.getHex, idQuery,
      FfiEncryptedStore.parseId]
    cases hexToId idHex with
    | ok id =>
      dsimp only
      rw [Query.run, Method.mapErr_bind, pure_bind, bind_assoc]
      rfl
    | error fault => cases fault <;> rfl
  | removeHex idHex =>
    rw [StoreCall.query, FfiEncryptedStore.perform, FfiEncryptedStore.removeHex, idQuery,
      FfiEncryptedStore.parseId]
    cases hexToId idHex with
    | ok id =>
      dsimp only
      rw [Query.run, Method.mapErr_bind]
      rfl
    | error fault => cases fault <;> rfl
  | len =>
    rw [FfiEncryptedStore.perform, FfiEncryptedStore.len, StoreCall.query, bind_assoc]
    dsimp only
    rw [Query.run, Method.mapErr_bind]
    rfl
  | allIdsHex =>
    rw [FfiEncryptedStore.perform, FfiEncryptedStore.allIdsHex, StoreCall.query, bind_assoc]
    dsimp only
    rw [Query.run, Method.mapErr_bind]
    rfl

/-- A query on an open store is answered as the vault answers it, and leaves what that leaves. -/
def Query.Answered (s : EncryptedStore) (v : Vault P) (query : Query P) : Prop :=
  ∃ v', Vault.Answers s.masterKey v query
      (Method.seen ((Method.mapErr FfiError.ofMeshError query.run).run s)) v' ∧
    StoreProcess.Stands
      (.opened (Method.after ((Method.mapErr FfiError.ofMeshError query.run).run s))) v'

theorem Query.Answered.of_ok {answer : StoreAnswer} {t : EncryptedStore} {v' : Vault P}
    (hrun : query.run.run s = .ok answer t)
    (hanswer : Vault.Answers s.masterKey v query (.ok answer) v')
    (hstands : StoreProcess.Stands (.opened t) v') : query.Answered s v := by
  rw [Query.Answered, Method.run_mapErr_ok hrun]
  exact ⟨v', hanswer, hstands⟩

theorem Query.Answered.of_error {err : MeshError} {t : EncryptedStore} {v' : Vault P}
    (hrun : query.run.run s = .error (.err err) t)
    (hanswer : Vault.Answers s.masterKey v query (.error (.err (.ofMeshError err))) v')
    (hstands : StoreProcess.Stands (.opened t) v') : query.Answered s v := by
  rw [Query.Answered, Method.run_mapErr_err hrun]
  exact ⟨v', hanswer, hstands⟩

theorem StoreCall.parsed_of_query (h : c.query P = .ok (.put x)) :
    Envelope.fromBytes P x.toBytes = .ok x := by
  have hid : ∀ idHex (f : EnvelopeId → Query P), idQuery idHex f = .ok (.put x) →
      ∃ id, f id = .put x := by
    intro idHex f h
    rw [idQuery] at h
    split at h
    · next id _ => exact ⟨id, Except.ok.inj h⟩
    · cases h
    · cases h
  cases c with
  | put envelopeBytes =>
    rw [query] at h
    split at h
    · next hparse =>
      cases h
      exact Envelope.fromBytes_again hparse
    · cases h
  | getHex idHex =>
    obtain ⟨id, h⟩ := hid _ _ h
    cases h
  | removeHex idHex =>
    obtain ⟨id, h⟩ := hid _ _ h
    cases h
  | len => cases h
  | allIdsHex => cases h

theorem EncryptedStore.record_present {sealed : List UInt8}
    (h : s.table.lookup id.bytes.1 = some sealed) :
    s.record P id =
      some <$> (aeadOpen P s.masterKey id.bytes.1 sealed >>= Envelope.fromBytes P) := by
  rw [record, h]
  dsimp only
  cases aeadOpen P s.masterKey id.bytes.1 sealed <;> rfl

theorem EncryptedStore.put_sealed_run {sealed : List UInt8} (h : s.sealing x = .ok sealed) :
    (EncryptedStore.put P x).run s = (call (Query.put x).text fun table =>
      (.ok (), table.insert x.id.bytes.1 sealed)).run s.drawn := by
  have hseal : aeadSeal P s.masterKey s.nonce x.id.bytes.1 x.toBytes = .ok sealed := h
  have hrun : (put P x).run s =
      (Method.ofExcept (aeadSeal P s.masterKey s.nonce x.id.bytes.1 x.toBytes) >>= fun sealed =>
        call (Query.put x).text fun table =>
          (.ok (), table.insert x.id.bytes.1 sealed)).run s.drawn := rfl
  rw [hrun, EStateM.run_bind, hseal, Method.run_ofExcept_ok]

namespace StoreProcess.Stands

variable {text : Stage → Option String} {table : Table}
  {record : EnvelopeId → Option (Bytes 32 × Envelope P)}

theorem next (h : Stands (.opened s) v) (hholds : Holds table record) :
    Stands (.opened (s.next table)) { v.spent with record := record } where
  holds := hholds
  faults := congrArg List.tail h.faults
  key := h.key

theorem spent (h : Stands (.opened s) v) : Stands (.opened (s.next s.table)) v.spent :=
  h.next h.holds

theorem drawn (h : Stands (.opened s) v) : Stands (.opened s.drawn) v where
  holds := h.holds
  faults := h.faults
  key := h.key

theorem failure_eq (h : Stands (.opened s) v) (text : Stage → Option String) :
    s.db.faults.head?.join.bind text = v.failure text := by
  have hfaults : s.db.faults = v.faults := h.faults
  rw [hfaults, Vault.failure]

theorem answered_call {t : EncryptedStore} {α : Type}
    {use : Table → Except MeshError α × Table} {g : α → StoreAnswer} {a : α}
    (h : Stands (.opened t) v)
    (hrun : query.run.run s =
      (EncryptedStore.call query.text use >>= fun a => pure (g a)).run t)
    (huse : (use t.table).1 = .ok a) (hholds : Holds (use t.table).2 record)
    (hanswer : v.failure query.text = none → Vault.Answers s.masterKey v query (.ok (g a))
      { v.spent with record := record }) : query.Answered s v := by
  cases hwhy : v.failure query.text with
  | some why =>
    have hcall : (EncryptedStore.call query.text use).run t =
        .error (.err (.malformed why)) (t.next t.table) :=
      EncryptedStore.call_run_some ((h.failure_eq _).trans hwhy)
    exact .of_error (hrun.trans (Method.run_bind_error.mpr (.inl hcall))) (.failed hwhy) h.spent
  | none =>
    have hcall := EncryptedStore.call_run_none ((h.failure_eq _).trans hwhy) huse
    exact .of_ok (hrun.trans (Method.run_bind_ok.mpr ⟨a, _, hcall, rfl⟩)) (hanswer hwhy)
      (h.next hholds)

theorem answered_put (h : Stands (.opened s) v) (hparse : Envelope.fromBytes P x.toBytes = .ok x) :
    (Query.put x).Answered s v := by
  cases hseal : s.sealing x with
  | error err =>
    have hrun : (Query.put x).run.run s = .error (.err err) s.drawn :=
      Method.run_bind_error.mpr (.inl (EncryptedStore.put_unsealed hseal))
    exact .of_error hrun (.unsealed hseal) h.drawn
  | ok sealed =>
    have hrun : (Query.put x).run.run s =
        (EncryptedStore.call (Query.put x).text (fun table => (.ok (),
          table.insert x.id.bytes.1 sealed)) >>= fun _ => pure .done).run s.drawn := by
      rw [Query.run, EStateM.run_bind, EncryptedStore.put_sealed_run hseal]
      rfl
    exact h.drawn.answered_call hrun rfl (h.holds.insert hparse hseal) .put

theorem answered_remove (h : Stands (.opened s) v) (id : EnvelopeId) :
    (Query.remove (P := P) id).Answered s v :=
  h.answered_call rfl rfl (h.holds.erase id) .remove

theorem answered_len (h : Stands (.opened s) v) : (Query.len (P := P)).Answered s v := by
  refine h.answered_call rfl rfl h.holds fun hwhy => ?_
  have hlen : s.table.size = (EncryptedStore.idsOf s.table).length := h.holds.length_idsOf.symm
  rw [hlen]
  exact .len hwhy h.holds.listing

theorem answered_allIds (h : Stands (.opened s) v) : (Query.allIds (P := P)).Answered s v :=
  h.answered_call rfl rfl h.holds fun hwhy => .allIds hwhy h.holds.listing

theorem answered_present (hopens : P.Opens) (h : Stands (.opened s) v) {key : Bytes 32}
    {nonce : Bytes 12} {sealed : List UInt8} (hreads : ¬ s.ReadFails)
    (hwhy : v.failure (Query.get (P := P) id).text = none) (hfound : v.record id = some (key, x))
    (hparse : Envelope.fromBytes P x.toBytes = .ok x)
    (hseal : aeadSeal P key nonce id.bytes.1 x.toBytes = .ok sealed)
    (hlookup : s.table.lookup id.bytes.1 = some sealed) :
    (Query.get (P := P) id).Answered s v := by
  have hget := EncryptedStore.get_ok (P := P) hreads id
  rw [EncryptedStore.record_present hlookup] at hget
  by_cases hkey : key = s.masterKey
  · subst hkey
    have hread : aeadOpen P s.masterKey id.bytes.1 sealed >>= Envelope.fromBytes P = .ok x :=
      bind_eq_ok.mpr ⟨_, aeadOpen_of_aeadSeal hopens hseal, hparse⟩
    rw [hread] at hget
    exact .of_ok (Method.run_bind_ok.mpr ⟨some x, _, hget, rfl⟩) (.present hwhy hfound) h.spent
  · have hanswer := Vault.Answers.foreign hwhy hfound hkey hseal
    rw [Vault.foreign] at hanswer
    cases hread : aeadOpen P s.masterKey id.bytes.1 sealed >>= Envelope.fromBytes P with
    | ok y =>
      rw [hread] at hget hanswer
      exact .of_ok (Method.run_bind_ok.mpr ⟨some y, _, hget, rfl⟩) hanswer h.spent
    | error err =>
      rw [hread] at hget hanswer
      exact .of_error (Method.run_bind_error.mpr (.inl hget)) hanswer h.spent

theorem answered_get (hopens : P.Opens) (h : Stands (.opened s) v) (id : EnvelopeId) :
    (Query.get (P := P) id).Answered s v := by
  cases hwhy : v.failure (Query.get (P := P) id).text with
  | some why =>
    have hget : (EncryptedStore.get P id).run s = .error (.err (.malformed why)) (s.next s.table) :=
      Method.run_bind_error.mpr (.inl (EncryptedStore.call_run_some
        ((h.failure_eq _).trans hwhy)))
    exact .of_error (Method.run_bind_error.mpr (.inl hget)) (.failed hwhy) h.spent
  | none =>
    have hreads : ¬ s.ReadFails := fun hfails => by
      obtain ⟨why, hsome⟩ :
          ∃ why, s.db.faults.head?.join.bind (Query.get (P := P) id).text = some why :=
        (EncryptedStore.bind_text_iff Stage.reads fun stage => by cases stage <;> rfl).mpr hfails
      cases hsome.symm.trans ((h.failure_eq _).trans hwhy)
    have hfiled := h.holds.filed id
    generalize hfound : v.record id = found at hfiled
    cases hfiled with
    | absent habsent =>
      have hget := EncryptedStore.get_ok (P := P) hreads id
      rw [EncryptedStore.record_absent habsent] at hget
      exact .of_ok (Method.run_bind_ok.mpr ⟨none, _, hget, rfl⟩) (.absent hwhy hfound) h.spent
    | present hparse hseal hlookup =>
      exact h.answered_present hopens hreads hwhy hfound hparse hseal hlookup

theorem answered (hopens : P.Opens) (h : Stands (.opened s) v) (hquery : c.query P = .ok query) :
    query.Answered s v := by
  cases query with
  | put x => exact h.answered_put (StoreCall.parsed_of_query hquery)
  | get id => exact h.answered_get hopens id
  | remove id => exact h.answered_remove id
  | len => exact h.answered_len
  | allIds => exact h.answered_allIds

end StoreProcess.Stands

end Queries

section Runs

variable {process : StoreProcess} {v : Vault P}

namespace StoreProcess.Stands

theorem dropped (h : Stands process v) : Stands (.closed process.file) v.closed where
  holds := h.holds
  faults := h.faults
  key := rfl

theorem step_restart (h : Stands process v) (nonces : List (Bytes 12)) (masterKey : List UInt8) :
    ∃ v', Vault.Serve v (.restart nonces masterKey)
        (step P process (.restart nonces masterKey)).1 v' ∧
      Stands (step P process (.restart nonces masterKey)).2 v' := by
  rw [step, FfiEncryptedStore.openStore]
  by_cases hkey : masterKey.length = 32
  · rw [dif_pos hkey]
    let s : EncryptedStore :=
      { db := process.file, masterKey := ⟨masterKey, hkey⟩, nonces := nonces }
    have hs : Stands (.opened s) { v with key := some ⟨masterKey, hkey⟩ } :=
      ⟨h.holds, h.faults, rfl⟩
    cases hcreate : v.failure createText with
    | some why =>
      have hinit : EncryptedStore.init.run s =
          .error (.err (.malformed why)) (s.next s.table) :=
        Method.run_bind_error.mpr (.inl (EncryptedStore.call_run_some
          ((hs.failure_eq _).trans hcreate)))
      rw [Method.run_mapErr_err hinit]
      exact ⟨_, .notCreated hkey hcreate, hs.spent.dropped⟩
    | none =>
      have hcreated : (EncryptedStore.call createText (.ok (), ·)).run s =
          .ok () (s.next s.table) :=
        EncryptedStore.call_run_none ((hs.failure_eq _).trans hcreate) rfl
      cases htable : v.spent.failure initText with
      | some why =>
        have hinit : EncryptedStore.init.run s =
            .error (.err (.malformed why)) ((s.next s.table).next s.table) :=
          Method.run_bind_error.mpr (.inr ⟨(), _, hcreated, EncryptedStore.call_run_some
            ((hs.spent.failure_eq _).trans htable)⟩)
        rw [Method.run_mapErr_err hinit]
        exact ⟨_, .noTable hkey hcreate htable, hs.spent.spent.dropped⟩
      | none =>
        have hinit : EncryptedStore.init.run s = .ok () ((s.next s.table).next s.table) :=
          Method.run_bind_ok.mpr ⟨(), _, hcreated, EncryptedStore.call_run_none
            ((hs.spent.failure_eq _).trans htable) rfl⟩
        rw [Method.run_mapErr_ok hinit]
        exact ⟨_, .opened hkey hcreate htable, hs.spent.spent⟩
  · rw [dif_neg hkey]
    exact ⟨_, .badKey hkey, h.dropped⟩

theorem step_call (hopens : P.Opens) (h : Stands process v) (c : StoreCall) :
    ∃ v', Vault.Serve v (.call c) (step P process (.call c)).1 v' ∧
      Stands (step P process (.call c)).2 v' := by
  cases process with
  | closed db => exact ⟨v, .idle h.key.symm, h⟩
  | opened s =>
    rw [step, perform_run]
    cases hquery : c.query P with
    | error fault => exact ⟨v, .refused h.key.symm hquery, h⟩
    | ok query =>
      obtain ⟨v', hanswer, hstands⟩ := h.answered hopens hquery
      exact ⟨v', .answered h.key.symm hquery hanswer, hstands⟩

end StoreProcess.Stands

def Vault.empty (P : Primitives) (faults : List (Option Stage)) : Vault P where
  faults := faults
  key := none
  record _ := none

namespace StoreProcess

theorem refines (hopens : P.Opens) :
    Refines (step P) (Vault.Serve (P := P)) Stands := by
  intro process v event h
  cases event with
  | restart nonces masterKey => exact h.step_restart nonces masterKey
  | call c => exact h.step_call hopens c

/-- The encrypted store is a map of envelopes with the keys they were put under, across
restarts with any keys and whatever fails. -/
theorem serves_vault (hopens : P.Opens) (faults : List (Option Stage))
    (events : List StoreEvent) :
    ∃ v, Serves Vault.Serve (Vault.empty P faults)
        (transcript (step P) (.closed { table := ∅, faults := faults }) events).1 v ∧
      Stands (transcript (step P) (.closed { table := ∅, faults := faults }) events).2 v := by
  have hempty : Stands (.closed { table := ∅, faults := faults }) (Vault.empty P faults) := by
    refine ⟨⟨fun id => .absent rfl, fun key hkey => ?_⟩, rfl, rfl⟩
    cases AList.notMem_empty key hkey
  exact (refines hopens).transcript hempty events

section Examples

/-- A cipher that opens nothing under another key. -/
def keyed : Primitives :=
  { toyPrimitives with
    chachaEncrypt := fun key _ _ plaintext => some (key.1 ++ plaintext)
    chachaDecrypt := fun key _ _ ciphertext =>
      if ciphertext.take 32 = key.1 then some (ciphertext.drop 32) else none }

theorem opens_keyed : keyed.Opens := by
  rintro key nonce associatedData plaintext ciphertext ⟨⟩
  change (if (key.1 ++ plaintext).take 32 = key.1 then
    some ((key.1 ++ plaintext).drop 32) else none) = some plaintext
  rw [List.take_left' key.2, List.drop_left' key.2, if_pos rfl]

/-- An envelope is put, and read after a restart with another key.  A restart fails, and after
the next one the envelope is read with its own key. -/
def keyedEvents : List StoreEvent :=
  [.restart [] (List.replicate 32 0), .call (.put (toyEnvelope 3).toBytes),
    .restart [] (List.replicate 32 1), .call (.getHex (toyEnvelope 3).id.toHex), .call .len,
    .restart [] (List.replicate 32 0), .call .len,
    .restart [] (List.replicate 32 0), .call (.getHex (toyEnvelope 3).id.toHex)]

def keyedFaults : List (Option Stage) := List.replicate 7 none ++ [some .create]

theorem serves_vault_keyedEvents :
    (∃ v, Serves Vault.Serve (Vault.empty keyed keyedFaults)
        (transcript (step keyed) (.closed { table := ∅, faults := keyedFaults }) keyedEvents).1 v ∧
      Stands (transcript (step keyed) (.closed { table := ∅, faults := keyedFaults })
        keyedEvents).2 v) ∧
      (transcript (step keyed) (.closed { table := ∅, faults := keyedFaults })
        keyedEvents).1.map Prod.snd =
        [some (.ok .opened), some (.ok .done), some (.ok .opened),
          some (.error (.err (.crypto "open failed: forged or corrupted ciphertext"))),
          some (.ok (.count 1)),
          some (.error (.err (.malformed "failed to open database file"))), none,
          some (.ok .opened), some (.ok (.envelope (some (toyEnvelope 3).toBytes)))] :=
  ⟨serves_vault opens_keyed keyedFaults keyedEvents, by decide +kernel⟩

end Examples

end StoreProcess

end Runs

end ProjectMesh.Routing
