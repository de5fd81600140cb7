import Mathlib.Data.List.Sort
import ProjectMesh.Lib.Method
import ProjectMesh.Routing.Engine

namespace ProjectMesh.Routing

open ProjectMesh.Lib

def aeadSeal (P : Primitives) (key : Bytes 32) (nonce : Bytes 12)
    (associatedData plaintext : List UInt8) : Except MeshError (List UInt8) :=
  match P.chachaEncrypt key nonce associatedData plaintext with
  | some ciphertext => .ok (nonce.1 ++ ciphertext)
  | none => .error (.crypto "seal failed")

def aeadOpen (P : Primitives) (key : Bytes 32) (associatedData sealed : List UInt8) :
    Except MeshError (List UInt8) := do
  let (nonce, ciphertext) ←
    Cursor.split 12 (MeshError.malformed "sealed data shorter than nonce") sealed
  match P.chachaDecrypt key nonce associatedData ciphertext with
  | some plaintext => return plaintext
  | none => .error (.crypto "open failed: forged or corrupted ciphertext")

/-- Where a database call can fail. -/
inductive Stage : Type
  | create
  | begin
  | openTable
  | operation
  | entry
  | commit
  deriving DecidableEq

abbrev Table := Assoc (List UInt8) (List UInt8)

/-- The `ENVELOPES` table of a database file, a map with atomic transactions.  `faults` says
where each of the next calls fails, if it does. -/
structure Database where
  table : Table
  faults : List (Option Stage)

/-- The longest value redb inserts.  With a longer one the call fails at `operation`, and it is
for `faults` to say so. -/
def Database.valueLimit : Nat := 3 * 2 ^ 30

/-- A call on the database, which fails with the text it has for the stage.  A stage the call
does not have is no failure. -/
def Database.call (text : Stage → Option String) (use : Table → Except MeshError α × Table) :
    Method MeshError Database α := do
  let db ← get
  match db.faults.head?.join.bind text with
  | some why =>
    set { db with faults := db.faults.tail }
    Method.fail (.malformed why)
  | none =>
    let (result, table) := use db.table
    set ({ table := table, faults := db.faults.tail } : Database)
    Method.ofExcept result

/-- `db` with the key of its records, and the nonces the random generator returns next. -/
structure EncryptedStore where
  db : Database
  masterKey : Bytes 32
  nonces : List (Bytes 12)

namespace EncryptedStore

variable {P : Primitives}

def call (text : Stage → Option String) (use : Table → Except MeshError α × Table) :
    Method MeshError EncryptedStore α :=
  Method.zoom db (fun self db => { self with db := db }) (Database.call text use)

/-- `Database::create`, and the transaction that creates the table. -/
def init : Method MeshError EncryptedStore Unit := do
  call (fun
    | .create => some "failed to open database file"
    | _ => none) (.ok (), ·)
  call (fun
    | .begin => some "failed to begin write transaction"
    | .openTable => some "failed to open envelopes table"
    | .commit => some "failed to commit table creation"
    | _ => none) (.ok (), ·)

def drawNonce : Method MeshError EncryptedStore (Bytes 12) := do
  let self ← get
  set { self with nonces := self.nonces.tail }
  return self.nonces.headD ⟨List.replicate 12 0, rfl⟩

def put (P : Primitives) (envelope : Envelope P) : Method MeshError EncryptedStore Unit := do
  let plaintext := envelope.toBytes
  let nonce ← drawNonce
  let self ← get
  let sealed ← Method.ofExcept
    (aeadSeal P self.masterKey nonce envelope.id.bytes.1 plaintext)
  call (fun
    | .begin => some "failed to begin write transaction"
    | .openTable => some "failed to open envelopes table"
    | .operation => some "failed to insert envelope"
    | .commit => some "failed to commit envelope insert"
    | _ => none) (fun table => (.ok (), table.insert envelope.id.bytes.1 sealed))

def get (P : Primitives) (id : EnvelopeId) :
    Method MeshError EncryptedStore (Option (Envelope P)) := do
  let record ← call (fun
    | .begin => some "failed to begin read transaction"
    | .openTable => some "failed to open envelopes table"
    | .operation => some "failed to read envelope"
    | _ => none) (fun table => (.ok (table.lookup id.bytes.1), table))
  match record with
  | none => return none
  | some sealed =>
    let self ← MonadState.get
    let plaintext ← Method.ofExcept (aeadOpen P self.masterKey id.bytes.1 sealed)
    let envelope ← Method.ofExcept (Envelope.fromBytes P plaintext)
    return some envelope

def remove (id : EnvelopeId) : Method MeshError EncryptedStore Unit :=
  call (fun
    | .begin => some "failed to begin write transaction"
    | .openTable => some "failed to open envelopes table"
    | .operation => some "failed to remove envelope"
    | .commit => some "failed to commit envelope removal"
    | _ => none) (fun table => (.ok (), table.erase id.bytes.1))

def sortedKeys (table : Table) : List (List UInt8) :=
  table.keys.insertionSort fun key key' => bytesLe key key'

/-- The ids of the records, but for keys that are not 32 bytes long. -/
def allIds : Method MeshError EncryptedStore (List EnvelopeId) :=
  call (fun
    | .begin => some "failed to begin read transaction"
    | .openTable => some "failed to open envelopes table"
    | .operation => some "failed to iterate envelopes"
    | .entry => some "failed to read entry"
    | _ => none) (fun table => (.ok ((sortedKeys table).filterMap fun key =>
      if h : key.length = 32 then some ⟨⟨key, h⟩⟩ else none), table))

end EncryptedStore

structure DurableStore (P : Primitives) where
  memory : Store P
  disk : EncryptedStore

namespace DurableStore

variable {P : Primitives}

def onDisk (x : Method MeshError EncryptedStore α) : Method MeshError (DurableStore P) α :=
  Method.zoom disk (fun self disk => { self with disk := disk }) x

section OnDisk

variable {x : Method MeshError EncryptedStore α} {memory : Store P} {disk disk' : EncryptedStore}

theorem onDisk_run {a : α} (h : x.run disk = .ok a disk') :
    (onDisk x).run ⟨memory, disk⟩ = .ok a ⟨memory, disk'⟩ :=
  Method.run_zoom_ok.mpr ⟨disk', h, rfl⟩

theorem onDisk_error {f : Fault MeshError} (h : x.run disk = .error f disk') :
    (onDisk x).run ⟨memory, disk⟩ = .error f ⟨memory, disk'⟩ :=
  Method.run_zoom_error.mpr ⟨disk', h, rfl⟩

end OnDisk

/-- One record of the reload.  A record that does not decrypt is dropped: its removal may
fail without notice. -/
def reload (now : UInt64) (id : EnvelopeId) : Method MeshError (DurableStore P) Unit := do
  let self ← get
  match (EncryptedStore.get P id).run self.disk with
  | .error .panic disk => fun _ => .error .panic { self with disk := disk }
  | .error (.err _) disk =>
    set ({ self with disk := Method.after ((EncryptedStore.remove id).run disk) } : DurableStore P)
  | .ok none disk => set { self with disk := disk }
  | .ok (some envelope) disk =>
    let ((outcome, evicted), memory) := self.memory.accept envelope now
    set ({ memory := memory, disk := disk } : DurableStore P)
    match evicted with
    | some evictedId => onDisk (EncryptedStore.remove evictedId)
    | none => pure ()
    if outcome ≠ .new then onDisk (EncryptedStore.remove id)

def reloadAll (now : UInt64) : List EnvelopeId → Method MeshError (DurableStore P) Unit
  | [] => pure ()
  | id :: ids => do
    reload now id
    reloadAll now ids

/-- The state before the call is what is on the disk, with an empty index. -/
def openStore (now : UInt64) : Method MeshError (DurableStore P) Unit := do
  onDisk EncryptedStore.init
  let ids ← onDisk EncryptedStore.allIds
  reloadAll now ids

def accept (envelope : Envelope P) (now : UInt64) : Method MeshError (DurableStore P) Accept := do
  let self ← get
  let ((outcome, evicted), memory) := self.memory.accept envelope now
  set { self with memory := memory }
  match evicted with
  | some evictedId => onDisk (EncryptedStore.remove evictedId)
  | none => pure ()
  if outcome = .new then onDisk (EncryptedStore.put P envelope)
  return outcome

def removeAll : List EnvelopeId → Method MeshError (DurableStore P) Unit
  | [] => pure ()
  | id :: ids => do
    onDisk (EncryptedStore.remove id)
    removeAll ids

def purgeExpired (now : UInt64) : Method MeshError (DurableStore P) Nat := do
  let self ← get
  let (expired, memory) := self.memory.purgeExpired now
  set { self with memory := memory }
  removeAll expired
  return expired.length

end DurableStore

end ProjectMesh.Routing
