import Mathlib.Data.Set.Defs
import ProjectMesh.Routing.FaultyReload

namespace ProjectMesh.Routing

open ProjectMesh.Lib

variable {P : Primitives}

def encodeKvPairs (entries : List (List UInt8 × List UInt8)) : List UInt8 :=
  leBytes 4 entries.length ++ entries.flatMap fun kv =>
    leBytes 4 kv.1.length ++ kv.1 ++ leBytes 4 kv.2.length ++ kv.2

/-- What `snapshot_to_disk` writes: a group snapshot under the same key as the envelopes, with
no associated data. -/
def snapshotToDisk (P : Primitives) (masterKey : Bytes 32) (nonce : Bytes 12)
    (entries : List (List UInt8 × List UInt8)) : Except MeshError (List UInt8) :=
  aeadSeal P masterKey nonce [] (encodeKvPairs entries)

/-- A record that was ever sealed under the master key, with its associated data and what is
in it. -/
inductive Written (P : Primitives) (masterKey : Bytes 32) (puts : Set (Envelope P)) :
    List UInt8 → List UInt8 → List UInt8 → Prop
  | envelope {e nonce sealed} : e ∈ puts →
    aeadSeal P masterKey nonce e.id.bytes.1 e.toBytes = .ok sealed →
    Written P masterKey puts sealed e.id.bytes.1 e.toBytes
  | snapshot {entries nonce sealed} : snapshotToDisk P masterKey nonce entries = .ok sealed →
    Written P masterKey puts sealed [] (encodeKvPairs entries)

/-- What a table holds is of use only as it was sealed: a value of it opens with the associated
data it was sealed with, if it was sealed under the key, and otherwise not at all. -/
def IdealAead (P : Primitives) (masterKey : Bytes 32) (puts : Set (Envelope P))
    (table : Table) : Prop :=
  ∀ sealed ∈ Assoc.values table, ∀ associatedData plaintext,
    aeadOpen P masterKey associatedData sealed = .ok plaintext →
    Written P masterKey puts sealed associatedData plaintext

section AtRest

variable {puts : Set (Envelope P)} {disk : EncryptedStore} {id : EnvelopeId} {x : Envelope P}
  {now : UInt64}

theorem IdealAead.record (h : IdealAead P disk.masterKey puts disk.table)
    (hrecord : disk.record P id = .ok (some x)) : x ∈ puts ∧ x.id = id := by
  rw [EncryptedStore.record] at hrecord
  split at hrecord
  · cases hrecord
  · next sealed hlookup =>
    obtain ⟨plaintext, hopen, hrecord⟩ := bind_eq_ok.mp hrecord
    obtain ⟨envelope, hparse, hrecord⟩ := bind_eq_ok.mp hrecord
    cases hrecord
    have hvalue : sealed ∈ Assoc.values disk.table := Assoc.mem_values_iff.mpr ⟨_, hlookup⟩
    have hwritten := h sealed hvalue id.bytes.1 plaintext hopen
    generalize hkey : id.bytes.1 = key at hwritten
    cases hwritten with
    | envelope he _ =>
      obtain rfl := eq_of_fromBytes_toBytes hparse
      exact ⟨he, (EncryptedStore.key_injective hkey).symm⟩
    | snapshot _ =>
      have hlength := id.bytes.2
      rw [hkey] at hlength
      cases hlength

namespace DurableStore

variable {d : DurableStore P} {ids : List EnvelopeId}

theorem Reread.sound {r : EStateM.Result (Fault MeshError) (DurableStore P) Unit}
    (hr : Reread d now id r) (hsound : d.disk.Sound) : ∃ d', r = .ok () d' ∧ d'.disk.Sound := by
  have hwrites : ¬ d.disk.WriteFailsAt 1 := by
    have hfaults : d.disk.db.faults = [] := hsound
    rw [EncryptedStore.WriteFailsAt, hfaults]
    rintro ⟨stage, hstage, -⟩
    cases hstage
  cases hr with
  | lost _ _ hleaves | kept _ _ hleaves | absent _ hleaves | loaded _ _ _ _ hleaves
  | replaced _ _ _ _ hleaves | refused _ _ _ _ _ hleaves =>
    exact ⟨_, rfl, hleaves.sound hsound⟩
  | replaceFails _ _ _ hfails _ | refuseFails _ hfails _ => exact absurd hfails hwrites

theorem Pending.reloadAll_ok (h : d.Pending ids) (hnodup : ids.Nodup) (hsound : d.disk.Sound)
    (now : UInt64) : ∃ d', (reloadAll now ids).run d = .ok () d' := by
  induction ids generalizing d with
  | nil => exact ⟨d, rfl⟩
  | cons id ids ih =>
    obtain ⟨hid, hnodup⟩ := List.nodup_cons.mp hnodup
    have hr := h.reread now
    have hpending := hr.pending h hid
    obtain ⟨d₁, hrun, hsound₁⟩ := hr.sound hsound
    rw [hrun] at hpending
    obtain ⟨d', hrun'⟩ := ih hpending hnodup hsound₁
    exact ⟨d', Method.run_bind_ok.mpr ⟨(), d₁, hrun, hrun'⟩⟩

/-- Whatever is made of the database without the master key, it opens, and the index takes only
envelopes that were put, from the records of their own ids. -/
theorem open_integrity (hideal : IdealAead P disk.masterKey puts disk.table)
    (hsound : disk.Sound) (capacity : Nat) (now : UInt64) :
    ∃ d, (openStore now).run ⟨Store.new P capacity, disk⟩ = .ok () d ∧
      ∀ id x, d.memory.get id = some x →
        x ∈ puts ∧ id = computeId P x.addressing x.priority x.expiresAt x.sealed ∧
          disk.record P id = .ok (some x) := by
  have hpending : Pending (EncryptedStore.idsOf disk.table)
      ⟨Store.new P capacity, disk.holding disk.table⟩ :=
    ⟨Nat.zero_le _, fun id x hx => (hideal.record (EncryptedStore.record_holding ▸ hx)).2,
      fun _ _ => rfl⟩
  have hnodup := EncryptedStore.nodup_idsOf disk.table
  obtain ⟨d, hrun⟩ := hpending.reloadAll_ok hnodup EncryptedStore.sound_holding now
  refine ⟨d, (openStore_eq_reloadAll hsound _ now).trans hrun, fun id x hx => ?_⟩
  have hfrom := (reloadAll_within hpending hnodup now).2 id x
  rw [hrun] at hfrom
  have hrecord : disk.record P id = .ok (some x) := by
    rcases hfrom hx with hheld | hrecord
    · cases hheld
    · exact EncryptedStore.record_holding ▸ hrecord
  obtain ⟨hput, hid⟩ := hideal.record hrecord
  exact ⟨hput, hid.symm.trans x.derived, hrecord⟩

section Examples

/-- The plaintext behind the associated data, every byte of which is marked with a one. -/
def marked : List UInt8 → List UInt8 → List UInt8
  | [], plaintext => 0 :: plaintext
  | b :: associatedData, plaintext => 1 :: b :: marked associatedData plaintext

def unmarked : List UInt8 → List UInt8 → Option (List UInt8)
  | [], 0 :: plaintext => some plaintext
  | b :: associatedData, 1 :: b' :: ciphertext =>
    if b = b' then unmarked associatedData ciphertext else none
  | _, _ => none

theorem unmarked_eq_some_iff {associatedData ciphertext plaintext : List UInt8} :
    unmarked associatedData ciphertext = some plaintext ↔
      ciphertext = marked associatedData plaintext := by
  fun_induction unmarked associatedData ciphertext with
  | case1 rest => simp [marked, eq_comm]
  | case2 b associatedData ciphertext ih => simp [marked, ih]
  | case3 b associatedData b' ciphertext hne => simp [marked, Ne.symm hne]
  | case4 associatedData ciphertext hnil hcons =>
    refine iff_of_false nofun fun h => ?_
    cases associatedData with
    | nil => exact hnil _ rfl h
    | cons b associatedData => exact hcons _ _ _ _ rfl h

/-- The primitives of the examples, with an AEAD that binds what it seals to its associated
data. -/
def vault : Primitives :=
  { toyPrimitives with
    chachaEncrypt := fun _ _ associatedData plaintext => some (marked associatedData plaintext)
    chachaDecrypt := fun _ _ associatedData ciphertext => unmarked associatedData ciphertext }

theorem opens_vault : vault.Opens := by
  rintro key nonce associatedData plaintext ciphertext ⟨⟩
  exact unmarked_eq_some_iff.mpr rfl

def vaultEnvelope : Envelope vault := .new vault .broadcast .normal 3 100 [1, 1, 1, 1]

theorem marked_inj {associatedData associatedData' plaintext plaintext' : List UInt8}
    (h : marked associatedData plaintext = marked associatedData' plaintext') :
    associatedData = associatedData' ∧ plaintext = plaintext' := by
  induction associatedData generalizing associatedData' with
  | nil =>
    cases associatedData' with
    | nil => exact ⟨rfl, (List.cons.inj h).2⟩
    | cons b' associatedData' => exact absurd (List.cons.inj h).1 (by decide)
  | cons b associatedData ih =>
    cases associatedData' with
    | nil => exact absurd (List.cons.inj h).1 (by decide)
    | cons b' associatedData' =>
      simp only [marked, List.cons.injEq, true_and] at h
      obtain ⟨rfl, h⟩ := h
      obtain ⟨rfl, rfl⟩ := ih h
      exact ⟨rfl, rfl⟩

theorem eq_of_aeadOpen_vault {masterKey : Bytes 32} (nonce : Bytes 12)
    {associatedData associatedData' plaintext plaintext' : List UInt8}
    (h : aeadOpen vault masterKey associatedData' (nonce.1 ++ marked associatedData plaintext) =
      .ok plaintext') : associatedData' = associatedData ∧ plaintext' = plaintext := by
  rw [aeadOpen, Cursor.split_append] at h
  simp only [bind, Except.bind] at h
  split at h
  · next opened hopen =>
    cases h
    obtain ⟨rfl, rfl⟩ := marked_inj (unmarked_eq_some_iff.mp hopen)
    exact ⟨rfl, rfl⟩
  · cases h

def recordNonce : Bytes 12 := ⟨[5, 5, 5, 5, 5, 5, 5, 5, 5, 5, 5, 5], rfl⟩

def snapshotNonce : Bytes 12 := ⟨[6, 6, 6, 6, 6, 6, 6, 6, 6, 6, 6, 6], rfl⟩

def vaultRecord : List UInt8 :=
  recordNonce.1 ++ marked vaultEnvelope.id.bytes.1 vaultEnvelope.toBytes

def vaultSnapshot : List UInt8 := snapshotNonce.1 ++ marked [] (encodeKvPairs [([1], [2])])

/-- The record of an envelope, also under another id and under a key that is no id, a piece of
it, and a group snapshot under an id. -/
def copied : EncryptedStore :=
  { toyStore.disk with
    db :=
      { table := ((((∅ : Table).insert toyId vaultRecord).insert (List.replicate 32 7)
          vaultRecord).insert [1, 2] vaultRecord).insert (List.replicate 32 8)
            (vaultRecord.take 5) |>.insert (List.replicate 32 9) vaultSnapshot
        faults := [] } }

theorem idealAead_copied (masterKey : Bytes 32) :
    IdealAead vault masterKey {vaultEnvelope} copied.table := by
  have hvalues : Assoc.values copied.table =
      [vaultSnapshot, vaultRecord.take 5, vaultRecord, vaultRecord, vaultRecord] := rfl
  intro sealed hsealed associatedData plaintext hopen
  rw [hvalues] at hsealed
  simp only [List.mem_cons, List.not_mem_nil, or_false, or_self] at hsealed
  rcases hsealed with rfl | rfl | rfl
  · obtain ⟨rfl, rfl⟩ := eq_of_aeadOpen_vault snapshotNonce hopen
    have hseal : snapshotToDisk vault masterKey snapshotNonce [([1], [2])] = .ok vaultSnapshot :=
      rfl
    exact .snapshot hseal
  · cases hopen
  · obtain ⟨rfl, rfl⟩ := eq_of_aeadOpen_vault recordNonce hopen
    have hseal : aeadSeal vault masterKey recordNonce vaultEnvelope.id.bytes.1
        vaultEnvelope.toBytes = .ok vaultRecord := rfl
    have hput : vaultEnvelope ∈ ({vaultEnvelope} : Set (Envelope vault)) := rfl
    exact .envelope hput hseal

theorem open_integrity_copied :
    vault.Opens ∧ ∃ d, (openStore 0).run ⟨Store.new vault 10, copied⟩ = .ok () d ∧
      ∀ id x, d.memory.get id = some x → x ∈ ({vaultEnvelope} : Set (Envelope vault)) := by
  obtain ⟨d, hrun, hget⟩ := open_integrity (idealAead_copied _) (show copied.Sound from rfl) 10 0
  exact ⟨opens_vault, d, hrun, fun id x hx => (hget id x hx).1⟩

end Examples

end DurableStore

end AtRest

end ProjectMesh.Routing
