import ProjectMesh.Crypto.MlsGroups
import ProjectMesh.GroupSnapshot
import ProjectMesh.Lib.Respects

namespace ProjectMesh.Crypto

open ProjectMesh.Lib
open ProjectMesh.Lib.Method (Respects Triple after seen)
open ProjectMesh.Routing
open ProjectMesh.Crypto.FfiPrekey
open ProjectMesh.Crypto.Groups (Fits decodeKvPairs decodeKvPairs_encodeKvPairs)
open ProjectMesh.Crypto.Mls

variable {L : OpenMlsGroups} {C : PrekeySuite}

namespace Mls

def OpenMlsGroups.Same (L : OpenMlsGroups) (g g' : L.Group × Storage) : Prop :=
  g.1 = g'.1 ∧ g.2.entries.Perm g'.2.entries

def OpenMlsGroups.Saved (L : OpenMlsGroups) (id : List UInt8) (g : L.Group × Storage) : Prop :=
  L.groupId g.1 = id ∧ L.loadGroup g.2 id = .ok (some g.1)

structure OpenMlsGroups.Keeps (L : OpenMlsGroups) {α : Type}
    (x : Method String (L.Group × Storage) α) : Prop where
  byKey : x.Respects L.Same
  saved : ∀ id, x.Triple (L.Saved id) (fun _ => L.Saved id) (L.Saved id)

/-- Every call of the crate on a group writes through to its storage, a map from which it reads
by key. -/
structure OpenMlsGroups.WritesThrough (L : OpenMlsGroups) : Prop where
  addMembers : ∀ coins signer keyPackage, L.Keeps (L.addMembers coins signer keyPackage)
  mergePendingCommit : L.Keeps L.mergePendingCommit
  processMessage : ∀ message, L.Keeps (L.processMessage message)
  mergeStagedCommit : ∀ staged, L.Keeps (L.mergeStagedCommit staged)
  createMessage : ∀ coins signer bytes, L.Keeps (L.createMessage coins signer bytes)
  newGroup : ∀ coins signer credential storage group storage',
    L.newGroup coins signer credential storage = (.ok group, storage') →
      L.Saved (L.groupId group) (group, storage')
  intoGroup : ∀ staged storage group storage',
    L.intoGroup staged storage = (.ok group, storage') → L.Saved (L.groupId group) (group, storage')
  groupId : ∀ storage id group, L.loadGroup storage id = .ok (some group) → L.groupId group = id
  loadGroup : ∀ storage storage' id, storage.entries.Perm storage'.entries →
    L.loadGroup storage id = L.loadGroup storage' id
  deserializeSigner : ∀ signer bytes, L.serializeSigner signer = .ok bytes →
    L.deserializeSigner bytes = .ok signer

namespace MlsGroupHandle

structure Same (a b : MlsGroupHandle L.toOpenMls) : Prop where
  group : a.group = b.group
  storage : a.member.storage.entries.Perm b.member.storage.entries
  signer : a.member.signer = b.member.signer
  credentialWithKey : a.member.credentialWithKey = b.member.credentialWithKey

theorem Same.refl (self : MlsGroupHandle L.toOpenMls) : self.Same self := ⟨rfl, .refl _, rfl, rfl⟩

structure Settled (signer : L.Signer) (credential : L.Credential)
    (a : MlsGroupHandle L.toOpenMls) : Prop where
  saved : L.Saved (L.groupId a.group) (a.group, a.member.storage)
  signer_eq : a.member.signer = signer
  credential_eq : a.member.credentialWithKey = credential

/-- A method for which the order of the storage makes no difference, and which leaves the handle
settled. -/
structure Transparent {ε α : Type} (x : Method ε (MlsGroupHandle L.toOpenMls) α) : Prop where
  respects : x.Respects Same
  settled : ∀ signer credential,
    x.Triple (Settled signer credential) (fun _ => Settled signer credential)
      (Settled signer credential)

namespace Transparent

variable {ε ε' α β : Type} {x : Method ε (MlsGroupHandle L.toOpenMls) α}

theorem pure (a : α) : Transparent (Pure.pure a : Method ε (MlsGroupHandle L.toOpenMls) α) :=
  ⟨.pure a, fun _ _ => .pure fun _ h => h⟩

theorem fail (e : ε) : Transparent (Method.fail e : Method ε (MlsGroupHandle L.toOpenMls) α) :=
  ⟨.fail e, fun _ _ => .fail fun _ h => h⟩

theorem ofExcept (r : Except ε α) :
    Transparent (Method.ofExcept r : Method ε (MlsGroupHandle L.toOpenMls) α) :=
  ⟨.ofExcept r, fun _ _ => .ofExcept (fun _ _ _ h => h) fun _ h => h⟩

theorem bind (hx : Transparent x) {f : α → Method ε (MlsGroupHandle L.toOpenMls) β}
    (hf : ∀ a, Transparent (f a)) : Transparent (x >>= f) :=
  ⟨hx.respects.bind fun a => (hf a).respects,
    fun signer credential => (hx.settled signer credential).bind
      fun a => (hf a).settled signer credential⟩

theorem map (hx : Transparent x) (f : α → β) : Transparent (f <$> x) := by
  rw [map_eq_pure_bind]
  exact hx.bind fun a => pure (f a)

theorem get_bind {f : MlsGroupHandle L.toOpenMls → Method ε (MlsGroupHandle L.toOpenMls) α}
    (heq : ∀ self self', self.Same self' → f self = f self') (hf : ∀ self, Transparent (f self)) :
    Transparent (get >>= f) :=
  ⟨.get_bind heq fun self => (hf self).respects,
    fun signer credential self h => (hf self).settled signer credential self h⟩

theorem mapErr (hx : Transparent x) (f : ε → ε') : Transparent (Method.mapErr f x) where
  respects := hx.respects.mapErr f
  settled signer credential := by
    refine .of_after fun self h => ?_
    have hafter := (hx.settled signer credential).after h
    rw [Method.run_mapErr]
    generalize x.run self = r at hafter
    cases r with
    | ok a self' => exact hafter
    | error fault self' => cases fault <;> exact hafter

theorem onGroup {x : Method String (L.Group × Storage) α} (hx : L.Keeps x) (context : String) :
    Transparent (onGroup context x) where
  respects := by
    refine (hx.byKey.mapErr _).zoom (fun _ _ h => ⟨h.group, h.storage⟩) ?_
    exact fun _ _ _ _ h hg => ⟨hg.1, hg.2, h.signer, h.credentialWithKey⟩
  settled signer credential := by
    refine .of_after fun self h => ?_
    have hafter := (hx.saved (L.groupId self.group)).after (s := (self.group, self.member.storage))
      h.saved
    rw [MlsGroupHandle.onGroup, Method.run_zoom, Method.run_mapErr]
    generalize x.run (self.group, self.member.storage) = r at hafter
    have hsettled : ∀ g : L.Group × Storage, L.Saved (L.groupId self.group) g →
        Settled signer credential { member := { self.member with storage := g.2 }, group := g.1 } :=
      fun g hg => ⟨⟨rfl, hg.1 ▸ hg.2⟩, h.signer_eq, h.credential_eq⟩
    cases r with
    | ok a g => exact hsettled g hafter
    | error fault g => cases fault <;> exact hsettled g hafter

end Transparent

section Methods

variable (hL : L.WritesThrough)

include hL

theorem transparent_addMember (coins : L.Coins) (keyPackage : L.KeyPackage) :
    Transparent (addMember coins keyPackage) := by
  refine .get_bind (fun _ _ h => by rw [h.signer]) fun self => ?_
  refine (Transparent.onGroup (hL.addMembers coins _ keyPackage) _).bind fun r => ?_
  refine (Transparent.onGroup hL.mergePendingCommit _).bind fun _ => ?_
  refine (Transparent.ofExcept _).bind fun commitBytes => ?_
  exact (Transparent.ofExcept _).bind fun welcomeBytes => .pure _

theorem transparent_addMemberFromBytes (coins : L.Coins) (keyPackageBytes : List UInt8) :
    Transparent (addMemberFromBytes coins keyPackageBytes) := by
  refine (Transparent.ofExcept _).bind fun keyPackageIn => ?_
  refine (Transparent.ofExcept _).bind fun keyPackage => ?_
  exact transparent_addMember hL coins keyPackage

theorem transparent_processCommit (commitBytes : List UInt8) :
    Transparent (processCommit (L := L) commitBytes) := by
  refine (Transparent.ofExcept _).bind fun message => ?_
  refine (Transparent.ofExcept _).bind fun protocolMessage => ?_
  refine (Transparent.onGroup (hL.processMessage _) _).bind fun content => ?_
  cases content with
  | stagedCommitMessage staged => exact .onGroup (hL.mergeStagedCommit staged) _
  | applicationMessage bytes => exact .fail _
  | other => exact .fail _

theorem transparent_seal (coins : L.Coins) (plaintext : List UInt8) :
    Transparent (MlsGroupHandle.seal coins plaintext) := by
  refine (Transparent.ofExcept _).bind fun padded => ?_
  refine .get_bind (fun _ _ h => by rw [h.signer]) fun self => ?_
  refine (Transparent.onGroup (hL.createMessage coins _ padded) _).bind fun message => ?_
  exact .ofExcept _

theorem transparent_open (sealed : List UInt8) :
    Transparent (MlsGroupHandle.open (L := L) sealed) := by
  refine (Transparent.ofExcept _).bind fun message => ?_
  refine (Transparent.ofExcept _).bind fun protocolMessage => ?_
  refine (Transparent.onGroup (hL.processMessage _) _).bind fun content => ?_
  cases content with
  | applicationMessage bytes => exact .ofExcept _
  | stagedCommitMessage staged => exact .fail _
  | other => exact .fail _

theorem transparent_sealAsEnvelope (P : Primitives) (coins : L.Coins) (plaintext : List UInt8)
    (priority : Priority) (ttlHops : UInt8) (expiresAt : UInt64) :
    Transparent (sealAsEnvelope P coins plaintext priority ttlHops expiresAt) := by
  refine .get_bind (fun _ _ h => by rw [groupSelector, groupSelector, h.group]) fun self => ?_
  exact (transparent_seal hL coins plaintext).bind fun sealed => .pure _

theorem transparent_openFromEnvelope {P : Primitives} (envelope : Envelope P) :
    Transparent (openFromEnvelope (L := L) envelope) := by
  refine .get_bind (fun _ _ h => by rw [groupSelector, groupSelector, h.group]) fun self => ?_
  cases envelope.addressing with
  | group selector =>
    dsimp only
    split
    · exact transparent_open hL envelope.sealed
    · exact .fail _
  | broadcast => exact .fail _
  | channel target => exact .fail _
  | direct target => exact .fail _

theorem transparent_call (P : Primitives) (c : FfiMlsGroupHandle.Call L) :
    Transparent (FfiMlsGroupHandle.call P c) := by
  cases c with
  | addMember coins keyPackageBytes =>
    exact ((transparent_addMemberFromBytes hL coins keyPackageBytes).mapErr _).map _
  | processCommit commitBytes =>
    exact ((transparent_processCommit hL commitBytes).mapErr _).map _
  | sealPlaintext coins plaintext =>
    exact ((transparent_seal hL coins plaintext).mapErr _).map _
  | openSealed sealed => exact ((transparent_open hL sealed).mapErr _).map _
  | groupIdHex =>
    exact (Transparent.get_bind (fun _ _ h => by rw [h.group]) fun self => .pure _).map _
  | groupSelectorHex =>
    refine (Transparent.get_bind (fun _ _ h => ?_) fun self => .pure _).map _
    rw [groupSelector, groupSelector, h.group]
  | sealAsEnvelope coins plaintext priorityTag ttlHops expiresAt =>
    refine (Transparent.bind (.ofExcept _) fun priority => ?_).map _
    refine Transparent.bind ?_ fun envelope => .pure _
    exact (transparent_sealAsEnvelope hL P coins plaintext priority ttlHops expiresAt).mapErr _
  | openFromEnvelope envelopeBytes =>
    refine (Transparent.bind (.ofExcept _) fun envelope => ?_).map _
    exact (transparent_openFromEnvelope hL envelope).mapErr _

end Methods

end MlsGroupHandle

end Mls

/-- A process with a group, if it has one, and the files on its disk. -/
structure Phone (L : OpenMlsGroups) where
  handle : Option (MlsGroupHandle L.toOpenMls)
  disk : Disk

inductive PhoneEvent (L : OpenMlsGroups) : Type
  | call (c : FfiMlsGroupHandle.Call L)
  | snapshot (nonce : Bytes 12) (visits : Visits) (finish : WriteEnd) (path : String)
    (masterKey : List UInt8)
  /-- The process ends, and the next one loads the group. -/
  | restart (path : String) (masterKey : List UInt8) (groupIdHex : List Char)

inductive PhoneLabel (L : OpenMlsGroups) : Type
  | answered (c : FfiMlsGroupHandle.Call L)
    (answer : Except (Fault FfiError) FfiMlsGroupHandle.Answer)
  | snapshot (path : String) (masterKey : List UInt8) (answer : Except (Fault FfiError) Unit)
  | restarted (path : String) (masterKey : List UInt8) (groupIdHex : List Char)
    (answer : Except (Fault FfiError) Unit)

namespace Phone

/-- What a new process does that has the identity and the bytes of the signer. -/
def reopen (P : Primitives) (identity : PublicIdentity C) (signerBytes : List UInt8) (disk : Disk)
    (path : String) (masterKey : List UInt8) (groupIdHex : List Char) :
    Except (Fault FfiError) (MlsGroupHandle L.toOpenMls) := do
  let member ← Parse.ofExcept (FfiMlsMember.fromIdentityAndSigner P identity signerBytes)
  seen ((FfiMlsMember.loadGroupFromDisk P disk path masterKey groupIdHex).run (some member))

def step (P : Primitives) (identity : PublicIdentity C) (signerBytes : List UInt8)
    (phone : Phone L) : PhoneEvent L → Phone L × Option (PhoneLabel L)
  | .call c =>
    match phone.handle with
    | none => (phone, none)
    | some self =>
      let r := (FfiMlsGroupHandle.call P c).run self
      ({ phone with handle := some (after r) }, some (.answered c (seen r)))
  | .snapshot nonce visits finish path masterKey =>
    match phone.handle with
    | none => (phone, none)
    | some self =>
      let r := (FfiMlsGroupHandle.snapshotToDisk P nonce visits finish path masterKey self).run
        phone.disk
      ({ phone with disk := after r }, some (.snapshot path masterKey (seen r)))
  | .restart path masterKey groupIdHex =>
    match reopen P identity signerBytes phone.disk path masterKey groupIdHex with
    | .ok self =>
      ({ phone with handle := some self }, some (.restarted path masterKey groupIdHex (.ok ())))
    | .error fault =>
      ({ phone with handle := none }, some (.restarted path masterKey groupIdHex (.error fault)))

def trace (P : Primitives) (identity : PublicIdentity C) (signerBytes : List UInt8) :
    Phone L → List (PhoneEvent L) → List (PhoneLabel L)
  | _, [] => []
  | phone, event :: events =>
    let (next, label) := phone.step P identity signerBytes event
    label.toList ++ next.trace P identity signerBytes events

end Phone

/-- What an application may count on: the group, if anything is known of it, and the group that
each file goes back to. -/
structure Memory (L : OpenMlsGroups) where
  live : Option (MlsGroupHandle L.toOpenMls)
  kept : String → Option (List UInt8 × MlsGroupHandle L.toOpenMls)

instance (entries : List (List UInt8 × List UInt8)) : Decidable (Fits entries) :=
  inferInstanceAs (Decidable (_ ∧ _))

namespace Memory

def keep (memory : Memory L) (masterKey : List UInt8) :
    Option (List UInt8 × MlsGroupHandle L.toOpenMls) :=
  memory.live.bind fun self =>
    if Fits self.member.storage.pairs then some (masterKey, self) else none

def backTo (memory : Memory L) (path : String) (masterKey : List UInt8) (groupIdHex : List Char) :
    Option (MlsGroupHandle L.toOpenMls) :=
  (memory.kept path).bind fun found =>
    if masterKey = found.1 ∧ (hexDecode groupIdHex).toOption = some (L.groupId found.2.group) then
      some found.2
    else none

/-- A snapshot that fails for its key leaves the file as it was; one that fails in the write does
not. -/
def next (P : Primitives) (memory : Memory L) : PhoneLabel L → Memory L
  | .answered c _ =>
    { memory with
      live := memory.live.map fun self => after ((FfiMlsGroupHandle.call P c).run self) }
  | .snapshot path masterKey (.ok ()) =>
    { memory with kept := Function.update memory.kept path (memory.keep masterKey) }
  | .snapshot path _ (.error (.err (.group _))) =>
    { memory with kept := Function.update memory.kept path none }
  | .snapshot _ _ (.error _) => memory
  | .restarted path masterKey groupIdHex _ =>
    { memory with live := memory.backTo path masterKey groupIdHex }

def Allows (P : Primitives) (memory : Memory L) : PhoneLabel L → Prop
  | .answered c answer =>
    ∀ self, memory.live = some self → answer = seen ((FfiMlsGroupHandle.call P c).run self)
  | .snapshot .. => True
  | .restarted path masterKey groupIdHex answer =>
    (memory.backTo path masterKey groupIdHex).isSome → answer = .ok ()

/-- The labels are those of one process, which at times goes back to a group it kept. -/
def Explains (P : Primitives) : Memory L → List (PhoneLabel L) → Prop
  | _, [] => True
  | memory, label :: labels => memory.Allows P label ∧ (memory.next P label).Explains P labels

end Memory

section Snapshots

variable {P : Primitives} {disk : Disk} {path : String} {masterKey signerBytes : List UInt8}
  {groupIdHex : List Char} {self : MlsGroupHandle L.toOpenMls} {signer : L.Signer}
  {credential : L.Credential}

theorem fits_of_perm {pairs pairs' : List (List UInt8 × List UInt8)} (h : pairs.Perm pairs')
    (hfits : Fits pairs) : Fits pairs' :=
  ⟨h.length_eq ▸ hfits.1, fun kv hkv => hfits.2 kv (h.mem_iff.mpr hkv)⟩

def Stored (P : Primitives) (disk : Disk) (path : String) (masterKey : List UInt8)
    (self : MlsGroupHandle L.toOpenMls) : Prop :=
  ∃ (h : masterKey.length = 32) (sealed : List UInt8) (pairs : List (List UInt8 × List UInt8)),
    disk path = some sealed ∧ aeadOpen P ⟨masterKey, h⟩ [] sealed = .ok (encodeKvPairs pairs) ∧
      Fits pairs ∧ pairs.Perm self.member.storage.pairs

inductive Snapshotted (P : Primitives) (disk : Disk) (path : String) (masterKey : List UInt8)
    (self : MlsGroupHandle L.toOpenMls) :
    EStateM.Result (Fault FfiError) Disk Unit → Prop
  | done {disk'} : (∀ other, other ≠ path → disk' other = disk other) →
    (Fits self.member.storage.pairs → Stored P disk' path masterKey self) →
    Snapshotted P disk path masterKey self (.ok () disk')
  | spoiled {why disk'} : (∀ other, other ≠ path → disk' other = disk other) →
    Snapshotted P disk path masterKey self (.error (.err (.group why)) disk')
  | refused {e} : (∀ why, e ≠ .group why) →
    Snapshotted P disk path masterKey self (.error (.err e) disk)

theorem snapshotted (hopens : P.Opens) (disk : Disk) (nonce : Bytes 12) (visits : Visits)
    (finish : WriteEnd) (path : String) (masterKey : List UInt8)
    (self : MlsGroupHandle L.toOpenMls) :
    Snapshotted P disk path masterKey self
      ((FfiMlsGroupHandle.snapshotToDisk P nonce visits finish path masterKey self).run disk) := by
  rw [FfiMlsGroupHandle.snapshotToDisk]
  split
  · next hlength =>
    rw [Method.run_mapErr, MlsGroupHandle.snapshotToDisk, EStateM.run_bind]
    cases hseal : Routing.snapshotToDisk P ⟨masterKey, hlength⟩ nonce
        (visits.apply self.member.storage.pairs) with
    | error e =>
      rw [Method.run_ofExcept_error]
      refine .refused fun why => ?_
      rw [Routing.snapshotToDisk, aeadSeal] at hseal
      split at hseal
      · cases hseal
      · cases hseal
        intro h
        cases h
    | ok sealed =>
      rw [Method.run_ofExcept_ok]
      cases finish with
      | failed left => exact .spoiled fun other hne => Function.update_of_ne hne _ _
      | done =>
        refine .done (fun other hne => Function.update_of_ne hne _ _) fun hfits => ?_
        have hperm := visits.perm self.member.storage.pairs
        exact ⟨hlength, sealed, _, Function.update_self _ _ _, aeadOpen_of_aeadSeal hopens hseal,
          fits_of_perm hperm.symm hfits, hperm⟩
  · refine .refused fun why h => ?_
    cases h

theorem perm_entries_restored {storage : Storage} {pairs : List (List UInt8 × List UInt8)}
    (h : pairs.Perm storage.pairs) :
    (pairs.foldl (fun storage kv => storage.insert kv.1 kv.2) (∅ : Storage)).entries.Perm
      storage.entries := by
  have hkeys : (storage.pairs.map Prod.fst).Nodup := by
    rw [Storage.pairs, List.map_map]
    exact storage.keys_nodup
  have hnodup : (pairs.map Prod.fst).Nodup := (h.map _).nodup_iff.mpr hkeys
  rw [Assoc.entries_foldl_insert hnodup fun _ _ => AList.notMem_empty _]
  have hentries : storage.pairs.map (fun kv => (⟨kv.1, kv.2⟩ : Sigma fun _ => List UInt8)) =
      storage.entries := by
    rw [Storage.pairs, List.map_map]
    exact List.map_id _
  rw [AList.empty_entries, List.append_nil, ← hentries]
  exact (List.reverse_perm _).trans (h.map _)

theorem loadGroupFromDisk_stored (hL : L.WritesThrough) (member : MlsMember L.toOpenMls)
    (hempty : member.storage = ∅) (hsaved : self.Settled signer credential)
    (hstored : Stored P disk path masterKey self) :
    ∃ (h : masterKey.length = 32) (storage : Storage),
      member.loadGroupFromDisk P disk path ⟨masterKey, h⟩ (L.groupId self.group) =
          .ok { member := { member with storage }, group := self.group } ∧
        storage.entries.Perm self.member.storage.entries := by
  obtain ⟨hlength, sealed, pairs, hfile, hopen, hfits, hperm⟩ := hstored
  have hrestored := perm_entries_restored hperm
  have hload := hL.loadGroup _ _ (L.groupId self.group) hrestored
  rw [hsaved.saved.2] at hload
  refine ⟨hlength, _, ?_, hrestored⟩
  rw [MlsMember.loadGroupFromDisk, hfile, hempty]
  change (Parse.ofExcept (aeadOpen P ⟨masterKey, hlength⟩ [] sealed) >>= _) = _
  rw [hopen]
  change (decodeKvPairs (encodeKvPairs pairs) >>= _) = _
  rw [decodeKvPairs_encodeKvPairs hfits]
  change (Parse.ofExcept (groupOk "loading group from restored storage" (L.loadGroup
    (pairs.foldl (fun storage kv => storage.insert kv.1 kv.2) ∅) (L.groupId self.group))) >>= _) = _
  rw [hload]
  rfl

theorem reopen_stored (hL : L.WritesThrough) {identity : PublicIdentity C}
    (hsigner : L.serializeSigner signer = .ok signerBytes)
    (hcredential : credential = MlsMember.deriveCredentialWithKey P identity signer)
    (hsettled : self.Settled signer credential) (hstored : Stored P disk path masterKey self)
    (hid : (hexDecode groupIdHex).toOption = some (L.groupId self.group)) :
    ∃ self' : MlsGroupHandle L.toOpenMls,
      Phone.reopen P identity signerBytes disk path masterKey groupIdHex = .ok self' ∧
        self'.Same self := by
  have hhex : hexDecode groupIdHex = .ok (L.groupId self.group) := by
    cases hdecode : hexDecode groupIdHex with
    | error fault =>
      rw [hdecode] at hid
      cases hid
    | ok groupId =>
      rw [hdecode] at hid
      cases hid
      rfl
  have hmember : FfiMlsMember.fromIdentityAndSigner P identity signerBytes =
      .ok (⟨∅, signer, credential⟩ : MlsMember L.toOpenMls) := by
    rw [FfiMlsMember.fromIdentityAndSigner, MlsMember.signerFromBytes,
      hL.deserializeSigner signer signerBytes hsigner, hcredential]
    rfl
  obtain ⟨hlength, storage, hload, hperm⟩ :=
    loadGroupFromDisk_stored hL ⟨∅, signer, credential⟩ rfl hsettled hstored
  refine ⟨⟨⟨storage, signer, credential⟩, self.group⟩, ?_, rfl, hperm, hsettled.signer_eq.symm,
    hsettled.credential_eq.symm⟩
  rw [Phone.reopen, hmember, FfiMlsMember.loadGroupFromDisk, dif_pos hlength, hhex]
  change seen ((ofParse (MlsMember.loadGroupFromDisk P disk path ⟨masterKey, hlength⟩
    (L.groupId self.group) ⟨∅, signer, credential⟩)).run none) = _
  rw [hload]
  rfl

end Snapshots

structure Agrees (P : Primitives) (signer : L.Signer) (credential : L.Credential)
    (phone : Phone L) (memory : Memory L) : Prop where
  live : ∀ self, memory.live = some self → self.Settled signer credential ∧
    ∃ self', phone.handle = some self' ∧ self'.Same self
  kept : ∀ path masterKey self, memory.kept path = some (masterKey, self) →
    self.Settled signer credential ∧ Stored P phone.disk path masterKey self

namespace Agrees

variable {P : Primitives} {signer : L.Signer} {credential : L.Credential} {phone : Phone L}
  {memory : Memory L} {identity : PublicIdentity C} {signerBytes masterKey : List UInt8}
  {path : String} {disk : Disk} {self' : MlsGroupHandle L.toOpenMls}

def Kept (P : Primitives) (signer : L.Signer) (credential : L.Credential) (memory : Memory L)
    (r : Phone L × Option (PhoneLabel L)) : Prop :=
  match r.2 with
  | none => Agrees P signer credential r.1 memory
  | some label => memory.Allows P label ∧ Agrees P signer credential r.1 (memory.next P label)

theorem call (h : Agrees P signer credential phone memory) (hL : L.WritesThrough)
    (c : FfiMlsGroupHandle.Call L) :
    Kept P signer credential memory (phone.step P identity signerBytes (.call c)) := by
  obtain ⟨_ | self', disk⟩ := phone
  · exact h
  · rw [Phone.step]
    have hcall := MlsGroupHandle.transparent_call hL P c
    have hrelated : ∀ self, memory.live = some self → self.Settled signer credential ∧
        Method.Related MlsGroupHandle.Same ((FfiMlsGroupHandle.call P c).run self')
          ((FfiMlsGroupHandle.call P c).run self) := by
      intro self hself
      obtain ⟨hsettled, _, hsome, hsame⟩ := h.live self hself
      cases hsome
      exact ⟨hsettled, hcall.respects _ _ hsame⟩
    refine ⟨fun self hself => (hrelated self hself).2.seen, fun next hnext => ?_, h.kept⟩
    obtain ⟨self, hself, rfl⟩ := Option.map_eq_some_iff.mp hnext
    obtain ⟨hsettled, hsame⟩ := hrelated self hself
    exact ⟨(hcall.settled signer credential).after hsettled, _, rfl, hsame.after⟩

theorem stored_of_ne {other : String} {key : List UInt8} {self : MlsGroupHandle L.toOpenMls}
    (h : Stored P phone.disk other key self) (hdisk : disk other = phone.disk other) :
    Stored P disk other key self := by
  obtain ⟨hlength, sealed, pairs, hfile, hrest⟩ := h
  exact ⟨hlength, sealed, pairs, hdisk.trans hfile, hrest⟩

theorem writes (h : Agrees P signer credential phone memory)
    {kept : Option (List UInt8 × MlsGroupHandle L.toOpenMls)}
    (hdisk : ∀ other, other ≠ path → disk other = phone.disk other)
    (hkept : ∀ key self, kept = some (key, self) →
      self.Settled signer credential ∧ Stored P disk path key self) :
    Agrees P signer credential { phone with disk }
      { memory with kept := Function.update memory.kept path kept } := by
  refine ⟨h.live, fun other key self hother => ?_⟩
  change Function.update memory.kept path kept other = some (key, self) at hother
  by_cases hpath : other = path
  · subst hpath
    rw [Function.update_self] at hother
    exact hkept key self hother
  · rw [Function.update_of_ne hpath] at hother
    obtain ⟨hsettled, hstored⟩ := h.kept other key self hother
    exact ⟨hsettled, stored_of_ne hstored (hdisk other hpath)⟩

theorem snapshot (h : Agrees P signer credential phone memory) (hopens : P.Opens)
    (nonce : Bytes 12) (visits : Visits) (finish : WriteEnd) (path : String)
    (masterKey : List UInt8) :
    Kept P signer credential memory
      (phone.step P identity signerBytes (.snapshot nonce visits finish path masterKey)) := by
  obtain ⟨_ | self', disk⟩ := phone
  · exact h
  · have hsnapshot := snapshotted hopens disk nonce visits finish path masterKey self'
    rw [Phone.step]
    dsimp only
    generalize (FfiMlsGroupHandle.snapshotToDisk P nonce visits finish path masterKey self').run
      disk = r at hsnapshot
    refine ⟨trivial, ?_⟩
    cases hsnapshot with
    | @done disk' hdisk hstored =>
      refine h.writes hdisk fun key self hkeep => ?_
      obtain ⟨live, hlive, hkept⟩ := Option.bind_eq_some_iff.mp hkeep
      obtain ⟨hsettled, _, hsome, hsame⟩ := h.live live hlive
      cases hsome
      split at hkept
      · next hfits =>
        cases hkept
        have hperm : self'.member.storage.pairs.Perm self.member.storage.pairs :=
          hsame.storage.map _
        obtain ⟨hlength, sealed, pairs, hfile, hopen, hfits', hpairs⟩ :=
          hstored (fits_of_perm hperm.symm hfits)
        exact ⟨hsettled, hlength, sealed, pairs, hfile, hopen, hfits', hpairs.trans hperm⟩
      · cases hkept
    | spoiled hdisk => exact h.writes hdisk fun _ _ hnone => by cases hnone
    | @refused e he =>
      cases e with
      | group why => exact absurd rfl (he why)
      | handshake | ratchet | crypto | malformed | envelopeRejected | invalidState => exact h

theorem restart (h : Agrees P signer credential phone memory) (hL : L.WritesThrough)
    (hsigner : L.serializeSigner signer = .ok signerBytes)
    (hcredential : credential = MlsMember.deriveCredentialWithKey P identity signer)
    (path : String) (masterKey : List UInt8) (groupIdHex : List Char) :
    Kept P signer credential memory
      (phone.step P identity signerBytes (.restart path masterKey groupIdHex)) := by
  have hback : ∀ self, memory.backTo path masterKey groupIdHex = some self →
      self.Settled signer credential ∧ ∃ self' : MlsGroupHandle L.toOpenMls,
        Phone.reopen P identity signerBytes phone.disk path masterKey groupIdHex = .ok self' ∧
          self'.Same self := by
    intro self hself
    obtain ⟨⟨key, found⟩, hfound, hmatch⟩ := Option.bind_eq_some_iff.mp hself
    split at hmatch
    · next hboth =>
      cases hmatch
      have hkey : masterKey = key := hboth.1
      subst hkey
      obtain ⟨hsettled, hstored⟩ := h.kept path masterKey found hfound
      exact ⟨hsettled, reopen_stored hL hsigner hcredential hsettled hstored hboth.2⟩
    · cases hmatch
  rw [Phone.step]
  cases hreopen : Phone.reopen P identity signerBytes phone.disk path masterKey groupIdHex with
  | ok self' =>
    refine ⟨fun _ => rfl, fun self hself => ?_, h.kept⟩
    obtain ⟨hsettled, _, hok, hsame⟩ := hback self hself
    cases hreopen.symm.trans hok
    exact ⟨hsettled, _, rfl, hsame⟩
  | error fault =>
    have hnone : memory.backTo path masterKey groupIdHex = none := by
      cases hself : memory.backTo path masterKey groupIdHex with
      | none => rfl
      | some self =>
        obtain ⟨-, _, hok, -⟩ := hback self hself
        cases hreopen.symm.trans hok
    refine ⟨fun hsome => ?_, fun self hself => ?_, h.kept⟩
    · rw [hnone] at hsome
      cases hsome
    · cases hnone.symm.trans hself

theorem step (h : Agrees P signer credential phone memory) (hL : L.WritesThrough)
    (hopens : P.Opens) (hsigner : L.serializeSigner signer = .ok signerBytes)
    (hcredential : credential = MlsMember.deriveCredentialWithKey P identity signer)
    (event : PhoneEvent L) :
    Kept P signer credential memory (phone.step P identity signerBytes event) := by
  cases event with
  | call c => exact h.call hL c
  | snapshot nonce visits finish path masterKey =>
    exact h.snapshot hopens nonce visits finish path masterKey
  | restart path masterKey groupIdHex =>
    exact h.restart hL hsigner hcredential path masterKey groupIdHex

theorem explains (hL : L.WritesThrough) (hopens : P.Opens)
    (hsigner : L.serializeSigner signer = .ok signerBytes)
    (hcredential : credential = MlsMember.deriveCredentialWithKey P identity signer)
    (events : List (PhoneEvent L)) (h : Agrees P signer credential phone memory) :
    memory.Explains P (phone.trace P identity signerBytes events) := by
  induction events generalizing phone memory with
  | nil => trivial
  | cons event events ih =>
    have hstep := h.step hL hopens hsigner hcredential event
    rw [Phone.trace]
    generalize phone.step P identity signerBytes event = r at hstep
    obtain ⟨next, _ | label⟩ := r
    · exact ih hstep
    · exact ⟨hstep.1, ih hstep.2⟩

end Agrees

section Begin

variable {P : Primitives} {member : MlsMember L.toOpenMls}
  {s : Option (MlsMember L.toOpenMls)}
  {self : MlsGroupHandle L.toOpenMls} {identity : PublicIdentity C} {signerBytes : List UInt8}

theorem eq_ok_of_ofParse {σ α : Type} {x : Parse MeshError α} {a : α} {t t' : σ}
    (h : (ofParse x).run t = .ok a t') : x = .ok a := by
  cases x with
  | ok b =>
    cases h
    rfl
  | error fault => cases fault <;> cases h

theorem eq_ok_of_take {f : MlsMember L.toOpenMls → Parse MeshError (MlsGroupHandle L.toOpenMls)}
    (h : ((FfiMlsMember.Answer.group <$> (FfiMlsMember.take >>= fun member =>
      ofParse (f member))).run (some member)) = .ok (.group self) s) : f member = .ok self := by
  rw [map_eq_pure_bind] at h
  obtain ⟨handle, t, hrun, hanswer⟩ := Method.run_bind_ok.mp h
  cases hanswer
  obtain ⟨taken, _, htake, hparse⟩ := Method.run_bind_ok.mp hrun
  cases htake
  exact eq_ok_of_ofParse hparse

theorem ofExcept_sound {α : Type} {r : Except MeshError α} {a : α}
    (h : Parse.ofExcept r = .ok a) : r = .ok a := by
  cases r with
  | ok b =>
    cases h
    rfl
  | error e => cases h

theorem groupOk_eq_ok {α : Type} {context : String} {r : Except String α} {a : α}
    (h : groupOk context r = .ok a) : r = .ok a := by
  cases r with
  | ok b =>
    cases h
    rfl
  | error e => cases h

theorem settled_createGroup (hL : L.WritesThrough) {coins : L.Coins}
    (h : member.createGroup coins = .ok self) :
    self.Settled member.signer member.credentialWithKey := by
  rw [MlsMember.createGroup] at h
  cases hnew : L.newGroup coins member.signer member.credentialWithKey member.storage with
  | mk result storage =>
    rw [hnew] at h
    obtain ⟨group, hgroup, h⟩ := bind_eq_ok.mp h
    cases groupOk_eq_ok hgroup
    cases h
    exact ⟨hL.newGroup _ _ _ _ _ _ hnew, rfl, rfl⟩

theorem settled_joinFromWelcome (hL : L.WritesThrough) {welcomeBytes : List UInt8}
    (h : member.joinFromWelcome welcomeBytes = .ok self) :
    self.Settled member.signer member.credentialWithKey := by
  rw [MlsMember.joinFromWelcome] at h
  obtain ⟨message, -, h⟩ := bind_eq_ok.mp h
  cases hwelcome : L.extractWelcome message with
  | none =>
    rw [hwelcome] at h
    cases h
  | some welcome =>
    rw [hwelcome] at h
    obtain ⟨staged, -, h⟩ := bind_eq_ok.mp h
    cases hgroup : L.intoGroup staged (L.newFromWelcome welcome member.storage).2 with
    | mk result storage =>
      simp only [hgroup] at h
      obtain ⟨group, hok, h⟩ := bind_eq_ok.mp h
      cases groupOk_eq_ok hok
      cases h
      exact ⟨hL.intoGroup _ _ _ _ hgroup, rfl, rfl⟩

theorem settled_loadGroupFromDisk (hL : L.WritesThrough) {disk : Disk} {path : String}
    {masterKey : Bytes 32} {groupId : List UInt8}
    (h : member.loadGroupFromDisk P disk path masterKey groupId = .ok self) :
    self.Settled member.signer member.credentialWithKey := by
  rw [MlsMember.loadGroupFromDisk] at h
  obtain ⟨sealed, -, h⟩ := bind_eq_ok.mp h
  obtain ⟨plaintext, -, h⟩ := bind_eq_ok.mp h
  obtain ⟨entries, -, h⟩ := bind_eq_ok.mp h
  obtain ⟨found, hfound, h⟩ := bind_eq_ok.mp h
  obtain ⟨group, hgroup, h⟩ := bind_eq_ok.mp h
  cases h
  have hload := groupOk_eq_ok (ofExcept_sound hfound)
  rw [Parse.okOr_sound hgroup] at hload
  have hid := hL.groupId _ _ _ hload
  exact ⟨⟨rfl, hid ▸ hload⟩, rfl, rfl⟩

def HasKeys (signer : L.Signer) (credential : L.Credential) (s : Option (MlsMember L.toOpenMls)) :
    Prop :=
  ∀ member, s = some member → member.signer = signer ∧ member.credentialWithKey = credential

theorem after_borrow_keyPackage (coins : L.Coins) :
    after ((Method.borrow FfiMlsMember.used (Method.mapErr .ofMeshError
      (MlsMember.keyPackage coins))).run (some member)) =
        some { member with storage := (L.buildKeyPackage coins member.signer
          member.credentialWithKey member.storage).2 } := by
  have hafter : after ((MlsMember.keyPackage coins).run member) =
      { member with storage := (L.buildKeyPackage coins member.signer
        member.credentialWithKey member.storage).2 } :=
    Method.after_ofExcept (groupOk "building key package" _) _
  rw [Method.run_borrow_some, Method.run_mapErr]
  rw [← hafter]
  cases (MlsMember.keyPackage coins).run member with
  | ok bundle member' => rfl
  | error fault member' => cases fault <;> rfl

theorem after_signerBytes :
    after ((FfiMlsMember.signerBytes (L := L.toOpenMls)).run (some member)) = some member := by
  rw [FfiMlsMember.signerBytes, Method.run_borrow_some, EStateM.run_bind, EStateM.run_get]
  dsimp only
  cases member.signerToBytes <;> rfl

theorem hasKeys_call {signer : L.Signer} {credential : L.Credential}
    (h : HasKeys signer credential s) (c : FfiMlsMember.Call L.toOpenMls) :
    HasKeys signer credential ((FfiMlsMember.oneShot P L.toOpenMls).step s c) := by
  change HasKeys signer credential (after ((FfiMlsMember.call P c).run s))
  rintro member' hafter
  cases s with
  | none =>
    rw [FfiMlsMember.after_call_none] at hafter
    cases hafter
  | some member =>
    cases htakes : FfiMlsMember.takes c with
    | true =>
      cases hadmits : FfiMlsMember.admits c with
      | true =>
        rw [FfiMlsMember.after_call_admits htakes hadmits] at hafter
        cases hafter
      | false =>
        rw [FfiMlsMember.after_call_refuses htakes hadmits] at hafter
        exact h member' hafter
    | false =>
      cases c with
      | keyPackageBytes coins =>
        rw [FfiMlsMember.call, Method.after_map, FfiMlsMember.after_keyPackageBytes,
          after_borrow_keyPackage] at hafter
        cases hafter
        exact h member rfl
      | signerBytes =>
        rw [FfiMlsMember.call, Method.after_map, after_signerBytes] at hafter
        exact h member' hafter
      | createGroup coins => cases htakes
      | joinFromWelcome welcomeBytes => cases htakes
      | loadGroupFromDisk disk path masterKey groupIdHex => cases htakes

theorem settled_call (hL : L.WritesThrough) {c : FfiMlsMember.Call L.toOpenMls}
    (h : (FfiMlsMember.call P c).run (some member) = .ok (.group self) s) :
    self.Settled member.signer member.credentialWithKey := by
  cases c with
  | keyPackageBytes coins =>
    rw [FfiMlsMember.call, map_eq_pure_bind] at h
    obtain ⟨bytes, t, -, hanswer⟩ := Method.run_bind_ok.mp h
    cases hanswer
  | signerBytes =>
    rw [FfiMlsMember.call, map_eq_pure_bind] at h
    obtain ⟨bytes, t, -, hanswer⟩ := Method.run_bind_ok.mp h
    cases hanswer
  | createGroup coins => exact settled_createGroup hL (ofExcept_sound (eq_ok_of_take h))
  | joinFromWelcome welcomeBytes =>
    exact settled_joinFromWelcome hL (ofExcept_sound (eq_ok_of_take h))
  | loadGroupFromDisk disk path masterKey groupIdHex =>
    rw [FfiMlsMember.call, FfiMlsMember.loadGroupFromDisk] at h
    split at h
    · split at h
      · cases h
      · cases h
      · exact settled_loadGroupFromDisk hL (eq_ok_of_take h)
    · cases h

theorem hasKeys_run {signer : L.Signer} {credential : L.Credential}
    (h : HasKeys signer credential s) (calls : List (FfiMlsMember.Call L.toOpenMls)) :
    HasKeys signer credential ((FfiMlsMember.oneShot P L.toOpenMls).run s calls) := by
  induction calls generalizing s with
  | nil => exact h
  | cons c calls ih => exact ih (hasKeys_call h c)

theorem credential_of_new
    (h : (∃ coins, FfiMlsMember.new P identity coins = .ok member) ∨
      ∃ bytes, FfiMlsMember.fromIdentityAndSigner P identity bytes = .ok member) :
    member.credentialWithKey = MlsMember.deriveCredentialWithKey P identity member.signer := by
  rcases h with ⟨coins, hnew⟩ | ⟨bytes, hrestored⟩
  · rw [FfiMlsMember.new, MlsMember.new] at hnew
    cases hsigner : L.newSigner coins with
    | error e =>
      rw [hsigner] at hnew
      cases hnew
    | ok signer =>
      rw [hsigner] at hnew
      cases hnew
      rfl
  · obtain ⟨signer, -, hmember⟩ := bind_eq_ok.mp hrestored
    cases hmember
    rfl

theorem run_call_none_ne (c : FfiMlsMember.Call L.toOpenMls) :
    (FfiMlsMember.call P c).run none ≠ .ok (.group self) s := by
  intro h
  cases htakes : FfiMlsMember.takes c with
  | true =>
    rcases FfiMlsMember.run_call_none (P := P) htakes with hused | ⟨fault, hfault⟩
    · cases hused.symm.trans h
    · cases (hfault none).symm.trans h
  | false =>
    cases c with
    | keyPackageBytes coins => cases h
    | signerBytes => cases h
    | createGroup coins => cases htakes
    | joinFromWelcome welcomeBytes => cases htakes
    | loadGroupFromDisk disk path masterKey groupIdHex => cases htakes

end Begin

section Restarts

variable {P : Primitives} {identity : PublicIdentity C} {member : MlsMember L.toOpenMls}
  {self : MlsGroupHandle L.toOpenMls} {signerBytes : List UInt8}
  {s s' : Option (MlsMember L.toOpenMls)} {c : FfiMlsMember.Call L.toOpenMls}
  {calls : List (FfiMlsMember.Call L.toOpenMls)}

/-- Whatever is called and however often the process ends, what the application sees is what one
process shows it that goes back, at each restart, to the group that the file was written for. -/
theorem restarts_go_back (hL : L.WritesThrough) (hopens : P.Opens)
    (hmember : (∃ coins, FfiMlsMember.new P identity coins = .ok member) ∨
      ∃ bytes, FfiMlsMember.fromIdentityAndSigner P identity bytes = .ok member)
    (hsigner : FfiMlsMember.signerBytes.run (some member) = .ok signerBytes s)
    (hbegin : (FfiMlsMember.call P c).run
      ((FfiMlsMember.oneShot P L.toOpenMls).run (some member) calls) = .ok (.group self) s')
    (disk : Disk) (events : List (PhoneEvent L)) :
    Memory.Explains P ⟨some self, fun _ => none⟩
      (Phone.trace P identity signerBytes ⟨some self, disk⟩ events) := by
  have hbytes : L.serializeSigner member.signer = .ok signerBytes := by
    rw [FfiMlsMember.signerBytes, Method.run_borrow_some, EStateM.run_bind, EStateM.run_get]
      at hsigner
    dsimp only at hsigner
    cases hserialize : member.signerToBytes with
    | error e =>
      rw [hserialize] at hsigner
      cases hsigner
    | ok bytes =>
      rw [hserialize] at hsigner
      cases hsigner
      exact groupOk_eq_ok hserialize
  have hkeys : HasKeys member.signer member.credentialWithKey
      ((FfiMlsMember.oneShot P L.toOpenMls).run (some member) calls) :=
    hasKeys_run (fun _ h => by cases h; exact ⟨rfl, rfl⟩) calls
  cases hbefore : (FfiMlsMember.oneShot P L.toOpenMls).run (some member) calls with
  | none =>
    rw [hbefore] at hbegin
    exact absurd hbegin (run_call_none_ne c)
  | some member' =>
    rw [hbefore] at hbegin hkeys
    have hsettled := settled_call hL hbegin
    obtain ⟨hsame, hcredential⟩ := hkeys member' rfl
    rw [hsame, hcredential] at hsettled
    refine Agrees.explains hL hopens hbytes (credential_of_new hmember) events ⟨?_, nofun⟩
    rintro _ ⟨⟩
    exact ⟨hsettled, self, rfl, .refl self⟩

section Examples

def toyGroups : OpenMlsGroups where
  Signer := Unit
  Credential := List UInt8 × List UInt8
  Coins := Unit
  KeyPackage := List UInt8
  Message := List UInt8
  Welcome := Empty
  StagedWelcome := Empty
  Group := List UInt8
  serializeSigner _ := .ok [1]
  buildKeyPackage _ _ _ storage := (.ok [], storage)
  serializeKeyPackage := .ok
  newGroup _ _ _ storage := (.ok [], storage.insert [7] [])
  deserializeMessage := .ok
  extractWelcome _ := none
  newFromWelcome := nofun
  intoGroup := nofun
  loadGroup storage id := .ok (if id = [7] then storage.lookup [7] else none)
  KeyPackageIn := List UInt8
  MessageOut := List UInt8
  ProtocolMessage := List UInt8
  StagedCommit := Empty
  newSigner _ := .ok ()
  deserializeSigner bytes := if bytes = [1] then .ok () else .error "EndOfStream"
  publicVec _ := [2]
  credentialWithKey := Prod.mk
  deserializeKeyPackage := .ok
  validate := .ok
  addMembers _ _ _ := Method.fail "not there"
  mergePendingCommit := Method.fail "not there"
  intoProtocolMessage := .ok
  processMessage _ := pure .other
  mergeStagedCommit := nofun
  createMessage _ _ bytes := fun g => .ok (g.1 ++ bytes) (0 :: g.1, g.2.insert [7] (0 :: g.1))
  serializeMessage := .ok
  groupId _ := [7]

theorem writesThrough_toyGroups : toyGroups.WritesThrough where
  addMembers _ _ _ := ⟨.fail _, fun _ => .fail fun _ h => h⟩
  mergePendingCommit := ⟨.fail _, fun _ => .fail fun _ h => h⟩
  processMessage _ := ⟨.pure _, fun _ => .pure fun _ h => h⟩
  mergeStagedCommit := nofun
  createMessage coins signer bytes := by
    constructor
    · rintro ⟨group, storage⟩ ⟨_, storage'⟩ ⟨rfl, hperm⟩
      exact .ok ⟨rfl, AList.perm_insert hperm⟩
    · rintro id ⟨group, storage⟩ ⟨hid, -⟩
      exact ⟨hid, by rw [← hid]; exact congrArg Except.ok (AList.lookup_insert _)⟩
  newGroup coins signer credential storage group storage' h := by
    cases h
    exact ⟨rfl, congrArg Except.ok (AList.lookup_insert _)⟩
  intoGroup := nofun
  groupId storage id group h := by
    change Except.ok (if id = [7] then _ else _) = _ at h
    split at h
    · next hid => exact hid.symm
    · cases h
  loadGroup storage storage' id h := by
    change Except.ok (if id = [7] then storage.lookup [7] else none) =
      Except.ok (if id = [7] then storage'.lookup [7] else none)
    rw [AList.perm_lookup h]
  deserializeSigner _ _ h := by
    cases h
    rfl

def founderIdentity : PublicIdentity toyPrekeys where
  verifying := (⟨List.replicate 32 1, List.length_replicate⟩ : Bytes 32)
  agreement := (⟨List.replicate 32 2, List.length_replicate⟩ : Bytes 32)

def toyFounder : MlsMember toyGroups.toOpenMls where
  storage := ∅
  signer := ()
  credentialWithKey :=
    MlsMember.deriveCredentialWithKey (L := toyGroups) toyPrimitives founderIdentity ()

def foundedGroup : MlsGroupHandle toyGroups.toOpenMls where
  member := { toyFounder with storage := (∅ : Storage).insert [7] [] }
  group := []

def asFound : Visits where
  apply pairs := pairs
  perm := List.Perm.refl

def toyRestart : List (PhoneEvent toyGroups) :=
  [.call (.sealPlaintext () [104, 105]),
    .snapshot ⟨List.replicate 12 0, List.length_replicate⟩ asFound .done "group"
      (List.replicate 32 5),
    .call (.sealPlaintext () [33]), .restart "group" (List.replicate 32 5) ['0', '7'],
    .call (.sealPlaintext () [63])]

theorem restarts_go_back_toyRestart :
    Memory.Explains toyPrimitives ⟨some foundedGroup, fun _ => none⟩
      (Phone.trace toyPrimitives founderIdentity [1] ⟨some foundedGroup, fun _ => none⟩
        toyRestart) := by
  have hnew : FfiMlsMember.new toyPrimitives founderIdentity () = .ok toyFounder := rfl
  have hbegin : (FfiMlsMember.call toyPrimitives (.createGroup ())).run
      ((FfiMlsMember.oneShot toyPrimitives toyGroups.toOpenMls).run (some toyFounder) []) =
        .ok (.group foundedGroup) none := rfl
  exact restarts_go_back writesThrough_toyGroups opens_toyPrimitives (.inl ⟨(), hnew⟩) rfl hbegin
    _ toyRestart

end Examples

end Restarts

end ProjectMesh.Crypto
