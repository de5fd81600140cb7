import ProjectMesh.Lib.OneShot
import ProjectMesh.Crypto.FfiPrekey
import ProjectMesh.Crypto.Mls
import ProjectMesh.Crypto.SessionAuth
import ProjectMesh.Routing.HexIds

namespace ProjectMesh.Crypto

open ProjectMesh.Lib
open ProjectMesh.Routing (Primitives hexDecode)
open ProjectMesh.Crypto.FfiPrekey
open ProjectMesh.Crypto.Mls
open ProjectMesh.Crypto.Noise
open ProjectMesh.Crypto.Ratchet

theorem after_ofParse {σ α : Type} (x : Parse MeshError α) (s : σ) :
    Method.after ((ofParse x : Method FfiError σ α).run s) = s := by
  cases x with
  | ok a => rfl
  | error fault => cases fault <;> rfl

namespace FfiMlsMember

variable {L : OpenMls}

/-- A method of `FfiMlsMember`: its state is what its lock guards. -/
abbrev MemberM (L : OpenMls) := Method FfiError (Option (MlsMember L))

def used : FfiError := .invalidState "FfiMlsMember already used to create/join a group"

def keyPackageBytes (coins : L.Coins) : MemberM L (List UInt8) := do
  let keyPackage ←
    Method.borrow used (Method.mapErr .ofMeshError (MlsMember.keyPackage coins))
  ofParse (Parse.ofExcept
    (groupOk "serializing key package" (L.serializeKeyPackage keyPackage)))

def signerBytes : MemberM L (List UInt8) :=
  Method.borrow used do
    let member ← get
    ofParse (Parse.ofExcept member.signerToBytes)

def take : MemberM L (MlsMember L) := Method.take used

def createGroup (coins : L.Coins) : MemberM L (MlsGroupHandle L) := do
  let member ← take
  ofParse (Parse.ofExcept (member.createGroup coins))

def joinFromWelcome (welcomeBytes : List UInt8) : MemberM L (MlsGroupHandle L) := do
  let member ← take
  ofParse (Parse.ofExcept (member.joinFromWelcome welcomeBytes))

def loadGroupFromDisk (P : Primitives) (disk : String → Option (List UInt8)) (path : String)
    (masterKey : List UInt8) (groupIdHex : List Char) : MemberM L (MlsGroupHandle L) :=
  if h : masterKey.length = 32 then
    match hexDecode groupIdHex with
    | .error (.err _) => Method.fail (.malformed "invalid group_id hex")
    | .error .panic => Method.halt
    | .ok groupId => do
      let member ← take
      ofParse (member.loadGroupFromDisk P disk path ⟨masterKey, h⟩ groupId)
  else Method.fail (.malformed "master_key must be 32 bytes")

/-- The calls on an object, with what they find on the disk and what the random generator
returns them. -/
inductive Call (L : OpenMls) : Type
  | keyPackageBytes (coins : L.Coins)
  | signerBytes
  | createGroup (coins : L.Coins)
  | joinFromWelcome (welcomeBytes : List UInt8)
  | loadGroupFromDisk (disk : String → Option (List UInt8)) (path : String)
    (masterKey : List UInt8) (groupIdHex : List Char)

inductive Answer (L : OpenMls) : Type
  | bytes (bs : List UInt8)
  | group (handle : MlsGroupHandle L)

def call (P : Primitives) : Call L → MemberM L (Answer L)
  | .keyPackageBytes coins => .bytes <$> keyPackageBytes coins
  | .signerBytes => .bytes <$> signerBytes
  | .createGroup coins => .group <$> createGroup coins
  | .joinFromWelcome welcomeBytes => .group <$> joinFromWelcome welcomeBytes
  | .loadGroupFromDisk disk path masterKey groupIdHex =>
    .group <$> loadGroupFromDisk P disk path masterKey groupIdHex

def takes : Call L → Bool
  | .keyPackageBytes _ | .signerBytes => false
  | .createGroup _ | .joinFromWelcome _ | .loadGroupFromDisk .. => true

/-- Only `load_group_from_disk` looks at arguments before it takes the member. -/
def admits : Call L → Bool
  | .loadGroupFromDisk _ _ masterKey groupIdHex =>
    masterKey.length == 32 && (hexDecode groupIdHex).toBool
  | _ => true

section OneShot

variable {P : Primitives} {m : MlsMember L} {c : Call L}

theorem after_take_bind {α : Type} (f : MlsMember L → Parse MeshError α)
    (s : Option (MlsMember L)) :
    Method.after ((take >>= fun member => ofParse (f member)).run s) = none :=
  Method.after_take_bind (fun member => after_ofParse (f member)) s

theorem run_take_bind_none {α : Type} (f : MlsMember L → Parse MeshError α) :
    (take >>= fun member => ofParse (f member)).run none = .error (.err used) none := rfl

theorem after_keyPackageBytes (coins : L.Coins) (s : Option (MlsMember L)) :
    Method.after ((keyPackageBytes coins).run s) =
      Method.after ((Method.borrow used (Method.mapErr .ofMeshError
        (MlsMember.keyPackage coins))).run s) :=
  Method.after_bind_keeps (fun _ => after_ofParse _) s

theorem loadGroupFromDisk_cases (P : Primitives) (disk : String → Option (List UInt8))
    (path : String) (masterKey : List UInt8) (groupIdHex : List Char) :
    (admits (.loadGroupFromDisk disk path masterKey groupIdHex : Call L) = true ∧
        ∃ f : MlsMember L → Parse MeshError (MlsGroupHandle L),
          loadGroupFromDisk P disk path masterKey groupIdHex =
            take >>= fun member => ofParse (f member)) ∨
      admits (.loadGroupFromDisk disk path masterKey groupIdHex : Call L) = false ∧
        ∃ fault, ∀ s : Option (MlsMember L),
          (loadGroupFromDisk P disk path masterKey groupIdHex).run s = .error fault s := by
  rw [loadGroupFromDisk, admits]
  by_cases hkey : masterKey.length = 32
  · rw [dif_pos hkey, beq_iff_eq.mpr hkey, Bool.true_and]
    cases hexDecode groupIdHex with
    | ok groupId => exact .inl ⟨rfl, _, rfl⟩
    | error fault =>
      cases fault with
      | err e => exact .inr ⟨rfl, _, fun s => rfl⟩
      | panic => exact .inr ⟨rfl, _, fun s => rfl⟩
  · rw [dif_neg hkey, beq_eq_false_iff_ne.mpr hkey, Bool.false_and]
    exact .inr ⟨rfl, _, fun s => rfl⟩

theorem call_of_takes (P : Primitives) (htakes : takes c = true) :
    (admits c = true ∧ ∃ f : MlsMember L → Parse MeshError (MlsGroupHandle L),
        call P c = Answer.group <$> (take >>= fun member => ofParse (f member))) ∨
      admits c = false ∧
        ∃ fault, ∀ s : Option (MlsMember L), (call P c).run s = .error fault s := by
  cases c with
  | keyPackageBytes coins => cases htakes
  | signerBytes => cases htakes
  | createGroup coins => exact .inl ⟨rfl, _, rfl⟩
  | joinFromWelcome welcomeBytes => exact .inl ⟨rfl, _, rfl⟩
  | loadGroupFromDisk disk path masterKey groupIdHex =>
    obtain ⟨hadmits, f, hf⟩ | ⟨hrefuses, fault, hfault⟩ :=
      loadGroupFromDisk_cases P disk path masterKey groupIdHex
    · exact .inl ⟨hadmits, f, by rw [call, hf]⟩
    · exact .inr ⟨hrefuses, fault, fun s => Method.run_map_error (hfault s)⟩

theorem after_call_admits (htakes : takes c = true) (hadmits : admits c = true)
    (s : Option (MlsMember L)) : Method.after ((call P c).run s) = none := by
  obtain ⟨-, f, hf⟩ | ⟨hrefuses, -⟩ := call_of_takes P htakes
  · rw [hf, Method.after_map, after_take_bind]
  · rw [hrefuses] at hadmits
    cases hadmits

theorem after_call_refuses (htakes : takes c = true) (hrefuses : admits c = false)
    (s : Option (MlsMember L)) : Method.after ((call P c).run s) = s := by
  obtain ⟨hadmits, -⟩ | ⟨-, fault, hfault⟩ := call_of_takes P htakes
  · rw [hadmits] at hrefuses
    cases hrefuses
  · rw [hfault, Method.after_error]

theorem isSome_after_call (htakes : takes c = false) (m : MlsMember L) :
    (Method.after ((call P c).run (some m))).isSome := by
  cases c with
  | keyPackageBytes coins =>
    rw [call, Method.after_map, after_keyPackageBytes]
    exact Method.isSome_after_borrow _ m
  | signerBytes =>
    rw [call, Method.after_map]
    exact Method.isSome_after_borrow _ m
  | createGroup coins => cases htakes
  | joinFromWelcome welcomeBytes => cases htakes
  | loadGroupFromDisk disk path masterKey groupIdHex => cases htakes

theorem run_call_none (htakes : takes c = true) :
    (call P c).run none = .error (.err used) none ∨
      ∃ fault, ∀ s, (call P c).run s = .error fault s := by
  obtain ⟨-, f, hf⟩ | ⟨-, hfault⟩ := call_of_takes P htakes
  · rw [hf]
    exact .inl (Method.run_map_error (run_take_bind_none f))
  · exact .inr hfault

theorem after_call_none (c : Call L) : Method.after ((call P c).run none) = none := by
  cases htakes : takes c with
  | true =>
    obtain h | ⟨fault, h⟩ := @run_call_none L P c htakes
    · rw [h, Method.after_error]
    · rw [h, Method.after_error]
  | false =>
    cases c with
    | keyPackageBytes coins =>
      rw [call, Method.after_map, after_keyPackageBytes]
      rfl
    | signerBytes => rfl
    | createGroup coins => cases htakes
    | joinFromWelcome welcomeBytes => cases htakes
    | loadGroupFromDisk disk path masterKey groupIdHex => cases htakes

end OneShot

def oneShot (P : Primitives) (L : OpenMls) :
    OneShot FfiError (MlsMember L) (Call L) (Answer L) where
  call := call P
  takes := takes
  admits _ := admits
  gone := used
  after_admits m _ htakes hadmits := after_call_admits htakes hadmits (some m)
  after_refuses m _ htakes hrefuses := after_call_refuses htakes hrefuses (some m)
  after_borrows m _ htakes := isSome_after_call htakes m
  after_none := after_call_none
  run_none _ := run_call_none

theorem allRefuse_iff (P : Primitives) (m : MlsMember L) (cs : List (Call L)) :
    (oneShot P L).AllRefuse (some m) cs ↔ ∀ c ∈ cs, takes c = true → admits c = false := by
  induction cs generalizing m with
  | nil => exact ⟨fun _ _ hc => absurd hc List.not_mem_nil, fun _ => trivial⟩
  | cons c cs ih =>
    have hrefuses : ¬ (oneShot P L).Admits (some m) c ↔ (takes c = true → admits c = false) := by
      rw [OneShot.Admits, not_and]
      constructor
      · intro h htakes
        rw [← Bool.not_eq_true]
        exact fun hadmits => h htakes ⟨m, rfl, hadmits⟩
      · rintro h htakes ⟨_, -, hadmits⟩
        exact Bool.false_ne_true ((h htakes).symm.trans hadmits)
    rw [List.forall_mem_cons, OneShot.AllRefuse, hrefuses]
    apply and_congr_right
    intro h
    obtain ⟨m', hm'⟩ := OneShot.exists_step (hrefuses.mpr h)
    rw [hm']
    exact ih m'

end FfiMlsMember

namespace FfiHandshake

variable {N : NoiseSuite}

/-- A method of `FfiHandshake`: its state is what its lock guards. -/
abbrev HandshakeM (N : NoiseSuite) := Method FfiError (Option (HandshakeState N))

def finished : FfiError := .invalidState "handshake already finished"

def snowError : FfiError := .ofMeshError Session.snowError

def writeMessage (fresh : N.Secret) : HandshakeM N (WireMessage N) :=
  Method.borrow finished do
    let hs ← get
    let (message, hs) ← Method.okOr (hs.writeMessage fresh []) snowError
    set hs
    return message

def readMessage (message : WireMessage N) : HandshakeM N Unit :=
  Method.borrow finished do
    let hs ← get
    let (_, hs) ← Method.okOr (hs.readMessage message) snowError
    set hs

def isFinished : HandshakeM N Bool := do
  let guard ← get
  return (guard.map HandshakeState.isFinished).getD false

def takeFinished : HandshakeM N (HandshakeState N) := do
  match ← get with
  | none => Method.fail finished
  | some hs =>
    if !hs.isFinished then Method.fail (.invalidState "handshake not yet finished")
    else Method.take finished

def finishAsInitiator (dhSelf : N.Secret) (bobMessage : N.Sealed) :
    HandshakeM N (DoubleRatchet N.toSuite) := do
  let hs ← takeFinished
  ofParse (Parse.ofExcept (Session.establishAsInitiator dhSelf hs bobMessage))

def finishAsResponder (ratchetKey : N.Secret) :
    HandshakeM N (DoubleRatchet N.toSuite × N.Sealed) := do
  let hs ← takeFinished
  ofParse (Parse.ofExcept (Session.establishAsResponder ratchetKey hs))

/-- The calls on an object, with what the random generator returns them. -/
inductive Call (N : NoiseSuite) : Type
  | writeMessage (fresh : N.Secret)
  | readMessage (message : WireMessage N)
  | isFinished
  | finishAsInitiator (dhSelf : N.Secret) (bobMessage : N.Sealed)
  | finishAsResponder (ratchetKey : N.Secret)

inductive Answer (N : NoiseSuite) : Type
  | message (m : WireMessage N)
  | done
  | flag (b : Bool)
  | session (ratchet : DoubleRatchet N.toSuite)
  | established (ratchet : DoubleRatchet N.toSuite) (messageToSend : N.Sealed)

def call : Call N → HandshakeM N (Answer N)
  | .writeMessage fresh => .message <$> writeMessage fresh
  | .readMessage message => (fun _ => .done) <$> readMessage message
  | .isFinished => .flag <$> isFinished
  | .finishAsInitiator dhSelf bobMessage => .session <$> finishAsInitiator dhSelf bobMessage
  | .finishAsResponder ratchetKey =>
    (fun r => .established r.1 r.2) <$> finishAsResponder ratchetKey

def takes : Call N → Bool
  | .writeMessage _ | .readMessage _ | .isFinished => false
  | .finishAsInitiator .. | .finishAsResponder _ => true

/-- The exchange has to be over before a call takes the handshake. -/
def admits (hs : HandshakeState N) (_ : Call N) : Bool := hs.isFinished

section OneShot

variable {hs : HandshakeState N} {c : Call N}

theorem run_takeFinished (hs : HandshakeState N) : takeFinished.run (some hs) =
    if hs.isFinished = true then .ok hs none
    else .error (.err (.invalidState "handshake not yet finished")) (some hs) := by
  change (if (!hs.isFinished) = true then _ else _ : HandshakeM N _).run (some hs) = _
  cases hs.isFinished <;> rfl

theorem call_of_takes (htakes : takes c = true) :
    ∃ (α : Type) (answer : α → Answer N) (f : HandshakeState N → Parse MeshError α),
      call c = answer <$> (takeFinished >>= fun hs => ofParse (f hs)) := by
  cases c with
  | writeMessage fresh => cases htakes
  | readMessage message => cases htakes
  | isFinished => cases htakes
  | finishAsInitiator dhSelf bobMessage => exact ⟨_, _, _, rfl⟩
  | finishAsResponder ratchetKey => exact ⟨_, _, _, rfl⟩

theorem after_call_admits (htakes : takes c = true) (hadmits : admits hs c = true) :
    Method.after ((call c).run (some hs)) = none := by
  have hfinished : hs.isFinished = true := hadmits
  obtain ⟨α, answer, f, hf⟩ := call_of_takes htakes
  rw [hf, Method.after_map, Method.after_bind_keeps (fun hs => after_ofParse (f hs)),
    run_takeFinished, if_pos hfinished, Method.after_ok]

theorem after_call_refuses (htakes : takes c = true) (hrefuses : admits hs c = false) :
    Method.after ((call c).run (some hs)) = some hs := by
  have hpending : ¬ hs.isFinished = true := Bool.eq_false_iff.mp hrefuses
  obtain ⟨α, answer, f, hf⟩ := call_of_takes htakes
  rw [hf, Method.after_map, Method.after_bind_keeps (fun hs => after_ofParse (f hs)),
    run_takeFinished, if_neg hpending, Method.after_error]

theorem isSome_after_call (htakes : takes c = false) (hs : HandshakeState N) :
    (Method.after ((call c).run (some hs))).isSome := by
  cases c with
  | writeMessage fresh =>
    rw [call, Method.after_map]
    exact Method.isSome_after_borrow _ hs
  | readMessage message =>
    rw [call, Method.after_map]
    exact Method.isSome_after_borrow _ hs
  | isFinished => rfl
  | finishAsInitiator dhSelf bobMessage => cases htakes
  | finishAsResponder ratchetKey => cases htakes

theorem run_call_none (htakes : takes c = true) :
    (call c).run none = .error (.err finished) none := by
  obtain ⟨α, answer, f, hf⟩ := call_of_takes htakes
  rw [hf]
  exact Method.run_map_error rfl

theorem after_call_none (c : Call N) : Method.after ((call c).run none) = none := by
  cases htakes : takes c with
  | true => rw [run_call_none htakes, Method.after_error]
  | false =>
    cases c with
    | writeMessage fresh => rfl
    | readMessage message => rfl
    | isFinished => rfl
    | finishAsInitiator dhSelf bobMessage => cases htakes
    | finishAsResponder ratchetKey => cases htakes

end OneShot

def oneShot (N : NoiseSuite) : OneShot FfiError (HandshakeState N) (Call N) (Answer N) where
  call := call
  takes := takes
  admits := admits
  gone := finished
  after_admits _ _ := after_call_admits
  after_refuses _ _ := after_call_refuses
  after_borrows hs _ htakes := isSome_after_call htakes hs
  after_none := after_call_none
  run_none _ htakes := .inl (run_call_none htakes)

end FfiHandshake

/-- An attempt that is refused for its arguments, or before the exchange is over, makes no
difference to later ones.  After any other, whether it succeeds or fails, none succeeds. -/
theorem attempts_use_up (P : Primitives) (L : OpenMls) (N : NoiseSuite) :
    (∀ m cs c, FfiMlsMember.takes c = true →
      ((∀ c ∈ cs, FfiMlsMember.takes c = true → FfiMlsMember.admits c = false) →
        (FfiMlsMember.call P c).run ((FfiMlsMember.oneShot P L).run (some m) cs) =
          (FfiMlsMember.call P c).run
            ((FfiMlsMember.oneShot P L).run (some m) ((FfiMlsMember.oneShot P L).others cs))) ∧
      ((∃ c ∈ cs, FfiMlsMember.takes c = true ∧ FfiMlsMember.admits c = true) →
        (FfiMlsMember.call P c).run ((FfiMlsMember.oneShot P L).run (some m) cs) =
            .error (.err FfiMlsMember.used) none ∨
          ∃ fault, ∀ s, (FfiMlsMember.call P c).run s = .error fault s)) ∧
      ∀ hs cs c, FfiHandshake.takes c = true →
        ((FfiHandshake.oneShot N).AllRefuse (some hs) cs →
          (FfiHandshake.call c).run ((FfiHandshake.oneShot N).run (some hs) cs) =
            (FfiHandshake.call c).run
              ((FfiHandshake.oneShot N).run (some hs) ((FfiHandshake.oneShot N).others cs))) ∧
        (¬ (FfiHandshake.oneShot N).AllRefuse (some hs) cs →
          (FfiHandshake.call c).run ((FfiHandshake.oneShot N).run (some hs) cs) =
            .error (.err FfiHandshake.finished) none) := by
  constructor
  · intro m cs c htakes
    constructor
    · intro hrefuse
      rw [OneShot.run_others ((FfiMlsMember.allRefuse_iff P m cs).mpr hrefuse)]
    · rintro ⟨c', hmem, htakes', hadmits'⟩
      apply OneShot.call_of_not_allRefuse (o := FfiMlsMember.oneShot P L) _ htakes
      rw [FfiMlsMember.allRefuse_iff]
      intro h
      rw [h c' hmem htakes'] at hadmits'
      cases hadmits'
  · intro hs cs c htakes
    constructor
    · intro hrefuse
      rw [OneShot.run_others hrefuse]
    · intro h
      rw [OneShot.run_of_not_allRefuse h]
      exact FfiHandshake.run_call_none htakes

section Examples

/-- The crate, as far as it reads a Welcome: there is one, and nothing else is a message. -/
def toyOpenMls : OpenMls where
  Signer := Unit
  Credential := Unit
  Coins := Unit
  KeyPackage := Unit
  Message := Unit
  Welcome := Unit
  StagedWelcome := Unit
  Group := Unit
  serializeSigner _ := .ok []
  buildKeyPackage _ _ _ storage := (.ok (), storage)
  serializeKeyPackage _ := .ok []
  newGroup _ _ _ storage := (.ok (), storage)
  deserializeMessage bytes := if bytes = [0, 1, 0, 3] then .ok () else .error "EndOfStream"
  extractWelcome := some
  newFromWelcome _ storage := (.ok (), storage)
  intoGroup _ storage := (.ok (), storage)
  loadGroup _ _ := .ok none

def toyMember : MlsMember toyOpenMls where
  storage := ∅
  signer := ()
  credentialWithKey := ()

/-- Four bytes that are no Welcome use up the member, and a forged message the handshake. -/
theorem garbage_uses_up :
    ¬ (∀ (m : MlsMember toyOpenMls) (garbage genuine : List UInt8) e t handle u,
        (FfiMlsMember.joinFromWelcome garbage).run (some m) = .error (.err e) t →
        (FfiMlsMember.joinFromWelcome genuine).run (some m) = .ok handle u →
        (FfiMlsMember.joinFromWelcome genuine).run t = .ok handle u) ∧
      ¬ (∀ (hs : HandshakeState Symbolic.toyNoiseSuite) dhSelf garbage genuine e t session u,
        (FfiHandshake.finishAsInitiator dhSelf garbage).run (some hs) = .error (.err e) t →
        (FfiHandshake.finishAsInitiator dhSelf genuine).run (some hs) = .ok session u →
        (FfiHandshake.finishAsInitiator dhSelf genuine).run t = .ok session u) := by
  constructor
  · intro h
    have hgone := h toyMember [1, 2, 3, 4] [0, 1, 0, 3] _ _ _ _ rfl rfl
    cases hgone
  · intro h
    have hgone := h Session.toyExchange.initiator (14 : Nat) (.bytes [1, 2, 3, 4])
      Session.toyRatchetKey _ _ _ _ rfl rfl
    cases hgone

end Examples

end ProjectMesh.Crypto
