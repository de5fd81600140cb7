import ProjectMesh.Crypto.Padding
import ProjectMesh.Crypto.Suite
import ProjectMesh.Lib.Assoc
import ProjectMesh.Lib.Method

namespace ProjectMesh.Crypto.Ratchet

open ProjectMesh.Lib
open ProjectMesh.Crypto.Padding

variable {C : Suite}

def maxSkip : Nat := 1000

structure Header (C : Suite) where
  dhPub : C.Public
  /-- Length of the previous sending chain. -/
  pn : UInt32
  /-- Index of this message within the current sending chain. -/
  n : UInt32

def Header.toBytes (h : Header C) : List UInt8 :=
  C.publicBytes h.dhPub ++ leBytes 4 h.pn.toNat ++ leBytes 4 h.n.toNat

abbrev SkippedKeys (C : Suite) := Assoc (C.Public × Nat) C.Key

/-- The counters are `u32`s. -/
structure DoubleRatchet (C : Suite) where
  dhSelf : C.Secret
  dhSelfPub : C.Public
  dhRemote : Option C.Public
  rootKey : C.Key
  sendChain : Option C.Key
  recvChain : Option C.Key
  sendN : Nat
  recvN : Nat
  prevSendN : Nat
  skipped : SkippedKeys C

def kdfRk (rootKey : C.Key) (dhOut : C.Shared) : C.Key × C.Key :=
  C.hkdf rootKey dhOut "MESH_DR_RK"

def kdfCk (chainKey : C.Key) : C.Key × C.Key :=
  (C.hmac chainKey 0x02, C.hmac chainKey 0x01)

abbrev RatchetM (C : Suite) := Method MeshError (DoubleRatchet C)

namespace DoubleRatchet

def initInitiator (dhSelf : C.Secret) (sharedSecret : C.Key) (remoteRatchetPub : C.Public) :
    DoubleRatchet C :=
  let dhOut := C.diffieHellman dhSelf remoteRatchetPub
  let (newRoot, sendChain) := kdfRk sharedSecret dhOut
  { dhSelf := dhSelf
    dhSelfPub := C.publicKey dhSelf
    dhRemote := some remoteRatchetPub
    rootKey := newRoot
    sendChain := some sendChain
    recvChain := none
    sendN := 0
    recvN := 0
    prevSendN := 0
    skipped := ∅ }

def initResponder (sharedSecret : C.Key) (ownRatchetKeypair : C.Secret) : DoubleRatchet C :=
  { dhSelf := ownRatchetKeypair
    dhSelfPub := C.publicKey ownRatchetKeypair
    dhRemote := none
    rootKey := sharedSecret
    sendChain := none
    recvChain := none
    sendN := 0
    recvN := 0
    prevSendN := 0
    skipped := ∅ }

def encrypt (plaintext : List UInt8) (overflow : Overflow := .checked) :
    RatchetM C (Header C × C.Sealed) := do
  let self ← get
  let chain ← Method.okOr self.sendChain
    (.ratchet "no sending chain yet (waiting on first inbound message)")
  let (newChain, messageKey) := kdfCk chain
  set { self with sendChain := some newChain }
  let header : Header C :=
    { dhPub := self.dhSelfPub, pn := .ofNat self.prevSendN, n := .ofNat self.sendN }
  let sendN ← Method.succ32 self.sendN overflow
  set { self with sendChain := some newChain, sendN := sendN }
  let padded ← Method.ofExcept (padToBucket plaintext)
  let ct ← Method.ofExcept (aeadSealOnce messageKey header.toBytes padded)
  return (header, ct)

def storeSkipped (key : C.Public × Nat) (messageKey : C.Key) : RatchetM C Unit := do
  let self ← get
  if Assoc.size self.skipped ≥ maxSkip then
    Method.fail (.ratchet "too many skipped messages (bounded flood guard)")
  else
    set { self with skipped := self.skipped.insert key messageKey }

/-- The skip loop `while recv_n < upto`, as the `upto - recv_n` rounds it takes: each
stores one message key and raises `recv_n`.  Gives the chain key it ends with. -/
def skip (remoteBytes : C.Public) (rounds : Nat) (chain : C.Key)
    (overflow : Overflow := .checked) : RatchetM C C.Key :=
  match rounds with
  | 0 => pure chain
  | k + 1 => do
    let (newChain, messageKey) := kdfCk chain
    let self ← get
    storeSkipped (remoteBytes, self.recvN) messageKey
    let recvN ← Method.succ32 self.recvN overflow
    modify ({ · with recvN := recvN })
    skip remoteBytes k newChain overflow

def skipChain (chain : C.Key) (remoteBytes : C.Public) (upto : Nat)
    (overflow : Overflow := .checked) : RatchetM C Unit := do
  let self ← get
  let _ ← skip remoteBytes (upto - self.recvN) chain overflow
  return ()

def dhRatchet (fresh : C.Secret) (remotePub : C.Public) : RatchetM C Unit :=
  modify fun self =>
    let dhOut := C.diffieHellman self.dhSelf remotePub
    let (newRoot, recvChain) := kdfRk self.rootKey dhOut
    let dhOut2 := C.diffieHellman fresh remotePub
    let (newRoot2, sendChain) := kdfRk newRoot dhOut2
    { self with
      prevSendN := self.sendN
      sendN := 0
      recvN := 0
      dhRemote := some remotePub
      recvChain := some recvChain
      dhSelf := fresh
      dhSelfPub := C.publicKey fresh
      rootKey := newRoot2
      sendChain := some sendChain }

def messageKeyFor (n : Nat) (overflow : Overflow := .checked) : RatchetM C C.Key := do
  let self ← get
  let remoteBytes ← Method.okOr self.dhRemote (.ratchet "no remote ratchet key established")
  match self.skipped.lookup (remoteBytes, n) with
  | some messageKey =>
    set { self with skipped := self.skipped.erase (remoteBytes, n) }
    return messageKey
  | none =>
    if n < self.recvN then
      Method.fail (.ratchet "message key already consumed (replay or out-of-window)")
    else
      set { self with recvChain := none }
      let chain ← Method.okOr self.recvChain (.ratchet "no receiving chain established")
      let chain ← skip remoteBytes (n - self.recvN) chain overflow
      let (newChain, messageKey) := kdfCk chain
      modify ({ · with recvChain := some newChain })
      let self ← get
      let recvN ← Method.succ32 self.recvN overflow
      set { self with recvN := recvN }
      return messageKey

/-- Whether `dh_remote` is the given key. -/
def hasRemote (self : DoubleRatchet C) (remotePub : C.Public) : Bool :=
  match self.dhRemote with
  | some r => C.samePoint r remotePub
  | none => false

/-- The move to a new remote key: what is left of the old chain is skipped, then the
ratchet turns.  `recv_chain.take()` empties the field before the skip can fail. -/
def turn (fresh : C.Secret) (header : Header C) (overflow : Overflow := .checked) :
    RatchetM C Unit := do
  let self ← get
  set { self with recvChain := none }
  match self.recvChain, self.dhRemote with
  | some chain, some oldRemote => skipChain chain oldRemote header.pn.toNat overflow
  | _, _ => pure ()
  dhRatchet fresh header.dhPub

def decrypt (fresh : C.Secret) (header : Header C) (ciphertext : C.Sealed)
    (overflow : Overflow := .checked) : RatchetM C (List UInt8) := do
  let self ← get
  if !self.hasRemote header.dhPub then
    turn fresh header overflow
  let messageKey ← messageKeyFor header.n.toNat overflow
  let padded ← Method.ofExcept (aeadOpenOnce messageKey header.toBytes ciphertext)
  Method.ofExcept (unpad padded)

end DoubleRatchet

end ProjectMesh.Crypto.Ratchet
