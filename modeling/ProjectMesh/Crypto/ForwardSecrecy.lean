import ProjectMesh.Crypto.SingleUse
import ProjectMesh.Crypto.SessionAuth
import ProjectMesh.Lib.Forest

namespace ProjectMesh.Crypto

open ProjectMesh.Lib
open Relation (ReflTransGen)

namespace Symbolic

inductive KdfStep : Key → Key → Prop
  | kdfRk (half : Bool) (root : Key) (dhOut : Point) :
    KdfStep root (.hkdf half root dhOut "MESH_DR_RK")
  | chainKey (chain : Key) : KdfStep chain (.hmac chain 0x02)
  | messageKey (chain : Key) : KdfStep chain (.hmac chain 0x01)

/-- What can be computed from what is known with `kdf_rk`, `kdf_ck` and Diffie-Hellman. -/
inductive Derives (known : Item → Prop) : Item → Prop
  | known {x} : known x → Derives known x
  | publicKey {a} : Derives known (.secret a) → Derives known (.point (.mul {a}))
  | diffieHellman {a p} : Derives known (.secret a) → Derives known (.point p) →
    Derives known (.point (p.scale a))
  | kdfRk {half root p} : Derives known (.key root) → Derives known (.point p) →
    Derives known (.key (.hkdf half root p "MESH_DR_RK"))
  | chainKey {chain} : Derives known (.key chain) → Derives known (.key (.hmac chain 0x02))
  | messageKey {chain} : Derives known (.key chain) → Derives known (.key (.hmac chain 0x01))

def Key.height : Key → Nat
  | .hkdf _ salt _ _ => height salt + 1
  | .hmac key _ => height key + 1
  | _ => 0

theorem forest_kdfStep : Forest KdfStep :=
  Forest.of_height Key.height
    (fun h h' => by
      cases h with
      | kdfRk half root dhOut => cases h' with | kdfRk => rfl
      | chainKey chain => cases h' with | chainKey => rfl
      | messageKey chain => cases h' with | messageKey => rfl)
    (fun h => by cases h <;> exact Nat.lt_succ_self _)

theorem Derives.exists_known {known : Item → Prop} {x : Item} (h : Derives known x) :
    ∀ k, x = .key k → ∃ a, known (.key a) ∧ ReflTransGen KdfStep a k := by
  induction h with
  | known h =>
    rintro k rfl
    exact ⟨k, h, .refl⟩
  | publicKey => exact fun k hk => Item.noConfusion hk
  | diffieHellman => exact fun k hk => Item.noConfusion hk
  | kdfRk _ _ ih =>
    rintro _ ⟨⟩
    obtain ⟨a, ha, hsteps⟩ := ih _ rfl
    exact ⟨a, ha, hsteps.tail (.kdfRk _ _ _)⟩
  | chainKey _ ih =>
    rintro _ ⟨⟩
    obtain ⟨a, ha, hsteps⟩ := ih _ rfl
    exact ⟨a, ha, hsteps.tail (.chainKey _)⟩
  | messageKey _ ih =>
    rintro _ ⟨⟩
    obtain ⟨a, ha, hsteps⟩ := ih _ rfl
    exact ⟨a, ha, hsteps.tail (.messageKey _)⟩

end Symbolic

namespace Ratchet

open ProjectMesh.Lib.Method (Triple)
open ProjectMesh.Crypto.Padding
open ProjectMesh.Crypto.Symbolic
open ProjectMesh.Crypto.Session (sealingKey)

variable {encode : Public → List UInt8}

namespace DoubleRatchet

def held {C : Suite} (s : DoubleRatchet C) : List C.Key :=
  s.rootKey :: (s.sendChain.toList ++ s.recvChain.toList ++ Assoc.values s.skipped)

section Held

variable (secret : Key) (used : List Key)

def Keeps (inHand : List Key) (s : DoubleRatchet (suite encode)) : Prop :=
  Lib.Spent KdfStep secret (inHand ++ s.held) used

variable {secret used} {inHand inHand' : List Key} {s t : DoubleRatchet (suite encode)}

theorem Keeps.of_count (h : Keeps secret used inHand s)
    (hle : ∀ k, (inHand' ++ t.held).count k ≤ (inHand ++ s.held).count k) :
    Keeps secret used inHand' t := Lib.Spent.of_count h hle

theorem Keeps.kdfCk {chain : Key} (h : Keeps secret used [chain] s) :
    Keeps secret used [.hmac chain 0x01, .hmac chain 0x02] s :=
  Lib.Spent.branch forest_kdfStep h (.messageKey chain) (.chainKey chain) (by simp)

theorem Keeps.drop (h : Keeps secret used inHand s) : Keeps secret used [] s :=
  h.of_count fun k => by simp

theorem Keeps.takeSendChain (h : Keeps secret used [] s) :
    Keeps secret used s.sendChain.toList { s with sendChain := none } := by
  refine h.of_count fun k => ?_
  simp only [held, Option.toList_none, List.count_append, List.count_cons, List.count_nil]
  omega

theorem Keeps.takeRecvChain (h : Keeps secret used [] s) :
    Keeps secret used s.recvChain.toList { s with recvChain := none } := by
  refine h.of_count fun k => ?_
  simp only [held, Option.toList_none, List.count_append, List.count_cons, List.count_nil]
  omega

theorem Keeps.putSendChain {mk chain : Key} (h : Keeps secret used [mk, chain] s) :
    Keeps secret used [mk] { s with sendChain := some chain } := by
  refine h.of_count fun k => ?_
  simp only [held, Option.toList_some, List.count_append, List.count_cons, List.count_nil]
  omega

theorem Keeps.putRecvChain {mk chain : Key} (h : Keeps secret used [mk, chain] s) :
    Keeps secret used [mk] { s with recvChain := some chain } := by
  refine h.of_count fun k => ?_
  simp only [held, Option.toList_some, List.count_append, List.count_cons, List.count_nil]
  omega

variable (secret used)

theorem keeps_storeSkipped (key : Public × Nat) (mk : Key) :
    Triple (Keeps secret used (mk :: inHand)) (storeSkipped (C := suite encode) key mk)
      (fun _ => Keeps secret used inHand) (Keeps secret used []) := by
  refine Triple.bind (Triple.get (Q := fun self t => self = t ∧ Keeps secret used _ t)
    fun _ hs => ⟨rfl, hs⟩) fun self => ?_
  split
  · exact Triple.fail fun _ hs => hs.2.drop
  · refine Triple.set ?_
    rintro _ ⟨rfl, hs⟩
    refine hs.of_count fun k => ?_
    have hsub := (Assoc.values_erase_sublist self.skipped key).count_le k
    simp only [held, Assoc.values_insert, List.count_append, List.count_cons]
    omega

theorem keeps_skip (remote : Public) (k : Nat) (chain : Key) :
    Triple (Keeps secret used [chain]) (skip (C := suite encode) remote k chain)
      (fun chain' => Keeps secret used [chain']) (Keeps secret used []) := by
  induction k generalizing chain with
  | zero => exact Triple.pure fun _ hs => hs
  | succ k ih =>
    refine Triple.bind (Triple.get (Q := fun _ => Keeps secret used
      [.hmac chain 0x01, .hmac chain 0x02]) fun s hs => ?_) fun self => ?_
    · exact hs.kdfCk
    refine Triple.bind (keeps_storeSkipped secret used _ _) fun _ => ?_
    refine Triple.bind (Triple.succ32 (Q := fun _ => Keeps secret used [.hmac chain 0x02])
      (fun _ _ hs => hs) fun _ hs => hs.drop) fun recvN => ?_
    exact Triple.bind (Triple.modify (Q := fun _ => Keeps secret used [.hmac chain 0x02])
      fun _ hs => hs) fun _ => ih _

theorem keeps_messageKeyFor (n : Nat) :
    Triple (Keeps secret used []) (messageKeyFor (C := suite encode) n)
      (fun mk => Keeps secret used [mk]) (Keeps secret used []) := by
  refine Triple.bind (Triple.get (Q := fun self t => self = t ∧ Keeps secret used [] t)
    fun _ hs => ⟨rfl, hs⟩) fun self => ?_
  refine Triple.bind (Triple.okOr (Q := fun _ t => self = t ∧ Keeps secret used [] t)
    (fun _ _ _ hs => hs) fun _ hs => hs.2) fun remote => ?_
  split
  next mk hl =>
    refine Triple.bind (Triple.set (Q := fun _ => Keeps secret used [mk]) ?_) fun _ =>
      Triple.pure fun _ hs => hs
    rintro _ ⟨rfl, hs⟩
    refine hs.of_count fun k => ?_
    have hperm := (Assoc.values_perm_of_lookup hl).count_eq k
    simp only [held, List.count_append, List.count_cons, List.count_nil] at hperm ⊢
    omega
  next hl =>
    split
    · exact Triple.fail fun _ hs => hs.2
    refine Triple.bind (Triple.set (Q := fun _ => Keeps secret used self.recvChain.toList) ?_)
      fun _ => ?_
    · rintro _ ⟨rfl, hs⟩
      exact hs.takeRecvChain
    refine Triple.bind (Triple.okOr (Q := fun chain => Keeps secret used [chain]) ?_
      fun _ hs => hs.drop) fun chain => ?_
    · intro chain hc s hs
      rw [hc] at hs
      exact hs
    refine Triple.bind (keeps_skip secret used _ _ _) fun chain' => ?_
    refine Triple.bind (Triple.modify (Q := fun _ => Keeps secret used [.hmac chain' 0x01])
      fun s hs => hs.kdfCk.putRecvChain) fun _ => ?_
    refine Triple.bind (Triple.get (Q := fun self t => self = t ∧
      Keeps secret used [.hmac chain' 0x01] t) fun _ hs => ⟨rfl, hs⟩) fun self' => ?_
    refine Triple.bind (Triple.succ32 (Q := fun _ t => self' = t ∧
      Keeps secret used [.hmac chain' 0x01] t) (fun _ _ hs => hs) fun _ hs => hs.2.drop)
      fun recvN => ?_
    refine Triple.bind (Triple.set (Q := fun _ => Keeps secret used [.hmac chain' 0x01]) ?_)
      fun _ => Triple.pure fun _ hs => hs
    rintro _ ⟨rfl, hs⟩
    exact hs

theorem keeps_dhRatchet (fresh : Nat) (remotePub : Public) :
    Triple (Keeps secret used []) (dhRatchet (C := suite encode) fresh remotePub)
      (fun _ => Keeps secret used []) (Keeps secret used []) := by
  refine Triple.modify fun s hs => ?_
  have hreceived := Lib.Spent.branch forest_kdfStep hs
    (.kdfRk false s.rootKey (remotePub.point.scale s.dhSelf))
    (.kdfRk true s.rootKey (remotePub.point.scale s.dhSelf)) (by simp)
  have hsent := hreceived.branch forest_kdfStep
    (.kdfRk false _ (remotePub.point.scale fresh)) (.kdfRk true _ (remotePub.point.scale fresh))
    (by simp)
  refine hsent.of_count fun k => ?_
  simp only [held, kdfRk, Option.toList_some, List.count_append, List.count_cons,
    List.count_nil]
  omega

theorem keeps_turn (fresh : Nat) (header : Header (suite encode)) :
    Triple (Keeps secret used []) (turn fresh header)
      (fun _ => Keeps secret used []) (Keeps secret used []) := by
  refine Triple.bind (Triple.get (Q := fun self t => self = t ∧ Keeps secret used [] t)
    fun _ hs => ⟨rfl, hs⟩) fun self => ?_
  refine Triple.bind (Triple.set (Q := fun _ => Keeps secret used self.recvChain.toList) ?_)
    fun _ => ?_
  · rintro _ ⟨rfl, hs⟩
    exact hs.takeRecvChain
  split
  next chain oldRemote hc _ =>
    refine Triple.bind (Q := fun _ => Keeps secret used []) ?_ fun _ =>
      keeps_dhRatchet secret used fresh _
    refine Triple.bind (Triple.get (Q := fun _ => Keeps secret used [chain]) ?_) fun _ => ?_
    · intro s hs
      rw [hc] at hs
      exact hs
    · exact Triple.bind (keeps_skip secret used _ _ _) fun _ => Triple.pure fun _ hs => hs.drop
  next =>
    exact (keeps_dhRatchet secret used fresh header.dhPub).mono (fun _ hs => hs.drop)
      (fun _ _ hs => hs) fun _ hs => hs

theorem keeps_receive (header : Header (suite encode)) (ct : Sealed) :
    Triple (Keeps secret used []) (receive header ct)
      (fun _ s => ∃ mk, sealingKey ct = some mk ∧ Keeps secret (mk :: used) [] s)
      (Keeps secret used []) := by
  refine Triple.bind (keeps_messageKeyFor secret used _) fun mk => ?_
  refine Triple.ofExcept (fun pt hopen s hs => ?_) fun _ hs => hs.drop
  obtain ⟨padded, rfl, -⟩ := Guarded.openMessage_ok hopen
  exact ⟨mk, rfl, Lib.Spent.use hs⟩

theorem keeps_decrypt (fresh : Nat) (header : Header (suite encode)) (ct : Sealed) :
    Triple (Keeps secret used []) (decrypt fresh header ct)
      (fun _ s => ∃ mk, sealingKey ct = some mk ∧ Keeps secret (mk :: used) [] s)
      (Keeps secret used []) := by
  intro s hs
  cases hr : s.hasRemote header.dhPub with
  | true =>
    rw [decrypt_sameRemote hr]
    exact keeps_receive secret used header ct s hs
  | false =>
    rw [decrypt_newRemote hr]
    exact Triple.bind (keeps_turn secret used fresh header)
      (fun _ => keeps_receive secret used header ct) s hs

theorem keeps_encrypt (plaintext : List UInt8) :
    Triple (Keeps secret used []) (encrypt (C := suite encode) plaintext)
      (fun out s => ∃ mk, sealingKey out.2 = some mk ∧ Keeps secret (mk :: used) [] s)
      (Keeps secret used []) := by
  refine Triple.bind (Triple.get (Q := fun self t => self = t ∧ Keeps secret used [] t)
    fun _ hs => ⟨rfl, hs⟩) fun self => ?_
  refine Triple.bind (Triple.okOr (Q := fun chain t => self.sendChain = some chain ∧ self = t ∧
    Keeps secret used [] t) (fun _ hc _ hs => ⟨hc, hs⟩) fun _ hs => hs.2) fun chain => ?_
  let next : DoubleRatchet (suite encode) := { self with sendChain := some (.hmac chain 0x02) }
  let P := fun t => t.held = next.held ∧ Keeps secret used [.hmac chain 0x01] t
  refine Triple.bind (Triple.set (Q := fun _ => P) ?_) fun _ => ?_
  · rintro _ ⟨hc, rfl, hs⟩
    have htaken := hs.takeSendChain
    rw [hc] at htaken
    exact ⟨rfl, htaken.kdfCk.putSendChain⟩
  refine Triple.bind (Triple.succ32 (Q := fun _ => P) (fun _ _ hs => hs) fun _ hs => hs.2.drop)
    fun sendN => ?_
  refine Triple.bind (Triple.set (Q := fun _ => P) ?_) fun _ => ?_
  · rintro t ⟨heq, hs⟩
    refine ⟨rfl, ?_⟩
    rw [Keeps, heq] at hs
    exact hs
  refine Triple.bind (Triple.ofExcept (Q := fun _ => P) (fun _ _ _ hs => hs)
    fun _ hs => hs.2.drop) fun padded => ?_
  refine Triple.bind (Triple.ofExcept
    (Q := fun ct s => sealingKey ct = some (.hmac chain 0x01) ∧ P s) ?_ fun _ hs => hs.2.drop)
    fun ct => Triple.pure ?_
  · rintro _ ⟨⟩ _ hs
    exact ⟨rfl, hs⟩
  · rintro s ⟨hkey, -, hs⟩
    exact ⟨_, hkey, Lib.Spent.use hs⟩

end Held

end DoubleRatchet

def Call.usedKey : Call (suite encode) → Reply (suite encode) → Option Key
  | .encrypt _, .encrypted _ ct => sealingKey ct
  | .encrypt _, .decrypted _ => none
  | .decrypt _ _ ct, _ => sealingKey ct

theorem keeps_perform (secret : Key) (used : List Key) (c : Call (suite encode)) :
    Triple (DoubleRatchet.Keeps secret used []) c.perform
      (fun reply s => ∃ mk, c.usedKey reply = some mk ∧
        DoubleRatchet.Keeps secret (mk :: used) [] s)
      (DoubleRatchet.Keeps secret used []) := by
  cases c with
  | encrypt plaintext =>
    exact Triple.bind (DoubleRatchet.keeps_encrypt secret used plaintext) fun _ =>
      Triple.pure fun _ hs => hs
  | decrypt fresh header ct =>
    exact Triple.bind (DoubleRatchet.keeps_decrypt secret used fresh header ct) fun _ =>
      Triple.pure fun _ hs => hs

def Call.received {C : Suite} : Call C → List (Header C)
  | .encrypt _ => []
  | .decrypt _ header _ => [header]

def Reply.sent {C : Suite} : Reply C → List (Header C)
  | .encrypted header _ => [header]
  | .decrypted _ => []

/-- A session with the headers and public keys that have been seen of it, and the message
keys it has used. -/
structure Tapped (encode : Public → List UInt8) where
  session : DoubleRatchet (suite encode)
  headers : List (Header (suite encode))
  publics : List Public
  used : List Key

namespace Tapped

def call (w : Tapped encode) (c : Call (suite encode)) : Tapped encode :=
  match c.perform.run w.session with
  | .ok reply s =>
    { session := s
      headers := reply.sent ++ c.received ++ w.headers
      publics := s.dhSelfPub :: w.publics
      used := (c.usedKey reply).toList ++ w.used }
  | .error _ s =>
    { session := s
      headers := c.received ++ w.headers
      publics := s.dhSelfPub :: w.publics
      used := w.used }

def initiator (dhSelf : Nat) (secret : Key) (remote : Public) : Tapped encode where
  session := .initInitiator dhSelf secret remote
  headers := []
  publics := [(suite encode).publicKey dhSelf, remote]
  used := []

def responder (secret : Key) (own : Nat) : Tapped encode where
  session := .initResponder secret own
  headers := []
  publics := [(suite encode).publicKey own]
  used := []

/-- The points of the runs of a session that starts from the shared secret. -/
inductive Reachable (secret : Key) : Tapped encode → Prop
  | initiator (dhSelf : Nat) (remote : Public) : Reachable secret (initiator dhSelf secret remote)
  | responder (own : Nat) : Reachable secret (responder secret own)
  | call {w : Tapped encode} (c : Call (suite encode)) : Reachable secret w →
    Reachable secret (w.call c)

/-- What is known to whoever gets hold of the session: all of its secrets, all headers and
public keys so far, and what they knew before. -/
inductive Exposed (known : Item → Prop) (w : Tapped encode) : Item → Prop
  | known {x} : known x → Exposed known w x
  | dhSelf : Exposed known w (.secret w.session.dhSelf)
  | rootKey : Exposed known w (.key w.session.rootKey)
  | sendChain {k} : w.session.sendChain = some k → Exposed known w (.key k)
  | recvChain {k} : w.session.recvChain = some k → Exposed known w (.key k)
  | skipped {place k} : w.session.skipped.lookup place = some k → Exposed known w (.key k)
  | header {h : Header (suite encode)} : h ∈ w.headers → Exposed known w (.point h.dhPub.point)
  | publicKey {p : Public} : p ∈ w.publics → Exposed known w (.point p.point)

variable {secret k mk : Key} {known : Item → Prop} {w : Tapped encode}

theorem keeps_call (h : w.session.Keeps secret w.used []) (c : Call (suite encode)) :
    (w.call c).session.Keeps secret (w.call c).used [] := by
  have hend := keeps_perform secret w.used c w.session h
  rw [call]
  split
  next reply s hrun =>
    rw [hrun] at hend
    obtain ⟨mk, hmk, hkeeps⟩ := hend
    rw [hmk]
    exact hkeeps
  next f s hrun =>
    rw [hrun] at hend
    exact hend

theorem Reachable.keeps (h : Reachable secret w) : w.session.Keeps secret w.used [] := by
  induction h with
  | initiator dhSelf remote =>
    have hstart := Lib.Spent.branch forest_kdfStep (Lib.Spent.start secret)
      (.kdfRk false secret (remote.point.scale dhSelf))
      (.kdfRk true secret (remote.point.scale dhSelf)) (by simp)
    exact hstart
  | responder own => exact Lib.Spent.start secret
  | call c _ ih => exact keeps_call ih c

theorem Exposed.held (h : Exposed known w (.key k)) : known (.key k) ∨ k ∈ w.session.held := by
  cases h with
  | known h => exact .inl h
  | rootKey => exact .inr List.mem_cons_self
  | sendChain h => exact .inr (by simp [DoubleRatchet.held, h])
  | recvChain h => exact .inr (by simp [DoubleRatchet.held, h])
  | skipped h =>
    have hmem := Assoc.mem_values_iff.mpr ⟨_, h⟩
    exact .inr (by simp [DoubleRatchet.held, hmem])

/-- Forward secrecy: no message key that has been used can be computed from the session,
if nothing else that is known is of the line of its shared secret. -/
theorem used_not_derivable (hw : Reachable secret w)
    (hknown : ∀ k, known (.key k) → Apart KdfStep secret k) (hmk : mk ∈ w.used) :
    ¬ Derives (w.Exposed known) (.key mk) := by
  intro hderives
  obtain ⟨a, ha, hsteps⟩ := hderives.exists_known mk rfl
  exact hw.keeps.not_reached forest_kdfStep hmk (ha.held.symm.imp_right (hknown a)) hsteps

/-- An initiator that has sent one message and then refused a frame made up by someone who
knows the other side's ratchet key. -/
def probed : Tapped Symbolic.encode :=
  ((initiator 1 (.protocol "shared") ⟨.mul {2}, 0⟩).call (.encrypt [104, 105])).call
    (.decrypt 5 ⟨⟨.small 0, 1⟩, 0, 2⟩ (.bytes []))

theorem used_not_derivable_probed :
    ¬ Derives (probed.Exposed fun x => x = .secret 2 ∨ x = .key (.protocol "other"))
      (.key (.hmac (.hkdf true (.protocol "shared") (.mul {1, 2}) "MESH_DR_RK") 0x01)) := by
  have hrun : Reachable (.protocol "shared") probed := .call _ (.call _ (.initiator _ _))
  refine used_not_derivable hrun ?_ (by decide)
  rintro k (h | h)
  · cases h
  · cases h
    constructor
    · intro hsteps
      rcases hsteps.cases_tail with heq | ⟨_, -, hstep⟩
      · simp at heq
      · cases hstep
    · intro hsteps
      rcases hsteps.cases_tail with heq | ⟨_, -, hstep⟩
      · simp at heq
      · cases hstep

end Tapped

end Ratchet

end ProjectMesh.Crypto
