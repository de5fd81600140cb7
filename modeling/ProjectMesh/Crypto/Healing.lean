import ProjectMesh.Crypto.ForwardSecrecy
import ProjectMesh.Crypto.Hidden

namespace ProjectMesh.Crypto.Ratchet

open ProjectMesh.Lib
open ProjectMesh.Lib.Method (Triple)
open ProjectMesh.Crypto.Symbolic
open ProjectMesh.Crypto.Session (sealingKey)

variable {encode : Public → List UInt8}

namespace DoubleRatchet

section Turned

variable {C : Suite}

theorem turn_turned (s : DoubleRatchet C) (fresh : C.Secret) (header : Header C) :
    (∃ u : DoubleRatchet C, u.sendingHalf = s.sendingHalf ∧
        (turn fresh header).run s = .ok () (u.turned fresh header.dhPub)) ∨
      ∃ t, (turn fresh header).run s = .error (.err tooMany) t ∧
        t.sendingHalf = s.sendingHalf ∧ t.recvChain = none := by
  cases hc : s.recvChain with
  | none => exact .inl ⟨s, rfl, turn_noChain fresh hc⟩
  | some chain =>
    cases hr : s.dhRemote with
    | none => exact .inl ⟨s, rfl, turn_noRemote fresh hr⟩
    | some r =>
      rcases room_or_fullAt s r chain (header.pn.toNat - s.recvN) with hroom | ⟨j, hj, hfull⟩
      · refine .inl ⟨s.stashed r chain (header.pn.toNat - s.recvN), ?_, turn_room fresh hc hr hroom⟩
        simp only [sendingHalf, stashed, hr]
      · refine .inr ⟨_, turn_full fresh hc hr hj hfull, ?_, rfl⟩
        simp only [sendingHalf, stranded, stashed, hr]

end Turned

section Healed

variable {hidden : Point → Prop} {s t : DoubleRatchet (suite encode)}
  {keys keys' : Key × Option Key}

def Heals (hidden : Point → Prop) (keys : Key × Option Key) : Prop :=
  keys.1.Carries hidden ∧ ∀ c, keys.2 = some c → c.Carries hidden

theorem Heals.moves (h : Heals hidden keys)
    (hmoves : Moves (C := suite encode) keys keys') : Heals hidden keys' := by
  rcases hmoves with rfl | ⟨dhOut, dhOut2, rfl⟩
  · exact h
  · refine ⟨.inl (.inl h.1), ?_⟩
    rintro c ⟨⟩
    exact .inl (.inl h.1)

theorem heals_call {s : DoubleRatchet (suite encode)} (h : Heals hidden s.sendingKeys)
    (c : Call (suite encode)) :
    Heals hidden (Method.after (c.perform.run s)).sendingKeys := by
  cases c with
  | encrypt plaintext =>
    rw [after_perform_encrypt, encrypt_moves]
    refine ⟨h.1, fun c hc => ?_⟩
    obtain ⟨chain, hchain, rfl⟩ := Option.map_eq_some_iff.mp hc
    exact h.2 chain hchain
  | decrypt fresh header ct =>
    rw [after_perform_decrypt]
    exact h.moves (decrypt_moves fresh header ct s)

structure Restored (hidden : Point → Prop) (old : List Key) (s : DoubleRatchet (suite encode)) :
    Prop where
  sends : Heals hidden s.sendingKeys
  recv : ∀ c, s.recvChain = some c → c.Carries hidden
  kept : ∀ mk ∈ Assoc.values s.skipped, mk ∈ old ∨ mk.Carries hidden

end Healed

section Triples

variable (hidden : Point → Prop) (old : List Key)

theorem restored_storeSkipped (key : Public × Nat) {mk : Key} (hmk : mk.Carries hidden) :
    Triple (Restored hidden old) (storeSkipped (C := suite encode) key mk)
      (fun _ => Restored hidden old) (Restored hidden old) := by
  refine Triple.bind (Triple.get (Q := fun self t => self = t ∧ Restored hidden old t)
    fun _ hs => ⟨rfl, hs⟩) fun self => ?_
  split
  · exact Triple.fail fun _ hs => hs.2
  · refine Triple.set ?_
    rintro _ ⟨rfl, hs⟩
    refine { hs with kept := fun k hk => ?_ }
    rw [Assoc.values_insert] at hk
    rcases List.mem_cons.mp hk with rfl | hk
    · exact .inr hmk
    · exact hs.kept k ((Assoc.values_erase_sublist _ _).subset hk)

theorem restored_skip (remote : Public) (k : Nat) {chain : Key} (hchain : chain.Carries hidden) :
    Triple (Restored hidden old) (skip (C := suite encode) remote k chain)
      (fun chain' s => chain'.Carries hidden ∧ Restored hidden old s) (Restored hidden old) := by
  induction k generalizing chain with
  | zero => exact Triple.pure fun _ hs => ⟨hchain, hs⟩
  | succ k ih =>
    refine Triple.bind (Triple.get (Q := fun _ => Restored hidden old) fun _ hs => hs)
      fun self => ?_
    refine Triple.bind (restored_storeSkipped hidden old _ hchain) fun _ => ?_
    refine Triple.bind (Triple.succ32 (Q := fun _ => Restored hidden old) (fun _ _ hs => hs)
      fun _ hs => hs) fun recvN => ?_
    refine Triple.bind (Triple.modify (Q := fun _ => Restored hidden old)
      fun _ hs => { hs with }) fun _ => ?_
    exact ih hchain

theorem restored_messageKeyFor (n : Nat) :
    Triple (Restored hidden old) (messageKeyFor (C := suite encode) n)
      (fun mk s => (mk ∈ old ∨ mk.Carries hidden) ∧ Restored hidden old s)
      (Restored hidden old) := by
  refine Triple.bind (Triple.get (Q := fun self t => self = t ∧ Restored hidden old t)
    fun _ hs => ⟨rfl, hs⟩) fun self => ?_
  refine Triple.bind (Triple.okOr (Q := fun _ t => self = t ∧ Restored hidden old t)
    (fun _ _ _ hs => hs) fun _ hs => hs.2) fun remote => ?_
  split
  next mk hl =>
    refine Triple.bind (Triple.set (Q := fun _ s => (mk ∈ old ∨ mk.Carries hidden) ∧
      Restored hidden old s) ?_) fun _ => Triple.pure fun _ hs => hs
    rintro _ ⟨rfl, hs⟩
    exact ⟨hs.kept mk (Assoc.mem_values_iff.mpr ⟨_, hl⟩), { hs with
      kept := fun k hk => hs.kept k ((Assoc.values_erase_sublist _ _).subset hk) }⟩
  next =>
    split
    · exact Triple.fail fun _ hs => hs.2
    refine Triple.bind (Triple.set (Q := fun _ s =>
      (∀ c, self.recvChain = some c → c.Carries hidden) ∧ Restored hidden old s) ?_) fun _ => ?_
    · rintro _ ⟨rfl, hs⟩
      exact ⟨hs.recv, { hs with recv := nofun }⟩
    refine Triple.bind (Triple.okOr (Q := fun chain s => chain.Carries hidden ∧
      Restored hidden old s) (fun c hc _ hs => ⟨hs.1 c hc, hs.2⟩) fun _ hs => hs.2) fun chain => ?_
    intro s hs
    refine Triple.bind (restored_skip hidden old _ _ hs.1) (fun chain' => ?_) s hs.2
    refine Triple.bind (Triple.modify (Q := fun _ s => chain'.Carries hidden ∧
      Restored hidden old s) ?_) fun _ => ?_
    · rintro t ⟨hchain, ht⟩
      refine ⟨hchain, { ht with recv := ?_ }⟩
      rintro c ⟨⟩
      exact hchain
    refine Triple.bind (Triple.get (Q := fun self t => self = t ∧ chain'.Carries hidden ∧
      Restored hidden old t) fun _ ht => ⟨rfl, ht⟩) fun self' => ?_
    refine Triple.bind (Triple.succ32 (Q := fun _ t => self' = t ∧ chain'.Carries hidden ∧
      Restored hidden old t) (fun _ _ ht => ht) fun _ ht => ht.2.2) fun recvN => ?_
    refine Triple.bind (Triple.set (Q := fun _ t => chain'.Carries hidden ∧
      Restored hidden old t) ?_) fun _ => Triple.pure fun _ ht => ⟨.inr ht.1, ht.2⟩
    rintro _ ⟨rfl, hchain, ht⟩
    exact ⟨hchain, { ht with }⟩

def OpensWith (ct : Sealed) : Prop :=
  ∃ mk, sealingKey ct = some mk ∧ (mk ∈ old ∨ mk.Carries hidden)

theorem restored_receive (header : Header (suite encode)) (ct : Sealed) :
    Triple (Restored hidden old) (receive header ct)
      (fun _ s => OpensWith hidden old ct ∧ Restored hidden old s) (Restored hidden old) := by
  refine Triple.bind (restored_messageKeyFor hidden old _) fun mk => ?_
  refine Triple.ofExcept (fun pt hopen s hs => ?_) fun _ hs => hs.2
  obtain ⟨padded, rfl, -⟩ := Guarded.openMessage_ok hopen
  exact ⟨⟨mk, rfl, hs.1⟩, hs.2⟩

theorem restored_turn (fresh : Nat) (header : Header (suite encode)) :
    Triple (Restored hidden old) (turn fresh header) (fun _ => Restored hidden old)
      (Restored hidden old) := by
  have hratchet : Triple (Restored hidden old)
      (dhRatchet (C := suite encode) fresh header.dhPub) (fun _ => Restored hidden old)
      (Restored hidden old) := by
    refine Triple.modify fun s hs => { sends := ?_, recv := ?_, kept := hs.kept }
    · exact hs.sends.moves (.inr ⟨header.dhPub.point.scale s.dhSelf,
        header.dhPub.point.scale fresh, rfl⟩)
    · rintro c ⟨⟩
      exact .inl hs.sends.1
  refine Triple.bind (Triple.get (Q := fun self t => self = t ∧ Restored hidden old t)
    fun _ hs => ⟨rfl, hs⟩) fun self => ?_
  refine Triple.bind (Triple.set (Q := fun _ s =>
    (∀ c, self.recvChain = some c → c.Carries hidden) ∧ Restored hidden old s) ?_) fun _ => ?_
  · rintro _ ⟨rfl, hs⟩
    exact ⟨hs.recv, { hs with recv := nofun }⟩
  split
  next chain oldRemote hc _ =>
    intro s hs
    refine Triple.bind (Q := fun _ => Restored hidden old) ?_ (fun _ => hratchet) s hs.2
    refine Triple.bind (Triple.get (Q := fun _ => Restored hidden old) fun _ ht => ht)
      fun _ => ?_
    exact Triple.bind (restored_skip hidden old _ _ (hs.1 chain hc)) fun _ =>
      Triple.pure fun _ ht => ht.2
  next => exact hratchet.mono (fun _ hs => hs.2) (fun _ _ hs => hs) fun _ hs => hs

theorem restored_decrypt (fresh : Nat) (header : Header (suite encode)) (ct : Sealed) :
    Triple (Restored hidden old) (decrypt fresh header ct)
      (fun _ s => OpensWith hidden old ct ∧ Restored hidden old s) (Restored hidden old) := by
  intro s hs
  cases hr : s.hasRemote header.dhPub with
  | true =>
    rw [decrypt_sameRemote hr]
    exact restored_receive hidden old header ct s hs
  | false =>
    rw [decrypt_newRemote hr]
    exact Triple.bind (restored_turn hidden old fresh header)
      (fun _ => restored_receive hidden old header ct) s hs

theorem restored_call {s : DoubleRatchet (suite encode)} (h : Restored hidden old s)
    (c : Call (suite encode)) : Restored hidden old (Method.after (c.perform.run s)) := by
  cases c with
  | encrypt plaintext =>
    have hsends := heals_call h.sends (.encrypt plaintext)
    rw [after_perform_encrypt] at hsends ⊢
    obtain ⟨n, hafter⟩ := after_encrypt plaintext s
    rw [hafter] at hsends ⊢
    exact { h with sends := hsends }
  | decrypt fresh header ct =>
    rw [after_perform_decrypt]
    exact Triple.after ((restored_decrypt hidden old fresh header ct).mono (fun _ h => h)
      (fun _ _ h => h.2) fun _ h => h) h

theorem restored_of_newRemote {s : DoubleRatchet (suite encode)}
    (h : Heals hidden s.sendingKeys) {header : Header (suite encode)}
    (hnew : s.hasRemote header.dhPub = false) (fresh : Nat) (ct : Sealed) :
    Restored hidden (Assoc.values (Method.after ((turn fresh header).run s)).skipped)
      (Method.after ((Call.decrypt fresh header ct).perform.run s)) := by
  rw [after_perform_decrypt, decrypt_newRemote hnew]
  rcases turn_turned s fresh header with ⟨u, hhalf, hturn⟩ | ⟨t, hturn, hhalf, hnone⟩
  · simp only [sendingHalf, Prod.mk.injEq] at hhalf
    have hroot : u.rootKey.Carries hidden := by
      rw [hhalf.2.2.2.1]
      exact h.1
    have hturned : Restored hidden (Assoc.values u.skipped) (u.turned fresh header.dhPub) := by
      refine ⟨⟨.inl (.inl hroot), ?_⟩, ?_, fun _ => .inl⟩
      · rintro c ⟨⟩
        exact .inl (.inl hroot)
      · rintro c ⟨⟩
        exact .inl hroot
    rw [EStateM.run_bind, hturn]
    exact Triple.after ((restored_receive hidden _ header ct).mono (fun _ h => h)
      (fun _ _ h => h.2) fun _ h => h) hturned
  · simp only [sendingHalf, Prod.mk.injEq] at hhalf
    rw [EStateM.run_bind, hturn]
    refine ⟨?_, ?_, fun _ => .inl⟩
    · rw [Method.after_error, sendingKeys, hhalf.2.2.2.1, hhalf.2.2.2.2.1]
      exact h
    · rw [Method.after_error, hnone]
      rintro c ⟨⟩

end Triples

theorem sendingKeys_of_fresh {s : DoubleRatchet (suite encode)} {fresh : Nat}
    {header : Header (suite encode)} {ct : Sealed} (hnew : s.hasRemote header.dhPub = false)
    (hturn : (Method.after ((Call.decrypt fresh header ct).perform.run s)).dhSelf = fresh)
    (hne : s.dhSelf ≠ fresh) :
    (Method.after ((Call.decrypt fresh header ct).perform.run s)).sendingKeys =
      turnedKeys (C := suite encode) s.rootKey (header.dhPub.point.scale s.dhSelf)
        (header.dhPub.point.scale fresh) := by
  rw [after_perform_decrypt, decrypt_newRemote hnew] at hturn ⊢
  rcases turn_turned s fresh header with ⟨u, hhalf, hrun⟩ | ⟨t, hrun, hhalf, -⟩
  · simp only [sendingHalf, Prod.mk.injEq] at hhalf
    rw [EStateM.run_bind, hrun]
    have hkeys := Triple.after (keepsKeys_receive (u.turned fresh header.dhPub).sendingKeys
      header ct) rfl
    rw [← hhalf.1, ← hhalf.2.2.2.1]
    exact hkeys
  · simp only [sendingHalf, Prod.mk.injEq] at hhalf
    rw [EStateM.run_bind, hrun] at hturn
    exact absurd (hhalf.1.symm.trans hturn) hne

end DoubleRatchet

namespace Tapped

open DoubleRatchet

def Owns (known : Item → Prop) (w : Tapped encode) (a : Nat) : Prop :=
  w.Exposed known (.secret a)

/-- What is seen by whoever got hold of the session, and from then on sees all public keys and
the ciphertexts that are given out. -/
inductive Watched (known : Item → Prop) (w : Tapped encode) (given : Sealed → Prop) : Item → Prop
  | before {x} : w.Exposed known x → Watched known w given x
  | publicKey (a : Nat) : Watched known w given (.point (.mul {a}))
  | ciphertext {k ad m} : given (.box k ad m) → Watched known w given (.sealed (.box k ad m))

/-- The keys that a session has to send with. -/
inductive SendsWith (w : Tapped encode) : Key → Prop
  | rootKey : SendsWith w w.session.rootKey
  | sendChain {k} : w.session.sendChain = some k → SendsWith w k
  | message {plaintext h ct s k} : (encrypt plaintext).run w.session = .ok (h, ct) s →
    sealingKey ct = some k → SendsWith w k

variable {known : Item → Prop} {given : Sealed → Prop} {w : Tapped encode} {hidden : Point → Prop}
  {f : Nat} {header : Header (suite encode)} {ct : Sealed} {k : Key}

theorem owns_iff {a : Nat} : w.Owns known a ↔ known (.secret a) ∨ a = w.session.dhSelf := by
  constructor
  · intro h
    cases h with
    | known h => exact .inl h
    | dhSelf => exact .inr rfl
  · rintro (h | rfl)
    · exact .known h
    · exact .dhSelf

theorem session_call (w : Tapped encode) (c : Call (suite encode)) :
    (w.call c).session = Method.after (c.perform.run w.session) := by
  rw [call]
  split
  next hrun => rw [hrun, Method.after_ok]
  next hrun => rw [hrun, Method.after_error]

def after (w : Tapped encode) (calls : List (Call (suite encode))) : Tapped encode :=
  calls.foldl call w

theorem heals_after (h : Heals hidden w.session.sendingKeys) (calls : List (Call (suite encode))) :
    Heals hidden (w.after calls).session.sendingKeys := by
  induction calls generalizing w with
  | nil => exact h
  | cons c calls ih =>
    refine ih ?_
    rw [session_call]
    exact heals_call h c

theorem restored_after {old : List Key} (h : Restored hidden old w.session)
    (calls : List (Call (suite encode))) : Restored hidden old (w.after calls).session := by
  induction calls generalizing w with
  | nil => exact h
  | cons c calls ih =>
    refine ih ?_
    rw [session_call]
    exact restored_call hidden old h c

theorem SendsWith.carries (h : w.SendsWith k) (hheals : Heals hidden w.session.sendingKeys) :
    k.Carries hidden := by
  cases h with
  | rootKey => exact hheals.1
  | sendChain hc => exact hheals.2 k hc
  | message hrun hkey =>
    obtain ⟨chain, padded, hc, -, -, hseal, -⟩ := encrypt_cases hrun
    cases hseal
    cases hkey
    exact hheals.2 chain hc

theorem Watched.harmless {x : Item} (h : w.Watched known given x)
    (hfresh : ∀ x, w.Exposed known x → ¬ x.Mentions f) :
    x.Harmless (Beyond (w.Owns known) f) (w.Owns known) given := by
  cases h with
  | before h =>
    refine harmless_of_not_mentions (hfresh x h) ?_
    rintro a rfl
    exact h
  | publicKey a => exact not_beyond_publicKey
  | ciphertext h => exact fun _ => h

theorem harmless_of_knows {x : Item} (h : Knows (w.Owns known) (w.Watched known given) x)
    (hfresh : ∀ x, w.Exposed known x → ¬ x.Mentions f) :
    x.Harmless (Beyond (w.Owns known) f) (w.Owns known) given :=
  h.harmless (hides_beyond fun hf => hfresh _ hf rfl) fun _ hx => hx.harmless hfresh

section Turn

variable (hnew : w.session.hasRemote header.dhPub = false)
  (hturn : (w.call (.decrypt f header ct)).session.dhSelf = f)
  (hfresh : ∀ x, w.Exposed known x → ¬ x.Mentions f)

include hnew hturn hfresh

theorem sendingKeys_of_turn : (w.call (.decrypt f header ct)).session.sendingKeys =
    turnedKeys (C := suite encode) w.session.rootKey
      (header.dhPub.point.scale w.session.dhSelf) (header.dhPub.point.scale f) := by
  rw [session_call] at hturn ⊢
  exact sendingKeys_of_fresh hnew hturn (hfresh _ .dhSelf)

theorem heals_of_turn (howned : ¬ header.dhPub.point.Owned (w.Owns known)) :
    Heals (Beyond (w.Owns known) f) (w.call (.decrypt f header ct)).session.sendingKeys := by
  have hbeyond : Beyond (w.Owns known) f (header.dhPub.point.scale f) :=
    beyond_scale_iff.mpr howned
  rw [sendingKeys_of_turn hnew hturn hfresh]
  refine ⟨.inr hbeyond, ?_⟩
  rintro c ⟨⟩
  exact .inr hbeyond

/-- Who got hold of the session keeps up with its next turn just if the key it turns to is all
theirs.  If it is not, they know no key that the session ever sends with again. -/
theorem sending_heals_iff :
    (∀ calls k, ((w.call (.decrypt f header ct)).after calls).SendsWith k →
        ¬ Knows (w.Owns known) (w.Watched known given) (.key k)) ↔
      ¬ header.dhPub.point.Owned (w.Owns known) := by
  constructor
  · intro hheals howned
    refine hheals [] _ .rootKey ?_
    have hroot := congrArg Prod.fst (sendingKeys_of_turn hnew hturn hfresh)
    change (w.call (.decrypt f header ct)).session.rootKey = _ at hroot
    change Knows _ _ (.key (w.call (.decrypt f header ct)).session.rootKey)
    rw [hroot]
    have hdhOut : Knows (w.Owns known) (w.Watched known given)
        (.point (header.dhPub.point.scale w.session.dhSelf)) :=
      .scale (.own .dhSelf) (.of_owned howned)
    exact .hkdf (.hkdf (.seen (.before .rootKey)) hdhOut)
      (.scale_owned howned (.seen (.publicKey f)))
  · intro howned calls k hk hknows
    exact harmless_of_knows hknows hfresh
      (hk.carries (heals_after (heals_of_turn hnew hturn hfresh howned) calls))

/-- With the turn after that one, the keys to receive with are out of reach as well: whatever is
accepted from then on was given out, unless it was sealed under a key that was kept when the
ratchet turned, from before or for the rest of the old chain. -/
theorem receiving_heals (howned : ¬ header.dhPub.point.Owned (w.Owns known))
    {between later : List (Call (suite encode))} {f₂ : Nat} {header₂ : Header (suite encode)}
    {ct₂ : Sealed} {w₁ w₃ : Tapped encode}
    (hw₁ : w₁ = (w.call (.decrypt f header ct)).after between)
    (hnew₂ : w₁.session.hasRemote header₂.dhPub = false)
    (hw₃ : w₃ = (w₁.call (.decrypt f₂ header₂ ct₂)).after later) :
    (∀ k, w₃.session.recvChain = some k →
        ¬ Knows (w.Owns known) (w.Watched known given) (.key k)) ∧
      ∀ f₃ header₃ ct₃ plaintext s,
        (decrypt f₃ header₃ ct₃).run w₃.session = .ok plaintext s →
        Knows (w.Owns known) (w.Watched known given) (.sealed ct₃) →
        given ct₃ ∨ ∃ k ∈ Assoc.values
          (Method.after ((turn f₂ header₂).run w₁.session)).skipped, sealingKey ct₃ = some k := by
  have hheals := heals_after (heals_of_turn hnew hturn hfresh howned) between
  rw [← hw₁] at hheals
  have hrestored := restored_of_newRemote _ hheals hnew₂ f₂ ct₂
  rw [← session_call] at hrestored
  have hend := restored_after hrestored later
  rw [← hw₃] at hend
  constructor
  · intro k hk hknows
    exact harmless_of_knows hknows hfresh (hend.recv k hk)
  · intro f₃ header₃ ct₃ plaintext s hrun hknows
    have hopens := restored_decrypt _ _ f₃ header₃ ct₃ w₃.session hend
    rw [hrun] at hopens
    obtain ⟨⟨k, hkey, hk⟩, -⟩ := hopens
    rcases hk with hk | hk
    · exact .inr ⟨k, hk, hkey⟩
    · cases ct₃ with
      | box k' ad m =>
        cases hkey
        exact .inl (harmless_of_knows hknows hfresh hk)
      | noiseBox | bytes => cases hkey

end Turn

section Examples

def stolen : Tapped Symbolic.encode := initiator 1 (.protocol "shared") ⟨.mul {2}, 0⟩

def stolenKnown (x : Item) : Prop := x = .secret 2 ∨ x = .key (.protocol "shared")

def nextMessage (s : DoubleRatchet (suite Symbolic.encode)) :
    Header (suite Symbolic.encode) × Sealed :=
  match (encrypt [1]).run s with
  | .ok message _ => message
  | .error _ _ => (s.nextHeader, .bytes [])

def copied : Tapped Symbolic.encode := stolen.call (.encrypt [1])

def answering : DoubleRatchet (suite Symbolic.encode) :=
  let first := nextMessage stolen.session
  Method.after ((decrypt (C := suite Symbolic.encode) (3 : Nat) first.1 first.2).run
    (.initResponder (.protocol "shared") (2 : Nat)))

def answer : Header (suite Symbolic.encode) × Sealed := nextMessage answering

theorem session_copied : ∃ chain n, copied.session =
    { stolen.session with
      sendChain := some (.hmac chain 0x02)
      sendN := n } ∧ stolen.session.sendChain = some chain := by
  obtain ⟨n, hafter⟩ := after_encrypt [1] stolen.session
  refine ⟨_, n, ?_, rfl⟩
  rw [copied, session_call, after_perform_encrypt, hafter]
  rfl

theorem not_mentions_copied (x : Item) (h : copied.Exposed stolenKnown x) : ¬ x.Mentions 5 := by
  obtain ⟨chain, n, hsession, hchain⟩ := session_copied
  have hpoint : (5 : Nat) ∉ ({1, 2} : Multiset Nat) := by decide
  cases h with
  | known h => rcases h with rfl | rfl <;> simp [Item.Mentions, Key.Mentions]
  | dhSelf => exact (by decide : copied.session.dhSelf ≠ 5)
  | rootKey =>
    rw [hsession]
    exact not_or.mpr ⟨id, hpoint⟩
  | sendChain h =>
    rw [hsession] at h
    cases h
    cases hchain
    exact not_or.mpr ⟨id, hpoint⟩
  | recvChain h | skipped h =>
    rw [hsession] at h
    cases h
  | header h =>
    have hmem : ∀ h ∈ copied.headers, h.dhPub.point = .mul {1} := by decide +kernel
    intro hmentions
    simp [Item.Mentions, hmem _ h, Point.Mentions] at hmentions
  | publicKey h =>
    have hmem : ∀ p ∈ copied.publics, p.point = .mul {1} ∨ p.point = .mul {2} := by
      decide +kernel
    intro hmentions
    rcases hmem _ h with heq | heq
    · simp [Item.Mentions, heq, Point.Mentions] at hmentions
    · simp [Item.Mentions, heq, Point.Mentions] at hmentions

theorem not_owned_answer : ¬ answer.1.dhPub.point.Owned (copied.Owns stolenKnown) := by
  have hpoint : answer.1.dhPub.point = .mul {3} := by decide +kernel
  have hself : copied.session.dhSelf = 1 := by decide +kernel
  rw [hpoint]
  intro howned
  rcases owns_iff.mp (howned 3 (Multiset.mem_singleton_self 3)) with (h | h) | h
  · cases h
  · cases h
  · rw [hself] at h
    exact absurd h (by decide)

def healed : Tapped Symbolic.encode := copied.call (.decrypt (5 : Nat) answer.1 answer.2)

theorem hasRemote_answer : copied.session.hasRemote answer.1.dhPub = false := by decide +kernel

theorem dhSelf_healed : healed.session.dhSelf = 5 := by decide +kernel

theorem sending_heals_iff_copied :
    Method.seen ((decrypt (C := suite Symbolic.encode) (5 : Nat) answer.1 answer.2).run
        copied.session) = .ok [1] ∧
      ¬ Knows (copied.Owns stolenKnown) (copied.Watched stolenKnown fun _ => True)
        (.key healed.session.rootKey) :=
  ⟨by decide +kernel, (sending_heals_iff hasRemote_answer dhSelf_healed not_mentions_copied).mpr
    not_owned_answer [] _ .rootKey⟩

def replied : Tapped Symbolic.encode := healed.after [.encrypt [1]]

def secondAnswer : Header (suite Symbolic.encode) × Sealed :=
  let reply := nextMessage healed.session
  nextMessage (Method.after ((decrypt (C := suite Symbolic.encode) (7 : Nat) reply.1 reply.2).run
    (Method.after ((encrypt [1]).run answering))))

def healedTwice : Tapped Symbolic.encode :=
  replied.call (.decrypt (6 : Nat) secondAnswer.1 secondAnswer.2)

theorem receiving_heals_copied :
    Method.seen ((decrypt (C := suite Symbolic.encode) (6 : Nat) secondAnswer.1
        secondAnswer.2).run replied.session) = .ok [1] ∧
      ∃ k, healedTwice.session.recvChain = some k ∧
        ¬ Knows (copied.Owns stolenKnown) (copied.Watched stolenKnown fun _ => True) (.key k) := by
  have hsome : healedTwice.session.recvChain.isSome := by decide +kernel
  obtain ⟨k, hk⟩ := Option.isSome_iff_exists.mp hsome
  have hnew₂ : replied.session.hasRemote secondAnswer.1.dhPub = false := by decide +kernel
  have hw₁ : replied = (copied.call (.decrypt (5 : Nat) answer.1 answer.2)).after
    [.encrypt [1]] := rfl
  have hw₃ : healedTwice =
    (replied.call (.decrypt (6 : Nat) secondAnswer.1 secondAnswer.2)).after [] := rfl
  exact ⟨by decide +kernel, k, hk, (receiving_heals hasRemote_answer dhSelf_healed
    not_mentions_copied not_owned_answer hw₁ hnew₂ hw₃).1 k hk⟩

end Examples

end Tapped

end ProjectMesh.Crypto.Ratchet
