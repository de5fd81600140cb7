import ProjectMesh.Crypto.Attacker
import ProjectMesh.Crypto.RatchetErrors
import ProjectMesh.Crypto.RatchetPairLaws
import ProjectMesh.Lib.Triple

namespace ProjectMesh.Crypto.Ratchet

open ProjectMesh.Lib
open ProjectMesh.Lib.Method (Triple)
open ProjectMesh.Crypto.Padding
open ProjectMesh.Crypto.Symbolic

variable {C : Suite}

namespace DoubleRatchet

/-- What a call to `encrypt` hands to `aead_seal_once`, if it comes to that. -/
def sealCall (s : DoubleRatchet C) (plaintext : List UInt8) :
    Option (C.Key × List UInt8 × List UInt8) :=
  match s.sendChain, padToBucket plaintext with
  | some chain, .ok padded =>
    if s.sendN + 1 < 2 ^ 32 then some ((kdfCk chain).2, s.nextHeader.toBytes, padded) else none
  | _, _ => none

def sendingKeys (s : DoubleRatchet C) : C.Key × Option C.Key := (s.rootKey, s.sendChain)

def turnedKeys (root : C.Key) (dhOut dhOut2 : C.Shared) : C.Key × Option C.Key :=
  let received := kdfRk root dhOut
  let sent := kdfRk received.1 dhOut2
  (sent.1, some sent.2)

def Moves (keys keys' : C.Key × Option C.Key) : Prop :=
  keys' = keys ∨ ∃ dhOut dhOut2, keys' = turnedKeys keys.1 dhOut dhOut2

section Sealing

variable {s : DoubleRatchet C} {plaintext ad padded : List UInt8} {mk : C.Key}

theorem encrypt_of_sealCall (h : s.sealCall plaintext = some (mk, ad, padded)) :
    ∃ t, (encrypt plaintext).run s =
      (Method.ofExcept ((aeadSealOnce mk ad padded).map fun ct => (s.nextHeader, ct))).run t := by
  rw [sealCall] at h
  split at h
  next chain padded' hc hp =>
    split at h
    next hn =>
      simp only [Option.some.injEq, Prod.mk.injEq] at h
      obtain ⟨rfl, rfl, rfl⟩ := h
      rw [encrypt_chain hc hn, sealMessage, hp]
      refine ⟨_, congrArg (fun r => (Method.ofExcept r : RatchetM C _).run _) ?_⟩
      change (aeadSealOnce _ _ padded' >>= fun ct => Except.ok (s.nextHeader, ct)) = _
      cases aeadSealOnce (kdfCk chain).2 s.nextHeader.toBytes padded' <;> rfl
    next => cases h
  next => cases h

theorem encrypt_of_not_sealCall (h : s.sealCall plaintext = none) :
    ∃ f t, (encrypt plaintext).run s = .error f t := by
  cases hc : s.sendChain with
  | none => exact ⟨_, _, encrypt_noChain hc plaintext⟩
  | some chain =>
    by_cases hn : s.sendN + 1 < 2 ^ 32
    · cases hp : padToBucket plaintext with
      | ok padded =>
        simp only [sealCall, hc, hp, if_pos hn] at h
        cases h
      | error e =>
        rw [encrypt_chain hc hn, sealMessage, hp]
        exact ⟨_, _, rfl⟩
    · obtain ⟨t, ht⟩ := encrypt_overflow hc hn plaintext
      exact ⟨_, t, ht⟩

theorem sealCall_key (h : s.sealCall plaintext = some (mk, ad, padded)) :
    ∃ chain, s.sendChain = some chain ∧ mk = (kdfCk chain).2 := by
  rw [sealCall] at h
  split at h
  next chain padded' hc hp =>
    split at h
    next =>
      simp only [Option.some.injEq, Prod.mk.injEq] at h
      exact ⟨chain, hc, h.1.symm⟩
    next => cases h
  next => cases h

end Sealing

section Keys

variable (keys : C.Key × Option C.Key) {s : DoubleRatchet C}

/-- A method that leaves the sending keys alone, whatever its result. -/
def KeepsKeys (x : RatchetM C α) : Prop :=
  Triple (fun s => s.sendingKeys = keys) x (fun _ s => s.sendingKeys = keys)
    (fun s => s.sendingKeys = keys)

theorem keepsKeys_get_bind {f : DoubleRatchet C → RatchetM C α}
    (h : ∀ self : DoubleRatchet C, self.sendingKeys = keys → KeepsKeys keys (f self)) :
    KeepsKeys keys (get >>= f) :=
  Triple.bind (Triple.get (Q := fun self t => self.sendingKeys = keys ∧ t.sendingKeys = keys)
    fun _ hs => ⟨hs, hs⟩) fun self t ht => h self ht.1 t ht.2

theorem keepsKeys_bind {x : RatchetM C α} {f : α → RatchetM C β} (hx : KeepsKeys keys x)
    (hf : ∀ a, KeepsKeys keys (f a)) : KeepsKeys keys (x >>= f) := Triple.bind hx hf

theorem keepsKeys_set {t : DoubleRatchet C} (h : t.sendingKeys = keys) :
    KeepsKeys keys (set t : RatchetM C PUnit) := Triple.set fun _ _ => h

theorem keepsKeys_storeSkipped (key : C.Public × Nat) (mk : C.Key) :
    KeepsKeys keys (storeSkipped key mk) := by
  refine keepsKeys_get_bind keys fun self hself => ?_
  split
  · exact Triple.fail fun _ h => h
  · exact keepsKeys_set keys hself

theorem keepsKeys_skip (remote : C.Public) (k : Nat) (chain : C.Key) :
    KeepsKeys keys (skip remote k chain) := by
  induction k generalizing chain with
  | zero => exact Triple.pure fun _ h => h
  | succ k ih =>
    refine keepsKeys_get_bind keys fun self _ => ?_
    refine keepsKeys_bind keys (keepsKeys_storeSkipped keys _ _) fun _ => ?_
    refine keepsKeys_bind keys (Triple.succ32 (fun _ _ h => h) fun _ h => h) fun _ => ?_
    exact keepsKeys_bind keys (Triple.modify fun _ h => h) fun _ => ih _

theorem keepsKeys_messageKeyFor (n : Nat) :
    KeepsKeys keys (messageKeyFor n : RatchetM C C.Key) := by
  refine keepsKeys_get_bind keys fun self hself => ?_
  refine keepsKeys_bind keys (Triple.okOr (fun _ _ _ h => h) fun _ h => h) fun remote => ?_
  split
  next =>
    exact keepsKeys_bind keys (keepsKeys_set keys hself) fun _ => Triple.pure fun _ h => h
  next =>
    split
    · exact Triple.fail fun _ h => h
    refine keepsKeys_bind keys (keepsKeys_set keys hself) fun _ => ?_
    refine keepsKeys_bind keys (Triple.okOr (fun _ _ _ h => h) fun _ h => h) fun chain => ?_
    refine keepsKeys_bind keys (keepsKeys_skip keys _ _ _) fun chain' => ?_
    refine keepsKeys_bind keys (Triple.modify fun _ h => h) fun _ => ?_
    refine keepsKeys_get_bind keys fun self' hself' => ?_
    refine keepsKeys_bind keys (Triple.succ32 (fun _ _ h => h) fun _ h => h) fun recvN => ?_
    exact keepsKeys_bind keys (keepsKeys_set keys hself') fun _ => Triple.pure fun _ h => h

theorem keepsKeys_receive (header : Header C) (ct : C.Sealed) :
    KeepsKeys keys (receive header ct) :=
  keepsKeys_bind keys (keepsKeys_messageKeyFor keys _) fun _ =>
    Triple.ofExcept (fun _ _ _ h => h) fun _ h => h

theorem dhRatchet_moves (fresh : C.Secret) (remotePub : C.Public) :
    Triple (fun s => s.sendingKeys = keys) (dhRatchet fresh remotePub)
      (fun _ s => ∃ dhOut dhOut2, s.sendingKeys = turnedKeys keys.1 dhOut dhOut2)
      (fun s => s.sendingKeys = keys) := by
  rintro s rfl
  exact ⟨_, _, rfl⟩

/-- What is left of the old chain is skipped before the keys move. -/
theorem turn_moves (fresh : C.Secret) (header : Header C) :
    Triple (fun s => s.sendingKeys = keys) (turn fresh header)
      (fun _ s => ∃ dhOut dhOut2, s.sendingKeys = turnedKeys keys.1 dhOut dhOut2)
      (fun s => s.sendingKeys = keys) := by
  let P := fun s : DoubleRatchet C => s.sendingKeys = keys
  refine Triple.bind (Triple.get (Q := fun self t => P self ∧ P t) fun _ hs => ⟨hs, hs⟩)
    fun self => ?_
  refine Triple.bind (Triple.set (Q := fun _ t => P t) fun _ ht => ht.1) fun _ => ?_
  split
  · refine Triple.bind (Q := fun _ t => P t) ?_ fun _ => dhRatchet_moves keys fresh _
    exact keepsKeys_get_bind keys fun _ _ =>
      keepsKeys_bind keys (keepsKeys_skip keys _ _ _) fun _ => Triple.pure fun _ h => h
  · exact dhRatchet_moves keys fresh _

theorem decrypt_moves (fresh : C.Secret) (header : Header C) (ct : C.Sealed)
    (s : DoubleRatchet C) :
    Moves s.sendingKeys (Method.after ((decrypt fresh header ct).run s)).sendingKeys := by
  cases hr : s.hasRemote header.dhPub with
  | true =>
    rw [decrypt_sameRemote hr]
    exact .inl (Triple.after (keepsKeys_receive s.sendingKeys header ct) rfl)
  | false =>
    rw [decrypt_newRemote hr]
    refine Triple.after (P := fun t : DoubleRatchet C => t.sendingKeys = s.sendingKeys)
      (I := fun t : DoubleRatchet C => Moves s.sendingKeys t.sendingKeys) ?_ rfl
    refine Triple.bind ((turn_moves s.sendingKeys fresh header).mono (fun _ h => h)
      (fun _ _ h => h) fun _ h => .inl h) fun _ t ht => ?_
    obtain ⟨dhOut, dhOut2, ht⟩ := ht
    exact (keepsKeys_receive t.sendingKeys header ct).mono (fun _ h => h)
      (fun _ _ h => .inr ⟨dhOut, dhOut2, h.trans ht⟩)
      (fun _ h => .inr ⟨dhOut, dhOut2, h.trans ht⟩) t rfl

theorem encrypt_moves (plaintext : List UInt8) (s : DoubleRatchet C) :
    (Method.after ((encrypt plaintext).run s)).sendingKeys =
      (s.rootKey, s.sendChain.map fun chain => (kdfCk chain).1) := by
  obtain ⟨n, hafter⟩ := after_encrypt plaintext s
  rw [hafter]
  rfl

end Keys

end DoubleRatchet

def Call.sealKey (s : DoubleRatchet C) : Call C → Option C.Key
  | .encrypt plaintext => (s.sealCall plaintext).map fun call => call.1
  | .decrypt _ _ _ => none

abbrev Pair (C : Suite) := Party → DoubleRatchet C

namespace Pair

def start (secret : C.Key) (a b : C.Secret) (remote : C.Public) : Pair C
  | .initiator => .initInitiator a secret remote
  | .responder => .initResponder secret b

/-- A call to one of the sessions, which goes on from what any result leaves behind. -/
def act (w : Pair C) (p : Party) (c : Call C) : Pair C :=
  Function.update w p (Method.after (c.perform.run (w p)))

/-- The keys of all calls to `aead_seal_once` in a run, oldest first. -/
def sealKeys : Pair C → List (Party × Call C) → List C.Key
  | _, [] => []
  | w, (p, c) :: cs => (c.sealKey (w p)).toList ++ sealKeys (w.act p c) cs

end Pair

/-- Free key derivation with any authenticated encryption, which may also fail. -/
abbrev derivationSuite {Ciphertext : Type} (encode : Public → List UInt8)
    (enc : Key → List UInt8 → List UInt8 → Option Ciphertext)
    (dec : Key → List UInt8 → Ciphertext → Option (List UInt8)) : Suite :=
  { suite encode with Sealed := Ciphertext, encrypt := enc, decrypt := dec }

/-- The sending keys are ahead of every key that was used on their side; the root steps of
the two sides are even and odd ones. -/
structure Ahead (side : Nat) (used : List Key) (keys : Key × Option Key) : Prop where
  root : keys.1.depth % 2 = side
  chain : ∀ c, keys.2 = some c → c.depth = keys.1.depth
  behind : ∀ k ∈ used, k.depth % 2 = side → k.depth < keys.1.depth ∨
    k.depth = keys.1.depth ∧ ∃ c, keys.2 = some c ∧ k.index < c.index

section Runs

variable {Ciphertext : Type} {encode : Public → List UInt8}
  {enc : Key → List UInt8 → List UInt8 → Option Ciphertext}
  {dec : Key → List UInt8 → Ciphertext → Option (List UInt8)}
  {side : Nat} {used : List Key} {keys keys' : Key × Option Key} {k c : Key}
  {s : DoubleRatchet (derivationSuite encode enc dec)}

theorem Ahead.append_other (h : Ahead side used keys) (hk : k.depth % 2 ≠ side) :
    Ahead side (used ++ [k]) keys where
  root := h.root
  chain := h.chain
  behind k' hk' hside := by
    rcases List.mem_append.mp hk' with hk' | hk'
    · exact h.behind k' hk' hside
    · rw [List.mem_singleton.mp hk'] at hside
      exact absurd hside hk

theorem Ahead.turned (h : Ahead side used keys) (dhOut dhOut2 : Point) :
    Ahead side used
      (DoubleRatchet.turnedKeys (C := derivationSuite encode enc dec) keys.1 dhOut dhOut2) where
  root := by
    have hroot := h.root
    change (keys.1.depth + 2) % 2 = side
    omega
  chain c hc := by
    obtain rfl := Option.some.inj hc
    rfl
  behind k hk hside := by
    refine .inl ?_
    change k.depth < keys.1.depth + 2
    rcases h.behind k hk hside with hlt | ⟨heq, -⟩ <;> omega

theorem Ahead.decrypted (h : Ahead side used keys)
    (hmoves : DoubleRatchet.Moves (C := derivationSuite encode enc dec) keys keys') :
    Ahead side used keys' := by
  rcases hmoves with rfl | ⟨dhOut, dhOut2, rfl⟩
  · exact h
  · exact h.turned dhOut dhOut2

theorem Ahead.sealed (h : Ahead side used keys) (hc : keys.2 = some c) :
    Ahead side (used ++ [.hmac c 0x01]) (keys.1, some (.hmac c 0x02)) where
  root := h.root
  chain c' hc' := by
    obtain rfl := Option.some.inj hc'
    exact h.chain c hc
  behind k hk hside := by
    rcases List.mem_append.mp hk with hk | hk
    · refine (h.behind k hk hside).imp id ?_
      rintro ⟨heq, c', hc', hlt⟩
      obtain rfl : c = c' := Option.some.inj (hc.symm.trans hc')
      exact ⟨heq, _, rfl, Nat.lt_succ_of_lt hlt⟩
    · rw [List.mem_singleton.mp hk]
      exact .inr ⟨h.chain c hc, _, rfl, Nat.lt_succ_self _⟩

theorem Ahead.of_append (h : Ahead side (used ++ [k]) keys) : Ahead side used keys where
  root := h.root
  chain := h.chain
  behind k hk := h.behind k (List.mem_append_left _ hk)

theorem Ahead.fresh (h : Ahead side used keys) (hc : keys.2 = some c) :
    Key.hmac c 0x01 ∉ used ∧ (Key.hmac c 0x01).depth % 2 = side := by
  have hdepth : (Key.hmac c 0x01).depth = keys.1.depth := h.chain c hc
  have hside : (Key.hmac c 0x01).depth % 2 = side := hdepth ▸ h.root
  refine ⟨fun hmem => ?_, hside⟩
  rcases h.behind _ hmem hside with hlt | ⟨-, c', hc', hlt⟩
  · omega
  · obtain rfl : c = c' := Option.some.inj (hc.symm.trans hc')
    exact lt_irrefl _ hlt

theorem Ahead.call (h : Ahead side used s.sendingKeys)
    (call : Call (derivationSuite encode enc dec)) :
    (∀ k, call.sealKey s = some k → k ∉ used ∧ k.depth % 2 = side) ∧
      Ahead side (used ++ (call.sealKey s).toList)
        (Method.after (call.perform.run s)).sendingKeys := by
  cases call with
  | decrypt fresh header ct =>
    refine ⟨fun k hk => (Option.some_ne_none k hk.symm).elim, ?_⟩
    rw [after_perform_decrypt, Call.sealKey, Option.toList_none, List.append_nil]
    exact h.decrypted (DoubleRatchet.decrypt_moves fresh header ct s)
  | encrypt plaintext =>
    rw [after_perform_encrypt, DoubleRatchet.encrypt_moves, Call.sealKey]
    cases hcall : s.sealCall plaintext with
    | some call =>
      obtain ⟨mk, ad, padded⟩ := call
      obtain ⟨c, hc, rfl⟩ := DoubleRatchet.sealCall_key hcall
      simp only [Option.map_some, Option.toList_some, hc]
      refine ⟨fun k hk => ?_, h.sealed hc⟩
      obtain rfl := Option.some.inj hk
      exact h.fresh hc
    | none =>
      refine ⟨fun k hk => (Option.some_ne_none k hk.symm).elim, ?_⟩
      rw [Option.map_none, Option.toList_none, List.append_nil]
      cases hc : s.sendChain with
      | none =>
        rw [DoubleRatchet.sendingKeys, hc] at h
        exact h
      | some c => exact (h.sealed hc).of_append

def Pair.Ahead (base : Nat) (used : List Key)
    (w : Pair (derivationSuite encode enc dec)) : Prop :=
  ∀ p : Party, Ratchet.Ahead ((base + p.parity) % 2) used (w p).sendingKeys

theorem Pair.ahead_start (secret : Key) (a b : Nat) (remote : Public) :
    Pair.Ahead secret.depth [] (Pair.start (C := derivationSuite encode enc dec)
      secret a b remote) := by
  intro p
  cases p with
  | initiator =>
    refine ⟨rfl, fun c hc => ?_, fun k hk => absurd hk List.not_mem_nil⟩
    obtain rfl := Option.some.inj hc
    rfl
  | responder =>
    exact ⟨rfl, fun c hc => (Option.some_ne_none c hc.symm).elim,
      fun k hk => absurd hk List.not_mem_nil⟩

theorem Pair.Ahead.act {base : Nat} {w : Pair (derivationSuite encode enc dec)}
    (h : w.Ahead base used) (p : Party) (call : Call (derivationSuite encode enc dec)) :
    (∀ k, call.sealKey (w p) = some k → k ∉ used) ∧
      (w.act p call).Ahead base (used ++ (call.sealKey (w p)).toList) := by
  obtain ⟨hfresh, hnext⟩ := (h p).call call
  refine ⟨fun k hk => (hfresh k hk).1, fun q => ?_⟩
  rcases p.eq_or_eq_other q with rfl | rfl
  · rw [Pair.act, Function.update_self]
    exact hnext
  · rw [Pair.act, Function.update_of_ne p.other_ne]
    cases hk : call.sealKey (w p) with
    | none =>
      rw [Option.toList_none, List.append_nil]
      exact h p.other
    | some k =>
      refine (h p.other).append_other ?_
      have hside := (hfresh k hk).2
      have hp := p.parity_lt
      rw [p.parity_other]
      omega

theorem Pair.Ahead.nodup {base : Nat} {w : Pair (derivationSuite encode enc dec)}
    {calls : List (Party × Call (derivationSuite encode enc dec))} (h : w.Ahead base used)
    (hused : used.Nodup) : (used ++ w.sealKeys calls).Nodup := by
  induction calls generalizing w used with
  | nil => simpa [Pair.sealKeys] using hused
  | cons call calls ih =>
    obtain ⟨p, call⟩ := call
    obtain ⟨hfresh, hnext⟩ := h.act p call
    rw [Pair.sealKeys, ← List.append_assoc]
    refine ih hnext ?_
    cases hk : call.sealKey (w p) with
    | none => simpa using hused
    | some k => exact List.nodup_append_comm.mp (List.nodup_cons.mpr ⟨hfresh k hk, hused⟩)

/-- In a run of a pair of sessions, with any frames and ciphertexts for `decrypt` and with
calls that fail, no key is handed to `aead_seal_once` twice. -/
theorem Pair.sealKeys_nodup (secret : Key) (a b : Nat) (remote : Public)
    (calls : List (Party × Call (derivationSuite encode enc dec))) :
    ((Pair.start secret a b remote).sealKeys calls).Nodup :=
  (Pair.ahead_start secret a b remote).nodup List.nodup_nil

end Runs

end ProjectMesh.Crypto.Ratchet
