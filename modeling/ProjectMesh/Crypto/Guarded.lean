import ProjectMesh.Crypto.Attacker
import ProjectMesh.Crypto.RatchetLaws
import ProjectMesh.Crypto.RatchetPairLaws

namespace ProjectMesh.Crypto.Ratchet

open ProjectMesh.Lib
open ProjectMesh.Crypto.Symbolic

variable {encode : Public → List UInt8} {attacker : Nat → Prop} {b : Nat}

theorem depth_chainAt (chain : Key) (n : Nat) :
    (chainAt (C := suite encode) chain n).depth = chain.depth := by
  induction n with
  | zero => rfl
  | succ n ih => exact ih

theorem index_chainAt (chain : Key) (n : Nat) :
    (chainAt (C := suite encode) chain n).index = chain.index + n := by
  induction n with
  | zero => rfl
  | succ n ih => exact congrArg (· + 1) ih

theorem secretKey_chainAt {chain : Key} (h : SecretKey attacker b chain) (n : Nat) :
    SecretKey attacker b (chainAt (C := suite encode) chain n) := by
  induction n with
  | zero => exact h
  | succ n ih => exact ih

theorem depth_messageKeyAt (chain : Key) (n : Nat) :
    (messageKeyAt (C := suite encode) chain n).depth = chain.depth := depth_chainAt chain n

theorem index_messageKeyAt (chain : Key) (n : Nat) :
    (messageKeyAt (C := suite encode) chain n).index = chain.index + n := index_chainAt chain n

theorem secretKey_messageKeyAt {chain : Key} (h : SecretKey attacker b chain) (n : Nat) :
    SecretKey attacker b (messageKeyAt (C := suite encode) chain n) :=
  secretKey_chainAt h n

/-- The message key comes from an earlier chain, or from an earlier index of the chain
received under `root`. -/
def Below (root : Key) (recvN : Nat) (mk : Key) : Prop :=
  mk.depth + 1 < root.depth ∨ mk.depth + 1 = root.depth ∧ mk.index < recvN

structure Guarded (attacker : Nat → Prop) (b : Nat) (p : Party)
    (s : DoubleRatchet (suite encode)) (used : List Key) : Prop where
  self : s.dhSelfPub.point = .mul {s.dhSelf}
  parity : s.rootKey.depth % 2 = p.parity
  root : s.dhRemote = none ∨ SecretKey attacker b s.rootKey
  noRemote : s.dhRemote = none → s.recvChain = none ∧ s.dhSelf = b
  recv : ∀ c, s.recvChain = some c → SecretKey attacker b c ∧
    c.depth + 1 = s.rootKey.depth ∧ c.index = s.recvN
  send : ∀ c, s.sendChain = some c → SecretKey attacker b c ∧ c.depth = s.rootKey.depth ∧
    s.dhSelf ≠ b
  storedKeys : ∀ key mk, s.skipped.lookup key = some mk → SecretKey attacker b mk ∧
    mk.depth % 2 ≠ p.parity ∧ Below s.rootKey s.recvN mk
  usedKeys : ∀ mk ∈ used, SecretKey attacker b mk ∧ mk.depth % 2 ≠ p.parity ∧
    Below s.rootKey s.recvN mk
  distinct : ∀ key key' mk mk', s.skipped.lookup key = some mk →
    s.skipped.lookup key' = some mk' → mk.label = mk'.label → key = key'
  unused : ∀ key mk, s.skipped.lookup key = some mk → ∀ u ∈ used, mk.label ≠ u.label
  nodup : (used.map Key.label).Nodup

namespace Guarded

variable {p : Party} {s t : DoubleRatchet (suite encode)} {used : List Key} {mk chain : Key}
  {remote : Public} {n k j : Nat}

theorem below_next {root : Key} {recvN : Nat} (h : Below root recvN mk) (hle : recvN ≤ n) :
    Below root n mk :=
  h.imp_right fun ⟨hd, hi⟩ => ⟨hd, Nat.lt_of_lt_of_le hi hle⟩

theorem giveUp (h : Guarded attacker b p s (used ++ [mk])) : Guarded attacker b p s used :=
  { h with
    usedKeys := fun u hu => h.usedKeys u (List.mem_append_left _ hu)
    unused := fun key mk' hl u hu => h.unused key mk' hl u (List.mem_append_left _ hu)
    nodup := (List.nodup_append.mp (List.map_append ▸ h.nodup)).1 }

theorem nodup_concat (h : (used.map Key.label).Nodup)
    (hnew : ∀ u ∈ used, u.label ≠ mk.label) : ((used ++ [mk]).map Key.label).Nodup := by
  rw [List.map_append, List.nodup_append]
  refine ⟨h, List.nodup_singleton _, fun l hl₁ l' hl₂ heq => ?_⟩
  obtain ⟨u, hu, rfl⟩ := List.mem_map.mp hl₁
  obtain rfl := List.mem_singleton.mp hl₂
  exact hnew u hu heq

theorem without {key : Public × Nat} (h : Guarded attacker b p s used)
    (hl : s.skipped.lookup key = some mk) :
    Guarded attacker b p (s.without key) (used ++ [mk]) where
  self := h.self
  parity := h.parity
  root := h.root
  noRemote := h.noRemote
  recv := h.recv
  send := h.send
  storedKeys key' mk' hl' := by
    by_cases heq : key' = key
    · subst heq
      simp [DoubleRatchet.without, AList.lookup_erase] at hl'
    · exact h.storedKeys key' mk' (Assoc.lookup_erase_of_ne heq ▸ hl')
  usedKeys u hu := by
    rcases List.mem_append.mp hu with hu | hu
    · exact h.usedKeys u hu
    · rw [List.mem_singleton.mp hu]
      exact h.storedKeys key mk hl
  distinct key₁ key₂ mk₁ mk₂ hl₁ hl₂ heq := by
    by_cases h₁ : key₁ = key
    · subst h₁
      simp [DoubleRatchet.without, AList.lookup_erase] at hl₁
    by_cases h₂ : key₂ = key
    · subst h₂
      simp [DoubleRatchet.without, AList.lookup_erase] at hl₂
    exact h.distinct key₁ key₂ mk₁ mk₂ (Assoc.lookup_erase_of_ne h₁ ▸ hl₁)
      (Assoc.lookup_erase_of_ne h₂ ▸ hl₂) heq
  unused key' mk' hl' u hu := by
    by_cases h' : key' = key
    · subst h'
      simp [DoubleRatchet.without, AList.lookup_erase] at hl'
    have hl'' : s.skipped.lookup key' = some mk' := Assoc.lookup_erase_of_ne h' ▸ hl'
    rcases List.mem_append.mp hu with hu | hu
    · exact h.unused key' mk' hl'' u hu
    · rw [List.mem_singleton.mp hu]
      exact fun heq => h' (h.distinct key' key mk' mk hl'' hl heq)
  nodup := nodup_concat h.nodup fun u hu heq => h.unused key mk hl u hu heq.symm

theorem not_below {root : Key} {recvN : Nat} (hd : mk.depth + 1 = root.depth)
    (hi : recvN ≤ mk.index) : ¬ Below root recvN mk := by
  rintro (h | ⟨-, h⟩)
  · omega
  · omega

theorem not_below_of_label {root mk' : Key} {recvN : Nat} (h : Below root recvN mk)
    (hd : mk'.depth + 1 = root.depth) (hi : recvN ≤ mk'.index) : mk.label ≠ mk'.label := by
  intro heq
  simp only [Key.label, Prod.mk.injEq] at heq
  have hdepth : mk.depth + 1 = root.depth := by omega
  have hindex : recvN ≤ mk.index := by omega
  exact not_below hdepth hindex h

theorem stash (h : Guarded attacker b p s used) (hc : s.recvChain = some chain)
    (remote : Public) (k : Nat) :
    Guarded attacker b p { s.stashed remote chain k with recvChain := none } used := by
  obtain ⟨hsecret, hdepth, hindex⟩ := h.recv chain hc
  have hnewDepth : ∀ j, (messageKeyAt (C := suite encode) chain j).depth + 1 =
      s.rootKey.depth := fun j => by rw [depth_messageKeyAt, hdepth]
  have hnewIndex : ∀ j, (messageKeyAt (C := suite encode) chain j).index = s.recvN + j :=
    fun j => by rw [index_messageKeyAt, hindex]
  have hpar := h.parity
  exact {
    self := h.self
    parity := h.parity
    root := h.root
    noRemote := fun hr => by
      rw [(h.noRemote hr).1] at hc
      cases hc
    recv := fun _ hc' => nomatch hc'
    send := h.send
    storedKeys := fun key mk hl => by
      rcases lookup_stash_cases hl with ⟨j, hj, -, rfl⟩ | hl
      · have hd := hnewDepth j
        refine ⟨secretKey_messageKeyAt hsecret j, by omega, .inr ⟨hd, ?_⟩⟩
        rw [hnewIndex]
        exact Nat.add_lt_add_left hj _
      · obtain ⟨hs, hp, hb⟩ := h.storedKeys key mk hl
        exact ⟨hs, hp, below_next hb (Nat.le_add_right _ _)⟩
    usedKeys := fun mk hmk => by
      obtain ⟨hs, hp, hb⟩ := h.usedKeys mk hmk
      exact ⟨hs, hp, below_next hb (Nat.le_add_right _ _)⟩
    distinct := fun key key' mk mk' hl hl' heq => by
      rcases lookup_stash_cases hl with ⟨j, hj, rfl, rfl⟩ | hl
      · rcases lookup_stash_cases hl' with ⟨j', hj', rfl, rfl⟩ | hl'
        · simp only [Key.label, Prod.mk.injEq, hnewIndex] at heq
          obtain rfl : j = j' := by omega
          rfl
        · exact absurd heq.symm (not_below_of_label (h.storedKeys key' mk' hl').2.2
            (hnewDepth j) (by rw [hnewIndex]; exact Nat.le_add_right _ _))
      · rcases lookup_stash_cases hl' with ⟨j', hj', rfl, rfl⟩ | hl'
        · exact absurd heq (not_below_of_label (h.storedKeys key mk hl).2.2
            (hnewDepth j') (by rw [hnewIndex]; exact Nat.le_add_right _ _))
        · exact h.distinct key key' mk mk' hl hl' heq
    unused := fun key mk hl u hu heq => by
      rcases lookup_stash_cases hl with ⟨j, hj, rfl, rfl⟩ | hl
      · exact not_below_of_label (h.usedKeys u hu).2.2 (hnewDepth j)
          (by rw [hnewIndex]; exact Nat.le_add_right _ _) heq.symm
      · exact h.unused key mk hl u hu heq
    nodup := h.nodup }

theorem consume {chain' : Key} (h : Guarded attacker b p s used)
    (hr : s.dhRemote ≠ none) (hmk : SecretKey attacker b mk)
    (hdepth : mk.depth + 1 = s.rootKey.depth) (hindex : mk.index = s.recvN)
    (hc : SecretKey attacker b chain') (hdepth' : chain'.depth + 1 = s.rootKey.depth)
    (hindex' : chain'.index = s.recvN + 1) :
    Guarded attacker b p { s with recvChain := some chain', recvN := s.recvN + 1 }
      (used ++ [mk]) := by
  have hpar := h.parity
  exact {
    self := h.self
    parity := h.parity
    root := h.root
    noRemote := fun hr' => absurd hr' hr
    recv := fun c hc' => by
      obtain rfl : chain' = c := Option.some.inj hc'
      exact ⟨hc, hdepth', hindex'⟩
    send := h.send
    storedKeys := fun key mk' hl => by
      obtain ⟨hs, hp, hb⟩ := h.storedKeys key mk' hl
      exact ⟨hs, hp, below_next hb (Nat.le_succ _)⟩
    usedKeys := fun u hu => by
      rcases List.mem_append.mp hu with hu | hu
      · obtain ⟨hs, hp, hb⟩ := h.usedKeys u hu
        exact ⟨hs, hp, below_next hb (Nat.le_succ _)⟩
      · rw [List.mem_singleton.mp hu]
        refine ⟨hmk, by omega, .inr ⟨hdepth, ?_⟩⟩
        rw [hindex]
        exact Nat.lt_succ_self _
    distinct := h.distinct
    unused := fun key mk' hl u hu => by
      rcases List.mem_append.mp hu with hu | hu
      · exact h.unused key mk' hl u hu
      · rw [List.mem_singleton.mp hu]
        exact not_below_of_label (h.storedKeys key mk' hl).2.2 hdepth (Nat.le_of_eq hindex.symm)
    nodup := nodup_concat h.nodup fun u hu =>
      not_below_of_label (h.usedKeys u hu).2.2 hdepth (Nat.le_of_eq hindex.symm) }

theorem turned {remotePub : Public} {fresh : Nat} (h : Guarded attacker b p s used)
    (hsmall : s.dhRemote = none → ∀ i, remotePub.point ≠ .small i) (hfresh : fresh ≠ b) :
    Guarded attacker b p (s.turned fresh remotePub) used := by
  have hroot : SecretKey attacker b s.rootKey ∨
      SecretPoint attacker b (remotePub.point.scale s.dhSelf) := by
    rcases h.root with hr | hs
    · rw [(h.noRemote hr).2]
      exact .inr (secretPoint_scale_hidden (hsmall hr))
    · exact .inl hs
  have hpar := h.parity
  have hbelow : ∀ mk, Below s.rootKey s.recvN mk →
      Below (s.turned fresh remotePub).rootKey 0 mk := by
    rintro mk (hlt | ⟨heq, -⟩)
    · exact .inl (Nat.lt_trans hlt (by exact Nat.lt_add_of_pos_right (by decide : 0 < 2)))
    · exact .inl (heq ▸ Nat.lt_add_of_pos_right (by decide : 0 < 2))
  exact {
    self := rfl
    parity := by
      have hdepth : (s.turned fresh remotePub).rootKey.depth = s.rootKey.depth + 2 := rfl
      omega
    root := .inr (.inl hroot)
    noRemote := fun hr => nomatch hr
    recv := fun c hc => by
      obtain rfl := Option.some.inj hc
      exact ⟨hroot, rfl, rfl⟩
    send := fun c hc => by
      obtain rfl := Option.some.inj hc
      exact ⟨.inl hroot, rfl, hfresh⟩
    storedKeys := fun key mk hl => by
      obtain ⟨hs, hp, hb⟩ := h.storedKeys key mk hl
      exact ⟨hs, hp, hbelow mk hb⟩
    usedKeys := fun mk hmk => by
      obtain ⟨hs, hp, hb⟩ := h.usedKeys mk hmk
      exact ⟨hs, hp, hbelow mk hb⟩
    distinct := h.distinct
    unused := h.unused
    nodup := h.nodup }

theorem keyOutcome_ok {n : Nat} (h : Guarded attacker b p s used)
    (ho : DoubleRatchet.KeyOutcome s n (.ok mk t)) : Guarded attacker b p t (used ++ [mk]) := by
  cases ho with
  | stored hr hl => exact h.without hl
  | @advance r chain hr hl hn hc hu hroom =>
    obtain ⟨hsecret, hdepth, hindex⟩ := h.recv chain hc
    have hidx : s.recvN + (n - s.recvN) = n := Nat.add_sub_cancel' hn
    have hkeyDepth : (messageKeyAt chain (n - s.recvN)).depth + 1 = s.rootKey.depth := by
      rw [depth_messageKeyAt]
      exact hdepth
    have hchainDepth : (chainAt chain (n - s.recvN + 1)).depth + 1 = s.rootKey.depth := by
      rw [depth_chainAt]
      exact hdepth
    have hnext := (h.stash hc r (n - s.recvN)).consume
      (by simp [DoubleRatchet.stashed, hr]) (secretKey_messageKeyAt hsecret (n - s.recvN))
      hkeyDepth (by rw [index_messageKeyAt, hindex]; rfl)
      (secretKey_chainAt hsecret (n - s.recvN + 1)) hchainDepth
      (by rw [index_chainAt, hindex]; rfl)
    simp only [DoubleRatchet.stashed, hidx] at hnext
    simpa only [DoubleRatchet.advanced, DoubleRatchet.stashed] using hnext

theorem keyOutcome_error {n : Nat} {e : MeshError} (h : Guarded attacker b p s used)
    (ho : DoubleRatchet.KeyOutcome s n (.error (.err e) t)) : Guarded attacker b p t used := by
  cases ho with
  | noRemote => exact h
  | consumed => exact h
  | noChain => exact h
  | full hr hl hn hc hj hfull => exact h.stash hc _ _

section Decrypt

variable {header : Header (suite encode)} {ct : Sealed} {fresh : Nat} {pt : List UInt8}
  {e : MeshError}

theorem turn_ok {x : Unit} (h : Guarded attacker b p s used)
    (hsmall : s.dhRemote = none → ∀ i, header.dhPub.point ≠ .small i) (hfresh : fresh ≠ b)
    (hrun : (DoubleRatchet.turn fresh header).run s = .ok x t) :
    Guarded attacker b p t used := by
  cases hc : s.recvChain with
  | none =>
    rw [DoubleRatchet.turn_noChain (C := suite encode) fresh hc] at hrun
    cases hrun
    exact h.turned hsmall hfresh
  | some chain =>
    cases hr : s.dhRemote with
    | none =>
      rw [(h.noRemote hr).1] at hc
      cases hc
    | some r =>
      rcases room_or_fullAt s r chain (header.pn.toNat - s.recvN) with hroom | ⟨j, hj, hfull⟩
      · rw [DoubleRatchet.turn_room (C := suite encode) fresh hc hr hroom] at hrun
        cases hrun
        have hstash := h.stash hc r (header.pn.toNat - s.recvN)
        exact hstash.turned (fun hr' => by simp [DoubleRatchet.stashed, hr] at hr') hfresh
      · rw [DoubleRatchet.turn_full (C := suite encode) fresh hc hr hj hfull] at hrun
        cases hrun

theorem turn_error (h : Guarded attacker b p s used)
    (hrun : (DoubleRatchet.turn fresh header).run s = .error (.err e) t) :
    Guarded attacker b p t used := by
  rcases DoubleRatchet.turn_cases (C := suite encode) s fresh header with
    ⟨u, hu⟩ | ⟨r, chain, j, hr, hc, hj, hfull, hturn⟩
  · rw [hu] at hrun
    cases hrun
  · rw [hturn] at hrun
    cases hrun
    exact h.stash hc r j

theorem openMessage_ok {mk : Key}
    (h : openMessage (C := suite encode) mk header ct = .ok pt) :
    ∃ padded, ct = .box mk header.toBytes padded ∧ Padding.unpad padded = .ok pt := by
  cases ct with
  | box key ad padded =>
    by_cases heq : mk = key ∧ header.toBytes = ad
    · obtain ⟨rfl, rfl⟩ := heq
      simp only [openMessage, aeadOpenOnce, Sealed.open, and_self, if_true] at h
      exact ⟨padded, rfl, h⟩
    · simp only [openMessage, aeadOpenOnce, Sealed.open, if_neg heq] at h
      cases h
  | noiseBox => cases h
  | bytes => cases h

theorem receive_ok (h : Guarded attacker b p s used)
    (hrun : (receive header ct).run s = .ok pt t) :
    ∃ mk padded, ct = .box mk header.toBytes padded ∧ Padding.unpad padded = .ok pt ∧
      Guarded attacker b p t (used ++ [mk]) := by
  have ho := DoubleRatchet.messageKeyFor_outcome s header.n.toNat_lt
  rw [receive, Method.run_bind_ok] at hrun
  obtain ⟨mk, u, hkey, hopen⟩ := hrun
  rw [hkey] at ho
  cases hmsg : openMessage (C := suite encode) mk header ct with
  | error e =>
    rw [hmsg] at hopen
    cases hopen
  | ok pt' =>
    rw [hmsg] at hopen
    cases hopen
    obtain ⟨padded, hct, hpad⟩ := openMessage_ok hmsg
    exact ⟨mk, padded, hct, hpad, h.keyOutcome_ok ho⟩

theorem receive_error (h : Guarded attacker b p s used)
    (hrun : (receive header ct).run s = .error (.err e) t) :
    Guarded attacker b p t used := by
  have ho := DoubleRatchet.messageKeyFor_outcome s header.n.toNat_lt
  rw [receive, Method.run_bind_error] at hrun
  rcases hrun with hkey | ⟨mk, u, hkey, hopen⟩
  · rw [hkey] at ho
    exact h.keyOutcome_error ho
  · rw [hkey] at ho
    cases hmsg : openMessage (C := suite encode) mk header ct with
    | error e' =>
      rw [hmsg] at hopen
      cases hopen
      exact (h.keyOutcome_ok ho).giveUp
    | ok pt' =>
      rw [hmsg] at hopen
      cases hopen

/-- What a session accepts was sealed under a key the attacker does not know, and the
session has not used before. -/
theorem decrypt_ok (h : Guarded attacker b p s used)
    (hsmall : s.dhRemote = none → ∀ i, header.dhPub.point ≠ .small i) (hfresh : fresh ≠ b)
    (hrun : (DoubleRatchet.decrypt fresh header ct).run s = .ok pt t) :
    ∃ mk padded, ct = .box mk header.toBytes padded ∧ Padding.unpad padded = .ok pt ∧
      Guarded attacker b p t (used ++ [mk]) := by
  cases hsame : s.hasRemote header.dhPub with
  | true =>
    rw [DoubleRatchet.decrypt_sameRemote (C := suite encode) hsame] at hrun
    exact h.receive_ok hrun
  | false =>
    rw [DoubleRatchet.decrypt_newRemote (C := suite encode) hsame, Method.run_bind_ok] at hrun
    obtain ⟨x, u, hturn, hreceive⟩ := hrun
    exact (h.turn_ok hsmall hfresh hturn).receive_ok hreceive

theorem decrypt_error (h : Guarded attacker b p s used)
    (hsmall : s.dhRemote = none → ∀ i, header.dhPub.point ≠ .small i) (hfresh : fresh ≠ b)
    (hrun : (DoubleRatchet.decrypt fresh header ct).run s = .error (.err e) t) :
    Guarded attacker b p t used := by
  cases hsame : s.hasRemote header.dhPub with
  | true =>
    rw [DoubleRatchet.decrypt_sameRemote (C := suite encode) hsame] at hrun
    exact h.receive_error hrun
  | false =>
    rw [DoubleRatchet.decrypt_newRemote (C := suite encode) hsame, Method.run_bind_error] at hrun
    rcases hrun with hturn | ⟨x, u, hturn, hreceive⟩
    · exact h.turn_error hturn
    · exact (h.turn_ok hsmall hfresh hturn).receive_error hreceive

end Decrypt

section Encrypt

variable {header : Header (suite encode)} {ct : Sealed} {plaintext : List UInt8} {e : MeshError}

theorem advanceSend (h : Guarded attacker b p s used) (hc : s.sendChain = some chain) (n : Nat) :
    Guarded attacker b p
      { s with sendChain := some (kdfCk (C := suite encode) chain).1, sendN := n } used :=
  { h with
    send := fun c hc' => by
      obtain rfl := Option.some.inj hc'
      exact h.send chain hc }

theorem not_secretPoint_self (h : Guarded attacker b p s used) (hc : s.sendChain = some chain) :
    ¬ SecretPoint attacker b s.dhSelfPub.point := by
  rw [h.self]
  exact not_secretPoint_publicKey (h.send chain hc).2.2

theorem encrypt_ok (h : Guarded attacker b p s used)
    (hrun : (DoubleRatchet.encrypt plaintext).run s = .ok (header, ct) t) :
    Guarded attacker b p t used ∧ ¬ SecretPoint attacker b header.dhPub.point ∧
      ∃ k ad padded, ct = .box k ad padded ∧ k.depth % 2 = p.parity ∧
        Padding.unpad padded = .ok plaintext := by
  obtain ⟨chain, padded, hc, -, hpad, hseal, rfl, rfl⟩ :=
    DoubleRatchet.encrypt_cases (C := suite encode) hrun
  cases hseal
  refine ⟨h.advanceSend hc _, h.not_secretPoint_self hc, _, _, padded, rfl, ?_,
    Padding.unpad_of_padToBucket hpad⟩
  have hdepth : chain.depth = s.rootKey.depth := (h.send chain hc).2.1
  exact (congrArg (· % 2) hdepth).trans h.parity

theorem encrypt_error (h : Guarded attacker b p s used)
    (hrun : (DoubleRatchet.encrypt plaintext).run s = .error (.err e) t) :
    Guarded attacker b p t used := by
  obtain ⟨n, hafter⟩ := DoubleRatchet.after_encrypt (C := suite encode) plaintext s
  rw [hrun, Method.after_error] at hafter
  subst hafter
  cases hc : s.sendChain with
  | none => exact { h with send := fun c hc' => by cases hc' }
  | some chain => exact h.advanceSend hc n

end Encrypt

end Guarded

end ProjectMesh.Crypto.Ratchet
