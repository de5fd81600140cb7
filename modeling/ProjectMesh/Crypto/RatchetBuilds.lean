import ProjectMesh.Crypto.RatchetErrors

namespace ProjectMesh.Crypto.Ratchet

open ProjectMesh.Lib
open ProjectMesh.Lib.Method (Returns UpToPanic)
open ProjectMesh.Crypto.Padding

variable {C : Suite}

section Release

theorem returns_skip (remote : C.Public) (k : Nat) (chain : C.Key) :
    Returns (DoubleRatchet.skip remote k chain .wrapping) := by
  induction k generalizing chain with
  | zero => exact Method.returns_pure _
  | succ k ih =>
    refine Method.returns_get.bind fun self => Returns.bind ?_ fun _ => ?_
    · refine Method.returns_get.bind fun self' => ?_
      split
      · exact Method.returns_fail _
      · exact Method.returns_set _
    · refine (Method.returns_succ32 _).bind fun recvN => ?_
      exact (Method.returns_modify _).bind fun _ => ih _

theorem returns_messageKeyFor (n : Nat) :
    Returns (DoubleRatchet.messageKeyFor n .wrapping : RatchetM C C.Key) := by
  refine Method.returns_get.bind fun self => (Method.returns_okOr _ _).bind fun remote => ?_
  cases self.skipped.lookup (remote, n) with
  | some messageKey => exact (Method.returns_set _).bind fun _ => Method.returns_pure _
  | none =>
    by_cases hn : n < self.recvN
    · rw [if_pos hn]
      exact Method.returns_fail _
    · rw [if_neg hn]
      refine (Method.returns_set _).bind fun _ => (Method.returns_okOr _ _).bind fun chain => ?_
      refine (returns_skip _ _ _).bind fun chain' => (Method.returns_modify _).bind fun _ => ?_
      refine Method.returns_get.bind fun self' => (Method.returns_succ32 _).bind fun recvN => ?_
      exact (Method.returns_set _).bind fun _ => Method.returns_pure _

theorem returns_turn (fresh : C.Secret) (header : Header C) :
    Returns (DoubleRatchet.turn fresh header .wrapping) := by
  refine Method.returns_get.bind fun self => (Method.returns_set _).bind fun _ => ?_
  cases self.recvChain with
  | none => exact Method.returns_modify _
  | some chain =>
    cases self.dhRemote with
    | none => exact Method.returns_modify _
    | some oldRemote =>
      refine Returns.bind ?_ fun _ => Method.returns_modify _
      refine Method.returns_get.bind fun self' => ?_
      exact (returns_skip _ _ _).bind fun _ => Method.returns_pure _

theorem returns_decrypt (fresh : C.Secret) (header : Header C) (ct : C.Sealed) :
    Returns (DoubleRatchet.decrypt fresh header ct .wrapping) := by
  have hopen (messageKey : C.Key) : Returns (do
      let padded ← Method.ofExcept (aeadOpenOnce messageKey header.toBytes ct)
      Method.ofExcept (unpad padded) : RatchetM C (List UInt8)) :=
    (Method.returns_ofExcept _).bind fun padded => Method.returns_ofExcept _
  refine Method.returns_get.bind fun self => ?_
  cases self.hasRemote header.dhPub with
  | true => exact (returns_messageKeyFor _).bind hopen
  | false => exact (returns_turn _ _).bind fun _ => (returns_messageKeyFor _).bind hopen

end Release

section UpToPanic

variable (overflow : Overflow)

theorem upToPanic_skip (remote : C.Public) (k : Nat) (chain : C.Key) :
    UpToPanic (DoubleRatchet.skip remote k chain)
      (DoubleRatchet.skip remote k chain overflow) := by
  induction k generalizing chain with
  | zero => exact .refl _
  | succ k ih =>
    refine .after get fun self => .after _ fun _ => ?_
    exact (Method.upToPanic_succ32 _ overflow).bind fun recvN => .after _ fun _ => ih _

theorem upToPanic_messageKeyFor (n : Nat) :
    UpToPanic (DoubleRatchet.messageKeyFor n : RatchetM C C.Key)
      (DoubleRatchet.messageKeyFor n overflow) := by
  refine .after get fun self => .after _ fun remote => ?_
  cases self.skipped.lookup (remote, n) with
  | some messageKey => exact .refl _
  | none =>
    by_cases hn : n < self.recvN
    · rw [if_pos hn, if_pos hn]
      exact .refl _
    · rw [if_neg hn, if_neg hn]
      refine .after _ fun _ => .after _ fun chain => ?_
      refine (upToPanic_skip overflow _ _ _).bind fun chain' => .after _ fun _ => ?_
      exact .after get fun self' => (Method.upToPanic_succ32 _ overflow).bind fun _ => .refl _

theorem upToPanic_turn (fresh : C.Secret) (header : Header C) :
    UpToPanic (DoubleRatchet.turn fresh header)
      (DoubleRatchet.turn fresh header overflow) := by
  refine .after get fun self => .after _ fun _ => ?_
  cases self.recvChain with
  | none => exact .refl _
  | some chain =>
    cases self.dhRemote with
    | none => exact .refl _
    | some oldRemote =>
      refine UpToPanic.bind ?_ fun _ => .refl _
      exact .after get fun self' => (upToPanic_skip overflow _ _ _).bind fun _ => .refl _

theorem upToPanic_decrypt (fresh : C.Secret) (header : Header C) (ct : C.Sealed) :
    UpToPanic (DoubleRatchet.decrypt fresh header ct)
      (DoubleRatchet.decrypt fresh header ct overflow) := by
  refine .after get fun self => ?_
  cases self.hasRemote header.dhPub with
  | true => exact (upToPanic_messageKeyFor overflow _).bind fun _ => .refl _
  | false =>
    refine (upToPanic_turn overflow _ _).bind fun _ => ?_
    exact (upToPanic_messageKeyFor overflow _).bind fun _ => .refl _

theorem upToPanic_encrypt (plaintext : List UInt8) :
    UpToPanic (DoubleRatchet.encrypt plaintext : RatchetM C (Header C × C.Sealed))
      (DoubleRatchet.encrypt plaintext overflow) := by
  refine .after get fun self => .after _ fun chain => .after _ fun _ => ?_
  exact (Method.upToPanic_succ32 _ overflow).bind fun sendN => .refl _

theorem Call.upToPanic (c : Call C) : UpToPanic c.perform (c.perform overflow) := by
  cases c with
  | encrypt plaintext => exact (upToPanic_encrypt overflow plaintext).bind fun _ => .refl _
  | decrypt fresh header ct =>
    exact (upToPanic_decrypt overflow fresh header ct).bind fun _ => .refl _

def trace : DoubleRatchet C → List (Call C) →
    List (Call C × Except (Fault MeshError) (Reply C))
  | _, [] => []
  | s, c :: cs =>
    (c, Method.seen ((c.perform overflow).run s)) ::
      trace (Method.after ((c.perform overflow).run s)) cs

def ends (s : DoubleRatchet C) (cs : List (Call C)) : DoubleRatchet C :=
  cs.foldl (fun s c => Method.after ((c.perform overflow).run s)) s

/-- A run of the build with overflow checks in which no call panics is a run of either. -/
theorem trace_eq {s : DoubleRatchet C} {cs : List (Call C)}
    (h : ∀ c, (c, .error .panic) ∉ trace .checked s cs) :
    trace overflow s cs = trace .checked s cs ∧ ends overflow s cs = ends .checked s cs := by
  induction cs generalizing s with
  | nil => exact ⟨rfl, rfl⟩
  | cons c cs ih =>
    rcases c.upToPanic overflow s with ⟨t, hpanic⟩ | hsame
    · refine absurd ?_ (h c)
      rw [trace, hpanic]
      exact List.mem_cons_self
    · obtain ⟨htrace, hends⟩ := ih fun c' hc' => h c' (List.mem_cons_of_mem _ hc')
      rw [trace, trace, ends, ends, List.foldl_cons, List.foldl_cons, hsame]
      exact ⟨congrArg _ htrace, hends⟩

end UpToPanic

end ProjectMesh.Crypto.Ratchet
