import Mathlib.Algebra.BigOperators.Group.Multiset.Defs
import Mathlib.Data.Set.Finite.Basic
import ProjectMesh.Crypto.Noise
import ProjectMesh.Lib.Bytes

namespace ProjectMesh.Crypto.Symbolic

open ProjectMesh.Lib

/-- A point of Curve25519 as the scalars the base point was multiplied by, or one of the
points of small order. -/
inductive Point : Type
  | mul (scalars : Multiset Nat)
  | small (index : Nat)

-- Derived instances transport along an equation of multisets and do not compute.
instance : DecidableEq Point
  | .mul s, .mul t => decidable_of_iff (s = t) (by simp)
  | .small i, .small j => decidable_of_iff (i = j) (by simp)
  | .mul _, .small _ => isFalse (by simp)
  | .small _, .mul _ => isFalse (by simp)

/-- Multiplication by a secret.  Every point of small order gives the all-zero output. -/
def Point.scale (a : Nat) : Point → Point
  | .mul scalars => .mul (a ::ₘ scalars)
  | .small _ => .small 0

/-- A public key as it is sent: a point has more than one encoding. -/
structure Public : Type where
  point : Point
  encoding : Nat

instance : DecidableEq Public := fun p q =>
  decidable_of_iff (p.point = q.point ∧ p.encoding = q.encoding) (by cases p; cases q; simp)

inductive Key : Type
  | protocol (name : String)
  | hash (h : Key) (data : List UInt8)
  | mixKey (half : Bool) (ck : Key) (ikm : Point)
  | split (half : Bool) (ck : Key)
  | hkdf (half : Bool) (salt : Key) (ikm : Point) (info : String)
  | hmac (key : Key) (byte : UInt8)

def Key.decEq : (k k' : Key) → Decidable (k = k')
  | .protocol name, .protocol name' => decidable_of_iff (name = name') (by simp)
  | .hash h data, .hash h' data' =>
    have := Key.decEq h h'
    decidable_of_iff (h = h' ∧ data = data') (by simp)
  | .mixKey half ck ikm, .mixKey half' ck' ikm' =>
    have := Key.decEq ck ck'
    decidable_of_iff (half = half' ∧ ck = ck' ∧ ikm = ikm') (by simp)
  | .split half ck, .split half' ck' =>
    have := Key.decEq ck ck'
    decidable_of_iff (half = half' ∧ ck = ck') (by simp)
  | .hkdf half salt ikm info, .hkdf half' salt' ikm' info' =>
    have := Key.decEq salt salt'
    decidable_of_iff (half = half' ∧ salt = salt' ∧ ikm = ikm' ∧ info = info') (by simp)
  | .hmac key byte, .hmac key' byte' =>
    have := Key.decEq key key'
    decidable_of_iff (key = key' ∧ byte = byte') (by simp)
  | .protocol _, .hash .. | .protocol _, .mixKey .. | .protocol _, .split ..
  | .protocol _, .hkdf .. | .protocol _, .hmac .. => isFalse nofun
  | .hash .., .protocol _ | .hash .., .mixKey .. | .hash .., .split ..
  | .hash .., .hkdf .. | .hash .., .hmac .. => isFalse nofun
  | .mixKey .., .protocol _ | .mixKey .., .hash .. | .mixKey .., .split ..
  | .mixKey .., .hkdf .. | .mixKey .., .hmac .. => isFalse nofun
  | .split .., .protocol _ | .split .., .hash .. | .split .., .mixKey ..
  | .split .., .hkdf .. | .split .., .hmac .. => isFalse nofun
  | .hkdf .., .protocol _ | .hkdf .., .hash .. | .hkdf .., .mixKey ..
  | .hkdf .., .split .. | .hkdf .., .hmac .. => isFalse nofun
  | .hmac .., .protocol _ | .hmac .., .hash .. | .hmac .., .mixKey ..
  | .hmac .., .split .. | .hmac .., .hkdf .. => isFalse nofun

instance : DecidableEq Key := Key.decEq

inductive Sealed : Type
  | box (key : Key) (associatedData plaintext : List UInt8)
  /-- Sealed by Noise under a counter and a hash; the content is a public key or bytes. -/
  | noiseBox (key : Key) (counter : Nat) (hash : Option Key) (content : Public ⊕ List UInt8)
  | bytes (bytes : List UInt8)

def Sealed.open (key : Key) (associatedData : List UInt8) : Sealed → Option (List UInt8)
  | .box key' associatedData' plaintext =>
    if key = key' ∧ associatedData = associatedData' then some plaintext else none
  | .noiseBox .. => none
  | .bytes _ => none

def Sealed.noiseOpen (key : Key) (counter : Nat) (hash : Option Key) :
    Sealed → Option (Public ⊕ List UInt8)
  | .noiseBox key' counter' hash' content =>
    if key = key' ∧ counter = counter' ∧ hash = hash' then some content else none
  | .box .. => none
  | .bytes _ => none

/-- The primitives as free constructors, but for the laws Diffie-Hellman has.  Secrets are
named by numbers, and `encode` is any encoding of the public keys. -/
abbrev suite (encode : Public → List UInt8) : Suite where
  Secret := Nat
  Public := Public
  Shared := Point
  Key := Key
  Sealed := Sealed
  publicEq := inferInstance
  publicKey a := { point := .mul {a}, encoding := 0 }
  samePoint p q := p.point = q.point
  publicBytes := encode
  diffieHellman a p := p.point.scale a
  hkdf salt ikm info := (.hkdf false salt ikm info, .hkdf true salt ikm info)
  hmac := .hmac
  encrypt key associatedData plaintext := some (.box key associatedData plaintext)
  decrypt := Sealed.open

theorem lawful_suite (encode : Public → List UInt8) : (suite encode).Lawful where
  dh_comm a b := congrArg Point.mul (Multiset.cons_swap a b 0)
  samePoint_refl p := decide_eq_true rfl
  samePoint_symm p q := by simp only [eq_comm]
  decrypt_encrypt k ad m _ := ⟨_, rfl, if_pos ⟨rfl, rfl⟩⟩

theorem exists_fresh (encode : Public → List UInt8) (used : List Public) :
    ∃ a, ∀ q ∈ used, (suite encode).samePoint q ((suite encode).publicKey a) = false := by
  have hinj : Function.Injective fun a : Nat => Point.mul {a} := fun a b h => by
    simpa using h
  obtain ⟨p, ⟨a, rfl⟩, hp⟩ := (Set.infinite_range_of_injective hinj).exists_notMem_finset
    (used.map Public.point).toFinset
  refine ⟨a, fun q hq => decide_eq_false fun heq => hp ?_⟩
  rw [List.mem_toFinset, List.mem_map]
  exact ⟨q, hq, heq⟩

theorem ideal_suite (encode : Public → List UInt8) : (suite encode).Ideal where
  toLawful := lawful_suite encode
  diffieHellman_inj a b c h := by
    simp only [Point.scale, Point.mul.injEq, Multiset.cons_inj_right] at h
    exact decide_eq_true (congrArg Point.mul h)
  hkdf_inj salt ikm salt' ikm' info h := by
    simp only [Key.hkdf.injEq] at h
    exact h.2.2.1
  hmac_inj k k' b h := by
    simp only [Key.hmac.injEq] at h
    exact h.1
  decrypt_wrongKey k k' ad ad' m c hne h := by
    obtain rfl : Sealed.box k ad m = c := by simpa using h
    exact if_neg fun heq => hne heq.1.symm
  exists_fresh := exists_fresh encode

def toContent {C : Suite} : Noise.Payload C → C.Public ⊕ List UInt8
  | .publicKey p => .inl p
  | .bytes bs => .inr bs

def ofContent {C : Suite} : C.Public ⊕ List UInt8 → Noise.Payload C
  | .inl p => .publicKey p
  | .inr bs => .bytes bs

abbrev noiseSuite (encode : Public → List UInt8) (encodeSealed : Sealed → List UInt8) :
    Noise.NoiseSuite where
  toSuite := suite encode
  protocol := .protocol
  hash := .hash
  mixKey ck shared := (.mixKey false ck shared, .mixKey true ck shared)
  split ck := (.split false ck, .split true ck)
  noiseSeal key counter hash payload := .noiseBox key counter hash (toContent payload)
  noiseOpen key counter hash c := (c.noiseOpen key counter hash).map ofContent
  sealedBytes := encodeSealed

def encode (p : Public) : List UInt8 :=
  match p.point with
  | .mul scalars => leBytes 31 (scalars.map fun a => 2 ^ a).sum ++ leBytes 1 p.encoding
  | .small index => leBytes 31 index ++ leBytes 1 (128 + p.encoding)

abbrev toySuite : Suite := suite encode

/-- A ciphertext looks like its plaintext with a tag of zeros. -/
abbrev toyNoiseSuite : Noise.NoiseSuite := noiseSuite encode fun
  | .box .. => List.replicate 80 0
  | .noiseBox _ _ _ (.inl p) => encode p ++ List.replicate 16 0
  | .noiseBox _ _ _ (.inr bs) => bs ++ List.replicate 16 0
  | .bytes bs => bs

end ProjectMesh.Crypto.Symbolic
