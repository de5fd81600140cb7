import Mathlib.Data.Set.Function
import ProjectMesh.Routing.PersistenceLaws
import ProjectMesh.Routing.WireFormat

namespace ProjectMesh.Routing

open ProjectMesh.Lib Relation

variable {P : Primitives} {a b e r : Envelope P}

theorem Priority.tag_injective {p q : Priority} (h : p.tag = q.tag) : p = q := by
  have hp := Priority.fromTag_tag p
  rw [h, Priority.fromTag_tag] at hp
  cases hp
  rfl

namespace Envelope

/-- What the id is the hash of. -/
def preimage (e : Envelope P) : List UInt8 :=
  [wireVersion, e.addressing.tag] ++ e.addressing.targetBytes ++ [e.priority.tag] ++
    leBytes 8 e.expiresAt.toNat ++ leBytes 4 e.sealed.length ++ e.sealed

theorem id_eq (e : Envelope P) : e.id = ⟨P.blake3 e.preimage⟩ := e.derived

theorem addressing_eq_of_append {x y : Addressing} {xs ys : List UInt8} (htag : x.tag = y.tag)
    (h : x.targetBytes ++ xs = y.targetBytes ++ ys) : x = y ∧ xs = ys := by
  have hx := readAddressing_tag x xs
  have hy := readAddressing_tag y ys
  rw [htag, h, hy] at hx
  cases hx
  exact ⟨rfl, rfl⟩

theorem preimage_injective (h : a.preimage = b.preimage) :
    a.addressing = b.addressing ∧ a.priority = b.priority ∧ a.expiresAt = b.expiresAt ∧
      a.sealed = b.sealed := by
  simp only [preimage, List.cons_append, List.nil_append, List.append_assoc, List.cons.injEq,
    true_and] at h
  obtain ⟨htag, h⟩ := h
  obtain ⟨haddressing, h⟩ := addressing_eq_of_append htag h
  obtain ⟨hpriority, h⟩ := List.cons.inj h
  obtain ⟨hexpiry, h⟩ := List.append_inj h (by rw [length_leBytes, length_leBytes])
  obtain ⟨-, hsealed⟩ := List.append_inj h (by rw [length_leBytes, length_leBytes])
  refine ⟨haddressing, Priority.tag_injective hpriority, ?_, hsealed⟩
  exact UInt64.toNat_inj.mp (leBytes_injOn a.expiresAt.toNat_lt b.expiresAt.toNat_lt hexpiry)

theorem id_eq_iff {built : Set (Envelope P)} (hinj : Set.InjOn P.blake3 (preimage '' built))
    (ha : a ∈ built) (hb : b ∈ built) :
    a.id = b.id ↔ a.addressing = b.addressing ∧ a.priority = b.priority ∧
      a.expiresAt = b.expiresAt ∧ a.sealed = b.sealed := by
  constructor
  · intro h
    rw [id_eq, id_eq] at h
    exact preimage_injective (hinj (Set.mem_image_of_mem _ ha) (Set.mem_image_of_mem _ hb)
      (EnvelopeId.mk.inj h))
  · rintro ⟨haddressing, hpriority, hexpiry, hsealed⟩
    rw [a.derived, b.derived, haddressing, hpriority, hexpiry, hsealed]

end Envelope

/-- What happens to an envelope on its way: a hop, a transmission, and a stay in a database
that keeps its key and the envelope's record. -/
inductive Conveyed : Envelope P → Envelope P → Prop
  | hop {x y} : decrementTtl x = some y → Conveyed x y
  | sent {x y} : Envelope.fromBytes P x.toBytes = .ok y → Conveyed x y
  | stored {x y} {s s' t t' : EncryptedStore} : (EncryptedStore.put P x).run s = .ok () s' →
    t.masterKey = s'.masterKey → t.table.lookup x.id.bytes.1 = s'.table.lookup x.id.bytes.1 →
    (EncryptedStore.get P x.id).run t = .ok (some y) t' → Conveyed x y

theorem eq_of_fromBytes_toBytes (h : Envelope.fromBytes P e.toBytes = .ok r) : r = e := by
  rw [Envelope.fromBytes_toBytes] at h
  split at h
  · exact (Except.ok.inj h).symm
  · cases h

namespace EncryptedStore

variable {s s' t t' : EncryptedStore}

theorem put_run_ok (h : (put P e).run s = .ok () s') :
    s'.masterKey = s.masterKey ∧ ∃ sealed, s.sealing e = .ok sealed ∧
      s'.table.lookup e.id.bytes.1 = some sealed := by
  cases hseal : s.sealing e with
  | error err =>
    rw [put_unsealed hseal] at h
    cases h
  | ok sealed =>
    by_cases hfails : s.WriteFails
    · obtain ⟨err, hrun⟩ := put_error hfails hseal
      rw [hrun] at h
      cases h
    · rw [put_ok hfails hseal] at h
      cases h
      exact ⟨rfl, sealed, rfl, AList.lookup_insert _⟩

theorem get_run_ok {o : Option (Envelope P)} {id : EnvelopeId}
    (h : (EncryptedStore.get P id).run t = .ok o t') : t.record P id = .ok o := by
  by_cases hfails : t.ReadFails
  · obtain ⟨err, hrun⟩ := get_error P hfails id
    rw [hrun] at h
    cases h
  · rw [get_ok hfails] at h
    split at h
    · next hrecord =>
      cases h
      exact hrecord
    · cases h

theorem record_of_sealing (hopens : P.Opens) (hkey : t.masterKey = s.masterKey)
    {sealed : List UInt8} (hseal : s.sealing e = .ok sealed)
    (hlookup : t.table.lookup e.id.bytes.1 = some sealed) :
    t.record P e.id = some <$> Envelope.fromBytes P e.toBytes := by
  have hopen : aeadOpen P t.masterKey e.id.bytes.1 sealed = .ok e.toBytes := by
    rw [hkey]
    exact aeadOpen_of_aeadSeal hopens hseal
  rw [record, hlookup]
  simp only [bind, Except.bind, hopen]
  cases Envelope.fromBytes P e.toBytes with
  | error err => rfl
  | ok r => rfl

end EncryptedStore

theorem Conveyed.id_eq (hopens : P.Opens) (h : Conveyed e r) : r.id = e.id := by
  cases h with
  | hop h => exact id_decrementTtl h
  | sent h => rw [eq_of_fromBytes_toBytes h]
  | stored hput hkey hlookup hget =>
    obtain ⟨hkey', sealed, hseal, hlookup'⟩ := EncryptedStore.put_run_ok hput
    have hrecord := EncryptedStore.record_of_sealing hopens (hkey.trans hkey') hseal
      (hlookup.trans hlookup')
    rw [EncryptedStore.get_run_ok hget] at hrecord
    cases hparse : Envelope.fromBytes P e.toBytes with
    | error err =>
      rw [hparse] at hrecord
      cases hrecord
    | ok r' =>
      rw [hparse] at hrecord
      cases hrecord
      rw [eq_of_fromBytes_toBytes hparse]

/-- Where BLAKE3 has no collision, the id stands for the content without the hop count, and
keeps standing for it on any way the envelope takes. -/
theorem envelope_identity (built : Set (Envelope P))
    (hinj : Set.InjOn P.blake3 (Envelope.preimage '' built)) (hopens : P.Opens) :
    (∀ a ∈ built, ∀ b ∈ built,
      (a.id = b.id ↔ a.addressing = b.addressing ∧ a.priority = b.priority ∧
        a.expiresAt = b.expiresAt ∧ a.sealed = b.sealed)) ∧
      ∀ e r : Envelope P, ReflTransGen Conveyed e r → r.id = e.id := by
  refine ⟨fun a ha b hb => Envelope.id_eq_iff hinj ha hb, fun e r h => ?_⟩
  induction h with
  | refl => rfl
  | tail _ hstep ih => exact (hstep.id_eq hopens).trans ih

theorem opens_toyPrimitives : toyPrimitives.Opens := by
  intro key nonce associatedData plaintext ciphertext h
  have hciphertext : ciphertext = plaintext ++ List.replicate 16 0 := (Option.some.inj h).symm
  have hlength : ciphertext.length - 16 = plaintext.length := by
    rw [hciphertext, List.length_append, List.length_replicate, Nat.add_sub_cancel]
  have hdecrypt : toyPrimitives.chachaDecrypt key nonce associatedData ciphertext =
      some (ciphertext.take (ciphertext.length - 16)) := rfl
  rw [hdecrypt, hlength, hciphertext, List.take_left' rfl]

def toySos : Envelope toyPrimitives := .new toyPrimitives .broadcast .sos 3 100 [1, 1, 1, 1]

theorem envelope_identity_toyEnvelope :
    (toyEnvelope 3).id = (toyEnvelope 2).id ∧ (toyEnvelope 3).id ≠ toySos.id ∧
      ∀ r, ReflTransGen Conveyed (toyEnvelope 3) r → r.id = (toyEnvelope 3).id := by
  have hne : toyPrimitives.blake3 (toyEnvelope 3).preimage ≠
      toyPrimitives.blake3 toySos.preimage := by
    decide
  have hinj : Set.InjOn toyPrimitives.blake3
      (Envelope.preimage '' {toyEnvelope 3, toyEnvelope 2, toySos}) := by
    have hpreimage : Envelope.preimage '' {toyEnvelope 3, toyEnvelope 2, toySos} =
        {(toyEnvelope 3).preimage, toySos.preimage} := by
      rw [Set.image_insert_eq, Set.image_pair]
      exact Set.insert_eq_of_mem (.inl rfl)
    rw [hpreimage, Set.injOn_pair]
    exact fun heq => absurd heq hne
  have hidentity := envelope_identity _ hinj opens_toyPrimitives
  refine ⟨(hidentity.1 _ (.inl rfl) _ (.inr (.inl rfl))).mpr ⟨rfl, rfl, rfl, rfl⟩, fun hid => ?_,
    hidentity.2 _⟩
  have hpriority := ((hidentity.1 _ (.inl rfl) _ (.inr (.inr rfl))).mp hid).2.1
  exact absurd hpriority (by decide)

end ProjectMesh.Routing
