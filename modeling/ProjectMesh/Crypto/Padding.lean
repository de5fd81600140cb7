import ProjectMesh.Error
import ProjectMesh.Lib.Bytes

namespace ProjectMesh.Crypto.Padding

open ProjectMesh.Lib

def buckets : List Nat := [64, 256, 1024, 4096, 16384, 65536]

def resize (bs : List UInt8) (n : Nat) (b : UInt8) : List UInt8 :=
  (bs ++ List.replicate (n - bs.length) b).take n

def padToBucket (plaintext : List UInt8) : Except MeshError (List UInt8) :=
  let needed := plaintext.length + 4
  match buckets.find? (fun b => needed ≤ b) with
  | some bucket => .ok (resize (leBytes 4 plaintext.length ++ plaintext) bucket 0)
  | none => .error (.malformed "plaintext too large for any size bucket")

def unpad (padded : List UInt8) : Except MeshError (List UInt8) :=
  if padded.length < 4 then
    .error (.malformed "padded content shorter than length prefix")
  else
    let len := leNat (padded.take 4)
    if 4 + len > padded.length then
      .error (.malformed "length prefix exceeds padded content")
    else
      .ok ((padded.drop 4).take len)

theorem length_resize (bs : List UInt8) (n : Nat) (b : UInt8) : (resize bs n b).length = n := by
  simp [resize]
  omega

theorem resize_of_le {bs : List UInt8} {n : Nat} (h : bs.length ≤ n) (b : UInt8) :
    resize bs n b = bs ++ List.replicate (n - bs.length) b := by
  rw [resize, List.take_of_length_le]
  simp
  omega

theorem find_bucket (n : Nat) :
    (n ≤ 65532 → ∃ b ∈ buckets, buckets.find? (fun b => n + 4 ≤ b) = some b ∧ n + 4 ≤ b) ∧
      (65532 < n → buckets.find? (fun b => n + 4 ≤ b) = none) := by
  constructor
  · intro h
    cases hf : buckets.find? (fun b => n + 4 ≤ b) with
    | none =>
      have := List.find?_eq_none.mp hf 65536 (by decide)
      simp at this
      omega
    | some b =>
      have hb := List.find?_some hf
      exact ⟨b, List.mem_of_find?_eq_some hf, rfl, by simpa using hb⟩
  · intro h
    apply List.find?_eq_none.mpr
    intro b hb
    have : b ≤ 65536 := by
      simp [buckets] at hb
      omega
    simp
    omega

theorem bucket_le {b : Nat} (h : b ∈ buckets) : b ≤ 65536 := by
  simp [buckets] at h
  omega

theorem unpad_padToBucket {plaintext : List UInt8} (h : plaintext.length ≤ 65532) :
    ∃ padded, padToBucket plaintext = .ok padded ∧ padded.length ≤ 65536 ∧
      unpad padded = .ok plaintext := by
  obtain ⟨b, hmem, hfind, hle⟩ := (find_bucket plaintext.length).1 h
  have hlen : (leBytes 4 plaintext.length ++ plaintext).length ≤ b := by
    simp
    omega
  refine ⟨resize (leBytes 4 plaintext.length ++ plaintext) b 0, ?_, ?_, ?_⟩
  · simp only [padToBucket, hfind]
  · rw [length_resize]
    exact bucket_le hmem
  · have hnum : leNat (leBytes 4 plaintext.length) = plaintext.length :=
      leNat_leBytes_of_lt (by omega)
    have htake : (resize (leBytes 4 plaintext.length ++ plaintext) b 0).take 4 =
        leBytes 4 plaintext.length := by
      rw [resize_of_le hlen, List.append_assoc, List.take_left' (length_leBytes _ _)]
    have hdrop : (resize (leBytes 4 plaintext.length ++ plaintext) b 0).drop 4 =
        plaintext ++ List.replicate (b - (leBytes 4 plaintext.length ++ plaintext).length) 0 := by
      rw [resize_of_le hlen, List.append_assoc, List.drop_left' (length_leBytes _ _)]
    rw [unpad, htake, hdrop, hnum, length_resize, if_neg (by omega), if_neg (by omega),
      List.take_left' rfl]

structure IsBucket (n b : Nat) : Prop where
  mem : b ∈ buckets
  fits : n + 4 ≤ b
  least : ∀ b' ∈ buckets, n + 4 ≤ b' → b ≤ b'

theorem isBucket_of_find {n b : Nat} (h : buckets.find? (fun b => n + 4 ≤ b) = some b) :
    IsBucket n b := by
  refine ⟨List.mem_of_find?_eq_some h, by simpa using List.find?_some h, fun b' hb' hle => ?_⟩
  obtain ⟨-, before, after, heq, hbefore⟩ := List.find?_eq_some_iff_append.mp h
  have hsorted : (before ++ b :: after).Pairwise (· ≤ ·) := heq ▸ (by decide)
  rw [heq, List.mem_append, List.mem_cons] at hb'
  rcases hb' with hb' | rfl | hb'
  · have hnot := hbefore b' hb'
    rw [decide_eq_true hle] at hnot
    cases hnot
  · exact Nat.le_refl _
  · exact List.rel_of_pairwise_cons (List.pairwise_append.mp hsorted).2.1 hb'

theorem length_padToBucket {plaintext padded : List UInt8}
    (h : padToBucket plaintext = .ok padded) : IsBucket plaintext.length padded.length := by
  simp only [padToBucket] at h
  split at h
  · next bucket hfind =>
    cases h
    rw [length_resize]
    exact isBucket_of_find hfind
  · cases h

theorem le_of_padToBucket {plaintext padded : List UInt8}
    (h : padToBucket plaintext = .ok padded) : plaintext.length ≤ 65532 := by
  have hbucket := length_padToBucket h
  have hle := bucket_le hbucket.mem
  have hfits := hbucket.fits
  omega

theorem unpad_of_padToBucket {plaintext padded : List UInt8}
    (h : padToBucket plaintext = .ok padded) : unpad padded = .ok plaintext := by
  obtain ⟨padded', hpad, -, hunpad⟩ := unpad_padToBucket (le_of_padToBucket h)
  cases h.symm.trans hpad
  exact hunpad

theorem padToBucket_of_lt {plaintext : List UInt8} (h : 65532 < plaintext.length) :
    padToBucket plaintext = .error (.malformed "plaintext too large for any size bucket") := by
  simp only [padToBucket, (find_bucket plaintext.length).2 h]

end ProjectMesh.Crypto.Padding
