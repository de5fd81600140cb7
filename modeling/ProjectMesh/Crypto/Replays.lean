import ProjectMesh.Crypto.Healing

namespace ProjectMesh.Crypto.Ratchet

open ProjectMesh.Lib
open ProjectMesh.Lib.Method (Triple)
open ProjectMesh.Crypto.Symbolic
open ProjectMesh.Crypto.Session (sealingKey)

variable {encode : Public → List UInt8} {secret mk : Key} {used inHand : List Key}
  {s t : DoubleRatchet (suite encode)} {ct : Sealed}

namespace DoubleRatchet

theorem Keeps.notMem (h : Keeps secret used (mk :: inHand) s) : mk ∉ used :=
  fun hmem => h.gone mk List.mem_cons_self mk hmem .refl

theorem fresh_receive (secret : Key) (used : List Key) (header : Header (suite encode))
    (ct : Sealed) :
    Triple (Keeps secret used []) (receive header ct)
      (fun _ _ => ∀ mk, sealingKey ct = some mk → mk ∉ used) (fun _ => True) := by
  refine Triple.bind ((keeps_messageKeyFor secret used _).mono (fun _ h => h) (fun _ _ h => h)
    fun _ _ => trivial) fun mk => ?_
  refine Triple.ofExcept (fun plaintext hopen s h => ?_) fun _ _ => trivial
  obtain ⟨padded, rfl, -⟩ := Guarded.openMessage_ok hopen
  rintro _ ⟨⟩
  exact h.notMem

theorem fresh_decrypt (secret : Key) (used : List Key) (f : Nat) (header : Header (suite encode))
    (ct : Sealed) :
    Triple (Keeps secret used []) (decrypt f header ct)
      (fun _ _ => ∀ mk, sealingKey ct = some mk → mk ∉ used) (fun _ => True) := by
  intro s h
  cases hremote : s.hasRemote header.dhPub with
  | true =>
    rw [decrypt_sameRemote hremote]
    exact fresh_receive secret used header ct s h
  | false =>
    rw [decrypt_newRemote hremote]
    exact Triple.bind ((keeps_turn secret used f header).mono (fun _ h => h) (fun _ _ h => h)
      fun _ _ => trivial) (fun _ => fresh_receive secret used header ct) s h

end DoubleRatchet

def Call.ciphertext : Call (suite encode) → Reply (suite encode) → Option Sealed
  | .encrypt _, .encrypted _ ct => some ct
  | .encrypt _, .decrypted _ => none
  | .decrypt _ _ ct, _ => some ct

namespace Tapped

open DoubleRatchet

variable {w : Tapped encode} {c : Call (suite encode)} {reply : Reply (suite encode)} {f : Nat}
  {header : Header (suite encode)} {plaintext : List UInt8}

theorem Reachable.after (h : Reachable secret w) (calls : List (Call (suite encode))) :
    Reachable secret (w.after calls) := by
  induction calls generalizing w with
  | nil => exact h
  | cons c calls ih => exact ih (.call c h)

theorem mem_used_call {k : Key} (h : k ∈ w.used) : k ∈ (w.call c).used := by
  rw [call]
  split
  · exact List.mem_append_right _ h
  · exact h

theorem mem_used_after {k : Key} (h : k ∈ w.used) (calls : List (Call (suite encode))) :
    k ∈ (w.after calls).used := by
  induction calls generalizing w with
  | nil => exact h
  | cons c calls ih => exact ih (mem_used_call h)

theorem exists_used (hw : Reachable secret w) (hrun : c.perform.run w.session = .ok reply s)
    (hct : c.ciphertext reply = some ct) : ∃ mk ∈ (w.call c).used, sealingKey ct = some mk := by
  have hend := keeps_perform secret w.used c w.session hw.keeps
  rw [hrun] at hend
  obtain ⟨mk, hmk, -⟩ := hend
  refine ⟨mk, ?_, ?_⟩
  · rw [call, hrun]
    dsimp only
    rw [hmk]
    exact List.mem_cons_self
  · cases c with
    | encrypt plaintext =>
      cases reply with
      | encrypted header ct' =>
        cases hct
        exact hmk
      | decrypted plaintext' => cases hct
    | decrypt f header ct' =>
      cases hct
      exact hmk

/-- Whatever a session is given, it opens no ciphertext twice, and none that it made itself. -/
theorem refuses_replays (hw : Reachable secret w) (hrun : c.perform.run w.session = .ok reply s)
    (hct : c.ciphertext reply = some ct) (calls : List (Call (suite encode))) (f : Nat)
    (header : Header (suite encode)) :
    ∃ fault t, (decrypt f header ct).run ((w.call c).after calls).session = .error fault t := by
  obtain ⟨mk, hused, hkey⟩ := exists_used hw hrun hct
  have hlater : Reachable secret ((w.call c).after calls) := (Reachable.call c hw).after calls
  have hfresh := fresh_decrypt secret _ f header ct _ hlater.keeps
  cases hagain : (decrypt f header ct).run ((w.call c).after calls).session with
  | ok plaintext t =>
    rw [hagain] at hfresh
    exact absurd (mem_used_after hused calls) (hfresh mk hkey)
  | error fault t => exact ⟨fault, t, rfl⟩

section Examples

/-- A message that comes back to the initiator that sent it, after a frame with a new key. -/
theorem refuses_replays_stolen : ∃ (header : Header (suite Symbolic.encode)) (ct : Sealed)
    (s : DoubleRatchet (suite Symbolic.encode)) (fault : Fault MeshError)
    (t : DoubleRatchet (suite Symbolic.encode)),
    (encrypt [104, 105]).run stolen.session = .ok (header, ct) s ∧
      (decrypt (6 : Nat) header ct).run ((stolen.call (.encrypt [104, 105])).after
        [.decrypt (5 : Nat) answer.1 answer.2]).session = .error fault t := by
  obtain ⟨⟨header, ct⟩, s, hrun⟩ :
    ∃ out s, (encrypt [104, 105]).run stolen.session = .ok out s := ⟨_, _, rfl⟩
  have hw : Reachable (.protocol "shared") stolen := .initiator 1 _
  have hperform : (Call.encrypt [104, 105]).perform.run stolen.session =
      .ok (.encrypted header ct) s := Method.run_bind_ok.mpr ⟨_, _, hrun, rfl⟩
  obtain ⟨fault, t, hrefused⟩ := refuses_replays hw hperform rfl
    [.decrypt (5 : Nat) answer.1 answer.2] 6 header
  exact ⟨header, ct, s, fault, t, hrun, hrefused⟩

end Examples

end Tapped

end ProjectMesh.Crypto.Ratchet
