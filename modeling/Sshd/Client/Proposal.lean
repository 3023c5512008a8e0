import Sshd.Client.Steps
import Sshd.Server.Negotiation

namespace Sshd.Client

open Lib.Octets Wire Crypto
open Server (names nameInCsvFrom_iff standIn)

variable (P : Primitives)

/-! The server's KEXINIT. -/

theorem nameInCsv_iff {needle : String} (hn : ascii needle ≠ []) (csv : Bytes) :
    nameInCsv needle csv = true ↔ ascii needle ∈ names csv := nameInCsvFrom_iff hn le_rfl

/-- The first four name-lists can be read. -/
def ListsRead (pkt : Bytes) : Prop := (takeStrings 4 (viewInit (pkt.drop 17))).isSome = true

instance (pkt : Bytes) : Decidable (ListsRead pkt) := inferInstanceAs (Decidable (_ = _))

/-- They can be read and name all that the client needs. -/
def Suits (pkt : Bytes) : Prop :=
  ∃ kex hk encCs encSc v,
    takeStrings 4 (viewInit (pkt.drop 17)) = some ([kex, hk, encCs, encSc], v) ∧
      (ascii "curve25519-sha256" ∈ names kex ∨ ascii "curve25519-sha256@libssh.org" ∈ names kex) ∧
        ascii "ssh-ed25519" ∈ names hk ∧ ascii "chacha20-poly1305@openssh.com" ∈ names encCs ∧
          ascii "chacha20-poly1305@openssh.com" ∈ names encSc

/-- A refusal comes with a text that `check_kexinit` wrote, and `do_kex` fails
with this text. -/
def GivesReason (w : World) (pkt : Bytes) : Prop :=
  (checkKexinit pkt).1 = false →
    ∃ text, (checkKexinit pkt).2 = some text ∧
      onKexinit P w msgKexinit.toNat pkt =
        giveUp (w.modify fun cs ↦ { cs with peerKexInit := pkt }) (ascii text)

theorem kexinitLists_cases (pkt : Bytes) :
    kexinitLists pkt = none ∧ takeStrings 4 (viewInit (pkt.drop 17)) = none ∨
      ∃ kex hk encCs encSc v, kexinitLists pkt = some (kex, hk, encCs, encSc) ∧
        takeStrings 4 (viewInit (pkt.drop 17)) = some ([kex, hk, encCs, encSc], v) := by
  simp only [kexinitLists, takeStrings]
  rcases getString (viewInit (pkt.drop 17)) with ⟨_ | kex, v₁⟩
  · simp
  rcases hhk : getString v₁ with ⟨_ | hk, v₂⟩
  · simp [hhk]
  rcases hcs : getString v₂ with ⟨_ | encCs, v₃⟩
  · simp [hhk, hcs]
  rcases hsc : getString v₃ with ⟨_ | encSc, v₄⟩
  · simp [hhk, hcs, hsc]
  · simp [hhk, hcs, hsc]

/-- Lists that can be read make a payload long enough. -/
theorem length_of_takeStrings {pkt kex : Bytes} {xs : List Bytes} {v : View} {n : ℕ}
    (h : takeStrings (n + 1) (viewInit (pkt.drop 17)) = some (kex :: xs, v)) :
    17 + 4 ≤ pkt.length := by
  obtain ⟨u, hg, -⟩ := takeStrings_succ.mp h
  obtain ⟨-, hrest, -⟩ := getString_some (viewInit_ok _) hg
  have hlen := congrArg List.length hrest
  rw [(viewInit_ok _).rest_length, List.length_append, lenPrefixed_length] at hlen
  have hn : (viewInit (pkt.drop 17)).n ≤ pkt.length - 17 := by
    rw [← List.length_drop]
    exact Nat.mod_le _ _
  omega

theorem checkKexinit_unread {pkt : Bytes} (h : ¬ListsRead pkt) : checkKexinit pkt = (false, none) := by
  unfold checkKexinit
  obtain ⟨hk, -⟩ | ⟨kex, hk, encCs, encSc, v, -, ht⟩ := kexinitLists_cases pkt
  · rw [hk]
    split <;> rfl
  · exact absurd (by rw [ListsRead, ht]; rfl) h

/-- Whatever can be read is accepted or refused with a reason. -/
theorem checkKexinit_read {pkt : Bytes} (h : ListsRead pkt) :
    ((checkKexinit pkt).1 = true ↔ Suits pkt) ∧
      ((checkKexinit pkt).1 = false → ∃ text, (checkKexinit pkt).2 = some text) := by
  obtain ⟨-, ht⟩ | ⟨kex, hk, encCs, encSc, v, hlists, ht⟩ := kexinitLists_cases pkt
  · rw [ListsRead, ht] at h
    cases h
  have hlen := length_of_takeStrings ht
  have hsuits : Suits pkt ↔
      (nameInCsv "curve25519-sha256" kex = true ∨
        nameInCsv "curve25519-sha256@libssh.org" kex = true) ∧
        nameInCsv "ssh-ed25519" hk = true ∧ nameInCsv "chacha20-poly1305@openssh.com" encCs = true ∧
          nameInCsv "chacha20-poly1305@openssh.com" encSc = true := by
    rw [nameInCsv_iff (by decide), nameInCsv_iff (by decide), nameInCsv_iff (by decide),
      nameInCsv_iff (by decide), nameInCsv_iff (by decide)]
    constructor
    · rintro ⟨kex', hk', encCs', encSc', v', ht', hn⟩
      rw [ht] at ht'
      cases ht'
      exact hn
    · exact fun hn ↦ ⟨kex, hk, encCs, encSc, v, ht, hn⟩
  rw [hsuits, checkKexinit, if_neg (by omega), hlists]
  simp only
  generalize nameInCsv "curve25519-sha256" kex = curve
  generalize nameInCsv "curve25519-sha256@libssh.org" kex = libssh
  generalize nameInCsv "ssh-ed25519" hk = key
  generalize nameInCsv "chacha20-poly1305@openssh.com" encCs = out
  generalize nameInCsv "chacha20-poly1305@openssh.com" encSc = back
  cases curve <;> cases libssh <;> cases key <;> cases out <;> cases back <;> simp

/-- A refused KEXINIT comes with its reason, and what is accepted is what suits
the client, exactly when the lists can be read. -/
theorem kexinit_reason_iff (w : World) (pkt : Bytes) :
    GivesReason P w pkt ∧ ((checkKexinit pkt).1 = true ↔ Suits pkt) ↔ ListsRead pkt := by
  constructor
  · rintro ⟨hreason, -⟩
    by_contra hno
    have hcheck := checkKexinit_unread hno
    obtain ⟨text, htext, -⟩ := hreason (by rw [hcheck])
    rw [hcheck] at htext
    cases htext
  · intro h
    obtain ⟨hsuits, hrefused⟩ := checkKexinit_read h
    refine ⟨fun hf ↦ ?_, hsuits⟩
    obtain ⟨text, htext⟩ := hrefused hf
    refine ⟨text, htext, ?_⟩
    have hcheck : checkKexinit pkt = (false, some text) := Prod.ext hf htext
    simp only [onKexinit, hcheck]
    rfl

/-- A KEXINIT of one byte is refused with whatever stands in the buffer. -/
theorem short_kexinit_refused :
    let w (junk : Bytes) : World := { runSession sampleEnv sampleJob [] with
      env := { sampleEnv with junk := junk }, pc := .kexinit }
    ¬ListsRead [msgKexinit] ∧ (checkKexinit [msgKexinit]).1 = false ∧
      (onKexinit standIn (w []) msgKexinit.toNat [msgKexinit]).job.msg ≠
        (onKexinit standIn (w (ascii "secret")) msgKexinit.toNat [msgKexinit]).job.msg ∧
      ¬GivesReason standIn (w []) [msgKexinit] := by
  intro w
  have hno : ¬ListsRead [msgKexinit] := by decide
  refine ⟨hno, by decide, by decide +kernel, fun h ↦ ?_⟩
  obtain ⟨text, htext, -⟩ := h (by decide)
  rw [checkKexinit_unread hno] at htext
  cases htext

end Sshd.Client
