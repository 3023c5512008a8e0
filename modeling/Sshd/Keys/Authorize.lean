import Sshd.Keys.Names
import Sshd.Lib.Base64
import Sshd.Server.Runs

namespace Sshd.Keys

open Lib.Octets Lib Wire Crypto Server

variable {P : Primitives}

/-! The validator and the authenticator read the same fields of a line. -/

theorem keyNormalize_idem (raw : Bytes) : keyNormalize (keyNormalize raw) = keyNormalize raw := by
  have hfront : (keyNormalize raw).dropWhile isspace = keyNormalize raw := by
    obtain ⟨t, ht⟩ := List.rdropWhile_prefix (p := isspace) (l := raw.dropWhile isspace)
    cases hr : (raw.dropWhile isspace).rdropWhile isspace with
    | nil =>
      rw [keyNormalize, hr]
      rfl
    | cons c rest =>
      have hidem := List.dropWhile_idempotent (p := isspace) (l := raw)
      rw [← ht, hr, List.cons_append, List.dropWhile_eq_self_iff] at hidem
      rw [keyNormalize, hr]
      exact List.dropWhile_cons_of_neg (hidem (Nat.succ_pos _))
  rw [keyNormalize, hfront, keyNormalize, List.rdropWhile_idempotent]

theorem dropWhile_ne (line : Bytes) (b : UInt8) :
    line.dropWhile (· ≠ b) = line.drop (line.idxOf b) := by
  induction line with
  | nil => rfl
  | cons c line ih =>
    by_cases hc : c = b
    · simp [hc]
    · rw [List.dropWhile_cons_of_pos (by simpa using hc), ih, List.idxOf_cons_ne line hc,
        List.drop_succ_cons]

theorem base64Field_eq (line : Bytes) : base64Field line = lineBlob line := by
  rw [base64Field, dropWhile_ne, List.drop_drop, lineBlob]

/-- What `mbedtls_base64_decode` does with text of the base64 characters. -/
def DecodesBase64 (P : Primitives) : Prop :=
  ∀ dlen text, (∀ c ∈ text, isBase64 c = true) → P.base64Decode dlen text = Base64.decode dlen text

theorem buildHostKeyBlob_eq (pub : Bytes) :
    buildHostKeyBlob pub = lenPrefixed (ascii "ssh-ed25519") ++ lenPrefixed pub := by
  simp only [buildHostKeyBlob, putCstring, putString_eq, List.nil_append]

/-- A line gives its key if its blob begins with the key. -/
theorem lineKey_of_blob {line pub rest : Bytes} (hhead : line.take 12 = ascii "ssh-ed25519 ")
    (hpub : pub.length = 32) (hlen : (buildHostKeyBlob pub ++ rest).length < 2 ^ 32)
    (hdec : P.base64Decode 80 (base64Field line) = some (buildHostKeyBlob pub ++ rest)) :
    lineKey P line = some pub := by
  have hrest := rest_viewInit hlen
  rw [buildHostKeyBlob_eq, List.append_assoc] at hrest hdec
  obtain ⟨v, hg, hv, hb, hr⟩ := getString_of_rest (viewInit_ok _) rfl (by decide) hrest
  obtain ⟨v', hg', -⟩ := getString_of_rest hv hb (by omega) hr
  simp only [lineKey, hhead, hdec, hg, hg', hpub, ne_eq, not_true_eq_false, if_false]

theorem buildHostKeyBlob_length {pub : Bytes} (hpub : pub.length = 32) :
    (buildHostKeyBlob pub).length = 51 := by
  rw [buildHostKeyBlob_eq, List.length_append, lenPrefixed_length, lenPrefixed_length, hpub]
  rfl

section
variable {text : Bytes}

end

/-- Stand-ins with a decoder for base64. -/
def decoding : Primitives := { standIn with base64Decode := Base64.decode }

end Sshd.Keys
