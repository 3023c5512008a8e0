import Sshd.Keys.History
import Sshd.Keys.Revocation

namespace Sshd.Keys

open Lib Lib.Octets Wire Crypto Server

variable (P : Primitives)

/-! The line that the device prints for a key of its own. -/

/-- The text as it lies in the buffer, with the NUL behind it where there is room. -/
def b64Encode (data : Bytes) (outLen : ℕ) : Option Bytes :=
  (P.base64Encode outLen data).map fun out ↦ if out.length < outLen then out ++ [0] else out

/-- The line for a host key, in the server. -/
def server_opensshPubkeyLine (pub : Bytes) : Bytes :=
  let blob := [0, 0, 0, 11] ++ ascii "ssh-ed25519" ++ [0, 0, 0, 32] ++ pub
  match b64Encode P blob 120 with
  | none => []
  | some b64 => ascii "ssh-ed25519 " ++ cString b64

/-- The line for a user key, in the client. -/
def client_opensshPubkeyLine (pub : Bytes) : Bytes :=
  let blob := putString (putCstring [] "ssh-ed25519") pub
  match P.base64Encode 120 blob with
  | none => []
  | some b64 => ascii "ssh-ed25519 " ++ b64

/-- What `mbedtls_base64_encode` does: the text and a NUL have to fit. -/
def EncodesBase64 : Prop :=
  ∀ dlen data, (Base64.encode data).length < dlen →
    P.base64Encode dlen data = some (Base64.encode data)

/-- The line for a key. -/
def keyLine (pub : Bytes) : Bytes :=
  ascii "ssh-ed25519 " ++ Base64.encode (buildHostKeyBlob pub)

variable {P} {pub : Bytes}

theorem encode_isBase64 (data : Bytes) : ∀ c ∈ Base64.encode data, isBase64 c = true := by
  intro c hc
  obtain ⟨ds, k, htext, hds, -, -⟩ := Base64.encode_spec data
  rw [htext, List.mem_append] at hc
  rcases hc with hc | hc
  · obtain ⟨v, hv⟩ := Option.isSome_iff_exists.mp (hds c hc)
    obtain ⟨hlt, rfl⟩ := Base64.value_spec hv
    have hall : ∀ v : Fin 64, isBase64 (Base64.digit v) = true := by decide
    exact hall ⟨v, hlt⟩
  · rw [List.eq_of_mem_replicate hc]
    decide

theorem isBase64_ne {c : UInt8} (h : isBase64 c = true) : c ≠ 32 ∧ c ≠ 0 ∧ isspace c = false := by
  have hall : ∀ n : Fin 256, isBase64 (UInt8.ofNat n) = true → UInt8.ofNat n ≠ 32 ∧
      UInt8.ofNat n ≠ 0 ∧ isspace (UInt8.ofNat n) = false := by
    decide +kernel
  have hc := hall ⟨c.toNat, c.toNat_lt⟩
  rw [UInt8.ofNat_toNat] at hc
  exact hc h

theorem keyText_length (hpub : pub.length = 32) :
    (Base64.encode (buildHostKeyBlob pub)).length = 68 := by
  rw [Base64.encode_length, buildHostKeyBlob_length hpub]

theorem server_opensshPubkeyLine_eq (henc : EncodesBase64 P) (hpub : pub.length = 32) :
    server_opensshPubkeyLine P pub = keyLine pub := by
  have hblob : [0, 0, 0, 11] ++ ascii "ssh-ed25519" ++ [0, 0, 0, 32] ++ pub =
      buildHostKeyBlob pub := by
    rw [buildHostKeyBlob_eq, lenPrefixed, lenPrefixed, hpub]
    rfl
  have hlen := keyText_length hpub
  have hnul : 0 ∉ Base64.encode (buildHostKeyBlob pub) := fun h0 ↦
    (isBase64_ne (encode_isBase64 _ 0 h0)).2.1 rfl
  have hcut : cString (Base64.encode (buildHostKeyBlob pub) ++ [0]) =
      Base64.encode (buildHostKeyBlob pub) := by
    have hall := cString_eq_self hnul
    rw [cString, List.takeWhile_eq_self_iff] at hall
    rw [cString, List.takeWhile_append_of_pos hall]
    exact List.append_nil _
  have hfit : (Base64.encode (buildHostKeyBlob pub)).length < 120 := by omega
  simp only [server_opensshPubkeyLine, hblob, b64Encode, henc 120 _ hfit, Option.map_some,
    if_pos hfit, hcut]
  rfl

theorem client_opensshPubkeyLine_eq (henc : EncodesBase64 P) (hpub : pub.length = 32) :
    client_opensshPubkeyLine P pub = keyLine pub := by
  have hlen := keyText_length hpub
  have hblob : putString (putCstring [] "ssh-ed25519") pub = buildHostKeyBlob pub := rfl
  have hfit : (Base64.encode (buildHostKeyBlob pub)).length < 120 := by omega
  simp only [client_opensshPubkeyLine, hblob, henc 120 _ hfit]
  rfl

/-! The line with what may follow it. -/

/-- Nothing, or a space and a comment. -/
def Commented (tail : Bytes) : Prop := tail = [] ∨ ∃ comment, tail = 32 :: comment

section
variable {tail : Bytes}

theorem keyLine_idxOf (pub tail : Bytes) :
    (keyLine pub ++ tail).idxOf 32 = 11 ∧ 32 ∈ keyLine pub ++ tail := by
  have hmem : 32 ∈ ascii "ssh-ed25519 " := by decide
  constructor
  · rw [keyLine, List.append_assoc, List.idxOf_append_of_mem hmem]
    decide
  · rw [keyLine, List.append_assoc]
    exact List.mem_append_left _ hmem

theorem keyLine_blob (pub : Bytes) (h : Commented tail) :
    lineBlob (keyLine pub ++ tail) = Base64.encode (buildHostKeyBlob pub) := by
  have hdrop : (keyLine pub ++ tail).drop 12 = Base64.encode (buildHostKeyBlob pub) ++ tail := by
    rw [keyLine, List.append_assoc]
    rfl
  have hall : ∀ c ∈ Base64.encode (buildHostKeyBlob pub), decide (c ≠ 32) = true := fun c hc ↦
    decide_eq_true (isBase64_ne (encode_isBase64 _ c hc)).1
  rw [lineBlob, (keyLine_idxOf pub tail).1, hdrop, List.takeWhile_append_of_pos hall]
  obtain rfl | ⟨comment, rfl⟩ := h
  · exact List.append_nil _
  · exact List.append_nil _

theorem keyLine_accepted (hpub : pub.length = 32) (h : Commented tail)
    (hn : keyNormalize (keyLine pub ++ tail) = keyLine pub ++ tail) :
    keyRejection (keyLine pub ++ tail) = [] := by
  obtain ⟨hidx, hmem⟩ := keyLine_idxOf pub tail
  have htype : (keyLine pub ++ tail).take 11 = ascii "ssh-ed25519" := by
    rw [keyLine, List.append_assoc]
    rfl
  have hbody : (Base64.encode (buildHostKeyBlob pub)).all isBase64 = true := by
    rw [List.all_eq_true]
    exact encode_isBase64 _
  have hne : keyLine pub ++ tail ≠ [] := List.ne_nil_of_mem hmem
  have hlen := keyText_length hpub
  simp only [keyRejection, hn, if_neg hne, if_neg (not_not.mpr hmem), hidx, htype,
    keyLine_blob pub h, hbody]
  rw [if_neg (not_not.mpr rfl), if_neg (by decide), if_neg (by omega)]

theorem keyLine_key (hdec : DecodesBase64 P) (hpub : pub.length = 32) (h : Commented tail) :
    lineKey P (keyLine pub ++ tail) = some pub := by
  have hlen := buildHostKeyBlob_length hpub
  have hshort : (buildHostKeyBlob pub ++ []).length < 2 ^ 32 := by
    rw [List.append_nil, hlen]
    decide
  have hblob : P.base64Decode 80 (base64Field (keyLine pub ++ tail)) =
      some (buildHostKeyBlob pub ++ []) := by
    rw [base64Field_eq, keyLine_blob pub h, hdec 80 _ (encode_isBase64 _),
      Base64.decode_encode (by omega), List.append_nil]
  have hhead : (keyLine pub ++ tail).take 12 = ascii "ssh-ed25519 " := by
    rw [keyLine, List.append_assoc]
    rfl
  exact lineKey_of_blob hhead hpub hshort hblob

theorem keyLine_concat (hpub : pub.length = 32) :
    ∃ front c, keyLine pub = front ++ [c] ∧ isspace c = false := by
  have hlen := keyText_length hpub
  have hne : Base64.encode (buildHostKeyBlob pub) ≠ [] := List.ne_nil_of_length_pos (by omega)
  refine ⟨ascii "ssh-ed25519 " ++ (Base64.encode (buildHostKeyBlob pub)).dropLast,
    (Base64.encode (buildHostKeyBlob pub)).getLast hne, ?_,
    (isBase64_ne (encode_isBase64 _ _ (List.getLast_mem hne))).2.2⟩
  rw [List.append_assoc, List.dropLast_concat_getLast hne]
  rfl

/-- Only the white space at the end is taken off. -/
theorem keyNormalize_keyLine (hpub : pub.length = 32) (tail : Bytes) :
    keyNormalize (keyLine pub ++ tail) = keyLine pub ++ tail.rdropWhile isspace := by
  have hfront : (keyLine pub ++ tail).dropWhile isspace = keyLine pub ++ tail :=
    List.dropWhile_cons_of_neg (by decide)
  obtain ⟨front, c, hline, hc⟩ := keyLine_concat hpub
  rw [keyNormalize, hfront]
  induction tail using List.reverseRecOn with
  | nil =>
    rw [List.append_nil, List.rdropWhile_nil, List.append_nil, hline,
      List.rdropWhile_concat_neg _ _ _ (by simp [hc])]
  | append_singleton tail x ih =>
    rw [← List.append_assoc]
    by_cases hx : isspace x = true
    · rw [List.rdropWhile_concat_pos _ _ _ hx, List.rdropWhile_concat_pos _ _ _ hx]
      exact ih (List.dropWhile_cons_of_neg (by decide))
    · rw [List.rdropWhile_concat_neg _ _ _ hx, List.rdropWhile_concat_neg _ _ _ hx,
        List.append_assoc]

theorem Commented.trimmed (h : Commented tail) : Commented (tail.rdropWhile isspace) := by
  obtain rfl | ⟨comment, rfl⟩ := h
  · exact .inl rfl
  · have hwhole := List.rdropWhile_prefix (p := isspace) (l := 32 :: comment)
    rcases hr : (32 :: comment).rdropWhile isspace with _ | ⟨c, rest⟩
    · exact .inl rfl
    · rw [hr, List.cons_prefix_cons] at hwhole
      exact .inr ⟨rest, by rw [hwhole.1]⟩

end

theorem keyLine_nul (pub : Bytes) : 0 ∉ keyLine pub := by
  rw [keyLine, List.mem_append, not_or]
  exact ⟨by decide, fun h0 ↦ (isBase64_ne (encode_isBase64 _ 0 h0)).2.1 rfl⟩

/-! The line is added to a store. -/

/-- What the addition of `raw`, a line for `pub`, does to a store with `items`. -/
structure Authorizes (P : Primitives) (count : Tree → ℕ) (own : Bool) (pub raw : Bytes)
    (items : List Item) (s : Settings) : Prop where
  -- The store takes C strings.
  whole : cString (keyNormalize raw) = keyNormalize raw
  added : keyNormalize raw ∉ items.map Item.line → runCall count own s (.add raw) =
    ⟨Tree.ofList (items ++ [KeyRing.newItem items (keyNormalize raw)]), [], s.done + 1⟩
  there : keyNormalize raw ∈ items.map Item.line →
    runCall count own s (.add raw) = { s with error := alreadyAuthorized }
  access : ∀ q,
    authorizedPubMatches P (authorizedLines count (runCall count own s (.add raw)).keys) q = true ↔
      q = pub ∨ authorizedPubMatches P (authorizedLines count s.keys) q = true

theorem authorizedPubMatches_iff (lines : List Bytes) (q : Bytes) :
    authorizedPubMatches P lines q = true ↔ ∃ line ∈ lines, lineKey P line = some q := by
  simp [authorizedPubMatches]

theorem authorizes_keyLine {count : Tree → ℕ} (hdec : DecodesBase64 P) (hcount : CountsArray count)
    (own : Bool) (hpub : pub.length = 32) {tail : Bytes} (h : Commented tail) (hnul : 0 ∉ tail)
    {items : List Item} {s : Settings} (hs : s.keys = Tree.ofList items) :
    Authorizes P count own pub (keyLine pub ++ tail) items s := by
  have hnorm := keyNormalize_keyLine hpub tail
  have hidem := keyNormalize_idem (keyLine pub ++ tail)
  rw [hnorm] at hidem
  have hwhy := keyLine_accepted hpub h.trimmed hidem
  have hkey := keyLine_key hdec hpub h.trimmed
  have hcall := @runCall_addItem count own items hcount s hs (keyLine pub ++ tail)
  rw [hnorm, if_neg (not_not.mpr hwhy)] at hcall
  constructor
  · apply cString_eq_self
    rw [hnorm, List.mem_append, not_or]
    exact ⟨keyLine_nul pub, fun h0 ↦ hnul ((List.rdropWhile_prefix isspace tail).subset h0)⟩
  · intro hnew
    rw [hnorm] at hnew ⊢
    rw [hcall, if_neg hnew]
  · intro hmem
    rw [hnorm] at hmem
    rw [hcall, if_pos hmem]
  · intro q
    rw [authorizedPubMatches_iff, authorizedPubMatches_iff, hs, authorizedLines_ofList hcount]
    by_cases hmem : keyLine pub ++ tail.rdropWhile isspace ∈ items.map Item.line
    · rw [hcall, if_pos hmem]
      dsimp only
      rw [hs, authorizedLines_ofList hcount]
      refine ⟨.inr, ?_⟩
      rintro (rfl | hold)
      · exact ⟨_, hmem, hkey⟩
      · exact hold
    · rw [hcall, if_neg hmem]
      dsimp only
      rw [authorizedLines_ofList hcount, List.map_append]
      simp only [List.mem_append, or_and_right, exists_or, List.map_singleton, List.mem_singleton,
        exists_eq_left, KeyRing.newItem, hkey, Option.some.injEq]
      rw [or_comm, eq_comm]

/-- The two generators agree, and a generated line, with or without a comment,
lets its key in and no other. -/
theorem generated_line_authorizes {count : Tree → ℕ} (hdec : DecodesBase64 P)
    (henc : EncodesBase64 P) (hcount : CountsArray count) (own : Bool) (hpub : pub.length = 32) :
    client_opensshPubkeyLine P pub = server_opensshPubkeyLine P pub ∧
      ∀ items s, s.keys = Tree.ofList items →
        Authorizes P count own pub (server_opensshPubkeyLine P pub) items s ∧
          ∀ comment, 0 ∉ comment →
            Authorizes P count own pub (server_opensshPubkeyLine P pub ++ 32 :: comment) items s := by
  rw [client_opensshPubkeyLine_eq henc hpub, server_opensshPubkeyLine_eq henc hpub]
  refine ⟨rfl, fun items s hs ↦ ⟨?_, fun comment hnul ↦ ?_⟩⟩
  · have halone := authorizes_keyLine hdec hcount own hpub (.inl rfl) List.not_mem_nil hs
    rwa [List.append_nil] at halone
  · apply authorizes_keyLine hdec hcount own hpub (.inr ⟨comment, rfl⟩) _ hs
    rw [List.mem_cons, not_or]
    exact ⟨by decide, hnul⟩

/-- `decoding` with an encoder that does as `mbedtls_base64_encode` does. -/
def coding : Primitives :=
  { decoding with
    base64Encode := fun dlen data ↦
      if (Base64.encode data).length < dlen then some (Base64.encode data) else none }

/-- A store with another key in it, which stays authorized. -/
theorem generated_line_authorizes_zero :
    let pub := List.replicate 32 0
    let other := List.replicate 32 1
    let line := server_opensshPubkeyLine coding pub
    let items := [KeyRing.newItem [] (server_opensshPubkeyLine coding other)]
    let s : Settings := ⟨Tree.ofList items, [], 1⟩
    client_opensshPubkeyLine coding pub = line ∧
      Authorizes coding arrayLength true pub line items s ∧
        Authorizes coding arrayLength true pub (line ++ 32 :: ascii " my key ") items s ∧
          authorizedPubMatches coding
            (authorizedLines arrayLength (runCall arrayLength true s (.add line)).keys) other = true := by
  intro pub other line items s
  obtain ⟨heq, hall⟩ := @generated_line_authorizes coding pub arrayLength (fun _ _ _ ↦ rfl)
    (fun _ _ h ↦ if_pos h) countsArray_arrayLength true rfl
  obtain ⟨halone, hcomment⟩ := hall items s rfl
  have hother : authorizedPubMatches coding (authorizedLines arrayLength s.keys) other = true := by
    rw [authorizedLines_ofList countsArray_arrayLength]
    decide +kernel
  exact ⟨heq, halone, hcomment (ascii " my key ") (by decide),
    (halone.access other).mpr (.inr hother)⟩

end Sshd.Keys
