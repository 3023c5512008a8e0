import Sshd.Lib.Octets

namespace Sshd.Lib.Base64

open Octets

/-! The decoder for base64 text without white space. It reads groups of four
characters; what is left over behind the last whole group is checked but not
decoded. -/

/-- The six bits that a digit stands for. -/
def value (c : UInt8) : Option ℕ :=
  if 65 ≤ c ∧ c ≤ 90 then some (c.toNat - 65)
  else if 97 ≤ c ∧ c ≤ 122 then some (c.toNat - 71)
  else if 48 ≤ c ∧ c ≤ 57 then some (c.toNat + 4)
  else if c = 43 then some 62
  else if c = 47 then some 63
  else none

def bits (c : UInt8) : ℕ := (value c).getD 0

/-- The 24 bits of a group. -/
def word (a b c d : UInt8) : ℕ := bits a * 2 ^ 18 + bits b * 2 ^ 12 + bits c * 2 ^ 6 + bits d

/-- The bytes of the groups; `=` in the last two places takes away a byte. -/
def emit : Bytes → Bytes
  | a :: b :: c :: d :: rest =>
    UInt8.ofNat (word a b c d / 2 ^ 16) ::
      ((if c = 61 then [] else [UInt8.ofNat (word a b c d / 2 ^ 8)]) ++
        (if d = 61 then [] else [UInt8.ofNat (word a b c d)]) ++ emit rest)
  | _ => []

/-- The digits in front of the padding, and the padding. -/
def digits (text : Bytes) : Bytes := text.takeWhile (· ≠ 61)

def padding (text : Bytes) : Bytes := text.dropWhile (· ≠ 61)

/-- Digits, then at most two `=`. -/
def Valid (text : Bytes) : Prop :=
  (∀ c ∈ digits text, (value c).isSome) ∧ (∀ c ∈ padding text, c = 61) ∧ (padding text).length ≤ 2

instance (text : Bytes) : Decidable (Valid text) := inferInstanceAs (Decidable (_ ∧ _ ∧ _))

/-- The room the decoder asks for. -/
def room (text : Bytes) : ℕ := (6 * text.length + 7) / 8 - (padding text).length

/-- Decode into a buffer of `dlen` bytes. -/
def decode (dlen : ℕ) (text : Bytes) : Option Bytes :=
  if Valid text ∧ room text ≤ dlen then some (emit text) else none

/-- The digit of a value. -/
def digit (v : ℕ) : UInt8 :=
  if v < 26 then UInt8.ofNat (v + 65)
  else if v < 52 then UInt8.ofNat (v + 71)
  else if v < 62 then UInt8.ofNat (v - 4)
  else if v = 62 then 43
  else 47

/-- Four digits for three bytes; a group that is cut short is padded with `=`. -/
def encode : Bytes → Bytes
  | a :: b :: c :: rest =>
    digit (a.toNat / 4) :: digit (a.toNat % 4 * 16 + b.toNat / 16) ::
      digit (b.toNat % 16 * 4 + c.toNat / 64) :: digit (c.toNat % 64) :: encode rest
  | [a, b] =>
    [digit (a.toNat / 4), digit (a.toNat % 4 * 16 + b.toNat / 16), digit (b.toNat % 16 * 4), 61]
  | [a] => [digit (a.toNat / 4), digit (a.toNat % 4 * 16), 61, 61]
  | [] => []

/-! Digits and their values. -/

theorem value_spec {c : UInt8} {v : ℕ} (h : value c = some v) : v < 64 ∧ c = digit v := by
  have hc := c.toNat_lt
  simp only [value, UInt8.le_iff_toNat_le, UInt8.reduceToNat] at h
  split at h
  · obtain rfl := Option.some.inj h
    refine ⟨by omega, UInt8.toNat.inj ?_⟩
    rw [digit, if_pos (by omega), UInt8.toNat_ofNat']
    omega
  split at h
  · obtain rfl := Option.some.inj h
    refine ⟨by omega, UInt8.toNat.inj ?_⟩
    rw [digit, if_neg (by omega), if_pos (by omega), UInt8.toNat_ofNat']
    omega
  split at h
  · obtain rfl := Option.some.inj h
    refine ⟨by omega, UInt8.toNat.inj ?_⟩
    rw [digit, if_neg (by omega), if_neg (by omega), if_pos (by omega), UInt8.toNat_ofNat']
    omega
  split at h
  · rename_i hp
    obtain rfl := Option.some.inj h
    exact ⟨by omega, hp⟩
  split at h
  · rename_i hs
    obtain rfl := Option.some.inj h
    exact ⟨by omega, hs⟩
  · cases h

theorem value_pad : value 61 = none := by decide

theorem value_digit {v : ℕ} (h : v < 64) : value (digit v) = some v := by
  have hall : ∀ v : Fin 64, value (digit v) = some v.val := by decide
  exact hall ⟨v, h⟩

theorem digit_ne_pad {v : ℕ} (h : v < 64) : digit v ≠ 61 := by
  intro hpad
  have hv := value_digit h
  rw [hpad, value_pad] at hv
  cases hv

theorem bits_digit {v : ℕ} (h : v < 64) : bits (digit v) = v := by
  rw [bits, value_digit h, Option.getD_some]

/-! Whole groups. -/

theorem emit_encode (data : Bytes) : emit (encode data) = data := by
  induction data using encode.induct with
  | case1 a b c rest ih =>
    have ha := a.toNat_lt
    have hb := b.toNat_lt
    have hc := c.toNat_lt
    rw [encode, emit, if_neg (digit_ne_pad (by omega)), if_neg (digit_ne_pad (by omega)), ih, word,
      bits_digit (by omega), bits_digit (by omega), bits_digit (by omega), bits_digit (by omega)]
    simp only [List.cons_append, List.nil_append, List.cons.injEq, and_true]
    refine ⟨?_, ?_, ?_⟩ <;> apply UInt8.toNat.inj <;> rw [UInt8.toNat_ofNat'] <;> omega
  | case2 a b =>
    have ha := a.toNat_lt
    have hb := b.toNat_lt
    rw [encode, emit, if_neg (digit_ne_pad (by omega)), if_pos rfl, word, bits_digit (by omega),
      bits_digit (by omega), bits_digit (by omega)]
    have hpad : bits 61 = 0 := rfl
    simp only [List.cons_append, List.nil_append, emit, hpad, List.cons.injEq, and_true]
    refine ⟨?_, ?_⟩ <;> apply UInt8.toNat.inj <;> rw [UInt8.toNat_ofNat'] <;> omega
  | case3 a =>
    have ha := a.toNat_lt
    rw [encode, emit, if_pos rfl, if_pos rfl, word, bits_digit (by omega), bits_digit (by omega)]
    have hpad : bits 61 = 0 := rfl
    simp only [List.nil_append, emit, hpad, List.cons.injEq, and_true]
    apply UInt8.toNat.inj
    rw [UInt8.toNat_ofNat']
    omega
  | case4 => rfl

/-- The text is digits with the padding behind them; its length counts the bytes
and the padding. -/
theorem encode_spec (data : Bytes) :
    ∃ ds k, encode data = ds ++ List.replicate k 61 ∧ (∀ c ∈ ds, (value c).isSome = true) ∧
      k ≤ 2 ∧ 4 * (data.length + k) = 3 * (ds.length + k) := by
  have hdigit : ∀ {v : ℕ}, v < 64 → (value (digit v)).isSome = true := fun h ↦ by
    rw [value_digit h, Option.isSome_some]
  induction data using encode.induct with
  | case1 a b c rest ih =>
    have ha := a.toNat_lt
    have hb := b.toNat_lt
    have hc := c.toNat_lt
    obtain ⟨ds, k, htext, hds, hk, hlen⟩ := ih
    refine ⟨digit (a.toNat / 4) :: digit (a.toNat % 4 * 16 + b.toNat / 16) ::
      digit (b.toNat % 16 * 4 + c.toNat / 64) :: digit (c.toNat % 64) :: ds, k, ?_, ?_, hk, ?_⟩
    · rw [encode, htext]
      rfl
    · simp only [List.mem_cons, forall_eq_or_imp]
      exact ⟨hdigit (by omega), hdigit (by omega), hdigit (by omega), hdigit (by omega), hds⟩
    · simp only [List.length_cons]
      omega
  | case2 a b =>
    have ha := a.toNat_lt
    have hb := b.toNat_lt
    refine ⟨[digit (a.toNat / 4), digit (a.toNat % 4 * 16 + b.toNat / 16),
      digit (b.toNat % 16 * 4)], 1, rfl, ?_, by omega, rfl⟩
    simp only [List.mem_cons, forall_eq_or_imp, List.not_mem_nil, false_imp_iff, implies_true,
      and_true]
    exact ⟨hdigit (by omega), hdigit (by omega), hdigit (by omega)⟩
  | case3 a =>
    have ha := a.toNat_lt
    refine ⟨[digit (a.toNat / 4), digit (a.toNat % 4 * 16)], 2, rfl, ?_, by omega, rfl⟩
    simp only [List.mem_cons, forall_eq_or_imp, List.not_mem_nil, false_imp_iff, implies_true,
      and_true]
    exact ⟨hdigit (by omega), hdigit (by omega)⟩
  | case4 => exact ⟨[], 0, rfl, by simp, by omega, rfl⟩

theorem split_padding {ds : Bytes} (k : ℕ) (h : ∀ c ∈ ds, (value c).isSome = true) :
    digits (ds ++ List.replicate k 61) = ds ∧
      padding (ds ++ List.replicate k 61) = List.replicate k 61 := by
  have hne : ∀ c ∈ ds, decide (c ≠ 61) = true := by
    intro c hc
    apply decide_eq_true
    rintro rfl
    exact absurd (h 61 hc) (by decide)
  have hstop : (List.replicate k (61 : UInt8)).takeWhile (· ≠ 61) = [] ∧
      (List.replicate k (61 : UInt8)).dropWhile (· ≠ 61) = List.replicate k 61 := by
    cases k with
    | zero => exact ⟨rfl, rfl⟩
    | succ k => exact ⟨rfl, rfl⟩
  rw [digits, padding, List.takeWhile_append_of_pos hne, List.dropWhile_append_of_pos hne,
    hstop.1, hstop.2, List.append_nil]
  exact ⟨rfl, rfl⟩

theorem encode_length (data : Bytes) : (encode data).length = 4 * ((data.length + 2) / 3) := by
  obtain ⟨ds, k, htext, -, hk, hlen⟩ := encode_spec data
  rw [htext, List.length_append, List.length_replicate]
  omega

/-- The decoder inverts the encoder wherever the data fits. -/
theorem decode_encode {dlen : ℕ} {data : Bytes} (h : data.length ≤ dlen) :
    decode dlen (encode data) = some data := by
  obtain ⟨ds, k, htext, hds, hk, hlen⟩ := encode_spec data
  obtain ⟨hdigits, hpadding⟩ := split_padding k hds
  have hvalid : Valid (encode data) := by
    refine ⟨?_, ?_, ?_⟩
    · rw [htext, hdigits]
      exact hds
    · rw [htext, hpadding]
      exact fun c hc ↦ List.eq_of_mem_replicate hc
    · rw [htext, hpadding, List.length_replicate]
      exact hk
  have hroom : room (encode data) = data.length := by
    rw [room, htext, hpadding, List.length_append, List.length_replicate]
    omega
  rw [decode, if_pos ⟨hvalid, hroom.trans_le h⟩, emit_encode]

end Sshd.Lib.Base64
