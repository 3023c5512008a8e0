import Mathlib.Data.List.Basic
import Mathlib.Data.List.TakeWhile
import Mathlib.Tactic.Ring

namespace Sshd.Lib.Octets

abbrev Bytes := List UInt8

/-- Big-endian 32-bit encoding; only the low 32 bits of `n` are kept. -/
def be32 (n : ℕ) : Bytes :=
  [UInt8.ofNat (n / 2 ^ 24), UInt8.ofNat (n / 2 ^ 16), UInt8.ofNat (n / 2 ^ 8), UInt8.ofNat n]

def be64 (n : ℕ) : Bytes := be32 (n / 2 ^ 32) ++ be32 n

/-- The value of the first four bytes, most significant first. -/
def ofBe32 : Bytes → ℕ
  | a :: b :: c :: d :: _ => a.toNat * 2 ^ 24 + b.toNat * 2 ^ 16 + c.toNat * 2 ^ 8 + d.toNat
  | _ => 0

@[simp] theorem be32_length (n : ℕ) : (be32 n).length = 4 := rfl

theorem ofBe32_be32_append (n : ℕ) (rest : Bytes) : ofBe32 (be32 n ++ rest) = n % 2 ^ 32 := by
  simp only [be32, ofBe32, List.cons_append, UInt8.toNat_ofNat']
  omega

theorem ofBe32_be32 (n : ℕ) : ofBe32 (be32 n) = n % 2 ^ 32 := by
  simpa only [List.append_nil] using ofBe32_be32_append n []

theorem ofBe32_append {bs : Bytes} (h : 4 ≤ bs.length) (rest : Bytes) :
    ofBe32 (bs ++ rest) = ofBe32 bs := by
  obtain _ | ⟨a, _ | ⟨b, _ | ⟨c, _ | ⟨d, tail⟩⟩⟩⟩ := bs
  case cons.cons.cons.cons => rfl
  all_goals simp at h

/-- The four bytes read are the encoding of the value read. -/
theorem be32_ofBe32 {bs : Bytes} (h : 4 ≤ bs.length) : be32 (ofBe32 bs) = bs.take 4 := by
  match bs, h with
  | a :: b :: c :: d :: _, _ =>
    have ha := a.toNat_lt
    have hb := b.toNat_lt
    have hc := c.toNat_lt
    have hd := d.toNat_lt
    simp only [be32, ofBe32, List.take_succ_cons, List.take_zero, List.cons.injEq, and_true]
    refine ⟨?_, ?_, ?_, ?_⟩ <;> apply UInt8.toNat.inj <;> rw [UInt8.toNat_ofNat'] <;> omega

theorem be32_injective {m n : ℕ} (hm : m < 2 ^ 32) (hn : n < 2 ^ 32) (h : be32 m = be32 n) :
    m = n := by
  have h' := congrArg ofBe32 h
  rw [ofBe32_be32, ofBe32_be32] at h'
  omega

/-- A byte string behind its 32-bit length. -/
def lenPrefixed (b : Bytes) : Bytes := be32 b.length ++ b

@[simp] theorem lenPrefixed_length (b : Bytes) : (lenPrefixed b).length = 4 + b.length := by
  simp [lenPrefixed]

/-- Length prefixes make a concatenation uniquely readable. -/
theorem lenPrefixed_append_inj {a b x y : Bytes} (ha : a.length < 2 ^ 32) (hb : b.length < 2 ^ 32)
    (h : lenPrefixed a ++ x = lenPrefixed b ++ y) : a = b ∧ x = y := by
  simp only [lenPrefixed, List.append_assoc] at h
  obtain ⟨hl, ht⟩ := List.append_inj h rfl
  exact List.append_inj ht (be32_injective ha hb hl)

/-- The octets of an ASCII literal. -/
def ascii (s : String) : Bytes := s.toList.map fun c ↦ UInt8.ofNat c.toNat

/-- What a NUL-terminated reader sees of a byte string. -/
def cString (b : Bytes) : Bytes := b.takeWhile (· ≠ 0)

/-- A text that is cut off nowhere. -/
theorem cString_eq_self {b : Bytes} (h : 0 ∉ b) : cString b = b := by
  rw [cString, List.takeWhile_eq_self_iff]
  intro c hc
  simpa using fun h0 : c = 0 ↦ h (h0 ▸ hc)

end Sshd.Lib.Octets
