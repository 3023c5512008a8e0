import Sshd.Lib.Octets
import Mathlib.Data.List.DropRight

namespace Sshd.Keys

open Lib.Octets

/-! The texts of the key store. -/

def isspace (c : UInt8) : Bool := c == 32 || (decide (9 ≤ c) && decide (c ≤ 13))

def isdigit (c : UInt8) : Bool := decide (48 ≤ c) && decide (c ≤ 57)

def isalnum (c : UInt8) : Bool :=
  isdigit c || (decide (65 ≤ c) && decide (c ≤ 90)) || (decide (97 ≤ c) && decide (c ≤ 122))

/-- The two loops that take white space off both ends. -/
def keyNormalize (raw : Bytes) : Bytes := (raw.dropWhile isspace).rdropWhile isspace

/-- What stands between the first two spaces, and what follows the second. -/
def lineBlob (line : Bytes) : Bytes := (line.drop (line.idxOf 32 + 1)).takeWhile (· ≠ 32)

def lineComment (line : Bytes) : Bytes :=
  ((line.drop (line.idxOf 32 + 1)).dropWhile (· ≠ 32)).drop 1

/-- The row text: type, tail of the blob behind an ellipsis, comment. -/
def keyLabel (line : Bytes) : Bytes :=
  if 32 ∉ line then line else
  let type := line.take (line.idxOf 32)
  let blob := lineBlob line
  let comment := lineComment line
  let tail := if 12 < blob.length then [0xe2, 0x80, 0xa6] ++ blob.drop (blob.length - 12) else blob
  type ++ [32] ++ tail ++ (if comment = [] then [] else [32, 32] ++ comment)

def isBase64 (c : UInt8) : Bool := isalnum c || c == 43 || c == 47 || c == 61

/-- Why a line is not acceptable; empty if it is. -/
def keyRejection (raw : Bytes) : Bytes :=
  let line := keyNormalize raw
  if line = [] then ascii "Empty."
  else if 32 ∉ line then ascii "Expected: ssh-ed25519 <base64> [comment]"
  else
    let type := line.take (line.idxOf 32)
    if type ≠ ascii "ssh-ed25519" then
      ascii "Only ssh-ed25519 keys are accepted (got \"" ++ type ++ ascii "\")."
    else if !(lineBlob line).all isBase64 then ascii "Key body is not valid base64."
    else if (lineBlob line).length < 64 then ascii "Key body looks too short for ed25519."
    else []

def digitsValue (ds : Bytes) : ℤ :=
  (ds.takeWhile isdigit).foldl (fun v d ↦ 10 * v + ((d.toNat : ℤ) - 48)) 0

/-- The number at the front of a text, with its sign. -/
def atoi (s : Bytes) : ℤ :=
  match s.dropWhile isspace with
  | [] => 0
  | c :: ds =>
    if c = 45 then -digitsValue ds
    else if c = 43 then digitsValue ds
    else digitsValue (c :: ds)

/-- `%d`. The counter behind the ids is an unbounded integer here: it grows by
one for a key that is added, and no store lives to see it reach `INT_MAX`. -/
def decimal (n : ℤ) : Bytes := ascii (Int.repr n)

/-! The decimal text of a number reads back as the number. -/

theorem digit_toNat {c : Char} (h : c.isDigit) :
    isdigit (UInt8.ofNat c.toNat) = true ∧ (UInt8.ofNat c.toNat).toNat = c.toNat ∧
      48 ≤ c.toNat ∧ c.toNat ≤ 57 := by
  have hb : 48 ≤ c.toNat ∧ c.toNat ≤ 57 := by
    simp only [Char.isDigit, Bool.and_eq_true, decide_eq_true_eq] at h
    exact ⟨h.1, h.2⟩
  have hn : (UInt8.ofNat c.toNat).toNat = c.toNat := by
    rw [UInt8.toNat_ofNat']
    omega
  refine ⟨?_, hn, hb⟩
  simp only [isdigit, Bool.and_eq_true, decide_eq_true_eq, UInt8.le_iff_toNat_le, hn]
  exact hb

theorem digitsValue_digits {cs : List Char} (h : ∀ c ∈ cs, c.isDigit = true) :
    digitsValue (cs.map fun c ↦ UInt8.ofNat c.toNat) = (Nat.ofDigitChars 10 cs 0 : ℕ) := by
  have htake : (cs.map fun c ↦ UInt8.ofNat c.toNat).takeWhile isdigit =
      cs.map fun c ↦ UInt8.ofNat c.toNat := by
    rw [List.takeWhile_eq_self_iff]
    intro d hd
    obtain ⟨c, hc, rfl⟩ := List.mem_map.mp hd
    exact (digit_toNat (h c hc)).1
  rw [digitsValue, htake]
  suffices hfold : ∀ (v : ℕ),
      (cs.map fun c ↦ UInt8.ofNat c.toNat).foldl (fun v d ↦ 10 * v + ((d.toNat : ℤ) - 48)) (v : ℤ) =
        (Nat.ofDigitChars 10 cs v : ℕ) from hfold 0
  clear htake
  induction cs with
  | nil => exact fun v ↦ rfl
  | cons c cs ih =>
    intro v
    obtain ⟨-, hn, hlo, hhi⟩ := digit_toNat (h c List.mem_cons_self)
    have hstep : 10 * (v : ℤ) + (((UInt8.ofNat c.toNat).toNat : ℤ) - 48) =
        ((10 * v + (c.toNat - 48) : ℕ) : ℤ) := by
      rw [hn]
      omega
    rw [List.map_cons, List.foldl_cons, hstep, ih fun c' hc' ↦ h c' (List.mem_cons_of_mem c hc')]
    rfl

theorem atoi_decimal (n : ℕ) : atoi (decimal n) = n := by
  have hdigits : ∀ c ∈ Nat.toDigits 10 n, c.isDigit = true := fun c hc ↦
    Nat.isDigit_of_mem_toDigits (by omega) (by omega) hc
  have htext : decimal n = (Nat.toDigits 10 n).map fun c ↦ UInt8.ofNat c.toNat := by
    have hr : Int.repr (n : ℤ) = Nat.repr n := rfl
    rw [decimal, ascii, hr, Nat.toList_repr]
  have hval := digitsValue_digits hdigits
  rw [Nat.ofDigitChars_ten_toDigits] at hval
  rw [htext]
  cases hd : Nat.toDigits 10 n with
  | nil => exact absurd hd Nat.toDigits_ne_nil
  | cons c cs =>
    obtain ⟨-, hn, hlo, hhi⟩ := digit_toNat (hdigits c (hd ▸ List.mem_cons_self))
    have hne : ∀ k : UInt8, k.toNat < 48 → UInt8.ofNat c.toNat ≠ k := by
      rintro k hk rfl
      omega
    have hspace : isspace (UInt8.ofNat c.toNat) = false := by
      simp only [isspace, Bool.or_eq_false_iff, beq_eq_false_iff_ne, Bool.and_eq_false_iff,
        decide_eq_false_iff_not, UInt8.le_iff_toNat_le]
      refine ⟨hne 32 (by decide), .inr ?_⟩
      rw [hn]
      have h13 : (13 : UInt8).toNat = 13 := rfl
      omega
    rw [hd, List.map_cons] at hval
    rw [atoi, List.map_cons, List.dropWhile_cons_of_neg (by simp [hspace])]
    simp only [hne 45 (by decide), hne 43 (by decide), if_false]
    exact hval

end Sshd.Keys
