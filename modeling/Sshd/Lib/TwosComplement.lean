import Sshd.Lib.Octets
import Mathlib.Data.Nat.Digits.Lemmas

namespace Sshd.Lib.TwosComplement

open Octets

/-! Big-endian numbers, with and without a sign. -/

/-- The number that octets stand for, most significant first. -/
def magnitude (b : Bytes) : ℕ := Nat.ofDigits 256 (b.map UInt8.toNat).reverse

/-- The top bit is the sign. -/
def negative (b : Bytes) : Bool := decide (128 ≤ (b.headD 0).toNat)

/-- The number that octets stand for in two's complement. -/
def signed (b : Bytes) : ℤ := magnitude b - if negative b then 256 ^ b.length else 0

/-- No octets stand for the same number that are fewer. -/
def Shortest (b : Bytes) : Prop := ∀ b', signed b' = signed b → b.length ≤ b'.length

theorem magnitude_cons (c : UInt8) (b : Bytes) :
    magnitude (c :: b) = 256 ^ b.length * c.toNat + magnitude b := by
  rw [magnitude, List.map_cons, Nat.ofDigits_reverse_cons, List.length_map, Nat.add_comm]
  rfl

@[simp] theorem magnitude_zero_cons (b : Bytes) : magnitude (0 :: b) = magnitude b := by
  rw [magnitude_cons, UInt8.toNat_zero, Nat.mul_zero, Nat.zero_add]

theorem magnitude_replicate_append (n : ℕ) (b : Bytes) :
    magnitude (List.replicate n 0 ++ b) = magnitude b := by
  induction n with
  | zero => rfl
  | succ n ih => rw [List.replicate_succ, List.cons_append, magnitude_zero_cons, ih]

theorem magnitude_lt (b : Bytes) : magnitude b < 256 ^ b.length := by
  have h : ∀ d ∈ (b.map UInt8.toNat).reverse, d < 256 := by
    intro d hd
    rw [List.mem_reverse] at hd
    obtain ⟨c, -, rfl⟩ := List.mem_map.mp hd
    exact c.toNat_lt
  have hlt := Nat.ofDigits_lt_base_pow_length (by decide : 1 < 256) h
  rwa [List.length_reverse, List.length_map] at hlt

theorem magnitude_inj {a b : Bytes} (hlen : a.length = b.length) (h : magnitude a = magnitude b) :
    a = b := by
  induction a generalizing b with
  | nil => exact (List.length_eq_zero_iff.mp hlen.symm).symm
  | cons c a ih =>
    obtain _ | ⟨d, b⟩ := b
    · cases hlen
    have hlen := Nat.succ.inj hlen
    rw [magnitude_cons, magnitude_cons, hlen] at h
    have ha := magnitude_lt a
    have hb := magnitude_lt b
    rw [hlen] at ha
    have hcd : c.toNat = d.toNat := by
      rcases Nat.lt_trichotomy c.toNat d.toNat with hlt | heq | hlt
      · have := Nat.mul_le_mul_left (256 ^ b.length) hlt
        rw [Nat.mul_succ] at this
        omega
      · exact heq
      · have := Nat.mul_le_mul_left (256 ^ b.length) hlt
        rw [Nat.mul_succ] at this
        omega
    rw [hcd] at h
    rw [UInt8.toNat.inj hcd, ih hlen (Nat.add_left_cancel h)]

theorem signed_of_nonnegative {b : Bytes} (h : negative b = false) : signed b = magnitude b := by
  rw [signed, h]
  simp

/-- Half of the numbers are negative. -/
theorem two_mul_signed_lt (b : Bytes) : 2 * signed b < 256 ^ b.length := by
  have hm : (magnitude b : ℤ) < 256 ^ b.length := mod_cast magnitude_lt b
  cases hneg : negative b with
  | true =>
    rw [signed, hneg, if_pos rfl]
    linarith
  | false =>
    rw [signed_of_nonnegative hneg]
    cases b with
    | nil => simp [magnitude]
    | cons c b =>
      have hc : c.toNat ≤ 127 := by
        have := of_decide_eq_false hneg
        rw [List.headD_cons] at this
        omega
      have hb := magnitude_lt b
      have htop := Nat.mul_le_mul_left (256 ^ b.length) hc
      rw [magnitude_cons, List.length_cons]
      have hnat : 2 * (256 ^ b.length * c.toNat + magnitude b) < 256 ^ (b.length + 1) := by
        rw [Nat.pow_succ]
        omega
      exact_mod_cast hnat

/-- Two's complement of a given length is unambiguous. -/
theorem signed_inj {a b : Bytes} (hlen : a.length = b.length) (h : signed a = signed b) : a = b := by
  have ha : (magnitude a : ℤ) < 256 ^ b.length := mod_cast hlen ▸ magnitude_lt a
  have hb : (magnitude b : ℤ) < 256 ^ b.length := mod_cast magnitude_lt b
  refine magnitude_inj hlen ?_
  rw [signed, signed, hlen] at h
  cases hna : negative a <;> cases hnb : negative b <;> rw [hna, hnb] at h <;> simp at h <;> omega

/-- The shortest form of a number is unique. -/
theorem Shortest.unique {a b : Bytes} (ha : Shortest a) (hb : Shortest b)
    (h : signed a = signed b) : a = b :=
  signed_inj (Nat.le_antisymm (ha b h.symm) (hb a h)) h

/-- A number too big for an octet less is in its shortest form. -/
theorem shortest_of_le {b : Bytes} (hneg : negative b = false)
    (h : 256 ^ (b.length - 1) ≤ 2 * magnitude b) : Shortest b := by
  intro b' heq
  rw [signed_of_nonnegative hneg] at heq
  have hlt := two_mul_signed_lt b'
  rw [heq] at hlt
  have hpow : 256 ^ (b.length - 1) < 256 ^ b'.length := lt_of_le_of_lt h (mod_cast hlt)
  have := (Nat.pow_lt_pow_iff_right (by decide : 1 < 256)).mp hpow
  omega

end Sshd.Lib.TwosComplement
