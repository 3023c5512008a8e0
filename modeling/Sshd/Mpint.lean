import Sshd.Client.Kex
import Sshd.Lib.TwosComplement
import Sshd.Server.Transcript

namespace Sshd

open Lib.Octets Lib.TwosComplement Wire

/-! The number behind an `mpint`. -/

theorem and_sign_bit (c : UInt8) : c &&& 0x80 ≠ 0 ↔ 128 ≤ c.toNat := by
  have h : ∀ n < 256, UInt8.ofNat n &&& 0x80 ≠ 0 ↔ 128 ≤ n := by decide +kernel
  have hc := h c.toNat c.toNat_lt
  rwa [UInt8.ofNat_toNat] at hc

/-- What is left of a number that is not zero, and whether a zero goes in front. -/
theorem mpintBody_cases {val : Bytes} (h : ∃ c ∈ val, c ≠ 0) :
    ∃ c rest, c ≠ 0 ∧ magnitude val = magnitude (c :: rest) ∧
      Server.mpintBody val = if 128 ≤ c.toNat then 0 :: c :: rest else c :: rest := by
  obtain ⟨d, hd, hd0⟩ := h
  obtain ⟨⟨n, hn⟩, c, rest, hk, hc⟩ := Server.stripZeros_spec (List.ne_nil_of_mem hd)
  refine ⟨c, rest, fun hc0 ↦ hd0 ?_, ?_, ?_⟩
  · -- a zero would be all that is left
    rw [hn, hk, hc0, hc hc0] at hd
    exact (List.mem_append.mp hd).elim List.eq_of_mem_replicate List.mem_singleton.mp
  · rw [hn, hk, magnitude_replicate_append]
  · rw [Server.mpintBody, hk]
    by_cases hpad : 128 ≤ c.toNat
    · simp [hpad, (and_sign_bit c).mpr hpad]
    · simp [hpad, not_not.mp fun hs ↦ hpad ((and_sign_bit c).mp hs)]

theorem signed_mpintBody {val : Bytes} (h : ∃ c ∈ val, c ≠ 0) :
    negative (Server.mpintBody val) = false ∧
      magnitude (Server.mpintBody val) = magnitude val := by
  obtain ⟨c, rest, -, hval, hbody⟩ := mpintBody_cases h
  rw [hbody, hval]
  by_cases hpad : 128 ≤ c.toNat
  · rw [if_pos hpad]
    exact ⟨rfl, magnitude_zero_cons _⟩
  · rw [if_neg hpad]
    exact ⟨decide_eq_false hpad, rfl⟩

theorem mpintBody_shortest {val : Bytes} (h : ∃ c ∈ val, c ≠ 0) :
    Shortest (Server.mpintBody val) := by
  refine shortest_of_le (signed_mpintBody h).1 ?_
  rw [(signed_mpintBody h).2]
  obtain ⟨c, rest, hc, hval, hbody⟩ := mpintBody_cases h
  rw [hbody, hval, magnitude_cons]
  by_cases hpad : 128 ≤ c.toNat
  · have htop := Nat.mul_le_mul_left (256 ^ rest.length) hpad
    rw [if_pos hpad]
    change 256 ^ (rest.length + 1) ≤ _
    rw [Nat.pow_succ]
    omega
  · have hpos : 1 ≤ c.toNat := Nat.pos_of_ne_zero fun h0 ↦ hc (UInt8.toNat.inj h0)
    have htop := Nat.mul_le_mul_left (256 ^ rest.length) hpos
    rw [if_neg hpad]
    change 256 ^ rest.length ≤ _
    omega

/-- The `mpint` of a positive number: its shortest two's complement form behind
the length of this form, which reads as this length where 32 bits can hold it. -/
def IsMpint (n : ℕ) (out : Bytes) : Prop :=
  ∃ octets, out = lenPrefixed octets ∧
    (octets.length < 2 ^ 32 → ofBe32 out = octets.length) ∧
    signed octets = n ∧ Shortest octets

/-- There is one `mpint` of a number. -/
theorem IsMpint.unique {n : ℕ} {out out' : Bytes} (h : IsMpint n out) (h' : IsMpint n out') :
    out = out' := by
  obtain ⟨octets, rfl, -, hn, hs⟩ := h
  obtain ⟨octets', rfl, -, hn', hs'⟩ := h'
  rw [hs.unique hs' (hn.trans hn'.symm)]

theorem mpintOctets_isMpint {val : Bytes} (h : ∃ c ∈ val, c ≠ 0) :
    IsMpint (magnitude val) (mpintOctets val) := by
  obtain ⟨hneg, hmag⟩ := signed_mpintBody h
  refine ⟨Server.mpintBody val, Server.mpintOctets_eq val, fun hlen ↦ ?_, ?_, mpintBody_shortest h⟩
  · rw [Server.mpintOctets_eq, lenPrefixed, ofBe32_be32_append, Nat.mod_eq_of_lt hlen]
  · rw [signed_of_nonnegative hneg, hmag]

/-- All three encoders append the `mpint` of the number they are given. -/
theorem mpint_encoders_agree {val : Bytes} (h : ∃ c ∈ val, c ≠ 0) :
    ∃ out, IsMpint (magnitude val) out ∧ (∀ s, putMpintPositive s val = s ++ out) ∧
      (∀ hash s, s.kexAlg ≠ .mlkem768X25519 → s.sharedK = val →
        Server.hashUpdateK hash s = hash ++ out) ∧
      ∀ hash, Client.hashK hash val = hash ++ out := by
  refine ⟨mpintOctets val, mpintOctets_isMpint h, fun _ ↦ rfl, fun hash s halg hk ↦ ?_, fun _ ↦ rfl⟩
  rw [Server.hashUpdateK, if_neg halg, hk]

/-- A zero is stripped and another put in front of the sign bit. -/
theorem mpint_encoders_agree_padded :
    ∃ out, IsMpint (magnitude (0 :: 0x80 :: List.replicate 30 1)) out ∧
      (∀ s, putMpintPositive s (0 :: 0x80 :: List.replicate 30 1) = s ++ out) ∧
      (∀ hash s, s.kexAlg ≠ .mlkem768X25519 → s.sharedK = (0 :: 0x80 :: List.replicate 30 1) →
        Server.hashUpdateK hash s = hash ++ out) ∧
      ∀ hash, Client.hashK hash (0 :: 0x80 :: List.replicate 30 1) = hash ++ out :=
  mpint_encoders_agree ⟨1, by decide, by decide⟩

end Sshd
