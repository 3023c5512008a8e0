import Mathlib.Data.List.Induction
import Mathlib.Tactic.Ring
import Sshd.Lib.Trace

namespace Sshd.Lib.Credit

open Lib.Trace

variable {α : Type}

/-! Credit-based flow control over a record: some entries grant credit, some
spend it. -/

/-- What the entries of a record come to. -/
def tally (f : α → ℕ) : List α → ℕ
  | [] => 0
  | a :: l => f a + tally f l

/-- No entry spends more than what the entries before it leave of the credit;
`start` is there from the beginning. -/
def Within (start : ℕ) (grant spend : α → ℕ) (l : List α) : Prop :=
  EachAfter (fun pre a ↦ 0 < spend a → tally spend pre + spend a ≤ start + tally grant pre) l

instance {start : ℕ} {grant spend : α → ℕ} (l : List α) : Decidable (Within start grant spend l) :=
  inferInstanceAs (Decidable (EachAfter _ l))

/-- The 32-bit counter that an implementation keeps of the credit left. -/
def counter (grant spend : α → ℕ) (l : List α) : UInt32 :=
  l.foldl (fun c a ↦ c - .ofNat (spend a) + .ofNat (grant a)) 0

/-- No entry takes the counter below zero. -/
def Backed (grant spend : α → ℕ) (l : List α) : Prop :=
  EachAfter (fun pre a ↦ spend a ≤ (counter grant spend pre).toNat) l

variable {start : ℕ} {f grant spend : α → ℕ} {l m : List α} {a : α}

theorem tally_append (f : α → ℕ) (l m : List α) : tally f (l ++ m) = tally f l + tally f m := by
  induction l with
  | nil => exact (Nat.zero_add _).symm
  | cons a l ih => rw [List.cons_append, tally, tally, ih, Nat.add_assoc]

theorem tally_eq_zero (h : ∀ a ∈ l, f a = 0) : tally f l = 0 := by
  induction l with
  | nil => rfl
  | cons a l ih =>
    rw [tally, h a List.mem_cons_self, ih fun b hb ↦ h b (List.mem_cons_of_mem a hb)]

theorem tally_append_zero (h : ∀ a ∈ m, f a = 0) : tally f (l ++ m) = tally f l := by
  rw [tally_append, tally_eq_zero h, Nat.add_zero]

theorem tally_snoc : tally f (l ++ [a]) = tally f l + f a := tally_append f l [a]

theorem within_nil : Within start grant spend [] := eachAfter_nil _

theorem within_snoc : Within start grant spend (l ++ [a]) ↔
    Within start grant spend l ∧
      (0 < spend a → tally spend l + spend a ≤ start + tally grant l) := by
  rw [Within, eachAfter_append, eachAfter_singleton, List.append_nil]
  rfl

theorem within_append (h : ∀ a ∈ m, spend a = 0) :
    Within start grant spend (l ++ m) ↔ Within start grant spend l := by
  rw [Within, eachAfter_append]
  refine and_iff_left (EachAfter.of_forall fun a ha pre hpos ↦ ?_)
  exact absurd (h a ha) (Nat.pos_iff_ne_zero.mp hpos)

theorem counter_snoc : counter grant spend (l ++ [a]) =
    counter grant spend l - .ofNat (spend a) + .ofNat (grant a) := by
  rw [counter, List.foldl_append]
  rfl

theorem counter_append (hg : ∀ a ∈ m, grant a = 0) (hs : ∀ a ∈ m, spend a = 0) :
    counter grant spend (l ++ m) = counter grant spend l := by
  induction m using List.reverseRecOn with
  | nil => rw [List.append_nil]
  | append_singleton m a ih =>
    have hm := ih (fun b hb ↦ hg b (List.mem_append_left _ hb))
      (fun b hb ↦ hs b (List.mem_append_left _ hb))
    have hga := hg a (List.mem_append_right m (List.mem_singleton_self a))
    have hsa := hs a (List.mem_append_right m (List.mem_singleton_self a))
    rw [← List.append_assoc, counter_snoc, hm, hga, hsa]
    exact (UInt32.add_zero _).trans (UInt32.sub_zero _)

theorem backed_snoc : Backed grant spend (l ++ [a]) ↔
    Backed grant spend l ∧ spend a ≤ (counter grant spend l).toNat := by
  rw [Backed, eachAfter_append, eachAfter_singleton, List.append_nil]
  rfl

theorem backed_append (h : ∀ a ∈ m, spend a = 0) :
    Backed grant spend (l ++ m) ↔ Backed grant spend l := by
  rw [Backed, eachAfter_append]
  refine and_iff_left (EachAfter.of_forall fun a ha pre ↦ ?_)
  rw [h a ha]
  exact Nat.zero_le _

theorem toNat_counter_snoc (h : spend a ≤ (counter grant spend l).toNat) :
    (counter grant spend (l ++ [a])).toNat =
      ((counter grant spend l).toNat - spend a + grant a) % 2 ^ 32 := by
  have hlt := (counter grant spend l).toNat_lt
  have hspend : (UInt32.ofNat (spend a)).toNat = spend a := by
    rw [UInt32.toNat_ofNat']
    omega
  have hle : UInt32.ofNat (spend a) ≤ counter grant spend l :=
    UInt32.le_iff_toNat_le.mpr (by rw [hspend]; exact h)
  rw [counter_snoc, UInt32.toNat_add, UInt32.toNat_sub_of_le _ _ hle, hspend, UInt32.toNat_ofNat',
    Nat.add_mod_mod]

/-- What is spent and what the counter holds are never more than was granted,
and come to it exactly while the grants fit the counter. -/
theorem Backed.account (h : Backed grant spend l) :
    tally spend l + (counter grant spend l).toNat ≤ tally grant l ∧
      (tally grant l < 2 ^ 32 →
        tally spend l + (counter grant spend l).toNat = tally grant l) := by
  induction l using List.reverseRecOn with
  | nil => exact ⟨Nat.le_refl 0, fun _ ↦ rfl⟩
  | append_singleton l a ih =>
    obtain ⟨hl, ha⟩ := backed_snoc.mp h
    obtain ⟨hle, hexact⟩ := ih hl
    rw [tally_snoc, tally_snoc, toNat_counter_snoc ha]
    have hmod := Nat.mod_le ((counter grant spend l).toNat - spend a + grant a) (2 ^ 32)
    refine ⟨by omega, fun hfit ↦ ?_⟩
    have hsmall : (counter grant spend l).toNat - spend a + grant a < 2 ^ 32 := by omega
    rw [Nat.mod_eq_of_lt hsmall]
    have := hexact (by omega)
    omega

/-- A counter that never goes below zero keeps within the credit. -/
theorem Backed.within (h : Backed grant spend l) : Within 0 grant spend l := by
  intro pre a post hl _
  have hpre : Backed grant spend pre := by
    rw [hl] at h
    exact (eachAfter_append.mp h).1
  have hle := hpre.account.1
  have ha := h pre a post hl
  omega

end Sshd.Lib.Credit
