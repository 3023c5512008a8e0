import Mathlib.Algebra.BigOperators.Group.List.Basic
import Mathlib.Tactic.Ring

namespace Sshd.Lib.Writes

variable {α : Type}

/-! Pieces offered to a transport in order, each with how much of it was taken. -/

def offered (ws : List (List α × ℕ)) : List α := (ws.map Prod.fst).flatten

def accepted (ws : List (List α × ℕ)) : List α := (ws.map fun w ↦ w.1.take w.2).flatten

/-- All pieces are taken whole. -/
def Taken (ws : List (List α × ℕ)) : Prop := ∀ w ∈ ws, w.1.length ≤ w.2

instance (ws : List (List α × ℕ)) : Decidable (Taken ws) :=
  inferInstanceAs (Decidable (∀ w ∈ ws, w.1.length ≤ w.2))

theorem Taken.accepted_eq {ws : List (List α × ℕ)} (h : Taken ws) : accepted ws = offered ws := by
  unfold accepted offered
  congr 1
  exact List.map_congr_left fun w hw ↦ List.take_of_length_le (h w hw)

/-- Nothing is offered after a piece that was not taken whole. -/
def Unbroken (ws : List (List α × ℕ)) : Prop :=
  ∀ pre w post, ws = pre ++ w :: post → w.2 < w.1.length → post = []

/-- All pieces but the last are taken whole. -/
def Whole (ws : List (List α × ℕ)) : Prop := ∀ w ∈ ws.dropLast, w.1.length ≤ w.2

theorem unbroken_iff_whole (ws : List (List α × ℕ)) : Unbroken ws ↔ Whole ws := by
  constructor
  · intro h w hw
    obtain ⟨pre, post, hsplit⟩ := List.append_of_mem hw
    have hne : ws ≠ [] := by
      rintro rfl
      simp at hw
    have hws : ws = pre ++ w :: (post ++ [ws.getLast hne]) := by
      rw [← List.cons_append, ← List.append_assoc, ← hsplit, List.dropLast_append_getLast]
    by_contra hlt
    have hnil := h pre w _ hws (Nat.not_le.mp hlt)
    simp at hnil
  · rintro h pre w post rfl hlt
    by_contra hpost
    have hmem : w ∈ (pre ++ w :: post).dropLast := by
      rw [List.dropLast_append_of_ne_nil (by simp), List.dropLast_cons_of_ne_nil hpost]
      simp
    exact absurd hlt (Nat.not_lt.mpr (h w hmem))

/-- What was taken of pieces taken whole but for the last is a prefix of what
was offered. -/
theorem Whole.accepted_prefix {ws : List (List α × ℕ)} (h : Whole ws) :
    accepted ws <+: offered ws := by
  induction ws with
  | nil => exact List.prefix_rfl
  | cons w ws ih =>
    unfold accepted offered at ih ⊢
    rw [List.map_cons, List.map_cons, List.flatten_cons, List.flatten_cons]
    cases ws with
    | nil => simpa using List.take_prefix w.2 w.1
    | cons w' ws =>
      have hw : w.1.length ≤ w.2 := h w (by simp)
      rw [List.take_of_length_le hw]
      refine (List.prefix_append_right_inj w.1).mpr (ih ?_)
      intro a ha
      exact h a (by simpa using .inr ha)

/-- How a loop gets rid of `data`: each round takes some of what is left, until
nothing is left or a round takes nothing. -/
inductive Poured : List α → List ℕ → Prop
  | done : Poured [] []
  | stalled {left : List α} (h : left ≠ []) : Poured left [0]
  | round {left : List α} {took : ℕ} {rounds : List ℕ} (hpos : 0 < took)
      (hle : took ≤ left.length) (h : Poured (left.drop took) rounds) :
      Poured left (took :: rounds)

/-- Where no round takes nothing, everything is taken. -/
theorem Poured.sum_eq {data : List α} {rounds : List ℕ} (h : Poured data rounds)
    (hflow : 0 ∉ rounds) : rounds.sum = data.length := by
  induction h with
  | done => rfl
  | stalled _ => exact absurd (List.mem_singleton_self 0) hflow
  | round hpos hle _ ih =>
    have hrest := ih fun hm ↦ hflow (List.mem_cons_of_mem _ hm)
    rw [List.length_drop] at hrest
    rw [List.sum_cons, hrest]
    omega

end Sshd.Lib.Writes
