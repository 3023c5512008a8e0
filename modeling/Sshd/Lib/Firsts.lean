import Mathlib.Data.List.Nodup
import Mathlib.Data.List.Induction

namespace Sshd.Lib.Firsts

variable {α β : Type} [DecidableEq β] (key : α → β)

/-- The elements that are the first with their key, in order. -/
def firsts : List α → List α
  | [] => []
  | a :: l => a :: (firsts l).filter (key · ≠ key a)

/-- The first element with a key. -/
def first (b : β) (l : List α) : Option α := l.find? (key · = b)

theorem firsts_sublist (l : List α) : (firsts key l).Sublist l := by
  induction l with
  | nil => exact .slnil
  | cons a l ih => exact (List.filter_sublist.trans ih).cons_cons a

theorem mem_map_firsts (b : β) (l : List α) : b ∈ (firsts key l).map key ↔ b ∈ l.map key := by
  induction l with
  | nil => rfl
  | cons a l ih =>
    by_cases hb : b = key a
    · simp [firsts, hb]
    · rw [firsts, List.map_cons, List.map_cons, List.mem_cons, List.mem_cons, or_iff_right hb,
        or_iff_right hb, ← ih]
      simp only [List.mem_map, List.mem_filter, decide_eq_true_eq]
      constructor
      · rintro ⟨c, ⟨hc, -⟩, rfl⟩
        exact ⟨c, hc, rfl⟩
      · rintro ⟨c, hc, rfl⟩
        exact ⟨c, ⟨hc, hb⟩, rfl⟩

theorem nodup_map_firsts (l : List α) : ((firsts key l).map key).Nodup := by
  induction l with
  | nil => exact .nil
  | cons a l ih =>
    rw [firsts, List.map_cons, List.nodup_cons]
    refine ⟨?_, ih.sublist (List.filter_sublist.map key)⟩
    simp only [List.mem_map, List.mem_filter, decide_eq_true_eq]
    rintro ⟨c, ⟨-, hc⟩, he⟩
    exact hc he

theorem firsts_snoc (l : List α) (a : α) :
    firsts key (l ++ [a]) = if key a ∈ l.map key then firsts key l else firsts key l ++ [a] := by
  induction l with
  | nil => rfl
  | cons c l ih =>
    by_cases hc : key a = key c
    · rw [if_pos (by simp [hc]), List.cons_append, firsts, ih, firsts]
      split
      · rfl
      · simp [List.filter_append, hc]
    · rw [List.cons_append, firsts, ih, firsts]
      simp only [List.map_cons, List.mem_cons, hc, false_or]
      split
      · rfl
      · simp [List.filter_append, hc]

theorem first_firsts (b : β) (l : List α) : first key b (firsts key l) = first key b l := by
  induction l with
  | nil => rfl
  | cons a l ih =>
    unfold first at ih ⊢
    by_cases hb : key a = b
    · simp [firsts, hb]
    · rw [firsts, List.find?_cons_of_neg (by simpa using hb),
        List.find?_cons_of_neg (by simpa using hb), ← ih, List.find?_filter]
      congr 1
      funext c
      by_cases hc : key c = b
      · simp [hc, Ne.symm hb]
      · simp [hc]

theorem first_append (b : β) (l m : List α) :
    first key b (l ++ m) = (first key b l).or (first key b m) := List.find?_append

theorem first_eq_none {b : β} {l : List α} : first key b l = none ↔ b ∉ l.map key := by
  simp [first, List.find?_eq_none]

end Sshd.Lib.Firsts
