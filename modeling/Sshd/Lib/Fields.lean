import Mathlib.Data.List.Basic

namespace Sshd.Lib.Fields

variable {α : Type*} {a : α} {x l : List α}

/-- Between two separators `a` of `l`, or the ends of `l`, stands just `x`. -/
def IsField (a : α) (x l : List α) : Prop :=
  ∃ pre post, l = pre ++ x ++ post ∧ (pre = [] ∨ pre.getLast? = some a) ∧
    (post = [] ∨ post.head? = some a)

theorem IsField.whole (a : α) (x : List α) : IsField a x x :=
  ⟨[], [], (List.append_nil x).symm, .inl rfl, .inl rfl⟩

theorem IsField.first (a : α) (x rest : List α) : IsField a x (x ++ a :: rest) :=
  ⟨[], a :: rest, rfl, .inl rfl, .inr rfl⟩

/-- A field stays one behind further fields. -/
theorem IsField.behind (h : IsField a x l) (y : List α) : IsField a x (y ++ a :: l) := by
  obtain ⟨pre, post, rfl, hpre, hpost⟩ := h
  refine ⟨y ++ a :: pre, post, by simp only [List.append_assoc, List.cons_append], .inr ?_, hpost⟩
  rw [List.getLast?_append_of_ne_nil _ (List.cons_ne_nil a pre)]
  rcases hpre with rfl | hpre
  · rfl
  · rw [List.getLast?_cons, hpre]
    rfl

variable [DecidableEq α]

/-- Induction over the fields of a list. -/
theorem fields_induct {motive : List α → Prop} (whole : ∀ l, a ∉ l → motive l)
    (more : ∀ y rest, a ∉ y → motive rest → motive (y ++ a :: rest)) (l : List α) : motive l := by
  induction hn : l.length using Nat.strongRecOn generalizing l with
  | ind n ih =>
    by_cases ha : a ∈ l
    · obtain ⟨y, rest, rfl, hy⟩ := List.eq_append_cons_of_mem ha
      apply more y rest hy
      refine ih rest.length ?_ rest rfl
      rw [← hn, List.length_append, List.length_cons]
      omega
    · exact whole l ha

/-- Splitting a list gives its fields. -/
theorem mem_splitOn_iff : x ∈ l.splitOn a ↔ a ∉ x ∧ IsField a x l := by
  constructor
  · intro h
    induction l using fields_induct (a := a) with
    | whole l ha =>
      rw [List.splitOn_eq_singleton ha, List.mem_singleton] at h
      subst h
      exact ⟨ha, .whole a x⟩
    | more y rest hy ih =>
      rw [List.splitOn_append_cons_self_of_not_mem hy] at h
      rcases List.mem_cons.mp h with rfl | h
      · exact ⟨hy, .first a x rest⟩
      · obtain ⟨hx, hfield⟩ := ih h
        exact ⟨hx, hfield.behind y⟩
  · rintro ⟨hx, pre, post, rfl, hpre, hpost⟩
    have hlast : x ∈ (x ++ post).splitOn a := by
      rcases hpost with rfl | hpost
      · rw [List.append_nil, List.splitOn_eq_singleton hx]
        exact List.mem_singleton_self x
      · obtain ⟨rest, rfl⟩ := List.head?_eq_some_iff.mp hpost
        rw [List.splitOn_append_cons_self_of_not_mem hx]
        exact List.mem_cons_self
    rcases hpre with rfl | hpre
    · exact hlast
    · obtain ⟨init, rfl⟩ := List.getLast?_eq_some_iff.mp hpre
      rw [List.append_assoc, List.append_assoc, List.singleton_append,
        List.splitOn_append_cons_self]
      exact List.mem_append_right _ hlast

end Sshd.Lib.Fields
