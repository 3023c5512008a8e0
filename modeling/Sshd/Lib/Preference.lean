import Mathlib.Data.List.TakeWhile

namespace Sshd.Lib.Preference

variable {α : Type} [DecidableEq α] {prefer offer : List α} {a : α}

/-! Two parties with a list each agree on the first entry of one of the two
lists that the other one has too. -/

/-- The first entry of `prefer` that is on `offer`. -/
def firstCommon (prefer offer : List α) : Option α := prefer.find? (· ∈ offer)

theorem firstCommon_eq_none : firstCommon prefer offer = none ↔ ∀ b ∈ prefer, b ∉ offer := by
  simp [firstCommon]

theorem firstCommon_mem (h : firstCommon prefer offer = some a) : a ∈ prefer ∧ a ∈ offer := by
  constructor
  · exact List.mem_of_find?_eq_some h
  · simpa using List.find?_some h

/-- Whose order counts does not matter to whether there is a choice at all. -/
theorem firstCommon_none_comm : firstCommon prefer offer = none ↔ firstCommon offer prefer = none := by
  rw [firstCommon_eq_none, firstCommon_eq_none]
  constructor
  · intro h b hb hb'
    exact h b hb' hb
  · intro h b hb hb'
    exact h b hb' hb

theorem split_at_first (h : a ∈ prefer) :
    ∃ rest, prefer = prefer.takeWhile (· ≠ a) ++ a :: rest := by
  induction prefer with
  | nil => cases h
  | cons b l ih =>
    by_cases hb : b = a
    · refine ⟨l, ?_⟩
      rw [List.takeWhile_cons_of_neg (by simpa using hb), List.nil_append, hb]
    · rcases List.mem_cons.mp h with rfl | hl
      · exact absurd rfl hb
      · obtain ⟨rest, hrest⟩ := ih hl
        refine ⟨rest, ?_⟩
        rw [List.takeWhile_cons_of_pos (by simpa using hb), List.cons_append, ← hrest]

theorem ne_of_mem_takeWhile {b : α} (h : b ∈ prefer.takeWhile (· ≠ a)) : b ≠ a := by
  simpa using List.mem_takeWhile_imp h

/-- An entry of both lists is the choice if nothing in front of it is common. -/
theorem firstCommon_eq_some_iff (hp : a ∈ prefer) (ho : a ∈ offer) :
    firstCommon prefer offer = some a ↔ ∀ b ∈ prefer.takeWhile (· ≠ a), b ∉ offer := by
  obtain ⟨rest, hrest⟩ := split_at_first hp
  have hfind : firstCommon prefer offer =
      (firstCommon (prefer.takeWhile (· ≠ a)) offer).or (some a) := by
    rw [firstCommon, hrest, List.find?_append, ← hrest, List.find?_cons_of_pos (by simpa using ho)]
    rfl
  rw [hfind, ← firstCommon_eq_none]
  cases hc : firstCommon (prefer.takeWhile (· ≠ a)) offer with
  | none => simp
  | some b =>
    have hne : b ≠ a := ne_of_mem_takeWhile (firstCommon_mem hc).1
    simpa using hne

end Sshd.Lib.Preference
