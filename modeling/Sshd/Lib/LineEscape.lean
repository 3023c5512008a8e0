import Mathlib.Data.List.Infix

namespace Sshd.Lib.LineEscape

/-! A pattern that counts at the start of a line only, looked for while the text
arrives. What may still become the pattern is held back. -/

variable {α : Type} (newline : α → Prop) (esc : List α)

/-- A line starts behind `s`. -/
def LineStart (s : List α) : Prop := ∀ c ∈ s.getLast?, newline c

/-- The pattern stands in `s` at the line start `i`. -/
def OccursAt (s : List α) (i : ℕ) : Prop := LineStart newline (s.take i) ∧ esc <+: s.drop i

/-- What stands in `s` from the line start `i` to the end may become the pattern. -/
def OpenAt (s : List α) (i : ℕ) : Prop :=
  i < s.length ∧ LineStart newline (s.take i) ∧ s.drop i <+: esc

/-- `s` is read: `fwd` has been passed on and the first `k` characters of the
pattern are held back. -/
structure Held (fwd : List α) (k : ℕ) (s : List α) : Prop where
  text : fwd ++ esc.take k = s
  short : k < esc.length
  start : 0 < k → LineStart newline fwd
  sole : ∀ i, OpenAt newline esc s i → i = fwd.length
  absent : ∀ i, ¬OccursAt newline esc s i

/-- `s` is read: the pattern was found, and what stands before it was passed on. -/
structure Found (fwd s : List α) : Prop where
  text : fwd <+: s
  occurs : OccursAt newline esc s fwd.length
  first : ∀ j < fwd.length, ¬OccursAt newline esc s j

variable {newline} {esc} {s t fwd : List α} {c : α} {i k : ℕ}

theorem lineStart_nil : LineStart newline [] := by simp [LineStart]

theorem lineStart_snoc : LineStart newline (s ++ [c]) ↔ newline c := by simp [LineStart]

/-- A line does not start behind a character of the pattern. -/
theorem not_lineStart (hplain : ∀ c ∈ esc, ¬newline c) (hk : 0 < k) (hshort : k < esc.length)
    (fwd : List α) : ¬LineStart newline (fwd ++ esc.take k) := by
  obtain ⟨k, rfl⟩ := Nat.exists_eq_add_one_of_ne_zero hk.ne'
  rw [List.take_succ_eq_append_getElem (by omega), ← List.append_assoc, lineStart_snoc]
  exact hplain _ (List.getElem_mem _)

theorem OccursAt.le (hne : esc ≠ []) (h : OccursAt newline esc s i) :
    i + esc.length ≤ s.length := by
  have hlen := h.2.length_le
  have hpos := List.length_pos_iff.mpr hne
  rw [List.length_drop] at hlen
  omega

theorem OccursAt.append (hne : esc ≠ []) (h : OccursAt newline esc s i) (t : List α) :
    OccursAt newline esc (s ++ t) i := by
  have hle := h.le hne
  rw [OccursAt, List.take_append_of_le_length (by omega), List.drop_append_of_le_length (by omega)]
  exact ⟨h.1, h.2.trans (List.prefix_append _ _)⟩

/-- Where the pattern ends within `s`, it stands in `s`. -/
theorem OccursAt.of_append (h : OccursAt newline esc (s ++ t) i) (hle : i + esc.length ≤ s.length) :
    OccursAt newline esc s i := by
  obtain ⟨hline, hpre⟩ := h
  rw [List.take_append_of_le_length (by omega)] at hline
  rw [List.drop_append_of_le_length (by omega)] at hpre
  refine ⟨hline, List.prefix_of_prefix_length_le hpre (List.prefix_append _ _) ?_⟩
  rw [List.length_drop]
  omega

theorem Found.append (hne : esc ≠ []) (h : Found newline esc fwd s) (t : List α) :
    Found newline esc fwd (s ++ t) := by
  refine ⟨h.text.trans (List.prefix_append _ _), h.occurs.append hne t, fun j hj hocc ↦ ?_⟩
  have hle := h.occurs.le hne
  exact h.first j hj (hocc.of_append (by omega))

theorem Held.nil (hne : esc ≠ []) : Held newline esc [] 0 [] := by
  refine ⟨rfl, List.length_pos_iff.mpr hne, fun h ↦ absurd h (lt_irrefl 0), ?_, ?_⟩
  · rintro i ⟨hlt, -⟩
    exact absurd hlt (Nat.not_lt_zero i)
  · intro i h
    have hle := h.le hne
    have hpos := List.length_pos_iff.mpr hne
    rw [List.length_nil] at hle
    omega

theorem getElem?_of_prefix {s : List α} (h : s ++ [c] <+: esc) : esc[s.length]? = some c := by
  obtain ⟨t, rfl⟩ := h
  rw [List.append_assoc, List.getElem?_append_right le_rfl, Nat.sub_self]
  rfl

theorem Held.length (h : Held newline esc fwd k s) : s.length = fwd.length + k := by
  rw [← h.text, List.length_append, List.length_take_of_le h.short.le]

/-- The only match that can be open behind one more character is the one held
back, or the one that this character opens. -/
theorem Held.open_snoc (hplain : ∀ c ∈ esc, ¬newline c) (h : Held newline esc fwd k s)
    (ho : OpenAt newline esc (s ++ [c]) i) :
    i = fwd.length ∧ esc[k]? = some c ∧ (0 < k ∨ LineStart newline fwd) := by
  obtain ⟨hlt, hline, hpre⟩ := ho
  rw [List.length_append, List.length_singleton] at hlt
  rw [List.take_append_of_le_length (by omega)] at hline
  rw [List.drop_append_of_le_length (by omega)] at hpre
  have hlen := h.length
  rcases Nat.lt_or_eq_of_le (Nat.le_of_lt_succ hlt) with hi | rfl
  · -- It was open before.
    have hi' := h.sole i ⟨hi, hline, (List.prefix_append _ _).trans hpre⟩
    subst hi'
    rw [← h.text, List.drop_left] at hpre
    have hc := getElem?_of_prefix hpre
    rw [List.length_take_of_le h.short.le] at hc
    exact ⟨rfl, hc, .inl (by omega)⟩
  · -- The character is the first one of its line.
    rw [List.take_length] at hline
    have hk : k = 0 := by
      by_contra hk
      rw [← h.text] at hline
      exact not_lineStart hplain (Nat.pos_of_ne_zero hk) h.short fwd hline
    subst hk
    have hs : s = fwd := by rw [← h.text, List.take_zero, List.append_nil]
    subst hs
    rw [List.drop_length, List.nil_append] at hpre
    exact ⟨rfl, getElem?_of_prefix (s := []) hpre, .inr hline⟩

/-- A pattern that stands in the text with one more character was open and ends
with this character. -/
theorem Held.occurs_snoc (hne : esc ≠ []) (h : Held newline esc fwd k s)
    (ho : OccursAt newline esc (s ++ [c]) i) :
    OpenAt newline esc (s ++ [c]) i ∧ i + esc.length = s.length + 1 := by
  have hle := ho.le hne
  have hpos := List.length_pos_iff.mpr hne
  rw [List.length_append, List.length_singleton] at hle
  have hend : i + esc.length = s.length + 1 := by
    by_contra hend
    exact h.absent i (ho.of_append (by omega))
  have hdrop : (s ++ [c]).drop i = esc := by
    refine (ho.2.eq_of_length ?_).symm
    rw [List.length_drop, List.length_append, List.length_singleton]
    omega
  refine ⟨⟨?_, ho.1, hdrop ▸ List.prefix_refl _⟩, hend⟩
  rw [List.length_append, List.length_singleton]
  omega

section
variable (hplain : ∀ c ∈ esc, ¬newline c) (h : Held newline esc fwd k s)
include hplain h

/-- The next character of the pattern is held back too. -/
theorem Held.grow (hline : 0 < k ∨ LineStart newline fwd) (hc : esc[k]? = some c)
    (hshort : k + 1 < esc.length) : Held newline esc fwd (k + 1) (s ++ [c]) := by
  have hne : esc ≠ [] := List.ne_nil_of_length_pos (by omega)
  have hlen := h.length
  refine ⟨?_, hshort, fun _ ↦ hline.elim h.start id, ?_, ?_⟩
  · rw [List.take_add_one, hc, ← List.append_assoc, h.text]
    rfl
  · exact fun i ho ↦ (h.open_snoc hplain ho).1
  · intro i ho
    obtain ⟨hopen, hend⟩ := h.occurs_snoc hne ho
    have hi := (h.open_snoc hplain hopen).1
    omega

theorem Held.close (hline : 0 < k ∨ LineStart newline fwd) (hc : esc[k]? = some c)
    (hfull : k + 1 = esc.length) : Found newline esc fwd (s ++ [c]) := by
  have hne : esc ≠ [] := List.ne_nil_of_length_pos (by omega)
  have htext : s ++ [c] = fwd ++ esc := by
    have hesc : esc.take (k + 1) = esc := List.take_of_length_le hfull.ge
    rw [List.take_add_one, hc] at hesc
    rw [← h.text, List.append_assoc]
    exact congrArg (fwd ++ ·) hesc
  refine ⟨htext ▸ List.prefix_append _ _, ?_, fun j hj ho ↦ ?_⟩
  · rw [htext, OccursAt, List.take_left, List.drop_left]
    exact ⟨hline.elim h.start id, List.prefix_refl _⟩
  · obtain ⟨hopen, -⟩ := h.occurs_snoc hne ho
    have hi := (h.open_snoc hplain hopen).1
    omega

/-- Any other character lets everything pass. -/
theorem Held.pass (hc : esc[k]? = some c → k = 0 ∧ ¬LineStart newline fwd) :
    Held newline esc (s ++ [c]) 0 (s ++ [c]) := by
  have hne : esc ≠ [] := List.ne_nil_of_length_pos (Nat.zero_lt_of_lt h.short)
  have hclosed : ∀ i, ¬OpenAt newline esc (s ++ [c]) i := by
    intro i ho
    obtain ⟨-, hk, hline⟩ := h.open_snoc hplain ho
    obtain ⟨rfl, hno⟩ := hc hk
    exact hline.elim (lt_irrefl 0) hno
  refine ⟨?_, Nat.zero_lt_of_lt h.short, fun h0 ↦ absurd h0 (lt_irrefl 0), ?_, ?_⟩
  · rw [List.take_zero, List.append_nil]
  · exact fun i ho ↦ (hclosed i ho).elim
  · exact fun i ho ↦ hclosed i (h.occurs_snoc hne ho).1

end

end Sshd.Lib.LineEscape
