import Mathlib.Data.List.Basic
import Mathlib.Logic.Relation

namespace Sshd.Lib.Trace

variable {α σ : Type}

/-- Every element of a record stands in relation `R` to what was recorded
before it. -/
def EachAfter (R : List α → α → Prop) (l : List α) : Prop :=
  ∀ pre a post, l = pre ++ a :: post → R pre a

theorem eachAfter_nil (R : List α → α → Prop) : EachAfter R [] := by
  intro pre a post h
  simp at h

theorem eachAfter_append {R : List α → α → Prop} {l m : List α} :
    EachAfter R (l ++ m) ↔ EachAfter R l ∧ EachAfter (fun pre ↦ R (l ++ pre)) m := by
  constructor
  · intro h
    refine ⟨fun pre a post hl ↦ h pre a (post ++ m) ?_, fun pre a post hm ↦ h (l ++ pre) a post ?_⟩
    · rw [hl, List.append_assoc, List.cons_append]
    · rw [hm, List.append_assoc]
  · rintro ⟨hl, hm⟩ pre a post h
    obtain ⟨l', rfl, hm'⟩ | ⟨m', rfl, hm'⟩ := List.append_eq_append_iff.mp h
    · exact hm l' a post hm'
    · cases m' with
      | nil =>
        have ha := hm [] a post (by simpa using hm'.symm)
        simpa only [List.append_nil] using ha
      | cons b m' =>
        simp only [List.cons_append, List.cons.injEq] at hm'
        obtain ⟨rfl, -⟩ := hm'
        exact hl pre a m' rfl

theorem EachAfter.of_forall {R : List α → α → Prop} {l : List α} (h : ∀ a ∈ l, ∀ pre, R pre a) :
    EachAfter R l := by
  intro pre a post hl
  exact h a (by rw [hl]; simp) pre

theorem eachAfter_singleton {R : List α → α → Prop} {a : α} : EachAfter R [a] ↔ R [] a := by
  constructor
  · intro h
    exact h [] a [] rfl
  · intro h pre b post hl
    cases pre with
    | nil =>
      obtain ⟨rfl, -⟩ := List.cons.injEq .. ▸ hl
      exact h
    | cons c pre => simp at hl

theorem EachAfter.snoc {R : List α → α → Prop} {l : List α} {a : α} (h : EachAfter R l)
    (ha : R l a) : EachAfter R (l ++ [a]) := by
  refine eachAfter_append.mpr ⟨h, eachAfter_singleton.mpr ?_⟩
  rwa [List.append_nil]

theorem eachAfter_iff_getElem {R : List α → α → Prop} {l : List α} :
    EachAfter R l ↔ ∀ i : Fin l.length, R (l.take i) l[i] := by
  constructor
  · intro h i
    refine h _ _ (l.drop (i + 1)) ?_
    have hd : l[i] :: l.drop (i + 1) = l.drop i := (List.drop_eq_getElem_cons i.isLt).symm
    rw [hd, List.take_append_drop]
  · rintro h pre a post rfl
    have hi := h ⟨pre.length, by simp⟩
    simpa using hi

instance {R : List α → α → Prop} [∀ pre a, Decidable (R pre a)] (l : List α) :
    Decidable (EachAfter R l) :=
  decidable_of_iff _ eachAfter_iff_getElem.symm

/-- A predicate that holds at the start and is kept by every step holds along
every run. -/
theorem run_invariant {r : σ → σ → Prop} {inv : σ → Prop} (hstep : ∀ a b, inv a → r a b → inv b)
    {a b : σ} (h : Relation.ReflTransGen r a b) (ha : inv a) : inv b := by
  induction h with
  | refl => exact ha
  | tail _ hs ih => exact hstep _ _ ih hs

end Sshd.Lib.Trace
