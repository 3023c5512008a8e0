import Mathlib.Data.List.Basic

namespace Sshd.Lib.Segment

variable {σ β : Type}

/-! A reader that is fed a stream in pieces. `same` says when two states cannot
be told apart, `ready s rest` when a reader in state `s` can be given `rest`. -/

/-- Two pieces come to the same as one. -/
structure Seamless (feed : σ → List β → σ) (same : σ → σ → Prop) (ready : σ → List β → Prop) :
    Prop where
  equivalence : Equivalence same
  nil : ∀ s, ready s [] → same s (feed s [])
  append : ∀ s a b, ready s (a ++ b) → same (feed (feed s a) b) (feed s (a ++ b))
  ready : ∀ s a b, ready s (a ++ b) → ready (feed s a) b

section
variable {feed : σ → List β → σ} {same : σ → σ → Prop} {ready : σ → List β → Prop}

/-- Any number of pieces come to the same as one. -/
theorem Seamless.foldl (h : Seamless feed same ready) {s : σ} (pieces : List (List β))
    (hs : ready s pieces.flatten) : same (pieces.foldl feed s) (feed s pieces.flatten) := by
  induction pieces generalizing s with
  | nil => exact h.nil s hs
  | cons piece pieces ih =>
    rw [List.flatten_cons] at hs ⊢
    have hrest := ih (h.ready s piece pieces.flatten hs)
    exact h.equivalence.trans hrest (h.append s piece pieces.flatten hs)

/-- It does not matter where a stream is cut. -/
theorem Seamless.cut (h : Seamless feed same ready) {s : σ} {pieces pieces' : List (List β)}
    (hs : ready s pieces.flatten) (hcut : pieces'.flatten = pieces.flatten) :
    same (pieces.foldl feed s) (pieces'.foldl feed s) := by
  refine h.equivalence.trans (h.foldl pieces hs) (h.equivalence.symm ?_)
  rw [← hcut] at hs ⊢
  exact h.foldl pieces' hs

end

end Sshd.Lib.Segment
