import Mathlib.Order.Nat

namespace Sshd.Lib.Fair

/-! A system that is driven by an endless stream of events. -/

variable {σ ε : Type}

/-- The state after the first events. -/
def after (step : σ → ε → σ) (s : σ) (events : ℕ → ε) : ℕ → σ
  | 0 => s
  | n + 1 => step (after step s events n) (events n)

/-- Some event of the kind always comes. -/
def Recurs (busy : ε → Prop) (events : ℕ → ε) : Prop := ∀ n, ∃ m, n ≤ m ∧ busy (events m)

variable {step : σ → ε → σ} {s : σ} {events : ℕ → ε}

/-- What holds at first and is kept by every event holds always. -/
theorem after_induction {motive : σ → Prop} (hinit : motive s)
    (hstep : ∀ n s, motive s → motive (step s (events n))) (n : ℕ) :
    motive (after step s events n) := by
  induction n with
  | zero => exact hinit
  | succ n ih => exact hstep n _ ih

/-- While the system is `live` its rank never rises, and every busy event makes it
drop; so the system is `done` at some time. -/
theorem reaches {live done : σ → Prop} {busy : ε → Prop} (rank : σ → ℕ)
    (hstep : ∀ n s, live s → done (step s (events n)) ∨
      live (step s (events n)) ∧ rank (step s (events n)) ≤ rank s ∧
        (busy (events n) → rank (step s (events n)) < rank s))
    (hfair : Recurs busy events) (hlive : live s) : ∃ n, done (after step s events n) := by
  by_contra hnever
  have hgo : ∀ n, live (after step s events n) := fun n ↦ by
    induction n with
    | zero => exact hlive
    | succ n ih =>
      exact ((hstep n _ ih).resolve_left fun hd ↦ hnever ⟨n + 1, hd⟩).1
  have hdrop := fun n ↦ (hstep n _ (hgo n)).resolve_left fun hd ↦ hnever ⟨n + 1, hd⟩
  have hmono : ∀ n k, rank (after step s events (n + k)) ≤ rank (after step s events n) := by
    intro n k
    induction k with
    | zero => exact le_rfl
    | succ k ih => exact (hdrop (n + k)).2.1.trans ih
  -- The rank would go below any number.
  have hbelow : ∀ d, ∃ n, rank (after step s events n) + d ≤ rank s := by
    intro d
    induction d with
    | zero => exact ⟨0, le_rfl⟩
    | succ d ih =>
      obtain ⟨n, hn⟩ := ih
      obtain ⟨m, hm, hbusy⟩ := hfair n
      obtain ⟨k, rfl⟩ := Nat.exists_eq_add_of_le hm
      have hlt := (hdrop (n + k)).2.2 hbusy
      have hle := hmono n k
      refine ⟨n + k + 1, ?_⟩
      change rank (step (after step s events (n + k)) (events (n + k))) + (d + 1) ≤ rank s
      omega
  obtain ⟨n, hn⟩ := hbelow (rank s + 1)
  omega

end Sshd.Lib.Fair
