import Mathlib.Data.List.Basic
import Mathlib.Logic.Function.Basic

namespace Sshd.Lib.Serial

variable {ι σ γ : Type}

/-- A transaction looks at a shared state piece by piece and ends with one
change of it, or with none. -/
inductive Txn (σ : Type)
  | stop
  | commit (f : σ → σ)
  | look (k : σ → Txn σ)

/-- What the transaction makes of a state that nobody else changes. -/
def Txn.alone : Txn σ → σ → σ
  | .stop, s => s
  | .commit f, s => f s
  | .look k, s => (k s).alone s

/-- The calls of one party: still to be made, under way, done. -/
structure Party (σ γ : Type) where
  todo : List γ
  current : Option (γ × Txn σ) := none
  finished : List γ := []

namespace Party

variable (p : Party σ γ)

def leave (c : γ) (todo : List γ) : Party σ γ := ⟨todo, none, p.finished ++ [c]⟩

/-- A call whose transaction stops is over at once. -/
def proceed (c : γ) (todo : List γ) : Txn σ → Party σ γ
  | .stop => p.leave c todo
  | t => ⟨todo, some (c, t), p.finished⟩

/-- All calls of the party in their order. -/
def calls : List γ := p.finished ++ (p.current.map Prod.fst).toList ++ p.todo

end Party

structure System (ι σ γ : Type) where
  shared : σ
  party : ι → Party σ γ

variable [DecidableEq ι] (body : γ → Txn σ)

/-- The call that a party goes on with. -/
def Party.next (p : Party σ γ) : Option (γ × Txn σ × List γ) :=
  match p.current, p.todo with
  | some (c, t), todo => some (c, t, todo)
  | none, c :: todo => some (c, body c, todo)
  | none, [] => none

/-- One access of party `i` to the shared state. -/
def step (w : System ι σ γ) (i : ι) : System ι σ γ :=
  match (w.party i).next body with
  | none => w
  | some (c, .stop, todo) => { w with party := Function.update w.party i ((w.party i).leave c todo) }
  | some (c, .commit f, todo) =>
    { shared := f w.shared, party := Function.update w.party i ((w.party i).leave c todo) }
  | some (c, .look k, todo) =>
    { w with party := Function.update w.party i ((w.party i).proceed c todo (k w.shared)) }

def run (w : System ι σ γ) (schedule : List ι) : System ι σ γ := schedule.foldl (step body) w

/-- If party `i` makes a change now, no other call is under way. -/
def Undisturbed (w : System ι σ γ) (i : ι) : Prop :=
  ∀ c f todo, (w.party i).next body = some (c, .commit f, todo) →
    ∀ j, j ≠ i → (w.party j).current = none

def Clear : System ι σ γ → List ι → Prop
  | _, [] => True
  | w, i :: schedule => Undisturbed body w i ∧ Clear (step body w i) schedule

variable {body}

/-- A step leaves a party alone, ends a call or looks. -/
theorem step_cases (body : γ → Txn σ) (w : System ι σ γ) (i : ι) :
    step body w i = w ∨
    ∃ c t todo, (w.party i).next body = some (c, t, todo) ∧
      ((step body w i = ⟨t.alone w.shared, Function.update w.party i ((w.party i).leave c todo)⟩ ∧
          (t.alone w.shared = w.shared ∨ ∃ f, t = .commit f)) ∨
        ∃ t', t'.alone w.shared = t.alone w.shared ∧
          step body w i = ⟨w.shared, Function.update w.party i ⟨todo, some (c, t'),
            (w.party i).finished⟩⟩) := by
  cases hn : (w.party i).next body with
  | none =>
    left
    simp only [step, hn]
  | some next =>
    obtain ⟨c, t, todo⟩ := next
    refine .inr ⟨c, t, todo, rfl, ?_⟩
    cases t with
    | stop => exact .inl ⟨by simp only [step, hn]; rfl, .inl rfl⟩
    | commit f => exact .inl ⟨by simp only [step, hn]; rfl, .inr ⟨f, rfl⟩⟩
    | look k =>
      have hstep : step body w i =
          ⟨w.shared, Function.update w.party i ((w.party i).proceed c todo (k w.shared))⟩ := by
        simp only [step, hn]
      rw [hstep, Txn.alone]
      cases hk : k w.shared with
      | stop => exact .inl ⟨rfl, .inl rfl⟩
      | commit f => exact .inr ⟨.commit f, rfl, rfl⟩
      | look k' => exact .inr ⟨.look k', rfl, rfl⟩

theorem next_cases {p : Party σ γ} {c : γ} {t : Txn σ} {todo : List γ}
    (h : p.next body = some (c, t, todo)) :
    (p.current = some (c, t) ∧ p.todo = todo) ∨
      (p.current = none ∧ p.todo = c :: todo ∧ t = body c) := by
  obtain ⟨todo', current, finished⟩ := p
  cases current with
  | some ct =>
    left
    simp only [Party.next, Option.some.injEq, Prod.mk.injEq] at h
    obtain ⟨rfl, rfl, rfl⟩ := h
    exact ⟨rfl, rfl⟩
  | none =>
    right
    cases todo' with
    | nil => cases h
    | cons c' todo' =>
      simp only [Party.next, Option.some.injEq, Prod.mk.injEq] at h
      obtain ⟨rfl, rfl, rfl⟩ := h
      exact ⟨rfl, rfl, rfl⟩

theorem next_calls {p : Party σ γ} {c : γ} {t : Txn σ} {todo : List γ}
    (h : p.next body = some (c, t, todo)) : p.calls = p.finished ++ c :: todo := by
  rcases next_cases h with ⟨hc, ht⟩ | ⟨hc, ht, -⟩
  · simp [Party.calls, hc, ht]
  · simp [Party.calls, hc, ht]

/-- No step loses or repeats a call. -/
theorem step_calls (w : System ι σ γ) (i j : ι) :
    ((step body w i).party j).calls = (w.party j).calls := by
  rcases step_cases body w i with h | ⟨c, t, todo, hn, ⟨h, -⟩ | ⟨t', -, h⟩⟩
  · rw [h]
  · rw [h]
    by_cases hj : j = i
    · subst hj
      rw [next_calls hn]
      simp [Party.calls, Party.leave]
    · simp only [Function.update_of_ne hj]
  · rw [h]
    by_cases hj : j = i
    · subst hj
      rw [next_calls hn]
      simp [Party.calls]
    · simp only [Function.update_of_ne hj]

/-- The shared state is that of the finished calls, made one after another in
`order`; a call under way would end as if it began now. -/
structure Serialized (body : γ → Txn σ) (s : σ) (w : System ι σ γ) (order : List (ι × γ)) : Prop where
  shared : w.shared = order.foldl (fun s c ↦ (body c.2).alone s) s
  finished : ∀ i, (order.filter (·.1 = i)).map Prod.snd = (w.party i).finished
  current : ∀ i c t, (w.party i).current = some (c, t) →
    t.alone w.shared = (body c).alone w.shared

namespace Serialized

variable {s : σ} {w : System ι σ γ} {order : List (ι × γ)}

theorem next_alone (h : Serialized body s w order) {i : ι} {c : γ} {t : Txn σ} {todo : List γ}
    (hn : (w.party i).next body = some (c, t, todo)) :
    t.alone w.shared = (body c).alone w.shared := by
  rcases next_cases hn with ⟨hc, -⟩ | ⟨-, -, rfl⟩
  · exact h.current i c t hc
  · rfl

theorem step (h : Serialized body s w order) {i : ι} (hu : Undisturbed body w i) :
    ∃ order', Serialized body s (step body w i) order' := by
  rcases step_cases body w i with he | ⟨c, t, todo, hn, ⟨he, hkind⟩ | ⟨t', ht', he⟩⟩
  · rw [he]
    exact ⟨order, h⟩
  · refine ⟨order ++ [(i, c)], ?_⟩
    rw [he]
    constructor
    · rw [List.foldl_append, ← h.shared]
      exact h.next_alone hn
    · intro j
      rw [List.filter_append, List.map_append, h.finished j]
      by_cases hj : j = i
      · subst hj
        simp [Party.leave]
      · simp [Function.update_of_ne hj, Ne.symm hj]
    · intro j c' t' hcur
      by_cases hj : j = i
      · subst hj
        simp [Party.leave] at hcur
      · simp only [Function.update_of_ne hj] at hcur
        rcases hkind with hsame | ⟨f, rfl⟩
        · rw [hsame]
          exact h.current j c' t' hcur
        · rw [hu c f todo hn j hj] at hcur
          cases hcur
  · refine ⟨order, ?_⟩
    rw [he]
    constructor
    · exact h.shared
    · intro j
      rw [h.finished j]
      by_cases hj : j = i
      · subst hj
        simp
      · simp [Function.update_of_ne hj]
    · intro j c' t'' hcur
      by_cases hj : j = i
      · subst hj
        simp only [Function.update_self, Option.some.injEq, Prod.mk.injEq] at hcur
        obtain ⟨rfl, rfl⟩ := hcur
        exact ht'.trans (h.next_alone hn)
      · simp only [Function.update_of_ne hj] at hcur
        exact h.current j c' t'' hcur

theorem run (h : Serialized body s w order) {schedule : List ι} (hc : Clear body w schedule) :
    ∃ order', Serialized body s (run body w schedule) order' := by
  induction schedule generalizing w order with
  | nil => exact ⟨order, h⟩
  | cons i schedule ih =>
    obtain ⟨order', h'⟩ := h.step hc.1
    exact ih h' hc.2

end Serialized

theorem run_calls (w : System ι σ γ) (schedule : List ι) (j : ι) :
    ((run body w schedule).party j).calls = (w.party j).calls := by
  induction schedule generalizing w with
  | nil => rfl
  | cons i schedule ih => exact (ih (step body w i)).trans (step_calls w i j)

/-- One party on its own disturbs nobody. -/
theorem clear_replicate {w : System ι σ γ} {i : ι} (h : ∀ j, j ≠ i → (w.party j).current = none)
    (n : ℕ) : Clear body w (List.replicate n i) := by
  induction n generalizing w with
  | zero => trivial
  | succ n ih =>
    refine ⟨fun _ _ _ _ ↦ h, ih fun j hj ↦ ?_⟩
    rcases step_cases body w i with he | ⟨c, t, todo, -, ⟨he, -⟩ | ⟨t', -, he⟩⟩
    · rw [he]
      exact h j hj
    · rw [he]
      simpa only [Function.update_of_ne hj] using h j hj
    · rw [he]
      simpa only [Function.update_of_ne hj] using h j hj

theorem clear_append {w : System ι σ γ} {schedule schedule' : List ι} (h : Clear body w schedule)
    (h' : Clear body (run body w schedule) schedule') : Clear body w (schedule ++ schedule') := by
  induction schedule generalizing w with
  | nil => exact h'
  | cons i schedule ih => exact ⟨h.1, ih h.2 h'⟩

/-- The parties at rest, each with the calls it is going to make. -/
def start (s : σ) (todo : ι → List γ) : System ι σ γ := ⟨s, fun i ↦ { todo := todo i }⟩

/-- Where no change falls into the transaction of another party, the calls that
are finished have an order in which they do the same one after another. -/
theorem run_serial (s : σ) (todo : ι → List γ) {schedule : List ι}
    (hc : Clear body (start s todo) schedule) :
    ∃ order : List (ι × γ),
      (run body (start s todo) schedule).shared =
        order.foldl (fun s c ↦ (body c.2).alone s) s ∧
      ∀ i, (order.filter (·.1 = i)).map Prod.snd =
        ((run body (start s todo) schedule).party i).finished := by
  have h : Serialized body s (start s todo) [] := by
    constructor
    · rfl
    · exact fun _ ↦ rfl
    · intro i c t hcur
      cases hcur
  obtain ⟨order, h'⟩ := h.run hc
  exact ⟨order, h'.shared, h'.finished⟩

end Sshd.Lib.Serial
