import Sshd.Keys.History
import Mathlib.Order.Bounds.Basic

namespace Sshd.Keys

open Lib.Octets

/-! Whether an id can come to name another line. -/

section
variable (count : Tree → ℕ) (own : Bool)

/-- The element is in the array after the calls. -/
def Stored (calls : List Call) (e : Item) : Prop := ∃ i, (runCalls count own calls).keys i = some e

/-- Once an id has been assigned to a line it is assigned to no other, and a
removal of the id takes that line away or finds no key. -/
def NamesKept (calls : List Call) : Prop :=
  ∀ q, q <+: calls → ∀ p, p <+: q → ∀ e, Stored count own p e →
    (∀ e', Stored count own q e' → e'.id = e.id → e'.line = e.line) ∧
    let s := runCalls count own q
    let s' := runCalls count own (q ++ [.remove e.id])
    (∃ before e' after, e'.line = e.line ∧ s.keys = Tree.ofList (before ++ e' :: after) ∧
      s'.keys = Tree.ofList (before ++ after)) ∨
    (s'.keys = s.keys ∧ s'.error = noSuchKey)

/-- `keyAdd` takes the line. -/
def Acceptable (calls : List Call) (raw : Bytes) : Prop :=
  keyRejection (keyNormalize raw) = [] ∧ ∀ e, Stored count own calls e → e.line ≠ keyNormalize raw

/-- The highest number among the ids that are stored. -/
def Highest (calls : List Call) (n : ℤ) : Prop :=
  IsGreatest (insert 0 {k | ∃ e, Stored count own calls e ∧ atoi e.id = k}) n

/-- The highest number that was ever stored still is. -/
def NewestKept (calls : List Call) : Prop :=
  ∀ n, Highest count own calls n → ∀ p, p <+: calls → ∀ e, Stored count own p e → atoi e.id ≤ n

/-- The number above the highest one that is stored never named another line. -/
def PutsBack (calls : List Call) (raw : Bytes) : Prop :=
  ∀ n, Highest count own calls n → ∀ p, p <+: calls → ∀ e, Stored count own p e →
    atoi e.id = n + 1 → e.line = keyNormalize raw

end

namespace KeyRing

theorem highest_mem (items : List Item) (best : ℤ) :
    highest items best = best ∨ ∃ e ∈ items, atoi e.id = highest items best := by
  induction items generalizing best with
  | nil => exact .inl rfl
  | cons e items ih =>
    rcases ih (if best < atoi e.id then atoi e.id else best) with h | ⟨x, hx, h⟩
    · by_cases hlt : best < atoi e.id
      · rw [if_pos hlt] at h
        refine .inr ⟨e, List.mem_cons_self, ?_⟩
        rw [highest, List.foldl_cons, if_pos hlt]
        exact h.symm
      · rw [if_neg hlt] at h
        left
        rw [highest, List.foldl_cons, if_neg hlt]
        exact h
    · exact .inr ⟨x, List.mem_cons_of_mem e hx, h⟩

/-- An id is the decimal text of its number. -/
theorem run_ids (calls : List Call) : ∀ e ∈ (run calls).items, e.id = decimal (atoi e.id) := by
  induction calls using List.reverseRecOn with
  | nil => exact fun e he ↦ absurd he List.not_mem_nil
  | append_singleton calls c ih =>
    intro e he
    rw [run_concat] at he
    cases c with
    | add raw =>
      by_cases hacc : (run calls).Accepts raw
      · rw [step_accepted hacc] at he
        rcases List.mem_append.mp he with he | he
        · exact ih e he
        · rw [List.mem_singleton.mp he]
          change nextId (run calls).items = decimal (atoi (nextId (run calls).items))
          rw [atoi_nextId]
          rfl
      · rw [step_rejected hacc] at he
        exact ih e he
    | remove id => exact ih e (mem_step_remove.mp he).1

end KeyRing

variable {count : Tree → ℕ} {own : Bool} (hcount : CountsArray count)
include hcount

theorem stored_iff (calls : List Call) (e : Item) :
    Stored count own calls e ↔ e ∈ (KeyRing.run calls).items := by
  rw [Stored, runCalls_ring hcount calls]
  exact List.mem_iff_getElem?.symm

theorem acceptable_iff (calls : List Call) (raw : Bytes) :
    Acceptable count own calls raw ↔ (KeyRing.run calls).Accepts raw := by
  simp only [Acceptable, KeyRing.Accepts, stored_iff hcount, List.mem_map, not_exists, not_and]

theorem highest_iff (calls : List Call) (n : ℤ) :
    Highest count own calls n ↔ n = KeyRing.highest (KeyRing.run calls).items 0 := by
  have hgreatest : Highest count own calls (KeyRing.highest (KeyRing.run calls).items 0) := by
    obtain ⟨hpos, hle⟩ := KeyRing.highest_spec (KeyRing.run calls).items 0
    constructor
    · rcases KeyRing.highest_mem (KeyRing.run calls).items 0 with h | ⟨e, he, h⟩
      · rw [h]
        exact Set.mem_insert 0 _
      · exact .inr ⟨e, (stored_iff hcount calls e).mpr he, h⟩
    · rintro k (rfl | ⟨e, he, rfl⟩)
      · exact hpos
      · exact hle e ((stored_iff hcount calls e).mp he)
  constructor
  · intro h
    exact h.unique hgreatest
  · rintro rfl
    exact hgreatest

/-- The condition on an addition, in the ring. -/
theorem reuses_iff (calls : List Call) (raw : Bytes) :
    (NewestKept count own calls ∨ PutsBack count own calls raw) ↔
      ∀ p, p <+: calls → ∀ e ∈ (KeyRing.run p).items,
        e.id = KeyRing.nextId (KeyRing.run calls).items → e.line = keyNormalize raw := by
  constructor
  · intro h p hp e he hid
    have hnum : atoi e.id = KeyRing.highest (KeyRing.run calls).items 0 + 1 := by
      rw [hid, KeyRing.atoi_nextId]
    rcases h with h | h
    · have hle := h _ ((highest_iff hcount calls _).mpr rfl) p hp e ((stored_iff hcount p e).mpr he)
      omega
    · exact h _ ((highest_iff hcount calls _).mpr rfl) p hp e ((stored_iff hcount p e).mpr he) hnum
  · intro h
    right
    intro n hn p hp e he hnum
    have he' := (stored_iff hcount p e).mp he
    apply h p hp e he'
    rw [KeyRing.run_ids p e he', hnum, (highest_iff hcount calls n).mp hn]
    rfl

/-- The first half of `NamesKept`, in the ring, is all of it. -/
theorem namesKept_iff (calls : List Call) :
    NamesKept count own calls ↔ ∀ q, q <+: calls → ∀ p, p <+: q →
      ∀ e ∈ (KeyRing.run p).items, ∀ e' ∈ (KeyRing.run q).items, e'.id = e.id → e'.line = e.line := by
  constructor
  · intro h q hq p hp e he e' he'
    exact (h q hq p hp e ((stored_iff hcount p e).mpr he)).1 e' ((stored_iff hcount q e').mpr he')
  · intro h q hq p hp e he
    have hsame := h q hq p hp e ((stored_iff hcount p e).mp he)
    refine ⟨fun e' he' ↦ hsame e' ((stored_iff hcount q e').mp he'), ?_⟩
    have hkeys : (runCalls count own q).keys = _ := runCalls_ring hcount q
    obtain ⟨hpresent, habsent⟩ : After _ (runCall count own _ _) _ :=
      after_call hcount hkeys (.remove e.id)
    dsimp only
    rw [runCalls_concat]
    by_cases hid : e.id ∈ (KeyRing.run q).items.map Item.id
    · obtain ⟨e', he', hid'⟩ := List.mem_map.mp hid
      obtain ⟨before, after, hsplit⟩ := List.append_of_mem he'
      refine .inl ⟨before, e', after, hsame e' he' hid', ?_, (hpresent before e' after hsplit hid').1⟩
      rw [hkeys, hsplit]
    · obtain ⟨hsame', -, herror⟩ := habsent hid
      rw [hkeys]
      exact .inr ⟨hsame', herror⟩

/-- The ids name one line each exactly when no addition hands out a number that
has named another line. -/
theorem names_kept_iff (own : Bool) (calls : List Call) :
    NamesKept count own calls ↔
      ∀ p raw, p ++ [.add raw] <+: calls → Acceptable count own p raw →
        NewestKept count own p ∨ PutsBack count own p raw := by
  rw [namesKept_iff hcount]
  constructor
  · intro h p raw hp hacc
    rw [acceptable_iff hcount] at hacc
    rw [reuses_iff hcount]
    intro p' hp' e he hid
    have hnew : KeyRing.newItem (KeyRing.run p).items (keyNormalize raw) ∈
        (KeyRing.run (p ++ [.add raw])).items := by
      rw [KeyRing.run_concat, KeyRing.step_accepted hacc]
      exact List.mem_append_right _ List.mem_cons_self
    exact (h _ hp p' (hp'.trans (List.prefix_append p _)) e he _ hnew hid.symm).symm
  · intro h q
    induction q using List.reverseRecOn with
    | nil =>
      intro _ p hp e he e' he'
      exact absurd he' List.not_mem_nil
    | append_singleton q c ih =>
      intro hq p hp e he e' he' hid
      have hprev := ih ((List.prefix_append q [c]).trans hq)
      rcases List.prefix_concat_iff.mp hp with rfl | hpq
      · exact congrArg Item.line (List.inj_on_of_nodup_map (KeyRing.run _).ids he' he hid)
      rw [KeyRing.run_concat] at he'
      cases c with
      | remove id => exact hprev p hpq e he e' (KeyRing.mem_step_remove.mp he').1 hid
      | add raw =>
        by_cases hacc : (KeyRing.run q).Accepts raw
        · rw [KeyRing.step_accepted hacc] at he'
          rcases List.mem_append.mp he' with he' | he'
          · exact hprev p hpq e he e' he' hid
          · have hnew := List.mem_singleton.mp he'
            have hcond := h q raw hq ((acceptable_iff hcount q raw).mpr hacc)
            rw [reuses_iff hcount] at hcond
            rw [hnew] at hid ⊢
            exact (hcond p hpq e he hid.symm).symm
        · rw [KeyRing.step_rejected hacc] at he'
          exact hprev p hpq e he e' he' hid

omit hcount

theorem names_kept_iff_two :
    let line := ascii "ssh-ed25519 " ++ List.replicate 64 65
    let calls : List Call := [.add line, .remove (ascii "1")]
    NamesKept arrayLength true calls ↔
      ∀ p raw, p ++ [.add raw] <+: calls → Acceptable arrayLength true p raw →
        NewestKept arrayLength true p ∨ PutsBack arrayLength true p raw :=
  names_kept_iff countsArray_arrayLength true _

/-- The id of the newest key, once removed, goes to the next key. -/
theorem removed_id_renamed :
    let line (c : UInt8) := ascii "ssh-ed25519 " ++ List.replicate 64 c
    ¬NamesKept arrayLength false [.add (line 65), .remove (ascii "1"), .add (line 66)] := by
  intro line
  rw [namesKept_iff countsArray_arrayLength]
  intro h
  have hfirst : ⟨ascii "1", line 65, keyLabel (line 65)⟩ ∈ (KeyRing.run [.add (line 65)]).items := by
    decide
  have hlast : ⟨ascii "1", line 66, keyLabel (line 66)⟩ ∈
      (KeyRing.run [.add (line 65), .remove (ascii "1"), .add (line 66)]).items := by
    decide
  have hsame := h _ List.prefix_rfl _ ⟨_, rfl⟩ _ hfirst _ hlast rfl
  exact absurd hsame (by decide)

end Sshd.Keys
