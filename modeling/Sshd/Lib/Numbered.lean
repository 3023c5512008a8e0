import Mathlib.Data.List.Pairwise
import Mathlib.Data.List.Range

namespace Sshd.Lib.Numbered

variable {α β γ : Type} (seq : α → ℕ) (on : α → Bool)

/-- A log whose entries are numbered from zero and switched on once and for all. -/
structure Ledger (l : List α) (live : Bool) (next : ℕ) : Prop where
  next : next = l.length
  numbered : l.map seq = List.range l.length
  switched : l.Pairwise fun a b ↦ on a = true → on b = true
  off : live = false → ∀ a ∈ l, on a = false

/-- The entries up to the switch and those behind it. -/
def before (l : List α) : List α := l.filter fun a ↦ !on a

def behind (l : List α) : List α := l.filter on

variable {seq on} {l : List α} {live live' : Bool} {next : ℕ}

theorem Ledger.nil (live : Bool) : Ledger seq on [] live 0 := ⟨rfl, rfl, .nil, by simp⟩

theorem Ledger.onward (h : Ledger seq on l live next) (he : live = true → live' = true) :
    Ledger seq on l live' next := by
  refine ⟨h.next, h.numbered, h.switched, fun hf ↦ h.off (Bool.eq_false_iff.mpr fun ht ↦ ?_)⟩
  rw [he ht] at hf
  cases hf

theorem Ledger.append (h : Ledger seq on l live next) {a : α} (hseq : seq a = next)
    (hon : on a = live) : Ledger seq on (l ++ [a]) live (next + 1) := by
  refine ⟨?_, ?_, List.pairwise_append.mpr ⟨h.switched, List.pairwise_singleton _ a, ?_⟩, ?_⟩
  · rw [h.next, List.length_append, List.length_singleton]
  · rw [List.map_append, h.numbered, List.length_append, List.length_singleton, List.range_succ,
      List.map_singleton, hseq, h.next]
  · intro b hb c hc hbon
    obtain rfl := List.mem_singleton.mp hc
    cases live with
    | true => exact hon
    | false =>
      rw [h.off rfl b hb] at hbon
      cases hbon
  · intro hf b hb
    obtain hb | hb := List.mem_append.mp hb
    · exact h.off hf b hb
    · rw [List.mem_singleton.mp hb, hon, hf]

theorem eq_before_append_behind (h : l.Pairwise fun a b ↦ on a = true → on b = true) :
    l = before on l ++ behind on l := by
  unfold before behind
  induction l with
  | nil => rfl
  | cons a l ih =>
    obtain ⟨ha, hl⟩ := List.pairwise_cons.mp h
    cases hon : on a with
    | false => simpa [hon] using ih hl
    | true =>
      have hall : l.filter on = l := List.filter_eq_self.mpr fun b hb ↦ ha b hb hon
      have hnone : l.filter (fun a ↦ !on a) = [] :=
        List.filter_eq_nil_iff.mpr fun b hb ↦ by simp [ha b hb hon]
      simp [hon, hall, hnone]

/-- The numbers behind the switch go on where those before it end. -/
theorem Ledger.seq_behind (h : Ledger seq on l live next) {j : ℕ}
    (hj : j < (behind on l).length) : seq (behind on l)[j] = (before on l).length + j := by
  have hnum := h.numbered
  rw [eq_before_append_behind h.switched] at hnum
  have hget := congrArg (·[(before on l).length + j]?) hnum
  have hlt : (before on l).length + j < (before on l).length + (behind on l).length := by omega
  simpa [hj, hlt] using hget

/-- Where the entries of `m` behind its switch all match entries of `l` behind
its own, in their number and their value, they are a block of these. It starts
where the entries before the switch have moved the count. -/
theorem Ledger.block {m : List β} {seq' : β → ℕ} {on' : β → Bool} {next' : ℕ}
    (h : Ledger seq on l live next) (h' : Ledger seq' on' m live' next') {value : α → γ}
    {value' : β → γ}
    (hm : ∀ b ∈ behind on' m, ∃ a ∈ behind on l, seq a = seq' b ∧ value a = value' b) :
    (behind on' m).map value' <+:
      ((behind on l).map value).drop ((before on' m).length - (before on l).length) := by
  have hfind (j : ℕ) (hj : j < (behind on' m).length) :
      ∃ i, (before on' m).length + j = (before on l).length + i ∧
        ((behind on l)[i]?).map value = some (value' (behind on' m)[j]) := by
    obtain ⟨a, ha, hseq, hvalue⟩ := hm _ (List.getElem_mem hj)
    obtain ⟨i, hi, rfl⟩ := List.mem_iff_getElem.mp ha
    refine ⟨i, ?_, ?_⟩
    · rw [← h'.seq_behind hj, ← h.seq_behind hi, hseq]
    · rw [List.getElem?_eq_getElem hi, Option.map_some, hvalue]
  refine List.prefix_iff_getElem?.mpr fun j hj ↦ ?_
  rw [List.length_map] at hj
  -- the first of them has a number, and `l` has none so low behind its switch
  have hle : (before on l).length ≤ (before on' m).length := by
    obtain ⟨i, hi, -⟩ := hfind 0 (by omega)
    omega
  obtain ⟨i, hi, hget⟩ := hfind j hj
  obtain rfl : i = (before on' m).length - (before on l).length + j := by omega
  rw [List.getElem?_drop, List.getElem?_map, hget, List.getElem_map]

end Sshd.Lib.Numbered
