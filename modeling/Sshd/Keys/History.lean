import Sshd.Keys.Ring
import Mathlib.Order.Lattice.Nat

namespace Sshd.Keys

open Lib.Octets

variable {count : Tree → ℕ}

/-- A count of the elements up to the first gap. -/
noncomputable def arrayLength (keys : Tree) : ℕ := sInf {n | keys n = none}

theorem countsArray_arrayLength : CountsArray arrayLength := by
  intro items
  have hmem : items.length ∈ {n | Tree.ofList items n = none} :=
    List.getElem?_eq_none (Nat.le_refl _)
  apply Nat.le_antisymm (Nat.sInf_le hmem)
  have hnone : items[arrayLength (Tree.ofList items)]? = none := Nat.sInf_mem ⟨_, hmem⟩
  exact List.getElem?_eq_none_iff.mp hnone

/-! The ring and its keys, step by step. -/

namespace KeyRing

variable {ring : KeyRing}

theorem step_accepted {raw : Bytes} (h : ring.Accepts raw) :
    (ring.step (.add raw)).items = ring.items ++ [newItem ring.items (keyNormalize raw)] := by
  rw [step, dif_pos h]
  rfl

theorem step_rejected {raw : Bytes} (h : ¬ring.Accepts raw) : ring.step (.add raw) = ring := by
  rw [step, dif_neg h]

theorem place_eq {before after : List Item} {e : Item} (h : ring.items = before ++ e :: after) :
    ring.place e.id = some before.length := by
  have hids := ring.ids
  rw [h, List.map_append, List.map_cons] at hids
  rw [place, List.findIdx?_eq_some_iff_getElem]
  have hlt : before.length < ring.items.length := by
    rw [h, List.length_append, List.length_cons]
    omega
  refine ⟨hlt, ?_, fun j hj ↦ ?_⟩
  · simp [h]
  · have hne : before[j].id ≠ e.id := fun hid ↦
      (List.nodup_append.mp hids).2.2 _ (List.mem_map_of_mem (List.getElem_mem hj)) _
        List.mem_cons_self hid
    simpa [h, List.getElem_append_left hj] using hne

theorem step_remove {before after : List Item} {e : Item}
    (h : ring.items = before ++ e :: after) :
    (ring.step (.remove e.id)).items = before ++ after := by
  rw [step, place_eq h]
  change ring.items.eraseIdx before.length = _
  rw [h, List.eraseIdx_append_of_length_le (Nat.le_refl _), Nat.sub_self, List.eraseIdx_cons_zero]

theorem place_none {id : Bytes} (h : id ∉ ring.items.map Item.id) : ring.place id = none := by
  rw [place, List.findIdx?_eq_none_iff]
  exact fun e he ↦ decide_eq_false fun hid ↦ h (List.mem_map.mpr ⟨e, he, hid⟩)

theorem step_remove_none {id : Bytes} (h : id ∉ ring.items.map Item.id) :
    ring.step (.remove id) = ring := by
  rw [step, place_none h]
  rfl

theorem mem_step_remove {id : Bytes} {e : Item} :
    e ∈ (ring.step (.remove id)).items ↔ e ∈ ring.items ∧ e.id ≠ id := by
  by_cases hmem : id ∈ ring.items.map Item.id
  · obtain ⟨x, hx, rfl⟩ := List.mem_map.mp hmem
    obtain ⟨before, after, hsplit⟩ := List.append_of_mem hx
    have hids := ring.ids
    rw [hsplit, List.map_append, List.map_cons, List.nodup_append, List.nodup_cons] at hids
    obtain ⟨-, ⟨hafter, -⟩, hcross⟩ := hids
    rw [step_remove hsplit, hsplit]
    simp only [List.mem_append, List.mem_cons]
    constructor
    · rintro (he | he)
      · exact ⟨.inl he, fun hid ↦
          hcross _ (List.mem_map_of_mem he) _ List.mem_cons_self hid⟩
      · exact ⟨.inr (.inr he), fun hid ↦ hafter (hid ▸ List.mem_map_of_mem he)⟩
    · rintro ⟨he | rfl | he, hid⟩
      · exact .inl he
      · exact absurd rfl hid
      · exact .inr he
  · rw [step_remove_none hmem]
    exact ⟨fun he ↦ ⟨he, fun hid ↦ hmem (hid ▸ List.mem_map_of_mem he)⟩, And.left⟩

end KeyRing

/-! The key store is a list. -/

/-- What is left of the list `items` after a call. -/
def After (items : List Item) (s : Settings) : Call → Prop
  | .add raw =>
    let line := keyNormalize raw
    (keyRejection line = [] → line ∉ items.map Item.line →
      ∃ id, id ∉ items.map Item.id ∧
        s.keys = Tree.ofList (items ++ [⟨id, line, keyLabel line⟩]) ∧ s.error = []) ∧
    (keyRejection line = [] → line ∈ items.map Item.line →
      s.keys = Tree.ofList items ∧ s.error ≠ [] ∧ s.error = alreadyAuthorized) ∧
    (keyRejection line ≠ [] → s.keys = Tree.ofList items ∧ s.error = keyRejection line)
  | .remove id =>
    (∀ before e after, items = before ++ e :: after → e.id = id →
      s.keys = Tree.ofList (before ++ after) ∧ s.error = []) ∧
    (id ∉ items.map Item.id → s.keys = Tree.ofList items ∧ s.error ≠ [] ∧ s.error = noSuchKey)

theorem after_call (hcount : CountsArray count) {own : Bool} {ring : KeyRing} {s : Settings}
    (h : s.keys = Tree.ofList ring.items) (c : Call) :
    After ring.items (runCall count own s c) c := by
  obtain ⟨hkeys, herror⟩ : (runCall count own s c).keys = _ ∧ _ := runCall_ring hcount h c
  cases c with
  | add raw =>
    refine ⟨?_, ?_, ?_⟩
    · intro hgood hnew
      rw [KeyRing.step_accepted ⟨hgood, hnew⟩] at hkeys
      rw [KeyRing.answer, if_neg (not_not.mpr hgood), if_neg hnew] at herror
      exact ⟨_, KeyRing.nextId_fresh _, hkeys, herror⟩
    · intro hgood hmem
      rw [KeyRing.step_rejected fun hacc ↦ hacc.2 hmem] at hkeys
      rw [KeyRing.answer, if_neg (not_not.mpr hgood), if_pos hmem] at herror
      rw [herror]
      exact ⟨hkeys, by decide, rfl⟩
    · intro hbad
      rw [KeyRing.step_rejected fun hacc ↦ hbad hacc.1] at hkeys
      rw [KeyRing.answer, if_pos hbad] at herror
      exact ⟨hkeys, herror⟩
  | remove id =>
    constructor
    · rintro before e after hsplit rfl
      rw [KeyRing.step_remove hsplit] at hkeys
      rw [KeyRing.answer, KeyRing.place_eq hsplit] at herror
      exact ⟨hkeys, herror⟩
    · intro hmem
      rw [KeyRing.step_remove_none hmem] at hkeys
      rw [KeyRing.answer, KeyRing.place_none hmem] at herror
      rw [herror]
      exact ⟨hkeys, by decide, rfl⟩

theorem store_refines_list (hcount : CountsArray count) (own : Bool) (calls : List Call) :
    ∃ items : List Item,
      (runCalls count own calls).keys = Tree.ofList items ∧ (items.map Item.id).Nodup ∧
        (items.map Item.line).Nodup ∧ (∀ e ∈ items, e.label = keyLabel e.line) ∧
          ∀ c, After items (runCalls count own (calls ++ [c])) c := by
  have hkeys : (runCalls count own calls).keys = _ := runCalls_ring hcount calls
  refine ⟨(KeyRing.run calls).items, hkeys, (KeyRing.run calls).ids, (KeyRing.run calls).lines,
    (KeyRing.run calls).labels, fun c ↦ ?_⟩
  rw [runCalls_concat]
  exact after_call hcount hkeys c

theorem store_refines_list_two :
    let calls := [.add (ascii "ssh-ed25519 " ++ List.replicate 68 65), .remove (ascii "1")]
    ∃ items : List Item,
      (runCalls arrayLength true calls).keys = Tree.ofList items ∧ (items.map Item.id).Nodup ∧
        (items.map Item.line).Nodup ∧ (∀ e ∈ items, e.label = keyLabel e.line) ∧
          ∀ c, After items (runCalls arrayLength true (calls ++ [c])) c :=
  store_refines_list countsArray_arrayLength true
    [.add (ascii "ssh-ed25519 " ++ List.replicate 68 65), .remove (ascii "1")]

end Sshd.Keys
