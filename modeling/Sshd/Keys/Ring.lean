import Sshd.Keys.Store
import Mathlib.Data.List.Nodup

namespace Sshd.Keys

open Lib.Octets

/-! What the key store is for: a list of keys, each behind an id of its own. -/

structure KeyRing where
  items : List Item
  ids : (items.map Item.id).Nodup
  lines : (items.map Item.line).Nodup
  labels : ∀ e ∈ items, e.label = keyLabel e.line

namespace KeyRing

def empty : KeyRing := ⟨[], .nil, .nil, by simp⟩

/-- The highest number among the ids, at least `best`. -/
def highest (items : List Item) (best : ℤ) : ℤ :=
  items.foldl (fun best e ↦ if best < atoi e.id then atoi e.id else best) best

theorem highest_spec (items : List Item) (best : ℤ) :
    best ≤ highest items best ∧ ∀ e ∈ items, atoi e.id ≤ highest items best := by
  induction items generalizing best with
  | nil => exact ⟨le_rfl, by simp⟩
  | cons e items ih =>
    obtain ⟨hb, hm⟩ := ih (if best < atoi e.id then atoi e.id else best)
    have hstep : best ≤ (if best < atoi e.id then atoi e.id else best) ∧
        atoi e.id ≤ (if best < atoi e.id then atoi e.id else best) := by
      split <;> omega
    refine ⟨hstep.1.trans hb, fun x hx ↦ ?_⟩
    rcases List.mem_cons.mp hx with rfl | hx
    · exact hstep.2.trans hb
    · exact hm x hx

/-- The id that the next key gets. -/
def nextId (items : List Item) : Bytes := decimal (highest items 0 + 1)

theorem atoi_nextId (items : List Item) : atoi (nextId items) = highest items 0 + 1 := by
  obtain ⟨n, hn⟩ := Int.eq_ofNat_of_zero_le (a := highest items 0 + 1)
    (by have := (highest_spec items 0).1; omega)
  rw [nextId, hn, atoi_decimal]

theorem nextId_fresh (items : List Item) : nextId items ∉ items.map Item.id := by
  intro h
  obtain ⟨e, he, hid⟩ := List.mem_map.mp h
  have hle := (highest_spec items 0).2 e he
  rw [hid, atoi_nextId] at hle
  omega

def newItem (items : List Item) (line : Bytes) : Item :=
  ⟨nextId items, line, keyLabel line⟩

def add (ring : KeyRing) (line : Bytes) (h : line ∉ ring.items.map Item.line) : KeyRing where
  items := ring.items ++ [newItem ring.items line]
  ids := by
    rw [List.map_append]
    exact List.Nodup.append ring.ids (List.nodup_singleton _) (by
      rw [List.map_singleton, List.disjoint_singleton]
      exact nextId_fresh ring.items)
  lines := by
    rw [List.map_append]
    exact List.Nodup.append ring.lines (List.nodup_singleton _) (by
      rw [List.map_singleton, List.disjoint_singleton]
      exact h)
  labels e he := by
    rcases List.mem_append.mp he with he | he
    · exact ring.labels e he
    · rw [List.mem_singleton.mp he]
      rfl

def erase (ring : KeyRing) (i : ℕ) : KeyRing where
  items := ring.items.eraseIdx i
  ids := ring.ids.sublist ((List.eraseIdx_sublist _ _).map _)
  lines := ring.lines.sublist ((List.eraseIdx_sublist _ _).map _)
  labels e he := ring.labels e (List.mem_of_mem_eraseIdx he)

/-- The line is acceptable and not there yet. -/
def Accepts (ring : KeyRing) (raw : Bytes) : Prop :=
  keyRejection (keyNormalize raw) = [] ∧ keyNormalize raw ∉ ring.items.map Item.line

instance (ring : KeyRing) (raw : Bytes) : Decidable (ring.Accepts raw) :=
  inferInstanceAs (Decidable (_ ∧ _))

/-- The place of the key with an id. -/
def place (ring : KeyRing) (id : Bytes) : Option ℕ := ring.items.findIdx? fun e ↦ e.id = id

def step (ring : KeyRing) : Call → KeyRing
  | .add raw => if h : ring.Accepts raw then ring.add (keyNormalize raw) h.2 else ring
  | .remove id => ((ring.place id).map ring.erase).getD ring

/-- The text in `sshd.key.error` after a call. -/
def answer (ring : KeyRing) : Call → Bytes
  | .add raw =>
    if keyRejection (keyNormalize raw) ≠ [] then keyRejection (keyNormalize raw)
    else if keyNormalize raw ∈ ring.items.map Item.line then alreadyAuthorized else []
  | .remove id => if (ring.place id).isSome then [] else noSuchKey

def run (calls : List Call) : KeyRing := calls.foldl step empty

@[simp] theorem run_concat (calls : List Call) (c : Call) :
    run (calls ++ [c]) = (run calls).step c := by
  simp [run]

end KeyRing

/-! The scripts, run on an array without gaps. -/

section
variable (count : Tree → ℕ) (own : Bool)

@[simp] theorem run_pure {α : Type} (a : α) (st : Store) :
    (pure a : Script α).run count own st = (a, st) := rfl

@[simp] theorem run_bind {α β : Type} (x : Script α) (f : α → Script β) (st : Store) :
    (x >>= f).run count own st =
      (f (x.run count own st).1).run count own (x.run count own st).2 := by
  change (x.bind f).run count own st = _
  induction x generalizing st with
  | pure a => rfl
  | arrayCount k ih => exact ih _ st
  | getStr idx field k ih => exact ih _ st
  | write w k ih => exact ih (st.write w)
  | storageBegin k ih => exact ih _
  | storageEnd k ih => exact ih st.commit

@[simp] theorem run_keyCount (st : Store) :
    keyCount.run count own st = (count (st.view own).keys, st) := rfl

@[simp] theorem run_keyField (idx : ℕ) (field : Field) (st : Store) :
    (keyField idx field).run count own st = ((st.view own).keys.read idx field, st) := rfl

@[simp] theorem run_setError (msg : Bytes) (st : Store) :
    (setError msg).run count own st = ((), st.write (.error msg)) := rfl

@[simp] theorem run_storageUnset (idx : ℕ) (st : Store) :
    (storageUnset idx).run count own st = ((), st.write (.unset idx)) := rfl

@[simp] theorem run_keyAck (st : Store) : keyAck.run count own st = ((), st.write .done) := rfl

@[simp] theorem run_storageBegin (st : Store) :
    storageBegin.run count own st = ((), { st with batch := some [] }) := rfl

@[simp] theorem run_storageEnd (st : Store) : storageEnd.run count own st = ((), st.commit) := rfl

/-- The three writes of `keyWrite`. -/
def itemWrites (idx : ℕ) (id line : Bytes) : List Write :=
  [.set idx .id id, .set idx .line line, .set idx .label (keyLabel line)]

@[simp] theorem run_keyWrite (idx : ℕ) (id line : Bytes) (now : Settings) (ws : List Write) :
    (keyWrite idx id line).run count own ⟨now, some ws⟩ =
      ((), ⟨now, some (ws ++ itemWrites idx id line)⟩) := by
  simp only [keyWrite, run_bind, storageSet, Script.run, Store.write, itemWrites,
    List.append_assoc, List.cons_append, List.nil_append]

theorem applyAll_append (s : Settings) (ws vs : List Write) :
    s.applyAll (ws ++ vs) = (s.applyAll ws).applyAll vs := List.foldl_append

theorem applyAll_itemWrites (s : Settings) (idx : ℕ) (id line : Bytes) :
    s.applyAll (itemWrites idx id line) =
      { s with keys := Function.update s.keys idx (some ⟨id, line, keyLabel line⟩) } := by
  simp only [Settings.applyAll, itemWrites, List.foldl_cons, List.foldl_nil, Settings.apply,
    Function.update_idem, Function.update_self, Option.getD_some, Item.set]

theorem read_ofList (items : List Item) (i : ℕ) (field : Field) :
    (Tree.ofList items).read i field = ((items[i]?).getD {}).get field := rfl

variable {own}
variable {items : List Item} {st : Store}

/-- The loop finds the first element with the value. -/
theorem run_keySearch (h : (st.view own).keys = Tree.ofList items) (field : Field) (val : Bytes)
    {left i : ℕ} (hleft : i + left = items.length) :
    (keySearch field val left i).run count own st =
      (((items.drop i).findIdx? fun e ↦ e.get field = val).map (· + i), st) := by
  induction left generalizing i with
  | zero =>
    rw [List.drop_eq_nil_of_le (by omega)]
    rfl
  | succ left ih =>
    have hi : i < items.length := by omega
    have hread : (st.view own).keys.read i field = (items[i]).get field := by
      rw [h, read_ofList, List.getElem?_eq_getElem hi, Option.getD_some]
    rw [keySearch, run_bind, run_keyField]
    simp only [hread, List.drop_eq_getElem_cons hi, List.findIdx?_cons]
    by_cases hv : (items[i]).get field = val
    · simp [hv]
    · simp only [hv, if_false, decide_false, Bool.false_eq_true, ih (i := i + 1) (by omega),
        Option.map_map, Prod.mk.injEq, and_true]
      refine congrArg₂ _ (funext fun k ↦ ?_) rfl
      simp only [Function.comp_apply]
      omega

theorem run_keySearch_all (h : (st.view own).keys = Tree.ofList items) (field : Field)
    (val : Bytes) :
    (keySearch field val items.length 0).run count own st =
      (items.findIdx? fun e ↦ e.get field = val, st) := by
  rw [run_keySearch count h field val (Nat.zero_add _), List.drop_zero]
  simp only [Nat.add_zero, Option.map_id']

theorem run_keyBest (h : (st.view own).keys = Tree.ofList items) {left i : ℕ}
    (hleft : i + left = items.length) (best : ℤ) :
    (keyBest left i best).run count own st = (KeyRing.highest (items.drop i) best, st) := by
  induction left generalizing i best with
  | zero =>
    rw [List.drop_eq_nil_of_le (by omega)]
    rfl
  | succ left ih =>
    have hi : i < items.length := by omega
    have hread : (st.view own).keys.read i .id = (items[i]).id := by
      rw [h, read_ofList, List.getElem?_eq_getElem hi, Option.getD_some]
      rfl
    rw [keyBest, run_bind, run_keyField]
    simp only [hread, List.drop_eq_getElem_cons hi]
    exact ih (by omega) _

variable {count} (hcount : CountsArray count)
include hcount

theorem run_keyNextId (h : (st.view own).keys = Tree.ofList items) :
    keyNextId.run count own st = (KeyRing.nextId items, st) := by
  have hn : count (st.view own).keys = items.length := by rw [h, hcount]
  have hbest := run_keyBest count h (show 0 + items.length = items.length by omega) 0
  rw [keyNextId, run_bind, run_keyCount, run_bind, hn, hbest]
  rfl

theorem run_keyIndexOfId (h : (st.view own).keys = Tree.ofList items) (id : Bytes) :
    (keyIndexOfId id).run count own st = (items.findIdx? fun e ↦ e.id = id, st) := by
  have hn : count (st.view own).keys = items.length := by rw [h, hcount]
  rw [keyIndexOfId, run_bind, run_keyCount, hn]
  exact run_keySearch_all count h .id id

omit hcount

/-! Removal: the elements above the one that goes move down by one. -/

/-- The writes of `keyShift`. -/
def shiftWrites (items : List Item) : ℕ → ℕ → List Write
  | 0, _ => []
  | left + 1, i =>
    itemWrites i ((items[i + 1]?).getD {}).id ((items[i + 1]?).getD {}).line ++
      shiftWrites items left (i + 1)

/-- The loop reads above what it writes, so it does not matter which tree a read
in the transaction sees. -/
theorem run_keyShift {now : Settings} (hnow : now.keys = Tree.ofList items) {left i : ℕ}
    {ws : List Write} (hws : ∀ j, i < j → (now.applyAll ws).keys j = items[j]?) :
    (keyShift left i).run count own ⟨now, some ws⟩ =
      ((), ⟨now, some (ws ++ shiftWrites items left i)⟩) := by
  induction left generalizing i ws with
  | zero =>
    rw [shiftWrites, List.append_nil]
    rfl
  | succ left ih =>
    have hread : ∀ field, ((⟨now, some ws⟩ : Store).view own).keys.read (i + 1) field =
        ((items[i + 1]?).getD {}).get field := by
      intro field
      cases own
      · exact congrArg (fun keys : Tree ↦ keys.read (i + 1) field) hnow
      · exact congrArg (fun item ↦ (Option.getD item {}).get field) (hws (i + 1) (by omega))
    have hnext : ∀ j, i + 1 < j → (now.applyAll (ws ++ itemWrites i
        ((items[i + 1]?).getD {}).id ((items[i + 1]?).getD {}).line)).keys j = items[j]? := by
      intro j hj
      rw [applyAll_append, applyAll_itemWrites]
      exact (Function.update_of_ne (by omega) _ _).trans (hws j (by omega))
    rw [keyShift, run_bind, run_keyField, run_bind, run_keyField, run_bind, hread, hread,
      run_keyWrite]
    simp only [Item.get]
    rw [ih hnext, shiftWrites, List.append_assoc]

theorem applyAll_shiftWrites (hlabels : ∀ e ∈ items, e.label = keyLabel e.line) {left i : ℕ}
    (hleft : i + left < items.length) (s : Settings) :
    s.applyAll (shiftWrites items left i) =
      { s with keys := fun j ↦ if i ≤ j ∧ j < i + left then items[j + 1]? else s.keys j } := by
  induction left generalizing i s with
  | zero =>
    have hkeys : (fun j ↦ if i ≤ j ∧ j < i + 0 then items[j + 1]? else s.keys j) = s.keys :=
      funext fun j ↦ if_neg (by omega)
    rw [hkeys]
    rfl
  | succ left ih =>
    have hi : i + 1 < items.length := by omega
    have hitem : (⟨(items[i + 1]).id, (items[i + 1]).line, keyLabel (items[i + 1]).line⟩ : Item) =
        items[i + 1] := by
      rw [← hlabels _ (List.getElem_mem hi)]
    rw [shiftWrites, applyAll_append, applyAll_itemWrites, ih (by omega),
      List.getElem?_eq_getElem hi, Option.getD_some, hitem, Settings.mk.injEq]
    refine ⟨funext fun j ↦ ?_, rfl, rfl⟩
    dsimp only
    by_cases hj : j = i
    · subst hj
      rw [if_neg (by omega), if_pos (by omega), Function.update_self, List.getElem?_eq_getElem hi]
    · rw [Function.update_of_ne hj]
      exact if_congr (by omega) rfl rfl

theorem ofList_concat (items : List Item) (item : Item) :
    Function.update (Tree.ofList items) items.length (some item) =
      Tree.ofList (items ++ [item]) := by
  funext j
  by_cases hj : j = items.length
  · rw [hj, Function.update_self]
    exact List.getElem?_concat_length.symm
  · rw [Function.update_of_ne hj]
    simp only [Tree.ofList, List.getElem?_append, List.getElem?_singleton]
    split
    · rfl
    · rw [if_neg (by omega), List.getElem?_eq_none (by omega)]

theorem ofList_eraseIdx {i : ℕ} (hi : i < items.length) :
    Function.update
        (fun j ↦ if i ≤ j ∧ j < i + (items.length - 1 - i) then items[j + 1]? else items[j]?)
        (items.length - 1) none =
      Tree.ofList (items.eraseIdx i) := by
  funext j
  rw [Tree.ofList, List.getElem?_eraseIdx]
  by_cases hj : j = items.length - 1
  · rw [hj, Function.update_self, if_neg (by omega), List.getElem?_eq_none (by omega)]
  · rw [Function.update_of_ne hj]
    by_cases hlt : j < i
    · rw [if_neg (by omega), if_pos hlt]
    · rw [if_neg hlt]
      split
      · rfl
      · rw [List.getElem?_eq_none (by omega), List.getElem?_eq_none (by omega)]

/-! What a call does. -/

variable {ring : KeyRing} {s : Settings}
include hcount

/-- What an addition does to any array without gaps. -/
theorem runCall_addItem (h : s.keys = Tree.ofList items) (raw : Bytes) :
    runCall count own s (.add raw) =
      if keyRejection (keyNormalize raw) ≠ [] then
        { s with error := keyRejection (keyNormalize raw) }
      else if keyNormalize raw ∈ items.map Item.line then { s with error := alreadyAuthorized }
      else
        ⟨Tree.ofList (items ++ [KeyRing.newItem items (keyNormalize raw)]), [], s.done + 1⟩ := by
  have hview : ((⟨s, none⟩ : Store).view own).keys = Tree.ofList items := by
    cases own <;> exact h
  have hbegun : ((⟨s, some []⟩ : Store).view own).keys = Tree.ofList items := by
    cases own <;> exact h
  rw [runCall, Call.script, keyAdd]
  by_cases hwhy : keyRejection (keyNormalize raw) = []
  · have hn : count ((⟨s, none⟩ : Store).view own).keys = items.length := by rw [hview, hcount]
    have hsearch : (keySearch .line (keyNormalize raw) items.length 0).run count own ⟨s, none⟩ =
        (items.findIdx? fun e ↦ e.line = keyNormalize raw, ⟨s, none⟩) :=
      run_keySearch_all count hview .line (keyNormalize raw)
    rw [if_neg (not_not.mpr hwhy), if_neg (not_not.mpr hwhy), run_bind, run_keyCount, hn, run_bind,
      hsearch]
    by_cases hmem : keyNormalize raw ∈ items.map Item.line
    · obtain ⟨k, hk⟩ : ∃ k, items.findIdx? (fun e ↦ e.line = keyNormalize raw) = some k := by
        rw [← Option.isSome_iff_exists, List.findIdx?_isSome, List.any_eq_true]
        obtain ⟨e, he, hl⟩ := List.mem_map.mp hmem
        exact ⟨e, he, decide_eq_true hl⟩
      rw [if_pos hmem, hk]
      rfl
    · have hk : items.findIdx? (fun e ↦ e.line = keyNormalize raw) = none := by
        rw [List.findIdx?_eq_none_iff]
        intro e he
        exact decide_eq_false fun hl ↦ hmem (List.mem_map.mpr ⟨e, he, hl⟩)
      rw [if_neg hmem, hk]
      have hid := run_keyNextId hcount hbegun
      simp only [run_bind, run_storageBegin, hid, run_keyWrite, run_setError, run_storageEnd,
        run_keyAck, Store.write, Store.commit, List.nil_append, Option.getD_some, applyAll_append,
        applyAll_itemWrites, h, ofList_concat]
      rfl
  · rw [if_pos hwhy, if_pos hwhy]
    rfl

theorem runCall_add (h : s.keys = Tree.ofList ring.items) (raw : Bytes) :
    runCall count own s (.add raw) =
      ⟨Tree.ofList (ring.step (.add raw)).items, ring.answer (.add raw),
        if ring.Accepts raw then s.done + 1 else s.done⟩ := by
  rw [runCall_addItem hcount h, KeyRing.step, KeyRing.answer]
  by_cases hwhy : keyRejection (keyNormalize raw) = []
  · rw [if_neg (not_not.mpr hwhy), if_neg (not_not.mpr hwhy)]
    by_cases hmem : keyNormalize raw ∈ ring.items.map Item.line
    · have hno : ¬ring.Accepts raw := fun ha ↦ ha.2 hmem
      rw [dif_neg hno, if_neg hno, if_pos hmem, if_pos hmem, ← h]
    · have hyes : ring.Accepts raw := ⟨hwhy, hmem⟩
      rw [dif_pos hyes, if_pos hyes, if_neg hmem, if_neg hmem]
      rfl
  · have hno : ¬ring.Accepts raw := fun ha ↦ hwhy ha.1
    rw [if_pos hwhy, if_pos hwhy, dif_neg hno, if_neg hno, ← h]

theorem runCall_remove (h : s.keys = Tree.ofList ring.items) (id : Bytes) :
    runCall count own s (.remove id) =
      ⟨Tree.ofList (ring.step (.remove id)).items, ring.answer (.remove id),
        if (ring.place id).isSome then s.done + 1 else s.done⟩ := by
  have hview : ((⟨s, none⟩ : Store).view own).keys = Tree.ofList ring.items := by
    cases own <;> exact h
  have hn : count ((⟨s, none⟩ : Store).view own).keys = ring.items.length := by rw [hview, hcount]
  have hindex : (keyIndexOfId id).run count own ⟨s, none⟩ = (ring.place id, ⟨s, none⟩) :=
    run_keyIndexOfId hcount hview id
  rw [runCall, Call.script, keyRemove, run_bind, hindex, run_bind, run_keyCount, hn, KeyRing.step,
    KeyRing.answer]
  cases hp : ring.place id with
  | none =>
    rw [Option.map_none, Option.getD_none, ← h]
    rfl
  | some i =>
    have hi : i < ring.items.length := (List.findIdx?_eq_some_iff_getElem.mp hp).1
    have hshift : (keyShift (ring.items.length - 1 - i) i).run count own ⟨s, some []⟩ =
        ((), ⟨s, some ([] ++ shiftWrites ring.items (ring.items.length - 1 - i) i)⟩) :=
      run_keyShift h fun j _ ↦ congrFun h j
    have hpos : 0 < ring.items.length := by omega
    rw [run_bind, run_storageBegin, run_bind, hshift, if_pos hpos]
    simp only [run_bind, run_storageUnset, run_setError, run_storageEnd, run_keyAck, Store.write,
      Store.commit, List.nil_append, Option.getD_some, applyAll_append]
    rw [applyAll_shiftWrites ring.labels (by omega)]
    simp only [Settings.applyAll, List.foldl_cons, List.foldl_nil, Settings.apply, h]
    rw [show Tree.ofList ring.items = fun j ↦ ring.items[j]? from rfl, ofList_eraseIdx hi]
    rfl

theorem runCall_ring (h : s.keys = Tree.ofList ring.items) (c : Call) :
    (runCall count own s c).keys = Tree.ofList (ring.step c).items ∧
      (runCall count own s c).error = ring.answer c := by
  cases c with
  | add raw =>
    rw [runCall_add hcount h raw]
    exact ⟨rfl, rfl⟩
  | remove id =>
    rw [runCall_remove hcount h id]
    exact ⟨rfl, rfl⟩

omit hcount in
theorem runCalls_concat (calls : List Call) (c : Call) :
    runCalls count own (calls ++ [c]) = runCall count own (runCalls count own calls) c := by
  rw [runCalls, List.foldl_append]
  rfl

/-- The array holds the list of keys after any sequence of calls. -/
theorem runCalls_ring (calls : List Call) :
    (runCalls count own calls).keys = Tree.ofList (KeyRing.run calls).items := by
  induction calls using List.reverseRecOn with
  | nil => rfl
  | append_singleton calls c ih =>
    rw [runCalls_concat, KeyRing.run_concat]
    exact (runCall_ring hcount ih c).1

end

end Sshd.Keys
