import Sshd.Lib.Serial
import Sshd.Keys.History

namespace Sshd.Keys

open Lib.Octets Lib.Serial

/-! Two callers at once: the command line and the sentinel of the settings. -/

inductive Caller
  | cli
  | sentinel
  deriving DecidableEq

/-- A script as a transaction on the array, `ws` being the writes so far of the
storage transaction that is open. Each read sees the committed array;
`storageEnd` changes it at once. The array is written nowhere else: what comes
after `storageEnd`, and a rejection, go to other settings, which no call reads. -/
def Script.txn (count : Tree → ℕ) : List Write → Script Unit → Txn Tree
  | _, .pure _ => .stop
  | ws, .arrayCount k => .look fun keys ↦ (k (count keys)).txn count ws
  | ws, .getStr idx field k => .look fun keys ↦ (k (keys.read idx field)).txn count ws
  | ws, .write w k => k.txn count (ws ++ [w])
  | _, .storageBegin k => k.txn count []
  | ws, .storageEnd _ => .commit fun keys ↦ ((⟨keys, [], 0⟩ : Settings).applyAll ws).keys

def Call.txn (count : Tree → ℕ) (c : Call) : Txn Tree := c.script.txn count []

/-- The callers, each with its sequence of calls, and no key stored. -/
def callers (todo : Caller → List Call) : System Caller Tree Call := start noKeys.keys todo

/-! The transaction on the array is the script. -/

/-- A write that is not to the array. -/
def Write.OffArray : Write → Prop
  | .set .. => False
  | .unset _ => False
  | .error _ => True
  | .done => True

/-- Reads and writes, inside a storage transaction or, off the array, outside. -/
def Script.Within {α : Type} (inside : Bool) : Script α → Prop
  | .pure _ => True
  | .arrayCount k => ∀ n, (k n).Within inside
  | .getStr _ _ k => ∀ v, (k v).Within inside
  | .write w k => (inside = true ∨ w.OffArray) ∧ k.Within inside
  | .storageBegin _ => False
  | .storageEnd _ => False

/-- At most one storage transaction, and all writes to the array inside it. -/
def Script.Guarded {α : Type} : Bool → Script α → Prop
  | _, .pure _ => True
  | inside, .arrayCount k => ∀ n, (k n).Guarded inside
  | inside, .getStr _ _ k => ∀ v, (k v).Guarded inside
  | inside, .write w k => (inside = true ∨ w.OffArray) ∧ k.Guarded inside
  | inside, .storageBegin k => inside = false ∧ k.Guarded true
  | inside, .storageEnd k => inside = true ∧ k.Within false

section
variable {α β : Type} {inside : Bool}

theorem Script.Within.bind {x : Script α} {f : α → Script β} (hx : x.Within inside)
    (hf : ∀ a, (f a).Within inside) : (x >>= f).Within inside := by
  change (x.bind f).Within inside
  induction x with
  | pure a => exact hf a
  | arrayCount k ih => exact fun n ↦ ih n (hx n)
  | getStr idx field k ih => exact fun v ↦ ih v (hx v)
  | write w k ih => exact ⟨hx.1, ih hx.2⟩
  | storageBegin k => exact hx.elim
  | storageEnd k => exact hx.elim

theorem Script.Guarded.bind {x : Script α} {f : α → Script β} (hx : x.Within inside)
    (hf : ∀ a, (f a).Guarded inside) : (x >>= f).Guarded inside := by
  change (x.bind f).Guarded inside
  induction x with
  | pure a => exact hf a
  | arrayCount k ih => exact fun n ↦ ih n (hx n)
  | getStr idx field k ih => exact fun v ↦ ih v (hx v)
  | write w k ih => exact ⟨hx.1, ih hx.2⟩
  | storageBegin k => exact hx.elim
  | storageEnd k => exact hx.elim

theorem keyField_within (idx : ℕ) (field : Field) : (keyField idx field).Within inside :=
  fun _ ↦ trivial

theorem keyCount_within : keyCount.Within inside := fun _ ↦ trivial

theorem setError_within (msg : Bytes) : (setError msg).Within inside := ⟨.inr trivial, trivial⟩

theorem keyAck_within : keyAck.Within inside := ⟨.inr trivial, trivial⟩

theorem keyWrite_within (idx : ℕ) (id line : Bytes) : (keyWrite idx id line).Within true :=
  ⟨.inl rfl, .inl rfl, .inl rfl, trivial⟩

theorem keySearch_within (field : Field) (val : Bytes) (left i : ℕ) :
    (keySearch field val left i).Within inside := by
  induction left generalizing i with
  | zero => trivial
  | succ left ih =>
    apply (keyField_within i field).bind
    intro v
    split
    · trivial
    · exact ih (i + 1)

theorem keyBest_within (left i : ℕ) (best : ℤ) : (keyBest left i best).Within inside := by
  induction left generalizing i best with
  | zero => trivial
  | succ left ih => exact (keyField_within i .id).bind fun id ↦ ih (i + 1) _

theorem keyNextId_within : keyNextId.Within inside :=
  keyCount_within.bind fun n ↦ (keyBest_within n 0 0).bind fun _ ↦ trivial

theorem keyShift_within (left i : ℕ) : (keyShift left i).Within true := by
  induction left generalizing i with
  | zero => trivial
  | succ left ih =>
    apply (keyField_within (i + 1) .id).bind
    intro id
    apply (keyField_within (i + 1) .line).bind
    intro line
    exact (keyWrite_within i id line).bind fun _ ↦ ih (i + 1)

theorem guarded_within {x : Script α} (hx : x.Within inside) : x.Guarded inside := by
  induction x with
  | pure a => trivial
  | arrayCount k ih => exact fun n ↦ ih n (hx n)
  | getStr idx field k ih => exact fun v ↦ ih v (hx v)
  | write w k ih => exact ⟨hx.1, ih hx.2⟩
  | storageBegin k => exact hx.elim
  | storageEnd k => exact hx.elim

theorem ending_guarded : (do setError []; storageEnd; keyAck : Script Unit).Guarded true :=
  .bind (setError_within []) fun _ ↦ ⟨rfl, keyAck_within⟩

theorem keyAdd_guarded (raw : Bytes) : (keyAdd raw).Guarded false := by
  rw [keyAdd]
  split
  · exact guarded_within (setError_within _)
  apply Script.Guarded.bind keyCount_within
  intro n
  apply Script.Guarded.bind (keySearch_within _ _ n 0)
  intro found
  cases found with
  | some i => exact guarded_within (setError_within _)
  | none =>
    refine ⟨rfl, ?_⟩
    apply Script.Guarded.bind keyNextId_within
    intro id
    exact .bind (keyWrite_within n id _) fun _ ↦ ending_guarded

theorem keyRemove_guarded (id : Bytes) : (keyRemove id).Guarded false := by
  rw [keyRemove]
  apply Script.Guarded.bind (keyCount_within.bind fun n ↦ keySearch_within _ _ n 0)
  intro found
  apply Script.Guarded.bind keyCount_within
  intro n
  cases found with
  | none => exact guarded_within (setError_within _)
  | some idx =>
    refine ⟨rfl, ?_⟩
    apply Script.Guarded.bind (keyShift_within _ idx)
    intro _
    split
    · exact .bind ⟨.inl rfl, trivial⟩ fun _ ↦ ending_guarded
    · exact ending_guarded

end

variable {count : Tree → ℕ}

theorem apply_offArray {w : Write} (h : w.OffArray) (s : Settings) : (s.apply w).keys = s.keys := by
  cases w with
  | set => exact h.elim
  | unset => exact h.elim
  | error => rfl
  | done => rfl

theorem apply_keys {s t : Settings} (h : s.keys = t.keys) (w : Write) :
    (s.apply w).keys = (t.apply w).keys := by
  cases w with
  | set => simp only [Settings.apply, h]
  | unset => simp only [Settings.apply, h]
  | error => exact h
  | done => exact h

theorem applyAll_keys {s t : Settings} (h : s.keys = t.keys) (ws : List Write) :
    (s.applyAll ws).keys = (t.applyAll ws).keys := by
  induction ws generalizing s t with
  | nil => exact h
  | cons w ws ih => exact ih (apply_keys h w)

theorem run_within {α : Type} {x : Script α} (hx : x.Within false) (now : Settings) :
    (x.run count false ⟨now, none⟩).2.now.keys = now.keys := by
  induction x generalizing now with
  | pure a => rfl
  | arrayCount k ih => exact ih _ (hx _) now
  | getStr idx field k ih => exact ih _ (hx _) now
  | write w k ih =>
    have hw : w.OffArray := by simpa using hx.1
    exact (ih hx.2 (now.apply w)).trans (apply_offArray hw now)
  | storageBegin k => exact hx.elim
  | storageEnd k => exact hx.elim

theorem txn_alone {x : Script Unit} {inside : Bool} (hx : x.Guarded inside) (now : Settings)
    (ws : List Write) :
    (x.txn count ws).alone now.keys =
      (x.run count false ⟨now, if inside then some ws else none⟩).2.now.keys := by
  induction x generalizing inside now ws with
  | pure a => rfl
  | arrayCount k ih => exact ih _ (hx _) now ws
  | getStr idx field k ih => exact ih _ (hx _) now ws
  | write w k ih =>
    cases inside with
    | true => exact ih hx.2 now (ws ++ [w])
    | false =>
      have hw : w.OffArray := by simpa using hx.1
      have hk := ih hx.2 (now.apply w) (ws ++ [w])
      rw [apply_offArray hw] at hk
      exact hk
  | storageBegin k ih =>
    obtain ⟨rfl, hk⟩ := hx
    exact ih hk now []
  | storageEnd k =>
    obtain ⟨rfl, hk⟩ := hx
    have hrun : (k.run count false ⟨now.applyAll ws, none⟩).2.now.keys = _ :=
      run_within hk (now.applyAll ws)
    have htxn : (Script.txn count ws (.storageEnd k)).alone now.keys = (now.applyAll ws).keys :=
      applyAll_keys (s := ⟨now.keys, [], 0⟩) (t := now) rfl ws
    exact htxn.trans hrun.symm

theorem call_alone (c : Call) (s : Settings) :
    (c.txn count).alone s.keys = (runCall count false s c).keys := by
  cases c with
  | add raw => exact txn_alone (keyAdd_guarded raw) s []
  | remove id => exact txn_alone (keyRemove_guarded id) s []

theorem calls_alone (calls : List Call) :
    calls.foldl (fun keys c ↦ (c.txn count).alone keys) noKeys.keys =
      (runCalls count false calls).keys := by
  induction calls using List.reverseRecOn with
  | nil => rfl
  | append_singleton calls c ih =>
    rw [List.foldl_append, ih, runCalls_concat]
    exact call_alone c _

/-- Where no `storageEnd` of one caller falls between the first read of a call of
the other and its end, the calls do what they do one after another. -/
theorem edits_serial (hcount : CountsArray count) (todo : Caller → List Call)
    {schedule : List Caller} (hclear : Clear (Call.txn count) (callers todo) schedule) :
    let w := run (Call.txn count) (callers todo) schedule
    (∀ i, (w.party i).calls = todo i) ∧
      ∃ order : List (Caller × Call),
        (∀ i, (order.filter (·.1 = i)).map Prod.snd = (w.party i).finished) ∧
          w.shared = (runCalls count false (order.map Prod.snd)).keys ∧
            ∃ items, w.shared = Tree.ofList items ∧ (items.map Item.id).Nodup := by
  intro w
  refine ⟨fun i ↦ run_calls (callers todo) schedule i, ?_⟩
  obtain ⟨order, hshared, hfinished⟩ := run_serial noKeys.keys todo hclear
  have hkeys : w.shared = (runCalls count false (order.map Prod.snd)).keys := by
    rw [← calls_alone, List.foldl_map]
    exact hshared
  exact ⟨order, hfinished, hkeys, _, hkeys.trans (runCalls_ring hcount _), (KeyRing.run _).ids⟩

/-- The sentinel is refused a removal while the command line adds a key. -/
theorem refused_inside_add (hcount : CountsArray count) (raw id : Bytes) (later : List Call)
    (h : keyRejection (keyNormalize raw) = []) :
    let w := callers fun i ↦ if i = .cli then [.add raw] else .remove id :: later
    let schedule : List Caller := [.cli, .sentinel, .sentinel, .cli, .cli]
    Clear (Call.txn count) w schedule ∧
      ∀ j, j ≠ .sentinel → ((run (Call.txn count) w schedule).party j).current = none := by
  have hnone : count (Tree.ofList []) = 0 := hcount []
  have hempty : noKeys.keys = Tree.ofList [] := rfl
  simp only [Clear, Undisturbed, run, callers, start, List.foldl_cons, List.foldl_nil, step,
    Party.next, Call.txn, Call.script, keyAdd, keyRemove, keyIndexOfId, h, ne_eq, not_true_eq_false,
    if_false, if_true, bind, Script.bind, keyCount, Script.txn, hnone, hempty, keySearch, pure,
    storageBegin, keyNextId, keyBest, Party.proceed, Function.update_self, reduceCtorEq,
    not_false_eq_true, Function.update_of_ne, keyWrite, storageSet, setError, storageEnd, Party.leave,
    Option.some.injEq, Prod.mk.injEq, and_false, false_and, IsEmpty.forall_iff, implies_true,
    true_and]
  -- the last access of the command line is the only change
  refine ⟨⟨fun _ _ _ _ j hj ↦ ?_, trivial⟩, fun j hj ↦ ?_⟩
  · cases j
    · exact absurd rfl hj
    · rfl
  · cases j
    · rfl
    · exact absurd rfl hj

theorem edits_serial_both :
    let key (b : UInt8) := ascii "ssh-ed25519 " ++ List.replicate 64 b
    let todo (i : Caller) : List Call :=
      if i = .cli then [.add (key 65)] else [.remove (ascii "9"), .add (key 66)]
    let w := run (Call.txn arrayLength) (callers todo)
      ([.cli, .sentinel, .sentinel, .cli, .cli] ++ List.replicate 5 .sentinel)
    (∀ i, (w.party i).calls = todo i) ∧
      ∃ order : List (Caller × Call),
        (∀ i, (order.filter (·.1 = i)).map Prod.snd = (w.party i).finished) ∧
          w.shared = (runCalls arrayLength false (order.map Prod.snd)).keys ∧
            ∃ items, w.shared = Tree.ofList items ∧ (items.map Item.id).Nodup := by
  intro key todo
  obtain ⟨hclear, hrest⟩ := refused_inside_add countsArray_arrayLength (key 65) (ascii "9")
    [.add (key 66)] (by decide)
  exact edits_serial countsArray_arrayLength todo (clear_append hclear (clear_replicate hrest 5))

/-! Two additions that read the same array. -/

theorem two_adds (hcount : CountsArray count) {raw : Caller → Bytes}
    (h : ∀ i, keyRejection (keyNormalize (raw i)) = []) :
    let w := run (Call.txn count) (callers fun i ↦ [.add (raw i)])
      [.cli, .sentinel, .cli, .sentinel, .cli, .sentinel]
    (∀ i, (w.party i).finished = [.add (raw i)]) ∧ w.shared 1 = none := by
  have hnone : count (Tree.ofList []) = 0 := hcount []
  have hempty : noKeys.keys = Tree.ofList [] := rfl
  intro w
  simp only [run, callers, start, List.foldl_cons, List.foldl_nil, step, Party.next, Call.txn,
    Call.script, keyAdd, h, ne_eq, not_true_eq_false, if_false, bind, Script.bind, keyCount,
    Script.txn, hnone, hempty, keySearch, pure, storageBegin, keyNextId, keyBest, Party.proceed,
    Function.update_self, reduceCtorEq, not_false_eq_true, Function.update_of_ne, keyWrite,
    storageSet, setError, storageEnd, Party.leave, w]
  refine ⟨fun i ↦ ?_, rfl⟩
  cases i
  · rfl
  · rfl

theorem order_of_two {order : List (Caller × Call)} {call : Caller → Call}
    (h : ∀ i, (order.filter (·.1 = i)).map Prod.snd = [call i]) :
    order.map Prod.snd = [call .cli, call .sentinel] ∨
      order.map Prod.snd = [call .sentinel, call .cli] := by
  have hlen : order.length =
      (order.filter (·.1 = .cli)).length + (order.filter (·.1 = .sentinel)).length := by
    clear h
    induction order with
    | nil => rfl
    | cons x order ih =>
      obtain ⟨i, c⟩ := x
      cases i
      · simp [ih]
        omega
      · simp [ih]
        omega
  have hone : ∀ i, (order.filter (·.1 = i)).length = 1 := fun i ↦ by
    rw [← List.length_map (f := Prod.snd), h i, List.length_singleton]
  rw [hone, hone] at hlen
  obtain ⟨⟨i, c⟩, ⟨j, d⟩, rfl⟩ := List.length_eq_two.mp hlen
  have hcli := h .cli
  have hsen := h .sentinel
  cases i
  · cases j
    · simp at hcli
    · left
      simp at hcli hsen
      rw [← hcli, ← hsen]
      rfl
  · cases j
    · right
      simp at hcli hsen
      rw [← hcli, ← hsen]
      rfl
    · simp at hsen

theorem run_two_adds {a b : Bytes} (ha : keyRejection (keyNormalize a) = [])
    (hb : keyRejection (keyNormalize b) = []) (hne : keyNormalize b ≠ keyNormalize a) :
    (KeyRing.run [.add a, .add b]).items.length = 2 := by
  have hfirst : KeyRing.empty.Accepts a := ⟨ha, List.not_mem_nil⟩
  have hitems := KeyRing.step_accepted hfirst
  have hsecond : (KeyRing.empty.step (.add a)).Accepts b := by
    refine ⟨hb, ?_⟩
    rw [hitems]
    exact fun hmem ↦ hne (List.mem_singleton.mp hmem)
  change ((KeyRing.empty.step (.add a)).step (.add b)).items.length = 2
  rw [KeyRing.step_accepted hsecond, List.length_append, hitems]
  rfl

/-- The key of the caller that is first to write is gone. -/
theorem two_adds_lost (hcount : CountsArray count) {raw : Caller → Bytes}
    (h : ∀ i, keyRejection (keyNormalize (raw i)) = [])
    (hne : keyNormalize (raw .sentinel) ≠ keyNormalize (raw .cli)) :
    let w := run (Call.txn count) (callers fun i ↦ [.add (raw i)])
      [.cli, .sentinel, .cli, .sentinel, .cli, .sentinel]
    (∀ i, (w.party i).finished = [.add (raw i)]) ∧
      ¬∃ order : List (Caller × Call),
        (∀ i, (order.filter (·.1 = i)).map Prod.snd = [.add (raw i)]) ∧
          w.shared = (runCalls count false (order.map Prod.snd)).keys := by
  intro w
  obtain ⟨hfinished, hlast⟩ := two_adds hcount h
  refine ⟨hfinished, ?_⟩
  rintro ⟨order, horder, hkeys⟩
  rw [hkeys, runCalls_ring hcount] at hlast
  have hnone : (KeyRing.run (order.map Prod.snd)).items[1]? = none := hlast
  rw [List.getElem?_eq_none_iff] at hnone
  have hlen : (KeyRing.run (order.map Prod.snd)).items.length = 2 := by
    rcases order_of_two horder with ho | ho
    · rw [ho]
      exact run_two_adds (h _) (h _) hne
    · rw [ho]
      exact run_two_adds (h _) (h _) hne.symm
  omega

theorem concurrent_add_lost :
    let raw (i : Caller) := ascii "ssh-ed25519 " ++ List.replicate 64 (if i = .cli then 65 else 66)
    let w := run (Call.txn arrayLength) (callers fun i ↦ [.add (raw i)])
      [.cli, .sentinel, .cli, .sentinel, .cli, .sentinel]
    (∀ i, (w.party i).finished = [.add (raw i)]) ∧
      ¬∃ order : List (Caller × Call),
        (∀ i, (order.filter (·.1 = i)).map Prod.snd = [.add (raw i)]) ∧
          w.shared = (runCalls arrayLength false (order.map Prod.snd)).keys := by
  intro raw
  apply two_adds_lost countsArray_arrayLength
  · intro i
    cases i
    · decide
    · decide
  · decide

end Sshd.Keys
