import Sshd.Keys.Authorize

namespace Sshd.Keys

open Lib.Octets Crypto Server

/-! The move from the old shape, an array of bare key lines, to an array of
elements with fields. -/

/-- What stands under an index: a text, or fields. -/
inductive Node
  | text (val : Bytes)
  | fields (item : Item)

abbrev Nodes := ℕ → Option Node

/-- A text that is not set, or is none, reads as empty. -/
def Nodes.flat (t : Nodes) (idx : ℕ) : Bytes :=
  match t idx with
  | some (.text val) => val
  | _ => []

/-- The fields under an index; a text has none. -/
def Nodes.item (t : Nodes) (idx : ℕ) : Item :=
  match t idx with
  | some (.fields item) => item
  | _ => {}

def Nodes.ofTexts (lines : List Bytes) : Nodes := fun i ↦ lines[i]?.map .text

def Nodes.ofItems (items : List Item) : Nodes := fun i ↦ items[i]?.map .fields

/-- What is known of `storageArrayCount`: it counts an array without gaps,
whatever its elements are. -/
def CountsNodes (count : Nodes → ℕ) : Prop :=
  ∀ nodes : List Node, count (fun i ↦ nodes[i]?) = nodes.length

/-- The operations of `keyMigrate` that change the store. -/
inductive Op
  | storageBegin
  | storageDeleteTree
  | storageSet (idx : ℕ) (field : Field) (val : Bytes)
  | storageEnd
  deriving DecidableEq

def Nodes.apply (t : Nodes) : Op → Nodes
  | .storageDeleteTree => fun _ ↦ none
  | .storageSet idx field val =>
    Function.update t idx (some (.fields ((t.item idx).set field val)))
  | _ => t

/-- The committed nodes, and the writes of the open transaction. -/
structure Vault where
  now : Nodes
  batch : Option (List Op) := none

def Vault.step (v : Vault) : Op → Vault
  | .storageBegin => { v with batch := some [] }
  | .storageEnd => { now := (v.batch.getD []).foldl Nodes.apply v.now }
  | op =>
    match v.batch with
    | none => { v with now := v.now.apply op }
    | some ops => { v with batch := some (ops ++ [op]) }

def Vault.run (v : Vault) (ops : List Op) : Vault := ops.foldl Vault.step v

variable (count : Nodes → ℕ)

/-- The loop that collects the lines and leaves at an empty one. -/
def flatLines (t : Nodes) : ℕ → ℕ → List Bytes → Option (List Bytes)
  | 0, _, lines => some lines
  | left + 1, i, lines =>
    let flat := t.flat i
    if flat = [] then none else flatLines t left (i + 1) (lines ++ [flat])

def writeItem (idx : ℕ) (id line : Bytes) : List Op :=
  [.storageSet idx .id id, .storageSet idx .line line, .storageSet idx .label (keyLabel line)]

/-- The loop that writes the elements. -/
def writeLines : ℕ → List Bytes → List Op
  | _, [] => []
  | i, line :: lines => writeItem i (decimal (i + 1)) line ++ writeLines (i + 1) lines

def keyMigrate (t : Nodes) : List Op :=
  let n := count t
  if n = 0 then [] else
  match flatLines t n 0 [] with
  | none => []
  | some lines =>
    [.storageBegin, .storageDeleteTree] ++ writeLines 0 lines ++ [.storageEnd]

/-- The store after `keyMigrate`. -/
def migrated (t : Nodes) : Nodes := (Vault.run { now := t } (keyMigrate count t)).now

/-- The lines that the server reads. -/
def storedLines (t : Nodes) : List Bytes := (List.range (count t)).map fun i ↦ (t.item i).line

/-- The move of an array of texts keeps the keys in their order, each behind an
id of its own, and all who had access; there is no state in between, and
nothing is moved twice. -/
structure PreservesAccess (P : Primitives) (olds : List Bytes) : Prop where
  shape : ∃ items, migrated count (.ofTexts olds) = .ofItems items ∧
    items.map Item.line = olds.filter (· ≠ []) ∧ (items.map Item.id).Nodup
  access : ∀ pub, authorizedPubMatches P (storedLines count (migrated count (.ofTexts olds))) pub =
    true ↔ ∃ line ∈ olds, lineKey P line = some pub
  again : keyMigrate count (migrated count (.ofTexts olds)) = []
  settled : ∀ items, keyMigrate count (.ofItems items) = []
  whole : ∀ ops, ops <+: keyMigrate count (.ofTexts olds) →
    (Vault.run { now := .ofTexts olds } ops).now = .ofTexts olds ∨
      (Vault.run { now := .ofTexts olds } ops).now = migrated count (.ofTexts olds)

/-! Reading the old lines. -/

theorem ofTexts_getElem (olds : List Bytes) :
    Nodes.ofTexts olds = fun i ↦ (olds.map Node.text)[i]? := by
  funext i
  rw [Nodes.ofTexts, List.getElem?_map]

theorem ofItems_getElem (items : List Item) :
    Nodes.ofItems items = fun i ↦ (items.map Node.fields)[i]? := by
  funext i
  rw [Nodes.ofItems, List.getElem?_map]

theorem flat_ofTexts (olds : List Bytes) (i : ℕ) :
    (Nodes.ofTexts olds).flat i = (olds[i]?).getD [] := by
  rw [Nodes.flat, Nodes.ofTexts]
  cases olds[i]? <;> rfl

theorem flat_ofItems (items : List Item) (i : ℕ) : (Nodes.ofItems items).flat i = [] := by
  rw [Nodes.flat, Nodes.ofItems]
  cases items[i]? <;> rfl

theorem item_ofItems (items : List Item) (i : ℕ) :
    (Nodes.ofItems items).item i = (items[i]?).getD {} := by
  rw [Nodes.item, Nodes.ofItems]
  cases items[i]? <;> rfl

/-- The loop gets through if no line is empty. -/
theorem flatLines_ofTexts (olds : List Bytes) {left i : ℕ} (hleft : i + left = olds.length)
    (lines : List Bytes) :
    flatLines (.ofTexts olds) left i lines =
      if [] ∈ olds.drop i then none else some (lines ++ olds.drop i) := by
  induction left generalizing i lines with
  | zero =>
    have hdrop : olds.drop i = [] := List.drop_eq_nil_of_le (by omega)
    rw [hdrop, flatLines, if_neg List.not_mem_nil, List.append_nil]
  | succ left ih =>
    have hi : i < olds.length := by omega
    rw [flatLines, flat_ofTexts, List.getElem?_eq_getElem hi, Option.getD_some,
      List.drop_eq_getElem_cons hi]
    by_cases hempty : olds[i] = []
    · simp [hempty]
    · simp only [hempty, if_false, ih (i := i + 1) (by omega), List.mem_cons, Ne.symm hempty, false_or,
        List.append_assoc, List.singleton_append]

/-! Writing the new elements. -/

def newItems : ℕ → List Bytes → List Item
  | _, [] => []
  | i, line :: lines => ⟨decimal (i + 1), line, keyLabel line⟩ :: newItems (i + 1) lines

theorem newItems_line (i : ℕ) (lines : List Bytes) : (newItems i lines).map Item.line = lines := by
  induction lines generalizing i with
  | nil => rfl
  | cons line lines ih => rw [newItems, List.map_cons, ih]

theorem newItems_id (i : ℕ) (lines : List Bytes) :
    ∀ e ∈ newItems i lines, ∃ k : ℕ, i < k ∧ e.id = decimal k := by
  induction lines generalizing i with
  | nil => exact fun e he ↦ absurd he List.not_mem_nil
  | cons line lines ih =>
    intro e he
    rcases List.mem_cons.mp he with rfl | he
    · exact ⟨i + 1, Nat.lt_succ_self i, rfl⟩
    · obtain ⟨k, hk, hid⟩ := ih (i + 1) e he
      exact ⟨k, by omega, hid⟩

theorem newItems_nodup (i : ℕ) (lines : List Bytes) : ((newItems i lines).map Item.id).Nodup := by
  induction lines generalizing i with
  | nil => exact .nil
  | cons line lines ih =>
    rw [newItems, List.map_cons, List.nodup_cons]
    refine ⟨fun hmem ↦ ?_, ih (i + 1)⟩
    obtain ⟨e, he, hid⟩ := List.mem_map.mp hmem
    obtain ⟨k, hk, hk'⟩ := newItems_id (i + 1) lines e he
    have hnum := congrArg atoi (hk'.symm.trans hid)
    have hfirst : atoi (decimal ((i : ℤ) + 1)) = (i : ℤ) + 1 := atoi_decimal (i + 1)
    rw [atoi_decimal] at hnum
    change (k : ℤ) = atoi (decimal ((i : ℤ) + 1)) at hnum
    omega

theorem apply_writeItem (items : List Item) (id line : Bytes) :
    (writeItem items.length id line).foldl Nodes.apply (.ofItems items) =
      .ofItems (items ++ [⟨id, line, keyLabel line⟩]) := by
  funext j
  simp only [writeItem, List.foldl_cons, List.foldl_nil, Nodes.apply, Function.update_idem,
    Nodes.item, Function.update_self, Item.set]
  by_cases hj : j = items.length
  · rw [hj, Function.update_self, Nodes.ofItems, List.getElem?_concat_length]
    rfl
  · rw [Function.update_of_ne hj, Nodes.ofItems, Nodes.ofItems, List.getElem?_append]
    split
    · rfl
    · rw [List.getElem?_eq_none (by omega), List.getElem?_eq_none (by simp; omega)]

theorem apply_writeLines (items : List Item) (lines : List Bytes) :
    (writeLines items.length lines).foldl Nodes.apply (.ofItems items) =
      .ofItems (items ++ newItems items.length lines) := by
  induction lines generalizing items with
  | nil =>
    rw [newItems, List.append_nil]
    rfl
  | cons line lines ih =>
    have hnext := ih (items ++ [⟨decimal (items.length + 1), line, keyLabel line⟩])
    rw [List.length_append, List.length_singleton, List.append_assoc] at hnext
    rw [writeLines, List.foldl_append, apply_writeItem, hnext]
    rfl

/-- An operation that waits for the end of the transaction. -/
def Op.Waits : Op → Prop
  | .storageDeleteTree | .storageSet _ _ _ => True
  | _ => False

theorem writeLines_waits (i : ℕ) (lines : List Bytes) : ∀ op ∈ writeLines i lines, op.Waits := by
  induction lines generalizing i with
  | nil => exact fun op hop ↦ absurd hop List.not_mem_nil
  | cons line lines ih =>
    intro op hop
    rcases List.mem_append.mp hop with hop | hop
    · simp only [writeItem, List.mem_cons, List.not_mem_nil, or_false] at hop
      rcases hop with rfl | rfl | rfl <;> trivial
    · exact ih (i + 1) op hop

theorem run_waiting {ops : List Op} (h : ∀ op ∈ ops, op.Waits) (now : Nodes) (waiting : List Op) :
    Vault.run ⟨now, some waiting⟩ ops = ⟨now, some (waiting ++ ops)⟩ := by
  induction ops generalizing waiting with
  | nil => rw [List.append_nil]; rfl
  | cons op ops ih =>
    have hop := h op List.mem_cons_self
    have hstep : Vault.step ⟨now, some waiting⟩ op = ⟨now, some (waiting ++ [op])⟩ := by
      cases op with
      | storageDeleteTree => rfl
      | storageSet => rfl
      | _ => exact hop.elim
    rw [Vault.run, List.foldl_cons, hstep]
    exact (ih (fun o ho ↦ h o (List.mem_cons_of_mem op ho)) _).trans
      (by rw [List.append_assoc, List.singleton_append])

/-- Nothing of a transaction shows before its end. -/
theorem run_transaction {ops : List Op} (h : ∀ op ∈ ops, op.Waits) (now : Nodes) :
    (Vault.run { now := now } (.storageBegin :: ops ++ [.storageEnd])).now =
        ops.foldl Nodes.apply now ∧
      ∀ front, front <+: .storageBegin :: ops ++ [.storageEnd] →
        (Vault.run { now := now } front).now = now ∨
          (Vault.run { now := now } front).now = ops.foldl Nodes.apply now := by
  have hopen {front : List Op} (hw : ∀ op ∈ front, op.Waits) :
      Vault.run { now := now } (.storageBegin :: front) = ⟨now, some front⟩ :=
    run_waiting hw now []
  have hend : (Vault.run { now := now } (.storageBegin :: ops ++ [.storageEnd])).now =
      ops.foldl Nodes.apply now := by
    rw [Vault.run, List.foldl_append]
    change (Vault.step (Vault.run { now := now } (.storageBegin :: ops)) .storageEnd).now = _
    rw [hopen h]
    rfl
  refine ⟨hend, fun front hfront ↦ ?_⟩
  rcases List.prefix_concat_iff.mp hfront with rfl | hfront
  · exact .inr hend
  · left
    cases front with
    | nil => rfl
    | cons op front =>
      obtain ⟨rfl, hpre⟩ := List.cons_prefix_cons.mp hfront
      rw [hopen fun o ho ↦ h o (hpre.subset ho)]

theorem keyMigrate_ofItems (items : List Item) : keyMigrate count (.ofItems items) = [] := by
  unfold keyMigrate
  simp only
  split
  · rfl
  rename_i hn
  obtain ⟨left, hleft⟩ := Nat.exists_eq_succ_of_ne_zero hn
  rw [hleft, flatLines, flat_ofItems, if_pos rfl]

theorem moved_waits (olds : List Bytes) :
    ∀ op ∈ Op.storageDeleteTree :: writeLines 0 olds, op.Waits := by
  intro op hop
  rcases List.mem_cons.mp hop with rfl | hop
  · trivial
  · exact writeLines_waits 0 olds op hop

section
variable {count} (hcount : CountsNodes count)
include hcount

theorem count_ofTexts (olds : List Bytes) : count (.ofTexts olds) = olds.length := by
  rw [ofTexts_getElem, hcount, List.length_map]

theorem count_ofItems (items : List Item) : count (.ofItems items) = items.length := by
  rw [ofItems_getElem, hcount, List.length_map]

theorem keyMigrate_empty {olds : List Bytes} (h : [] ∈ olds) :
    keyMigrate count (.ofTexts olds) = [] := by
  unfold keyMigrate
  simp only [count_ofTexts hcount]
  split
  · rfl
  · rw [flatLines_ofTexts olds (Nat.zero_add _), List.drop_zero, if_pos h]

theorem keyMigrate_full {olds : List Bytes} (h : [] ∉ olds) (hn : olds ≠ []) :
    keyMigrate count (.ofTexts olds) =
      .storageBegin :: (.storageDeleteTree :: writeLines 0 olds) ++ [.storageEnd] := by
  have hpos : olds.length ≠ 0 := fun h0 ↦ hn (List.length_eq_zero_iff.mp h0)
  unfold keyMigrate
  simp only [count_ofTexts hcount]
  rw [if_neg hpos, flatLines_ofTexts olds (Nat.zero_add _), List.drop_zero, if_neg h]
  rfl

theorem migrated_full {olds : List Bytes} (h : [] ∉ olds) :
    migrated count (.ofTexts olds) = .ofItems (newItems 0 olds) := by
  rcases eq_or_ne olds [] with rfl | hn
  · rw [migrated, keyMigrate, count_ofTexts hcount]
    rfl
  · rw [migrated, keyMigrate_full hcount h hn, (run_transaction (moved_waits olds) _).1,
      List.foldl_cons]
    exact apply_writeLines [] olds

theorem storedLines_ofItems (items : List Item) :
    storedLines count (.ofItems items) = items.map Item.line := by
  rw [storedLines, count_ofItems hcount]
  refine List.ext_getElem (by simp) fun i hi hi' ↦ ?_
  have hlt : i < items.length := by simpa using hi'
  simp [item_ofItems, hlt]

theorem preservesAccess_full {olds : List Bytes} (h : [] ∉ olds) (P : Primitives) :
    PreservesAccess count P olds := by
  have hall : olds.filter (· ≠ []) = olds := by
    refine List.filter_eq_self.mpr fun line hline ↦ ?_
    simpa using fun h0 : line = [] ↦ h (h0 ▸ hline)
  have hmoved := migrated_full hcount h
  refine ⟨⟨newItems 0 olds, hmoved, ?_, newItems_nodup 0 olds⟩, fun pub ↦ ?_, ?_,
    keyMigrate_ofItems count, fun front hfront ↦ ?_⟩
  · rw [newItems_line, hall]
  · rw [hmoved, storedLines_ofItems hcount, newItems_line, authorizedPubMatches]
    simp
  · rw [hmoved]
    exact keyMigrate_ofItems count _
  · rcases eq_or_ne olds [] with rfl | hn
    · have hnone : keyMigrate count (.ofTexts []) = [] := by
        rw [keyMigrate, count_ofTexts hcount]
        rfl
      rw [hnone, List.prefix_nil] at hfront
      exact .inl (by rw [hfront]; rfl)
    · rw [keyMigrate_full hcount h hn] at hfront
      obtain ⟨hend, hpre⟩ := run_transaction (moved_waits olds) (.ofTexts olds)
      rw [migrated, keyMigrate_full hcount h hn, hend]
      exact hpre front hfront

/-- An array of old lines moves as it should exactly when none of them is empty. -/
theorem preserves_access_iff (P : Primitives) (olds : List Bytes) :
    PreservesAccess count P olds ↔ ∀ line ∈ olds, line ≠ [] := by
  constructor
  · rintro ⟨⟨items, hitems, -⟩, -⟩ line hline rfl
    have hstay : migrated count (.ofTexts olds) = .ofTexts olds := by
      rw [migrated, keyMigrate_empty hcount hline]
      rfl
    obtain ⟨old, rest, rfl⟩ := List.exists_cons_of_ne_nil (List.ne_nil_of_mem hline)
    have hzero := congrFun (hstay.symm.trans hitems) 0
    cases items <;> cases hzero
  · intro h
    exact preservesAccess_full hcount (fun hmem ↦ h [] hmem rfl) P

end

/-- A count of the elements up to the first gap. -/
noncomputable def nodesLength (t : Nodes) : ℕ := sInf {n | t n = none}

theorem countsNodes_nodesLength : CountsNodes nodesLength := by
  intro nodes
  have hmem : nodes.length ∈ {n | (fun i ↦ nodes[i]?) n = none} :=
    List.getElem?_eq_none (Nat.le_refl _)
  apply Nat.le_antisymm (Nat.sInf_le hmem)
  have hnone : nodes[nodesLength fun i ↦ nodes[i]?]? = none := Nat.sInf_mem ⟨_, hmem⟩
  exact List.getElem?_eq_none_iff.mp hnone

theorem preserves_access_iff_two :
    PreservesAccess nodesLength decoding [ascii "ssh-ed25519 AAAA", ascii "ssh-ed25519 BBBB"] ↔
      ∀ line ∈ [ascii "ssh-ed25519 AAAA", ascii "ssh-ed25519 BBBB"], line ≠ [] :=
  preserves_access_iff countsNodes_nodesLength decoding _

/-- An empty element keeps a key from being moved, and its owner out. -/
theorem empty_line_keeps_out :
    let line := ascii "ssh-ed25519 AAAAC3NzaC1lZDI1NTE5AAAAI" ++ List.replicate 43 65
    let olds := [line, []]
    lineKey decoding line = some (List.replicate 32 0) ∧
      authorizedPubMatches decoding
        (storedLines nodesLength (migrated nodesLength (.ofTexts olds))) (List.replicate 32 0) =
          false ∧
      ¬PreservesAccess nodesLength decoding olds := by
  intro line olds
  have hstay : migrated nodesLength (.ofTexts olds) = .ofTexts olds := by
    rw [migrated, keyMigrate_empty countsNodes_nodesLength (by simp [olds])]
    rfl
  have hlines : storedLines nodesLength (.ofTexts olds) = [[], []] := by
    rw [storedLines, count_ofTexts countsNodes_nodesLength]
    rfl
  have hkey : lineKey decoding line = some (List.replicate 32 0) := by decide +kernel
  have hout : authorizedPubMatches decoding
      (storedLines nodesLength (migrated nodesLength (.ofTexts olds))) (List.replicate 32 0) =
        false := by
    rw [hstay, hlines]
    decide
  refine ⟨hkey, hout, fun h ↦ ?_⟩
  have hin := (h.access (List.replicate 32 0)).mpr ⟨line, by simp [olds], hkey⟩
  rw [hout] at hin
  cases hin

end Sshd.Keys
