import Sshd.Keys.Text
import Mathlib.Logic.Function.Basic

namespace Sshd.Keys

open Lib.Octets

/-! The settings under `s.sshd.authorized_keys` and the operations on them. -/

/-- An element of the array; a field that is not set reads as the empty text. -/
structure Item where
  id : Bytes := []
  line : Bytes := []
  label : Bytes := []
  deriving DecidableEq

inductive Field
  | id
  | line
  | label
  deriving DecidableEq

def Item.get (item : Item) : Field → Bytes
  | .id => item.id
  | .line => item.line
  | .label => item.label

def Item.set (item : Item) (field : Field) (val : Bytes) : Item :=
  match field with
  | .id => { item with id := val }
  | .line => { item with line := val }
  | .label => { item with label := val }

/-- The elements by their index. -/
abbrev Tree := ℕ → Option Item

def Tree.read (keys : Tree) (idx : ℕ) (field : Field) : Bytes := ((keys idx).getD {}).get field

/-- An array without gaps. -/
def Tree.ofList (items : List Item) : Tree := fun i ↦ items[i]?

/-- What is known of `storageArrayCount`: it counts an array without gaps. -/
def CountsArray (count : Tree → ℕ) : Prop :=
  ∀ items : List Item, count (Tree.ofList items) = items.length

/-- The array, `sshd.key.error` and `sshd.key.done`. -/
structure Settings where
  keys : Tree
  error : Bytes
  done : ℕ

inductive Write
  | set (idx : ℕ) (field : Field) (val : Bytes)
  | unset (idx : ℕ)
  | error (msg : Bytes)
  | done

def Settings.apply (s : Settings) : Write → Settings
  | .set idx field val =>
    { s with keys := Function.update s.keys idx (some (((s.keys idx).getD {}).set field val)) }
  | .unset idx => { s with keys := Function.update s.keys idx none }
  | .error msg => { s with error := msg }
  | .done => { s with done := s.done + 1 }

def Settings.applyAll (s : Settings) (ws : List Write) : Settings := ws.foldl Settings.apply s

/-- A piece of code as the storage operations it performs in turn. -/
inductive Script (α : Type)
  | pure (a : α)
  | arrayCount (k : ℕ → Script α)
  | getStr (idx : ℕ) (field : Field) (k : Bytes → Script α)
  | write (w : Write) (k : Script α)
  | storageBegin (k : Script α)
  | storageEnd (k : Script α)

def Script.bind {α β : Type} : Script α → (α → Script β) → Script β
  | .pure a, f => f a
  | .arrayCount k, f => .arrayCount fun n ↦ (k n).bind f
  | .getStr idx field k, f => .getStr idx field fun v ↦ (k v).bind f
  | .write w k, f => .write w (k.bind f)
  | .storageBegin k, f => .storageBegin (k.bind f)
  | .storageEnd k, f => .storageEnd (k.bind f)

instance : Monad Script where
  pure := .pure
  bind := .bind

/-! The key store. -/

def keyCount : Script ℕ := .arrayCount .pure

def keyField (idx : ℕ) (field : Field) : Script Bytes := .getStr idx field .pure

def storageSet (idx : ℕ) (field : Field) (val : Bytes) : Script Unit :=
  .write (.set idx field val) (.pure ())

def storageUnset (idx : ℕ) : Script Unit := .write (.unset idx) (.pure ())

def setError (msg : Bytes) : Script Unit := .write (.error msg) (.pure ())

/-- The counter `ack` and the setting it goes to are one number. -/
def keyAck : Script Unit := .write .done (.pure ())

def storageBegin : Script Unit := .storageBegin (.pure ())

def storageEnd : Script Unit := .storageEnd (.pure ())

def keyWrite (idx : ℕ) (id line : Bytes) : Script Unit := do
  storageSet idx .id id
  storageSet idx .line line
  storageSet idx .label (keyLabel line)

/-- The loops that leave at the first element whose field has the value: `left`
elements from index `i` on. -/
def keySearch (field : Field) (val : Bytes) : ℕ → ℕ → Script (Option ℕ)
  | 0, _ => pure none
  | left + 1, i => do
    let v ← keyField i field
    if v = val then pure (some i) else keySearch field val left (i + 1)

/-- The loop of `keyNextId`. -/
def keyBest : ℕ → ℕ → ℤ → Script ℤ
  | 0, _, best => pure best
  | left + 1, i, best => do
    let id ← keyField i .id
    keyBest left (i + 1) (if best < atoi id then atoi id else best)

def keyNextId : Script Bytes := do
  let n ← keyCount
  let best ← keyBest n 0 0
  pure (decimal (best + 1))

def keyIndexOfId (id : Bytes) : Script (Option ℕ) := do
  let n ← keyCount
  keySearch .id id n 0

def alreadyAuthorized : Bytes := ascii "That key is already authorized."

def noSuchKey : Bytes := ascii "No such key."

def keyAdd (raw : Bytes) : Script Unit := do
  let line := keyNormalize raw
  let why := keyRejection line
  if why ≠ [] then setError why else
  let n ← keyCount
  match ← keySearch .line line n 0 with
  | some _ => setError alreadyAuthorized
  | none =>
    storageBegin
    let id ← keyNextId
    keyWrite n id line
    setError []
    storageEnd
    keyAck

/-- The loop that moves `left` elements down by one, the first one to `i`. -/
def keyShift : ℕ → ℕ → Script Unit
  | 0, _ => pure ()
  | left + 1, i => do
    let id ← keyField (i + 1) .id
    let line ← keyField (i + 1) .line
    keyWrite i id line
    keyShift left (i + 1)

def keyRemove (id : Bytes) : Script Unit := do
  let found ← keyIndexOfId id
  let n ← keyCount
  match found with
  | none => setError noSuchKey
  | some idx =>
    storageBegin
    keyShift (n - 1 - idx) idx
    -- There is no element with the index -1.
    if 0 < n then storageUnset (n - 1)
    setError []
    storageEnd
    keyAck

inductive Call
  | add (raw : Bytes)
  | remove (id : Bytes)

def Call.script : Call → Script Unit
  | .add raw => keyAdd raw
  | .remove id => keyRemove id

/-! One call after another. -/

/-- The settings with the writes of the open transaction. -/
structure Store where
  now : Settings
  batch : Option (List Write) := none

/-- What a read sees: with `own`, the writes of the open transaction as well. -/
def Store.view (own : Bool) (st : Store) : Settings :=
  if own then st.now.applyAll (st.batch.getD []) else st.now

def Store.write (st : Store) (w : Write) : Store :=
  match st.batch with
  | none => { st with now := st.now.apply w }
  | some ws => { st with batch := some (ws ++ [w]) }

def Store.commit (st : Store) : Store := { now := st.now.applyAll (st.batch.getD []) }

variable (count : Tree → ℕ) (own : Bool)

def Script.run {α : Type} : Script α → Store → α × Store
  | .pure a, st => (a, st)
  | .arrayCount k, st => (k (count (st.view own).keys)).run st
  | .getStr idx field k, st => (k ((st.view own).keys.read idx field)).run st
  | .write w k, st => k.run (st.write w)
  | .storageBegin k, st => k.run { st with batch := some [] }
  | .storageEnd k, st => k.run st.commit

def runCall (s : Settings) (c : Call) : Settings := (c.script.run count own { now := s }).2.now

/-- The settings before the first key is added. -/
def noKeys : Settings := { keys := Tree.ofList [], error := [], done := 0 }

def runCalls (calls : List Call) : Settings := calls.foldl (runCall count own) noKeys

end Sshd.Keys
