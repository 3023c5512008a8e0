import Sshd.Keys.Authorize

namespace Sshd.Keys

open Lib.Octets Crypto Server

/-! Whether the removal of a key takes the access away. -/

section
variable (count : Tree → ℕ)

/-- The lines that `authorized_pub_matches` reads. -/
def authorizedLines (keys : Tree) : List Bytes :=
  (List.range (count keys)).map fun i ↦ keys.read i .line

variable (P : Primitives) (own : Bool)

/-- In each state of the history a key loses its access with its id, and no two
entries are for one key. -/
def Revocable (calls : List Call) : Prop :=
  ∀ p, p <+: calls → ∀ e, Stored count own p e → ∀ pub, lineKey P e.line = some pub →
    authorizedPubMatches P
        (authorizedLines count (runCalls count own (p ++ [.remove e.id])).keys) pub = false ∧
      ∀ e', Stored count own p e' → lineKey P e'.line = some pub → e' = e

/-- No stored line is for the key of the new line. -/
def NewKey (calls : List Call) (raw : Bytes) : Prop :=
  ∀ e, Stored count own calls e → ∀ pub, lineKey P e.line = some pub →
    lineKey P (keyNormalize raw) ≠ some pub

end

variable {count : Tree → ℕ} {P : Primitives} {own : Bool} (hcount : CountsArray count)
include hcount

theorem authorizedLines_ofList (items : List Item) :
    authorizedLines count (Tree.ofList items) = items.map Item.line := by
  rw [authorizedLines, hcount]
  apply List.ext_getElem
  · simp
  · intro i hi _
    have hlt : i < items.length := by simpa using hi
    simp only [List.getElem_map, List.getElem_range, read_ofList, List.getElem?_eq_getElem hlt,
      Option.getD_some]
    rfl

theorem authorized_iff (calls : List Call) (pub : Bytes) :
    authorizedPubMatches P (authorizedLines count (runCalls count own calls).keys) pub = true ↔
      ∃ e ∈ (KeyRing.run calls).items, lineKey P e.line = some pub := by
  rw [runCalls_ring hcount, authorizedLines_ofList hcount]
  simp [authorizedPubMatches]

omit hcount in
/-- In a ring without two entries for one key the removal of one revokes it. -/
theorem revoked_iff {ring : KeyRing} {e : Item} {pub : Bytes}
    (he : e ∈ ring.items) :
    (¬∃ x ∈ (ring.step (.remove e.id)).items, lineKey P x.line = some pub) ↔
      ∀ x ∈ ring.items, lineKey P x.line = some pub → x = e := by
  constructor
  · intro h x hx hkey
    by_contra hne
    have hid : x.id ≠ e.id := fun hid ↦ hne (List.inj_on_of_nodup_map ring.ids hx he hid)
    exact h ⟨x, KeyRing.mem_step_remove.mpr ⟨hx, hid⟩, hkey⟩
  · rintro h ⟨x, hx, hkey⟩
    obtain ⟨hx, hid⟩ := KeyRing.mem_step_remove.mp hx
    exact hid (congrArg Item.id (h x hx hkey))

theorem revocable_ring_iff (calls : List Call) :
    Revocable count P own calls ↔ ∀ p, p <+: calls → ∀ e ∈ (KeyRing.run p).items, ∀ pub,
      lineKey P e.line = some pub → ∀ e' ∈ (KeyRing.run p).items,
        lineKey P e'.line = some pub → e' = e := by
  constructor
  · intro h p hp e he pub hkey e' he'
    exact (h p hp e ((stored_iff hcount p e).mpr he) pub hkey).2 e' ((stored_iff hcount p e').mpr he')
  · intro h p hp e he pub hkey
    have he' := (stored_iff hcount p e).mp he
    have hone := h p hp e he' pub hkey
    refine ⟨?_, fun x hx ↦ hone x ((stored_iff hcount p x).mp hx)⟩
    rw [Bool.eq_false_iff, ne_eq, authorized_iff hcount, KeyRing.run_concat]
    exact (revoked_iff he').mpr hone

/-- Removal revokes throughout a history exactly if no key is added a second
time under another spelling of its line. -/
theorem revocable_iff (P : Primitives) (own : Bool) (calls : List Call) :
    Revocable count P own calls ↔
      ∀ p raw, p ++ [.add raw] <+: calls → Acceptable count own p raw →
        NewKey count P own p raw := by
  rw [revocable_ring_iff hcount]
  constructor
  · intro h p raw hp hacc e he pub hkey hnew
    have he' := (stored_iff hcount p e).mp he
    have hitems := KeyRing.step_accepted ((acceptable_iff hcount p raw).mp hacc)
    have hring := h _ hp
    rw [KeyRing.run_concat, hitems] at hring
    have hsame := hring _ (List.mem_append_right _ List.mem_cons_self) pub hnew e
      (List.mem_append_left _ he') hkey
    exact hacc.2 e he (congrArg Item.line hsame)
  · intro h p
    induction p using List.reverseRecOn with
    | nil => exact fun _ e he ↦ absurd he List.not_mem_nil
    | append_singleton p c ih =>
      intro hp e he pub hkey e' he' hkey'
      have hprev := ih ((List.prefix_append p [c]).trans hp)
      rw [KeyRing.run_concat] at he he'
      cases c with
      | remove id =>
        exact hprev e (KeyRing.mem_step_remove.mp he).1 pub hkey e'
          (KeyRing.mem_step_remove.mp he').1 hkey'
      | add raw =>
        by_cases hacc : (KeyRing.run p).Accepts raw
        · have hnew := h p raw hp ((acceptable_iff hcount p raw).mpr hacc)
          rw [KeyRing.step_accepted hacc] at he he'
          rcases List.mem_append.mp he with he | he
          · rcases List.mem_append.mp he' with he' | he'
            · exact hprev e he pub hkey e' he' hkey'
            · rw [List.mem_singleton.mp he'] at hkey'
              exact absurd hkey' (hnew e ((stored_iff hcount p e).mpr he) pub hkey)
          · rcases List.mem_append.mp he' with he' | he'
            · rw [List.mem_singleton.mp he] at hkey
              exact absurd hkey (hnew e' ((stored_iff hcount p e').mpr he') pub hkey')
            · rw [List.mem_singleton.mp he, List.mem_singleton.mp he']
        · rw [KeyRing.step_rejected hacc] at he he'
          exact hprev e he pub hkey e' he' hkey'

omit hcount

theorem revocable_iff_two :
    let line := ascii "ssh-ed25519 AAAAC3NzaC1lZDI1NTE5AAAAI" ++ List.replicate 43 65
    let calls : List Call := [.add line, .remove (ascii "1")]
    Revocable arrayLength decoding true calls ↔
      ∀ p raw, p ++ [.add raw] <+: calls → Acceptable arrayLength true p raw →
        NewKey arrayLength decoding true p raw :=
  revocable_iff countsArray_arrayLength decoding true _

/-- One key under two comments: with one entry removed the other still lets it in. -/
theorem second_comment_kept :
    let line := ascii "ssh-ed25519 AAAAC3NzaC1lZDI1NTE5AAAAI" ++ List.replicate 43 65
    ¬Revocable arrayLength decoding false
      [.add (line ++ ascii " laptop"), .add (line ++ ascii " phone")] := by
  intro line
  rw [revocable_ring_iff countsArray_arrayLength]
  intro h
  have hone := h _ List.prefix_rfl
  have hfirst : ⟨ascii "1", line ++ ascii " laptop", keyLabel (line ++ ascii " laptop")⟩ ∈
      (KeyRing.run [.add (line ++ ascii " laptop"), .add (line ++ ascii " phone")]).items := by
    decide
  have hsecond : ⟨ascii "2", line ++ ascii " phone", keyLabel (line ++ ascii " phone")⟩ ∈
      (KeyRing.run [.add (line ++ ascii " laptop"), .add (line ++ ascii " phone")]).items := by
    decide
  have hkey : ∃ pub, lineKey decoding (line ++ ascii " laptop") = some pub ∧
      lineKey decoding (line ++ ascii " phone") = some pub := ⟨List.replicate 32 0, by decide +kernel⟩
  obtain ⟨pub, hkey, hkey'⟩ := hkey
  have hsame := hone _ hfirst pub hkey _ hsecond hkey'
  exact absurd (congrArg Item.id hsame) (by decide)

end Sshd.Keys
