import Sshd.Lib.LineEscape
import Sshd.Lib.Octets

namespace Sshd.Client

open Lib.Octets Lib.LineEscape

/-! The escape of an interactive session. -/

def kEsc : Bytes := ascii "..!"

/-- The variables of the scanner; `userClose` is what it does to the job. -/
structure Scanner where
  atLineStart : Bool := true
  escMatch : ℕ := 0
  userClose : Bool := false
  deriving DecidableEq

/-- The loop over the characters of one `cliReadRaw`; `fwd` holds what is to be
forwarded. -/
def scan (k : Scanner) (fwd : Bytes) : Bytes → Scanner × Bytes
  | [] => (k, fwd)
  | c :: ib =>
    if k.escMatch ≠ 0 ∧ kEsc[k.escMatch]? = some c then
      let k := { k with escMatch := k.escMatch + 1 }
      if k.escMatch = kEsc.length then ({ k with userClose := true }, fwd) else scan k fwd ib
    else
      let (k, fwd) :=
        if k.escMatch ≠ 0 then
          ({ k with escMatch := 0, atLineStart := false }, fwd ++ kEsc.take k.escMatch)
        else (k, fwd)
      if k.atLineStart ∧ kEsc[0]? = some c then scan { k with escMatch := 1 } fwd ib
      else scan { k with atLineStart := c = 13 ∨ c = 10 } (fwd ++ [c]) ib

/-- The relay over its reads, with what each of them forwards; it leaves its loop
once the scanner has closed the session. -/
def scanReads (k : Scanner) : List Bytes → Scanner × List Bytes
  | [] => (k, [])
  | ib :: reads =>
    let (k, fwd) := scan k [] ib
    if k.userClose then (k, [fwd]) else
    let (k, rest) := scanReads k reads
    (k, fwd :: rest)

/-- A carriage return or a line feed. -/
def Newline (c : UInt8) : Prop := c = 13 ∨ c = 10

instance : DecidablePred Newline := fun _ ↦ inferInstanceAs (Decidable (_ ∨ _))

theorem kEsc_plain : ∀ c ∈ kEsc, ¬Newline c := by simp [kEsc, Newline, ascii]

/-- The scanner is open and has read `s`. -/
structure Scanned (k : Scanner) (fwd s : Bytes) : Prop where
  shut : k.userClose = false
  held : Held Newline kEsc fwd k.escMatch s
  flag : k.escMatch = 0 → (k.atLineStart = true ↔ LineStart Newline s)

theorem scanned_nil : Scanned {} [] [] :=
  ⟨rfl, .nil (by decide), fun _ ↦ iff_of_true rfl lineStart_nil⟩

theorem Scanned.pass {k : Scanner} {fwd s : Bytes} {m : ℕ} {c : UInt8}
    (h : Held Newline kEsc fwd m s) (hc : kEsc[m]? = some c → m = 0 ∧ ¬LineStart Newline fwd)
    (hshut : k.userClose = false) (hnone : k.escMatch = 0)
    (hline : k.atLineStart = decide (c = 13 ∨ c = 10)) : Scanned k (s ++ [c]) (s ++ [c]) := by
  refine ⟨hshut, hnone ▸ h.pass kEsc_plain hc, fun _ ↦ ?_⟩
  rw [lineStart_snoc, hline, decide_eq_true_eq]
  rfl

theorem scan_spec {k : Scanner} {pre fwd s : Bytes} (h : Scanned k (pre ++ fwd) s) (ib : Bytes) :
    Scanned (scan k fwd ib).1 (pre ++ (scan k fwd ib).2) (s ++ ib) ∨
      (scan k fwd ib).1.userClose = true ∧
        Found Newline kEsc (pre ++ (scan k fwd ib).2) (s ++ ib) := by
  induction ib generalizing k fwd s with
  | nil =>
    rw [List.append_nil]
    exact .inl h
  | cons c ib ih =>
    rw [List.append_cons]
    unfold scan
    by_cases hmatch : k.escMatch ≠ 0 ∧ kEsc[k.escMatch]? = some c
    · obtain ⟨hk, hc⟩ := hmatch
      have hpos := Nat.pos_of_ne_zero hk
      rw [if_pos ⟨hk, hc⟩]
      dsimp only
      by_cases hfull : k.escMatch + 1 = kEsc.length
      · rw [if_pos hfull]
        exact .inr ⟨rfl, (h.held.close kEsc_plain (.inl hpos) hc hfull).append (by decide) ib⟩
      · rw [if_neg hfull]
        have hshort : k.escMatch + 1 < kEsc.length := lt_of_le_of_ne h.held.short hfull
        exact ih ⟨h.shut, h.held.grow kEsc_plain (.inl hpos) hc hshort,
          fun h0 ↦ absurd h0 (Nat.succ_ne_zero _)⟩
    · rw [if_neg hmatch]
      by_cases hk : k.escMatch = 0
      · -- Nothing is held back.
        have htext : pre ++ fwd = s := by
          rw [← h.held.text, hk, List.take_zero, List.append_nil]
        rw [if_neg (not_not.mpr hk)]
        dsimp only
        by_cases hopens : k.atLineStart = true ∧ kEsc[0]? = some c
        · rw [if_pos hopens]
          have hline : LineStart Newline (pre ++ fwd) := by
            rw [htext]
            exact (h.flag hk).mp hopens.1
          have hheld := h.held
          rw [hk] at hheld
          exact ih ⟨h.shut, hheld.grow kEsc_plain (.inr hline) hopens.2 (by decide),
            fun h0 ↦ absurd h0 one_ne_zero⟩
        · rw [if_neg hopens]
          have hno : kEsc[k.escMatch]? = some c →
              k.escMatch = 0 ∧ ¬LineStart Newline (pre ++ fwd) := by
            intro hc
            rw [htext]
            exact ⟨hk, fun hline ↦ hopens ⟨(h.flag hk).mpr hline, hk ▸ hc⟩⟩
          apply ih
          rw [← List.append_assoc, htext]
          exact .pass h.held hno h.shut hk rfl
      · -- What was held back is let go.
        rw [if_pos hk]
        dsimp only
        rw [if_neg (by simp)]
        apply ih
        rw [← List.append_assoc, ← List.append_assoc, h.held.text]
        exact .pass h.held (fun hc ↦ absurd ⟨hk, hc⟩ hmatch) h.shut rfl rfl

theorem scanReads_spec {k : Scanner} {pre s : Bytes} (h : Scanned k pre s) (reads : List Bytes) :
    Scanned (scanReads k reads).1 (pre ++ (scanReads k reads).2.flatten) (s ++ reads.flatten) ∨
      (scanReads k reads).1.userClose = true ∧
        Found Newline kEsc (pre ++ (scanReads k reads).2.flatten) (s ++ reads.flatten) := by
  induction reads generalizing k pre s with
  | nil =>
    rw [List.flatten_nil, List.append_nil]
    refine .inl ?_
    rw [scanReads, List.flatten_nil, List.append_nil]
    exact h
  | cons ib reads ih =>
    have hk : Scanned k (pre ++ []) s := by rwa [List.append_nil]
    have hone := scan_spec hk ib
    rw [List.flatten_cons, ← List.append_assoc, scanReads]
    generalize scan k [] ib = read at hone ⊢
    obtain ⟨k, fwd⟩ := read
    dsimp only at hone ⊢
    obtain hopen | ⟨hshut, hfound⟩ := hone
    · have hnext := ih hopen
      have hshut : ¬k.userClose = true := by
        rw [Bool.not_eq_true]
        exact hopen.shut
      rw [if_neg hshut]
      rwa [List.flatten_cons, ← List.append_assoc]
    · rw [if_pos hshut]
      refine .inr ⟨hshut, ?_⟩
      rw [List.flatten_cons, List.flatten_nil, List.append_nil]
      exact hfound.append (by decide) _

/-- What the scanner forwards is the stream up to the first escape at the start of
a line, or all of it but a match that is still open; the escape closes the session. -/
theorem escape_exact (reads : List Bytes) :
    let k := (scanReads {} reads).1
    let fwd := (scanReads {} reads).2.flatten
    let stream := reads.flatten
    (k.userClose = true ↔ ∃ i, OccursAt Newline kEsc stream i) ∧
      (∀ i, OccursAt Newline kEsc stream i → (∀ j < i, ¬OccursAt Newline kEsc stream j) →
        fwd = stream.take i) ∧
      ((∀ i, ¬OccursAt Newline kEsc stream i) → ∃ withheld, fwd ++ withheld = stream ∧
        withheld <+: kEsc ∧ withheld ≠ kEsc ∧ (withheld ≠ [] → LineStart Newline fwd)) := by
  intro k fwd stream
  obtain hopen | ⟨hshut, hfound⟩ := scanReads_spec scanned_nil reads
  · obtain ⟨htext, hshort, hstart, -, habsent⟩ := hopen.held
    refine ⟨?_, fun i hi _ ↦ absurd hi (habsent i), fun _ ↦ ?_⟩
    · refine iff_of_false ?_ fun ⟨i, hi⟩ ↦ habsent i hi
      rw [Bool.not_eq_true]
      exact hopen.shut
    · refine ⟨kEsc.take k.escMatch, htext, List.take_prefix _ _, fun hall ↦ ?_, fun hne ↦ ?_⟩
      · have hlen := congrArg List.length hall
        rw [List.length_take_of_le hshort.le] at hlen
        omega
      · refine hstart (Nat.pos_of_ne_zero fun h0 ↦ hne ?_)
        exact (congrArg (kEsc.take ·) h0).trans List.take_zero
  · refine ⟨iff_of_true hshut ⟨_, hfound.occurs⟩, fun i hi hfirst ↦ ?_, fun hno ↦ ?_⟩
    · have hlen : i = fwd.length := by
        rcases lt_trichotomy i fwd.length with hlt | heq | hgt
        · exact absurd hi (hfound.first i hlt)
        · exact heq
        · exact absurd hfound.occurs (hfirst _ hgt)
      rw [hlen]
      exact List.prefix_iff_eq_take.mp hfound.text
    · exact absurd hfound.occurs (hno _)

/-- An escape after a dot too many, and one that arrives in two reads. -/
example : (scanReads {} [ascii "...!\r.", ascii ".!rm"]).2.flatten = ascii "...!\r" := by decide

end Sshd.Client
