import Sshd.Lib.Octets
import Sshd.Lib.Firsts

namespace Sshd.Client

open Lib.Octets Lib.Firsts

/-- The text that fits a buffer of `size` bytes with its terminator. -/
def snprintf (size : ℕ) (text : Bytes) : Bytes := text.take (size - 1)

def noteOk (fp : Bytes) : Bytes := ascii "host key OK (" ++ fp ++ ascii ")"

def noteAdded (fp : Bytes) : Bytes := ascii "host key added to known_hosts (" ++ fp ++ ascii ")"

def noteChanged (host fp : Bytes) (i : ℕ) : Bytes :=
  ascii "HOST KEY CHANGED for " ++ host ++ ascii "! got " ++ fp ++ [32, 0xe2, 0x80, 0x94] ++
    ascii " refusing. Clear s.ssh.known_hosts." ++ ascii (Nat.repr i) ++ ascii " to override."

/-- The loop over the entries from index `i` on: the verdict with its note at
the first entry for the host. -/
def scanKnownHosts (host fp : Bytes) : ℕ → List Bytes → Option (Bool × Bytes)
  | _, [] => none
  | i, e :: rest =>
    if 32 ∉ e then scanKnownHosts host fp (i + 1) rest
    else
      let sp := e.idxOf 32
      if e.take sp ≠ host then scanKnownHosts host fp (i + 1) rest
      else if e.drop (sp + 1) = fp then some (true, noteOk fp)
      else some (false, noteChanged host fp i)

/-- Verdict, note and the array `s.ssh.known_hosts` afterwards. -/
def knownHostsCheck (store : List Bytes) (host fp : Bytes) : Bool × Bytes × List Bytes :=
  match scanKnownHosts host fp 0 store with
  | some (ok, note) => (ok, snprintf 200 note, store)
  | none => (true, snprintf 200 (noteAdded fp), store ++ [host ++ [32] ++ fp])

/-- The entry of a call, its host and fingerprint. -/
def entry (call : Bytes × Bytes) : Bytes := call.1 ++ [32] ++ call.2

/-- The array after a sequence of calls, each with its host and fingerprint. -/
def knownHosts (calls : List (Bytes × Bytes)) : List Bytes :=
  calls.foldl (fun store call ↦ (knownHostsCheck store call.1 call.2).2.2) []

theorem knownHosts_append (calls more : List (Bytes × Bytes)) :
    knownHosts (calls ++ more) =
      more.foldl (fun store call ↦ (knownHostsCheck store call.1 call.2).2.2) (knownHosts calls) :=
  List.foldl_append

theorem entry_split {call : Bytes × Bytes} (h : 32 ∉ call.1) :
    32 ∈ entry call ∧ (entry call).take ((entry call).idxOf 32) = call.1 ∧
      (entry call).drop ((entry call).idxOf 32 + 1) = call.2 := by
  have hi : (entry call).idxOf 32 = call.1.length := by
    rw [entry, List.append_assoc, List.idxOf_append_of_notMem h]
    rfl
  refine ⟨by simp [entry], ?_, ?_⟩
  · rw [hi, entry, List.append_assoc, List.take_left]
  · rw [hi, entry, List.drop_left' (by simp)]

/-- The scan finds the first contact of the host. -/
theorem scanKnownHosts_entries {contacts : List (Bytes × Bytes)} (hc : ∀ c ∈ contacts, 32 ∉ c.1)
    (host fp : Bytes) (i : ℕ) :
    (scanKnownHosts host fp i (contacts.map entry)).map Prod.fst =
      (first Prod.fst host contacts).map fun c ↦ decide (c.2 = fp) := by
  induction contacts generalizing i with
  | nil => rfl
  | cons c contacts ih =>
    obtain ⟨hmem, hhost, hfp⟩ := entry_split (hc c List.mem_cons_self)
    rw [List.map_cons, scanKnownHosts, if_neg (not_not.mpr hmem)]
    simp only [hhost, hfp]
    by_cases hh : c.1 = host
    · rw [if_neg (not_not.mpr hh)]
      by_cases hf : c.2 = fp
      · simp [first, hh, hf]
      · simp [first, hh, hf]
    · rw [if_pos hh, ih (fun c' hc' ↦ hc c' (List.mem_cons_of_mem c hc')) (i + 1)]
      simp [first, hh]

theorem scanKnownHosts_none {contacts : List (Bytes × Bytes)} (hc : ∀ c ∈ contacts, 32 ∉ c.1)
    (host fp : Bytes) :
    scanKnownHosts host fp 0 (contacts.map entry) = none ↔ host ∉ contacts.map Prod.fst := by
  rw [← Option.map_eq_none_iff (f := Prod.fst), scanKnownHosts_entries hc, Option.map_eq_none_iff,
    first_eq_none]

theorem knownHostsCheck_refused {store store' : List Bytes} {host fp note : Bytes}
    (h : knownHostsCheck store host fp = (false, note, store')) : store' = store := by
  unfold knownHostsCheck at h
  split at h <;> simp_all

theorem foldl_grows (calls : List (Bytes × Bytes)) (store : List Bytes) :
    store <+: calls.foldl (fun store call ↦ (knownHostsCheck store call.1 call.2).2.2) store := by
  induction calls generalizing store with
  | nil => exact List.prefix_rfl
  | cons c calls ih =>
    have hc : store <+: (knownHostsCheck store c.1 c.2).2.2 := by
      unfold knownHostsCheck
      split
      · exact List.prefix_rfl
      · exact List.prefix_append _ _
    exact hc.trans (ih (knownHostsCheck store c.1 c.2).2.2)

/-- The array holds the first contacts. -/
theorem knownHosts_eq {calls : List (Bytes × Bytes)} (h : ∀ c ∈ calls, 32 ∉ c.1) :
    knownHosts calls = (firsts Prod.fst calls).map entry := by
  induction calls using List.reverseRecOn with
  | nil => rfl
  | append_singleton calls c ih =>
    have hcalls : ∀ c ∈ calls, 32 ∉ c.1 := fun c' hc' ↦ h c' (List.mem_append_left _ hc')
    have hfirsts : ∀ c ∈ firsts Prod.fst calls, 32 ∉ c.1 :=
      fun c' hc' ↦ hcalls c' ((firsts_sublist Prod.fst calls).subset hc')
    have hnone := scanKnownHosts_none hfirsts c.1 c.2
    rw [mem_map_firsts, ← ih hcalls] at hnone
    rw [knownHosts_append, List.foldl_cons, List.foldl_nil, firsts_snoc, knownHostsCheck]
    by_cases hc : c.1 ∈ calls.map Prod.fst
    · rw [if_pos hc, ← ih hcalls]
      cases hs : scanKnownHosts c.1 c.2 0 (knownHosts calls) with
      | none => exact absurd hc (hnone.mp hs)
      | some r => rfl
    · rw [if_neg hc, hnone.mpr hc, List.map_append, ih hcalls]
      rfl

/-- A call is answered by the first contact with its host. -/
theorem knownHostsCheck_first {pre : List (Bytes × Bytes)} {host fp : Bytes}
    (h : ∀ c ∈ pre, 32 ∉ c.1) :
    (knownHostsCheck (knownHosts pre) host fp).1 = true ↔
      first Prod.fst host (pre ++ [(host, fp)]) = some (host, fp) := by
  have hfirsts : ∀ c ∈ firsts Prod.fst pre, 32 ∉ c.1 :=
    fun c hc ↦ h c ((firsts_sublist Prod.fst pre).subset hc)
  have hscan := scanKnownHosts_entries hfirsts host fp 0
  rw [← knownHosts_eq h, first_firsts] at hscan
  rw [first_append, knownHostsCheck]
  cases hs : scanKnownHosts host fp 0 (knownHosts pre) with
  | none =>
    rw [hs] at hscan
    have hnone : first Prod.fst host pre = none := Option.map_eq_none_iff.mp hscan.symm
    simp only [hnone, Option.none_or, true_iff]
    simp [first]
  | some r =>
    rw [hs] at hscan
    obtain ⟨c, hc, hr⟩ := Option.map_eq_some_iff.mp hscan.symm
    have hhost : c.1 = host := by simpa using List.find?_some hc
    simp only [hc, Option.some_or, Option.some.injEq, ← hr, decide_eq_true_eq]
    constructor
    · rintro rfl
      exact Prod.ext hhost rfl
    · rintro rfl
      rfl

/-- Trust on first use, along every sequence of calls. -/
theorem trust_on_first_use (calls : List (Bytes × Bytes)) (h : ∀ c ∈ calls, 32 ∉ c.1) :
    knownHosts calls = (firsts Prod.fst calls).map entry ∧
    ((firsts Prod.fst calls).map Prod.fst).Nodup ∧
    (∀ pre, pre <+: calls → knownHosts pre <+: knownHosts calls) ∧
    ∀ pre host fp post, calls = pre ++ (host, fp) :: post →
      ((knownHostsCheck (knownHosts pre) host fp).1 = true ↔
        first Prod.fst host calls = some (host, fp)) ∧
      ((knownHostsCheck (knownHosts pre) host fp).1 = false →
        (knownHostsCheck (knownHosts pre) host fp).2.2 = knownHosts pre) := by
  refine ⟨knownHosts_eq h, nodup_map_firsts Prod.fst calls, ?_, ?_⟩
  · rintro pre ⟨post, rfl⟩
    rw [knownHosts_append]
    exact foldl_grows post (knownHosts pre)
  · rintro pre host fp post rfl
    refine ⟨?_, ?_⟩
    · have hcall : first Prod.fst host [(host, fp)] = some (host, fp) := by simp [first]
      have hlater : first Prod.fst host (pre ++ (host, fp) :: post) =
          first Prod.fst host (pre ++ [(host, fp)]) := by
        rw [List.append_cons, first_append, first_append, hcall, Option.or_some, Option.some_or]
      rw [hlater]
      exact knownHostsCheck_first fun c hc ↦ h c (List.mem_append_left _ hc)
    · intro hr
      unfold knownHostsCheck at hr ⊢
      split at hr
      · rfl
      · cases hr

theorem trust_on_first_use_two :
    knownHosts [(ascii "a", ascii "x"), (ascii "ab", ascii "y"), (ascii "a", ascii "z")] =
      [ascii "a x", ascii "ab y"] :=
  (trust_on_first_use [(ascii "a", ascii "x"), (ascii "ab", ascii "y"), (ascii "a", ascii "z")]
    (by decide)).1.trans (by decide)

end Sshd.Client
