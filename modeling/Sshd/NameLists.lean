import Sshd.Lib.Fields
import Sshd.Client.Proposal

namespace Sshd

open Lib.Octets Lib.Fields Wire

/-! The loops of `name_in_csv` over indices, as both copies have them. -/

/-- The inner loop takes `j` to the next comma. -/
def fieldEnd (csv : Bytes) : ℕ → ℕ → ℕ
  | 0, j => j
  | fuel + 1, j => if j < csv.length ∧ csv.getD j 0 ≠ 44 then fieldEnd csv fuel (j + 1) else j

/-- The outer loop from `i` on. -/
def nameInCsvLoop (needle csv : Bytes) : ℕ → ℕ → Bool
  | 0, _ => false
  | fuel + 1, i =>
    if i < csv.length then
      let j := fieldEnd csv csv.length i
      if j - i = needle.length ∧ (csv.drop i).take needle.length = needle then true
      else nameInCsvLoop needle csv fuel (j + 1)
    else false

theorem fieldEnd_eq {csv : Bytes} {fuel j : ℕ} (h : csv.length ≤ fuel + j) :
    fieldEnd csv fuel j = j + ((csv.drop j).takeWhile (· ≠ 44)).length := by
  induction fuel generalizing j with
  | zero =>
    rw [List.drop_eq_nil_of_le (by omega)]
    rfl
  | succ fuel ih =>
    rw [fieldEnd]
    by_cases hj : j < csv.length
    · rw [List.getD_eq_getElem?_getD, List.getElem?_eq_getElem hj, Option.getD_some,
        List.drop_eq_getElem_cons hj]
      by_cases hc : csv[j] = 44
      · rw [if_neg fun hn ↦ hn.2 hc, List.takeWhile_cons_of_neg (by simpa using hc)]
        rfl
      · rw [if_pos ⟨hj, hc⟩, List.takeWhile_cons_of_pos (by simpa using hc), List.length_cons,
          ih (by omega)]
        omega
    · rw [if_neg fun hn ↦ hj hn.1, List.drop_eq_nil_of_le (by omega)]
      rfl

/-- A field is the needle when it has the length and the bytes of the needle. -/
theorem field_eq_iff {needle rest : Bytes} :
    (rest.takeWhile (· ≠ 44)).length = needle.length ∧ rest.take needle.length = needle ↔
      rest.takeWhile (· ≠ 44) = needle := by
  have htake : rest.take (rest.takeWhile (· ≠ 44)).length = rest.takeWhile (· ≠ 44) :=
    List.prefix_iff_eq_take.mp (List.takeWhile_prefix _) |>.symm
  constructor
  · rintro ⟨hlen, hbytes⟩
    rw [← htake, hlen]
    exact hbytes
  · rintro rfl
    exact ⟨rfl, htake⟩

/-- The scan by indices is the scan of what is left. -/
theorem nameInCsvLoop_eq (needle csv : Bytes) (fuel i : ℕ) :
    nameInCsvLoop needle csv fuel i = nameInCsvFrom needle fuel (csv.drop i) := by
  induction fuel generalizing i with
  | zero => rfl
  | succ fuel ih =>
    rw [nameInCsvLoop, nameInCsvFrom]
    by_cases hi : i < csv.length
    · have hne : csv.drop i ≠ [] := by
        rw [Ne, List.drop_eq_nil_iff]
        omega
      rw [if_pos hi, if_neg hne, fieldEnd_eq (by omega)]
      dsimp only
      rw [Nat.add_sub_cancel_left, List.drop_drop, ih, if_congr field_eq_iff rfl rfl,
        Nat.add_assoc]
    · rw [if_neg hi, if_pos (List.drop_eq_nil_of_le (by omega))]

/-- The outer loop needs no more rounds than there are bytes. -/
theorem nameInCsvFrom_fuel {needle csv : Bytes} {fuel fuel' : ℕ} (h : csv.length ≤ fuel)
    (h' : csv.length ≤ fuel') : nameInCsvFrom needle fuel csv = nameInCsvFrom needle fuel' csv := by
  have hnil (n : ℕ) : nameInCsvFrom needle n [] = false := by cases n <;> rfl
  induction fuel generalizing fuel' csv with
  | zero =>
    obtain rfl : csv = [] := List.eq_nil_of_length_eq_zero (by omega)
    rw [hnil, hnil]
  | succ fuel ih =>
    cases fuel' with
    | zero =>
      obtain rfl : csv = [] := List.eq_nil_of_length_eq_zero (by omega)
      rw [hnil, hnil]
    | succ fuel' =>
      rw [nameInCsvFrom, nameInCsvFrom]
      by_cases hcsv : csv = []
      · rw [if_pos hcsv, if_pos hcsv]
      · have hpos := List.length_pos_iff.mpr hcsv
        dsimp only
        rw [if_neg hcsv, if_neg hcsv]
        congr 1
        apply ih <;> rw [List.length_drop] <;> omega

/-- A name is on a list just when it is one of the fields between the commas,
and both sides see it alike. -/
theorem name_in_csv_exact (needle : String) (csv : Bytes) :
    Server.nameInCsv needle csv = Client.nameInCsv needle csv ∧
    (∀ fuel, csv.length ≤ fuel →
      nameInCsvLoop (ascii needle) csv fuel 0 = Server.nameInCsv needle csv) ∧
    (ascii needle ≠ [] → 44 ∉ ascii needle →
      (Server.nameInCsv needle csv = true ↔ ascii needle ∈ csv.splitOn 44) ∧
      (Server.nameInCsv needle csv = true ↔ IsField 44 (ascii needle) csv)) := by
  refine ⟨rfl, fun fuel hfuel ↦ ?_, fun hne hcomma ↦ ?_⟩
  · rw [nameInCsvLoop_eq, List.drop_zero]
    exact nameInCsvFrom_fuel hfuel le_rfl
  · have hmem : Server.nameInCsv needle csv = true ↔ ascii needle ∈ csv.splitOn 44 :=
      Server.nameInCsv_iff hne csv
    exact ⟨hmem, hmem.trans (mem_splitOn_iff.trans (and_iff_right hcomma))⟩

/-- A name is not found in a longer one, and is found behind an empty field. -/
theorem name_in_csv_exact_curve :
    (Server.nameInCsv "curve25519-sha256" (ascii "curve25519-sha256@libssh.org,") = true ↔
      IsField 44 (ascii "curve25519-sha256") (ascii "curve25519-sha256@libssh.org,")) ∧
    Server.nameInCsv "curve25519-sha256" (ascii "curve25519-sha256@libssh.org,") = false ∧
    IsField 44 (ascii "curve25519-sha256") (ascii ",curve25519-sha256") :=
  ⟨((name_in_csv_exact _ _).2.2 (by decide) (by decide)).2, by decide,
    ((name_in_csv_exact _ _).2.2 (by decide) (by decide)).2.mp (by decide)⟩

end Sshd
