import Sshd.Lib.Octets

namespace Sshd.Wire

open Lib.Octets

/-! Encoders. Each appends to the string it is given. -/

def putU8 (s : Bytes) (v : UInt8) : Bytes := s ++ [v]

def putU32 (s : Bytes) (v : UInt32) : Bytes := s ++ be32 v.toNat

def putBytes (s data : Bytes) : Bytes := s ++ data

def putString (s data : Bytes) : Bytes :=
  putBytes (putU32 s (UInt32.ofNat data.length)) data

def putCstring (s : Bytes) (str : String) : Bytes := putString s (ascii str)

def putNamelist (s : Bytes) (csv : String) : Bytes := putCstring s csv

/-- The loop that strips leading zero bytes, all but the last byte. -/
def stripZeros : Bytes → Bytes
  | [] => []
  | [b] => [b]
  | a :: b :: rest => if a = 0 then stripZeros (b :: rest) else a :: b :: rest

/-- The `mpint` of a positive big-endian value. The same code stands in
`put_mpint_positive` and in both `K` encoders. -/
def mpintOctets (val : Bytes) : Bytes :=
  let k := stripZeros val
  let pad := decide (k ≠ []) && decide ((k.getD 0 0) &&& 0x80 ≠ 0)
  be32 (k.length + if pad then 1 else 0) ++ (if pad then [0] else []) ++ k

def putMpintPositive (s val : Bytes) : Bytes := s ++ mpintOctets val

/-- The scan of a comma-separated list for one whole name; `csv` is what the
outer loop has left. -/
def nameInCsvFrom (needle : Bytes) : ℕ → Bytes → Bool
  | 0, _ => false
  | fuel + 1, csv =>
    if csv = [] then false else
    let field := csv.takeWhile (· ≠ 44)
    if field = needle then true
    else nameInCsvFrom needle fuel (csv.drop (field.length + 1))

/-- The line in front of the first newline, and what follows the newline. -/
def takeLine (rxBuf : Bytes) : Option (Bytes × Bytes) :=
  if 10 ∈ rxBuf then
    let nl := rxBuf.idxOf 10
    let lineLen := if 0 < nl ∧ rxBuf.getD (nl - 1) 0 = 13 then nl - 1 else nl
    some (rxBuf.take lineLen, rxBuf.drop (nl + 1))
  else none

/-- A line stays the same when more follows. -/
theorem takeLine_append {rxBuf line rest : Bytes} (h : takeLine rxBuf = some (line, rest))
    (more : Bytes) : takeLine (rxBuf ++ more) = some (line, rest ++ more) := by
  unfold takeLine at h ⊢
  split at h
  · rename_i hmem
    have hlt := List.idxOf_lt_length_of_mem hmem
    have hidx : (rxBuf ++ more).idxOf 10 = rxBuf.idxOf 10 := List.idxOf_append_of_mem hmem
    have hget : (rxBuf ++ more).getD (rxBuf.idxOf 10 - 1) 0 = rxBuf.getD (rxBuf.idxOf 10 - 1) 0 := by
      rw [List.getD_eq_getElem?_getD, List.getD_eq_getElem?_getD,
        List.getElem?_append_left (by omega)]
    rw [if_pos (List.mem_append_left more hmem)]
    simp only [hidx, hget]
    simp only [Option.some.injEq, Prod.mk.injEq] at h ⊢
    obtain ⟨rfl, rfl⟩ := h
    refine ⟨List.take_append_of_le_length ?_, List.drop_append_of_le_length hlt⟩
    split <;> omega
  · cases h

theorem be32_ofNat (n : ℕ) : be32 (UInt32.ofNat n).toNat = be32 n := by
  simp only [be32, UInt32.toNat_ofNat', List.cons.injEq, and_true]
  refine ⟨?_, ?_, ?_, ?_⟩ <;> apply UInt8.toNat.inj <;> simp only [UInt8.toNat_ofNat'] <;> omega

@[simp] theorem putString_eq (s data : Bytes) : putString s data = s ++ lenPrefixed data := by
  simp only [putString, putBytes, putU32, be32_ofNat, lenPrefixed, List.append_assoc]

/-! Decoders. `size_t` is 32 bits wide on the target: the cursor arithmetic
is carried out modulo `sizeMod`. -/

abbrev sizeMod : ℕ := 2 ^ 32

structure View where
  p : Bytes
  n : ℕ
  pos : ℕ
  bad : Bool

def viewInit (data : Bytes) : View := ⟨data, data.length % sizeMod, 0, false⟩

/-- The test of `need`; its callers set `bad` when it fails. -/
def need (v : View) (n : ℕ) : Bool := !(v.bad || decide (v.n < v.pos) || decide (v.n - v.pos < n))

def getU8 (v : View) : UInt8 × View :=
  if need v 1 then (v.p.getD v.pos 0, { v with pos := (v.pos + 1) % sizeMod })
  else (0, { v with bad := true })

def getU32 (v : View) : UInt32 × View :=
  if need v 4 then
    (UInt32.ofNat (ofBe32 (v.p.drop v.pos)), { v with pos := (v.pos + 4) % sizeMod })
  else (0, { v with bad := true })

def getString (v : View) : Option Bytes × View :=
  let (len, v) := getU32 v
  if v.bad then (none, v)
  else if need v len.toNat then
    (some ((v.p.drop v.pos).take len.toNat), { v with pos := (v.pos + len.toNat) % sizeMod })
  else (none, { v with bad := true })

def skipString (v : View) : Bool × View :=
  let (s, v) := getString v
  (s.isSome, v)

/-- A cursor inside a buffer that the machine can hold. -/
structure View.Ok (v : View) : Prop where
  pos_le : v.pos ≤ v.n
  n_le : v.n ≤ v.p.length
  n_lt : v.n < sizeMod

/-- The bytes that are still to be read. -/
def View.rest (v : View) : Bytes := (v.p.take v.n).drop v.pos

theorem viewInit_ok (data : Bytes) : (viewInit data).Ok :=
  ⟨Nat.zero_le _, Nat.mod_le _ _, Nat.mod_lt _ (by decide)⟩

theorem View.Ok.rest_length {v : View} (h : v.Ok) : v.rest.length = v.n - v.pos := by
  simp only [View.rest, List.length_drop, List.length_take, Nat.min_eq_left h.n_le]

theorem rest_viewInit {data : Bytes} (h : data.length < sizeMod) :
    (viewInit data).rest = data := by
  simp only [View.rest, viewInit, Nat.mod_eq_of_lt h, List.take_length, List.drop_zero]

/-- What `data` holds past the part a 32-bit `size_t` can count is not seen. -/
theorem rest_viewInit_append (data : Bytes) :
    (viewInit data).rest ++ data.drop (data.length % sizeMod) = data := by
  simp only [View.rest, viewInit, List.drop_zero, List.take_append_drop]

theorem need_iff {v : View} (h : v.Ok) (n : ℕ) :
    need v n = true ↔ v.bad = false ∧ n ≤ v.rest.length := by
  have hp := h.pos_le
  rw [h.rest_length]
  simp only [need, Bool.not_eq_true', Bool.or_eq_false_iff, decide_eq_false_iff_not, not_lt]
  constructor
  · rintro ⟨⟨hb, -⟩, hn⟩
    exact ⟨hb, hn⟩
  · rintro ⟨hb, hn⟩
    exact ⟨⟨hb, hp⟩, hn⟩

/-- Moving the cursor by `k` unread bytes does not wrap. -/
theorem View.Ok.advance {v : View} (h : v.Ok) {k : ℕ} (hk : k ≤ v.rest.length) :
    ({ v with pos := (v.pos + k) % sizeMod } : View).Ok ∧
      ({ v with pos := (v.pos + k) % sizeMod } : View).rest = v.rest.drop k := by
  have hp := h.pos_le
  have hn := h.n_lt
  rw [h.rest_length] at hk
  have he : (v.pos + k) % sizeMod = v.pos + k := Nat.mod_eq_of_lt (by omega)
  refine ⟨⟨?_, h.n_le, hn⟩, ?_⟩
  · simp only [he]; omega
  · simp only [View.rest, he, List.drop_drop]

theorem View.Ok.drop_rest {v : View} (h : v.Ok) {k : ℕ} (hk : k ≤ v.rest.length) :
    (v.p.drop v.pos).take k = v.rest.take k := by
  have hp := h.pos_le
  rw [h.rest_length] at hk
  simp only [View.rest]
  rw [List.drop_take, List.take_take, Nat.min_eq_left hk]

theorem getU8_of_need {v v' : View} {x : UInt8} (h : v.Ok) (hv : getU8 v = (x, v'))
    (hb : v'.bad = false) : v'.Ok ∧ v.rest = x :: v'.rest := by
  unfold getU8 at hv
  split at hv
  · rename_i hneed
    obtain ⟨-, hle⟩ := (need_iff h 1).mp hneed
    obtain ⟨hok, hrest⟩ := h.advance hle
    obtain ⟨rfl, rfl⟩ := Prod.mk.injEq .. ▸ hv
    refine ⟨hok, ?_⟩
    rw [hrest]
    have htake := h.drop_rest hle
    cases hr : v.rest with
    | nil => simp [hr] at hle
    | cons y ys =>
      have hlt : v.pos < v.p.length := by
        have := h.n_le
        have := h.rest_length
        simp only [hr, List.length_cons] at this
        omega
      rw [hr, List.drop_eq_getElem_cons hlt] at htake
      simp only [List.take_succ_cons, List.take_zero, List.cons.injEq, and_true] at htake
      simp only [List.getD_eq_getElem?_getD, List.getElem?_eq_getElem hlt, Option.getD_some, htake,
        List.drop_succ_cons, List.drop_zero]
  · obtain ⟨rfl, rfl⟩ := Prod.mk.injEq .. ▸ hv
    cases hb

theorem getU8_ok {v : View} (h : v.Ok) : (getU8 v).2.Ok := by
  unfold getU8
  split
  · rename_i hneed
    exact (h.advance ((need_iff h 1).mp hneed).2).1
  · exact ⟨h.pos_le, h.n_le, h.n_lt⟩

theorem getU32_of_need {v v' : View} {x : UInt32} (h : v.Ok) (hv : getU32 v = (x, v'))
    (hb : v'.bad = false) : v'.Ok ∧ v.rest = be32 x.toNat ++ v'.rest := by
  unfold getU32 at hv
  split at hv
  · rename_i hneed
    obtain ⟨-, hle⟩ := (need_iff h 4).mp hneed
    obtain ⟨hok, hrest⟩ := h.advance hle
    obtain ⟨rfl, rfl⟩ := Prod.mk.injEq .. ▸ hv
    refine ⟨hok, ?_⟩
    have hlen : 4 ≤ (v.p.drop v.pos).length := by
      have h₁ := h.n_le
      have h₂ := h.rest_length
      simp only [List.length_drop]
      omega
    rw [hrest, be32_ofNat, be32_ofBe32 hlen, h.drop_rest hle, List.take_append_drop]
  · obtain ⟨rfl, rfl⟩ := Prod.mk.injEq .. ▸ hv
    cases hb

/-- A string that is read is its own encoding, cut from the front of the rest. -/
theorem getString_some {v v' : View} {x : Bytes} (h : v.Ok) (hv : getString v = (some x, v')) :
    v'.Ok ∧ v.rest = lenPrefixed x ++ v'.rest ∧ x.length < 2 ^ 32 := by
  unfold getString at hv
  rcases hg : getU32 v with ⟨len, w⟩
  rw [hg] at hv
  simp only at hv
  split at hv
  · simp at hv
  rename_i hb
  obtain ⟨hw, hrest⟩ := getU32_of_need h hg (by simpa using hb)
  split at hv
  · rename_i hneed
    obtain ⟨-, hle⟩ := (need_iff hw len.toNat).mp hneed
    obtain ⟨hok, hdrop⟩ := hw.advance hle
    simp only [Prod.mk.injEq, Option.some.injEq] at hv
    obtain ⟨rfl, rfl⟩ := hv
    have hlen : ((w.p.drop w.pos).take len.toNat).length = len.toNat := by
      rw [hw.drop_rest hle, List.length_take, Nat.min_eq_left hle]
    refine ⟨hok, ?_, ?_⟩
    · rw [hdrop, hrest, lenPrefixed, hlen, hw.drop_rest hle, List.append_assoc,
        List.take_append_drop]
    · rw [hlen]
      exact len.toNat_lt
  · simp at hv

theorem getString_length {v v' : View} {x : Bytes} (h : v.Ok) (hv : getString v = (some x, v')) :
    v'.Ok ∧ v.rest.length = 4 + x.length + v'.rest.length := by
  obtain ⟨hok, hrest, -⟩ := getString_some h hv
  refine ⟨hok, ?_⟩
  rw [hrest, List.length_append, lenPrefixed_length]

theorem getU8_rest_length {v : View} (h : v.Ok) : (getU8 v).2.rest.length ≤ v.rest.length := by
  rcases hg : getU8 v with ⟨x, v'⟩
  cases hb : v'.bad with
  | false =>
    rw [(getU8_of_need h hg hb).2, List.length_cons]
    exact Nat.le_succ _
  | true =>
    unfold getU8 at hg
    split at hg
    · rename_i hneed
      obtain ⟨-, rfl⟩ := Prod.mk.injEq .. ▸ hg
      exact absurd hb (by rw [((need_iff h 1).mp hneed).1]; nofun)
    · obtain ⟨-, rfl⟩ := Prod.mk.injEq .. ▸ hg
      exact le_rfl

/-! What an encoder wrote is read back. -/

theorem getU8_of_rest {v : View} (h : v.Ok) (hb : v.bad = false) {x : UInt8} {y : Bytes}
    (hr : v.rest = x :: y) :
    ∃ v', getU8 v = (x, v') ∧ v'.Ok ∧ v'.bad = false ∧ v'.rest = y := by
  have hneed : need v 1 = true := (need_iff h 1).mpr ⟨hb, by rw [hr, List.length_cons]; omega⟩
  rcases hg : getU8 v with ⟨x', v'⟩
  have hbad : v'.bad = false := by
    simp only [getU8, hneed, if_true, Prod.mk.injEq] at hg
    obtain ⟨-, rfl⟩ := hg
    exact hb
  obtain ⟨hok, hrest⟩ := getU8_of_need h hg hbad
  rw [hr, List.cons.injEq] at hrest
  obtain ⟨rfl, rfl⟩ := hrest
  exact ⟨v', rfl, hok, hbad, rfl⟩

theorem getU32_of_rest {v : View} (h : v.Ok) (hb : v.bad = false) {n : ℕ} (hn : n < 2 ^ 32)
    {y : Bytes} (hr : v.rest = be32 n ++ y) :
    ∃ v', getU32 v = (UInt32.ofNat n, v') ∧ v'.Ok ∧ v'.bad = false ∧ v'.rest = y := by
  have hneed : need v 4 = true := (need_iff h 4).mpr
    ⟨hb, by rw [hr, List.length_append, be32_length]; omega⟩
  rcases hg : getU32 v with ⟨x, v'⟩
  have hbad : v'.bad = false := by
    simp only [getU32, hneed, if_true, Prod.mk.injEq] at hg
    obtain ⟨-, rfl⟩ := hg
    exact hb
  obtain ⟨hok, hrest⟩ := getU32_of_need h hg hbad
  rw [hr] at hrest
  obtain ⟨hhead, htail⟩ := List.append_inj hrest (by rw [be32_length, be32_length])
  have hx : x.toNat = n := (be32_injective hn x.toNat_lt hhead).symm
  refine ⟨v', ?_, hok, hbad, htail.symm⟩
  rw [← hx, UInt32.ofNat_toNat]

theorem getString_of_rest {v : View} (h : v.Ok) (hb : v.bad = false) {x y : Bytes}
    (hx : x.length < 2 ^ 32) (hr : v.rest = lenPrefixed x ++ y) :
    ∃ v', getString v = (some x, v') ∧ v'.Ok ∧ v'.bad = false ∧ v'.rest = y := by
  rw [lenPrefixed, List.append_assoc] at hr
  obtain ⟨w, hg, hw, hbw, hrw⟩ := getU32_of_rest h hb hx hr
  have hlen : (UInt32.ofNat x.length).toNat = x.length := by
    rw [UInt32.toNat_ofNat']
    omega
  have hle : x.length ≤ w.rest.length := by
    rw [hrw, List.length_append]
    omega
  have hneed : need w x.length = true := (need_iff hw x.length).mpr ⟨hbw, hle⟩
  obtain ⟨hok, hrest⟩ := hw.advance hle
  refine ⟨{ w with pos := (w.pos + x.length) % sizeMod }, ?_, hok, hbw, ?_⟩
  · simp only [getString, hg, hbw, hlen, hneed, Bool.false_eq_true, if_false, if_true,
      hw.drop_rest hle, hrw, List.take_left]
  · rw [hrest, hrw, List.drop_left]

theorem getString_bad {v v' : View} {x : Bytes} (hv : getString v = (some x, v')) :
    v.bad = false := by
  cases hb : v.bad
  · rfl
  · have hneed : need v 4 = false := by simp [need, hb]
    simp [getString, getU32, hneed] at hv

/-! Several strings in a row. -/

/-- The next `n` strings. -/
def takeStrings : ℕ → View → Option (List Bytes × View)
  | 0, v => some ([], v)
  | n + 1, v =>
    match getString v with
    | (none, _) => none
    | (some x, v) => (takeStrings n v).map fun r ↦ (x :: r.1, r.2)

theorem takeStrings_succ {n : ℕ} {v v' : View} {x : Bytes} {xs : List Bytes} :
    takeStrings (n + 1) v = some (x :: xs, v') ↔
      ∃ u, getString v = (some x, u) ∧ takeStrings n u = some (xs, v') := by
  rw [takeStrings]
  rcases hg : getString v with ⟨_ | x', u⟩
  · constructor
    · intro h
      cases h
    · rintro ⟨u', hu, -⟩
      cases hu
  · simp only [Option.map_eq_some_iff, Prod.mk.injEq, List.cons.injEq, Option.some.injEq]
    constructor
    · rintro ⟨r, hr, ⟨hx, hxs⟩, hv⟩
      exact ⟨u, ⟨hx, rfl⟩, by rw [hr, ← hxs, ← hv]⟩
    · rintro ⟨u', ⟨hx, rfl⟩, hr⟩
      exact ⟨_, hr, ⟨hx, rfl⟩, rfl⟩

theorem takeStrings_of_rest {v : View} (h : v.Ok) (hb : v.bad = false) {xs : List Bytes}
    {y : Bytes} (hx : ∀ x ∈ xs, x.length < 2 ^ 32)
    (hr : v.rest = (xs.map lenPrefixed).flatten ++ y) :
    ∃ v', takeStrings xs.length v = some (xs, v') ∧ v'.Ok ∧ v'.bad = false ∧ v'.rest = y := by
  induction xs generalizing v with
  | nil => exact ⟨v, rfl, h, hb, hr⟩
  | cons x xs ih =>
    rw [List.map_cons, List.flatten_cons, List.append_assoc] at hr
    obtain ⟨u, hg, hu, hbu, hru⟩ := getString_of_rest h hb (hx x List.mem_cons_self) hr
    obtain ⟨v', ht, hv', hbv', hrv'⟩ := ih hu hbu (fun x' h' ↦ hx x' (List.mem_cons_of_mem x h')) hru
    exact ⟨v', takeStrings_succ.mpr ⟨u, hg, ht⟩, hv', hbv', hrv'⟩

end Sshd.Wire
