import Sshd.Wire

namespace Sshd.Wire

open Lib.Octets

/-! Decoders called in any order. -/

/-- What an encoder writes and a decoder reads back. -/
inductive Field
  | u8 (x : UInt8)
  | u32 (x : UInt32)
  | string (x : Bytes)

/-- A call of a decoder. -/
inductive Call
  | u8
  | u32
  | string
  | skip

/-- What a call returns, and the cursor behind it. -/
def Call.get (v : View) : Call → Option Field × View
  | .u8 => let (x, v) := getU8 v; (some (.u8 x), v)
  | .u32 => let (x, v) := getU32 v; (some (.u32 x), v)
  | .string => let (x, v) := getString v; (x.map .string, v)
  | .skip => (none, (skipString v).2)

def Call.run (v : View) (c : Call) : View := (c.get v).2

/-- A stretch of the buffer. -/
structure Span where
  off : ℕ
  len : ℕ

def Span.bytes (s : Span) (p : Bytes) : Bytes := (p.drop s.off).take s.len

/-- What a call reads of the buffer, or hands out a pointer to. -/
def Call.spans (v : View) : Call → List Span
  | .u8 => if need v 1 then [⟨v.pos, 1⟩] else []
  | .u32 => if need v 4 then [⟨v.pos, 4⟩] else []
  | .string | .skip =>
    if need v 4 then
      let (len, w) := getU32 v
      ⟨v.pos, 4⟩ :: if need w len.toNat then [⟨w.pos, len.toNat⟩] else []
    else []

/-- What one call can do to a cursor: it moves over what it reads, and over
nothing once it is bad. -/
structure Moves (v v' : View) (spans : List Span) : Prop where
  ok : v'.Ok
  p : v'.p = v.p
  n : v'.n = v.n
  inside : ∀ s ∈ spans, s.off + s.len ≤ v.n
  pos : v'.pos = v.pos + (spans.map Span.len).sum
  bad : v.bad = true → v'.bad = true ∧ spans = []

section
variable {v w : View}

theorem Moves.trans {v' : View} {spans spans' : List Span} (h : Moves v w spans)
    (h' : Moves w v' spans') : Moves v v' (spans ++ spans') := by
  refine ⟨h'.ok, h'.p.trans h.p, h'.n.trans h.n, fun s hs ↦ ?_, ?_, fun hb ↦ ?_⟩
  · exact (List.mem_append.mp hs).elim (h.inside s) fun hs' ↦ h.n ▸ h'.inside s hs'
  · rw [h'.pos, h.pos, List.map_append, List.sum_append, Nat.add_assoc]
  · obtain ⟨hw, rfl⟩ := h.bad hb
    obtain ⟨hv', rfl⟩ := h'.bad hw
    exact ⟨hv', rfl⟩

/-- The cursor goes over `k` bytes that `need` has found. -/
theorem moves_over (h : v.Ok) {k : ℕ} (hk : need v k = true) :
    Moves v { v with pos := (v.pos + k) % sizeMod } [⟨v.pos, k⟩] := by
  obtain ⟨hb, hle⟩ := (need_iff h k).mp hk
  have hp := h.pos_le
  have hn := h.n_lt
  rw [h.rest_length] at hle
  refine ⟨(h.advance (by rwa [h.rest_length])).1, rfl, rfl, fun s hs ↦ ?_, ?_, fun hb' ↦ ?_⟩
  · rw [List.mem_singleton.mp hs]
    change v.pos + k ≤ v.n
    omega
  · exact Nat.mod_eq_of_lt (by omega)
  · rw [hb] at hb'
    cases hb'

/-- The cursor goes bad. -/
theorem moves_bad (h : v.Ok) : Moves v { v with bad := true } [] :=
  ⟨⟨h.pos_le, h.n_le, h.n_lt⟩, rfl, rfl, by simp, rfl, fun _ ↦ ⟨rfl, rfl⟩⟩

theorem getU8_moves (h : v.Ok) : Moves v (getU8 v).2 (Call.u8.spans v) := by
  cases hneed : need v 1 with
  | true =>
    simp only [getU8, Call.spans, hneed, if_true]
    exact moves_over h hneed
  | false =>
    simp only [getU8, Call.spans, hneed, Bool.false_eq_true, if_false]
    exact moves_bad h

theorem getU32_moves (h : v.Ok) : Moves v (getU32 v).2 (Call.u32.spans v) := by
  cases hneed : need v 4 with
  | true =>
    simp only [getU32, Call.spans, hneed, if_true]
    exact moves_over h hneed
  | false =>
    simp only [getU32, Call.spans, hneed, Bool.false_eq_true, if_false]
    exact moves_bad h

theorem getU32_bad (h : need v 4 = false) : getU32 v = (0, { v with bad := true }) := by
  rw [getU32, h]
  rfl

theorem getU32_good {x : UInt32} (hg : getU32 v = (x, w)) (hb : w.bad = false) :
    need v 4 = true ∧ w.p = v.p := by
  cases hneed : need v 4 with
  | false =>
    rw [getU32_bad hneed] at hg
    obtain ⟨-, rfl⟩ := Prod.mk.injEq .. ▸ hg
    cases hb
  | true =>
    rw [getU32, if_pos hneed] at hg
    obtain ⟨-, rfl⟩ := Prod.mk.injEq .. ▸ hg
    exact ⟨rfl, rfl⟩

/-- The length in front of a string is there. -/
theorem getU32_need (h : v.Ok) (hneed : need v 4 = true) :
    ∃ x w, getU32 v = (x, w) ∧ w.bad = false ∧ Moves v w [⟨v.pos, 4⟩] := by
  have hg : getU32 v = (_, { v with pos := (v.pos + 4) % sizeMod }) := if_pos hneed
  exact ⟨_, _, hg, ((need_iff h 4).mp hneed).1, moves_over h hneed⟩

theorem getString_moves (h : v.Ok) : Moves v (getString v).2 (Call.string.spans v) := by
  cases hneed : need v 4 with
  | false =>
    simp only [getString, Call.spans, getU32_bad hneed, hneed, if_true, Bool.false_eq_true,
      if_false]
    exact moves_bad h
  | true =>
    obtain ⟨x, w, hg, hbw, hu⟩ := getU32_need h hneed
    cases hk : need w x.toNat with
    | true =>
      simp only [getString, Call.spans, hg, hbw, hneed, hk, if_true, Bool.false_eq_true, if_false]
      exact hbw ▸ hu.trans (moves_over hu.ok hk)
    | false =>
      simp only [getString, Call.spans, hg, hbw, hneed, hk, if_true, Bool.false_eq_true, if_false]
      exact hu.trans (moves_bad hu.ok)

/-- The step lemma. -/
theorem Call.moves (h : v.Ok) (c : Call) : Moves v (c.run v) (c.spans v) := by
  cases c with
  | u8 => exact getU8_moves h
  | u32 => exact getU32_moves h
  | string => exact getString_moves h
  | skip => exact getString_moves h

/-- A string that is returned is a part of the buffer. -/
theorem getString_span (h : v.Ok) {x : Bytes} (hv : getString v = (some x, w)) :
    ∃ s ∈ Call.string.spans v, s.len = x.length ∧ x = s.bytes v.p := by
  unfold getString at hv
  rcases hg : getU32 v with ⟨len, u⟩
  have hu := getU32_moves h
  rw [hg] at hv hu
  simp only at hv hu
  split at hv
  · simp at hv
  rename_i hb
  split at hv
  swap
  · simp at hv
  rename_i hk
  obtain ⟨hneed, -⟩ := getU32_good hg (Bool.eq_false_iff.mpr hb)
  obtain ⟨-, hle⟩ := (need_iff hu.ok len.toNat).mp hk
  simp only [Prod.mk.injEq, Option.some.injEq] at hv
  obtain ⟨rfl, -⟩ := hv
  refine ⟨⟨u.pos, len.toNat⟩, ?_, ?_, ?_⟩
  · rw [Call.spans, if_pos hneed, hg]
    simp [hk]
  · rw [hu.ok.drop_rest hle, List.length_take, Nat.min_eq_left hle]
  · rw [Span.bytes, ← hu.p]

end

/-! A call reads nothing of the buffer but its stretches of it. -/

section
variable {v : View} {q : Bytes}

theorem getD_eq_headD_take (p : Bytes) (k : ℕ) : p.getD k 0 = ((p.drop k).take 1).headD 0 := by
  rw [List.headD_eq_head?_getD, List.head?_take, if_neg one_ne_zero, List.head?_drop,
    List.getD_eq_getElem?_getD]

theorem ofBe32_take (bs : Bytes) : ofBe32 (bs.take 4) = ofBe32 bs := by
  rcases bs with _ | ⟨a, _ | ⟨b, _ | ⟨c, _ | ⟨d, bs⟩⟩⟩⟩ <;> rfl

theorem getU8_reads (h : ∀ s ∈ Call.u8.spans v, s.bytes q = s.bytes v.p) :
    getU8 { v with p := q } = ((getU8 v).1, { (getU8 v).2 with p := q }) := by
  have hq : need { v with p := q } 1 = need v 1 := rfl
  cases hneed : need v 1 with
  | true =>
    have hs : ⟨v.pos, 1⟩ ∈ Call.u8.spans v := by simp only [Call.spans, hneed, if_true,
      List.mem_singleton]
    have hb := h _ hs
    simp only [Span.bytes] at hb
    simp only [getU8, hq, hneed, if_true, getD_eq_headD_take, hb]
  | false => simp only [getU8, hq, hneed, Bool.false_eq_true, if_false]

theorem getU32_reads (h : need v 4 = true → Span.bytes ⟨v.pos, 4⟩ q = Span.bytes ⟨v.pos, 4⟩ v.p) :
    getU32 { v with p := q } = ((getU32 v).1, { (getU32 v).2 with p := q }) := by
  have hq : need { v with p := q } 4 = need v 4 := rfl
  cases hneed : need v 4 with
  | true =>
    have hb := h hneed
    simp only [Span.bytes] at hb
    rw [getU32, getU32, hq, if_pos hneed, if_pos hneed, ← ofBe32_take, hb, ofBe32_take]
  | false => rw [getU32_bad hneed, getU32_bad (hq.trans hneed)]

theorem getString_reads (h : ∀ s ∈ Call.string.spans v, s.bytes q = s.bytes v.p) :
    getString { v with p := q } = ((getString v).1, { (getString v).2 with p := q }) := by
  have hlen : getU32 { v with p := q } = ((getU32 v).1, { (getU32 v).2 with p := q }) := by
    apply getU32_reads
    intro hneed
    apply h
    simp only [Call.spans, hneed, if_true, List.mem_cons, true_or]
  rcases hg : getU32 v with ⟨len, w⟩
  rw [hg] at hlen
  have hq : need { w with p := q } len.toNat = need w len.toNat := rfl
  simp only [getString, hlen, hg, hq]
  cases hbw : w.bad with
  | true => simp only [if_true, hbw]
  | false =>
    cases hk : need w len.toNat with
    | false => simp only [Bool.false_eq_true, if_false]
    | true =>
      obtain ⟨hneed, hp⟩ := getU32_good hg hbw
      have hb : Span.bytes ⟨w.pos, len.toNat⟩ q = Span.bytes ⟨w.pos, len.toNat⟩ v.p := by
        apply h
        simp only [Call.spans, hneed, hg, hk, if_true]
        exact List.mem_cons_of_mem _ (List.mem_singleton_self _)
      simp only [Span.bytes] at hb
      simp only [Bool.false_eq_true, if_false, if_true, hb, hp]

/-- With another buffer that holds the same bytes there, a call does the same. -/
theorem Call.reads (c : Call) (h : ∀ s ∈ c.spans v, s.bytes q = s.bytes v.p) :
    c.get { v with p := q } = ((c.get v).1, { c.run v with p := q }) := by
  cases c with
  | u8 => simp only [Call.run, Call.get, getU8_reads h]
  | u32 =>
    have hg : getU32 { v with p := q } = ((getU32 v).1, { (getU32 v).2 with p := q }) := by
      apply getU32_reads
      intro hneed
      apply h
      simp only [Call.spans, hneed, if_true, List.mem_singleton]
    simp only [Call.run, Call.get, hg]
  | string => simp only [Call.run, Call.get, getString_reads h]
  | skip => simp only [Call.run, Call.get, skipString, getString_reads h]

end

/-! Whole sequences of calls. -/

section
variable {v : View}

theorem run_ok (h : v.Ok) (calls : List Call) :
    (calls.foldl Call.run v).Ok ∧ (calls.foldl Call.run v).p = v.p ∧
      (calls.foldl Call.run v).n = v.n := by
  induction calls generalizing v with
  | nil => exact ⟨h, rfl, rfl⟩
  | cons c calls ih =>
    have hm := c.moves h
    obtain ⟨hok, hp, hn⟩ := ih hm.ok
    exact ⟨hok, hp.trans hm.p, hn.trans hm.n⟩

/-- Once bad, a cursor stays where it is. -/
theorem run_bad (h : v.Ok) (hb : v.bad = true) (calls : List Call) :
    (calls.foldl Call.run v).bad = true ∧ (calls.foldl Call.run v).pos = v.pos := by
  induction calls generalizing v with
  | nil => exact ⟨hb, rfl⟩
  | cons c calls ih =>
    have hm := c.moves h
    obtain ⟨hb', hnone⟩ := hm.bad hb
    obtain ⟨hbad, hpos⟩ := ih hm.ok hb'
    refine ⟨hbad, hpos.trans ?_⟩
    rw [hm.pos, hnone]
    rfl

end

/-! Round trips. -/

def Field.put (s : Bytes) : Field → Bytes
  | .u8 x => putU8 s x
  | .u32 x => putU32 s x
  | .string x => putString s x

/-- The decoder for a field. -/
def Field.call : Field → Call
  | .u8 _ => .u8
  | .u32 _ => .u32
  | .string _ => .string

/-- The length of a string fits into 32 bits. -/
def Field.Fits : Field → Prop
  | .string x => x.length < 2 ^ 32
  | _ => True

def encode (fields : List Field) : Bytes := fields.foldl Field.put []

def decode (v : View) : List Call → List (Option Field) × View
  | [] => ([], v)
  | c :: calls =>
    let (x, v) := c.get v
    let (xs, v) := decode v calls
    (x :: xs, v)

def Field.octets : Field → Bytes
  | .u8 x => [x]
  | .u32 x => be32 x.toNat
  | .string x => lenPrefixed x

theorem put_eq (s : Bytes) (f : Field) : f.put s = s ++ f.octets := by
  cases f with
  | u8 x => rfl
  | u32 x => rfl
  | string x => exact putString_eq s x

theorem encode_eq (fields : List Field) : encode fields = (fields.map Field.octets).flatten := by
  have h (s : Bytes) : fields.foldl Field.put s = s ++ (fields.map Field.octets).flatten := by
    induction fields generalizing s with
    | nil => rw [List.map_nil, List.flatten_nil, List.append_nil, List.foldl_nil]
    | cons f fields ih =>
      rw [List.foldl_cons, ih, put_eq, List.map_cons, List.flatten_cons, List.append_assoc]
  exact h []

/-- A field is read back by its own decoder. -/
theorem get_of_rest {v : View} (h : v.Ok) (hb : v.bad = false) {f : Field} (hf : f.Fits) {y : Bytes}
    (hr : v.rest = f.octets ++ y) :
    ∃ v', f.call.get v = (some f, v') ∧ v'.Ok ∧ v'.bad = false ∧ v'.rest = y := by
  cases f with
  | u8 x =>
    obtain ⟨v', hg, hok⟩ := getU8_of_rest h hb hr
    exact ⟨v', by rw [Field.call, Call.get, hg], hok⟩
  | u32 x =>
    obtain ⟨v', hg, hok⟩ := getU32_of_rest h hb x.toNat_lt hr
    exact ⟨v', by rw [Field.call, Call.get, hg, UInt32.ofNat_toNat], hok⟩
  | string x =>
    obtain ⟨v', hg, hok⟩ := getString_of_rest h hb hf hr
    exact ⟨v', by rw [Field.call, Call.get, hg]; rfl, hok⟩

theorem decode_of_rest {v : View} (h : v.Ok) (hb : v.bad = false) {fields : List Field}
    (hf : ∀ f ∈ fields, f.Fits) {y : Bytes} (hr : v.rest = (fields.map Field.octets).flatten ++ y) :
    ∃ v', decode v (fields.map Field.call) = (fields.map some, v') ∧ v'.Ok ∧ v'.bad = false ∧
      v'.rest = y ∧ v'.n = v.n := by
  induction fields generalizing v with
  | nil => exact ⟨v, rfl, h, hb, hr, rfl⟩
  | cons f fields ih =>
    rw [List.map_cons, List.flatten_cons, List.append_assoc] at hr
    obtain ⟨u, hg, hu, hbu, hru⟩ := get_of_rest h hb (hf f List.mem_cons_self) hr
    obtain ⟨v', hd, hv', hbv', hrv', hn⟩ := ih hu hbu (fun g hg ↦ hf g (.tail f hg)) hru
    have hun : u.n = v.n := by
      have hm := (f.call.moves h).n
      rwa [Call.run, hg] at hm
    refine ⟨v', ?_, hv', hbv', hrv', hn.trans hun⟩
    rw [List.map_cons, decode, hg]
    simp only [hd, List.map_cons]

/-- What holds of a cursor over `buf`, and of a call on it. -/
structure Guarded (buf : Bytes) (v : View) (c : Call) : Prop where
  p : v.p = buf
  pos : v.pos ≤ v.n
  n : v.n ≤ buf.length
  inside : ∀ s ∈ c.spans v, s.off + s.len ≤ v.n
  reads : ∀ q, (∀ s ∈ c.spans v, s.bytes q = s.bytes buf) →
    c.get { v with p := q } = ((c.get v).1, { c.run v with p := q })
  returned : ∀ x, (c.get v).1 = some (.string x) →
    ∃ s ∈ c.spans v, s.len = x.length ∧ x = s.bytes buf
  moved : (c.run v).pos = v.pos + ((c.spans v).map Span.len).sum
  bad : v.bad = true →
    ∀ more : List Call, (more.foldl Call.run v).bad = true ∧ (more.foldl Call.run v).pos = v.pos

theorem get_returned {v : View} (h : v.Ok) {c : Call} {x : Bytes}
    (hx : (c.get v).1 = some (.string x)) :
    ∃ s ∈ c.spans v, s.len = x.length ∧ x = s.bytes v.p := by
  cases c with
  | u8 => cases hx
  | u32 => cases hx
  | string =>
    rcases hg : getString v with ⟨_ | y, w⟩
    · rw [Call.get, hg] at hx
      cases hx
    · rw [Call.get, hg] at hx
      cases hx
      exact getString_span h hg
  | skip => cases hx

/-- No buffer and no order of calls leads a decoder out of the buffer, and
what the encoders wrote is read back from in front of anything. -/
theorem decoders_guarded_and_exact :
    (∀ (buf : Bytes) (calls : List Call) (c : Call),
      Guarded buf (calls.foldl Call.run (viewInit buf)) c) ∧
    ∀ (fields : List Field) (trailing : Bytes), (∀ f ∈ fields, f.Fits) →
      (encode fields ++ trailing).length < sizeMod →
      ∃ v, decode (viewInit (encode fields ++ trailing)) (fields.map Field.call) =
          (fields.map some, v) ∧
        v.bad = false ∧ v.pos = (encode fields).length ∧ v.rest = trailing := by
  constructor
  · intro buf calls c
    obtain ⟨hok, hp, hn⟩ := run_ok (viewInit_ok buf) calls
    have hm := c.moves hok
    refine ⟨hp, hok.pos_le, ?_, hm.inside, fun q hq ↦ c.reads fun s hs ↦ ?_, fun x hx ↦ ?_, hm.pos,
      fun hb ↦ run_bad hok hb⟩
    · rw [hn]
      exact Nat.mod_le _ _
    · rw [hp]
      exact hq s hs
    · obtain ⟨s, hs, hlen, hbytes⟩ := get_returned hok hx
      rw [hp] at hbytes
      exact ⟨s, hs, hlen, hbytes⟩
  · intro fields trailing hf hlen
    have hr : (viewInit (encode fields ++ trailing)).rest =
        (fields.map Field.octets).flatten ++ trailing := by
      rw [rest_viewInit hlen, encode_eq]
    obtain ⟨v, hd, hok, hb, hrest, hn⟩ := decode_of_rest (viewInit_ok _) rfl hf hr
    refine ⟨v, hd, hb, ?_, hrest⟩
    have hleft := hok.rest_length
    have hpos := hok.pos_le
    have hall : v.n = (encode fields ++ trailing).length := hn.trans (Nat.mod_eq_of_lt hlen)
    rw [hrest] at hleft
    rw [List.length_append] at hall
    omega

/-- A byte, a word and an empty string, and a length behind them that
nothing backs. -/
theorem decoders_guarded_and_exact_short :
    (∃ v, decode (viewInit (encode [.u8 5, .u32 7, .string []] ++ be32 (2 ^ 32 - 1)))
        [.u8, .u32, .string] = ([some (.u8 5), some (.u32 7), some (.string [])], v) ∧
      v.bad = false ∧ v.pos = 9 ∧ v.rest = be32 (2 ^ 32 - 1)) ∧
    Guarded (be32 (2 ^ 32 - 1)) ([Call.string].foldl Call.run (viewInit (be32 (2 ^ 32 - 1))))
      .string := by
  refine ⟨decoders_guarded_and_exact.2 [.u8 5, .u32 7, .string []] (be32 (2 ^ 32 - 1)) ?_
    (by decide), decoders_guarded_and_exact.1 _ _ _⟩
  simp [Field.Fits]

end Sshd.Wire
