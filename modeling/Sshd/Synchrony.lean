import Sshd.Lib.Trace
import Sshd.Opening

namespace Sshd.Framing

open Lib.Octets Lib.Numbered Lib.Trace Crypto

def said (sent : List Frame) : List Bytes := sent.map Frame.payload

def heard (opened : List Opening) : List Bytes := opened.map Opening.payload

/-- NEWKEYS has gone by. -/
def Switched (payloads : List Bytes) : Prop := ∃ p ∈ payloads, p.head? = some 21

/-- The packets behind NEWKEYS are the encrypted ones. -/
def Switches {α : Type} (enc : α → Bool) (payload : α → Bytes) (l : List α) : Prop :=
  EachAfter (fun pre a ↦ enc a = true ↔ Switched (pre.map payload)) l

variable (P : Primitives)

/-- The packet was opened as it was framed: in the same mode, under the same
key and number. -/
structure Matches (f : Frame) (o : Opening) : Prop where
  enc : o.enc = f.enc
  key : f.enc = true → o.key = f.key
  seq : o.seq = f.seq
  packet : o.packet = f.bytes P
  payload : o.payload = f.payload

/-- What was opened are the first of the packets that were sent. -/
def Follows (sent : List Frame) (opened : List Opening) : Prop :=
  ∃ read rest, sent = read ++ rest ∧ List.Forall₂ (Matches P) read opened

/-- How a reader stands that has opened `opened`: in which mode and with which
key it reads on, and what of the stream it has not read. -/
structure Reader (opened : List Opening) (sent : List Frame) (enc : Bool) (key inbound : Bytes) :
    Prop where
  follows : Follows P sent opened
  mode : enc = true ↔ Switched (heard opened)
  keyed : enc = true → ∀ f ∈ sent, f.enc = true → f.key = key
  stream : (opened.map Opening.packet).flatten ++ inbound <+: (sent.map (Frame.bytes P)).flatten

theorem not_switched_nil : ¬Switched [] := by
  rintro ⟨p, hp, -⟩
  cases hp

theorem switched_append {ps qs : List Bytes} : Switched (ps ++ qs) ↔ Switched ps ∨ Switched qs := by
  simp only [Switched, List.mem_append, or_and_right, exists_or]

theorem switched_singleton {p : Bytes} : Switched [p] ↔ p.head? = some 21 := by
  simp [Switched]

/-- Only NEWKEYS switches. -/
theorem switched_snoc {ps : List Bytes} {p : Bytes} (h : p.head? ≠ some 21) :
    Switched (ps ++ [p]) ↔ Switched ps := by
  rw [switched_append, switched_singleton]
  exact or_iff_left h

theorem said_append (fs gs : List Frame) : said (fs ++ gs) = said fs ++ said gs := List.map_append

theorem heard_append (os ps : List Opening) : heard (os ++ ps) = heard os ++ heard ps :=
  List.map_append

section
variable {α : Type} {enc : α → Bool} {payload : α → Bytes} {l : List α}

theorem Switches.nil : Switches enc payload [] := eachAfter_nil _

theorem Switches.snoc (h : Switches enc payload l) {a : α}
    (ha : enc a = true ↔ Switched (l.map payload)) : Switches enc payload (l ++ [a]) :=
  EachAfter.snoc h ha

end

/-- Packets that do not switch all go out in one mode. -/
theorem Switches.talk {sent fs : List Frame} {enc : Bool} (h : Switches Frame.enc Frame.payload sent)
    (henc : enc = true ↔ Switched (said sent))
    (hfs : ∀ f ∈ fs, f.enc = enc ∧ f.payload.head? ≠ some 21) :
    Switches Frame.enc Frame.payload (sent ++ fs) ∧
      (Switched (said (sent ++ fs)) ↔ Switched (said sent)) := by
  induction fs using List.reverseRecOn with
  | nil =>
    rw [List.append_nil]
    exact ⟨h, Iff.rfl⟩
  | append_singleton fs f ih =>
    obtain ⟨ih, hsame⟩ := ih fun g hg ↦ hfs g (List.mem_append_left _ hg)
    obtain ⟨he, hn⟩ := hfs f (List.mem_append_right _ (List.mem_singleton_self f))
    rw [← List.append_assoc, said_append (sent ++ fs)]
    refine ⟨ih.snoc ?_, (switched_snoc hn).trans hsame⟩
    rw [he]
    exact henc.trans hsame.symm

/-- Without encryption there is no key. -/
theorem unframe_plain (key key' : Bytes) (seq : ℕ) (rxBuf : Bytes) :
    unframe P false key seq rxBuf = unframe P false key' seq rxBuf := rfl

variable {P} {sent : List Frame} {opened : List Opening}

theorem Follows.nil (sent : List Frame) : Follows P sent [] := ⟨[], sent, rfl, .nil⟩

/-- More may be sent. -/
theorem Follows.append (h : Follows P sent opened) (more : List Frame) :
    Follows P (sent ++ more) opened := by
  obtain ⟨read, rest, rfl, hm⟩ := h
  exact ⟨read, rest ++ more, List.append_assoc .., hm⟩

theorem forall₂_payload {read : List Frame} (h : List.Forall₂ (Matches P) read opened) :
    heard opened = said read := by
  induction h with
  | nil => rfl
  | cons ho _ ih => exact congrArg₂ List.cons ho.payload ih

theorem forall₂_packet {read : List Frame} (h : List.Forall₂ (Matches P) read opened) :
    opened.map Opening.packet = read.map (Frame.bytes P) := by
  induction h with
  | nil => rfl
  | cons ho _ ih => rw [List.map_cons, List.map_cons, ho.packet, ih]

theorem Follows.payloads (h : Follows P sent opened) :
    heard opened <+: said sent := by
  obtain ⟨read, rest, rfl, hm⟩ := h
  rw [forall₂_payload hm, said_append]
  exact List.prefix_append _ _

/-- What a reader finds of the stream behind the packets it has opened are the others. -/
theorem Follows.unopened (h : Follows P sent opened) {unread : Bytes}
    (hs : (opened.map Opening.packet).flatten ++ unread = (sent.map (Frame.bytes P)).flatten) :
    unread = ((sent.drop opened.length).map (Frame.bytes P)).flatten := by
  obtain ⟨read, rest, rfl, hm⟩ := h
  rw [forall₂_packet hm, List.map_append, List.flatten_append, List.append_cancel_left_eq] at hs
  rw [← hm.length_eq, List.drop_left, hs]

/-- A sender whose packets the receiver has room for. -/
structure Sender (sent : List Frame) : Prop where
  numbered : sent.map Frame.seq = List.range sent.length
  padded : ∀ f ∈ sent, f.pad.length = padLen f.enc f.payload.length
  short : ∀ f ∈ sent, packetLen f.enc f.payload.length ≤ 35000
  switches : Switches Frame.enc Frame.payload sent

theorem Sender.seq_eq (hs : Sender sent) {pre post : List Frame} {f : Frame}
    (h : sent = pre ++ f :: post) : f.seq = pre.length := by
  subst h
  have hseq := congrArg (·[pre.length]?) hs.numbered
  have hlt : pre.length < (pre ++ f :: post).length := by simp
  rw [List.getElem?_map, List.getElem?_append_right le_rfl, Nat.sub_self,
    List.getElem?_range hlt] at hseq
  simpa using hseq

/-- What is on its way is numbered on; it is encrypted as the reader will expect
it, and under the reader's key. -/
def InFlight (sent : List Frame) (opened : List Opening) (enc : Bool) (key : Bytes) (seq : ℕ) : Prop :=
  ∀ between f rest, sent.drop opened.length = between ++ f :: rest →
    f.seq = seq + between.length ∧ (f.enc = true ↔ enc = true ∨ Switched (said between)) ∧
      (enc = true → f.key = key)

theorem Follows.inFlight (hf : Follows P sent opened) (hs : Sender sent) {enc : Bool} {key : Bytes}
    {seq : ℕ} (hmode : enc = true ↔ Switched (heard opened))
    (hkey : enc = true → ∀ f ∈ sent, f.enc = true → f.key = key) (hseq : seq = opened.length) :
    InFlight sent opened enc key seq := by
  obtain ⟨read, rest, rfl, hm⟩ := hf
  intro between f after hdrop
  rw [← hm.length_eq, List.drop_left] at hdrop
  have hsplit : read ++ rest = (read ++ between) ++ f :: after := by
    rw [hdrop, List.append_assoc]
  have henc : f.enc = true ↔ enc = true ∨ Switched (said between) := by
    have hsw : f.enc = true ↔ Switched (said (read ++ between)) := hs.switches _ f after hsplit
    rw [hsw, said_append, switched_append, ← forall₂_payload hm, hmode]
  refine ⟨?_, henc, fun he ↦ hkey he f (hsplit ▸ by simp) (henc.mpr (.inl he))⟩
  rw [hs.seq_eq hsplit, hseq, List.length_append, hm.length_eq]

/-- What was opened was opened as it was framed. -/
theorem Follows.matches (h : Follows P sent opened) {n : ℕ} {f : Frame} {o : Opening}
    (hf : sent[n]? = some f) (ho : opened[n]? = some o) : Matches P f o := by
  obtain ⟨read, rest, rfl, hm⟩ := h
  obtain ⟨hlt, rfl⟩ := List.getElem?_eq_some_iff.mp ho
  have hlt' : n < read.length := hm.length_eq ▸ hlt
  rw [List.getElem?_append_left hlt', List.getElem?_eq_getElem hlt'] at hf
  obtain rfl := Option.some.inj hf
  exact List.forall₂_iff_get.mp hm |>.2 n hlt' hlt

theorem Follows.mem_matches (h : Follows P sent opened) {o : Opening} (ho : o ∈ opened) :
    ∃ f ∈ sent, Matches P f o := by
  obtain ⟨n, hn⟩ := List.mem_iff_getElem?.mp ho
  obtain ⟨hlt, -⟩ := List.getElem?_eq_some_iff.mp hn
  have hlt' : n < sent.length := by
    obtain ⟨read, rest, rfl, hm⟩ := h
    rw [List.length_append, hm.length_eq]
    omega
  exact ⟨sent[n], List.getElem_mem hlt', h.matches (List.getElem?_eq_getElem hlt') hn⟩

section
variable {enc : Bool} {key inbound : Bytes}

/-- Either everything was read, or the next packet was framed for the reader. -/
theorem Reader.next (hr : Reader P opened sent enc key inbound) (hs : Sender sent) :
    (Follows P sent opened ∧ opened.length = sent.length ∧ inbound = []) ∨
      ∃ f read rest, sent = read ++ f :: rest ∧ List.Forall₂ (Matches P) read opened ∧
        f.enc = enc ∧ (enc = true → f.key = key) ∧ f.seq = opened.length ∧
        inbound <+: f.bytes P ++ (rest.map (Frame.bytes P)).flatten := by
  obtain ⟨read, rest, rfl, hm⟩ := hr.follows
  have hstream := hr.stream
  rw [forall₂_packet hm, List.map_append, List.flatten_append,
    List.prefix_append_right_inj] at hstream
  cases rest with
  | nil =>
    refine .inl ⟨hr.follows, ?_, List.prefix_nil.mp hstream⟩
    rw [List.append_nil, hm.length_eq]
  | cons f rest =>
    rw [List.map_cons, List.flatten_cons] at hstream
    have hmode : f.enc = true ↔ Switched (said read) := hs.switches read f rest rfl
    rw [← forall₂_payload hm, ← hr.mode] at hmode
    refine .inr ⟨f, read, rest, rfl, hm, Bool.eq_iff_iff.mpr hmode, fun he ↦ ?_, ?_, hstream⟩
    · exact hr.keyed he f (by simp) (hmode.mpr he)
    · rw [← hm.length_eq]
      exact hs.seq_eq rfl

theorem unframe_reader {f : Frame} {seq : ℕ} (hkey : enc = true → f.key = key) (henc : f.enc = enc)
    (hseq : f.seq = seq) (rxBuf : Bytes) :
    Framing.unframe P enc key seq rxBuf = Framing.unframe P f.enc f.key f.seq rxBuf := by
  rw [henc, hseq]
  cases enc with
  | false => exact unframe_plain P _ _ _ _
  | true => rw [hkey rfl]

/-- No packet is misread, and the one that is opened is the next one. -/
theorem Reader.unframe (hr : Reader P opened sent enc key inbound) (hs : Sender sent)
    {rxBuf more : Bytes} (hin : inbound = rxBuf ++ more) :
    unframe P enc key opened.length rxBuf ≠ .bad ∧
      ∀ payload rest, unframe P enc key opened.length rxBuf = .got payload rest →
        Follows P sent (opened ++
          [⟨enc, key, opened.length, rxBuf.take (rxBuf.length - rest.length), payload⟩]) := by
  obtain ⟨-, -, hnil⟩ | ⟨f, read, rest, rfl, hm, henc, hkey, hseq, hstream⟩ := hr.next hs
  · obtain ⟨rfl, -⟩ := List.append_eq_nil_iff.mp (hin.symm.trans hnil)
    cases enc <;> exact ⟨nofun, nofun⟩
  have hf : f ∈ read ++ f :: rest := by simp
  have hpad := hs.padded f hf
  have hshort := hs.short f hf
  rw [unframe_reader hkey henc hseq]
  rw [hin] at hstream
  have hbuf : rxBuf <+: f.bytes P ++ (rest.map (Frame.bytes P)).flatten :=
    (List.prefix_append rxBuf more).trans hstream
  by_cases hlt : rxBuf.length < (f.bytes P).length
  · have hcut : rxBuf <+: f.bytes P :=
      List.prefix_of_prefix_length_le hbuf (List.prefix_append _ _) hlt.le
    rw [unframe_cut P f.enc f.key f.seq f.payload f.pad rxBuf hpad hshort hcut hlt]
    exact ⟨nofun, nofun⟩
  · obtain ⟨r, rfl⟩ : f.bytes P <+: rxBuf :=
      List.prefix_of_prefix_length_le (List.prefix_append _ _) hbuf (not_lt.mp hlt)
    have hgot := unframe_frame P f.enc f.key f.seq f.payload f.pad r hpad hshort
    change Framing.unframe P f.enc f.key f.seq (f.bytes P ++ r) = _ at hgot
    rw [hgot]
    refine ⟨nofun, fun payload rest' h ↦ ⟨read ++ [f], rest, by simp, ?_⟩⟩
    obtain ⟨rfl, rfl⟩ := Parsed.got.inj h
    refine List.rel_append hm (.cons ⟨henc.symm, fun he ↦ ?_, hseq.symm, ?_, rfl⟩ .nil)
    · exact (hkey (henc ▸ he)).symm
    · rw [List.length_append, Nat.add_sub_cancel, List.take_left' rfl]

/-- A reader that waits although everything has arrived has read everything. -/
theorem Reader.done (hr : Reader P opened sent enc key inbound) (hs : Sender sent)
    (hall : (opened.map Opening.packet).flatten ++ inbound = (sent.map (Frame.bytes P)).flatten)
    (hw : Framing.unframe P enc key opened.length inbound = .needMore) :
    heard opened = said sent ∧ inbound = [] := by
  obtain ⟨⟨read, rest, rfl, hm⟩, hlen, hnil⟩ | ⟨f, read, rest, rfl, hm, henc, hkey, hseq, -⟩ :=
    hr.next hs
  · rw [List.length_append, ← hm.length_eq] at hlen
    obtain rfl : rest = [] := List.length_eq_zero_iff.mp (by omega)
    exact ⟨by rw [forall₂_payload hm, List.append_nil], hnil⟩
  have hf : f ∈ read ++ f :: rest := by simp
  rw [forall₂_packet hm, List.map_append, List.flatten_append] at hall
  have hin := List.append_cancel_left hall
  rw [List.map_cons, List.flatten_cons] at hin
  have hgot := unframe_frame P f.enc f.key f.seq f.payload f.pad
    (rest.map (Frame.bytes P)).flatten (hs.padded f hf) (hs.short f hf)
  change Framing.unframe P f.enc f.key f.seq (f.bytes P ++ _) = _ at hgot
  rw [← hin, ← unframe_reader hkey henc hseq, hw] at hgot
  cases hgot

end

end Sshd.Framing
