import Sshd.Framing
import Sshd.Lib.Numbered

namespace Sshd.Framing

open Lib.Octets Lib.Numbered Crypto

/-- A packet as it was opened: under which mode, key and sequence number. -/
structure Opening where
  enc : Bool
  key : Bytes
  seq : ℕ
  packet : Bytes
  payload : Bytes
  deriving DecidableEq

variable (P : Primitives)

/-- What a party has sent. -/
structure Sends (sent : List Frame) (enc : Bool) (next : ℕ) : Prop extends
    Ledger Frame.seq Frame.enc sent enc next where
  padded : ∀ f ∈ sent, f.pad.length = padLen f.enc f.payload.length

/-- What a party has opened, each payload read out of the packet's own bytes. -/
structure Receives (opened : List Opening) (enc : Bool) (next : ℕ) : Prop extends
    Ledger Opening.seq Opening.enc opened enc next where
  parsed : ∀ o ∈ opened, unframe P o.enc o.key o.seq o.packet = .got o.payload []

/-- An ideal cipher: an encrypted packet is opened only where these very bytes
were sealed under the same key and number. -/
def Ideal (sent : List Frame) (opened : List Opening) : Prop :=
  ∀ o ∈ opened, o.enc = true →
    ∃ f ∈ sent, f.enc = true ∧ f.key = o.key ∧ f.seq = o.seq ∧ f.bytes P = o.packet

instance (sent : List Frame) (opened : List Opening) : Decidable (Ideal P sent opened) :=
  inferInstanceAs (Decidable (∀ o ∈ opened, o.enc = true →
    ∃ f ∈ sent, f.enc = true ∧ f.key = o.key ∧ f.seq = o.seq ∧ f.bytes P = o.packet))

/-- The payloads of the encrypted packets, which are those behind NEWKEYS. -/
def sealedPayloads (sent : List Frame) : List Bytes := (behind Frame.enc sent).map Frame.payload

def acceptedPayloads (opened : List Opening) : List Bytes :=
  (behind Opening.enc opened).map Opening.payload

/-- How many packets were taken in the clear beyond those that were sent so. -/
def slippedIn (sent : List Frame) (opened : List Opening) : ℕ :=
  (before Opening.enc opened).length - (before Frame.enc sent).length

/-- What was accepted is a block of what was sealed. It starts where the
packets taken in the clear have moved the count. -/
def Block (sent : List Frame) (opened : List Opening) : Prop :=
  acceptedPayloads opened <+: (sealedPayloads sent).drop (slippedIn sent opened)

/-- What encryption adds to a packet. -/
def tagLen (enc : Bool) : ℕ := if enc then 16 else 0

theorem unpad_behind {plain rest payload rest' : Bytes} (h : unpad plain rest = .got payload rest')
    (more : Bytes) : unpad plain more = .got payload more := by
  unfold unpad at h ⊢
  simp only at h ⊢
  split at h
  · cases h
  · rename_i hlen
    obtain ⟨rfl, -⟩ := Parsed.got.injEq .. ▸ h
    rw [if_neg hlen]

/-- A packet is read out of its own bytes. -/
theorem unframe_packet {enc : Bool} {key : Bytes} {seq : ℕ} {rxBuf payload rest : Bytes}
    (h : unframe P enc key seq rxBuf = .got payload rest) :
    ∃ n, n ≤ 35000 ∧ 4 + n + tagLen enc ≤ rxBuf.length ∧ rest = rxBuf.drop (4 + n + tagLen enc) ∧
      unframe P enc key seq (rxBuf.take (4 + n + tagLen enc)) = .got payload [] := by
  unfold unframe at h ⊢
  cases enc
  · simp only [Bool.false_eq_true, if_false, tagLen, Nat.add_zero] at h ⊢
    split at h
    · cases h
    rename_i h5
    split at h
    · cases h
    rename_i hp
    split at h
    · cases h
    rename_i hn
    obtain ⟨rfl, -⟩ := unpad_got h
    refine ⟨ofBe32 rxBuf, by omega, by omega, rfl, ?_⟩
    have hof : ofBe32 (rxBuf.take (4 + ofBe32 rxBuf)) = ofBe32 rxBuf := by
      have h4 : 4 ≤ (rxBuf.take (4 + ofBe32 rxBuf)).length := by
        rw [List.length_take]
        omega
      have happ := ofBe32_append h4 (rxBuf.drop (4 + ofBe32 rxBuf))
      rw [List.take_append_drop] at happ
      exact happ.symm
    have hlen : (rxBuf.take (4 + ofBe32 rxBuf)).length = 4 + ofBe32 rxBuf := by
      rw [List.length_take]
      omega
    rw [hof, hlen, if_neg (by omega), if_neg hp, if_neg (by omega),
      List.drop_of_length_le hlen.le, List.drop_take, List.take_take, Nat.add_sub_cancel_left,
      Nat.min_self]
    exact unpad_behind h []
  · simp only [if_true, tagLen] at h ⊢
    split at h
    · cases h
    rename_i h4
    split at h
    · cases h
    rename_i hp
    split at h
    · cases h
    rename_i hn
    split at h
    · cases h
    rename_i plain hopen
    obtain ⟨rfl, -⟩ := unpad_got h
    generalize hpl : ofBe32 (cc20p1305Length P ((key.drop 32).take 32) seq (rxBuf.take 4)) = plen
      at hp hn hopen h
    refine ⟨plen, by omega, by omega, rfl, ?_⟩
    have hlen : (rxBuf.take (4 + plen + 16)).length = 4 + plen + 16 := by
      rw [List.length_take]
      omega
    rw [hlen, List.take_take, Nat.min_eq_left (by omega), hpl, if_neg (by omega), if_neg hp,
      if_neg (by omega), List.drop_take, List.take_take, Nat.min_eq_left (by omega), List.drop_take,
      List.take_take, Nat.min_eq_left (by omega), hopen, List.drop_of_length_le hlen.le]
    exact unpad_behind h []

theorem unframe_front {enc : Bool} {key : Bytes} {seq : ℕ} {rxBuf payload rest : Bytes}
    (h : unframe P enc key seq rxBuf = .got payload rest) :
    rxBuf.take (rxBuf.length - rest.length) ++ rest = rxBuf ∧
      unframe P enc key seq (rxBuf.take (rxBuf.length - rest.length)) = .got payload [] := by
  obtain ⟨n, -, hle, rfl, hp⟩ := unframe_packet P h
  rw [List.length_drop, Nat.sub_sub_self hle]
  exact ⟨List.take_append_drop _ _, hp⟩

/-- A sender's frame can only be opened as its payload. -/
theorem unframe_bytes {f : Frame} {payload : Bytes}
    (hpad : f.pad.length = padLen f.enc f.payload.length)
    (h : unframe P f.enc f.key f.seq (f.bytes P) = .got payload []) : payload = f.payload := by
  obtain ⟨n, hn, hle, hrest, -⟩ := unframe_packet P h
  have hlen := frame_length P f.enc f.key f.seq f.payload f.pad hpad
  have hall := congrArg List.length hrest
  rw [List.length_nil, List.length_drop] at hall
  change (f.bytes P).length = _ at hlen
  have hshort : packetLen f.enc f.payload.length ≤ 35000 := by
    unfold tagLen at hle hall
    omega
  have hback := unframe_frame P f.enc f.key f.seq f.payload f.pad [] hpad hshort
  rw [List.append_nil] at hback
  exact (Parsed.got.inj (h.symm.trans hback)).1

/-! Both records, step by step. -/

section
variable {P} {sent : List Frame} {opened : List Opening} {enc enc' : Bool} {next next' : ℕ}

theorem sends_nil : Sends [] enc 0 := ⟨.nil enc, by simp⟩

theorem Sends.onward (h : Sends sent enc next) (he : enc = true → enc' = true) :
    Sends sent enc' next := ⟨h.toLedger.onward he, h.padded⟩

theorem Sends.send (h : Sends sent enc next) (key : Bytes) {payload pad : Bytes}
    (hpad : pad.length = padLen enc payload.length) :
    Sends (sent ++ [⟨enc, key, next, payload, pad⟩]) enc (next + 1) := by
  refine ⟨h.toLedger.append rfl rfl, ?_⟩
  simpa [or_imp, forall_and, hpad] using h.padded

theorem receives_nil : Receives P [] enc 0 := ⟨.nil enc, by simp⟩

theorem Receives.onward (h : Receives P opened enc next) (he : enc = true → enc' = true) :
    Receives P opened enc' next := ⟨h.toLedger.onward he, h.parsed⟩

theorem Receives.receive (h : Receives P opened enc next) {key packet payload : Bytes}
    (hp : unframe P enc key next packet = .got payload []) :
    Receives P (opened ++ [⟨enc, key, next, packet, payload⟩]) enc (next + 1) := by
  refine ⟨h.toLedger.append rfl rfl, ?_⟩
  simpa [or_imp, forall_and, hp] using h.parsed

/-- An ideal cipher opens what was sealed, and as what it was sealed. -/
theorem Receives.block (hr : Receives P opened enc next) (hs : Sends sent enc' next')
    (hi : Ideal P sent opened) : Block sent opened := by
  refine hs.toLedger.block hr.toLedger fun o ho ↦ ?_
  obtain ⟨ho, henc⟩ := List.mem_filter.mp ho
  obtain ⟨f, hf, hfe, hkey, hseq, hbytes⟩ := hi o ho henc
  have hopen := hr.parsed o ho
  rw [← hbytes, henc, ← hfe, ← hkey, ← hseq] at hopen
  exact ⟨f, List.mem_filter.mpr ⟨hf, hfe⟩, hseq, (unframe_bytes P (hs.padded f hf) hopen).symm⟩

end

end Sshd.Framing
