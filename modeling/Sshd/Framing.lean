import Sshd.Crypto

namespace Sshd.Framing

open Lib.Octets Crypto

/-! The packet format. Server and client carry the same code twice, over
their own keys and counters; both copies are instances of the two functions
below. -/

def padLen (enc : Bool) (payLen : ℕ) : ℕ :=
  let bs := 8
  let innerLen := 1 + payLen
  let pad := bs - innerLen % bs
  let pad := if pad < 4 then pad + bs else pad
  if enc = false ∧ (4 + 1 + payLen + pad) % bs ≠ 0 then pad + 4 else pad

def packetLen (enc : Bool) (payLen : ℕ) : ℕ := 1 + payLen + padLen enc payLen

/-- One framed payload. A 64-byte key is laid out `K_2 || K_1`. -/
def frame (P : Primitives) (enc : Bool) (key : Bytes) (seq : ℕ) (payload padBytes : Bytes) :
    Bytes :=
  let lenBE := be32 (packetLen enc payload.length)
  let inner := [UInt8.ofNat (padLen enc payload.length)] ++ payload ++ padBytes
  if enc then
    let k2 := key.take 32
    let k1 := (key.drop 32).take 32
    let encLen := cc20p1305Length P k1 seq lenBE
    let sealed := cc20p1305Seal P k2 seq encLen inner
    encLen ++ sealed.1 ++ sealed.2
  else lenBE ++ inner

/-- A payload as it was framed: under which mode, key and sequence number,
and with which padding. -/
structure Frame where
  enc : Bool
  key : Bytes
  seq : ℕ
  payload : Bytes
  pad : Bytes
  deriving DecidableEq

def Frame.bytes (P : Primitives) (f : Frame) : Bytes := frame P f.enc f.key f.seq f.payload f.pad

inductive Parsed
  | needMore
  | bad
  | got (payload rest : Bytes)
  deriving DecidableEq

/-- The payload inside an opened packet: padding length first, padding last. -/
def unpad (plain rest : Bytes) : Parsed :=
  let padLen := (plain.getD 0 0).toNat
  if plain.length < padLen + 1 then .bad
  else .got ((plain.drop 1).take (plain.length - padLen - 1)) rest

/-- The next packet of a receive buffer. -/
def unframe (P : Primitives) (enc : Bool) (key : Bytes) (seq : ℕ) (rxBuf : Bytes) : Parsed :=
  if enc then
    if rxBuf.length < 4 then .needMore else
    let k2 := key.take 32
    let k1 := (key.drop 32).take 32
    let encLen := rxBuf.take 4
    let plen := ofBe32 (cc20p1305Length P k1 seq encLen)
    if plen < 8 ∨ 35000 < plen then .bad else
    if rxBuf.length < 4 + plen + 16 then .needMore else
    let ct := (rxBuf.drop 4).take plen
    let tag := (rxBuf.drop (4 + plen)).take 16
    match cc20p1305Open P k2 seq encLen ct tag with
    | none => .bad
    | some plain => unpad plain (rxBuf.drop (4 + plen + 16))
  else
    if rxBuf.length < 5 then .needMore else
    let plen := ofBe32 rxBuf
    if plen < 8 ∨ 35000 < plen then .bad else
    if rxBuf.length < 4 + plen then .needMore else
    unpad ((rxBuf.drop 4).take plen) (rxBuf.drop (4 + plen))

theorem padLen_bounds (enc : Bool) (payLen : ℕ) :
    4 ≤ padLen enc payLen ∧ padLen enc payLen ≤ 15 := by
  simp only [padLen]
  split <;> split <;> omega

/-- Encrypted packets align what is encrypted, plaintext ones the whole packet. -/
theorem packetLen_aligned (enc : Bool) (payLen : ℕ) :
    (packetLen enc payLen + if enc then 0 else 4) % 8 = 0 := by
  cases enc
  · simp only [packetLen, padLen, Bool.false_eq_true, if_false, true_and]
    split <;> split <;> omega
  · simp only [packetLen, padLen, if_true, reduceCtorEq, false_and, if_false]
    split <;> omega

theorem eight_le_packetLen (enc : Bool) (payLen : ℕ) : 8 ≤ packetLen enc payLen := by
  have ha := packetLen_aligned enc payLen
  have hp := padLen_bounds enc payLen
  unfold packetLen at ha ⊢
  cases enc
  · simp only [Bool.false_eq_true, if_false] at ha
    omega
  · simp only [if_true] at ha
    omega

variable (P : Primitives)

theorem frame_length (enc : Bool) (key : Bytes) (seq : ℕ) (payload padBytes : Bytes)
    (hpad : padBytes.length = padLen enc payload.length) :
    (frame P enc key seq payload padBytes).length =
      4 + packetLen enc payload.length + if enc then 16 else 0 := by
  cases enc <;>
    simp only [frame, Bool.false_eq_true, if_false, if_true, List.length_append, be32_length,
      cc20p1305Length_length, cc20p1305Seal_length, cc20p1305Seal_tag_length, List.length_cons,
      List.length_nil, hpad, packetLen]
  omega

theorem unpad_inner (enc : Bool) (payload padBytes rest : Bytes)
    (hpad : padBytes.length = padLen enc payload.length) :
    unpad ([UInt8.ofNat (padLen enc payload.length)] ++ payload ++ padBytes) rest =
      .got payload rest := by
  have hb := padLen_bounds enc payload.length
  have hbyte : (UInt8.ofNat (padLen enc payload.length)).toNat = padLen enc payload.length := by
    rw [UInt8.toNat_ofNat']
    omega
  simp only [unpad, List.cons_append, List.nil_append, List.getD_cons_zero, hbyte,
    List.length_cons, List.length_append, hpad, List.drop_succ_cons, List.drop_zero]
  rw [if_neg (by omega)]
  congr 1
  rw [List.take_append_of_le_length (by omega), List.take_of_length_le (by omega)]

/-- A frame is read back as its payload, whatever follows it. -/
theorem unframe_frame (enc : Bool) (key : Bytes) (seq : ℕ) (payload padBytes rest : Bytes)
    (hpad : padBytes.length = padLen enc payload.length)
    (hlen : packetLen enc payload.length ≤ 35000) :
    unframe P enc key seq (frame P enc key seq payload padBytes ++ rest) =
      .got payload rest := by
  have h8 := eight_le_packetLen enc payload.length
  have hmod : packetLen enc payload.length % 2 ^ 32 = packetLen enc payload.length := by omega
  have hinner : ([UInt8.ofNat (padLen enc payload.length)] ++ payload ++ padBytes).length =
      packetLen enc payload.length := by
    simp only [List.length_append, List.length_cons, List.length_nil, hpad, packetLen]
  generalize hi : [UInt8.ofNat (padLen enc payload.length)] ++ payload ++ padBytes = inner
    at hinner
  generalize hn : packetLen enc payload.length = n at *
  cases enc
  · simp only [frame, unframe, Bool.false_eq_true, if_false, hi, hn, List.append_assoc,
      List.length_append, be32_length, hinner, ofBe32_be32_append, hmod]
    rw [if_neg (by omega), if_neg (by omega), if_neg (by omega)]
    rw [List.drop_left' (by simp), List.take_left' hinner, ← List.append_assoc,
      List.drop_left' (by simp [hinner]), ← hi, unpad_inner _ _ _ _ hpad]
  · simp only [frame, unframe, if_true, hi, hn, List.append_assoc, List.length_append,
      be32_length, cc20p1305Length_length, cc20p1305Seal_length, cc20p1305Seal_tag_length, hinner]
    rw [if_neg (by omega), List.take_left' (by simp), cc20p1305Length_involutive, ofBe32_be32, hmod,
      if_neg (by omega), if_neg (by omega), List.drop_left' (by simp),
      List.take_left' (by simp [hinner])]
    rw [← List.append_assoc, List.drop_left' (by simp [hinner]), List.take_left' (by simp),
      cc20p1305Open_seal, ← List.append_assoc, List.drop_left' (by simp [hinner, Nat.add_assoc]), ← hi]
    exact unpad_inner true payload padBytes rest hpad

/-- A cut frame is waited for. -/
theorem unframe_cut (enc : Bool) (key : Bytes) (seq : ℕ) (payload padBytes buf : Bytes)
    (hpad : padBytes.length = padLen enc payload.length)
    (hlen : packetLen enc payload.length ≤ 35000)
    (hcut : buf <+: frame P enc key seq payload padBytes)
    (hlt : buf.length < (frame P enc key seq payload padBytes).length) :
    unframe P enc key seq buf = .needMore := by
  have h8 := eight_le_packetLen enc payload.length
  have hmod : packetLen enc payload.length % 2 ^ 32 = packetLen enc payload.length := by omega
  rw [frame_length P enc key seq payload padBytes hpad] at hlt
  obtain ⟨tail, htail⟩ := hcut
  have hhead : 4 ≤ buf.length → buf.take 4 = (frame P enc key seq payload padBytes).take 4 := by
    intro h4
    rw [← htail, List.take_append_of_le_length h4]
  cases enc
  · simp only [frame, Bool.false_eq_true, if_false] at hhead hlt
    simp only [unframe, Bool.false_eq_true, if_false]
    by_cases h5 : buf.length < 5
    · rw [if_pos h5]
    have h4 : 4 ≤ buf.length := by omega
    have hp : ofBe32 buf = packetLen false payload.length := by
      rw [← List.take_append_drop 4 buf, hhead h4, List.take_left' (by simp),
        ofBe32_be32_append, hmod]
    rw [if_neg h5, hp, if_neg (by omega), if_pos (by omega)]
  · simp only [frame, if_true] at hhead hlt
    simp only [unframe, if_true]
    by_cases h4 : buf.length < 4
    · rw [if_pos h4]
    rw [if_neg h4, hhead (by omega), List.append_assoc, List.take_left' (by simp),
      cc20p1305Length_involutive, ofBe32_be32, hmod, if_neg (by omega), if_pos (by omega)]

theorem unpad_got {plain rest payload rest' : Bytes} (h : unpad plain rest = .got payload rest') :
    rest' = rest ∧ payload.length < plain.length := by
  simp only [unpad] at h
  split at h
  · cases h
  · obtain ⟨rfl, rfl⟩ := Parsed.got.injEq .. ▸ h
    refine ⟨rfl, ?_⟩
    simp only [List.length_take, List.length_drop]
    omega

/-- A packet that is taken out of the buffer has a bounded payload and
leaves a shorter buffer. -/
theorem unframe_got {enc : Bool} {key : Bytes} {seq : ℕ} {rxBuf payload rest : Bytes}
    (h : unframe P enc key seq rxBuf = .got payload rest) :
    payload.length < 35000 ∧ rest.length + 12 ≤ rxBuf.length ∧ rest <:+ rxBuf := by
  unfold unframe at h
  cases enc
  · simp only [Bool.false_eq_true, if_false] at h
    split at h
    · cases h
    split at h
    · cases h
    split at h
    · cases h
    obtain ⟨rfl, hlt⟩ := unpad_got h
    simp only [List.length_take, List.length_drop] at hlt ⊢
    refine ⟨by omega, by omega, List.drop_suffix _ _⟩
  · simp only [if_true] at h
    split at h
    · cases h
    split at h
    · cases h
    split at h
    · cases h
    split at h
    · cases h
    rename_i plain hopen
    obtain ⟨rfl, hlt⟩ := unpad_got h
    have hplain : plain.length ≤ 35000 := by
      simp only [cc20p1305Open] at hopen
      split at hopen
      · cases hopen
      · obtain rfl := Option.some.inj hopen
        simp only [chacha20Update_length, List.length_take]
        omega
    refine ⟨by omega, ?_, List.drop_suffix _ _⟩
    simp only [List.length_drop]
    omega

/-- A result with more bytes behind it. -/
def Parsed.extend (more : Bytes) : Parsed → Parsed
  | .got payload rest => .got payload (rest ++ more)
  | .bad => .bad
  | .needMore => .needMore

theorem unpad_append (plain rest more : Bytes) :
    unpad plain (rest ++ more) = (unpad plain rest).extend more := by
  unfold unpad
  simp only
  split <;> rfl

/-- No more than one packet of the greatest length is waited for. -/
theorem unframe_needMore {enc : Bool} {key : Bytes} {seq : ℕ} {rxBuf : Bytes}
    (h : unframe P enc key seq rxBuf = .needMore) : rxBuf.length < 4 + 35000 + 16 := by
  have hunpad (plain rest : Bytes) : unpad plain rest ≠ .needMore := by
    unfold unpad
    simp only
    split <;> nofun
  unfold unframe at h
  cases enc
  · simp only [Bool.false_eq_true, if_false] at h
    split at h
    · omega
    split at h
    · cases h
    split at h
    · omega
    · exact absurd h (hunpad _ _)
  · simp only [if_true] at h
    split at h
    · omega
    split at h
    · cases h
    split at h
    · omega
    split at h
    · cases h
    · exact absurd h (hunpad _ _)

/-- Once a packet can be read, what follows it makes no difference. -/
theorem unframe_append {enc : Bool} {key : Bytes} {seq : ℕ} {rxBuf : Bytes} (more : Bytes)
    (h : unframe P enc key seq rxBuf ≠ .needMore) :
    unframe P enc key seq (rxBuf ++ more) = (unframe P enc key seq rxBuf).extend more := by
  have hlen : (rxBuf ++ more).length = rxBuf.length + more.length := List.length_append
  unfold unframe at h ⊢
  cases enc
  · simp only [Bool.false_eq_true, if_false] at h ⊢
    by_cases h5 : rxBuf.length < 5
    · exact absurd (if_pos h5) h
    have h5' : ¬(rxBuf ++ more).length < 5 := by omega
    rw [if_neg h5] at h ⊢
    rw [if_neg h5', ofBe32_append (by omega)]
    split
    · rfl
    rename_i hp
    rw [if_neg hp] at h
    by_cases hn : rxBuf.length < 4 + ofBe32 rxBuf
    · exact absurd (if_pos hn) h
    have hn' : ¬(rxBuf ++ more).length < 4 + ofBe32 rxBuf := by omega
    rw [if_neg hn, if_neg hn', List.drop_append_of_le_length (by omega),
      List.drop_append_of_le_length (by omega),
      List.take_append_of_le_length (by rw [List.length_drop]; omega)]
    exact unpad_append _ _ more
  · simp only [if_true] at h ⊢
    by_cases h4 : rxBuf.length < 4
    · exact absurd (if_pos h4) h
    have h4' : ¬(rxBuf ++ more).length < 4 := by omega
    rw [if_neg h4] at h ⊢
    rw [if_neg h4', List.take_append_of_le_length (by omega)]
    generalize ofBe32 (cc20p1305Length P ((key.drop 32).take 32) seq (rxBuf.take 4)) = plen at h ⊢
    split
    · rfl
    rename_i hp
    rw [if_neg hp] at h
    by_cases hn : rxBuf.length < 4 + plen + 16
    · exact absurd (if_pos hn) h
    have hn' : ¬(rxBuf ++ more).length < 4 + plen + 16 := by omega
    rw [if_neg hn, if_neg hn', List.drop_append_of_le_length (by omega),
      List.drop_append_of_le_length (by omega), List.drop_append_of_le_length (by omega),
      List.take_append_of_le_length (by rw [List.length_drop]; omega),
      List.take_append_of_le_length (by rw [List.length_drop]; omega)]
    split
    · rfl
    · exact unpad_append _ _ more

end Sshd.Framing
