import Sshd.Client.Steps

namespace Sshd.Client

open Lib.Octets Wire Crypto Framing

variable (P : Primitives)

/-! One call of `recv_packet`. -/

/-- All that the connection has brought and that is not parsed. -/
def World.inbound (w : World) : Bytes := w.cs.rxBuf ++ w.tcpIn

/-- The next packet of the buffer. -/
def World.parsed (w : World) : Parsed := unframe P w.cs.encIn w.cs.recvKey w.cs.seqIn w.cs.rxBuf

/-- What happens during a call: bytes arrive, the server closes the connection, the
deadline passes, the loop takes a round. -/
inductive Moment
  | arrive (data : Bytes)
  | close
  | pass
  | round

/-- The call, with what it has returned. `passedOpen` says that the deadline passed
while the connection was open, `stream` holds all the bytes that the call could read. -/
structure Call where
  w : World
  stream : Bytes
  expired : Bool := false
  passedOpen : Bool := false
  result : Option (ℤ × Bytes) := none

/-- After a close nothing arrives. -/
def Call.next (c : Call) (m : Moment) : Call :=
  if c.result.isSome then c else
  match m with
  | .arrive data =>
    if c.w.connected then
      { c with w := step P c.w (.tcpArrive data), stream := c.stream ++ data }
    else c
  | .close => { c with w := step P c.w .tcpClose }
  | .pass => if c.expired then c else { c with expired := true, passedOpen := c.w.connected }
  | .round =>
    { c with w := (recvRound P c.expired c.w).2, result := (recvRound P c.expired c.w).1 }

def recvPacket (w : World) (moments : List Moment) : Call :=
  moments.foldl (Call.next P) { w := w, stream := w.inbound }

/-! What the results stand for. -/

/-- Packets that are passed over. -/
def Skipped (payload : Bytes) : Prop :=
  payload.head? = some msgIgnore ∨ payload.head? = some msgDebug

/-- The packets at the front of a stream, with what is left behind them. -/
inductive Reads (enc : Bool) (key : Bytes) : ℕ → Bytes → List Bytes → ℕ → Bytes → Prop
  | nil (seq : ℕ) (stream : Bytes) : Reads enc key seq stream [] seq stream
  | cons {seq seq' : ℕ} {stream out rest rest' : Bytes} {outs : List Bytes}
      (h : unframe P enc key seq stream = .got out rest)
      (hrest : Reads enc key (seq + 1) rest outs seq' rest') :
      Reads enc key seq stream (out :: outs) seq' rest'

/-- A call that began in `w` has passed over these packets; `seq` and `rest` are
what it goes on with. -/
def Passed (w : World) (c : Call) (seq : ℕ) (rest : Bytes) : Prop :=
  ∃ skipped, (∀ p ∈ skipped, Skipped p) ∧
    Reads P w.cs.encIn w.cs.recvKey w.cs.seqIn c.stream skipped seq rest

/-- A call that began in `w` is in the state that the right results lead to. -/
structure Sound (w : World) (c : Call) : Prop where
  keys : c.w.cs.encIn = w.cs.encIn ∧ c.w.cs.recvKey = w.cs.recvKey
  pending : c.result = none → Passed P w c c.w.cs.seqIn c.w.inbound
  packet : ∀ t pkt, c.result = some (t, pkt) → 0 < t → ∃ b body seq rest, pkt = b :: body ∧
    t = b.toNat ∧ ¬Skipped pkt ∧ Passed P w c seq rest ∧
      unframe P w.cs.encIn w.cs.recvKey seq rest = .got pkt c.w.inbound
  bad : ∀ pkt, c.result = some (-1, pkt) → ∃ seq rest, Passed P w c seq rest ∧
    (unframe P w.cs.encIn w.cs.recvKey seq rest = .bad ∨
      ∃ rest', unframe P w.cs.encIn w.cs.recvKey seq rest = .got [] rest')
  lost : ∀ pkt, c.result = some (-2, pkt) → c.w.connected = false ∧ c.w.tcpIn = []

/-- The results are what they stand for: a packet is the next one that counts, an
error has its cause, 0 is the deadline of an open connection, and a connection that
is closed and read to its last packet is reported. -/
structure Classified (w : World) (moments : List Moment) : Prop where
  sound : Sound P w (recvPacket P w moments)
  timeout : ∀ pkt, (recvPacket P w moments).result = some (0, pkt) →
    (recvPacket P w moments).passedOpen = true
  closed : ∀ p, p ++ [.round] <+: moments → (recvPacket P w p).result = none →
    (recvPacket P w p).w.connected = false → (recvPacket P w p).w.tcpIn = [] →
    (recvPacket P w p).w.parsed P = .needMore → (recvPacket P w p).passedOpen = false →
    (recvPacket P w (p ++ [.round])).result = some (-2, [])

/-- At each round whose deadline has not passed on an open connection: no packet of
type 0 is next, and where no packet is next on a closed connection, the deadline has
not passed and no more than three bytes of a packet are left. -/
def Orderly (w : World) (moments : List Moment) : Prop :=
  ∀ p, p ++ [.round] <+: moments → (recvPacket P w p).result = none →
    (recvPacket P w p).passedOpen = false →
    (∀ body rest, (recvPacket P w p).w.parsed P ≠ .got (0 :: body) rest) ∧
      ((recvPacket P w p).w.parsed P = .needMore → (recvPacket P w p).w.connected = false →
        (recvPacket P w p).expired = false ∧
          ((recvPacket P w p).w.tcpIn = [] → (recvPacket P w p).w.cs.rxBuf.length < 4))

variable {P}

section
variable {enc : Bool} {key : Bytes} {seq seq' : ℕ} {stream rest : Bytes} {outs : List Bytes}

theorem Reads.append (h : Reads P enc key seq stream outs seq' rest) (more : Bytes) :
    Reads P enc key seq (stream ++ more) outs seq' (rest ++ more) := by
  induction h with
  | nil seq stream => exact .nil seq (stream ++ more)
  | cons h _ ih =>
    refine .cons ?_ ih
    rw [unframe_append P more (by rw [h]; exact Parsed.noConfusion), h]
    rfl

theorem Reads.snoc {out rest' : Bytes} (h : Reads P enc key seq stream outs seq' rest)
    (hout : unframe P enc key seq' rest = .got out rest') :
    Reads P enc key seq stream (outs ++ [out]) (seq' + 1) rest' := by
  induction h with
  | nil seq stream => exact .cons hout (.nil _ _)
  | cons h _ ih => exact .cons h (ih hout)

end

/-! One round. -/

/-- The session once a packet is off its buffer. -/
def readOff (w : World) (out rest : Bytes) : World :=
  (w.note (.opened w.cs.encIn w.cs.recvKey w.cs.seqIn
    (w.cs.rxBuf.take (w.cs.rxBuf.length - rest.length)) out)).modify
      fun cs ↦ { cs with rxBuf := rest, seqIn := cs.seqIn + 1 }

section
variable {w : World} {expired : Bool}

theorem recvRound_bad (h : w.parsed P = .bad) : recvRound P expired w = (some (-1, []), w) := by
  unfold World.parsed at h
  simp only [recvRound, tryParse, h]

theorem recvRound_empty {rest : Bytes} (h : w.parsed P = .got [] rest) :
    recvRound P expired w = (some (-1, []), readOff w [] rest) := by
  unfold World.parsed at h
  simp only [recvRound, tryParse, h]
  rfl

theorem recvRound_packet {t : UInt8} {body rest : Bytes} (h : w.parsed P = .got (t :: body) rest) :
    recvRound P expired w =
      if t = msgIgnore ∨ t = msgDebug then (none, readOff w (t :: body) rest)
      else (some ((t.toNat : ℤ), t :: body), readOff w (t :: body) rest) := by
  unfold World.parsed at h
  simp only [recvRound, tryParse, h]
  rfl

theorem poll_recv (hp : w.pc ≠ .version ∧ w.pc ≠ .finished) (expired : Bool) :
    poll P expired w =
      match recvRound P expired w with
      | (none, w') => w'
      | (some (t, pkt), w') => resume P (w'.note (.received w'.pc t pkt)) t pkt := by
  unfold poll
  split
  · rename_i hfin
    exact absurd hfin hp.2
  · rename_i hver
    exact absurd hver hp.1
  · rfl

theorem fillRx_fst (w : World) : (fillRx w).1 = 0 ↔ w.tcpIn = [] := by
  simp only [fillRx, itsRecv, List.length_take]
  rw [← List.length_eq_zero_iff]
  omega

theorem fillRx_inbound (w : World) : (fillRx w).2.inbound = w.inbound := by
  simp only [World.inbound, fillRx, itsRecv, modify_cs, note_cs, List.append_assoc]
  exact congrArg (w.cs.rxBuf ++ ·) (List.take_append_drop _ _)

theorem recvRound_wait (h : w.parsed P = .needMore) :
    recvRound P expired w =
      if expired then (some (0, []), w)
      else if w.tcpIn = [] ∧ w.connected = false ∧ w.cs.rxBuf.length < 4 then
        (some (-2, []), (fillRx w).2)
      else (none, (fillRx w).2) := by
  unfold World.parsed at h
  simp only [recvRound, tryParse, h]
  split
  · rfl
  · refine if_congr ?_ rfl rfl
    rw [fillRx_fst]
    refine and_congr_right fun hnil ↦ and_congr_right fun _ ↦ ?_
    have hbuf : (fillRx w).2.cs.rxBuf = w.cs.rxBuf := by
      simp [fillRx, itsRecv, hnil]
    rw [hbuf]

theorem recvRound_same (expired : Bool) (w : World) :
    (recvRound P expired w).2.pc = w.pc ∧ (recvRound P expired w).2.job = w.job ∧
      (recvRound P expired w).2.connected = w.connected := by
  cases h : w.parsed P with
  | bad =>
    rw [recvRound_bad h]
    exact ⟨rfl, rfl, rfl⟩
  | needMore =>
    rw [recvRound_wait h]
    split
    · exact ⟨rfl, rfl, rfl⟩
    split <;> exact ⟨rfl, rfl, rfl⟩
  | got out rest =>
    cases out with
    | nil =>
      rw [recvRound_empty h]
      exact ⟨rfl, rfl, rfl⟩
    | cons b body =>
      rw [recvRound_packet h]
      split <;> exact ⟨rfl, rfl, rfl⟩

/-- What comes behind the buffer does not change the packets in it. -/
theorem inbound_got {out rest : Bytes} (h : w.parsed P = .got out rest) :
    unframe P w.cs.encIn w.cs.recvKey w.cs.seqIn w.inbound = .got out (rest ++ w.tcpIn) := by
  unfold World.parsed at h
  rw [World.inbound, unframe_append P w.tcpIn (by rw [h]; exact Parsed.noConfusion), h]
  rfl

theorem inbound_bad (h : w.parsed P = .bad) :
    unframe P w.cs.encIn w.cs.recvKey w.cs.seqIn w.inbound = .bad := by
  unfold World.parsed at h
  rw [World.inbound, unframe_append P w.tcpIn (by rw [h]; exact Parsed.noConfusion), h]
  rfl

end

/-! A call. -/

section
variable {w : World} {c : Call}

theorem recvPacket_snoc (w : World) (p : List Moment) (m : Moment) :
    recvPacket P w (p ++ [m]) = Call.next P (recvPacket P w p) m := by
  rw [recvPacket, List.foldl_append]
  rfl

theorem next_done {r : ℤ × Bytes} (h : c.result = some r) (m : Moment) : Call.next P c m = c := by
  simp [Call.next, h]

theorem next_round (h : c.result = none) :
    Call.next P c .round =
      { c with w := (recvRound P c.expired c.w).2, result := (recvRound P c.expired c.w).1 } := by
  simp [Call.next, h]

theorem Sound.wait (hr : c.result = none)
    (hk : c.w.cs.encIn = w.cs.encIn ∧ c.w.cs.recvKey = w.cs.recvKey)
    (hp : Passed P w c c.w.cs.seqIn c.w.inbound) : Sound P w c where
  keys := hk
  pending _ := hp
  packet t pkt h := by rw [hr] at h; cases h
  bad pkt h := by rw [hr] at h; cases h
  lost pkt h := by rw [hr] at h; cases h

theorem Passed.skip {seq : ℕ} {rest out rest' : Bytes} (h : Passed P w c seq rest)
    (hs : Skipped out) (hout : unframe P w.cs.encIn w.cs.recvKey seq rest = .got out rest') :
    Passed P w c (seq + 1) rest' := by
  obtain ⟨skipped, hskip, hreads⟩ := h
  refine ⟨skipped ++ [out], fun p hp ↦ ?_, hreads.snoc hout⟩
  rcases List.mem_append.mp hp with hp | hp
  · exact hskip p hp
  · rw [List.mem_singleton.mp hp]
    exact hs

theorem skipped_cons {t : UInt8} {body : Bytes} :
    Skipped (t :: body) ↔ t = msgIgnore ∨ t = msgDebug := by simp [Skipped]

theorem Sound.round (h : Sound P w c) (hr : c.result = none) :
    Sound P w (Call.next P c .round) := by
  obtain ⟨henc, hkey⟩ := h.keys
  have hp := h.pending hr
  rw [next_round hr]
  cases hparse : c.w.parsed P with
  | bad =>
    have hbad := inbound_bad hparse
    rw [henc, hkey] at hbad
    rw [recvRound_bad hparse]
    exact ⟨h.keys, by simp, fun t pkt he ht ↦ by simp at he; omega,
      fun _ _ ↦ ⟨_, _, hp, .inl hbad⟩, by simp⟩
  | needMore =>
    have hfill : Sound P w { c with w := (fillRx c.w).2 } := by
      refine .wait hr h.keys ?_
      rw [fillRx_inbound]
      exact hp
    rw [recvRound_wait hparse]
    split
    · exact ⟨h.keys, by simp, fun t pkt he ht ↦ by simp at he; omega, by simp, by simp⟩
    split
    · rename_i hlost
      refine ⟨h.keys, by simp, fun t pkt he ht ↦ by simp at he; omega, by simp, fun _ _ ↦ ?_⟩
      refine ⟨hlost.2.1, ?_⟩
      change (fillRx c.w).2.tcpIn = []
      simp [fillRx, itsRecv, World.note, World.modify, hlost.1]
    · exact .wait rfl hfill.keys (hfill.pending hr)
  | got out rest =>
    have hgot := inbound_got hparse
    rw [henc, hkey] at hgot
    cases out with
    | nil =>
      rw [recvRound_empty hparse]
      exact ⟨h.keys, by simp, fun t pkt he ht ↦ by simp at he; omega,
        fun _ _ ↦ ⟨_, _, hp, .inr ⟨_, hgot⟩⟩, by simp⟩
    | cons b body =>
      rw [recvRound_packet hparse]
      split
      · rename_i hs
        exact .wait rfl h.keys (hp.skip (skipped_cons.mpr hs) hgot)
      · rename_i hs
        refine ⟨h.keys, by simp, fun t pkt he _ ↦ ?_, fun _ he ↦ by simp at he,
          fun _ he ↦ by simp at he⟩
        obtain ⟨rfl, rfl⟩ := Prod.mk.inj (Option.some.inj he)
        exact ⟨b, body, _, _, rfl, rfl, mt skipped_cons.mp hs, hp, hgot⟩

theorem Sound.next (h : Sound P w c) (m : Moment) : Sound P w (Call.next P c m) := by
  cases hr : c.result with
  | some r => rwa [next_done hr]
  | none =>
    have hp := h.pending hr
    cases m with
    | round => exact h.round hr
    | arrive data =>
      simp only [Call.next, hr, Option.isSome_none, Bool.false_eq_true, if_false]
      split
      swap
      · exact h
      obtain ⟨skipped, hskip, hreads⟩ := hp
      refine .wait rfl h.keys ⟨skipped, hskip, ?_⟩
      have happ := hreads.append data
      rw [World.inbound, List.append_assoc] at happ
      exact happ
    | close =>
      simp only [Call.next, hr, Option.isSome_none, Bool.false_eq_true, if_false]
      exact .wait rfl h.keys hp
    | pass =>
      simp only [Call.next, hr, Option.isSome_none, Bool.false_eq_true, if_false]
      split
      · exact h
      · exact .wait rfl h.keys hp

theorem sound_recvPacket (w : World) (moments : List Moment) :
    Sound P w (recvPacket P w moments) := by
  unfold recvPacket
  induction moments using List.reverseRecOn with
  | nil => exact .wait rfl ⟨rfl, rfl⟩ ⟨[], by simp, .nil _ _⟩
  | append_singleton p m ih =>
    rw [List.foldl_append]
    exact ih.next m

/-- Whether the deadline passed on an open connection shows as long as that is open. -/
def Call.Timed (c : Call) : Prop := c.expired = true → c.passedOpen = true ∨ c.w.connected = false

theorem Call.Timed.next (h : c.Timed) (m : Moment) : (Call.next P c m).Timed := by
  intro he
  cases hr : c.result with
  | some r =>
    rw [next_done hr] at he ⊢
    exact h he
  | none =>
    cases m with
    | round =>
      rw [next_round hr] at he ⊢
      obtain ⟨-, -, hsame⟩ := recvRound_same (P := P) c.expired c.w
      exact (h he).imp_right hsame.trans
    | arrive data =>
      simp only [Call.next, hr, Option.isSome_none, Bool.false_eq_true, if_false] at he ⊢
      split at he
      · rename_i hc
        rw [if_pos hc]
        exact h he
      · rename_i hc
        rw [if_neg hc]
        exact h he
    | close => exact .inr (by simp [Call.next, hr, step])
    | pass =>
      simp only [Call.next, hr, Option.isSome_none, Bool.false_eq_true, if_false] at he ⊢
      split
      · rename_i hx
        exact h hx
      · cases hc : c.w.connected with
        | false => exact .inr rfl
        | true => exact .inl rfl

theorem timed_recvPacket (w : World) (moments : List Moment) : (recvPacket P w moments).Timed := by
  induction moments using List.reverseRecOn with
  | nil => exact fun h ↦ by cases h
  | append_singleton p m ih =>
    rw [recvPacket_snoc]
    exact ih.next m

theorem next_result (hr : c.result = none) {m : Moment} {r : ℤ × Bytes}
    (h : (Call.next P c m).result = some r) :
    m = .round ∧ (recvRound P c.expired c.w).1 = some r ∧
      (Call.next P c m).passedOpen = c.passedOpen := by
  cases m with
  | round =>
    rw [next_round hr] at h ⊢
    exact ⟨rfl, h, rfl⟩
  | arrive data =>
    simp only [Call.next, hr, Option.isSome_none, Bool.false_eq_true, if_false] at h
    split at h
    · cases h
    · cases hr.symm.trans h
  | close =>
    simp only [Call.next, hr, Option.isSome_none, Bool.false_eq_true, if_false] at h
    cases h
  | pass =>
    simp only [Call.next, hr, Option.isSome_none, Bool.false_eq_true, if_false] at h
    split at h
    · cases hr.symm.trans h
    · cases h

/-- A round returns 0 for a packet of type 0, and for the deadline. -/
theorem recvRound_zero {expired : Bool} {pkt : Bytes}
    (h : (recvRound P expired w).1 = some (0, pkt)) :
    (∃ body rest, w.parsed P = .got (0 :: body) rest) ∨
      w.parsed P = .needMore ∧ expired = true := by
  cases hp : w.parsed P with
  | bad =>
    rw [recvRound_bad hp] at h
    simp at h
  | needMore =>
    rw [recvRound_wait hp] at h
    split at h
    · rename_i he
      exact .inr ⟨rfl, he⟩
    · split at h <;> simp at h
  | got out rest =>
    cases out with
    | nil =>
      rw [recvRound_empty hp] at h
      simp at h
    | cons b body =>
      rw [recvRound_packet hp] at h
      split at h
      · simp at h
      · have hb : ((b.toNat : ℕ) : ℤ) = 0 := (Prod.mk.inj (Option.some.inj h)).1
        have hz : b = 0 := UInt8.toNat_inj.mp (by simpa using hb)
        exact .inl ⟨body, rest, by rw [hz]⟩

theorem Orderly.timeout {moments : List Moment} (h : Orderly P w moments) {pkt : Bytes}
    (hz : (recvPacket P w moments).result = some (0, pkt)) :
    (recvPacket P w moments).passedOpen = true := by
  have hwhole : ∀ p, p <+: moments → (recvPacket P w p).result = some (0, pkt) →
      (recvPacket P w p).passedOpen = true := by
    intro p
    induction p using List.reverseRecOn with
    | nil => exact fun _ hn ↦ by cases hn
    | append_singleton p m ih =>
      intro hp hres
      cases hr : (recvPacket P w p).result with
      | some r =>
        rw [recvPacket_snoc, next_done hr] at hres ⊢
        exact ih ((List.prefix_append p [m]).trans hp) hres
      | none =>
        rw [recvPacket_snoc] at hres ⊢
        obtain ⟨rfl, hround, hopen⟩ := next_result hr hres
        rw [hopen]
        by_contra hn
        have hnot : (recvPacket P w p).passedOpen = false := by simpa using hn
        obtain ⟨hzero, hwait⟩ := h p hp hr hnot
        obtain ⟨body, rest, hgot⟩ | ⟨hmore, hexp⟩ := recvRound_zero hround
        · exact hzero body rest hgot
        · have hclosed := (timed_recvPacket w p hexp).resolve_left hn
          rw [(hwait hmore hclosed).1] at hexp
          cases hexp
  exact hwhole moments List.prefix_rfl hz

theorem result_stays {r : ℤ × Bytes} {p : List Moment} (h : (recvPacket P w p).result = some r)
    (rest : List Moment) : recvPacket P w (p ++ rest) = recvPacket P w p := by
  induction rest using List.reverseRecOn with
  | nil => rw [List.append_nil]
  | append_singleton rest m ih =>
    rw [← List.append_assoc, recvPacket_snoc, ih, next_done h]

theorem classified_iff_orderly (w : World) (moments : List Moment) :
    Classified P w moments ↔ Orderly P w moments := by
  constructor
  · intro h p hp hr hopen
    have hround (hz : ∃ pkt, (recvRound P (recvPacket P w p).expired (recvPacket P w p).w).1 =
        some (0, pkt)) : False := by
      obtain ⟨pkt, hz⟩ := hz
      have hres : (recvPacket P w (p ++ [.round])).result = some (0, pkt) := by
        rw [recvPacket_snoc, next_round hr]
        exact hz
      obtain ⟨rest, rfl⟩ := hp
      have hstay := result_stays hres rest
      have hpassed := h.timeout pkt (by rw [hstay]; exact hres)
      rw [hstay, recvPacket_snoc, next_round hr] at hpassed
      exact absurd hpassed (by simp [hopen])
    refine ⟨fun body rest hgot ↦ hround ⟨0 :: body, ?_⟩, fun hmore hclosed ↦ ?_⟩
    · rw [recvRound_packet hgot]
      rfl
    have hexp : (recvPacket P w p).expired = false := by
      by_contra he
      refine hround ⟨[], ?_⟩
      rw [recvRound_wait hmore, if_pos (by simpa using he)]
    refine ⟨hexp, fun hnil ↦ ?_⟩
    have hlost := h.closed p hp hr hclosed hnil hmore hopen
    rw [recvPacket_snoc, next_round hr] at hlost
    change (recvRound P _ _).1 = _ at hlost
    rw [recvRound_wait hmore, hexp] at hlost
    by_contra hlong
    simp [hlong] at hlost
  · intro h
    refine ⟨sound_recvPacket w moments, fun pkt hz ↦ h.timeout hz, ?_⟩
    intro p hp hr hclosed hnil hmore hopen
    obtain ⟨hexp, hshort⟩ := (h p hp hr hopen).2 hmore hclosed
    rw [recvPacket_snoc, next_round hr]
    change (recvRound P _ _).1 = _
    rw [recvRound_wait hmore, hexp]
    simp [hnil, hclosed, hshort hnil]

end

end Sshd.Client
