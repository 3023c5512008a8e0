import Sshd.Lib.Segment
import Sshd.Server.OutputDelivery
import Sshd.Server.ReceiveLoop
import Sshd.Server.Seat
import Sshd.Server.Twin

namespace Sshd.Server

open Lib.Octets Wire Crypto
open Relation (ReflTransGen)

variable (P : Primitives)

/-! Bytes in deliveries. -/

/-- One delivery of bytes to the session in slot `i`. -/
def deliver (i : ℤ) (w : World) (data : Bytes) : World :=
  step P i (step P i w (.tcpArrive data)) .tcpRecv

def deliverAll (i : ℤ) (w : World) (pieces : List Bytes) : World := pieces.foldl (deliver P i) w

/-- Two runs that cannot be told apart but by the bytes that a closed session
has left unread: the same calls with the same payloads and bytes, and the same
session. -/
structure SameOutcome (w v : World) : Prop where
  obs : v.obs.map Obs.blank = w.obs.map Obs.blank
  session : { v.s with rxBuf := [] } = { w.s with rxBuf := [] }
  unread : w.s.phase ≠ .closed → v.s.rxBuf = w.s.rxBuf
  slotInUse : v.slotInUse = w.slotInUse

/-- The version line ends before the preamble grows too long. -/
def LineInBound (stream : Bytes) : Prop := 10 ∈ stream → stream.idxOf 10 ≤ 1024

instance (stream : Bytes) : Decidable (LineInBound stream) :=
  inferInstanceAs (Decidable (10 ∈ stream → stream.idxOf 10 ≤ 1024))

/-- The rounds of two sessions of which the second has `b` more to read. -/
inductive RoundTwins (b : Bytes) : Rounded → Rounded → Prop
  | waits : RoundTwins b .waits .waits
  | more {r} (h : b ≠ []) : RoundTwins b .waits r
  | ends {w v} (h : Twin (w.s.rxBuf ++ b) w v) : RoundTwins b (.ends w) (.ends v)
  | goesOn {w v} (h : Twin (w.s.rxBuf ++ b) w v) : RoundTwins b (.goesOn w) (.goesOn v)

section
variable {P} {a b c : Bytes} {w w₁ w' v : World} {env : Env}

theorem Twin.rxBuf (h : Twin c w w) : w.s.rxBuf = c := congrArg Session.rxBuf h.s

theorem takeLine_long (h : takeLine w.s.rxBuf = none) (hlen : 1024 < w.s.rxBuf.length)
    (hl : LineInBound (w.s.rxBuf ++ b)) : takeLine (w.s.rxBuf ++ b) = none := by
  have hnone : 10 ∉ w.s.rxBuf := by
    intro hm
    simp [takeLine, hm] at h
  refine if_neg fun hm ↦ ?_
  have hidx := hl hm
  rw [List.idxOf_append_of_notMem hnone] at hidx
  omega

theorem Twin.kept {f : World → World} (h : Twin (w.s.rxBuf ++ b) w v)
    (hf : ∀ c w v, Twin c w v → Twin c (f w) (f v)) :
    Twin ((f w).s.rxBuf ++ b) (f w) (f v) := by
  rw [(hf _ _ _ (Twin.self h.blind h.tcpIn.1)).rxBuf]
  exact hf _ _ _ h

theorem Twin.bye (h : Twin (w.s.rxBuf ++ b) w v) (code : UInt32) (msg : String) :
    Twin ((Server.sendDisconnect P w code msg).s.rxBuf ++ b) (Server.sendDisconnect P w code msg)
      (Server.sendDisconnect P v code msg) :=
  h.kept fun _ _ _ h ↦ h.sendDisconnect P code msg

theorem receiveRound_version (hp : w.s.phase = .version) (h : Twin (w.s.rxBuf ++ b) w v)
    (hl : LineInBound (w.s.rxBuf ++ b)) :
    RoundTwins b (receiveRound P w) (receiveRound P v) := by
  have hpv : v.s.phase = .version := by
    rw [h.s]
    exact hp
  have hrx : v.s.rxBuf = w.s.rxBuf ++ b := by rw [h.s]
  obtain ⟨line, rest, htake, hw⟩ | ⟨htake, hw⟩ := consumeVersion_cases (P := P) w
  · obtain ⟨line', rest', htake', hv⟩ | ⟨htake', -⟩ := consumeVersion_cases (P := P) v
    swap
    · rw [hrx, takeLine_append htake] at htake'
      cases htake'
    rw [hrx, takeLine_append htake] at htake'
    cases htake'
    have h₁ : Twin (rest ++ b) (w.modify fun s ↦ { s with peerVersion := line, rxBuf := rest })
        (v.modify fun s ↦ { s with peerVersion := line, rxBuf := rest ++ b }) :=
      ⟨h.blind, h.tcpIn, h.env, by rw [modify_s, h.s]; rfl, h.slotInUse, h.backIn, h.obs⟩
    by_cases h4 : line.take 4 ≠ ascii "SSH-"
    · rw [if_pos h4] at hw hv
      rw [receiveRound_refused hp hw rfl, receiveRound_refused hpv hv rfl]
      exact .ends (h₁.bye 2 _)
    by_cases h8 : line.take 8 ≠ ascii "SSH-2.0-"
    · rw [if_neg h4, if_pos h8] at hw hv
      rw [receiveRound_refused hp hw rfl, receiveRound_refused hpv hv rfl]
      exact .ends (h₁.bye 2 _)
    · rw [if_neg h4, if_neg h8] at hw hv
      rw [receiveRound_greeted hp hw, receiveRound_greeted hpv hv]
      exact .goesOn (h₁.kept fun _ _ _ h ↦ .modify (h.sendOurKexinit P) rfl)
  · by_cases hlen : 1024 < w.s.rxBuf.length
    · have htake' : takeLine v.s.rxBuf = none := by
        rw [hrx]
        exact takeLine_long htake hlen hl
      obtain ⟨line', rest', hsome, -⟩ | ⟨-, hv⟩ := consumeVersion_cases (P := P) v
      · cases hsome.symm.trans htake'
      rw [if_pos hlen] at hw
      rw [if_pos (by rw [hrx, List.length_append]; omega)] at hv
      rw [receiveRound_refused hp hw rfl, receiveRound_refused hpv hv rfl]
      exact .ends (h.bye 2 _)
    · rw [if_neg hlen] at hw
      rw [receiveRound_halfLine hp hw]
      by_cases hb : b = []
      · obtain ⟨line', rest', hsome, -⟩ | ⟨-, hv⟩ := consumeVersion_cases (P := P) v
        · rw [hrx, hb, List.append_nil, htake] at hsome
          cases hsome
        rw [if_neg (by rw [hrx, hb, List.append_nil]; exact hlen)] at hv
        rw [receiveRound_halfLine hpv hv]
        exact .waits
      · exact .more hb

theorem receiveRound_packet (hp : w.s.phase ≠ .closed ∧ w.s.phase ≠ .version)
    (h : Twin (w.s.rxBuf ++ b) w v) : RoundTwins b (receiveRound P w) (receiveRound P v) := by
  have hpv : v.s.phase ≠ .closed ∧ v.s.phase ≠ .version := by
    rw [h.s]
    exact hp
  have hv : Framing.unframe P v.s.encInbound v.s.c2sKey v.s.seqIn v.s.rxBuf =
      Framing.unframe P w.s.encInbound w.s.c2sKey w.s.seqIn (w.s.rxBuf ++ b) := by rw [h.s]
  cases hu : Framing.unframe P w.s.encInbound w.s.c2sKey w.s.seqIn w.s.rxBuf with
  | needMore =>
    rw [receiveRound_needMore hp (by rw [parsePacket, hu])]
    by_cases hb : b = []
    · rw [hb, List.append_nil, hu] at hv
      rw [receiveRound_needMore hpv (by rw [parsePacket, hv])]
      exact .waits
    · exact .more hb
  | bad =>
    rw [Framing.unframe_append P b (by rw [hu]; nofun), hu] at hv
    have hbad : parsePacket P v = .bad := by
      rw [parsePacket, hv]
      rfl
    rw [receiveRound_bad hp (by rw [parsePacket, hu]), receiveRound_bad hpv hbad]
    exact .ends (h.bye 2 _)
  | got payload rest =>
    rw [Framing.unframe_append P b (by rw [hu]; nofun), hu] at hv
    have hpacket : v.s.rxBuf.take (v.s.rxBuf.length - (rest ++ b).length) =
        w.s.rxBuf.take (w.s.rxBuf.length - rest.length) := by
      rw [h.s, List.length_append, List.length_append, Nat.add_sub_add_right,
        List.take_append_of_le_length (Nat.sub_le _ _)]
    have hopened : (Obs.opened v.s.encInbound v.s.c2sKey v.s.seqIn
        (v.s.rxBuf.take (v.s.rxBuf.length - (rest ++ b).length)) payload) =
          .opened w.s.encInbound w.s.c2sKey w.s.seqIn
            (w.s.rxBuf.take (w.s.rxBuf.length - rest.length)) payload := by
      rw [hpacket, h.s]
    obtain ⟨w₁, hw₁, hw₁'⟩ : ∃ w₁, parsePacket P w = .got payload w₁ ∧
        w₁ = (w.note (.opened w.s.encInbound w.s.c2sKey w.s.seqIn
          (w.s.rxBuf.take (w.s.rxBuf.length - rest.length)) payload)).modify
            fun s ↦ { s with rxBuf := rest, seqIn := s.seqIn + 1 } := by
      refine ⟨_, ?_, rfl⟩
      simp [parsePacket, hu]
    obtain ⟨v₁, hv₁, hv₁'⟩ : ∃ v₁, parsePacket P v = .got payload v₁ ∧
        v₁ = (v.note (.opened v.s.encInbound v.s.c2sKey v.s.seqIn
          (v.s.rxBuf.take (v.s.rxBuf.length - (rest ++ b).length)) payload)).modify
            fun s ↦ { s with rxBuf := rest ++ b, seqIn := s.seqIn + 1 } := by
      refine ⟨_, ?_, rfl⟩
      simp [parsePacket, hv, Framing.Parsed.extend]
    have h₁ : Twin (w₁.s.rxBuf ++ b) w₁ v₁ := by
      rw [hw₁', hv₁', hopened]
      have hn := h.note (o := .opened w.s.encInbound w.s.c2sKey w.s.seqIn
        (w.s.rxBuf.take (w.s.rxBuf.length - rest.length)) payload) rfl
      exact ⟨h.blind, h.tcpIn, h.env, by rw [modify_s, hn.s]; rfl, h.slotInUse, h.backIn, hn.obs⟩
    have hslot : v₁.s.slot = w₁.s.slot := by rw [h₁.s]
    have hkept := h₁.kept (f := fun w ↦ (dispatchPacket P w payload w₁.s.slot).1)
      fun _ _ _ h ↦ (h.dispatchPacket P payload w₁.s.slot).1
    obtain ⟨w₂, v₂, ok, hw₂, hv₂, -⟩ := (h₁.dispatchPacket P payload w₁.s.slot).apart
    simp only [hw₂, hv₂] at hkept
    rw [receiveRound_got hp hw₁ hw₂, receiveRound_got hpv hv₁ (hslot ▸ hv₂)]
    cases ok
    · have hphase : v₂.s.phase = w₂.s.phase := by rw [hkept.s]
      rw [if_neg Bool.false_ne_true, if_neg Bool.false_ne_true, hphase]
      by_cases hc : w₂.s.phase ≠ .closed
      · rw [if_pos hc, if_pos hc]
        exact .ends (hkept.bye 2 _)
      · rw [if_neg hc, if_neg hc]
        exact .ends hkept
    · exact .goesOn hkept

theorem receiveRound_twin (h : Twin (w.s.rxBuf ++ b) w v)
    (hl : w.s.phase = .version → LineInBound (w.s.rxBuf ++ b)) :
    RoundTwins b (receiveRound P w) (receiveRound P v) := by
  by_cases hc : w.s.phase = .closed
  · have hcv : v.s.phase = .closed := by
      rw [h.s]
      exact hc
    rw [receiveRound, if_pos hc, receiveRound, if_pos hcv]
    exact .ends h
  by_cases hp : w.s.phase = .version
  · exact receiveRound_version hp h (hl hp)
  · exact receiveRound_packet ⟨hc, hp⟩ h

/-- What a drained session has read it also reads with more behind it, and it
goes on from there. -/
theorem Drains.extend (h : Drains P w w') (hs : Twin (w.s.rxBuf ++ b) w v)
    (hl : w.s.phase = .version → LineInBound (w.s.rxBuf ++ b)) :
    ∃ v', Twin (w'.s.rxBuf ++ b) w' v' ∧
      (w'.s.phase = .closed ∧ Drains P v v' ∨
        w'.s.phase ≠ .closed ∧ receiveRound P w' = .waits ∧
          (w'.s.phase = .version → LineInBound (w'.s.rxBuf ++ b)) ∧
          ∀ z, Drains P v' z → Drains P v z) := by
  induction h generalizing v with
  | waits hr => exact ⟨v, hs, .inr ⟨receiveRound_waits hr, hr, hl, fun z hz ↦ hz⟩⟩
  | ends hr =>
    have hround := receiveRound_twin (P := P) hs hl
    rw [hr] at hround
    generalize hv : receiveRound P v = r at hround
    cases hround with
    | ends hs' => exact ⟨_, hs', .inl ⟨receiveRound_ends hr, .ends hv⟩⟩
  | goesOn hr hd ih =>
    have hround := receiveRound_twin (P := P) hs hl
    rw [hr] at hround
    generalize hv : receiveRound P v = r at hround
    cases hround with
    | goesOn hs' =>
      have hn := (receiveRound_reads hr).1
      obtain ⟨v', ht, hrest⟩ := ih hs' fun hp ↦ absurd hp hn
      refine ⟨v', ht, ?_⟩
      obtain ⟨hc, hd'⟩ | ⟨hc, hw, hl', hd'⟩ := hrest
      · exact .inl ⟨hc, .goesOn hv hd'⟩
      · exact .inr ⟨hc, hw, hl', fun z hz ↦ .goesOn hv (hd' z hz)⟩

/-- Sessions that differ in nothing the receive loop looks at drain alike. -/
theorem Drains.twin (h : Drains P w w') (hs : Twin w.s.rxBuf w v)
    (hl : w.s.phase = .version → LineInBound w.s.rxBuf) :
    ∃ v', Twin w'.s.rxBuf w' v' ∧ Drains P v v' := by
  have hnil (x : World) : x.s.rxBuf ++ [] = x.s.rxBuf := List.append_nil _
  obtain ⟨v', ht, hrest⟩ := h.extend (b := []) (by rwa [hnil]) (by rwa [hnil])
  refine ⟨v', hnil w' ▸ ht, ?_⟩
  obtain ⟨-, hd⟩ | ⟨-, hw, hl', hd⟩ := hrest
  · exact hd
  · refine hd v' (.waits ?_)
    have hround := receiveRound_twin (P := P) ht hl'
    rw [hw] at hround
    generalize receiveRound P v' = r at hround
    cases hround with
    | waits => rfl
    | more hne => exact absurd rfl hne

/-! Deliveries. -/

/-- A session that waits for bytes. -/
structure Awaits (P : Primitives) (i : ℤ) (w : World) : Prop where
  blind : w.env.Blind
  range : 0 ≤ i ∧ i < sshdMaxSessions
  slot : w.s.slot = i
  inUse : w.slotInUse i = true
  tcpIn : w.tcpIn = []
  round : receiveRound P w = .waits

/-- A session that can be given the bytes `rest` in any cutting. -/
def Ready (P : Primitives) (i : ℤ) (w : World) (rest : Bytes) : Prop :=
  w.slotInUse i = false ∧ w.s.phase = .closed ∨
    Awaits P i w ∧ (w.s.phase = .version → LineInBound (w.s.rxBuf ++ rest))

theorem receiveLoop_seat (n : ℕ) (w : World) :
    (receiveLoop P n w).s.slot = w.s.slot ∧ (receiveLoop P n w).slotInUse = w.slotInUse := by
  have hr := receiveLoop_rounds P n w
  generalize receiveLoop P n w = w' at hr ⊢
  induction hr with
  | refl => exact ⟨rfl, rfl⟩
  | tail _ hs ih =>
    have hsits := Sits.round P hs
    exact ⟨hsits.slot.trans ih.1, hsits.slotInUse.trans ih.2⟩

variable {i : ℤ}

/-- A session with `data` behind what it has left unread. -/
def World.fed (w : World) (data : Bytes) : World :=
  { w with s := { w.s with rxBuf := w.s.rxBuf ++ data } }

theorem deliver_awaits (h : Awaits P i w) (data : Bytes) :
    ∃ d, Drains P (w.fed data) d ∧ (d.s.slot = i ∧ d.slotInUse = w.slotInUse) ∧
      deliver P i w data = if d.s.phase = .closed then sessionClose d else d := by
  have hstep : deliver P i w data = sessionOnTcpData P { w with tcpIn := data } := by
    change onTcpRecv P i { w with tcpIn := w.tcpIn ++ data } = _
    have hr : ¬(i < 0 ∨ sshdMaxSessions ≤ i) := by
      have := h.range
      omega
    rw [h.tcpIn, List.nil_append, onTcpRecv, if_neg hr, if_neg (by rw [h.inUse]; decide)]
  have hfill : fillRxBuf data.length { w with tcpIn := data } = w.fed data := by
    rw [fillRxBuf_eq _ _ (Nat.le_refl data.length), World.fed]
    exact congrArg (fun t ↦ { w.fed data with tcpIn := t }) h.tcpIn.symm
  refine ⟨receiveLoop P ((w.fed data).s.rxBuf.length + 1) (w.fed data),
    receiveLoop_drains _ (Nat.lt_succ_self _), ?_, ?_⟩
  · obtain ⟨hslot, huse⟩ := receiveLoop_seat (P := P) ((w.fed data).s.rxBuf.length + 1) (w.fed data)
    exact ⟨hslot.trans h.slot, huse⟩
  · rw [hstep, sessionOnTcpData, hfill]

theorem deliver_closed (h : w.slotInUse i = false) (data : Bytes) :
    deliver P i w data = { w with tcpIn := w.tcpIn ++ data } := by
  change onTcpRecv P i { w with tcpIn := w.tcpIn ++ data } = _
  by_cases hi : i < 0 ∨ sshdMaxSessions ≤ i
  · exact if_pos hi
  · rw [onTcpRecv, if_neg hi]
    exact if_pos h

theorem SameOutcome.phase (h : SameOutcome w v) : v.s.phase = w.s.phase := by
  have hp := congrArg Session.phase h.session
  exact hp

theorem sameOutcome_equivalence : Equivalence SameOutcome where
  refl _ := ⟨rfl, rfl, fun _ ↦ rfl, rfl⟩
  symm h :=
    ⟨h.obs.symm, h.session.symm, fun hv ↦ (h.unread (h.phase ▸ hv)).symm, h.slotInUse.symm⟩
  trans h h' :=
    ⟨h'.obs.trans h.obs, h'.session.trans h.session,
      fun hw ↦ (h'.unread (h.phase.symm ▸ hw)).trans (h.unread hw), h'.slotInUse.trans h.slotInUse⟩

theorem Twin.sameOutcome (h : Twin c w v) (hc : w.s.phase ≠ .closed → c = w.s.rxBuf) :
    SameOutcome w v where
  obs := h.obs
  session := by rw [h.s]
  unread hp := by
    rw [h.s]
    exact hc hp
  slotInUse := h.slotInUse

theorem SameOutcome.queue (h : SameOutcome w v) (q : Bytes) : SameOutcome { w with tcpIn := q } v :=
  ⟨h.obs, h.session, h.unread, h.slotInUse⟩

/-- The end of a delivery. -/
def settle (d : World) : World := if d.s.phase = .closed then sessionClose d else d

theorem Twin.settle (h : Twin c w v) (hc : w.s.phase ≠ .closed → c = w.s.rxBuf) :
    SameOutcome (settle w) (settle v) := by
  have hp : v.s.phase = w.s.phase := by rw [h.s]
  unfold Server.settle
  rw [hp]
  split
  · refine h.sessionClose.sameOutcome fun hn ↦ absurd ?_ hn
    exact (sessionClose_closed w).1
  · exact h.sameOutcome hc

theorem sessionClose_inUse (hs : w.s.slot = i) (hi : 0 ≤ i ∧ i < sshdMaxSessions) :
    (sessionClose w).slotInUse i = false := by
  have hn : ¬(w.s.phase = .closed ∧ w.s.slot < 0) := by
    rintro ⟨-, hneg⟩
    omega
  have hslot : (shut (dropTcp (dropBackend w))).s.slot = i := by
    change (dropTcp (dropBackend w)).s.slot = i
    rw [dropTcp_s, dropBackend_s]
    exact hs
  rw [sessionClose_eq hn, Server.freeSlot, if_pos (by rw [hslot]; exact hi.1), sshdSlotFree, hslot,
    if_pos hi]
  exact Function.update_self ..

theorem deliver_append (h : Awaits P i w)
    (hl : w.s.phase = .version → LineInBound (w.s.rxBuf ++ (a ++ b))) :
    SameOutcome (deliver P i (deliver P i w a) b) (deliver P i w (a ++ b)) ∧
      Ready P i (deliver P i w a) b := by
  obtain ⟨d, hd, ⟨hslot, huse⟩, he⟩ := deliver_awaits h a
  obtain ⟨d', hd', -, he'⟩ := deliver_awaits h (a ++ b)
  change deliver P i w a = settle d at he
  change deliver P i w (a ++ b) = settle d' at he'
  have hassoc : (w.fed a).s.rxBuf ++ b = w.s.rxBuf ++ (a ++ b) := List.append_assoc ..
  have hfed : Twin ((w.fed a).s.rxBuf ++ b) (w.fed a) (w.fed (a ++ b)) :=
    ⟨h.blind, ⟨h.tcpIn, h.tcpIn⟩, rfl, by rw [hassoc]; rfl, rfl, rfl, rfl⟩
  obtain ⟨v, ht, ⟨hc, hdv⟩ | ⟨hn, hw, hl', hdz⟩⟩ := hd.extend hfed (by rw [hassoc]; exact hl)
  · obtain rfl := hdv.unique hd'
    have hclosed : settle d = sessionClose d := if_pos hc
    have hfree : (sessionClose d).slotInUse i = false := sessionClose_inUse hslot h.range
    rw [he, he', hclosed, deliver_closed hfree]
    have hsame := ht.settle fun hn ↦ absurd hc hn
    rw [hclosed] at hsame
    exact ⟨hsame.queue _, .inl ⟨hfree, (sessionClose_closed d).1⟩⟩
  · have hopen : settle d = d := if_neg hn
    have hawait : Awaits P i d := ⟨ht.blind, h.range, hslot, huse ▸ h.inUse, ht.tcpIn.1, hw⟩
    obtain ⟨e, hde, -, hee⟩ := deliver_awaits hawait b
    change deliver P i d b = settle e at hee
    obtain ⟨e', hte, hve⟩ := hde.twin
      ⟨ht.blind, ht.tcpIn, ht.env, ht.s, ht.slotInUse, ht.backIn, ht.obs⟩ hl'
    obtain rfl := (hdz e' hve).unique hd'
    rw [he, he', hopen, hee]
    exact ⟨hte.settle fun _ ↦ rfl, .inr ⟨hawait, hl'⟩⟩

/-- Cutting a delivery in two makes no difference. -/
theorem deliver_seamless (P : Primitives) (i : ℤ) :
    Lib.Segment.Seamless (deliver P i) SameOutcome (Ready P i) where
  equivalence := sameOutcome_equivalence
  nil w h := by
    obtain ⟨hf, hc⟩ | ⟨h, -⟩ := h
    · rw [deliver_closed hf]
      exact sameOutcome_equivalence.symm ((sameOutcome_equivalence.refl w).queue _)
    · obtain ⟨d, hd, -, he⟩ := deliver_awaits h []
      have hfed : w.fed [] = w := by
        unfold World.fed
        rw [List.append_nil]
      rw [hfed] at hd
      obtain rfl := (Drains.waits h.round).unique hd
      rw [he, if_neg (receiveRound_waits h.round)]
      exact sameOutcome_equivalence.refl w
  append w a b h := by
    obtain ⟨hf, hc⟩ | ⟨h, hl⟩ := h
    · have htwice := deliver_closed (P := P) (w := { w with tcpIn := w.tcpIn ++ a }) hf b
      rw [deliver_closed hf, deliver_closed hf, htwice]
      exact ⟨rfl, rfl, fun _ ↦ rfl, rfl⟩
    · exact (deliver_append h hl).1
  ready w a b h := by
    obtain ⟨hf, hc⟩ | ⟨h, hl⟩ := h
    · rw [deliver_closed hf]
      exact .inl ⟨hf, hc⟩
    · exact (deliver_append h hl).2

/-! The fresh session. -/

theorem accepted_awaits (henv : env.Blind) (slot tcp : ℕ) (hslot : (slot : ℤ) < sshdMaxSessions) :
    Awaits P slot (accepted slot env tcp) ∧ (accepted slot env tcp).s.phase = .version ∧
      (accepted slot env tcp).s.rxBuf = [] ∧ CanSend (accepted slot env tcp).s ∧
        sentPayloads (accepted slot env tcp).obs = [] := by
  have htcp : ¬(tcp : ℤ) < 0 := by omega
  have he : accepted slot env tcp =
      ⟨env, { reset with slot := slot, tcp := tcp, ourVersion := ourVersionStr },
        Function.update (fun _ ↦ false) slot true, [], fun _ ↦ [],
        [.accept tcp slot, .itsSend .tcp tcp (ourVersionStr ++ ascii "\r\n")
          (min (env.itsSend [.accept tcp slot] .tcp tcp (ourVersionStr ++ ascii "\r\n"))
            (ourVersionStr ++ ascii "\r\n").length)]⟩ := by
    simp only [accepted, onTcpConnect, sessionOpen, sendOurVersion, sendRawTcp, World.note,
      World.modify, htcp, if_false, Server.itsSend]
    rfl
  rw [he]
  refine ⟨⟨henv, ⟨by omega, hslot⟩, rfl, ?_, rfl, rfl⟩, rfl, rfl, ⟨?_, ?_⟩, rfl⟩
  · exact Function.update_self (slot : ℤ) true fun _ ↦ false
  · intro he
    cases he
  · exact Int.natCast_nonneg tcp

/-! A version line that ends too late is taken for a preamble that is too long,
or not, depending on how much of it arrives at once. -/

theorem sentPayloads_blank (obs : List Obs) : sentPayloads (obs.map Obs.blank) = sentPayloads obs := by
  unfold sentPayloads
  rw [List.filterMap_map]
  refine List.filterMap_congr fun o _ ↦ ?_
  cases o <;> rfl

theorem SameOutcome.sent (h : SameOutcome w v) : sentPayloads v.obs = sentPayloads w.obs := by
  rw [← sentPayloads_blank v.obs, h.obs, sentPayloads_blank]

theorem sentPayloads_close (w : World) : sentPayloads (sessionClose w).obs = sentPayloads w.obs := by
  obtain ⟨os, hobs, hos, -⟩ := sessionClose_grows w
  have hnone : sentPayloads os = [] := by
    refine List.filterMap_eq_nil_iff.mpr fun o ho ↦ ?_
    obtain ⟨_, rfl⟩ | rfl | rfl := hos o ho <;> rfl
  rw [hobs, sentPayloads_append, hnone, List.append_nil]

theorem sentPayloads_settle (d : World) : sentPayloads (settle d).obs = sentPayloads d.obs := by
  unfold settle
  split
  · exact sentPayloads_close d
  · rfl

theorem Drains.sent (h : Drains P w w') : sentPayloads w.obs <+: sentPayloads w'.obs := by
  obtain rfl := h.unique (receiveLoop_drains (P := P) _ (Nat.lt_succ_self _))
  have hr := receiveLoop_rounds P (w.s.rxBuf.length + 1) w
  generalize receiveLoop P (w.s.rxBuf.length + 1) w = w' at hr
  induction hr with
  | refl => exact List.prefix_rfl
  | tail _ hs ih =>
    obtain ⟨os, hos⟩ := hs.move.obs_grows
    rw [← hos, sentPayloads_append]
    exact ih.trans (List.prefix_append _ _)

theorem sentPayloads_kexinit (h : CanSend w.s) :
    ∃ payload, payload.head? = some msgKexinit ∧
      sentPayloads (sendOurKexinit P w).obs = sentPayloads w.obs ++ [payload] := by
  have hhead := buildKexinitPayload_head w
  have hsent : sentPayloads (buildKexinitPayload w).2.obs = sentPayloads w.obs :=
    (sentPayloads_append w.obs _).trans (List.append_nil _)
  have hs : (buildKexinitPayload w).2.s = w.s := rfl
  unfold sendOurKexinit
  generalize buildKexinitPayload w = r at hhead hsent hs ⊢
  have hw : CanSend (r.2.modify fun s ↦ { s with ourKexInit := r.1 }).s := by
    rw [modify_s, hs]
    exact h
  exact ⟨r.1, hhead, (sentPayloads_send hw r.1).trans (congrArg (· ++ [r.1]) hsent)⟩

/-- A version line that is taken is answered by something else than the
complaint about the preamble. -/
theorem Drains.answer (h : Drains P w w') (hp : w.s.phase = .version) (hw : CanSend w.s)
    (hnone : sentPayloads w.obs = []) (hm : 10 ∈ w.s.rxBuf) :
    ∃ first, [first] <+: sentPayloads w'.obs ∧ first ≠ disconnect 2 "preamble too long" := by
  obtain ⟨line, rest, -, hv⟩ | ⟨hnl, -⟩ := consumeVersion_cases (P := P) w
  swap
  · simp [takeLine, hm] at hnl
  set w₁ := w.modify fun s ↦ { s with peerVersion := line, rxBuf := rest } with hw₁
  have hbye (msg : String) : sentPayloads (sendDisconnect P w₁ 2 msg).obs = [disconnect 2 msg] := by
    rw [sentPayloads_bye (w := w₁) hw]
    exact congrArg (· ++ [disconnect 2 msg]) hnone
  -- the first round sends the answer, and may be the last
  by_cases hssh : line.take 4 ≠ ascii "SSH-" ∨ line.take 8 ≠ ascii "SSH-2.0-"
  · obtain ⟨msg, hmsg, hr⟩ : ∃ msg, disconnect 2 msg ≠ disconnect 2 "preamble too long" ∧
        receiveRound P w = .ends (sendDisconnect P w₁ 2 msg) := by
      by_cases h4 : line.take 4 ≠ ascii "SSH-"
      · rw [if_pos h4] at hv
        exact ⟨"not an SSH client", by decide, receiveRound_refused hp hv rfl⟩
      · rw [if_neg h4, if_pos (hssh.resolve_left h4)] at hv
        exact ⟨"SSH protocol version must be 2.0", by decide, receiveRound_refused hp hv rfl⟩
    obtain rfl := h.unique (.ends hr)
    exact ⟨disconnect 2 msg, (hbye msg).symm ▸ List.prefix_rfl, hmsg⟩
  · rw [not_or] at hssh
    rw [if_neg hssh.1, if_neg hssh.2] at hv
    have hr : receiveRound P w =
        .goesOn ((sendOurKexinit P w₁).modify fun s ↦ { s with phase := .kexWaitKexinit }) :=
      receiveRound_greeted hp hv
    obtain ⟨payload, hhead, hsent⟩ := sentPayloads_kexinit (P := P) (w := w₁) hw
    have hfirst : sentPayloads (sendOurKexinit P w₁).obs = [payload] :=
      hsent.trans (congrArg (· ++ [payload]) hnone)
    refine ⟨payload, ?_, fun he ↦ ?_⟩
    · rw [← hfirst]
      cases h with
      | waits hr' => cases hr'.symm.trans hr
      | ends hr' => cases hr'.symm.trans hr
      | goesOn hr' hd =>
        cases hr'.symm.trans hr
        exact hd.sent
    · rw [he] at hhead
      exact absurd (Option.some.inj hhead) (by decide)

/-- A preamble that has grown too long is complained about. -/
theorem Drains.complaint (h : Drains P w w') (hp : w.s.phase = .version) (hw : CanSend w.s)
    (hnone : sentPayloads w.obs = []) (hm : 10 ∉ w.s.rxBuf) (hlen : 1024 < w.s.rxBuf.length) :
    sentPayloads w'.obs = [disconnect 2 "preamble too long"] ∧ w'.s.phase = .closed := by
  obtain ⟨line, rest, htake, -⟩ | ⟨-, hv⟩ := consumeVersion_cases (P := P) w
  · simp [takeLine, hm] at htake
  rw [if_pos hlen] at hv
  have hr : receiveRound P w = .ends (sendDisconnect P w 2 "preamble too long") :=
    receiveRound_refused hp hv rfl
  obtain rfl := h.unique (.ends hr)
  rw [sentPayloads_bye hw, hnone]
  exact ⟨rfl, rfl⟩

end

/-- However a stream is cut into deliveries, the session goes the same way,
exactly when its version line, if it has one, ends within the bound on the
preamble. -/
theorem independent_iff (P : Primitives) (env : Env) (henv : env.Blind) (slot tcp : ℕ)
    (hslot : (slot : ℤ) < sshdMaxSessions) (stream : Bytes) :
    (∀ pieces pieces' : List Bytes, pieces.flatten = stream → pieces'.flatten = stream →
      SameOutcome (deliverAll P slot (accepted slot env tcp) pieces)
        (deliverAll P slot (accepted slot env tcp) pieces')) ↔ LineInBound stream := by
  obtain ⟨hawait, hphase, hrx, hsend, hnone⟩ := accepted_awaits (P := P) henv slot tcp hslot
  constructor
  · intro h hm
    by_contra hidx
    have hlt := List.idxOf_lt_length_of_mem hm
    have hfed (data : Bytes) : ((accepted slot env tcp).fed data).s.rxBuf = data := by
      change (accepted slot env tcp).s.rxBuf ++ data = data
      rw [hrx, List.nil_append]
    -- all at once
    obtain ⟨d, hd, -, he⟩ := deliver_awaits hawait stream
    obtain ⟨first, hfirst, hne⟩ := hd.answer hphase hsend hnone
      (by rw [hfed]; exact hm)
    -- in two pieces, the first without the end of the line
    have hcut : 10 ∉ stream.take 1025 := by
      rw [List.mem_take_iff_idxOf_lt hm]
      omega
    obtain ⟨d', hd', ⟨hslot', -⟩, he'⟩ := deliver_awaits hawait (stream.take 1025)
    obtain ⟨hsent, hclosed⟩ := hd'.complaint hphase hsend hnone (by rw [hfed]; exact hcut)
      (by rw [hfed, List.length_take]; omega)
    have hfree : (sessionClose d').slotInUse slot = false :=
      sessionClose_inUse hslot' hawait.range
    rw [if_pos hclosed] at he'
    have hsame := (h [stream] [stream.take 1025, stream.drop 1025] (by simp) (by simp)).sent
    change sentPayloads (deliver P slot (deliver P slot (accepted slot env tcp) (stream.take 1025))
      (stream.drop 1025)).obs = sentPayloads (deliver P slot (accepted slot env tcp) stream).obs at hsame
    rw [he', deliver_closed hfree, he] at hsame
    change sentPayloads (sessionClose d').obs = sentPayloads (settle d).obs at hsame
    rw [sentPayloads_close, hsent, sentPayloads_settle] at hsame
    rw [← hsame] at hfirst
    exact hne (List.cons_prefix_cons.mp hfirst).1
  · intro hl pieces pieces' hp hp'
    refine (deliver_seamless P slot).cut (.inr ⟨hawait, fun _ ↦ ?_⟩) (hp'.trans hp.symm)
    rw [hrx, List.nil_append, hp]
    exact hl

theorem sampleEnv_blind : sampleEnv.Blind := by
  constructor <;> intro obs <;> simp [sampleEnv]

theorem independent_hello :
    (∀ pieces pieces' : List Bytes, pieces.flatten = ascii "SSH-2.0-x\n" →
      pieces'.flatten = ascii "SSH-2.0-x\n" →
      SameOutcome (deliverAll standIn (0 : ℕ) (accepted (0 : ℕ) sampleEnv (3 : ℕ)) pieces)
        (deliverAll standIn (0 : ℕ) (accepted (0 : ℕ) sampleEnv (3 : ℕ)) pieces')) ↔
      LineInBound (ascii "SSH-2.0-x\n") :=
  independent_iff standIn sampleEnv sampleEnv_blind 0 3 (by decide) _

/-- A client with a long version line. -/
def longLine : Bytes := ascii "SSH-2.0-" ++ List.replicate 1020 120 ++ [10]

/-- The line is taken when it arrives at once, and refused when its end comes
later. -/
theorem long_line_cut :
    ¬∀ pieces pieces' : List Bytes, pieces.flatten = longLine → pieces'.flatten = longLine →
      SameOutcome (deliverAll standIn (0 : ℕ) (accepted (0 : ℕ) sampleEnv (3 : ℕ)) pieces)
        (deliverAll standIn (0 : ℕ) (accepted (0 : ℕ) sampleEnv (3 : ℕ)) pieces') := by
  intro h
  have hsame := (h [longLine] [longLine.take 1025, longLine.drop 1025] (by simp) (by simp)).phase
  revert hsame
  decide +kernel

end Sshd.Server
