import Sshd.Lib.Fair
import Sshd.Client.Receive

namespace Sshd.Client

open Lib.Octets Lib.Fair Wire Crypto Framing
open Server (standIn packets)

variable (P : Primitives)

/-! The loop of an interactive session once its connection is closed. -/

structure Pumping (w : World) : Prop where
  pc : w.pc = .pump
  interactive : w.job.haveCmd = false
  closed : w.connected = false
  wanted : w.job.userClose = false

/-- Nothing arrives on a closed connection, and the user leaves the session alone. -/
def Event.Left : Event → Prop
  | .tcpArrive _ | .userClose => False
  | _ => True

/-- However the rounds go, as long as `recv_packet` gets to read, the session is
over at some time. -/
def Stops (w : World) : Prop :=
  ∀ events : ℕ → Event, (∀ n, (events n).Left) → Recurs (· = .poll false) events →
    ∃ n, (after (step P) w events n).pc = .finished

/-- A stream in which something is found that ends the loop. -/
inductive Ending (enc : Bool) (key : Bytes) : ℕ → Bytes → Prop
  | short {seq : ℕ} {stream : Bytes} (h : unframe P enc key seq stream = .needMore)
      (hlen : stream.length < 4) : Ending enc key seq stream
  | bad {seq : ℕ} {stream : Bytes} (h : unframe P enc key seq stream = .bad) :
      Ending enc key seq stream
  | empty {seq : ℕ} {stream rest : Bytes} (h : unframe P enc key seq stream = .got [] rest) :
      Ending enc key seq stream
  | last {seq : ℕ} {stream rest body : Bytes} {t : UInt8}
      (h : unframe P enc key seq stream = .got (t :: body) rest)
      (ht : t = msgChannelClose ∨ t = msgDisconnect) : Ending enc key seq stream
  | next {seq : ℕ} {stream out rest : Bytes} (h : unframe P enc key seq stream = .got out rest)
      (hrest : Ending enc key (seq + 1) rest) : Ending enc key seq stream

/-- What the connection has left behind ends the loop. -/
def World.Ends (w : World) : Prop := Ending P w.cs.encIn w.cs.recvKey w.cs.seqIn w.inbound

/-- What the loop reads with, and what it asks the job. -/
structure Inlet where
  rxBuf : Bytes
  tcpIn : Bytes
  encIn : Bool
  recvKey : Bytes
  seqIn : ℕ
  connected : Bool
  haveCmd : Bool
  userClose : Bool

def World.inlet (w : World) : Inlet :=
  ⟨w.cs.rxBuf, w.tcpIn, w.cs.encIn, w.cs.recvKey, w.cs.seqIn, w.connected, w.job.haveCmd,
    w.job.userClose⟩

variable {P}

/-! What the loop does with a packet does not touch what it reads. -/

section
variable {w w₁ w' : World}

theorem Pumping.of_inlet (h : Pumping w) (hpc : w'.pc = .pump) (hi : w'.inlet = w.inlet) :
    Pumping w' :=
  ⟨hpc, (congrArg Inlet.haveCmd hi).trans h.interactive,
    (congrArg Inlet.connected hi).trans h.closed, (congrArg Inlet.userClose hi).trans h.wanted⟩

theorem ends_inlet (hi : w'.inlet = w.inlet) : w'.Ends P ↔ w.Ends P := by
  have hin : w'.inbound = w.inbound :=
    congrArg₂ (· ++ ·) (congrArg Inlet.rxBuf hi) (congrArg Inlet.tcpIn hi)
  unfold World.Ends
  rw [hin, show w'.cs.encIn = w.cs.encIn from congrArg Inlet.encIn hi,
    show w'.cs.recvKey = w.cs.recvKey from congrArg Inlet.recvKey hi,
    show w'.cs.seqIn = w.cs.seqIn from congrArg Inlet.seqIn hi]

theorem sendPacket_inlet (w : World) (payload : Bytes) :
    (sendPacket P w payload).inlet = w.inlet := by
  rw [sendPacket_eq]
  rfl

theorem pumpLoop_inlet (fuel : ℕ) (w : World) : (pumpLoop P fuel w).inlet = w.inlet := by
  induction fuel generalizing w with
  | zero => rfl
  | succ fuel ih =>
    unfold pumpLoop
    simp only
    split
    · rfl
    · rw [ih, sendPacket_inlet]
      rfl

theorem pumpInput_inlet (w : World) : (pumpInput P w).inlet = w.inlet := by
  unfold pumpInput
  split
  · exact pumpLoop_inlet _ w
  · rfl

/-- The loop goes on, for its user has not asked for the end. -/
theorem pumpTop_inlet (h : w.job.userClose = false) :
    (pumpTop P w).inlet = w.inlet ∧ (pumpTop P w).pc = .pump := by
  have hin := pumpInput_inlet (P := P) w
  have hclose : (pumpInput P w).job.userClose = false := (congrArg Inlet.userClose hin).trans h
  unfold pumpTop
  split
  · simp only [hclose, Bool.false_eq_true, if_false]
    exact ⟨hin, rfl⟩
  · exact ⟨rfl, rfl⟩

theorem replenish_inlet (w : World) (n : ℕ) : (replenish P w n).inlet = w.inlet := by
  by_cases hu : usedWindow w.cs n < localWindowMax / 2
  · rw [replenish_adjust P hu]
    exact sendPacket_inlet (w.modify fun cs ↦ { cs with localWindow := usedWindow cs n }) _
  · rw [replenish_none P hu]
    rfl

theorem outWrite_inlet (w : World) (data : Bytes) : (outWrite w data).inlet = w.inlet := by
  unfold outWrite
  split <;> rfl

theorem onGlobalRequest_inlet (w : World) (pkt : Bytes) :
    (onGlobalRequest P w pkt).inlet = w.inlet := by
  unfold onGlobalRequest
  split
  · rfl
  split
  · exact sendPacket_inlet w _
  · rfl

theorem onServerRequest_inlet (w : World) (pkt : Bytes) :
    (onServerRequest w pkt).inlet = w.inlet := by
  unfold onServerRequest
  split
  · rfl
  simp only
  split <;> rfl

theorem pumpSwitch_inlet (w : World) (t : UInt8) (pkt : Bytes) :
    (pumpSwitch P w t pkt).1.inlet = w.inlet ∧
      ((pumpSwitch P w t pkt).2 = true ↔ t = msgChannelClose ∨ t = msgDisconnect) := by
  have hstay {t : UInt8} (h : ¬(t = msgChannelClose ∨ t = msgDisconnect)) :
      false = true ↔ t = msgChannelClose ∨ t = msgDisconnect := by simp [h]
  unfold pumpSwitch
  split
  · rename_i ht
    subst ht
    refine ⟨?_, hstay (by decide)⟩
    unfold onData
    split
    · rfl
    · rw [replenish_inlet, outWrite_inlet]
  split
  · rename_i ht
    subst ht
    refine ⟨?_, hstay (by decide)⟩
    unfold onExtendedData
    split
    · rfl
    · exact outWrite_inlet w _
  split
  · rename_i ht
    subst ht
    exact ⟨rfl, hstay (by decide)⟩
  split
  · rename_i ht
    subst ht
    exact ⟨onServerRequest_inlet w pkt, hstay (by decide)⟩
  split
  · rename_i ht
    exact ⟨sendPacket_inlet w _, by simp [ht]⟩
  split
  · rename_i ht
    exact ⟨rfl, by simp [ht]⟩
  rename_i hclose hdisconnect
  have hnot : ¬(t = msgChannelClose ∨ t = msgDisconnect) := not_or.mpr ⟨hclose, hdisconnect⟩
  split
  · exact ⟨onGlobalRequest_inlet w pkt, hstay hnot⟩
  · exact ⟨rfl, hstay hnot⟩

/-- Nothing to read is no reason to end. -/
theorem onPump_idle (hi : w.job.haveCmd = false) (h : w.job.userClose = false) (pkt : Bytes) :
    (onPump P w 0 pkt).inlet = w.inlet ∧ (onPump P w 0 pkt).pc = .pump := by
  rw [onPump, if_pos rfl, if_pos (by rw [interactive, hi]; rfl)]
  exact pumpTop_inlet h

theorem onPump_last {t : UInt8} (ht : t = msgChannelClose ∨ t = msgDisconnect) (pkt : Bytes) :
    (onPump P w t.toNat pkt).pc = .finished := by
  have hpos : (0 : ℤ) < t.toNat := by rcases ht with rfl | rfl <;> decide
  rw [onPump, if_neg (by omega), if_neg (by omega), if_neg (by omega), Int.toNat_natCast,
    UInt8.ofNat_toNat]
  have hlast := (pumpSwitch_inlet (P := P) (w := w) t pkt).2.mpr ht
  split
  · rfl
  · rename_i he
    rw [he] at hlast
    cases hlast

theorem onPump_packet (hi : w.job.haveCmd = false) (h : w.job.userClose = false) {t : UInt8}
    (ht : ¬(t = msgChannelClose ∨ t = msgDisconnect)) (pkt : Bytes) :
    (onPump P w t.toNat pkt).inlet = w.inlet ∧ (onPump P w t.toNat pkt).pc = .pump := by
  by_cases hz : ((t.toNat : ℕ) : ℤ) = 0
  · rw [hz]
    exact onPump_idle hi h pkt
  rw [onPump, if_neg hz, if_neg (by omega), if_neg (by omega), Int.toNat_natCast,
    UInt8.ofNat_toNat]
  obtain ⟨hsame, hlast⟩ := pumpSwitch_inlet (P := P) (w := w) t pkt
  split
  · rename_i he
    rw [he] at hlast
    exact absurd (hlast.mp rfl) ht
  · rename_i w' he
    rw [he] at hsame
    have htop := pumpTop_inlet (P := P) ((congrArg Inlet.userClose hsame).trans h)
    exact ⟨htop.1.trans hsame, htop.2⟩

/-! What one event makes of the session. -/

theorem poll_pump (hp : w.pc = .pump) (expired : Bool) : poll P expired w =
    match recvRound P expired w with
    | (none, w') => w'
    | (some (t, pkt), w') => onPump P (w'.note (.received w'.pc t pkt)) t pkt := by
  rw [poll_recv (by simp [hp])]
  obtain ⟨hsame, -⟩ := recvRound_same (P := P) expired w
  generalize recvRound P expired w = r at hsame ⊢
  obtain ⟨_ | ⟨t, pkt⟩, w'⟩ := r
  · rfl
  · have hpc : w'.pc = .pump := hsame.trans hp
    simp only [resume, note_pc, hpc]

/-- Two bytes of the connection count as much as four of the buffer. -/
def World.rank (w : World) : ℕ := 2 * w.tcpIn.length + w.cs.rxBuf.length

theorem rank_inlet (hi : w'.inlet = w.inlet) : w'.rank = w.rank := by
  unfold World.rank
  rw [show w'.tcpIn = w.tcpIn from congrArg Inlet.tcpIn hi,
    show w'.cs.rxBuf = w.cs.rxBuf from congrArg Inlet.rxBuf hi]

/-- The session goes on, with as much left to end it. -/
structure Onward (P : Primitives) (w w' : World) : Prop where
  pumping : Pumping w'
  ends : w'.Ends P ↔ w.Ends P
  rank : w'.rank ≤ w.rank

theorem Onward.of_inlet (h : Onward P w w₁) (hpc : w'.pc = .pump) (hi : w'.inlet = w₁.inlet) :
    Onward P w w' := by
  refine ⟨h.pumping.of_inlet hpc hi, (ends_inlet hi).trans h.ends, ?_⟩
  exact (rank_inlet hi).trans_le h.rank

/-- A packet that does not end the loop leaves the end to what follows. -/
theorem onward_readOff (h : Pumping w) {t : UInt8} {body rest : Bytes}
    (hgot : w.parsed P = .got (t :: body) rest) (ht : ¬(t = msgChannelClose ∨ t = msgDisconnect)) :
    Onward P w (readOff w (t :: body) rest) ∧ (readOff w (t :: body) rest).rank < w.rank := by
  have hin := inbound_got hgot
  have hlen := (unframe_got P hgot).2.1
  have hrank : (readOff w (t :: body) rest).rank < w.rank := by
    change 2 * w.tcpIn.length + rest.length < 2 * w.tcpIn.length + w.cs.rxBuf.length
    omega
  refine ⟨⟨⟨h.pc, h.interactive, h.closed, h.wanted⟩, ⟨fun he ↦ .next hin he, fun he ↦ ?_⟩,
    hrank.le⟩, hrank⟩
  cases he with
  | short hs => rw [hin] at hs; cases hs
  | bad hb => rw [hin] at hb; cases hb
  | empty he => rw [hin] at he; cases he
  | last hl hlast =>
    rw [hin] at hl
    obtain ⟨hcons, -⟩ := Parsed.got.inj hl
    exact absurd ((List.cons.inj hcons).1 ▸ hlast) ht
  | next hn hrest =>
    rw [hin] at hn
    obtain ⟨-, rfl⟩ := Parsed.got.inj hn
    exact hrest

theorem onward_fillRx (h : Pumping w) : Onward P w (fillRx w).2 ∧
    (w.tcpIn ≠ [] → (fillRx w).2.rank < w.rank) := by
  have hin := fillRx_inbound w
  have hends : (fillRx w).2.Ends P ↔ w.Ends P := by
    unfold World.Ends
    rw [hin]
    rfl
  have hlen : (fillRx w).2.cs.rxBuf.length + (fillRx w).2.tcpIn.length =
      w.cs.rxBuf.length + w.tcpIn.length := by
    have := congrArg List.length hin
    simpa only [World.inbound, List.length_append] using this
  have htook : (fillRx w).2.tcpIn.length ≤ w.tcpIn.length := by
    change (w.tcpIn.drop _).length ≤ _
    rw [List.length_drop]
    omega
  refine ⟨⟨⟨h.pc, h.interactive, h.closed, h.wanted⟩, hends, ?_⟩, fun hne ↦ ?_⟩
  · unfold World.rank
    omega
  · have hless : (fillRx w).2.tcpIn.length < w.tcpIn.length := by
      change (w.tcpIn.drop _).length < _
      have hpos := List.length_pos_of_ne_nil hne
      rw [List.length_drop]
      omega
    unfold World.rank
    omega

/-- A round ends the session for a reason, or it goes on; with a reason left and
time to read it comes closer to it. -/
theorem poll_onward (h : Pumping w) (expired : Bool) :
    ((poll P expired w).pc = .finished ∧ w.Ends P) ∨
      Onward P w (poll P expired w) ∧
        (expired = false → w.Ends P → (poll P expired w).rank < w.rank) := by
  rw [poll_pump h.pc]
  cases hparse : w.parsed P with
  | bad =>
    rw [recvRound_bad hparse]
    exact .inl ⟨rfl, .bad (inbound_bad hparse)⟩
  | needMore =>
    rw [recvRound_wait hparse]
    cases expired with
    | true =>
      obtain ⟨hsame, hpc⟩ := onPump_idle (P := P) (w := w.note (.received w.pc 0 [])) h.interactive
        h.wanted []
      have hw : Onward P w w := ⟨h, .rfl, le_rfl⟩
      exact .inr ⟨hw.of_inlet hpc hsame, fun he ↦ by cases he⟩
    | false =>
      simp only [Bool.false_eq_true, if_false]
      obtain ⟨hfill, hless⟩ := onward_fillRx (P := P) h
      by_cases hnil : w.tcpIn = []
      · have hin : w.inbound = w.cs.rxBuf := by rw [World.inbound, hnil, List.append_nil]
        unfold World.parsed at hparse
        rw [← hin] at hparse
        by_cases hlen : w.cs.rxBuf.length < 4
        · rw [if_pos ⟨hnil, h.closed, hlen⟩]
          exact .inl ⟨rfl, .short hparse (hin ▸ hlen)⟩
        · rw [if_neg fun hc ↦ hlen hc.2.2]
          refine .inr ⟨hfill, fun _ he ↦ ?_⟩
          cases he with
          | short _ hs => exact absurd (hin ▸ hs) hlen
          | bad hb => rw [hparse] at hb; cases hb
          | empty he => rw [hparse] at he; cases he
          | last hl _ => rw [hparse] at hl; cases hl
          | next hn _ => rw [hparse] at hn; cases hn
      · rw [if_neg fun hc ↦ hnil hc.1]
        exact .inr ⟨hfill, fun _ _ ↦ hless hnil⟩
  | got out rest =>
    cases out with
    | nil =>
      rw [recvRound_empty hparse]
      exact .inl ⟨rfl, .empty (inbound_got hparse)⟩
    | cons t body =>
      rw [recvRound_packet hparse]
      by_cases hs : t = msgIgnore ∨ t = msgDebug
      · rw [if_pos hs]
        obtain ⟨how, hless⟩ := onward_readOff h hparse (by rcases hs with rfl | rfl <;> decide)
        exact .inr ⟨how, fun _ _ ↦ hless⟩
      rw [if_neg hs]
      by_cases ht : t = msgChannelClose ∨ t = msgDisconnect
      · exact .inl ⟨onPump_last ht _, .last (inbound_got hparse) ht⟩
      · obtain ⟨how, hless⟩ := onward_readOff h hparse ht
        obtain ⟨hsame, hpc⟩ := onPump_packet (P := P)
          (w := (readOff w (t :: body) rest).note (.received w.pc t.toNat (t :: body)))
          how.pumping.interactive how.pumping.wanted ht (t :: body)
        exact .inr ⟨how.of_inlet hpc hsame, fun _ _ ↦ (rank_inlet hsame).trans_lt hless⟩

theorem step_onward (h : Pumping w) {event : Event} (he : event.Left) :
    ((step P w event).pc = .finished ∧ w.Ends P) ∨
      Onward P w (step P w event) ∧
        (event = .poll false → w.Ends P → (step P w event).rank < w.rank) := by
  have hw : Onward P w w := ⟨h, .rfl, le_rfl⟩
  cases event with
  | tcpArrive data => exact he.elim
  | userClose => exact he.elim
  | tcpClose =>
    have hsame : (step P w .tcpClose).inlet = w.inlet := by
      unfold World.inlet
      rw [h.closed]
      rfl
    exact .inr ⟨hw.of_inlet h.pc hsame, fun hp ↦ by cases hp⟩
  | typed data => exact .inr ⟨hw.of_inlet h.pc rfl, fun hp ↦ by cases hp⟩
  | poll expired =>
    refine (poll_onward h expired).imp_right fun hon ↦ ⟨hon.1, fun hp ↦ hon.2 ?_⟩
    injection hp

/-- The session is over at some time if and only if the connection has left
something behind that ends it. -/
theorem stops_iff_ends (h : Pumping w) : Stops P w ↔ w.Ends P := by
  constructor
  · intro hstops
    by_contra hnot
    have hgo (n : ℕ) : Pumping (after (step P) w (fun _ ↦ .poll false) n) ∧
        ¬(after (step P) w (fun _ ↦ .poll false) n).Ends P := by
      refine after_induction (motive := fun w ↦ Pumping w ∧ ¬w.Ends P) ⟨h, hnot⟩ ?_ n
      intro n w hw
      have hleft : Event.Left (.poll false) := trivial
      obtain hend | ⟨hon, -⟩ := step_onward hw.1 hleft
      · exact absurd hend.2 hw.2
      · exact ⟨hon.pumping, mt hon.ends.mp hw.2⟩
    obtain ⟨n, hn⟩ := hstops (fun _ ↦ .poll false) (fun _ ↦ trivial) fun n ↦ ⟨n, le_rfl, rfl⟩
    exact absurd (hn.symm.trans (hgo n).1.pc) (by simp)
  · intro hends events hleft hfair
    have hstep (n : ℕ) (w : World) (hw : Pumping w ∧ w.Ends P) :
        (step P w (events n)).pc = .finished ∨
          (Pumping (step P w (events n)) ∧ (step P w (events n)).Ends P) ∧
            (step P w (events n)).rank ≤ w.rank ∧
              (events n = .poll false → (step P w (events n)).rank < w.rank) := by
      obtain hend | ⟨hon, hless⟩ := step_onward hw.1 (hleft n)
      · exact .inl hend.1
      · exact .inr ⟨⟨hon.pumping, hon.ends.mpr hw.2⟩, hon.rank, fun hp ↦ hless hp hw.2⟩
    exact @reaches _ _ (step P) w events (fun w ↦ Pumping w ∧ w.Ends P) (fun w ↦ w.pc = .finished)
      (· = .poll false) World.rank hstep hfair ⟨h, hends⟩

end

/-- A call of `recv_packet` classifies what it meets if and only if its rounds are
`Orderly`, and the loop of an interactive session stops after a close if and only if
the connection has left something behind that ends it. -/
theorem recv_packet_classifies_iff (w : World) (moments : List Moment) {v : World}
    (hv : Pumping v) :
    (Classified P w moments ↔ Orderly P w moments) ∧ (Stops P v ↔ v.Ends P) :=
  ⟨classified_iff_orderly w moments, stops_iff_ends hv⟩

/-- Part of a packet ends the loop if it is not even a length. -/
theorem ends_iff_short {w : World}
    (h : unframe P w.cs.encIn w.cs.recvKey w.cs.seqIn w.inbound = .needMore) :
    w.Ends P ↔ w.inbound.length < 4 := by
  refine ⟨fun he ↦ ?_, .short h⟩
  cases he with
  | short _ hshort => exact hshort
  | bad hb => cases h.symm.trans hb
  | empty he => cases h.symm.trans he
  | last hl _ => cases h.symm.trans hl
  | next hn _ => cases h.symm.trans hn

/-- A session with a shell that has read the first `n` bytes of a packet, before
or after the server closes the connection. -/
def left (n : ℕ) (closed : Bool) : World :=
  runFrom standIn (runSession sampleEnv sampleJob [])
    (.tcpArrive (serverBytes 8 8 [] ++ (packets true serverKey 8 [[msgIgnore]]).take n) ::
      .typed [] :: (List.replicate 12 (.poll false) ++ if closed then [.tcpClose] else []))

theorem left_pumping {n : ℕ} (h : n = 3 ∨ n = 4) : Pumping (left n true) := by
  have hw : ∀ n ∈ [3, 4], (left n true).pc = .pump ∧ (left n true).job.haveCmd = false ∧
      (left n true).connected = false ∧ (left n true).job.userClose = false := by
    decide +kernel
  obtain ⟨hpc, hcmd, hclosed, hwanted⟩ := hw n (by simpa using h)
  exact ⟨hpc, hcmd, hclosed, hwanted⟩

theorem recv_packet_classifies_iff_short :
    Classified standIn (left 3 false) [.close, .round] ∧ Stops standIn (left 3 true) := by
  have hiff := @recv_packet_classifies_iff standIn (left 3 false) [.close, .round] (left 3 true)
    (left_pumping (.inl rfl))
  have hread : (recvPacket standIn (left 3 false) [.close]).w.parsed standIn = .needMore := by
    decide +kernel
  have hlen : (recvPacket standIn (left 3 false) [.close]).w.cs.rxBuf.length < 4 := by
    decide +kernel
  refine ⟨hiff.1.mpr ?_, hiff.2.mpr ((ends_iff_short (by decide +kernel)).mpr (by decide +kernel))⟩
  intro p hp _ _
  -- Only one round is looked at, the one behind the close.
  obtain rfl : p = [.close] := by
    rcases p with _ | ⟨m, _ | ⟨m', p⟩⟩
    · simp at hp
    · simpa using hp
    · simp at hp
  exact ⟨fun _ _ hgot ↦ (by cases hread.symm.trans hgot), fun _ _ ↦ ⟨rfl, fun _ ↦ hlen⟩⟩

/-- The length of a packet and nothing more is left behind: `recv_packet` does not
report the close, and the session never ends. -/
theorem cut_packet_never_ends :
    ¬Classified standIn (left 4 false) [.close, .round] ∧ ¬Stops standIn (left 4 true) := by
  constructor
  · intro h
    have hlost := h.closed [.close] List.prefix_rfl rfl rfl (by decide +kernel) (by decide +kernel) rfl
    exact absurd hlost (by decide +kernel)
  · rw [stops_iff_ends (left_pumping (.inr rfl)), ends_iff_short (by decide +kernel)]
    decide +kernel

end Sshd.Client
