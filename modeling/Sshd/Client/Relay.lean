import Sshd.Client.Escape
import Sshd.Client.FlowControl

namespace Sshd.Client

open Lib.Octets Wire Crypto Framing
open Server (standIn)

variable (P : Primitives)

/-! The relay of an interactive session beside its worker. The two meet in
`job.in` and `job.userClose`, so a turn of the one looks at these at most once. -/

/-- The worker's round up to `pump_input`, which the job has no input pipe for
and nothing to close for here. -/
def withoutPump (expired : Bool) (w : World) : World :=
  let w' := poll P expired { w with job := { w.job with hasIn := false, userClose := false } }
  { w' with
    typed := w.typed
    job := { w'.job with hasIn := w.job.hasIn, userClose := w.job.userClose } }

/-- One round of `pump_input` that finds keystrokes. -/
def pumpRound (w : World) : World :=
  let ib := w.typed.take 256
  sendPacket P ({ w with typed := w.typed.drop 256 }.note (.typed ib)) (channelData w.cs ib)

/-- Where the relay is in its loop: before `cliReadRaw`, before
`xStreamBufferSend`, or behind the loop. -/
inductive Place
  | reading
  | writing
  | left
  deriving DecidableEq

/-- The worker, with whether it is in `pump_input`, and the relay. `forwarded`
is all that the scanner has ever appended to `fwd`. -/
structure Relay where
  w : World
  pumping : Bool := false
  place : Place := .reading
  scanner : Scanner := {}
  fwd : Bytes := []
  forwarded : Bytes := []

/-- What can happen: bytes arrive, the server closes the connection, the worker
goes on; the relay reads something, finds the CLI gone, or writes. -/
inductive Turn
  | arrive (data : Bytes)
  | close
  | work (expired : Bool)
  | read (ib : Bytes)
  | gone
  | write

def work (expired : Bool) (r : Relay) : Relay :=
  if r.pumping then
    if r.w.job.hasIn ∧ r.w.typed ≠ [] then { r with w := pumpRound P r.w }
    else { r with w := pumpTop P r.w, pumping := false }
  else
    let w := withoutPump P expired r.w
    -- In the loop of `do_channel` it gets to the pump once `recv_packet` has returned.
    let pumping := w.pc = .pump ∧ (r.w.pc = .pump → (recvRound P expired r.w).1.isSome)
    { r with w := w, pumping := pumping }

/-- The end of a round of the relay. -/
def onward (r : Relay) : Relay :=
  { r with place := if r.w.job.userClose then .left else .reading }

/-- The relay leaves its loop at `job.done` too; what it does to a session that
is over makes no difference here. -/
def turn (r : Relay) : Turn → Relay
  | .arrive data => { r with w := step P r.w (.tcpArrive data) }
  | .close => { r with w := step P r.w .tcpClose }
  | .work expired => work P expired r
  | .gone => if r.place = .reading then { r with w := step P r.w .userClose } else r
  | .read ib =>
    if r.place = .reading ∧ ib ≠ [] then
      let (k, fwd) := scan r.scanner [] ib
      let w := if k.userClose then step P r.w .userClose else r.w
      let r := { r with w := w, scanner := k, fwd := fwd, forwarded := r.forwarded ++ fwd }
      if fwd = [] then onward r else { r with place := .writing }
    else r
  | .write =>
    if r.place = .writing then onward { r with w := step P r.w (.typed r.fwd), fwd := [] } else r

def relay (env : Env) (job : SshJob) (store : List Bytes) (turns : List Turn) : Relay :=
  turns.foldl (turn P) { w := runSession env job store }

/-- What is in the CHANNEL_DATA packets on record. -/
def channelBytes (obs : List Obs) : Bytes :=
  obs.flatMap fun o ↦ match o with
    | .sealed f => if f.payload.head? = some msgChannelData then f.payload.drop 9 else []
    | _ => []

/-- The session is not over. -/
def Relay.Running (r : Relay) : Prop := r.w.pc ≠ .finished

/-- Nothing that the scanner forwarded is lost. -/
def Relay.Kept (r : Relay) : Prop := channelBytes r.w.obs ++ r.w.typed ++ r.fwd = r.forwarded

/-- `job.in` takes all that the relay has to write. -/
def Relay.Roomy (r : Relay) : Prop := r.fwd.length ≤ 2048 - r.w.typed.length

instance (r : Relay) : Decidable r.Running := inferInstanceAs (Decidable (¬_))
instance (r : Relay) : Decidable r.Kept := inferInstanceAs (Decidable (_ = _))

variable {P}

/-! What the worker does beside `pump_input`. -/

section
variable {w w' : World}

theorem replenish_job (w : World) (n : ℕ) : (replenish P w n).job = w.job := by
  by_cases h : usedWindow w.cs n < localWindowMax / 2
  · rw [replenish_adjust P h, modify_job, sendPacket_job, modify_job]
  · rw [replenish_none P h, modify_job]

/-- The job's orders stay as they are. -/
theorem Outcome.given {t : ℤ} {pkt : Bytes} (h : Outcome P w t pkt w') :
    w'.job.given = w.job.given := by
  cases h with
  | quiet _ hq => exact hq.given
  | gaveUp ho => exact ho.given
  | ecdhInit => rw [goto_job, sendPacket_job]; rfl
  | verified => rw [keyed_job, sendPacket_job]; rfl
  | newkeys => rw [goto_job, sendPacket_job]; rfl
  | confirm _ _ hq => exact hq.given
  | adjust => rfl
  | @data _ _ d _ => rw [replenish_job, (outWrite_quiet P w d).given]

/-- `pump_input` does nothing without an input pipe or keystrokes in it. -/
theorem pumpInput_idle (h : ¬(w.job.hasIn = true ∧ w.typed ≠ [])) : pumpInput P w = w := by
  rw [pumpInput]
  split
  · rename_i hin
    have hnil : w.typed = [] := by
      by_contra hn
      exact h ⟨hin, hn⟩
    rw [pumpLoop, hnil, List.take_nil]
    exact if_pos rfl
  · rfl

theorem pumpTop_idle (h : ¬(w.job.hasIn = true ∧ w.typed ≠ [])) (hs : w.pc.stage = .channel) :
    Muted w (pumpTop P w) ∧ (pumpTop P w).typed = w.typed := by
  have hgoto : Quiet P w (w.goto .pump) := .goto hs.symm
  unfold pumpTop
  split
  · simp only [pumpInput_idle h]
    split
    · have heof := Quiet.plain P hs (channelEof_plain w.cs)
      have hclose := Quiet.plain P (heof.stage.trans hs)
        (channelClose_plain (sendPacket P w (channelEof w.cs)).cs)
      refine ⟨((finishChannel_over _).after (heof.trans hclose)).muted, ?_⟩
      change (sendPacket P (sendPacket P w (channelEof w.cs)) _).typed = w.typed
      rw [sendPacket_typed, sendPacket_typed]
    · exact ⟨hgoto.muted, rfl⟩
  · exact ⟨hgoto.muted, rfl⟩

theorem resume_muted (hin : w.job.hasIn = false) (hp : w.pc ≠ .version ∧ w.pc ≠ .finished) {t : ℤ}
    (ht : Returned t) (pkt : Bytes) : Muted w (resume P w t pkt) := by
  obtain ho | ⟨w₁, ho, hs, heq⟩ := resume_resumes P w hp ht pkt
  · exact ho.muted
  · have hin₁ : w₁.job.hasIn = false := (congrArg Given.hasIn ho.given).trans hin
    rw [heq]
    exact ho.muted.trans (pumpTop_idle (by simp [hin₁]) hs).1

theorem fillRx_muted (w : World) : Muted w (fillRx w).2 :=
  ⟨_, rfl, by simp [Obs.Mute]⟩

theorem recvRound_muted (expired : Bool) (w : World) :
    Muted w (recvRound P expired w).2 ∧ (recvRound P expired w).2.job.given = w.job.given := by
  unfold recvRound
  split
  · rename_i hr
    obtain ⟨hq, -⟩ := tryParse_got P hr
    exact ⟨hq.muted, hq.given⟩
  · rename_i hr
    obtain ⟨hq, -⟩ := tryParse_got P hr
    split <;> exact ⟨hq.muted, hq.given⟩
  · exact ⟨Adds.same rfl, rfl⟩
  · split
    · exact ⟨Adds.same rfl, rfl⟩
    · simp only
      split <;> exact ⟨fillRx_muted w, rfl⟩

theorem versionRound_muted (expired : Bool) (w : World) : Muted w (versionRound P expired w) := by
  unfold versionRound
  split
  · rename_i line rest _
    have hline : Muted w (w.modify fun cs ↦ { cs with rxBuf := rest }) := Adds.same rfl
    simp only
    split
    · split
      · exact hline.trans (giveUp_over (P := P) _ _).muted
      · have hpeer : Muted w (w.modify fun cs ↦ { cs with rxBuf := rest, peerVersion := line }) :=
          Adds.same rfl
        exact hpeer.trans (proposed_muted _ (randomBytes w 16).1)
    · exact hline
  · split
    · exact (giveUp_over (P := P) _ _).muted
    · simp only
      split
      · exact (fillRx_muted w).trans (giveUp_over (P := P) _ _).muted
      · exact fillRx_muted w

theorem poll_muted (hin : w.job.hasIn = false) (expired : Bool) : Muted w (poll P expired w) := by
  unfold poll
  split
  · exact Adds.same rfl
  · exact versionRound_muted expired w
  · rename_i hfin hver
    obtain ⟨hmute, hgiven⟩ := recvRound_muted (P := P) expired w
    obtain ⟨-, hpc, hret⟩ := recvRound_moves P expired ⟨hver, hfin⟩
    split
    · rename_i w₁ he
      rw [he] at hmute
      exact hmute
    · rename_i t pkt w₁ he
      rw [he] at hmute hgiven hpc hret
      have hin₁ : w₁.job.hasIn = false := (congrArg Given.hasIn hgiven).trans hin
      have hnote : Muted w₁ (w₁.note (.received w₁.pc t pkt)) := Adds.note w₁ (by trivial)
      have hp : w₁.pc ≠ .version ∧ w₁.pc ≠ .finished := by
        rw [hpc]
        exact ⟨hver, hfin⟩
      exact (hmute.trans hnote).trans
        (resume_muted (w := w₁.note (.received w₁.pc t pkt)) hin₁ hp (hret t pkt rfl).1 pkt)

theorem withoutPump_muted (expired : Bool) (w : World) : Muted w (withoutPump P expired w) := by
  have hpoll : ∀ w₁ : World, w₁.job.hasIn = false → Muted w₁ (poll P expired w₁) :=
    fun _ hin ↦ poll_muted hin expired
  obtain ⟨os, hobs, hos⟩ :=
    hpoll { w with job := { w.job with hasIn := false, userClose := false } } rfl
  exact ⟨os, hobs, hos⟩

/-! Where the keystrokes are. -/

theorem channelBytes_append (obs os : List Obs) :
    channelBytes (obs ++ os) = channelBytes obs ++ channelBytes os := List.flatMap_append

theorem channelBytes_mute {os : List Obs} (h : ∀ o ∈ os, o.Mute) : channelBytes os = [] := by
  rw [channelBytes, List.flatMap_eq_nil_iff]
  intro o ho
  have hmute := h o ho
  cases o with
  | sealed f => exact if_neg hmute
  | _ => rfl

theorem Muted.channelBytes (h : Muted w w') : channelBytes w'.obs = channelBytes w.obs := by
  obtain ⟨os, hobs, hos⟩ := h
  rw [hobs, channelBytes_append, channelBytes_mute hos, List.append_nil]

theorem pumpRound_channelBytes (w : World) :
    channelBytes (pumpRound P w).obs ++ (pumpRound P w).typed = channelBytes w.obs ++ w.typed := by
  have hobs : channelBytes (pumpRound P w).obs = channelBytes w.obs ++ w.typed.take 256 := by
    obtain ⟨rest, hsend, hrest⟩ := sendObs_eq P
      ({ w with typed := w.typed.drop 256 }.note (.typed (w.typed.take 256)))
      (channelData w.cs (w.typed.take 256))
    obtain ⟨hhead, hdrop⟩ := channelData_carries w.cs (w.typed.take 256)
    have hnone : channelBytes rest = [] := channelBytes_mute fun o ho ↦ by
      obtain ⟨_, _, rfl⟩ := hrest o ho
      trivial
    rw [pumpRound, sendPacket_obs, hsend, channelBytes_append, channelBytes_append,
      channelBytes_append, hnone, note_obs, channelBytes_append]
    simp [channelBytes, sendFrame, hhead, hdrop]
  rw [hobs, List.append_assoc, pumpRound, sendPacket_typed, note_typed, List.take_append_drop]

end

/-! The turns. -/

/-- The worker is in `pump_input` only in the loop of `do_channel`, and the relay
has something in `fwd` only between its read and its write. -/
structure Relay.Placed (r : Relay) : Prop where
  pump : r.pumping = true → r.w.pc = .pump
  idle : r.place ≠ .writing → r.fwd = []

section
variable {r : Relay}

theorem Relay.Placed.turn (h : r.Placed) (t : Turn) : (turn P r t).Placed := by
  cases t with
  | arrive data => exact ⟨h.pump, h.idle⟩
  | close => exact ⟨h.pump, h.idle⟩
  | work expired =>
    rw [Client.turn, work]
    split
    · rename_i hp
      split
      · refine ⟨fun _ ↦ ?_, h.idle⟩
        change (sendPacket P _ _).pc = .pump
        rw [sendPacket_pc]
        exact h.pump hp
      · exact ⟨fun hp ↦ absurd hp Bool.false_ne_true, h.idle⟩
    · exact ⟨fun hp ↦ (of_decide_eq_true hp).1, h.idle⟩
  | gone =>
    rw [Client.turn]
    split <;> exact ⟨h.pump, h.idle⟩
  | read ib =>
    rw [Client.turn]
    split
    · generalize scan r.scanner [] ib = read
      obtain ⟨k, fwd⟩ := read
      have hpump : r.pumping = true →
          (if k.userClose then step P r.w .userClose else r.w).pc = .pump := by
        intro hp
        split <;> exact h.pump hp
      dsimp only
      split
      · rename_i hnil
        exact ⟨hpump, fun _ ↦ hnil⟩
      · exact ⟨hpump, fun hne ↦ absurd rfl hne⟩
    · exact h
  | write =>
    rw [Client.turn]
    split
    · exact ⟨h.pump, fun _ ↦ rfl⟩
    · exact h

theorem Relay.Placed.over (h : r.Placed) (hover : ¬r.Running) (t : Turn) :
    ¬(Client.turn P r t).Running := by
  have hpc : r.w.pc = .finished := not_not.mp hover
  refine not_not.mpr ?_
  cases t with
  | arrive data => exact hpc
  | close => exact hpc
  | work expired =>
    have hp : ¬r.pumping = true := fun hp ↦ by simp [h.pump hp] at hpc
    rw [Client.turn, work, if_neg hp]
    simp only [withoutPump, poll, hpc]
  | gone =>
    rw [Client.turn]
    split <;> exact hpc
  | read ib =>
    rw [Client.turn]
    split
    · generalize scan r.scanner [] ib = read
      obtain ⟨k, fwd⟩ := read
      dsimp only
      split <;> (simp only [onward]; split <;> exact hpc)
    · exact hpc
  | write =>
    rw [Client.turn]
    split <;> exact hpc

/-- Nothing is lost in a turn, if it is not a write without room. -/
theorem Relay.Kept.turn (h : r.Placed) (hk : r.Kept) (t : Turn) (hroom : t = .write → r.Roomy) :
    (Client.turn P r t).Kept := by
  unfold Relay.Kept at hk
  cases t with
  | arrive data => exact hk
  | close => exact hk
  | work expired =>
    rw [Client.turn, work]
    split
    · rename_i hp
      split
      · change channelBytes (pumpRound P r.w).obs ++ (pumpRound P r.w).typed ++ r.fwd = r.forwarded
        rw [pumpRound_channelBytes]
        exact hk
      · rename_i hidle
        obtain ⟨hmute, htyped⟩ := pumpTop_idle (P := P) hidle (by rw [h.pump hp]; rfl)
        change channelBytes (pumpTop P r.w).obs ++ (pumpTop P r.w).typed ++ r.fwd = r.forwarded
        rw [hmute.channelBytes, htyped]
        exact hk
    · change channelBytes (withoutPump P expired r.w).obs ++ r.w.typed ++ r.fwd = r.forwarded
      rw [(withoutPump_muted expired r.w).channelBytes]
      exact hk
  | gone =>
    rw [Client.turn]
    split <;> exact hk
  | read ib =>
    rw [Client.turn]
    split
    · rename_i hread
      have hnil : r.fwd = [] := h.idle (by rw [hread.1]; decide)
      rw [hnil, List.append_nil] at hk
      generalize scan r.scanner [] ib = read
      obtain ⟨k, fwd⟩ := read
      have hkept : ∀ w' : World, w'.obs = r.w.obs → w'.typed = r.w.typed →
          channelBytes w'.obs ++ w'.typed ++ fwd = r.forwarded ++ fwd := by
        intro w' hobs htyped
        rw [hobs, htyped, hk]
      dsimp only
      split
      · split <;> exact hkept _ rfl rfl
      · split <;> exact hkept _ rfl rfl
    · exact hk
  | write =>
    rw [Client.turn]
    split
    · change channelBytes r.w.obs ++ (r.w.typed ++ r.fwd.take (2048 - r.w.typed.length)) ++ [] =
        r.forwarded
      rw [List.take_of_length_le (hroom rfl), List.append_nil, ← List.append_assoc]
      exact hk
    · exact hk

theorem turn_write_pc (r : Relay) : (Client.turn P r .write).w.pc = r.w.pc := by
  rw [Client.turn]
  split <;> rfl

/-- A write without room loses something. -/
theorem Relay.Roomy.of_kept (h : r.Placed) (hk : r.Kept) (hk' : (Client.turn P r .write).Kept) :
    r.Roomy := by
  by_cases hp : r.place = .writing
  · rw [Client.turn, if_pos hp] at hk'
    change channelBytes r.w.obs ++ (r.w.typed ++ r.fwd.take (2048 - r.w.typed.length)) ++ [] =
      r.forwarded at hk'
    rw [List.append_nil, ← hk, List.append_assoc, List.append_cancel_left_eq,
      List.append_cancel_left_eq] at hk'
    exact List.take_eq_self_iff _ |>.mp hk'
  · rw [Relay.Roomy, h.idle hp]
    exact Nat.zero_le _

end

section
variable (env : Env) (job : SshJob) (store : List Bytes)

theorem relay_snoc (turns : List Turn) (t : Turn) :
    relay P env job store (turns ++ [t]) = turn P (relay P env job store turns) t := by
  rw [relay, List.foldl_append]
  rfl

theorem relay_placed (turns : List Turn) : (relay P env job store turns).Placed := by
  induction turns using List.reverseRecOn with
  | nil => exact ⟨fun h ↦ absurd h Bool.false_ne_true, fun _ ↦ rfl⟩
  | append_singleton turns t ih =>
    rw [relay_snoc]
    exact ih.turn t

theorem relay_kept_nil : (relay P env job store []).Kept := by
  have htyped : (runSession env job store).typed = [] := by
    rw [runSession]
    split
    · rfl
    · simp only [sendRaw, goto_typed]
      split <;> rfl
  change channelBytes (runSession env job store).obs ++ (runSession env job store).typed ++ [] = []
  rw [channelBytes_mute (runSession_muted env job store), htyped]
  rfl

/-- Whatever the relay forwards is in CHANNEL_DATA packets, in `job.in` or still
to be written, exactly as long as `job.in` has room for every write of the relay. -/
theorem keystrokes_kept_iff (turns : List Turn) :
    (∀ p, p <+: turns → (relay P env job store p).Running → (relay P env job store p).Kept) ↔
      ∀ p, p ++ [.write] <+: turns → (relay P env job store p).Running →
        (relay P env job store p).Roomy := by
  constructor
  · intro h p hp hrun
    have hbefore := h p ((List.prefix_append _ _).trans hp) hrun
    have hafter := h _ hp
    rw [relay_snoc] at hafter
    refine .of_kept (relay_placed env job store p) hbefore (hafter ?_)
    rw [Relay.Running, turn_write_pc]
    exact hrun
  · intro h p
    induction p using List.reverseRecOn with
    | nil => exact fun _ _ ↦ relay_kept_nil env job store
    | append_singleton p t ih =>
      intro hp hrun
      have hplaced := relay_placed (P := P) env job store p
      rw [relay_snoc] at hrun ⊢
      have hrun' : (relay P env job store p).Running := by
        by_contra hover
        exact hplaced.over hover t hrun
      refine .turn hplaced (ih ((List.prefix_append _ _).trans hp) hrun') t ?_
      rintro rfl
      exact h p hp hrun'

end

/-- 2176 characters, 128 in a read, while the worker has no turn. -/
def paste : List Turn := (List.replicate 17 [.read (List.replicate 128 97), .write]).flatten

/-- The session is in its pump, and the last 128 characters are gone. -/
theorem paste_cut :
    let r := relay standIn sampleEnv sampleJob []
      (.arrive (serverBytes 0x100000 32768 []) :: List.replicate 11 (.work false) ++ paste)
    r.Running ∧ ¬r.Kept := by
  decide +kernel

end Sshd.Client
