import Mathlib.Data.List.Induction
import Sshd.Server.Up

namespace Sshd.Server

open Lib.Octets Wire Crypto
open Relation (ReflTransGen)

variable (P : Primitives)

/-- What the end of the backend sends, with the channel closed behind it. -/
def farewell (w : World) : World :=
  (sendChannelClose P (sendChannelEof P (sendExitStatus P (dropBackend w) 0))).modify
    fun s ↦ { s with chanOpen := false }

/-- The transitions of a session with its channel traffic told apart; the
session is closed in one of them. -/
inductive Turn : World → World → Prop
  | steady {w w'} (h : Steady P w w') : Turn w w'
  | versionDone {w w'} (hp : w.s.phase = .version) (h : Steady P w w') :
      Turn w (w'.modify fun s ↦ { s with phase := .kexWaitKexinit })
  | bye {w w'} (hp : w.s.phase ≠ .closed) (h : Steady P w w') (code : UInt32) (msg : String) :
      Turn w (sendDisconnect P w' code msg)
  | packet {w w₁} {payload : Bytes} (hp : w.s.phase ≠ .closed ∧ w.s.phase ≠ .version)
      (hw : parsePacket P w = .got payload w₁) :
      Turn w (dispatchPacket P w₁ payload w₁.s.slot).1
  | drain {w} (hp : w.s.phase ≠ .closed) (hc : w.s.chanOpen = true) :
      Turn w (sessionOnBackendData P w)
  | farewell {w} (hp : w.s.phase ≠ .closed) (hc : w.s.chanOpen = true) :
      Turn w (sessionClose (farewell P w))
  | close {w} : Turn w (sessionClose w)

theorem farewell_moves (w : World) : ReflTransGen (Move P) w (farewell P w) := by
  have hq := ((sendExitStatus_quiet P (dropBackend w) 0).trans (sendChannelEof_quiet P _)).trans
    (sendChannelClose_quiet P _)
  refine ((ReflTransGen.single .dropBackend).tail (.quiet hq)).tail (.chanShut ?_)
  rw [hq.backendHandle]
  exact dropBackend_backendHandle w

/-- A turn is made of the moves of `Move`. -/
theorem Turn.moves {w w' : World} (h : Turn P w w') : ReflTransGen (Move P) w w' := by
  cases h with
  | steady h => exact .single (.quiet h.toQuiet)
  | versionDone hp h => exact .single (.versionDone hp h.toQuiet)
  | bye _ h code msg =>
    obtain ⟨w₁, hq, he⟩ := sendDisconnect_eq P _ code msg
    rw [he]
    exact .single (.hangUp (h.toQuiet.trans hq))
  | packet hp hw => exact .single (.packet hp hw)
  | drain => exact .single (.quiet (sessionOnBackendData_quiet P w))
  | farewell => exact (farewell_moves P w).trans (sessionClose_moves P _)
  | close => exact sessionClose_moves P w

theorem Outcome.env_eq {slot : ℤ} {w w' : World} {payload : Bytes}
    (h : Outcome P slot w payload w') : w'.env = w.env := by
  cases h with
  | quiet h => exact h.env
  | hangUp h => exact h.env
  | kexinit => rfl
  | exchange _ _ hash h h' => exact (h'.env.trans (adoptHash_env _ hash)).trans h.env
  | newkeys => rfl
  | success _ _ h => exact h.env
  | chanOpen => exact sendPacket_env P _ _
  | backend _ b _ h h' => exact h'.env.trans h.env
  | exec _ b _ _ h h' _ => exact h'.env.trans h.env
  | data => exact replenish_env P _ _
  | chanClose _ h => exact h.env.trans (dropBackend_env w)

theorem Move.env_eq {w w' : World} (h : Move P w w') : w'.env = w.env := by
  cases h with
  | quiet h => exact h.env
  | versionDone _ h => exact h.env
  | hangUp h => exact h.env
  | packet _ hw =>
    refine (dispatchPacket_outcome P _ _ _).env_eq.trans ?_
    obtain ⟨packet, rest, -, rfl⟩ := parsePacket_got P hw
    rfl
  | dropBackend => exact dropBackend_env w
  | chanShut => rfl
  | teardown => exact dropTcp_env w
  | freeSlot => exact freeSlot_env w

theorem Turn.env_eq {w w' : World} (h : Turn P w w') : w'.env = w.env := by
  have hmoves := h.moves P
  clear h
  induction hmoves with
  | refl => rfl
  | tail _ hm ih => exact hm.env_eq.trans ih

theorem sendOurKexinit_steady (w : World) : Steady P w (sendOurKexinit P w) := by
  have hr : Steady P w (buildKexinitPayload w).2 := .random w 16
  have hplain : Plain (buildKexinitPayload w).1 :=
    plain_of_head (buildKexinitPayload_head w) (by decide)
  unfold sendOurKexinit
  generalize buildKexinitPayload w = r at hr hplain ⊢
  have hm := hr.trans (.modify _ (fun s ↦ { s with ourKexInit := r.1 }) fun _ ↦ rfl)
  exact hm.trans (.send P _ hplain)

theorem consumeVersion_turn (w : World) (hp : w.s.phase = .version) :
    Turn P w (consumeVersion P w).1 := by
  have hn : w.s.phase ≠ .closed := by
    rw [hp]
    nofun
  unfold consumeVersion
  split
  · split
    · exact .bye hn (.refl w) _ _
    · exact .steady (.refl w)
  rename_i line rest _
  have hq : Steady P w (w.modify fun s ↦ { s with peerVersion := line, rxBuf := rest }) :=
    .modify w _ fun _ ↦ rfl
  simp only
  split
  · exact .bye hn hq _ _
  split
  · exact .bye hn hq _ _
  · exact .versionDone hp (hq.trans (sendOurKexinit_steady P _))

theorem receiveLoop_turns (fuel : ℕ) (w : World) :
    ReflTransGen (Turn P) w (receiveLoop P fuel w) := by
  induction fuel generalizing w with
  | zero => exact .refl
  | succ fuel ih =>
    unfold receiveLoop
    split
    · exact .refl
    rename_i hc
    split
    · rename_i hv
      have hm := consumeVersion_turn P w hv
      split
      · rename_i w₁ hw₁
        rw [hw₁] at hm
        exact .single hm
      · rename_i w₁ hw₁
        rw [hw₁] at hm
        exact .head hm (ih w₁)
    rename_i hv
    split
    · exact .refl
    · exact .single (.bye hc (.refl w) _ _)
    rename_i payload w₁ hw₁
    have hm : Turn P w (dispatchPacket P w₁ payload w₁.s.slot).1 := .packet ⟨hc, hv⟩ hw₁
    split
    · rename_i w₂ hw₂
      rw [hw₂] at hm
      split
      · rename_i hn
        exact .tail (.single hm) (.bye hn (.refl w₂) _ _)
      · exact .single hm
    · rename_i w₂ hw₂
      rw [hw₂] at hm
      exact .head hm (ih w₂)

theorem fillRxBuf_steady (fuel : ℕ) (w : World) : Steady P w (fillRxBuf fuel w) := by
  induction fuel generalizing w with
  | zero => exact .refl w
  | succ fuel ih =>
    unfold fillRxBuf
    simp only
    split
    · exact .refl w
    · refine .trans ?_ (ih _)
      exact .silent rfl rfl rfl rfl rfl (List.append_nil _).symm (by simp)

theorem sessionOnTcpData_turns (w : World) : ReflTransGen (Turn P) w (sessionOnTcpData P w) := by
  have hr := ReflTransGen.trans (.single (.steady (fillRxBuf_steady P w.tcpIn.length w)))
    (receiveLoop_turns P ((fillRxBuf w.tcpIn.length w).s.rxBuf.length + 1)
      (fillRxBuf w.tcpIn.length w))
  unfold sessionOnTcpData
  simp only
  split
  · exact hr.tail .close
  · exact hr

theorem sessionOnBackendClose_turns (w : World) (hp : w.s.phase ≠ .closed) :
    ReflTransGen (Turn P) w (sessionOnBackendClose P w) := by
  unfold sessionOnBackendClose
  split
  · exact .refl
  rename_i hc
  rw [Bool.not_eq_false] at hc
  have hq := sessionOnBackendData_quiet P w
  refine .tail (.single (.drain hp hc)) (.farewell ?_ ?_)
  · rw [hq.phase]
    exact hp
  · rw [hq.chanOpen]
    exact hc

variable (i : ℤ)

/-- An event between which and the one before it a closed session has no open
channel. -/
theorem step_turns (w : World) (hc : w.s.phase = .closed → w.s.chanOpen = false) (e : Event) :
    ReflTransGen (Turn P) w (step P i w e) := by
  have hopen : w.s.chanOpen = true → w.s.phase ≠ .closed := by
    intro ht hp
    cases (hc hp).symm.trans ht
  cases e with
  | tcpArrive data => exact .single (.steady (.queues w _ _))
  | tcpRecv =>
    change ReflTransGen (Turn P) w (onTcpRecv P i w)
    unfold onTcpRecv
    split
    · exact .refl
    split
    · exact .refl
    · exact sessionOnTcpData_turns P w
  | tcpDisconnect =>
    change ReflTransGen (Turn P) w (onTcpDisconnect i w)
    unfold onTcpDisconnect
    split
    · exact .refl
    · exact .single .close
  | backendArrive handle data => exact .single (.steady (.queues w _ _))
  | backendRecv =>
    change ReflTransGen (Turn P) w (onBackendRecvCb P i w)
    unfold onBackendRecvCb
    split
    · exact .refl
    · rename_i h
      rw [not_or, Bool.not_eq_false, Bool.not_eq_false] at h
      exact .single (.drain (hopen h.2) h.2)
  | backendDisconnect =>
    change ReflTransGen (Turn P) w (onBackendDisconnectCb P i w)
    unfold onBackendDisconnectCb
    split
    · exact .refl
    by_cases ht : w.s.chanOpen = true
    · exact sessionOnBackendClose_turns P w (hopen ht)
    · rw [sessionOnBackendClose, if_pos (Bool.not_eq_true _ ▸ ht)]
  | reset =>
    change ReflTransGen (Turn P) w (cmdSshdReset i w)
    unfold cmdSshdReset
    split
    · exact .refl
    · exact .single .close

theorem runFrom_snoc (w : World) (events : List Event) (e : Event) :
    runFrom P i w (events ++ [e]) = step P i (runFrom P i w events) e := by
  rw [runFrom, runFrom, List.foldl_append]
  rfl

theorem runFrom_turns (slot : ℕ) (env : Env) (tcp : ℕ) (events : List Event) :
    ReflTransGen (Turn P) (accepted slot env tcp) (runFrom P slot (accepted slot env tcp) events) := by
  induction events using List.reverseRecOn with
  | nil => exact .refl
  | append_singleton events e ih =>
    rw [runFrom_snoc]
    refine ih.trans (step_turns P slot _ (fun hp ↦ ?_) e)
    by_contra hc
    exact (run_up P slot env tcp events (Bool.not_eq_false _ ▸ hc)).1 hp

/-- An invariant of the fresh session that no turn breaks holds after every run. -/
theorem turn_induction (inv : World → Prop) (hstep : ∀ w w', inv w → Turn P w w' → inv w')
    (slot : ℕ) {env : Env} (tcp : ℕ) (hw : inv (accepted slot env tcp)) (events : List Event) :
    inv (runFrom P slot (accepted slot env tcp) events) :=
  Lib.Trace.run_invariant hstep (runFrom_turns P slot env tcp events) hw

end Sshd.Server
