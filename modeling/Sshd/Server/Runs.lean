import Sshd.Lib.Trace
import Sshd.Server.DispatchOutcome

namespace Sshd.Server

open Lib.Octets Lib.Trace Wire Crypto
open Relation (ReflTransGen)

variable (P : Primitives)

/-- The transitions that every event of a session is made of. -/
inductive Move : World → World → Prop
  | quiet {w w'} (h : Quiet P w w') : Move w w'
  | versionDone {w w'} (hp : w.s.phase = .version) (h : Quiet P w w') :
      Move w (w'.modify fun s ↦ { s with phase := .kexWaitKexinit })
  | hangUp {w w'} (h : Quiet P w w') : Move w (hangUp w')
  | packet {w w₁} {payload : Bytes} (hp : w.s.phase ≠ .closed ∧ w.s.phase ≠ .version)
      (hw : parsePacket P w = .got payload w₁) :
      Move w (dispatchPacket P w₁ payload w₁.s.slot).1
  | dropBackend {w} : Move w (dropBackend w)
  | chanShut {w} (hb : w.s.backendHandle < 0) :
      Move w (w.modify fun s ↦ { s with chanOpen := false })
  | teardown {w} (hb : w.s.backendHandle < 0) : Move w (shut (dropTcp w))
  | freeSlot {w} (hp : w.s.phase = .closed) (hc : w.s.chanOpen = false)
      (hb : w.s.backendHandle < 0) : Move w (freeSlot w)

/-- The transitions of the receive loop. -/
inductive Round : World → World → Prop
  | quiet {w w'} (h : Quiet P w w') : Round w w'
  | versionDone {w w'} (hp : w.s.phase = .version) (h : Quiet P w w') :
      Round w (w'.modify fun s ↦ { s with phase := .kexWaitKexinit })
  | hangUp {w w'} (h : Quiet P w w') : Round w (hangUp w')
  | packet {w w₁} {payload : Bytes} (hp : w.s.phase ≠ .closed ∧ w.s.phase ≠ .version)
      (hw : parsePacket P w = .got payload w₁) :
      Round w (dispatchPacket P w₁ payload w₁.s.slot).1

theorem Round.move {w w' : World} (h : Round P w w') : Move P w w' := by
  cases h with
  | quiet hq => exact .quiet hq
  | versionDone hp hq => exact .versionDone hp hq
  | hangUp hq => exact .hangUp hq
  | packet hp hw => exact .packet hp hw

/-! What the composite transitions do, field by field. -/

theorem parsePacket_got {w w₁ : World} {payload : Bytes} (h : parsePacket P w = .got payload w₁) :
    ∃ packet rest,
      Framing.unframe P w.s.encInbound w.s.c2sKey w.s.seqIn w.s.rxBuf = .got payload rest ∧
      w₁ = (w.note (.opened w.s.encInbound w.s.c2sKey w.s.seqIn packet payload)).modify
        fun s ↦ { s with rxBuf := rest, seqIn := s.seqIn + 1 } := by
  unfold parsePacket at h
  split at h
  · cases h
  · cases h
  · rename_i rest hu
    cases h
    exact ⟨_, rest, hu, rfl⟩

theorem adoptHash_s (w : World) (hash : Bytes) :
    (adoptHash w hash).s =
      { w.s with
        sessionId := if w.s.haveSessionId then w.s.sessionId else hash
        haveSessionId := true } := by
  cases hh : w.s.haveSessionId
  · simp [adoptHash, hh]
  · simp only [adoptHash, note_s, hh, if_true]
    rw [← hh]

@[simp] theorem adoptHash_env (w : World) (hash : Bytes) : (adoptHash w hash).env = w.env := by
  cases hh : w.s.haveSessionId <;> simp [adoptHash, hh]

@[simp] theorem adoptHash_slotInUse (w : World) (hash : Bytes) :
    (adoptHash w hash).slotInUse = w.slotInUse := by
  cases hh : w.s.haveSessionId <;> simp [adoptHash, hh]

@[simp] theorem adoptHash_obs (w : World) (hash : Bytes) :
    (adoptHash w hash).obs = w.obs ++ [.exchangeHash hash] := by
  cases hh : w.s.haveSessionId <;> simp [adoptHash, hh]

/-- What dropping the backend adds to the record. -/
def dropObs (s : Session) : List Obs :=
  if 0 ≤ s.backendHandle then [.itsDisconnect .backend s.backendHandle] else []

theorem dropBackend_s (w : World) :
    (dropBackend w).s =
      { w.s with backendHandle := if 0 ≤ w.s.backendHandle then -1 else w.s.backendHandle } := by
  unfold dropBackend
  split <;> rfl

@[simp] theorem dropBackend_env (w : World) : (dropBackend w).env = w.env := by
  unfold dropBackend
  split <;> rfl

@[simp] theorem dropBackend_slotInUse (w : World) :
    (dropBackend w).slotInUse = w.slotInUse := by
  unfold dropBackend
  split <;> rfl

theorem dropBackend_obs (w : World) : (dropBackend w).obs = w.obs ++ dropObs w.s := by
  unfold dropBackend dropObs
  split
  · rfl
  · rw [List.append_nil]

theorem dropBackend_backendHandle (w : World) : (dropBackend w).s.backendHandle < 0 := by
  rw [dropBackend_s]
  split
  · exact Int.negSucc_lt_zero 0
  · rename_i h
    exact not_le.mp h

theorem dropTcp_s (w : World) :
    (dropTcp w).s = { w.s with tcp := if 0 ≤ w.s.tcp then -1 else w.s.tcp } := by
  unfold dropTcp
  split <;> rfl

@[simp] theorem dropTcp_env (w : World) : (dropTcp w).env = w.env := by
  unfold dropTcp
  split <;> rfl

@[simp] theorem dropTcp_slotInUse (w : World) : (dropTcp w).slotInUse = w.slotInUse := by
  unfold dropTcp
  split <;> rfl

theorem dropTcp_obs (w : World) :
    (dropTcp w).obs = w.obs ++
      if 0 ≤ w.s.tcp then [.itsSendDrain w.s.tcp, .itsDisconnect .tcp w.s.tcp] else [] := by
  unfold dropTcp
  split
  · simp [itsSendDrain, itsDisconnect]
  · rw [List.append_nil]

theorem freeSlot_s (w : World) :
    (freeSlot w).s = { w.s with slot := if 0 ≤ w.s.slot then -1 else w.s.slot } := by
  unfold freeSlot sshdSlotFree
  split
  · split <;> rfl
  · rfl

@[simp] theorem freeSlot_env (w : World) : (freeSlot w).env = w.env := by
  unfold freeSlot sshdSlotFree
  split
  · split <;> rfl
  · rfl

@[simp] theorem freeSlot_obs (w : World) : (freeSlot w).obs = w.obs := by
  unfold freeSlot sshdSlotFree
  split
  · split <;> rfl
  · rfl

theorem mem_sendObs {w : World} {payload : Bytes} {o : Obs} (h : o ∈ sendObs P w payload) :
    (∃ bytes, o = .random bytes) ∨ (∃ f, o = .sealed f ∧ f.payload = payload) ∨
      ∃ handle data took, o = .itsSend .tcp handle data took := by
  unfold sendObs at h
  split at h
  · cases h
  · simp only [List.mem_cons, List.not_mem_nil, or_false] at h
    obtain rfl | rfl | rfl := h
    · exact .inl ⟨_, rfl⟩
    · exact .inr (.inl ⟨_, rfl, rfl⟩)
    · exact .inr (.inr ⟨_, _, _, rfl⟩)

/-- The window after the backend took `written` bytes, before it is given back. -/
def usedWindow (s : Session) (written : ℕ) : UInt32 :=
  if 0 < written then s.localWindow - UInt32.ofNat written else s.localWindow

/-- What is given back then. -/
def adjustment (s : Session) (written : ℕ) : UInt32 :=
  if 0 < written ∧ usedWindow s written < localWindowMax / 2 then
    localWindowMax - usedWindow s written
  else 0

theorem replenish_none {w : World} {written : ℕ}
    (h : ¬(0 < written ∧ usedWindow w.s written < localWindowMax / 2)) :
    replenish P w written = w.modify fun s ↦ { s with localWindow := usedWindow s written } := by
  unfold replenish
  by_cases hw : 0 < written
  · have hu : ¬w.s.localWindow - UInt32.ofNat written < localWindowMax / 2 := by
      simpa [usedWindow, hw] using h
    simp [hw, hu, usedWindow]
  · simp only [hw, if_false, usedWindow]
    rfl

theorem replenish_adjust {w : World} {written : ℕ}
    (h : 0 < written ∧ usedWindow w.s written < localWindowMax / 2) :
    replenish P w written =
      sendChannelWindowAdjust P
        (w.modify fun s ↦ { s with localWindow := usedWindow s written + adjustment s written })
        (adjustment w.s written) := by
  obtain ⟨hw, hu⟩ := h
  have hu' : w.s.localWindow - UInt32.ofNat written < localWindowMax / 2 := by
    simpa [usedWindow, hw] using hu
  unfold replenish
  simp [hw, hu', usedWindow, adjustment, World.modify]

theorem replenish_control (w : World) (written : ℕ) :
    (replenish P w written).s.control =
      { w.s.control with localWindow := usedWindow w.s written + adjustment w.s written } := by
  by_cases h : 0 < written ∧ usedWindow w.s written < localWindowMax / 2
  · rw [replenish_adjust P h, sendChannelWindowAdjust, sendPacket_s]
    rfl
  · rw [replenish_none P h, adjustment, if_neg h, UInt32.add_zero]
    rfl

@[simp] theorem replenish_env (w : World) (written : ℕ) : (replenish P w written).env = w.env := by
  by_cases h : 0 < written ∧ usedWindow w.s written < localWindowMax / 2
  · rw [replenish_adjust P h, sendChannelWindowAdjust, sendPacket_env, modify_env]
  · rw [replenish_none P h, modify_env]

@[simp] theorem replenish_slotInUse (w : World) (written : ℕ) :
    (replenish P w written).slotInUse = w.slotInUse := by
  by_cases h : 0 < written ∧ usedWindow w.s written < localWindowMax / 2
  · rw [replenish_adjust P h, sendChannelWindowAdjust, sendPacket_slotInUse, modify_slotInUse]
  · rw [replenish_none P h, modify_slotInUse]

theorem replenish_obs (w : World) (written : ℕ) :
    ∃ os, (replenish P w written).obs = w.obs ++ os ∧
      ∀ o ∈ os, (∃ bytes, o = .random bytes) ∨
        (∃ f, o = .sealed f ∧ f.payload = channelWindowAdjust w.s (adjustment w.s written)) ∨
          ∃ handle data took, o = .itsSend .tcp handle data took := by
  by_cases h : 0 < written ∧ usedWindow w.s written < localWindowMax / 2
  · rw [replenish_adjust P h, sendChannelWindowAdjust, sendPacket_obs]
    exact ⟨_, rfl, fun o ho ↦ mem_sendObs P ho⟩
  · rw [replenish_none P h]
    exact ⟨[], by simp, by simp⟩

/-! The record only grows. -/

theorem Tame.obs_grows {w w' : World} (h : Tame w w') : w.obs <+: w'.obs := by
  obtain ⟨os, hobs, -⟩ := h.obs
  exact ⟨os, hobs.symm⟩

theorem Outcome.obs_grows {w w' : World} {payload : Bytes} {slot : ℤ}
    (h : Outcome P slot w payload w') :
    w.obs <+: w'.obs := by
  cases h with
  | quiet hq => exact hq.obs_grows
  | hangUp hq => exact hq.obs_grows.trans (List.prefix_append _ _)
  | kexinit => exact List.prefix_rfl
  | @exchange w₁ w₂ _ _ hash hq hq' =>
    have hadopt : w₁.obs <+: (adoptHash w₁ hash).obs := ⟨_, (adoptHash_obs w₁ hash).symm⟩
    exact ((hq.obs_grows.trans hadopt).trans hq'.obs_grows).trans (List.prefix_append _ _)
  | newkeys => exact List.prefix_rfl
  | success _ _ hq => exact hq.obs_grows
  | chanOpen _ _ peerCh peerWin peerMax =>
    exact ⟨_, (sendPacket_obs P (openChannel w peerCh peerWin peerMax) _).symm⟩
  | @backend w₁ _ _ b _ hq hq' =>
    have hconnect : w₁.obs <+: (connectBackend w₁ b slot).obs := List.prefix_append _ _
    exact (hq.obs_grows.trans hconnect).trans hq'.obs_grows
  | @exec w₁ _ _ b _ _ hq hq' _ =>
    have hconnect : w₁.obs <+: (connectBackend w₁ b slot).obs := List.prefix_append _ _
    exact ((hq.obs_grows.trans hconnect).trans hq'.obs_grows).trans (List.prefix_append _ _)
  | data _ d _ _ =>
    obtain ⟨os, hobs, -⟩ := replenish_obs P (itsSend w .backend w.s.backendHandle d).2
      (itsSend w .backend w.s.backendHandle d).1
    exact (List.prefix_append _ _).trans ⟨os, hobs.symm⟩
  | chanClose _ hq =>
    have hdrop : w.obs <+: (dropBackend w).obs := ⟨_, (dropBackend_obs w).symm⟩
    exact hdrop.trans hq.obs_grows

theorem Move.obs_grows {w w' : World} (h : Move P w w') : w.obs <+: w'.obs := by
  cases h with
  | quiet hq => exact hq.obs_grows
  | versionDone _ hq => exact hq.obs_grows
  | hangUp hq => exact hq.obs_grows.trans (List.prefix_append _ _)
  | @packet w₁ payload _ hw =>
    have ho := (dispatchPacket_outcome P w₁ payload w₁.s.slot).obs_grows
    have hopened : w.obs <+: w₁.obs := by
      obtain ⟨packet, rest, -, rfl⟩ := parsePacket_got P hw
      exact List.prefix_append _ _
    exact (hopened.trans (List.prefix_append _ _)).trans ho
  | dropBackend => exact ⟨_, (dropBackend_obs w).symm⟩
  | chanShut => exact List.prefix_rfl
  | teardown => exact ⟨_, (dropTcp_obs w).symm⟩
  | freeSlot => exact (freeSlot_obs w).symm ▸ List.prefix_rfl

theorem sessionClose_eq {w : World} (h : ¬(w.s.phase = .closed ∧ w.s.slot < 0)) :
    sessionClose w = freeSlot (shut (dropTcp (dropBackend w))) := by
  rw [sessionClose, if_neg h]
  rfl

theorem sessionClose_moves (w : World) : ReflTransGen (Move P) w (sessionClose w) := by
  by_cases h : w.s.phase = .closed ∧ w.s.slot < 0
  · rw [sessionClose, if_pos h]
  rw [sessionClose_eq h]
  have hdrop : Move P w (dropBackend w) := .dropBackend
  have hdown : Move P (dropBackend w) (shut (dropTcp (dropBackend w))) :=
    .teardown (dropBackend_backendHandle w)
  have hb : (shut (dropTcp (dropBackend w))).s.backendHandle < 0 := by
    change (dropTcp (dropBackend w)).s.backendHandle < 0
    rw [dropTcp_s]
    exact dropBackend_backendHandle w
  exact ((ReflTransGen.single hdrop).tail hdown).tail (.freeSlot rfl rfl hb)

theorem sendOurKexinit_quiet (w : World) : Quiet P w (sendOurKexinit P w) := by
  have hr : Quiet P w (buildKexinitPayload w).2 := .random w 16
  have hhead : Windowless (buildKexinitPayload w).1 :=
    windowless_of_head (buildKexinitPayload_head w) (by decide)
  unfold sendOurKexinit
  generalize buildKexinitPayload w = r at hr hhead ⊢
  have hm := hr.trans (.modify _ (fun s ↦ { s with ourKexInit := r.1 }) fun _ ↦ rfl)
  exact hm.trans (.send P _ hhead)

theorem consumeVersion_rounds (w : World) (hp : w.s.phase = .version) :
    ReflTransGen (Round P) w (consumeVersion P w).1 := by
  unfold consumeVersion
  split
  · split
    · obtain ⟨w', hq, he⟩ := sendDisconnect_eq P w 2 "preamble too long"
      exact .single (he ▸ .hangUp hq)
    · exact .refl
  rename_i line rest _
  have hq : Quiet P w (w.modify fun s ↦ { s with peerVersion := line, rxBuf := rest }) :=
    .modify w _ fun _ ↦ rfl
  simp only
  split
  · obtain ⟨w', hq', he⟩ := sendDisconnect_eq P
      (w.modify fun s ↦ { s with peerVersion := line, rxBuf := rest }) 2 "not an SSH client"
    exact .single (he ▸ .hangUp (hq.trans hq'))
  split
  · obtain ⟨w', hq', he⟩ := sendDisconnect_eq P
      (w.modify fun s ↦ { s with peerVersion := line, rxBuf := rest }) 2
      "SSH protocol version must be 2.0"
    exact .single (he ▸ .hangUp (hq.trans hq'))
  · exact .single (.versionDone hp (hq.trans (sendOurKexinit_quiet P _)))

theorem receiveLoop_rounds (fuel : ℕ) (w : World) :
    ReflTransGen (Round P) w (receiveLoop P fuel w) := by
  induction fuel generalizing w with
  | zero => exact .refl
  | succ fuel ih =>
    unfold receiveLoop
    split
    · exact .refl
    rename_i hc
    split
    · rename_i hv
      have hm := consumeVersion_rounds P w hv
      split
      · rename_i w₁ hw₁
        rwa [hw₁] at hm
      · rename_i w₁ hw₁
        rw [hw₁] at hm
        exact hm.trans (ih w₁)
    rename_i hv
    split
    · exact .refl
    · obtain ⟨w', hq, he⟩ := sendDisconnect_eq P w 2 "framing error"
      exact .single (he ▸ .hangUp hq)
    rename_i payload w₁ hw₁
    have hm : Round P w (dispatchPacket P w₁ payload w₁.s.slot).1 :=
      .packet ⟨hc, hv⟩ hw₁
    split
    · rename_i w₂ hw₂
      rw [hw₂] at hm
      split
      · obtain ⟨w', hq, he⟩ := sendDisconnect_eq P w₂ 2 "protocol error"
        exact .tail (.single hm) (he ▸ .hangUp hq)
      · exact .single hm
    · rename_i w₂ hw₂
      rw [hw₂] at hm
      exact .trans (.single hm) (ih w₂)

theorem fillRxBuf_quiet (fuel : ℕ) (w : World) : Quiet P w (fillRxBuf fuel w) := by
  induction fuel generalizing w with
  | zero => exact .refl w
  | succ fuel ih =>
    unfold fillRxBuf
    simp only
    split
    · exact .refl w
    · refine .trans ?_ (ih _)
      exact .silent rfl rfl rfl rfl (List.append_nil _).symm (by simp)

/-- How an event leaves a session: as good as it was, after some rounds of the
receive loop, or closed by `session_close`. -/
def Ends (w w' : World) : Prop :=
  Quiet P w w' ∨ ReflTransGen (Round P) w w' ∧ w'.s.phase ≠ .closed ∨
    ∃ w₁, ReflTransGen (Move P) w w₁ ∧ w' = sessionClose w₁

theorem Ends.moves {w w' : World} (h : Ends P w w') : ReflTransGen (Move P) w w' := by
  obtain hq | ⟨hr, -⟩ | ⟨w₁, hm, rfl⟩ := h
  · exact .single (.quiet hq)
  · exact ReflTransGen.mono (fun _ _ ↦ Round.move P) _ _ hr
  · exact hm.trans (sessionClose_moves P w₁)

theorem sessionOnTcpData_ends (w : World) : Ends P w (sessionOnTcpData P w) := by
  have hr := ReflTransGen.trans (.single (.quiet (fillRxBuf_quiet P w.tcpIn.length w)))
    (receiveLoop_rounds P ((fillRxBuf w.tcpIn.length w).s.rxBuf.length + 1)
      (fillRxBuf w.tcpIn.length w))
  unfold sessionOnTcpData
  simp only
  split
  · exact .inr (.inr ⟨_, ReflTransGen.mono (fun _ _ ↦ Round.move P) _ _ hr, rfl⟩)
  · rename_i hp
    exact .inr (.inl ⟨hr, hp⟩)

theorem sessionOnBackendClose_ends (w : World) : Ends P w (sessionOnBackendClose P w) := by
  unfold sessionOnBackendClose
  simp only
  split
  · exact .inl (.refl w)
  have hd : ReflTransGen (Move P) w (dropBackend (sessionOnBackendData P w)) :=
    .tail (.single (.quiet (sessionOnBackendData_quiet P w))) .dropBackend
  have hq := ((sendExitStatus_quiet P (dropBackend (sessionOnBackendData P w)) 0).trans
    (sendChannelEof_quiet P _)).trans (sendChannelClose_quiet P _)
  refine .inr (.inr ⟨_, (hd.tail (.quiet hq)).tail (.chanShut ?_), rfl⟩)
  rw [hq.backendHandle]
  exact dropBackend_backendHandle _

variable (i : ℤ)

theorem step_ends (w : World) (e : Event) : Ends P w (step P i w e) := by
  cases e with
  | tcpArrive data => exact .inl (.queues w _ _)
  | tcpRecv =>
    change Ends P w (onTcpRecv P i w)
    unfold onTcpRecv
    split
    · exact .inl (.refl w)
    split
    · exact .inl (.refl w)
    · exact sessionOnTcpData_ends P w
  | tcpDisconnect =>
    change Ends P w (onTcpDisconnect i w)
    unfold onTcpDisconnect
    split
    · exact .inl (.refl w)
    · exact .inr (.inr ⟨w, .refl, rfl⟩)
  | backendArrive handle data => exact .inl (.queues w _ _)
  | backendRecv =>
    change Ends P w (onBackendRecvCb P i w)
    unfold onBackendRecvCb
    split
    · exact .inl (.refl w)
    · exact .inl (sessionOnBackendData_quiet P w)
  | backendDisconnect =>
    change Ends P w (onBackendDisconnectCb P i w)
    unfold onBackendDisconnectCb
    split
    · exact .inl (.refl w)
    · exact sessionOnBackendClose_ends P w
  | reset =>
    change Ends P w (cmdSshdReset i w)
    unfold cmdSshdReset
    split
    · exact .inl (.refl w)
    · exact .inr (.inr ⟨w, .refl, rfl⟩)

theorem step_moves (w : World) (e : Event) : ReflTransGen (Move P) w (step P i w e) :=
  (step_ends P i w e).moves

theorem runFrom_moves (w : World) (events : List Event) :
    ReflTransGen (Move P) w (runFrom P i w events) := by
  induction events generalizing w with
  | nil => exact .refl
  | cons e events ih => exact (step_moves P i w e).trans (ih (step P i w e))

/-- An invariant of the fresh session that no transition breaks holds after
every run. -/
theorem run_induction (inv : World → Prop) (hstep : ∀ w w', inv w → Move P w w' → inv w')
    {w : World} (hw : inv w) (events : List Event) : inv (runFrom P i w events) :=
  run_invariant hstep (runFrom_moves P i w events) hw

/-- The state a fresh session is in, before its version line is out. -/
theorem onTcpConnect_tame (w : World) (tcp : ℤ) :
    Tame { w with
        s := { reset with slot := i, tcp := tcp }
        slotInUse := Function.update w.slotInUse i true
        obs := w.obs ++ [.accept tcp i] } (onTcpConnect i w tcp) := by
  refine Tame.trans ?_ (.sendRawTcp _ _)
  exact ⟨rfl, rfl, rfl, [], (List.append_nil _).symm, by simp⟩

theorem accepted_tame (env : Env) (tcp : ℤ) :
    ∃ w, Tame w (accepted i env tcp) ∧ w.env = env ∧ w.obs = [.accept tcp i] ∧
      w.s = { reset with slot := i, tcp := tcp } :=
  ⟨_, onTcpConnect_tame i _ tcp, rfl, rfl, rfl⟩

/-! Stand-ins to run a session with: cheap functions of the right sizes that
look at all their arguments. The scalar multiplication is commutative and
fails on a zero result. -/

/-- The first and the last bytes, cut or padded to `n`. -/
def blend (n : ℕ) (b : Bytes) : Vector UInt8 n :=
  let ends := b.take 16 ++ b.reverse.take 16
  ⟨((List.range n).map fun i ↦ ends.getD i 0).toArray, by simp⟩

def standIn : Primitives where
  sha256 := blend 32
  x25519Compute scalar point :=
    let point := point.getD (List.replicate 32 1)
    let k := (List.range 32).map fun i ↦ scalar.getD i 0 ^^^ point.getD i 0
    if k.all (· = 0) then none else some ⟨k.toArray, by simp [k]⟩
  cryptoKemEnc pk coins := some (blend 1088 (coins ++ pk), blend 32 coins)
  orlpCreateKeypair seed := (blend 32 seed, blend 64 seed)
  orlpSign msg pub _ := blend 64 (msg ++ pub)
  orlpVerify sig msg pub := sig = (blend 64 (msg ++ pub)).toList
  chacha20 key nonce counter i :=
    if i = 0 then key.getD 4 0 + nonce.getD 11 0 + UInt8.ofNat counter else 0
  poly1305 key msg := blend 16 (key.take 1 ++ msg)
  base64Decode n b := some (b.take n)
  base64Encode n b := some (b.take n)

def sampleEnv : Env where
  random obs i := if i = 0 then UInt8.ofNat obs.length else 2
  hostSeed _ := List.replicate 32 5
  authorizedKeys _ := []
  authLogin _ pw _ := pw = ascii "secret"
  color _ := false
  logcolor _ := false
  itsSend _ _ _ data := data.length
  itsRecv _ _ want := want
  itsConnect obs _ := obs.length

/-- The packets of a client, in order, from a sequence number on. -/
def packets (enc : Bool) (key : Bytes) : ℕ → List Bytes → Bytes
  | _, [] => []
  | seq, payload :: rest =>
    Framing.frame standIn enc key seq payload
      (List.replicate (Framing.padLen enc payload.length) 0) ++ packets enc key (seq + 1) rest

def clientKexinit : Bytes :=
  putNamelist (putU8 [] msgKexinit ++ List.replicate 16 0) "curve25519-sha256"

def clientEcdhInit : Bytes := putString (putU8 [] msgKexEcdhInit) (List.replicate 32 9)

/-- What a client sends in the clear. -/
def clientHello : Bytes :=
  ascii "SSH-2.0-x\n" ++ packets false [] 0 [clientKexinit, clientEcdhInit, [msgNewkeys]]

/-- The key a session has for its client after the first exchange. -/
def clientKey : Bytes :=
  (runFrom standIn 0 (accepted 0 sampleEnv 3) [.tcpArrive clientHello, .tcpRecv]).s.c2sKey

def clientPassword : Bytes :=
  let p := putU8 [] msgUserauthRequest
  let p := putCstring p "root"
  let p := putCstring p "ssh-connection"
  let p := putCstring p "password"
  let p := putU8 p 0
  putCstring p "secret"

def clientChannelOpen (window maxPacket : UInt32) : Bytes :=
  let p := putCstring (putU8 [] msgChannelOpen) "session"
  let p := putU32 p 0
  let p := putU32 p window
  putU32 p maxPacket

def clientShell : Bytes :=
  let p := putU32 (putU8 [] msgChannelRequest) 0
  let p := putCstring p "shell"
  putU8 p 0

def clientData (data : Bytes) : Bytes := putString (putU32 (putU8 [] msgChannelData) 0) data

/-- A client that logs in and then sends the given payloads. -/
def clientBytes (payloads : List Bytes) : Bytes :=
  clientHello ++ packets true clientKey 3 (clientPassword :: payloads)

def sampleRun (env : Env) (payloads : List Bytes) : World :=
  runFrom standIn 0 (accepted 0 env 3) [.tcpArrive (clientBytes payloads), .tcpRecv]

end Sshd.Server
