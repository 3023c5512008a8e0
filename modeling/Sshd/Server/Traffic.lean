import Sshd.Server.Turns

namespace Sshd.Server

open Lib.Octets Wire Crypto

variable (P : Primitives)

/-! Most of what a session does neither moves data on the channel nor ends the
session. The turns are sorted here by what is left. -/

/-- Calls that are neither about the data of the channel nor about the end of
the TCP connection. -/
def Obs.Aside : Obs → Prop
  | .dispatch _ _ | .itsRecv _ _ | .itsSendDrain _ => False
  | .sealed f => f.payload.head? ≠ some msgChannelData ∧ f.payload.head? ≠ some msgDisconnect
  | .itsDisconnect link _ => link = .backend
  | _ => True

/-- `w'` comes from `w` by such calls. -/
structure Aside (w w' : World) : Prop where
  obs : ∃ os, w'.obs = w.obs ++ os ∧ ∀ o ∈ os, o.Aside
  slot : w'.s.slot = w.s.slot
  tcp : w'.s.tcp = w.s.tcp
  phase : w'.s.phase = .closed ↔ w.s.phase = .closed
  chanOpen : w'.s.chanOpen = w.s.chanOpen
  peer : w'.s.peer = w.s.peer

section
variable {w w' : World}

theorem Aside.of_eq {os : List Obs} (hs : (w'.s.slot, w'.s.tcp, w'.s.chanOpen, w'.s.peer) =
      (w.s.slot, w.s.tcp, w.s.chanOpen, w.s.peer))
    (hp : w'.s.phase = .closed ↔ w.s.phase = .closed)
    (hobs : w'.obs = w.obs ++ os) (hos : ∀ o ∈ os, o.Aside) : Aside w w' := by
  simp only [Prod.mk.injEq] at hs
  obtain ⟨hslot, htcp, hopen, hpeer⟩ := hs
  exact ⟨⟨os, hobs, hos⟩, hslot, htcp, hp, hopen, hpeer⟩

theorem Aside.refl (w : World) : Aside w w :=
  .of_eq rfl .rfl (List.append_nil _).symm (by simp)

theorem Aside.trans {w₁ w₂ w₃ : World} (h : Aside w₁ w₂) (h' : Aside w₂ w₃) : Aside w₁ w₃ := by
  obtain ⟨os, hobs, hos⟩ := h.obs
  obtain ⟨os', hobs', hos'⟩ := h'.obs
  refine ⟨⟨os ++ os', by rw [hobs', hobs, List.append_assoc], fun o hm ↦ ?_⟩, h'.slot.trans h.slot,
    h'.tcp.trans h.tcp, h'.phase.trans h.phase, h'.chanOpen.trans h.chanOpen, h'.peer.trans h.peer⟩
  exact (List.mem_append.mp hm).elim (hos o) (hos' o)

theorem Aside.note {o : Obs} (ho : o.Aside) : Aside w (w.note o) :=
  .of_eq rfl .rfl rfl (by simpa using ho)

theorem Aside.modify (w : World) (f : Session → Session)
    (hf : ((f w.s).slot, (f w.s).tcp, (f w.s).chanOpen, (f w.s).peer) =
      (w.s.slot, w.s.tcp, w.s.chanOpen, w.s.peer))
    (hp : (f w.s).phase = .closed ↔ w.s.phase = .closed) : Aside w (w.modify f) :=
  .of_eq hf hp (List.append_nil _).symm (by simp)

theorem Steady.aside (h : Steady P w w') : Aside w w' := by
  obtain ⟨os, hobs, hplain⟩ := h.plain
  obtain ⟨os', hobs', hcalm⟩ := h.obs
  obtain rfl : os' = os := List.append_cancel_left (hobs'.symm.trans hobs)
  refine ⟨⟨os', hobs, fun o ho ↦ ?_⟩, h.slot, h.tcp, by rw [h.phase], h.chanOpen, h.peer⟩
  have hc := hcalm o ho
  have hp := hplain o ho
  cases o with
  | sealed f => exact ⟨fun he ↦ hp.1 _ he (by decide), fun he ↦ hp.1 _ he (by decide)⟩
  | itsRecv => exact hp
  | dispatch | itsSendDrain | itsDisconnect => exact hc.elim
  | _ => trivial

theorem Aside.send (w : World) {payload : Bytes} (hd : payload.head? ≠ some msgChannelData)
    (hb : payload.head? ≠ some msgDisconnect) : Aside w (sendPacket P w payload) := by
  refine .of_eq ?_ ?_ (sendPacket_obs P w payload) fun o ho ↦ ?_
  · rw [sendPacket_s]
    rfl
  · rw [sendPacket_s]
  · obtain ⟨bytes, rfl⟩ | ⟨f, rfl, rfl⟩ | ⟨handle, data, took, rfl⟩ := mem_sendObs P ho
    · trivial
    · exact ⟨hd, hb⟩
    · trivial

theorem replyIf_aside (w : World) (want : UInt8) (ok : Bool) : Aside w (replyIf P w want ok) := by
  have hhead : (channelRequestReply w.s ok).head? =
      some (if ok then msgChannelSuccess else msgChannelFailure) := rfl
  unfold replyIf
  split
  · refine .send P w ?_ ?_ <;> rw [hhead] <;> cases ok <;> decide
  · exact .refl w

theorem connectBackend_aside (w : World) (b : Backend) (ref : ℤ) :
    Aside w (connectBackend w b ref) :=
  .of_eq rfl .rfl rfl (by simp [Obs.Aside])

theorem itsSend_aside (w : World) (link : Link) (handle : ℤ) (data : Bytes) :
    Aside w (itsSend w link handle data).2 := .note trivial

theorem dropBackend_aside (w : World) : Aside w (dropBackend w) := by
  refine .of_eq ?_ ?_ (dropBackend_obs w) ?_
  · rw [dropBackend_s]
    rfl
  · rw [dropBackend_s]
  · unfold dropObs
    split
    · simp [Obs.Aside]
    · simp

theorem replenish_aside (w : World) (written : ℕ) : Aside w (replenish P w written) := by
  by_cases h : 0 < written ∧ usedWindow w.s written < localWindowMax / 2
  · rw [replenish_adjust P h]
    refine .trans (.modify w _ rfl .rfl) (.send P _ ?_ ?_)
    · exact fun he ↦ absurd (Option.some.inj he) (by decide)
    · exact fun he ↦ absurd (Option.some.inj he) (by decide)
  · rw [replenish_none P h]
    exact .modify w _ rfl .rfl

theorem adoptHash_aside (w : World) (hash : Bytes) : Aside w (adoptHash w hash) := by
  refine .of_eq ?_ ?_ (adoptHash_obs w hash) (by simp [Obs.Aside])
  · rw [adoptHash_s]
    rfl
  · rw [adoptHash_s]

theorem sendChannelOpenConfirm_aside (w : World) : Aside w (sendChannelOpenConfirm P w) :=
  .send P w (fun he ↦ absurd (Option.some.inj he) (by decide))
    fun he ↦ absurd (Option.some.inj he) (by decide)

theorem sendChannelClose_aside (w : World) : Aside w (sendChannelClose P w) :=
  .send P w (fun he ↦ absurd (Option.some.inj he) (by decide))
    fun he ↦ absurd (Option.some.inj he) (by decide)

theorem sendChannelEof_aside (w : World) : Aside w (sendChannelEof P w) :=
  .send P w (fun he ↦ absurd (Option.some.inj he) (by decide))
    fun he ↦ absurd (Option.some.inj he) (by decide)

theorem sendExitStatus_aside (w : World) (status : UInt32) : Aside w (sendExitStatus P w status) := by
  unfold sendExitStatus
  split
  · exact .refl w
  · exact .send P w (fun he ↦ absurd (Option.some.inj he) (by decide))
      fun he ↦ absurd (Option.some.inj he) (by decide)

end

/-- What a packet does, with the calls that stand aside left open. -/
inductive Traffic (w : World) (payload : Bytes) : World → Prop
  | aside {w'} (hi : Inert w.s payload) (h : Aside w w') : Traffic w payload w'
  | bye {w'} (hi : Inert w.s payload) (h : Aside w w') (code : UInt32) (msg : String) :
      Traffic w payload (sendDisconnect P w' code msg)
  | disconnect (ht : payload.head? = some msgDisconnect) : Traffic w payload (hangUp w)
  | chanOpen {w'} (hp : w.s.phase = .run) (hc : w.s.chanOpen = false)
      {peerCh peerWin peerMax : UInt32} (ho : openRequest payload = some (peerCh, peerWin, peerMax))
      (h : Aside (openChannel w peerCh peerWin peerMax) w') : Traffic w payload w'
  | adjust (hp : w.s.phase = .run) {add : UInt32} (ha : windowAdjust payload = some add) :
      Traffic w payload (sessionOnBackendData P (widenWindow w add))
  | chanClose {w'} (hi : Inert w.s payload) (hc : w.s.chanOpen = true) (h : Aside w w') :
      Traffic w payload (shut w')

theorem Effect.traffic {slot : ℤ} {w w' : World} {payload : Bytes} (h : Effect P slot w payload w') :
    Traffic P w payload w' := by
  cases h with
  | steady hi h => exact .aside hi.toInert (h.aside P)
  | bye hi h code msg => exact .bye hi.toInert (h.aside P) code msg
  | disconnect ht => exact .disconnect ht
  | kexinit alg ht hp hs =>
    refine .aside (inert_of_head ht (by decide)) (.modify w _ rfl ⟨nofun, fun hc ↦ ?_⟩)
    rcases hp with hp | hp <;> cases hp.symm.trans hc
  | @exchange w₁ w₂ ht hp hash h h' =>
    refine .aside (inert_of_head ht (by decide)) ?_
    have hw : Aside w w₂ := ((h.aside P).trans (adoptHash_aside w₁ hash)).trans (h'.aside P)
    refine hw.trans (.of_eq rfl ⟨nofun, fun hc ↦ ?_⟩ rfl (by simp [Obs.Aside]))
    cases hp.symm.trans (hw.phase.mp hc)
  | newkeys ht hp =>
    refine .aside (inert_of_head ht (by decide))
      (.of_eq rfl ⟨nofun, fun hc ↦ ?_⟩ (List.append_nil _).symm (by simp))
    cases hp.symm.trans hc
  | success hp ht _ h =>
    refine .aside (inert_of_head ht (by decide))
      ((h.aside P).trans (.modify _ _ rfl ⟨nofun, fun hc ↦ ?_⟩))
    cases hp.symm.trans (h.phase.symm.trans hc)
  | chanOpen hp hc ho => exact .chanOpen hp hc ho (sendChannelOpenConfirm_aside P _)
  | reply _ ht ok =>
    exact .aside (inert_of_head (wantReply_head ht) (by decide)) (replyIf_aside P w _ ok)
  | backend _ ht b _ h ok =>
    exact .aside (inert_of_head (wantReply_head ht) (by decide))
      (((h.aside P).trans (connectBackend_aside _ b slot)).trans (replyIf_aside P _ _ ok))
  | exec _ ht b line _ h _ =>
    exact .aside (inert_of_head (wantReply_head ht) (by decide))
      ((((h.aside P).trans (connectBackend_aside _ b slot)).trans (replyIf_aside P _ _ true)).trans
        (itsSend_aside _ _ _ line))
  | data _ d hd _ =>
    exact .aside (inert_of_head (dataPayload_head hd) (by decide))
      ((itsSend_aside w _ _ d).trans (replenish_aside P _ _))
  | adjust hp ha => exact .adjust hp ha
  | chanClose ht hc =>
    exact .chanClose (inert_of_head ht (by decide)) hc
      ((dropBackend_aside w).trans (sendChannelClose_aside P _))

theorem dispatchPacket_traffic (w : World) (payload : Bytes) (sessionSlot : ℤ) :
    Traffic P (w.note (.dispatch w.s payload)) payload (dispatchPacket P w payload sessionSlot).1 :=
  (dispatchPacket_effect P w payload sessionSlot).traffic

theorem parsePacket_aside {w w₁ : World} {payload : Bytes}
    (h : parsePacket P w = .got payload w₁) : Aside w w₁ := by
  obtain ⟨packet, rest, -, rfl⟩ := parsePacket_got P h
  exact .of_eq rfl .rfl rfl (by simp [Obs.Aside])

theorem farewell_aside (w : World) :
    ∃ w', Aside w w' ∧ farewell P w = w'.modify fun s ↦ { s with chanOpen := false } :=
  ⟨_, (((dropBackend_aside w).trans (sendExitStatus_aside P _ 0)).trans
    (sendChannelEof_aside P _)).trans (sendChannelClose_aside P _), rfl⟩

theorem sendRawTcp_aside (w : World) (data : Bytes) : Aside w (sendRawTcp w data) := by
  unfold sendRawTcp
  split
  · exact .refl w
  · exact itsSend_aside w _ _ _

theorem accepted_aside (i : ℤ) (env : Env) (tcp : ℤ) :
    ∃ w, Aside w (accepted i env tcp) ∧ w.obs = [.accept tcp i] ∧
      w.s = { reset with slot := i, tcp := tcp } := by
  refine ⟨⟨env, { reset with slot := i, tcp := tcp }, Function.update (fun _ ↦ false) i true, [],
    fun _ ↦ [], [.accept tcp i]⟩, ?_, rfl, rfl⟩
  exact (Aside.modify _ (fun s ↦ { s with ourVersion := ourVersionStr }) rfl .rfl).trans
    (sendRawTcp_aside _ _)

theorem sessionClose_grows (w : World) :
    ∃ os, (sessionClose w).obs = w.obs ++ os ∧
      (∀ o ∈ os, (∃ handle, o = .itsDisconnect .backend handle) ∨ o = .itsSendDrain w.s.tcp ∨
        o = .itsDisconnect .tcp w.s.tcp) ∧
      (sessionClose w).s.phase = .closed ∧ (sessionClose w).s.peer = w.s.peer := by
  by_cases h : w.s.phase = .closed ∧ w.s.slot < 0
  · rw [sessionClose, if_pos h]
    exact ⟨[], (List.append_nil _).symm, by simp, h.1, rfl⟩
  have htcp : (dropBackend w).s.tcp = w.s.tcp := by rw [dropBackend_s]
  have hs : (shut (dropTcp (dropBackend w))).s.peer = w.s.peer := by
    change (dropTcp (dropBackend w)).s.peer = w.s.peer
    rw [dropTcp_s]
    exact (dropBackend_aside w).peer
  rw [sessionClose_eq h, freeSlot_obs, freeSlot_s]
  change ∃ os, (dropTcp (dropBackend w)).obs = w.obs ++ os ∧ _
  rw [dropTcp_obs, dropBackend_obs, htcp, List.append_assoc]
  refine ⟨_, rfl, fun o ho ↦ ?_, rfl, hs⟩
  rcases List.mem_append.mp ho with ho | ho
  · unfold dropObs at ho
    split at ho
    · exact .inl ⟨_, List.mem_singleton.mp ho⟩
    · cases ho
  · split at ho
    · simp only [List.mem_cons, List.not_mem_nil, or_false] at ho
      exact .inr ho
    · cases ho

theorem sessionClose_phase (w : World) : (sessionClose w).s.phase = .closed := by
  obtain ⟨_, -, -, hclosed, -⟩ := sessionClose_grows w
  exact hclosed

end Sshd.Server
