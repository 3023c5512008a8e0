import Sshd.Server.Effect

namespace Sshd.Server

open Lib.Octets Wire Crypto

variable (P : Primitives)

/-! Channel traffic that leaves the control fields alone. -/

theorem replyIf_quiet (w : World) (wantReply : UInt8) (ok : Bool) :
    Quiet P w (replyIf P w wantReply ok) := by
  unfold replyIf
  split
  · cases ok with
    | false => exact .send P w (windowless_of_head rfl (by decide))
    | true => exact .send P w (windowless_of_head rfl (by decide))
  · exact .refl w

theorem sendChannelData_quiet (w : World) (data : Bytes) :
    Quiet P w (sendChannelData P w data) :=
  .send P w (windowless_of_head (t := msgChannelData) (by simp [channelData, putU8, putU32]) (by decide))

theorem drainLoop_quiet (fuel : ℕ) (w : World) : Quiet P w (drainLoop P fuel w) := by
  induction fuel generalizing w with
  | zero => exact .refl w
  | succ fuel ih =>
    unfold drainLoop
    split
    · have hr : Quiet P w (itsRecv w w.s.backendHandle (drainWant w.s)).2 := .recv w _ _
      simp only
      split
      · exact hr
      · refine .trans ?_ (ih _)
        exact (hr.trans (sendChannelData_quiet P _ _)).trans (.modify _ _ fun _ ↦ rfl)
    · exact .refl w

theorem sessionOnBackendData_quiet (w : World) : Quiet P w (sessionOnBackendData P w) := by
  unfold sessionOnBackendData
  split
  · exact .refl w
  · exact drainLoop_quiet P _ w

theorem handleGlobalRequest_steady (w : World) (body : Bytes) :
    Steady P w (handleGlobalRequest P w body) := by
  unfold handleGlobalRequest
  split
  · exact .refl w
  split
  · exact .send P w (plain_of_head rfl (by decide))
  · exact .refl w

theorem sendUnimplemented_steady (w : World) : Steady P w (sendUnimplemented P w) :=
  .send P w (plain_of_head rfl (by decide))

theorem sendExitStatus_quiet (w : World) (status : UInt32) :
    Quiet P w (sendExitStatus P w status) := by
  unfold sendExitStatus
  split
  · exact .refl w
  · exact .send P w (windowless_of_head rfl (by decide))

theorem sendChannelEof_quiet (w : World) : Quiet P w (sendChannelEof P w) :=
  .send P w (windowless_of_head rfl (by decide))

theorem sendChannelClose_quiet (w : World) : Quiet P w (sendChannelClose P w) :=
  .send P w (windowless_of_head rfl (by decide))

/-! Channel requests. -/

theorem openBackendWithMode_eq {w : World} {mode : CliMode} {b : Backend} (sessionSlot : ℤ)
    (h : backendFor w mode = some b) :
    openBackendWithMode w sessionSlot mode =
      (connectBackend w b sessionSlot,
        decide (0 ≤ (connectBackend w b sessionSlot).s.backendHandle)) := by
  rw [openBackendWithMode, h]
  rfl

section
variable {w : World} {payload : Bytes} {slot : ℤ}

/-- A request that opens no channel grants no window. -/
theorem unasked_of_openRequest (ht : payload.head? = some msgChannelOpen)
    (ho : w.s.chanOpen = false → openRequest payload = none) : Unasked w.s payload := by
  have ha : windowAdjust payload = none := by
    refine Option.eq_none_iff_forall_ne_some.mpr fun r h ↦ ?_
    cases ht.symm.trans (windowAdjust_head h)
  refine ⟨⟨?_, by rw [ht]; decide⟩, fun _ ↦ ?_, fun _ _ ↦ ?_⟩
  rotate_left
  · refine Option.eq_none_iff_forall_ne_some.mpr fun r h ↦ ?_
    cases ht.symm.trans (wantReply_head h)
  · refine Option.eq_none_iff_forall_ne_some.mpr fun r h ↦ ?_
    cases ht.symm.trans (dataPayload_head h)
  rw [grant, ha]
  split
  · rfl
  cases hc : w.s.chanOpen
  · rw [ho hc]
    rfl
  · rfl

theorem handleChannelOpen_effect (body : Bytes) (hp : w.s.phase = .run) :
    Effect P slot w (msgChannelOpen :: body) (handleChannelOpen P w body).1 := by
  unfold handleChannelOpen
  split
  · rename_i hv
    refine .steady (unasked_of_openRequest rfl fun _ ↦ ?_) (.refl w)
    simp [openRequest, hv]
  rename_i typeStr v hv
  have ho : openRequest (msgChannelOpen :: body) =
      if (getU32 (getU32 (getU32 v).2).2).2.bad ∨ typeStr ≠ ascii "session" then none
      else some ((getU32 v).1, (getU32 (getU32 v).2).1, (getU32 (getU32 (getU32 v).2).2).1) := by
    simp only [openRequest, hv, ne_eq, not_true_eq_false, if_false]
  simp only
  split
  · rename_i hbad
    refine .steady (unasked_of_openRequest rfl fun _ ↦ ?_) (.refl w)
    rw [ho, if_pos (.inl hbad)]
  rename_i hbad
  split
  · rename_i hc
    refine .steady (unasked_of_openRequest rfl fun hn ↦ ?_) (.send P w (plain_of_head rfl (by decide)))
    cases hn.symm.trans hc
  rename_i hc
  split
  · rename_i hname
    refine .steady (unasked_of_openRequest rfl fun _ ↦ ?_) (.send P w (plain_of_head rfl (by decide)))
    rw [ho, if_pos (.inr hname)]
  · rename_i hname
    refine .chanOpen hp (by simpa using hc) ?_
    rw [ho, if_neg (by tauto)]

theorem requestBackend_effect {want : UInt8} {kind : ChanKind} (sessionSlot : ℤ)
    (hp : w.s.phase = .run) (ht : wantReply payload = some want) (hk : kind ≠ .none)
    (hr : (backendRequest payload).isSome) :
    Effect P sessionSlot w payload (requestBackend P w want kind sessionSlot).1 := by
  have hq : Steady P w (w.modify fun s ↦ { s with chanKind := kind }) := .modify w _ fun _ ↦ rfl
  obtain ⟨b, hb⟩ : ∃ b, backendFor (w.modify fun s ↦ { s with chanKind := kind }) .ansi = some b := by
    cases kind with
    | none => exact absurd rfl hk
    | cli => exact ⟨_, rfl⟩
    | log => exact ⟨_, rfl⟩
  have he := openBackendWithMode_eq sessionSlot hb
  unfold requestBackend
  simp only [openBackend, he]
  split
  · rename_i w₁ hw₁
    obtain ⟨rfl, -⟩ := Prod.mk.injEq .. ▸ hw₁
    exact .backend hp ht b hr hq false
  · rename_i w₁ hw₁
    obtain ⟨rfl, -⟩ := Prod.mk.injEq .. ▸ hw₁
    exact .backend hp ht b hr hq true

/-- An `exec` request that is well formed: its line is written exactly when
the backend is there. -/
theorem requestExec_some (w : World) {v v' : View} {cmd : Bytes} (want : UInt8) (sessionSlot : ℤ)
    (hcmd : getString v = (some cmd, v')) (hlen : ¬256 < cmd.length) :
    ∃ b w₁, Steady P w w₁ ∧
      ((replyIf P (connectBackend w₁ b sessionSlot) want false).s.backendHandle < 0 ∧
          (requestExec P w v want sessionSlot).1 =
            replyIf P (connectBackend w₁ b sessionSlot) want false ∨
        0 ≤ (replyIf P (connectBackend w₁ b sessionSlot) want true).s.backendHandle ∧
          (requestExec P w v want sessionSlot).1 =
            (itsSend (replyIf P (connectBackend w₁ b sessionSlot) want true) .backend
              (replyIf P (connectBackend w₁ b sessionSlot) want true).s.backendHandle
              (cmd ++ [59] ++ [10])).2) := by
  have hq : Steady P w (w.modify fun s ↦ { s with chanKind := .cli }) := .modify w _ fun _ ↦ rfl
  obtain ⟨b, hb⟩ : ∃ b, backendFor (w.modify fun s ↦ { s with chanKind := .cli }) .line = some b :=
    ⟨_, rfl⟩
  have he := openBackendWithMode_eq sessionSlot hb
  refine ⟨b, _, hq, ?_⟩
  unfold requestExec
  rw [hcmd]
  simp only [if_neg hlen, openBackendLine, he]
  split
  · rename_i w₁ hw₁
    obtain ⟨rfl, hh⟩ := Prod.mk.injEq .. ▸ hw₁
    refine .inl ⟨?_, rfl⟩
    rw [(replyIf_quiet P _ want false).backendHandle]
    exact not_le.mp (of_decide_eq_false hh)
  · rename_i w₁ hw₁
    obtain ⟨rfl, hh⟩ := Prod.mk.injEq .. ▸ hw₁
    refine .inr ⟨?_, rfl⟩
    rw [(replyIf_quiet P _ want true).backendHandle]
    exact of_decide_eq_true hh

theorem requestExec_effect (v : View) {want : UInt8} (sessionSlot : ℤ) (hp : w.s.phase = .run)
    (ht : wantReply payload = some want)
    (hr : ∀ cmd v', getString v = (some cmd, v') → ¬256 < cmd.length →
      backendRequest payload = some (.cli, .line, cmd ++ [59] ++ [10])) :
    Effect P sessionSlot w payload (requestExec P w v want sessionSlot).1 := by
  rcases hcmd : getString v with ⟨_ | cmd, v'⟩
  · unfold requestExec
    rw [hcmd]
    exact .reply hp ht false
  by_cases hlen : 256 < cmd.length
  · unfold requestExec
    rw [hcmd]
    simp only [if_pos hlen]
    exact .reply hp ht false
  have hreq := hr cmd v' hcmd hlen
  obtain ⟨b, w₁, hq, ⟨-, he⟩ | ⟨hh, he⟩⟩ := requestExec_some P w want sessionSlot hcmd hlen
  · rw [he]
    exact .backend hp ht b (by rw [hreq]; rfl) hq false
  · rw [he]
    exact .exec hp ht b _ hreq hq hh

theorem requestSubsystem_effect (v : View) {want : UInt8} (sessionSlot : ℤ) (hp : w.s.phase = .run)
    (ht : wantReply payload = some want)
    (hr : ∀ v', getString v = (some (ascii "log"), v') → (backendRequest payload).isSome) :
    Effect P sessionSlot w payload (requestSubsystem P w v want sessionSlot).1 := by
  unfold requestSubsystem
  split
  · exact .reply hp ht false
  rename_i sub v' hsub
  split
  · rename_i hlog
    exact requestBackend_effect P sessionSlot hp ht (by decide) (hr v' (hlog ▸ hsub))
  · exact .reply hp ht false

theorem handleChannelRequest_effect (body : Bytes) (sessionSlot : ℤ) (hp : w.s.phase = .run) :
    Effect P sessionSlot w (msgChannelRequest :: body) (handleChannelRequest P w body sessionSlot).1 := by
  unfold handleChannelRequest
  simp only
  split
  · rename_i hv
    have hnone : wantReply (msgChannelRequest :: body) = none := by simp [wantReply, hv]
    refine .steady ⟨inert_of_head rfl (by decide), fun _ ↦ hnone, fun _ _ ↦ ?_⟩ (.refl w)
    refine Option.eq_none_iff_forall_ne_some.mpr fun d hd ↦ ?_
    exact absurd (Option.some.inj (dataPayload_head hd)) (by decide)
  rename_i typeStr v hv
  have ht : wantReply (msgChannelRequest :: body) = some (getU8 v).1 := by simp [wantReply, hv]
  split
  · exact .reply hp ht true
  split
  · rename_i hshell
    refine requestBackend_effect P sessionSlot hp ht (by decide) ?_
    simp [backendRequest, hv, hshell]
  split
  · rename_i hshell hexec
    refine requestExec_effect P _ sessionSlot hp ht fun cmd v' hcmd hlen ↦ ?_
    simp only [backendRequest, hv, ne_eq, not_true_eq_false, if_false]
    rw [if_neg hshell, if_pos hexec, hcmd]
    simp only
    rw [if_neg hlen]
  split
  · rename_i hshell hexec hsub
    refine requestSubsystem_effect P _ sessionSlot hp ht fun v' hlog ↦ ?_
    simp only [backendRequest, hv, ne_eq, not_true_eq_false, if_false]
    rw [if_neg hshell, if_neg hexec, if_pos hsub, hlog]
    simp
  split
  · exact .reply hp ht true
  · exact .reply hp ht false

theorem handleChannelData_effect (body : Bytes) (hp : w.s.phase = .run) :
    Effect P slot w (msgChannelData :: body) (handleChannelData P w body) := by
  have hi (hd : 0 ≤ w.s.backendHandle → dataPayload (msgChannelData :: body) = none) :
      Unasked w.s (msgChannelData :: body) := by
    refine ⟨inert_of_head rfl (by decide), fun _ ↦ ?_, fun _ ↦ hd⟩
    refine Option.eq_none_iff_forall_ne_some.mpr fun want hw ↦ ?_
    exact absurd (Option.some.inj (wantReply_head hw)) (by decide)
  unfold handleChannelData
  simp only
  split
  · rename_i hv
    exact .steady (hi fun _ ↦ by simp [dataPayload, hv]) (.refl w)
  rename_i d v hv
  split
  · rename_i hb
    exact .steady (hi fun hb' ↦ absurd hb (not_lt.mpr hb')) (.refl w)
  · rename_i hb
    refine .data hp d ?_ (not_lt.mp hb)
    simp [dataPayload, hv]

theorem Effect.ite {c : Prop} [Decidable c] {a b : World × Bool}
    (ha : c → Effect P slot w payload a.1) (hb : ¬c → Effect P slot w payload b.1) :
    Effect P slot w payload (if c then a else b).1 := by
  by_cases h : c
  · rw [if_pos h]
    exact ha h
  · rw [if_neg h]
    exact hb h

theorem Effect.guarded {c : Prop} [Decidable c] {b : World × Bool} (hi : c → Unasked w.s payload)
    (hb : ¬c → Effect P slot w payload b.1) :
    Effect P slot w payload (if c then (w, false) else b).1 :=
  .ite P (fun hc ↦ .steady (hi hc) (.refl w)) hb

theorem unasked_of_phase (hp : w.s.phase ≠ .run) (ht : payload.head? ≠ some msgDisconnect) :
    Unasked w.s payload :=
  ⟨⟨grant_of_phase hp payload, ht⟩, fun hr ↦ absurd hr hp, fun hr ↦ absurd hr hp⟩

theorem handleChannelClose_effect (ht : payload.head? = some msgChannelClose) :
    Effect P slot w payload (handleChannelClose P w) := by
  cases hc : w.s.chanOpen
  · have he : handleChannelClose P w = w := if_pos hc
    rw [he]
    exact .steady (unasked_of_head ht (by decide)) (.refl w)
  · have he : handleChannelClose P w = shut (sendChannelClose P (dropBackend w)) := by
      rw [handleChannelClose, hc]
      rfl
    rw [he]
    exact .chanClose ht hc

theorem dispatchMessage_effect (type : UInt8) (body : Bytes) (sessionSlot : ℤ) :
    Effect P sessionSlot w (type :: body) (dispatchMessage P w type (type :: body) body sessionSlot).1 := by
  have hhead {t : UInt8} (ht : type = t)
      (hn : t ∉ [msgDisconnect, msgChannelOpen, msgChannelWindowAdjust, msgChannelRequest,
        msgChannelData]) : Unasked w.s (type :: body) := unasked_of_head (by rw [ht]; rfl) hn
  unfold dispatchMessage
  refine .ite P (fun ht ↦ .disconnect (by rw [ht]; rfl)) fun hdisconnect ↦ ?_
  have hphase (hp : w.s.phase ≠ .run) : Unasked w.s (type :: body) :=
    unasked_of_phase hp fun he ↦ hdisconnect (Option.some.inj he)
  refine .ite P (fun ht ↦ .steady ?skip (.refl w)) fun _ ↦ ?_
  case skip => exact ht.elim (fun h ↦ hhead h (by decide)) fun h ↦ hhead h (by decide)
  refine .ite P (fun ht ↦ .guarded P (fun _ ↦ hhead ht (by decide)) fun hp ↦ ?kexinit) fun _ ↦ ?_
  case kexinit => exact handleKexinit_effect P (by rw [ht]; rfl) (by tauto)
  refine .ite P (fun ht ↦ .guarded P (fun _ ↦ hhead ht (by decide)) fun hp ↦ ?ecdhInit) fun _ ↦ ?_
  case ecdhInit => exact handleKexEcdhInit_effect P body (by rw [ht]; rfl) (not_not.mp hp)
  refine .ite P (fun ht ↦ .guarded P (fun _ ↦ hhead ht (by decide)) fun hp ↦ ?newkeys) fun _ ↦ ?_
  case newkeys => exact .newkeys (by rw [ht]; rfl) (not_not.mp hp)
  refine .ite P (fun ht ↦ .guarded P (fun _ ↦ hhead ht (by decide)) fun _ ↦ ?service) fun _ ↦ ?_
  case service => exact handleServiceRequest_effect P body (hhead ht (by decide))
  refine .ite P (fun ht ↦ .guarded P (fun _ ↦ hhead ht (by decide)) fun hp ↦ ?userauth) fun _ ↦ ?_
  case userauth => exact ht ▸ handleUserauthRequest_effect P body (not_not.mp hp)
  refine .ite P (fun ht ↦ .steady (hhead ht (by decide)) (handleGlobalRequest_steady P w body)) fun _ ↦ ?_
  refine .ite P (fun ht ↦ .guarded P hphase fun hp ↦ ?chanOpen) fun hopen ↦ ?_
  case chanOpen => exact ht ▸ handleChannelOpen_effect P body (not_not.mp hp)
  refine .ite P (fun ht ↦ .guarded P hphase fun hp ↦ ?request) fun hrequest ↦ ?_
  case request => exact ht ▸ handleChannelRequest_effect P body sessionSlot (not_not.mp hp)
  refine .ite P (fun ht ↦ .guarded P hphase fun hp ↦ ?data) fun hdata ↦ ?_
  case data => exact ht ▸ handleChannelData_effect P body (not_not.mp hp)
  refine .ite P (fun ht ↦ .guarded P hphase fun hp ↦ ?window) fun hwindow ↦ ?_
  case window => exact .adjust (not_not.mp hp) (by rw [ht]; rfl)
  refine .ite P (fun ht ↦ .steady (hhead ht (by decide)) (.refl w)) fun _ ↦ ?_
  refine .ite P (fun ht ↦ handleChannelClose_effect P (by rw [ht]; rfl)) fun _ ↦ ?_
  refine .steady (unasked_of_head rfl ?_) (sendUnimplemented_steady P w)
  simp [hdisconnect, hopen, hwindow, hrequest, hdata]

end

theorem dispatchPacket_effect (w : World) (payload : Bytes) (sessionSlot : ℤ) :
    Effect P sessionSlot (w.note (.dispatch w.s payload)) payload
      (dispatchPacket P w payload sessionSlot).1 := by
  cases payload with
  | nil =>
    exact .steady ⟨⟨grant_of_head nofun nofun, nofun⟩, fun _ ↦ rfl, fun _ _ ↦ rfl⟩ (.refl _)
  | cons type body => exact dispatchMessage_effect P type body sessionSlot

/-- `Outcome` forgets which of the calm messages were sent. -/
theorem Effect.outcome {slot : ℤ} {w w' : World} {payload : Bytes} (h : Effect P slot w payload w') :
    Outcome P slot w payload w' := by
  cases h with
  | steady _ h => exact .quiet h.toQuiet
  | bye _ h code msg =>
    obtain ⟨w₁, hq, he⟩ := sendDisconnect_eq P _ code msg
    rw [he]
    exact .hangUp (h.toQuiet.trans hq)
  | disconnect => exact .hangUp (.refl w)
  | kexinit alg ht hp hs => exact .kexinit alg ht hp hs
  | exchange ht hp hash h h' => exact .exchange ht hp hash h.toQuiet h'.toQuiet
  | newkeys ht hp => exact .newkeys ht hp
  | success hp _ hj h => exact .success hp hj h.toQuiet
  | chanOpen hp hc => exact .chanOpen hp hc _ _ _
  | reply => exact .quiet (replyIf_quiet P w _ _)
  | backend hp _ b hr h ok => exact .backend hp b hr h.toQuiet (replyIf_quiet P _ _ ok)
  | exec hp _ b line hr h hh => exact .exec hp b line hr h.toQuiet (replyIf_quiet P _ _ true) hh
  | data hp d hd hb => exact .data hp d hd hb
  | adjust =>
    exact .quiet (.trans (.modify w (fun s ↦ { s with peerWindow := s.peerWindow + _ }) fun _ ↦ rfl)
      (sessionOnBackendData_quiet P _))
  | chanClose _ hc => exact .chanClose hc (sendChannelClose_quiet P _)

theorem dispatchPacket_outcome (w : World) (payload : Bytes) (sessionSlot : ℤ) :
    Outcome P sessionSlot (w.note (.dispatch w.s payload)) payload
      (dispatchPacket P w payload sessionSlot).1 :=
  (dispatchPacket_effect P w payload sessionSlot).outcome

/-! The two messages that carry bytes for a backend. -/

section
variable {w : World} {payload : Bytes}

theorem dispatchPacket_channelData {body : Bytes} (sessionSlot : ℤ) (hp : w.s.phase = .run) :
    (dispatchPacket P w (msgChannelData :: body) sessionSlot).1 =
      handleChannelData P (w.note (.dispatch w.s (msgChannelData :: body))) body := by
  change (if w.s.phase ≠ .run then _ else _ : World × Bool).1 = _
  rw [if_neg (not_not.mpr hp)]

theorem dispatchPacket_channelRequest {body : Bytes} (sessionSlot : ℤ) (hp : w.s.phase = .run) :
    (dispatchPacket P w (msgChannelRequest :: body) sessionSlot).1 =
      (handleChannelRequest P (w.note (.dispatch w.s (msgChannelRequest :: body))) body
        sessionSlot).1 := by
  change (if w.s.phase ≠ .run then _ else _ : World × Bool).1 = _
  rw [if_neg (not_not.mpr hp)]

theorem dispatchPacket_data {d : Bytes} (sessionSlot : ℤ) (hp : w.s.phase = .run)
    (hd : dataPayload payload = some d) :
    (dispatchPacket P w payload sessionSlot).1 =
      if w.s.backendHandle < 0 then w.note (.dispatch w.s payload) else
        replenish P
          (itsSend (w.note (.dispatch w.s payload)) .backend w.s.backendHandle d).2
          (itsSend (w.note (.dispatch w.s payload)) .backend w.s.backendHandle d).1 := by
  cases payload with
  | nil => cases hd
  | cons type body =>
    rw [dataPayload] at hd
    by_cases ht : type = msgChannelData
    · subst ht
      rw [if_neg (not_not.mpr rfl)] at hd
      rw [dispatchPacket_channelData P sessionSlot hp]
      rw [handleChannelData]
      rcases hg : getString (getU32 (viewInit body)).2 with ⟨_ | d', v⟩
      · rw [hg] at hd
        cases hd
      · rw [hg] at hd
        obtain rfl := Option.some.inj hd
        simp only [hg]
        rfl
    · rw [if_pos ht] at hd
      cases hd

theorem dispatchPacket_exec {line : Bytes} (sessionSlot : ℤ) (hp : w.s.phase = .run)
    (hr : backendRequest payload = some (.cli, .line, line)) :
    ∃ b w₁ w₂, Quiet P (w.note (.dispatch w.s payload)) w₁ ∧
      Quiet P (connectBackend w₁ b sessionSlot) w₂ ∧
      (w₂.s.backendHandle < 0 ∧ (dispatchPacket P w payload sessionSlot).1 = w₂ ∨
        0 ≤ w₂.s.backendHandle ∧ (dispatchPacket P w payload sessionSlot).1 =
          (itsSend w₂ .backend w₂.s.backendHandle line).2) := by
  cases payload with
  | nil => cases hr
  | cons type body =>
    rw [backendRequest] at hr
    by_cases ht : type = msgChannelRequest
    swap
    · rw [if_pos ht] at hr
      cases hr
    subst ht
    rw [if_neg (not_not.mpr rfl)] at hr
    rcases hg : getString (getU32 (viewInit body)).2 with ⟨_ | typeStr, v⟩
    · rw [hg] at hr
      cases hr
    rw [hg] at hr
    simp only at hr
    by_cases hshell : typeStr = ascii "shell"
    · rw [if_pos hshell] at hr
      cases hr
    rw [if_neg hshell] at hr
    by_cases hexec : typeStr = ascii "exec"
    swap
    · rw [if_neg hexec] at hr
      split at hr
      · split at hr
        · cases hr
        · split at hr <;> cases hr
      · cases hr
    rw [if_pos hexec] at hr
    rcases hcmd : getString (getU8 v).2 with ⟨_ | cmd, v'⟩
    · rw [hcmd] at hr
      cases hr
    rw [hcmd] at hr
    simp only at hr
    by_cases hlen : 256 < cmd.length
    · rw [if_pos hlen] at hr
      cases hr
    rw [if_neg hlen] at hr
    obtain rfl : cmd ++ [59] ++ [10] = line := by
      simpa only [Option.some.injEq, Prod.mk.injEq, true_and] using hr
    have hpty : typeStr ≠ ascii "pty-req" := by
      rw [hexec]
      decide
    have he : (dispatchPacket P w (msgChannelRequest :: body) sessionSlot).1 =
        (requestExec P (w.note (.dispatch w.s (msgChannelRequest :: body))) (getU8 v).2
          (getU8 v).1 sessionSlot).1 := by
      rw [dispatchPacket_channelRequest P sessionSlot hp]
      rw [handleChannelRequest]
      simp only [hg]
      rw [if_neg hpty, if_neg hshell, if_pos hexec]
    rw [he]
    obtain ⟨b, w₁, hq, ⟨hh, hno⟩ | ⟨hh, hline⟩⟩ := requestExec_some P
      (w.note (.dispatch w.s (msgChannelRequest :: body))) (getU8 v).1 sessionSlot hcmd hlen
    · exact ⟨b, w₁, _, hq.toQuiet, replyIf_quiet P _ _ false, .inl ⟨hh, hno⟩⟩
    · exact ⟨b, w₁, _, hq.toQuiet, replyIf_quiet P _ _ true, .inr ⟨hh, hline⟩⟩

end

end Sshd.Server
