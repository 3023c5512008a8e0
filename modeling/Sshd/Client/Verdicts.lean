import Sshd.Client.FlowControl
import Sshd.Client.LoginLog

namespace Sshd.Client

open Lib.Octets Lib.Trace Wire Crypto Framing
open Server (standIn packets)

variable {P : Primitives}

/-! The session. -/

/-- The session is over, with nothing more in its log. -/
structure Gone (w w' : World) : Prop where
  pc : w'.pc = .finished
  given : w'.job.given = w.job.given
  log : login w'.obs = login w.obs

/-- The session asks for `m`, or is over. -/
def TurnsTo (P : Primitives) (m : Method) (w w' : World) : Prop :=
  Gone w w' ∨ ∃ pc payload, pc.method = some m ∧ Asks w.job.user m payload ∧
    w' = (sendPacket P w payload).goto pc

/-- A request has been left without its reply. -/
structure Stray (w : World) : Prop where
  closed : .channel ∉ login w.obs
  unanswered : (verdicts (login w.obs)).length < (requests (login w.obs)).length
  ahead : w.pc.method ≠ none →
    (verdicts (login w.obs)).length + 1 < (requests (login w.obs)).length

/-- What an event makes of a login: what is said of it goes on to hold, unless it
sees what it does not wait for. -/
def Follows (w w' : World) : Prop :=
  Login w' ∧ (Prompt (login w.obs) → Prompt (login w'.obs)) ∨ Stray w' ∧ ¬Prompt (login w'.obs)

section
variable {w w₁ w' : World} {m : Method}

theorem giveUp_gone (w : World) (msg : Bytes) : Gone w (giveUp w msg) :=
  ⟨rfl, rfl, (login_snoc w.obs _).trans (List.append_nil _)⟩

theorem authFailed_gone (w : World) : Gone w (authFailed w) := by
  unfold authFailed
  split
  · exact giveUp_gone w _
  · exact giveUp_gone w _

theorem authPassword_turns (w : World) : TurnsTo P .password w (authPassword P w) := by
  refine .inr ⟨.password, _, rfl, ?_, rfl⟩
  rw [passwordRequest, putString_eq, putU8, List.append_assoc]
  exact List.prefix_append _ _

theorem authKeyboardInteractive_turns (w : World) :
    TurnsTo P .keyboardInteractive w (authKeyboardInteractive P w) := by
  unfold authKeyboardInteractive
  split
  · refine .inr ⟨.keyboardInteractive, _, rfl, ?_, rfl⟩
    rw [keyboardInteractiveRequest, putCstring, putCstring, putString_eq, putString_eq,
      List.append_assoc]
    exact List.prefix_append _ _
  · exact .inl (authFailed_gone w)

theorem authPublickey_turns (w : World) : ∃ m, TurnsTo P m w (authPublickey P w) ∧
    (m = .publickey ∨ m = .keyboardInteractive ∧ w.job.tryPubkey = false) := by
  unfold authPublickey
  split
  swap
  · rename_i htry
    exact ⟨_, authKeyboardInteractive_turns w, .inr ⟨rfl, by simpa using htry⟩⟩
  refine ⟨.publickey, ?_, .inl rfl⟩
  split
  · exact .inl (giveUp_gone w _)
  simp only
  split
  · exact .inl (giveUp_gone w _)
  · refine .inr ⟨.publickey, _, rfl, ?_, rfl⟩
    rw [publickeyRequest, publickeyClaim, putString_eq, putString_eq, putCstring, putString_eq, putU8]
    simp only [List.append_assoc]
    exact List.prefix_append _ _

theorem Login.of_waiting (hm : w.pc.method = some m) (h : Waiting w.job.given m (login w.obs)) :
    Login w := by
  refine ⟨fun m' hm' ↦ ?_, fun hn ↦ ?_, fun he ↦ ?_⟩
  · obtain rfl : m = m' := Option.some.inj (hm.symm.trans hm')
    exact h
  · cases hm.symm.trans hn
  · rcases he with he | he | he | he | he <;>
      · rw [he] at hm
        cases hm

theorem Login.of_settled (hm : w.pc.method = none) (h : Settled w.job.given (login w.obs))
    (hf : w.pc.Early → login w.obs = []) : Login w :=
  ⟨fun m hs ↦ (by cases hm.symm.trans hs), fun _ ↦ h, hf⟩

theorem Login.of_nil (hm : w.pc.method = none) (h : login w.obs = []) : Login w :=
  .of_settled hm (by rw [h]; exact .nil) fun _ ↦ h

theorem Login.same (h : Login w) (hpc : w'.pc = w.pc) (hg : w'.job.given = w.job.given)
    (hlog : login w'.obs = login w.obs) : Login w' := by
  constructor
  · rw [hpc, hg, hlog]
    exact h.waits
  · rw [hpc, hg, hlog]
    exact h.settled
  · rw [hpc, hlog]
    exact h.fresh

theorem Login.gone (h : Gone w w') (hs : Settled w.job.given (login w.obs)) : Login w' := by
  refine .of_settled (by rw [h.pc]; rfl) (by rw [h.given, h.log]; exact hs) fun he ↦ ?_
  rw [h.pc] at he
  exact absurd he (by decide)

theorem prompt_append {log more : List Line} : Prompt (log ++ more) ↔ Prompt log ∧ Prompt more := by
  simp only [Prompt, List.mem_append, or_imp, forall_and]

theorem TurnsTo.log (h : TurnsTo P m w w') :
    ∃ more, login w'.obs = login w.obs ++ more ∧ Prompt more := by
  obtain hg | ⟨pc, payload, -, ha, rfl⟩ := h
  · exact ⟨[], by rw [hg.log, List.append_nil], by simp [Prompt]⟩
  · exact ⟨[.request payload], login_request ha.head, by simp [Prompt, Line.Awaited]⟩

theorem TurnsTo.to_login (h : TurnsTo P m w w') (hr : Refused w.job.given (login w.obs))
    (hk : m = .keyboardInteractive ∨ m = .password → KeyRefused w.job.given (login w.obs)) :
    Login w' := by
  obtain hg | ⟨pc, payload, hpc, ha, rfl⟩ := h
  · exact .gone hg hr.settled
  · refine .of_waiting hpc ?_
    rw [goto_job, sendPacket_job, goto_obs, login_request ha.head]
    exact hr.ask ha hk

theorem TurnsTo.stray (h : TurnsTo P m w w') {m' : Method}
    (hw : Waiting w.job.given m' (login w.obs)) : Stray w' := by
  have hclosed := hw.closed
  obtain ⟨front, last, hreq, -, hlen⟩ := hw.pending
  have hless : (verdicts (login w.obs)).length + 1 = (requests (login w.obs)).length := by
    simp [hreq, hlen]
  obtain hg | ⟨pc, payload, hpc, ha, rfl⟩ := h
  · refine ⟨by rwa [hg.log], by rw [hg.log]; omega, fun hne ↦ absurd ?_ hne⟩
    rw [hg.pc]
    rfl
  · have hlog : login ((sendPacket P w payload).goto pc).obs = login w.obs ++ [.request payload] :=
      login_request ha.head
    have hreqs : requests (login ((sendPacket P w payload).goto pc).obs) =
        requests (login w.obs) ++ [payload] := by
      rw [hlog, requests_append]
      rfl
    have hvers : verdicts (login ((sendPacket P w payload).goto pc).obs) =
        verdicts (login w.obs) := by
      rw [hlog, verdicts_append]
      exact List.append_nil _
    have hmore := congrArg List.length hreqs
    rw [List.length_append, List.length_singleton] at hmore
    refine ⟨by rw [hlog]; simp [hclosed], by rw [hvers]; omega, fun _ ↦ by rw [hvers]; omega⟩

/-- The missing reply may be either. -/
theorem Stray.misleads (h : Stray w) :
    ∃ accepts, Agrees accepts (login w.obs) ∧ ¬Attributed accepts w := by
  refine ⟨fun k ↦ ((verdicts (login w.obs))[k]?).getD true, fun k ok hk ↦ by simp [hk], fun ha ↦ ?_⟩
  cases hm : w.pc.method with
  | none =>
    refine h.closed ((ha.result hm).mpr ⟨(verdicts (login w.obs)).length, h.unanswered, ?_⟩)
    simp
  | some m =>
    obtain ⟨front, last, hreq, -, hlen⟩ := ha.waits m hm
    have hahead := h.ahead (by simp [hm])
    rw [hreq, hlen, List.length_append, List.length_singleton] at hahead
    omega

/-- `w₁` is `w` once `recv_packet` has returned. -/
structure Heard (w w₁ : World) (t : ℤ) (pkt : Bytes) : Prop where
  pc : w₁.pc = w.pc
  given : w₁.job.given = w.job.given
  log : login w₁.obs =
    login w.obs ++ ((verdictOf t).map Line.verdict).toList ++ [.returned w.pc t pkt]

section
variable {t : ℤ} {pkt : Bytes} (hw : Waiting w.job.given m (login w.obs))
  (hm : w.pc.method = some m) (h : Heard w w₁ t pkt)
include hw hm h

omit hm in
theorem Heard.pass (hv : verdictOf t = none) : Waiting w₁.job.given m (login w₁.obs) := by
  rw [h.given, h.log, hv]
  simp only [Option.map_none, Option.toList_none, List.append_nil]
  exact hw.returned hv

theorem Heard.refused (hv : verdictOf t = some false) : Refused w₁.job.given (login w₁.obs) ∧
    (m ≠ .none → KeyRefused w₁.job.given (login w₁.obs)) := by
  rw [h.given, h.log, hv]
  exact hw.refuse hm hv

theorem Heard.accepted (hv : verdictOf t = some true) : Login (startChannel P w₁) := by
  refine .of_settled rfl ?_ fun he ↦ absurd he (by decide : ¬Pc.channelOpen.Early)
  rw [login_startChannel, startChannel, goto_job, sendPacket_job, h.given, h.log, hv]
  exact hw.accept hm hv

omit hw hm in
theorem Heard.keeps (hl : Login w') {more : List Line} (hlog : login w'.obs = login w₁.obs ++ more)
    (hmore : Prompt more) (ha : Line.Awaited (.returned w.pc t pkt)) : Follows w w' := by
  refine .inl ⟨hl, fun hp ↦ ?_⟩
  rw [hlog, h.log, prompt_append, prompt_append, prompt_append]
  refine ⟨⟨⟨hp, ?_⟩, by simpa [Prompt] using ha⟩, hmore⟩
  intro l hl
  obtain ⟨ok, -, rfl⟩ := Option.map_eq_some_iff.mp (Option.mem_toList.mp hl)
  trivial

omit hm in
theorem Heard.breaks (hv : verdictOf t = none) {m' : Method} (ht : TurnsTo P m' w₁ w')
    (hn : ¬Line.Awaited (.returned w.pc t pkt)) : Follows w w' := by
  refine .inr ⟨ht.stray (h.pass hw hv), fun hp ↦ hn (hp _ ?_)⟩
  obtain ⟨more, hlog, -⟩ := ht.log
  rw [hlog, h.log]
  simp

/-- A refusal makes the session turn to its next method. -/
theorem Heard.next (hv : verdictOf t = some false) {m' : Method}
    (ht : TurnsTo P m' (noteFailureMethods w₁ pkt) w')
    (hk : m' = .keyboardInteractive ∨ m' = .password → m ≠ .none ∨ w.job.tryPubkey = false) :
    Follows w w' := by
  obtain ⟨hr, hkey⟩ := h.refused hw hm hv
  have hg : (noteFailureMethods w₁ pkt).job.given = w₁.job.given :=
    (noteFailureMethods_quiet P w₁ pkt).given
  have hlog := login_noteFailureMethods w₁ pkt
  obtain ⟨more, hadd, hmore⟩ := ht.log
  rw [hlog] at hadd
  refine h.keeps (ht.to_login ?_ fun hm' ↦ ?_) hadd hmore (.inr (.inl (by simp [hv])))
  · rw [hg, hlog]
    exact hr
  · rw [hg, hlog]
    obtain hne | htry := hk hm'
    · exact hkey hne
    · intro hyes
      have hno : w₁.job.given.tryPubkey = false := (congrArg Given.tryPubkey h.given).trans htry
      rw [hno] at hyes
      cases hyes

theorem Heard.banner (ht : t = msgUserauthBanner.toNat) : Follows w w₁ := by
  have hv : verdictOf t = none := by rw [ht]; rfl
  have hl : Login w₁ := .of_waiting (h.pc ▸ hm) (h.pass hw hv)
  exact h.keeps hl (List.append_nil _).symm (by simp [Prompt]) (.inl ht)

theorem Heard.success (ht : t = msgUserauthSuccess.toNat) : Follows w (startChannel P w₁) := by
  have hv : verdictOf t = some true := by rw [ht]; rfl
  exact h.keeps (h.accepted hw hm hv) (login_startChannel w₁) (by simp [Prompt, Line.Awaited])
    (.inr (.inl (by simp [hv])))

end

section
variable {t : ℤ} {pkt : Bytes}

theorem verdictOf_failure (ht : t = msgUserauthFailure.toNat) : verdictOf t = some false := by
  rw [ht]
  rfl

theorem verdictOf_none (hs : t ≠ msgUserauthSuccess.toNat) (hf : t ≠ msgUserauthFailure.toNat) :
    verdictOf t = none := by
  rw [verdictOf, if_neg hs, if_neg hf]

/-- Nothing but prompts can take the place of a banner or a verdict. -/
theorem not_awaited {pc : Pc} (hb : t ≠ msgUserauthBanner.toNat) (hv : verdictOf t = none)
    (hi : pc = .keyboardInteractive → t = msgUserauthInfoRequest.toNat →
      infoRequestPrompts pkt = none) : ¬Line.Awaited (.returned pc t pkt) := by
  rintro (h | h | ⟨hpc, ht, hp⟩)
  · exact hb h
  · exact h hv
  · exact hp (hi hpc ht)

theorem onNoneProbe_follows (hpc : w.pc = .noneProbe) (hl : Login w) (h : Heard w w₁ t pkt) :
    Follows w (onNoneProbe P (startChannel P) w₁ t pkt) := by
  have hm : w.pc.method = some .none := by rw [hpc]; rfl
  have hw := hl.waits _ hm
  unfold onNoneProbe
  split
  · rename_i ht
    exact h.banner hw hm ht
  rename_i hb
  split
  · rename_i ht
    exact h.success hw hm ht
  rename_i hs
  split
  · rename_i ht
    obtain ⟨m', hturn, hm'⟩ := authPublickey_turns (P := P) (noteFailureMethods w₁ pkt)
    refine h.next hw hm (verdictOf_failure ht) hturn fun hk ↦ .inr ?_
    have hg := (noteFailureMethods_quiet P w₁ pkt).given.trans h.given
    obtain rfl | ⟨-, htry⟩ := hm'
    · simp at hk
    · exact (congrArg Given.tryPubkey hg).symm.trans htry
  rename_i hf
  have hv := verdictOf_none hs hf
  have hn : ¬Line.Awaited (.returned w.pc t pkt) :=
    not_awaited hb hv fun hk ↦ by cases hpc.symm.trans hk
  split
  · have hgone : TurnsTo P .none w₁ (giveUp w₁ (ascii "auth probe: connection lost")) :=
      .inl (giveUp_gone w₁ _)
    exact h.breaks hw hv hgone hn
  · obtain ⟨m', hturn, -⟩ := authPublickey_turns (P := P) w₁
    exact h.breaks hw hv hturn hn

/-- What gives a place up is not what it waits for. -/
theorem Heard.lost (hw : Waiting w.job.given m (login w.obs)) (h : Heard w w₁ t pkt)
    (hb : t ≠ msgUserauthBanner.toNat) (hv : verdictOf t = none)
    (hi : w.pc = .keyboardInteractive → t = msgUserauthInfoRequest.toNat →
      infoRequestPrompts pkt = none) (msg : Bytes) : Follows w (giveUp w₁ msg) := by
  have hgone : TurnsTo standIn .none w₁ (giveUp w₁ msg) := .inl (giveUp_gone w₁ msg)
  exact h.breaks hw hv hgone (not_awaited hb hv hi)

theorem simpleResult_cases (t : ℤ) :
    simpleResult t = .success ∧ t = msgUserauthSuccess.toNat ∨
      simpleResult t = .failure ∧ t = msgUserauthFailure.toNat ∨
        simpleResult t = .error ∧ verdictOf t = none := by
  unfold simpleResult
  split
  · rename_i hs
    exact .inl ⟨rfl, hs⟩
  rename_i hs
  split
  · rename_i hf
    exact .inr (.inl ⟨rfl, hf⟩)
  · rename_i hf
    exact .inr (.inr ⟨rfl, verdictOf_none hs hf⟩)

theorem onPublickey_follows (hpc : w.pc = .publickey) (hl : Login w) (h : Heard w w₁ t pkt) :
    Follows w (onPublickey P (startChannel P) w₁ t pkt) := by
  have hm : w.pc.method = some .publickey := by rw [hpc]; rfl
  have hw := hl.waits _ hm
  unfold onPublickey
  split
  · rename_i ht
    exact h.banner hw hm ht
  rename_i hb
  obtain ⟨hr, ht⟩ | ⟨hr, ht⟩ | ⟨hr, hv⟩ := simpleResult_cases t
  · rw [hr]
    exact h.success hw hm ht
  · rw [hr]
    exact h.next hw hm (verdictOf_failure ht) (authKeyboardInteractive_turns (P := P) _)
      fun _ ↦ .inl (by simp)
  · rw [hr]
    exact h.lost hw hb hv (fun hk ↦ by cases hpc.symm.trans hk) _

theorem onPassword_follows (hpc : w.pc = .password) (hl : Login w) (h : Heard w w₁ t pkt) :
    Follows w (onPassword (startChannel P) w₁ t pkt) := by
  have hm : w.pc.method = some .password := by rw [hpc]; rfl
  have hw := hl.waits _ hm
  unfold onPassword
  split
  · rename_i ht
    exact h.banner hw hm ht
  rename_i hb
  obtain ⟨hr, ht⟩ | ⟨hr, ht⟩ | ⟨hr, hv⟩ := simpleResult_cases t
  · rw [hr]
    exact h.success hw hm ht
  · rw [hr]
    have hgone : TurnsTo P .password (noteFailureMethods w₁ pkt)
        (authFailed (noteFailureMethods w₁ pkt)) := .inl (authFailed_gone _)
    exact h.next hw hm (verdictOf_failure ht) hgone fun _ ↦ .inl (by simp)
  · rw [hr]
    exact h.lost hw hb hv (fun hk ↦ by cases hpc.symm.trans hk) _

theorem Heard.prompts (hpc : w.pc = .keyboardInteractive)
    (hw : Waiting w.job.given .keyboardInteractive (login w.obs)) (h : Heard w w₁ t pkt)
    (ht : t = msgUserauthInfoRequest.toNat) {num : UInt32} (hn : infoRequestPrompts pkt = some num)
    (password : Bytes) : Follows w (sendPacket P w₁ (infoResponse num password)) := by
  have hm : w.pc.method = some .keyboardInteractive := by rw [hpc]; rfl
  have hv : verdictOf t = none := by rw [ht]; rfl
  have hlog : login (sendPacket P w₁ (infoResponse num password)).obs =
      login w₁.obs ++ [.response (infoResponse num password)] := login_response num password
  have hwait := h.pass hw hv
  have hl : Login (sendPacket P w₁ (infoResponse num password)) := by
    refine .of_waiting (m := .keyboardInteractive) (by rw [sendPacket_pc, h.pc, hm]) ?_
    rw [sendPacket_job, hlog]
    exact hwait.pass rfl rfl (by simp) (fun _ _ _ he ↦ by cases he) fun _ ↦ hwait.key (.inl rfl)
  exact h.keeps hl hlog (by simp [Prompt, Line.Awaited]) (.inr (.inr ⟨hpc, ht, by simp [hn]⟩))

theorem onKeyboardInteractive_follows (hpc : w.pc = .keyboardInteractive) (hl : Login w)
    (h : Heard w w₁ t pkt) : Follows w (onKeyboardInteractive P (startChannel P) w₁ t pkt) := by
  have hm : w.pc.method = some .keyboardInteractive := by rw [hpc]; rfl
  have hw := hl.waits _ hm
  unfold onKeyboardInteractive
  split
  · rename_i ht
    exact h.banner hw hm ht
  rename_i hb
  split
  · rename_i ht
    split
    · rename_i hn
      exact h.lost hw hb (by rw [ht]; rfl) (fun _ _ ↦ hn) _
    · rename_i num hn
      exact h.prompts hpc hw ht hn _
  rename_i hi
  obtain ⟨hr, ht⟩ | ⟨hr, ht⟩ | ⟨hr, hv⟩ := simpleResult_cases t
  · rw [hr]
    exact h.success hw hm ht
  · rw [hr]
    exact h.next hw hm (verdictOf_failure ht) (authPassword_turns (P := P) _)
      fun _ ↦ .inl (by simp)
  · rw [hr]
    exact h.lost hw hb hv (fun _ ht ↦ absurd ht hi) _

end

/-! The other places. -/

theorem early_method {pc : Pc} (h : pc.Early) : pc.method = none := by
  rcases h with rfl | rfl | rfl | rfl | rfl <;> rfl

/-- The exchange of keys leaves the log empty. -/
theorem Login.kex (h : Login w) (he : w.pc.Early) (ha : Acts kexTypes kexPcs w w') :
    Login w' ∧ login w'.obs = login w.obs := by
  have hlog := ha.same_login kexTypes_aside
  refine ⟨.of_nil ?_ (hlog.trans (h.fresh he)), hlog⟩
  rcases ha.pc with hpc | hpc
  · rw [hpc]
    exact early_method he
  · revert hpc
    cases w'.pc <;> decide

/-- So does the channel. -/
theorem Login.channel (h : Login w) (hm : w.pc.method = none)
    (ha : Acts channelTypes channelPcs w w') : Login w' ∧ login w'.obs = login w.obs := by
  have hlog := ha.same_login channelTypes_aside
  rcases ha.pc with hpc | hpc
  · exact ⟨h.same hpc ha.given hlog, hlog⟩
  · have hnew : w'.pc.method = none ∧ ¬w'.pc.Early := by
      revert hpc
      cases w'.pc <;> decide
    refine ⟨.of_settled hnew.1 ?_ fun he ↦ absurd he hnew.2, hlog⟩
    rw [ha.given, hlog]
    exact h.settled hm

theorem onServiceAccept_turns (w : World) (t : ℤ) :
    TurnsTo P .none { w with offeredMethods := [] } (onServiceAccept P w t) := by
  have hgone (msg : Bytes) : Gone { w with offeredMethods := [] } (giveUp w msg) := by
    obtain ⟨hpc, hg, hlog⟩ := giveUp_gone w msg
    exact ⟨hpc, hg, hlog⟩
  unfold onServiceAccept
  split
  · exact .inl (hgone _)
  split
  · exact .inl (hgone _)
  · exact .inr ⟨.noneProbe, _, rfl, List.prefix_rfl, rfl⟩

/-- No reply comes before its request. -/
theorem Settled.silent {g : Given} {log more : List Line} (h : Settled g log) {t : ℤ}
    (ha : Answering (log ++ ((verdictOf t).map Line.verdict).toList ++ more)) :
    verdictOf t = none := by
  cases hv : verdictOf t with
  | none => rfl
  | some ok =>
    rw [hv] at ha
    have hless := ha.causal log (.verdict ok) more (by simp) ok rfl
    exact absurd hless (by rw [h.answered]; exact lt_irrefl _)

theorem Follows.same (h : Login w') (hlog : login w'.obs = login w.obs) : Follows w w' :=
  .inl ⟨h, fun hp ↦ hlog ▸ hp⟩

theorem resume_acts (hm : w.pc.method = none) (hv : w.pc ≠ .version) (hs : w.pc ≠ .serviceAccept)
    (t : ℤ) (pkt : Bytes) : w.pc.Early ∧ Acts kexTypes kexPcs w (resume P w t pkt) ∨
      Acts channelTypes channelPcs w (resume P w t pkt) := by
  unfold resume
  cases hpc : w.pc with
  | version => exact absurd hpc hv
  | serviceAccept => exact absurd hpc hs
  | kexinit => exact .inl ⟨by decide, .onKexinit P w t pkt⟩
  | kexEcdhReply => exact .inl ⟨by decide, .onKexEcdhReply P w t pkt⟩
  | newkeys => exact .inl ⟨by decide, .onNewkeys P w t⟩
  | channelOpen => exact .inr (.channelRecv P w t pkt (.onChannelOpen P w t pkt))
  | ptyReq => exact .inr (.channelRecv P w t pkt (.onPtyReq P w t))
  | channelRequest => exact .inr (.channelRecv P w t pkt (.onChannelRequest P w t))
  | pump => exact .inr (.onPump P w t pkt)
  | finished => exact .inr (.refl w)
  | noneProbe => rw [hpc] at hm; cases hm
  | publickey => rw [hpc] at hm; cases hm
  | keyboardInteractive => rw [hpc] at hm; cases hm
  | password => rw [hpc] at hm; cases hm

/-- A place of no method is not concerned. -/
theorem Login.beside (h : Login w) (hm : w.pc.method = none) (hv : w.pc ≠ .version)
    {t : ℤ} {pkt : Bytes} (hpc : w₁.pc = w.pc) (hg : w₁.job.given = w.job.given)
    (hlog : login w₁.obs = login w.obs ++ ((verdictOf t).map Line.verdict).toList)
    (ha : Answering (login (resume P w₁ t pkt).obs)) : Follows w (resume P w₁ t pkt) := by
  have hsame (more : List Line) (hadd : login (resume P w₁ t pkt).obs = login w₁.obs ++ more) :
      login w₁.obs = login w.obs := by
    rw [hadd, hlog] at ha
    rw [hlog, (h.settled hm).silent ha]
    exact List.append_nil _
  by_cases hs : w.pc = .serviceAccept
  · have hres : resume P w₁ t pkt = onServiceAccept P w₁ t := by
      rw [resume, hpc, hs]
    have hturn := onServiceAccept_turns (P := P) w₁ t
    rw [← hres] at hturn
    obtain ⟨more, hadd, hmore⟩ := hturn.log
    have heq := hsame more hadd
    have hnil : login w.obs = [] := h.fresh (by rw [hs]; decide)
    refine .inl ⟨hturn.to_login ?_ (by simp), fun hp ↦ ?_⟩
    · change Refused w₁.job.given (login w₁.obs)
      rw [heq, hnil]
      exact .nil
    · rw [hadd]
      refine prompt_append.mpr ⟨?_, hmore⟩
      change Prompt (login w₁.obs)
      rwa [heq]
  · have hact := resume_acts (P := P) (w := w₁) (by rw [hpc, hm]) (by rwa [hpc]) (by rwa [hpc]) t pkt
    have hadd : login (resume P w₁ t pkt).obs = login w₁.obs := by
      obtain ⟨-, hkex⟩ | hchannel := hact
      · exact hkex.same_login kexTypes_aside
      · exact hchannel.same_login channelTypes_aside
    have heq := hsame [] (by rw [hadd, List.append_nil])
    have hl₁ : Login w₁ := h.same hpc hg heq
    refine .same ?_ (hadd.trans heq)
    obtain ⟨hearly, hkex⟩ | hchannel := hact
    · exact (hl₁.kex hearly hkex).1
    · exact (hl₁.channel (by rw [hpc, hm]) hchannel).1

theorem poll_follows (expired : Bool) (h : Login w)
    (ha : Answering (login (poll P expired w).obs)) : Follows w (poll P expired w) := by
  by_cases hfin : w.pc = .finished
  · rw [show poll P expired w = w by unfold poll; rw [hfin]]
    exact .same h rfl
  by_cases hver : w.pc = .version
  · rw [show poll P expired w = versionRound P expired w by unfold poll; rw [hver]]
    obtain ⟨hl, heq⟩ := h.kex (by rw [hver]; decide) (Acts.versionRound P w expired)
    exact .same hl heq
  obtain ⟨hpc, hjob, -⟩ := recvRound_same (P := P) expired w
  have hlog := login_recvRound (P := P) expired w
  rw [poll_recv ⟨hver, hfin⟩] at ha ⊢
  generalize recvRound P expired w = r at hpc hjob hlog ha ⊢
  obtain ⟨_ | ⟨t, pkt⟩, w₁⟩ := r
  · have heq : login w₁.obs = login w.obs := hlog.trans (List.append_nil _)
    exact .same (h.same hpc (congrArg SshJob.given hjob) heq) heq
  have hg : w₁.job.given = w.job.given := congrArg SshJob.given hjob
  have hnote := login_snoc w₁.obs (.received w₁.pc t pkt)
  cases hm : w.pc.method with
  | none =>
    have hadd : login (w₁.note (.received w₁.pc t pkt)).obs =
        login w.obs ++ ((verdictOf t).map Line.verdict).toList := by
      refine hnote.trans ?_
      rw [Obs.line, hpc, if_pos hm]
      exact (List.append_nil _).trans hlog
    exact h.beside hm hver hpc hg hadd ha
  | some m =>
    have hheard : Heard w (w₁.note (.received w₁.pc t pkt)) t pkt := by
      refine ⟨hpc, hg, hnote.trans ?_⟩
      rw [Obs.line, hpc, if_neg (by simp [hm])]
      exact congrArg (· ++ _) hlog
    have hplace : (w₁.note (.received w₁.pc t pkt)).pc = w.pc := hpc
    simp only [resume, hplace]
    cases hp : w.pc with
    | noneProbe => exact onNoneProbe_follows hp h hheard
    | publickey => exact onPublickey_follows hp h hheard
    | keyboardInteractive => exact onKeyboardInteractive_follows hp h hheard
    | password => exact onPassword_follows hp h hheard
    | _ => rw [hp] at hm; cases hm

theorem step_follows (event : Event) (h : Login w)
    (ha : Answering (login (step P w event).obs)) : Follows w (step P w event) := by
  cases event with
  | poll expired => exact poll_follows expired h ha
  | tcpArrive data => exact .same (h.same rfl rfl rfl) rfl
  | tcpClose => exact .same (h.same rfl rfl rfl) rfl
  | typed data => exact .same (h.same rfl rfl rfl) rfl
  | userClose => exact .same (h.same rfl rfl rfl) rfl

/-- What the log says of its own verdicts holds of the server's. -/
theorem Login.attributed {accepts : ℕ → Bool} (h : Login w) (ha : Agrees accepts (login w.obs)) :
    Attributed accepts w := by
  have hr : Recorded w.job.given (login w.obs) := by
    cases hm : w.pc.method with
    | none => exact (h.settled hm).toRecorded
    | some m => exact (h.waits m hm).toRecorded
  have hagree (pre post : List Line) (hl : login w.obs = pre ++ post) (k : ℕ) (ok : Bool)
      (hk : (verdicts pre)[k]? = some ok) : accepts k = ok := by
    obtain ⟨hlt, -⟩ := List.getElem?_eq_some_iff.mp hk
    refine ha k ok ?_
    rw [hl, verdicts_append, List.getElem?_append_left hlt, hk]
  refine ⟨fun m hm ↦ (h.waits m hm).pending, ?_, fun hm ↦ ?_, fun htry ↦ ?_⟩
  · intro pre l post hl pc t pkt m ok he hm hv
    obtain ⟨front, last, hreq, hask, hlen, hk⟩ := hr.took pre l post hl pc t pkt m ok he hm hv
    exact ⟨front, last, hreq, hask, hlen, hagree pre (l :: post) hl _ _ hk⟩
  · obtain ⟨-, hlen, hres⟩ := h.settled hm
    rw [hres, List.mem_iff_getElem?]
    constructor
    · rintro ⟨k, hk⟩
      obtain ⟨hlt, -⟩ := List.getElem?_eq_some_iff.mp hk
      exact ⟨k, hlen ▸ hlt, ha k true hk⟩
    · rintro ⟨k, hlt, hk⟩
      have hget := List.getElem?_eq_getElem (hlen ▸ hlt : k < (verdicts (login w.obs)).length)
      rw [← ha k _ hget, hk] at hget
      exact ⟨k, hget⟩
  · intro pre l post hl hp
    obtain ⟨k, r, hreq, hask, hk⟩ := hr.password pre l post hl hp htry
    obtain ⟨hlt, -⟩ := List.getElem?_eq_some_iff.mp hk
    exact ⟨k, r, hreq, hask, hlt, hagree pre (l :: post) hl _ _ hk⟩

theorem Answering.before {log more : List Line} (h : Answering (log ++ more)) : Answering log := by
  refine ⟨(eachAfter_append.mp h.causal).1, fun l hl ↦ h.alive l (List.mem_append_left _ hl)⟩

theorem Move.obs_prefix (h : Move P w w') : w.obs <+: w'.obs := by
  obtain ⟨os, hobs, -⟩ | hobs := h.muted
  · exact ⟨os, hobs.symm⟩
  · exact ⟨_, hobs.symm⟩

end

section
variable (env : Env) (job : SshJob) (store : List Bytes)

theorem login_run_prefix {done events : List Event} (h : done <+: events) :
    ∃ more, login (runFrom P (runSession env job store) events).obs =
      login (runFrom P (runSession env job store) done).obs ++ more := by
  obtain ⟨rest, rfl⟩ := h
  have hsplit : runFrom P (runSession env job store) (done ++ rest) =
      runFrom P (runFrom P (runSession env job store) done) rest := List.foldl_append
  obtain ⟨os, hobs⟩ := run_induction P
    (motive := fun w ↦ (runFrom P (runSession env job store) done).obs <+: w.obs)
    List.prefix_rfl (fun _ _ hm h ↦ h.trans hm.obs_prefix) rest
  exact ⟨login os, by rw [hsplit, ← hobs, login_append]⟩

theorem login_runSession : (runSession env job store).pc.method = none ∧
    login (runSession env job store).obs = [] := by
  rcases lt_or_ge env.itsConnect 0 with hneg | hpos
  · obtain ⟨hobs, hpc, -⟩ := runSession_refused hneg job store
    exact ⟨by rw [hpc]; rfl, by rw [hobs]; rfl⟩
  · obtain ⟨took, hobs, -, hpc, -⟩ := runSession_connected hpos job store
    exact ⟨by rw [hpc]; rfl, by rw [hobs]; rfl⟩

/-- With a server that answers request by request, the verdicts are attributed to
their requests all along a run, whichever way the server decides, if and only if
`do_auth` sees nothing but what it waits for. -/
theorem verdicts_attributed_iff (P : Primitives) (events : List Event)
    (h : Answering (login (runFrom P (runSession env job store) events).obs)) :
    (∀ done, done <+: events → ∀ accepts,
      Agrees accepts (login (runFrom P (runSession env job store) done).obs) →
        Attributed accepts (runFrom P (runSession env job store) done)) ↔
      Prompt (login (runFrom P (runSession env job store) events).obs) := by
  have hstep (done : List Event) (event : Event) : runFrom P (runSession env job store)
      (done ++ [event]) = step P (runFrom P (runSession env job store) done) event :=
    List.foldl_concat ..
  obtain ⟨hm, hnil⟩ := login_runSession env job store
  constructor
  · intro hall
    have hgood : ∀ done, done <+: events → Login (runFrom P (runSession env job store) done) ∧
        Prompt (login (runFrom P (runSession env job store) done).obs) := by
      intro done
      induction done using List.reverseRecOn with
      | nil =>
        refine fun _ ↦ ⟨.of_nil hm hnil, ?_⟩
        change Prompt (login (runSession env job store).obs)
        rw [hnil]
        simp [Prompt]
      | append_singleton done event ih =>
        intro hd
        obtain ⟨hl, hp⟩ := ih ((List.prefix_append done [event]).trans hd)
        obtain ⟨more, hmore⟩ := login_run_prefix (P := P) env job store hd
        rw [hmore] at h
        have hans := h.before
        have hattr := hall _ hd
        rw [hstep] at hans hattr ⊢
        obtain ⟨hl', hp'⟩ | ⟨hstray, -⟩ := step_follows event hl hans
        · exact ⟨hl', hp' hp⟩
        · obtain ⟨accepts, hagree, hnot⟩ := hstray.misleads
          exact absurd (hattr accepts hagree) hnot
    exact (hgood events List.prefix_rfl).2
  · intro hp done hd accepts hagree
    have hgood : ∀ done, done <+: events → Login (runFrom P (runSession env job store) done) := by
      intro done
      induction done using List.reverseRecOn with
      | nil => exact fun _ ↦ .of_nil hm hnil
      | append_singleton done event ih =>
        intro hd
        have hl := ih ((List.prefix_append done [event]).trans hd)
        obtain ⟨more, hmore⟩ := login_run_prefix (P := P) env job store hd
        rw [hmore] at h hp
        have hans := h.before
        have hprompt := (prompt_append.mp hp).1
        rw [hstep] at hans hprompt ⊢
        obtain ⟨hl', -⟩ | ⟨-, hnot⟩ := step_follows event hl hans
        · exact hl'
        · exact absurd hprompt hnot
    exact (hgood done hd).attributed hagree

end

/-- A server that sends its payloads behind SERVICE_ACCEPT, and a worker that reads them. -/
def loginEvents (payloads : List Bytes) (polls : ℕ) : List Event :=
  .tcpArrive (serverExchange ++ packets true serverKey 3 ([msgServiceAccept] :: payloads)) ::
    List.replicate polls (.poll false)

theorem verdicts_attributed_iff_accepted :
    let events := loginEvents [[msgUserauthFailure], [msgUserauthBanner], [msgUserauthSuccess]] 9
    let run := runFrom standIn (runSession sampleEnv sampleJob [])
    ∀ done, done <+: events → ∀ accepts, Agrees accepts (login (run done).obs) →
      Attributed accepts (run done) := by
  intro events run
  have hlog : EachAfter (fun pre l ↦ ∀ ok, l = .verdict ok →
        (verdicts pre).length < (requests pre).length) (login (run events).obs) ∧
      ∀ l ∈ login (run events).obs, l.Alive ∧ l.Awaited := by
    decide +kernel
  have hans : Answering (login (run events).obs) := ⟨hlog.1, fun l hl ↦ (hlog.2 l hl).1⟩
  exact (verdicts_attributed_iff sampleEnv sampleJob [] standIn events hans).mpr
    fun l hl ↦ (hlog.2 l hl).2

/-- The server refuses the probe only after its deadline, and then refuses
keyboard-interactive. -/
def lateEvents : List Event :=
  loginEvents [] 6 ++ .poll true ::
    .tcpArrive (packets true serverKey 4 [[msgUserauthFailure], [msgUserauthFailure]]) ::
      List.replicate 3 (.poll false)

/-- The second refusal is taken for that of the password, which this server accepts. -/
theorem late_refusal_misread :
    let w := runFrom standIn (runSession sampleEnv sampleJob []) lateEvents
    Answering (login w.obs) ∧ Agrees (· == 2) (login w.obs) ∧ ¬Attributed (· == 2) w := by
  intro w
  obtain ⟨hcausal, halive, hm, hclosed, hreq, hver⟩ :
      EachAfter (fun pre l ↦ ∀ ok, l = .verdict ok →
        (verdicts pre).length < (requests pre).length) (login w.obs) ∧
      (∀ l ∈ login w.obs, l.Alive) ∧ w.pc.method = none ∧ .channel ∉ login w.obs ∧
      (requests (login w.obs)).length = 3 ∧ verdicts (login w.obs) = [false, false] := by
    decide +kernel
  refine ⟨⟨hcausal, halive⟩, fun k ok hk ↦ ?_, fun ha ↦ ?_⟩
  · rw [hver] at hk
    match k, hk with
    | 0, hk => exact Option.some.inj hk
    | 1, hk => exact Option.some.inj hk
  · exact hclosed ((ha.result hm).mpr ⟨2, by rw [hreq]; decide, rfl⟩)

end Sshd.Client
