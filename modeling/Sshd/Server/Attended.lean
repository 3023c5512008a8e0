import Sshd.Server.AuthSafety
import Sshd.Server.InputDelivery
import Sshd.Server.Ledger
import Sshd.Server.SendWindow

namespace Sshd.Server

open Lib.Octets Lib.Trace Lib.Credit Wire Crypto Framing
open Relation (ReflTransGen)

/-! What the dispatch of a packet finds on record. -/

/-- The payloads that were dispatched. -/
def dispatched (obs : List Obs) : List Bytes :=
  obs.filterMap fun o ↦ match o with
    | .dispatch _ payload => some payload
    | _ => none

/-- Data came to a session that runs only. -/
def InRun (obs : List Obs) : Prop :=
  ∀ s payload, .dispatch s payload ∈ obs → payload.head? = some msgChannelData → s.phase = .run

/-- A packet is the last one that was read. What came before it is answered, and a
backend is there if the last request was for one. -/
def Attends (pre : List Obs) : Obs → Prop
  | .dispatch s payload => ∃ hs, heard (openings pre) = hs ++ [payload] ∧ InRun pre ∧
      (∀ q, answersTo q (said (frames pre)) = asked q hs) ∧
      ∀ r, lastRequest hs = some r → wantsBackend r = true → wantReply r ≠ some 0 →
        lastReply (said (frames pre)) = some msgChannelSuccess → 0 ≤ s.backendHandle
  | _ => True

structure Attended (w : World) : Prop where
  ledger : Ledger w
  each : EachAfter Attends w.obs
  inRun : w.s.phase ≠ .closed → InRun w.obs
  dispatched : dispatched w.obs = heard (openings w.obs)

section
variable {w w' : World} {ks : List UInt8}

theorem dispatched_append (obs os : List Obs) :
    dispatched (obs ++ os) = dispatched obs ++ dispatched os := List.filterMap_append

theorem dispatched_undispatched {os : List Obs} (h : ∀ o ∈ os, o.Undispatched) :
    dispatched os = [] := by
  refine List.filterMap_eq_nil_iff.mpr fun o ho ↦ ?_
  have hu := h o ho
  cases o with
  | dispatch => exact hu.elim
  | _ => rfl

theorem Answers.inRun (h : Answers ks w w') (hr : InRun w.obs) : InRun w'.obs := by
  obtain ⟨os, hobs, hos⟩ := h.calls
  intro s payload hm
  rw [hobs] at hm
  exact (List.mem_append.mp hm).elim (hr s payload) fun hm ↦ (hos _ hm).elim

theorem Answers.each (h : Answers ks w w') (he : EachAfter Attends w.obs) :
    EachAfter Attends w'.obs := by
  obtain ⟨os, hobs, hos⟩ := h.calls
  rw [hobs]
  refine eachAfter_append.mpr ⟨he, .of_forall fun o ho pre ↦ ?_⟩
  have hu := hos o ho
  cases o with
  | dispatch => exact hu.elim
  | _ => trivial

theorem Answers.dispatched (h : Answers ks w w') :
    Server.dispatched w'.obs = Server.dispatched w.obs := by
  obtain ⟨os, hobs, hos⟩ := h.calls
  rw [hobs, dispatched_append, dispatched_undispatched hos, List.append_nil]

/-- Nothing is dispatched. -/
theorem Attended.still (h : Attended w) (hl : Ledger w') (ha : Answers ks w w')
    (hp : w'.s.phase ≠ .closed → w.s.phase ≠ .closed) : Attended w' :=
  ⟨hl, ha.each h.each, fun hn ↦ ha.inRun (h.inRun (hp hn)), by
    rw [ha.dispatched, ha.openings, h.dispatched]⟩

/-- The session that has a packet to dispatch. -/
theorem Attended.unpacked (h : Attended w) (hp : w.s.phase ≠ .closed) (packet payload rest : Bytes) :
    EachAfter Attends (Server.unpacked w packet payload rest).obs ∧
      Server.dispatched (Server.unpacked w packet payload rest).obs =
        heard (openings (Server.unpacked w packet payload rest).obs) ∧
      (Guarded w.s payload → InRun (Server.unpacked w packet payload rest).obs) := by
  set o : Obs := .opened w.s.encInbound w.s.c2sKey w.s.seqIn packet payload with ho
  set s : Session := { w.s with rxBuf := rest, seqIn := w.s.seqIn + 1 } with hs
  have hobs : (Server.unpacked w packet payload rest).obs = w.obs ++ [o] ++ [.dispatch s payload] :=
    rfl
  have hinRun : InRun (w.obs ++ [o]) := by
    intro s payload hm
    refine (List.mem_append.mp hm).elim (h.inRun hp s payload) fun hm ↦ ?_
    rw [List.mem_singleton, ho] at hm
    cases hm
  have hframes : frames (w.obs ++ [o]) = frames w.obs :=
    (frames_append w.obs [o]).trans (List.append_nil _)
  have hheard : heard (openings (w.obs ++ [o])) = heard (openings w.obs) ++ [payload] := by
    rw [openings_append, heard_append]
    rfl
  have hopened : EachAfter Attends (w.obs ++ [o]) := h.each.snoc trivial
  refine ⟨?_, ?_, fun hg s' payload' hm hh ↦ ?_⟩
  · rw [hobs]
    refine hopened.snoc ⟨heard (openings w.obs), hheard, hinRun, ?_, ?_⟩
    · rw [hframes]
      exact h.ledger.paid hp
    · rw [hframes]
      exact h.ledger.attached hp
  · rw [heard_unpacked, hobs, dispatched_append, dispatched_append, h.dispatched, List.append_assoc]
    rfl
  · rw [hobs] at hm
    refine (List.mem_append.mp hm).elim (fun hm ↦ hinRun s' payload' hm hh) fun hm ↦ ?_
    rw [List.mem_singleton, Obs.dispatch.injEq] at hm
    obtain ⟨rfl, rfl⟩ := hm
    exact hg _ (by decide) hh

theorem Attended.step (h : Attended w) (hr : Replies w w') : Attended w' := by
  have hl := h.ledger.step hr
  cases hr with
  | hushed ha => exact h.still hl ha.toAnswers fun hn ↦ absurd ha.closed hn
  | utters ha =>
    refine h.still hl ha.toAnswers fun hn ↦ ?_
    have hphase : w'.s.phase = w.s.phase := congrArg Place.phase ha.place
    exact hphase ▸ hn
  | greeted hp ha _ _ => exact h.still hl ha fun _ ↦ by rw [hp]; decide
  | @packet packet payload rest ks hp ha hr =>
    obtain ⟨heach, hdispatched, hrun⟩ := h.unpacked hp.1 packet payload rest
    refine ⟨hl, ha.each heach, fun hn ↦ ?_, by rw [ha.dispatched, ha.openings, hdispatched]⟩
    obtain ⟨hc, -⟩ | ⟨-, hg, -, -⟩ := hr
    · exact absurd hc hn
    · exact ha.inRun (hrun hg)

end

section
variable (P : Primitives) (i : ℤ) (env : Env)

theorem attended_run {tcp : ℤ} (ht : 0 ≤ tcp) (events : List Event) :
    Attended (runFrom P i (accepted i env tcp) events) := by
  induction events using List.reverseRecOn with
  | nil =>
    have hfresh : Attended (fresh i env tcp) :=
      ⟨ledger_fresh i env ht, eachAfter_singleton.mpr trivial, fun _ _ _ hm ↦
        (Obs.noConfusion (List.mem_singleton.mp hm)), rfl⟩
    exact hfresh.step (.utters (fresh_accepted i env tcp))
  | append_singleton events e ih =>
    rw [runFrom_snoc]
    exact step_replies (fun _ h ↦ h.ledger.up) (fun _ _ h hr _ ↦ h.step hr) ih i e

end

/-! Who is let in. -/

/-- A client that was let in has proved who it is. -/
structure Admits (P : Primitives) (env : Env) (w : World) : Prop where
  auth : AuthInv P env w
  admitted : msgUserauthSuccess ∈ replies (said (frames w.obs)) → Authenticated P env w.obs

section
variable {P : Primitives} {i : ℤ} {env : Env} {w w' : World}

theorem Authenticated.grow {obs obs' : List Obs} (h : Authenticated P env obs) (hg : obs <+: obs') :
    Authenticated P env obs' := by
  obtain ⟨os, rfl⟩ := hg
  exact h.append os

theorem Admits.step (h : Admits P env w) (hr : Replies w w') (hm : ReflTransGen (Move P) w w') :
    Admits P env w' := by
  have hkept : AuthInv P env w' ∧ w.obs <+: w'.obs := by
    clear hr
    induction hm with
    | refl => exact ⟨h.auth, List.prefix_rfl⟩
    | tail _ hm ih => exact ⟨ih.1.step hm, ih.2.trans (hm.obs_grows P)⟩
  obtain ⟨hauth, hgrow⟩ := hkept
  refine ⟨hauth, fun hs ↦ ?_⟩
  have hold (hs : msgUserauthSuccess ∈ replies (said (frames w.obs))) : Authenticated P env w'.obs :=
    (h.admitted hs).grow hgrow
  cases hr with
  | hushed ha =>
    rw [ha.replies, List.append_nil] at hs
    exact hold hs
  | utters ha =>
    rw [ha.replies, List.append_nil] at hs
    exact hold hs
  | greeted _ ha _ _ =>
    rw [ha.replies] at hs
    exact (List.mem_append.mp hs).elim hold fun hm ↦ absurd hm (by decide)
  | packet _ ha hr =>
    rw [ha.replies, frames_unpacked] at hs
    obtain hs | hs := List.mem_append.mp hs
    · exact hold hs
    obtain ⟨-, rfl⟩ | ⟨-, -, hrun, -⟩ := hr
    · cases hs
    · exact hauth.run (hrun hs)

theorem admits_run {tcp : ℤ} (ht : 0 ≤ tcp) (events : List Event) :
    Admits P env (runFrom P i (accepted i env tcp) events) := by
  have hrun : Ledger (runFrom P i (accepted i env tcp) events) ∧
      Admits P env (runFrom P i (accepted i env tcp) events) := by
    induction events using List.reverseRecOn with
    | nil =>
      refine ⟨ledger_run P i env ht [], authInv_accepted i tcp, fun hs ↦ ?_⟩
      change msgUserauthSuccess ∈ replies (said (frames (accepted i env tcp).obs)) at hs
      rw [(fresh_accepted i env tcp).replies] at hs
      cases hs
    | append_singleton events e ih =>
      rw [runFrom_snoc]
      exact step_replies (fun w (h : Ledger w ∧ Admits P env w) ↦ h.1.up)
        (fun _ _ h hr hm ↦ ⟨h.1.step hr, h.2.step hr hm⟩) ih i e
  exact hrun.2

end

/-! What goes to the client. -/

/-- Window is granted by these two messages only. -/
theorem grant_head {s : Session} {payload : Bytes} (h : grant s payload ≠ 0) :
    payload.head? = some msgChannelOpen ∨ payload.head? = some msgChannelWindowAdjust := by
  unfold grant at h
  split at h
  · exact absurd rfl h
  split at h
  · cases ha : windowAdjust payload with
    | none =>
      rw [ha] at h
      exact absurd rfl h
    | some add => exact .inr (windowAdjust_head ha)
  · cases ho : openRequest payload with
    | none =>
      rw [ho] at h
      exact absurd rfl h
    | some r => exact .inl (openRequest_head ho)

theorem mem_dispatched {obs : List Obs} {s : Session} {payload : Bytes}
    (h : .dispatch s payload ∈ obs) : payload ∈ dispatched obs :=
  List.mem_filterMap.mpr ⟨_, h, rfl⟩

/-- Without a window no data is sent. -/
theorem sentData_eq_nil {w : World} (ha : Attended w) (hs : SendInv w)
    (hn : ∀ p ∈ heard (openings w.obs), p.head? ≠ some msgChannelOpen ∧
      p.head? ≠ some msgChannelWindowAdjust) : w.obs.flatMap sentData = [] := by
  have hzero (pre : List Obs) (hpre : pre <+: w.obs) : tally granted pre = 0 := by
    refine tally_eq_zero fun o ho ↦ ?_
    cases o with
    | dispatch s payload =>
      by_contra hg
      have hm := hn payload (ha.dispatched ▸ mem_dispatched (hpre.subset ho))
      exact (grant_head hg).elim hm.1 hm.2
    | _ => rfl
  refine List.flatMap_eq_nil_iff.mpr fun o ho ↦ ?_
  obtain ⟨pre, post, hobs⟩ := List.append_of_mem ho
  by_contra hd
  have hle := hs.backed.within pre o post hobs (List.length_pos_iff.mpr hd)
  rw [hzero pre ⟨_, hobs.symm⟩] at hle
  have hpos : 0 < spent o := List.length_pos_iff.mpr hd
  omega

theorem sendInv_run (P : Primitives) (env : Env) (slot tcp : ℕ) (events : List Event) :
    SendInv (runFrom P slot (accepted slot env tcp) events) :=
  (turn_induction P (fun w ↦ Up w.s ∧ SendInv w)
    (fun _ _ h ht ↦ ⟨h.1.moves P (ht.moves P), h.2.turn h.1 ht⟩) slot tcp
    ⟨up_accepted slot env tcp, sendInv_accepted slot env tcp⟩ events).2

/-! What comes from the client. -/

theorem backendRequest_head {payload : Bytes} {r : ChanKind × CliMode × Bytes}
    (h : backendRequest payload = some r) : payload.head? = some msgChannelRequest := by
  cases payload with
  | nil => cases h
  | cons type body =>
    by_cases ht : type = msgChannelRequest
    · rw [ht]
      rfl
    · rw [backendRequest, if_pos ht] at h
      cases h

/-- The bytes of a data message. -/
def dataBytes (payload : Bytes) : Bytes := (dataPayload payload).getD []

/-- The data that came to a running session. -/
def fed (obs : List Obs) : Bytes :=
  obs.flatMap fun o ↦ match o with
    | .dispatch s payload => if s.phase = .run then dataBytes payload else []
    | _ => []

section
variable {obs : List Obs}

theorem dataBytes_of_head {payload : Bytes} (h : payload.head? ≠ some msgChannelData) :
    dataBytes payload = [] := by
  cases hd : dataPayload payload with
  | none => rw [dataBytes, hd]; rfl
  | some d => exact absurd (dataPayload_head hd) h

theorem fed_append (obs os : List Obs) : fed (obs ++ os) = fed obs ++ fed os := List.flatMap_append

theorem fed_inRun (h : InRun obs) : fed obs = (dispatched obs).flatMap dataBytes := by
  induction obs using List.reverseRecOn with
  | nil => rfl
  | append_singleton obs o ih =>
    have hold : InRun obs := fun s p hm ↦ h s p (List.mem_append_left _ hm)
    rw [fed_append, dispatched_append, List.flatMap_append, ih hold]
    refine congrArg _ ?_
    cases o with
    | dispatch s payload =>
      have hone : (if s.phase = .run then dataBytes payload else []) = dataBytes payload := by
        split
        · rfl
        · rename_i hn
          exact (dataBytes_of_head fun hh ↦ hn (h s payload (by simp) hh)).symm
      rw [fed, List.flatMap_singleton]
      exact hone.trans (List.flatMap_singleton _ _).symm
    | _ => rfl

/-- The data of a session is the first of what it was sent. -/
theorem fed_prefix (h : EachAfter Attends obs) : fed obs <+: (dispatched obs).flatMap dataBytes := by
  induction obs using List.reverseRecOn with
  | nil => exact List.nil_prefix
  | append_singleton obs o ih =>
    have hold := (eachAfter_append.mp h).1
    rw [fed_append, dispatched_append, List.flatMap_append]
    cases o with
    | dispatch s payload =>
      obtain ⟨-, -, hrun, -⟩ := h obs _ [] rfl
      rw [fed_inRun hrun, List.prefix_append_right_inj, fed, List.flatMap_singleton]
      change (if s.phase = .run then dataBytes payload else []) <+: _
      split
      · exact (List.flatMap_singleton dataBytes payload).symm ▸ List.prefix_rfl
      · exact List.nil_prefix
    | _ =>
      change fed obs ++ [] <+: _ ++ []
      rw [List.append_nil, List.append_nil]
      exact ih hold

/-- Where a backend is there for all data, and no command is run, the backends get what
the session is fed. -/
theorem received_fed (hb : ∀ s payload, .dispatch s payload ∈ obs → s.phase = .run →
      payload.head? = some msgChannelData → 0 ≤ s.backendHandle)
    (hx : ∀ s payload, .dispatch s payload ∈ obs →
      ∀ line, backendRequest payload ≠ some (.cli, .line, line)) :
    (feed obs).1 = none ∧ (received obs).flatMap Prod.snd = fed obs := by
  induction obs using List.reverseRecOn with
  | nil => exact ⟨rfl, rfl⟩
  | append_singleton obs o ih =>
    obtain ⟨hnone, hfed⟩ := ih (fun s p hm ↦ hb s p (List.mem_append_left _ hm))
      fun s p hm ↦ hx s p (List.mem_append_left _ hm)
    rw [received, feed_snoc, fed_append]
    cases o with
    | dispatch s payload =>
      have hm : Obs.dispatch s payload ∈ obs ++ [.dispatch s payload] := by simp
      have hone : fed [.dispatch s payload] = if s.phase = .run then dataBytes payload else [] :=
        List.flatMap_singleton _ _
      rw [hone]
      by_cases hp : s.phase = .run
      swap
      · rw [feedAfter_other _ (fun h ↦ absurd h hp) fun h ↦ absurd h hp, if_neg hp, List.append_nil]
        exact ⟨rfl, hfed⟩
      rw [if_pos hp]
      cases hd : dataPayload payload with
      | none =>
        rw [feedAfter_other _ (fun _ ↦ hd) fun _ ↦ hx s payload hm, dataBytes, hd]
        exact ⟨rfl, hfed.trans (List.append_nil _).symm⟩
      | some d =>
        rw [feedAfter_data _ hp hd, if_pos (hb s payload hm hp (dataPayload_head hd)), dataBytes, hd]
        refine ⟨rfl, ?_⟩
        rw [List.flatMap_append, List.flatMap_singleton]
        exact congrArg (· ++ d) hfed
    | itsConnect backend ref handle' handle =>
      rw [feedAfter, hnone]
      exact ⟨hnone, hfed.trans (List.append_nil _).symm⟩
    | _ => exact ⟨hnone, hfed.trans (List.append_nil _).symm⟩

end

theorem offers_run (P : Primitives) (i : ℤ) (env : Env) (tcp : ℤ) (events : List Event) :
    Offers (runFrom P i (accepted i env tcp) events) := by
  obtain ⟨w, hq, -, hobs, -⟩ := accepted_tame i env tcp
  have hw : Offers w := by
    rw [Offers, hobs]
    rfl
  exact run_induction P i Offers (fun _ _ h hm ↦ h.step hm) (hw.quiet hq) events

end Sshd.Server
