import Sshd.Server.Runs

namespace Sshd.Server

open Lib.Octets Lib.Trace Wire Crypto

variable {P : Primitives} {env : Env}

/-- What the peer may still send, from the messages alone: the initial window
of the open confirmation, the adjustments sent since, less the data received. -/
def creditAfter (credit : ℤ) : Obs → ℤ
  | .sealed f =>
    if f.payload.head? = some msgChannelOpenConfirm then localWindowMax.toNat
    else if f.payload.head? = some msgChannelWindowAdjust then credit + ofBe32 (f.payload.drop 5)
    else credit
  | .dispatch s payload =>
    if s.phase = .run ∧ s.chanOpen = true then
      credit - ((dataPayload payload).getD []).length
    else credit
  | _ => credit

def credit (obs : List Obs) : ℤ := obs.foldl creditAfter 0

/-- A data message on an open channel within the peer's credit. -/
def WithinCredit (pre : List Obs) : Obs → Prop
  | .dispatch s payload =>
    s.phase = .run → s.chanOpen = true →
      ∀ d ∈ dataPayload payload, (d.length : ℤ) ≤ credit pre
  | _ => True

/-- The peer has sent no more than it was granted. -/
def Respects (obs : List Obs) : Prop := EachAfter WithinCredit obs

/-- How many bytes of a data message the backend takes, none if there is no backend. -/
def takes (env : Env) (obs : List Obs) (s : Session) (d : Bytes) : ℕ :=
  if s.backendHandle < 0 then 0
  else min (env.itsSend obs .backend s.backendHandle d) d.length

/-- For an open channel the counter is the peer's credit, as long as the peer
respects it, and in any case no more than the full window. -/
def WindowExact (w : World) : Prop :=
  w.s.chanOpen = true →
    (Respects w.obs → (w.s.localWindow.toNat : ℤ) = credit w.obs) ∧
      w.s.localWindow ≤ localWindowMax

/-- Of a data message on an open channel the backend takes no more than the
window holds, and all of it while the peer respects the window. -/
def TakenInWindow (env : Env) (pre : List Obs) : Obs → Prop
  | .dispatch s payload =>
    s.phase = .run → s.chanOpen = true → ∀ d ∈ dataPayload payload,
      takes env (pre ++ [.dispatch s payload]) s d ≤ s.localWindow.toNat ∧
        (Respects (pre ++ [.dispatch s payload]) →
          takes env (pre ++ [.dispatch s payload]) s d = d.length)
  | _ => True

def WindowKept (env : Env) (obs : List Obs) : Prop := EachAfter (TakenInWindow env) obs

instance (pre : List Obs) (o : Obs) : Decidable (WithinCredit pre o) := by
  unfold WithinCredit
  split <;> infer_instance

instance (obs : List Obs) : Decidable (Respects obs) :=
  inferInstanceAs (Decidable (EachAfter WithinCredit obs))

instance (env : Env) (pre : List Obs) (o : Obs) : Decidable (TakenInWindow env pre o) := by
  unfold TakenInWindow
  split <;> infer_instance

instance (env : Env) (obs : List Obs) : Decidable (WindowKept env obs) :=
  inferInstanceAs (Decidable (EachAfter (TakenInWindow env) obs))

theorem credit_snoc (obs : List Obs) (o : Obs) :
    credit (obs ++ [o]) = creditAfter (credit obs) o := by
  rw [credit, List.foldl_append]
  rfl

theorem Respects.of_append {obs os : List Obs} (h : Respects (obs ++ os)) : Respects obs :=
  (eachAfter_append.mp h).1

theorem WindowKept.earlier {obs obs' : List Obs} (h : WindowKept env obs')
    (hp : obs <+: obs') : WindowKept env obs := by
  obtain ⟨os, rfl⟩ := hp
  exact (eachAfter_append.mp h).1

/-- Calls that do not change the peer's credit. -/
def Obs.Creditless : Obs → Prop
  | .dispatch _ _ => False
  | .sealed f => Windowless f.payload
  | _ => True

theorem Obs.Calm.creditless {o : Obs} (h : o.Calm) : o.Creditless := by
  cases o <;> first | exact h | exact h.elim | trivial

theorem credit_creditless {obs os : List Obs} (h : ∀ o ∈ os, o.Creditless) :
    credit (obs ++ os) = credit obs := by
  induction os generalizing obs with
  | nil => rw [List.append_nil]
  | cons o os ih =>
    have ho := h o List.mem_cons_self
    rw [List.append_cons, ih fun o' ho' ↦ h o' (List.mem_cons_of_mem o ho'), credit_snoc]
    cases o with
    | dispatch => exact ho.elim
    | sealed f => rw [creditAfter, if_neg ho.1, if_neg ho.2]
    | _ => rfl

/-- The invariant of an accepted session. -/
structure WindowInv (env : Env) (w : World) : Prop where
  answers : w.env = env
  linked : w.s.phase ≠ .closed → 0 ≤ w.s.tcp
  exact : WindowExact w

section
variable {w w' : World} {os : List Obs}

theorem WindowInv.grow (h : WindowInv env w) (henv : w'.env = w.env) (hobs : w'.obs = w.obs ++ os)
    (hos : ∀ o ∈ os, o.Creditless) (htcp : w'.s.tcp = w.s.tcp)
    (hphase : w.s.phase = .closed → w'.s.phase = .closed)
    (hwin : w'.s.localWindow = w.s.localWindow) (hopen : w'.s.chanOpen = w.s.chanOpen) :
    WindowInv env w' where
  answers := henv.trans h.answers
  linked hp := by
    rw [htcp]
    exact h.linked fun hc ↦ hp (hphase hc)
  exact hc := by
    obtain ⟨hexact, hbound⟩ := h.exact (hopen ▸ hc)
    rw [hwin, hobs]
    refine ⟨fun hr ↦ ?_, hbound⟩
    rw [credit_creditless hos]
    exact hexact hr.of_append

theorem WindowInv.quiet (h : WindowInv env w) (hq : Tame w w') : WindowInv env w' := by
  obtain ⟨os, hobs, hcalm⟩ := hq.obs
  exact h.grow hq.env hobs (fun o ho ↦ (hcalm o ho).creditless) hq.tcp
    (fun hp ↦ hq.phase.trans hp) hq.localWindow hq.chanOpen

theorem WindowInv.hangUp (h : WindowInv env w) : WindowInv env (hangUp w) :=
  h.grow rfl rfl (by simp [Obs.Creditless]) rfl (fun _ ↦ rfl) rfl rfl

theorem WindowInv.unopened (h : WindowInv env w) (henv : w'.env = w.env)
    (hlinked : w'.s.phase ≠ .closed → w.s.phase ≠ .closed ∧ w'.s.tcp = w.s.tcp)
    (hopen : w'.s.chanOpen = false) : WindowInv env w' where
  answers := henv.trans h.answers
  linked hp := by
    obtain ⟨hp', htcp⟩ := hlinked hp
    rw [htcp]
    exact h.linked hp'
  exact hc := by
    rw [hopen] at hc
    cases hc

theorem WindowInv.dropBackend (h : WindowInv env w) : WindowInv env (dropBackend w) := by
  have hs := dropBackend_s w
  refine h.grow (dropBackend_env w) (dropBackend_obs w) ?_ (by rw [hs]) (by rw [hs]; exact id)
    (by rw [hs]) (by rw [hs])
  unfold dropObs
  split <;> simp [Obs.Creditless]

/-- A session that is up seals what it sends. -/
theorem sendPacket_obs_up (h : w.s.phase ≠ .closed) (ht : 0 ≤ w.s.tcp) (payload : Bytes) :
    ∃ f data took, f.payload = payload ∧ (sendPacket P w payload).obs =
      w.obs ++ [.random f.pad] ++ [.sealed f] ++ [.itsSend .tcp w.s.tcp data took] := by
  have hup : ¬(w.s.phase = .closed ∨ w.s.tcp < 0) := by
    rintro (hc | hc)
    · exact h hc
    · exact absurd ht (not_le.mpr hc)
  rw [sendPacket_obs, sendObs, if_neg hup]
  exact ⟨sendFrame w payload, _, _, rfl, by simp only [List.append_assoc]; rfl⟩

theorem credit_send (w : World) (h : w.s.phase ≠ .closed) (ht : 0 ≤ w.s.tcp) (payload : Bytes) :
    credit (sendPacket P w payload).obs =
      if payload.head? = some msgChannelOpenConfirm then (localWindowMax.toNat : ℤ)
      else if payload.head? = some msgChannelWindowAdjust then
        credit w.obs + ofBe32 (payload.drop 5)
      else credit w.obs := by
  obtain ⟨_, _, _, rfl, hobs⟩ := sendPacket_obs_up (P := P) h ht payload
  rw [hobs, credit_snoc, credit_snoc, credit_snoc]
  rfl

theorem WindowInv.openChannel (h : WindowInv env w) (hp : w.s.phase = .run)
    (peerCh peerWin peerMax : UInt32) :
    WindowInv env (sendChannelOpenConfirm P (openChannel w peerCh peerWin peerMax)) := by
  have hup : (Server.openChannel w peerCh peerWin peerMax).s.phase ≠ .closed := by
    change w.s.phase ≠ .closed
    rw [hp]
    nofun
  have ht : 0 ≤ (Server.openChannel w peerCh peerWin peerMax).s.tcp := h.linked hup
  refine ⟨?_, fun _ ↦ ?_, fun _ ↦ ⟨fun _ ↦ ?_, ?_⟩⟩
  · rw [sendChannelOpenConfirm, sendPacket_env]
    exact h.answers
  · rw [sendChannelOpenConfirm, sendPacket_s]
    exact ht
  · rw [sendChannelOpenConfirm, credit_send _ hup ht, if_pos, sendPacket_s]
    · rfl
    · simp [putU8, putU32]
  · rw [sendChannelOpenConfirm, sendPacket_s]
    exact UInt32.le_refl localWindowMax

/-! The arithmetic of the counter. -/

theorem usedWindow_toNat {s : Session} {n : ℕ} (h : n ≤ s.localWindow.toNat) :
    (usedWindow s n).toNat = s.localWindow.toNat - n := by
  have hlt := s.localWindow.toNat_lt
  have hn : (UInt32.ofNat n).toNat = n := by
    rw [UInt32.toNat_ofNat']
    omega
  unfold usedWindow
  split
  · have hle : UInt32.ofNat n ≤ s.localWindow := by
      rw [UInt32.le_iff_toNat_le, hn]
      exact h
    rw [UInt32.toNat_sub_of_le _ _ hle, hn]
  · omega

theorem localWindowMax_toNat : localWindowMax.toNat = 32768 := rfl

/-- An adjustment fills the window up again. -/
theorem adjustment_fills {s : Session} {n : ℕ}
    (h : 0 < n ∧ usedWindow s n < localWindowMax / 2) :
    usedWindow s n + adjustment s n = localWindowMax ∧
      (adjustment s n).toNat = localWindowMax.toNat - (usedWindow s n).toNat := by
  have hhalf : (localWindowMax / 2).toNat = 16384 := rfl
  have hlt := UInt32.lt_iff_toNat_lt.mp h.2
  have hle : usedWindow s n ≤ localWindowMax := by
    rw [UInt32.le_iff_toNat_le, localWindowMax_toNat]
    omega
  rw [adjustment, if_pos h]
  exact ⟨by rw [UInt32.add_comm, UInt32.sub_add_cancel], UInt32.toNat_sub_of_le _ _ hle⟩

theorem channelWindowAdjust_amount (s : Session) (add : UInt32) :
    ofBe32 ((channelWindowAdjust s add).drop 5) = add.toNat := by
  have hd : (channelWindowAdjust s add).drop 5 = be32 add.toNat := rfl
  rw [hd, ofBe32_be32]
  exact Nat.mod_eq_of_lt add.toNat_lt

/-- The backend took `n` of `len` bytes that have been taken off the credit. -/
theorem windowInv_replenish (henv : w.env = env) (hp : w.s.phase ≠ .closed) (ht : 0 ≤ w.s.tcp)
    {n len : ℕ} {pre : List Obs} (hpre : pre <+: w.obs) (hn : n ≤ w.s.localWindow.toNat)
    (hbound : w.s.localWindow ≤ localWindowMax)
    (hexact : Respects pre →
      n = len ∧ credit w.obs = (w.s.localWindow.toNat : ℤ) - len) :
    WindowInv env (replenish P w n) := by
  have hc := replenish_control P w n
  have htcp : (replenish P w n).s.tcp = w.s.tcp := congrArg Control.tcp hc
  have hwin : (replenish P w n).s.localWindow = usedWindow w.s n + adjustment w.s n :=
    congrArg Control.localWindow hc
  have hused := usedWindow_toNat hn
  have hmax := localWindowMax_toNat
  rw [UInt32.le_iff_toNat_le] at hbound
  obtain ⟨os', hos'⟩ := hpre
  obtain ⟨os, hobs, -⟩ := replenish_obs P w n
  have hpre : Respects (replenish P w n).obs → Respects pre := by
    rw [hobs, ← hos', List.append_assoc]
    exact Respects.of_append
  refine ⟨(replenish_env P w n).trans henv, fun _ ↦ htcp ▸ ht, fun _ ↦ ?_⟩
  by_cases hadj : 0 < n ∧ usedWindow w.s n < localWindowMax / 2
  · obtain ⟨hfull, hamount⟩ := adjustment_fills hadj
    rw [hwin, hfull]
    refine ⟨fun hr ↦ ?_, UInt32.le_refl _⟩
    obtain ⟨rfl, hcredit⟩ := hexact (hpre hr)
    have hle := UInt32.lt_iff_toNat_lt.mp hadj.2
    have hhalf : (localWindowMax / 2).toNat = 16384 := rfl
    rw [replenish_adjust P hadj, sendChannelWindowAdjust,
      credit_send (w.modify fun s ↦ { s with localWindow := usedWindow s n + adjustment s n }) hp ht,
      channelWindowAdjust_amount, modify_obs, hcredit, if_neg, if_pos]
    · omega
    · rfl
    · simp [channelWindowAdjust, putU8, putU32, msgChannelWindowAdjust, msgChannelOpenConfirm]
  · have hnone : adjustment w.s n = 0 := if_neg hadj
    rw [hwin, hnone, UInt32.add_zero]
    refine ⟨fun hr ↦ ?_, ?_⟩
    · obtain ⟨rfl, hcredit⟩ := hexact (hpre hr)
      rw [replenish_none P hadj, modify_obs, hcredit]
      omega
    · rw [UInt32.le_iff_toNat_le]
      omega

/-! Dispatching a packet. -/

theorem WindowInv.dispatched (h : WindowInv env w) {payload : Bytes}
    (hd : w.s.phase = .run → w.s.chanOpen = true → dataPayload payload = none) :
    WindowInv env (w.note (.dispatch w.s payload)) where
  answers := h.answers
  linked := h.linked
  exact hc := by
    obtain ⟨hexact, hbound⟩ := h.exact hc
    refine ⟨fun hr ↦ ?_, hbound⟩
    rw [note_obs, credit_snoc, creditAfter]
    split
    · rename_i hrun
      rw [hd hrun.1 hrun.2, Option.getD_none, List.length_nil, Int.natCast_zero, sub_zero]
      exact hexact hr.of_append
    · exact hexact hr.of_append

theorem WindowInv.data (h : WindowInv env w) {payload d : Bytes} (hp : w.s.phase = .run)
    (hc : w.s.chanOpen = true) (hd : dataPayload payload = some d)
    (hk : WindowKept env (w.obs ++ [.dispatch w.s payload])) (slot : ℤ) :
    WindowInv env (dispatchPacket P w payload slot).1 := by
  obtain ⟨hle, hall⟩ := hk w.obs _ [] rfl hp hc d hd
  obtain ⟨hexact, hbound⟩ := h.exact hc
  have hup : w.s.phase ≠ .closed := by
    rw [hp]
    nofun
  have hcredit : credit (w.obs ++ [.dispatch w.s payload]) = credit w.obs - d.length := by
    rw [credit_snoc, creditAfter, if_pos ⟨hp, hc⟩, hd, Option.getD_some]
  rw [dispatchPacket_data P slot hp hd]
  split
  · rename_i hb
    rw [takes, if_pos hb] at hall
    refine ⟨h.answers, h.linked, fun _ ↦ ⟨fun hr ↦ ?_, hbound⟩⟩
    rw [note_obs, hcredit, ← hexact hr.of_append, ← hall hr]
    simp
  · rename_i hb
    have htook : (itsSend (w.note (.dispatch w.s payload)) .backend w.s.backendHandle d).1 =
        takes env (w.obs ++ [.dispatch w.s payload]) w.s d := by
      rw [takes, if_neg hb, ← h.answers]
      rfl
    have hsent : credit (itsSend (w.note (.dispatch w.s payload)) .backend w.s.backendHandle d).2.obs =
        credit w.obs - d.length := by
      change credit (w.obs ++ [.dispatch w.s payload] ++ [_]) = _
      rw [credit_snoc]
      exact hcredit
    have hs₂ : (itsSend (w.note (.dispatch w.s payload)) .backend w.s.backendHandle d).2.s = w.s :=
      rfl
    have he₂ : (itsSend (w.note (.dispatch w.s payload)) .backend w.s.backendHandle d).2.env =
        w.env := rfl
    have hpre₂ : w.obs ++ [.dispatch w.s payload] <+:
        (itsSend (w.note (.dispatch w.s payload)) .backend w.s.backendHandle d).2.obs :=
      List.prefix_append _ _
    rw [htook]
    generalize (itsSend (w.note (.dispatch w.s payload)) .backend w.s.backendHandle d).2 = w₂
      at hsent hs₂ he₂ hpre₂ ⊢
    refine windowInv_replenish (he₂.trans h.answers) (by rwa [hs₂]) (by rw [hs₂]; exact h.linked hup)
      hpre₂ (by rwa [hs₂]) (by rwa [hs₂]) fun hr ↦ ⟨hall hr, ?_⟩
    rw [hsent, hs₂, hexact hr.of_append]

theorem WindowInv.outcome (h : WindowInv env w) {payload : Bytes} {slot : ℤ}
    (hd : w.s.phase = .run → w.s.chanOpen = true → dataPayload payload = none)
    (ho : Outcome P slot w payload w') : WindowInv env w' := by
  have hrun : ∀ {p : Phase}, w.s.phase = p → p ≠ .closed → w.s.phase ≠ .closed :=
    fun hp hne hc ↦ hne (hp.symm.trans hc)
  cases ho with
  | quiet hq => exact h.quiet hq.toTame
  | hangUp hq => exact (h.quiet hq.toTame).hangUp
  | kexinit alg ht hp hs =>
    refine h.grow rfl (List.append_nil _).symm (by simp) rfl (fun hc ↦ ?_) rfl rfl
    rcases hp with hp | hp <;> cases hp.symm.trans hc
  | @exchange w₁ _ ht hp hash hq hq' =>
    have hs := adoptHash_s w₁ hash
    have hadopt : WindowInv env (adoptHash w₁ hash) :=
      (h.quiet hq.toTame).grow (adoptHash_env w₁ hash) (adoptHash_obs w₁ hash)
        (by simp [Obs.Creditless]) (by rw [hs]) (by rw [hs]; exact id) (by rw [hs]) (by rw [hs])
    refine (hadopt.quiet hq'.toTame).grow rfl rfl (by simp [Obs.Creditless]) rfl (fun hc ↦ ?_) rfl rfl
    rw [hq'.phase, hs, hq.phase, hp] at hc
    cases hc
  | newkeys ht hp =>
    refine h.grow rfl (List.append_nil _).symm (by simp) rfl (fun hc ↦ ?_) rfl rfl
    cases hp.symm.trans hc
  | success hp hj hq =>
    refine (h.quiet hq.toTame).grow rfl (List.append_nil _).symm (by simp) rfl (fun hc ↦ ?_) rfl rfl
    rw [hq.phase, hp] at hc
    cases hc
  | chanOpen hp hc peerCh peerWin peerMax => exact h.openChannel hp peerCh peerWin peerMax
  | @backend w₁ _ hp b hr hq hq' =>
    have hconnect : WindowInv env (connectBackend w₁ b slot) :=
      (h.quiet hq.toTame).grow rfl rfl (by simp [Obs.Creditless]) rfl id rfl rfl
    exact hconnect.quiet hq'.toTame
  | @exec w₁ _ hp b line hr hq hq' hh =>
    have hconnect : WindowInv env (connectBackend w₁ b slot) :=
      (h.quiet hq.toTame).grow rfl rfl (by simp [Obs.Creditless]) rfl id rfl rfl
    exact (hconnect.quiet hq'.toTame).grow rfl rfl (by simp [Obs.Creditless]) rfl id rfl rfl
  | data hp d hdata hb =>
    have hclosed : w.s.chanOpen = false := by
      rw [Bool.eq_false_iff]
      intro hc
      rw [hd hp hc] at hdata
      cases hdata
    have hc := replenish_control P (itsSend w .backend w.s.backendHandle d).2
      (itsSend w .backend w.s.backendHandle d).1
    exact h.unopened (replenish_env P _ _)
      (fun _ ↦ ⟨hrun hp nofun, congrArg Control.tcp hc⟩) ((congrArg Control.chanOpen hc).trans hclosed)
  | chanClose hc hq => exact h.unopened (hq.env.trans (dropBackend_env w)) (fun hp ↦ absurd rfl hp) rfl

end

theorem WindowInv.packet {w w₁ : World} {payload : Bytes} (h : WindowInv env w)
    (hw : parsePacket P w = .got payload w₁)
    (hk : WindowKept env (dispatchPacket P w₁ payload w₁.s.slot).1.obs) :
    WindowInv env (dispatchPacket P w₁ payload w₁.s.slot).1 := by
  have h₁ : WindowInv env w₁ := by
    obtain ⟨packet, rest, -, rfl⟩ := parsePacket_got P hw
    exact h.grow rfl rfl (by simp [Obs.Creditless]) rfl id rfl rfl
  have ho := dispatchPacket_outcome P w₁ payload w₁.s.slot
  by_cases hdata : w₁.s.phase = .run ∧ w₁.s.chanOpen = true ∧ dataPayload payload ≠ none
  · obtain ⟨hp, hc, hne⟩ := hdata
    obtain ⟨d, hd⟩ := Option.ne_none_iff_exists'.mp hne
    exact h₁.data hp hc hd (hk.earlier (ho.obs_grows P)) w₁.s.slot
  · have hnone : w₁.s.phase = .run → w₁.s.chanOpen = true → dataPayload payload = none :=
      fun hp hc ↦ not_not.mp fun hne ↦ hdata ⟨hp, hc, hne⟩
    exact (h₁.dispatched hnone).outcome hnone ho

theorem WindowInv.step {w w' : World} (h : WindowInv env w) (hm : Move P w w')
    (hk : WindowKept env w'.obs) : WindowInv env w' := by
  cases hm with
  | quiet hq => exact h.quiet hq.toTame
  | versionDone hp hq =>
    refine (h.quiet hq.toTame).grow rfl (List.append_nil _).symm (by simp) rfl (fun hc ↦ ?_) rfl rfl
    rw [hq.phase, hp] at hc
    cases hc
  | hangUp hq => exact (h.quiet hq.toTame).hangUp
  | packet hp hw => exact h.packet hw hk
  | dropBackend => exact h.dropBackend
  | chanShut hb => exact h.unopened rfl (fun hp ↦ ⟨hp, rfl⟩) rfl
  | teardown hb => exact h.unopened (dropTcp_env w) (fun hp ↦ absurd rfl hp) rfl
  | freeSlot hp hc hb =>
    have hs := freeSlot_s w
    exact h.grow (freeSlot_env w) (by rw [freeSlot_obs, List.append_nil]) (by simp) (by rw [hs])
      (by rw [hs]; exact id) (by rw [hs]) (by rw [hs])

theorem windowInv_accepted (i : ℤ) (tcp : ℕ) : WindowInv env (accepted i env tcp) := by
  obtain ⟨w, hq, henv, hobs, hs⟩ := accepted_tame i env tcp
  have hw : WindowInv env w := by
    refine ⟨henv, fun _ ↦ ?_, ?_⟩
    · rw [hs]
      exact Int.natCast_nonneg tcp
    · intro hc
      rw [hs] at hc
      cases hc
  exact hw.quiet hq

/-- When backends take every data message, and never more than the window
holds, the receive window is accounted for in every run. -/
theorem window_exact (P : Primitives) (env : Env) (i : ℤ) (tcp : ℕ) (events : List Event)
    (hk : WindowKept env (runFrom P i (accepted i env tcp) events).obs) :
    WindowExact (runFrom P i (accepted i env tcp) events) := by
  have h := run_induction P i (fun w ↦ WindowKept env w.obs → WindowInv env w)
    (fun w w' h hm hk ↦ (h (hk.earlier (hm.obs_grows P))).step hm hk)
    (fun _ ↦ windowInv_accepted i tcp) events hk
  exact h.exact

theorem window_exact_shell :
    WindowExact (sampleRun sampleEnv
      [clientChannelOpen 4096 1024, clientShell, clientData (ascii "ls")]) := by
  refine window_exact standIn sampleEnv 0 3 [.tcpArrive (clientBytes
    [clientChannelOpen 4096 1024, clientShell, clientData (ascii "ls")]), .tcpRecv] ?_
  decide +kernel

/-- Data that comes before there is a backend is lost to the counter. -/
theorem data_without_backend : ¬WindowExact
    (sampleRun sampleEnv [clientChannelOpen 4096 1024, clientData (ascii "ls")]) := by
  intro h
  have hr : Respects
      (sampleRun sampleEnv [clientChannelOpen 4096 1024, clientData (ascii "ls")]).obs := by
    decide +kernel
  have hw := (h (by decide +kernel)).1 hr
  exact absurd hw (by decide +kernel)

end Sshd.Server
