import Sshd.Client.Moves

namespace Sshd.Client

open Lib.Octets Lib.Trace Wire Crypto Framing
open Relation (ReflTransGen)

variable (P : Primitives)

/-! What each place does with a return of `recv_packet`. -/

/-- A session that goes on in its stage or ends. -/
def Settles (w w' : World) : Prop := Quiet P w w' ∨ Over P w w'

section
variable {P} {w w₁ w' : World}

theorem Settles.after (h : Settles P w₁ w') (hq : Quiet P w w₁) : Settles P w w' := by
  rcases h with h | h
  · exact .inl (hq.trans h)
  · exact .inr (h.after hq)

theorem Settles.giveUp (w : World) (msg : Bytes) : Settles P w (giveUp w msg) :=
  .inr (giveUp_over w msg)

theorem Settles.outcome {t : ℤ} {pkt : Bytes} (h : Settles P w w')
    (hk : (kindOf w.pc t pkt).Windowless) : Outcome P w t pkt w' := by
  rcases h with h | h
  · exact .quiet hk h
  · exact .gaveUp h

theorem Quiet.sendGoto {payload : Bytes} {pc : Pc} (hd : Dataless payload)
    (ha : Userauth payload → w.pc.stage = .login) (hs : w.pc.stage.Keyed) (hpc : pc.stage = w.pc.stage) :
    Quiet P w ((sendPacket P w payload).goto pc) := by
  refine (Quiet.send P w hd ha hs).trans (.goto ?_)
  rw [sendPacket_pc, hpc]

end

theorem goto_sendPacket (w : World) (payload : Bytes) (pc : Pc) :
    (sendPacket P w payload).goto pc = sendPacket P (w.goto pc) payload := by
  rw [sendPacket_eq, sendPacket_eq]
  rfl

/-! Key exchange. -/

theorem lost_over (w : World) (o : Obs) (f : Csess → Csess) (ho : o.Final w.pc.stage)
    (hu : o.Unsent) (hf : ∀ cs, (f cs).seqOut = cs.seqOut ∧ (f cs).handle = cs.handle ∧
      (f cs).encOut = cs.encOut ∧ (f cs).sendKey = cs.sendKey) (msg : Bytes) :
    Over P w (giveUp ((w.note o).modify f) msg) :=
  ((giveUp_over ((w.note o).modify f) msg).of_modify hf).of_note ho hu

theorem sendEcdhInit_cases (w : World) :
    Over P w (sendEcdhInit P w) ∨ ∃ priv pub, x25519Base P priv = some pub ∧
      sendEcdhInit P w = (sendPacket P (ephemeral w priv pub)
        (putString (putU8 [] msgKexEcdhInit) pub)).goto .kexEcdhReply := by
  unfold sendEcdhInit
  simp only [randomBytes, modify_cs]
  generalize (List.range 32).map (w.env.random w.obs) = priv
  cases hb : x25519Base P priv with
  | none =>
    exact .inl (lost_over P w (.random priv) (fun cs ↦ { cs with ephPriv := priv }) trivial trivial
      (fun _ ↦ ⟨rfl, rfl, rfl, rfl⟩) _)
  | some pub => exact .inr ⟨priv, pub, hb, rfl⟩

theorem onKexinit_outcome {w : World} (hp : w.pc = .kexinit) (t : ℤ) (pkt : Bytes) :
    Outcome P w t pkt (onKexinit P w t pkt) := by
  unfold onKexinit
  split
  · exact .gaveUp (giveUp_over _ _)
  split
  · exact .gaveUp (giveUp_over _ _)
  rename_i ht
  have hnew : ∀ {w'}, Over P (w.modify fun cs ↦ { cs with peerKexInit := pkt }) w' → Over P w w' :=
    fun h ↦ h.of_modify fun _ ↦ ⟨rfl, rfl, rfl, rfl⟩
  simp only
  split
  · exact .gaveUp (hnew (giveUp_over _ _))
  · obtain hover | ⟨priv, pub, hb, he⟩ := sendEcdhInit_cases P
      (w.modify fun cs ↦ { cs with peerKexInit := pkt })
    · exact .gaveUp (hnew hover)
    · rw [he]
      exact .ecdhInit hp (not_not.mp ht) hb

theorem checkKnownHosts_over {w : World} {ks note : Bytes} {store : List Bytes}
    (hn : knownHostsCheck w.knownHosts w.job.host (hostkeyFingerprint P ks) = (false, note, store)) :
    Over P w (checkKnownHosts P w ks) := by
  have hstore := knownHostsCheck_refused hn
  have hend : Over P (w.note (.knownHosts w.job.host (hostkeyFingerprint P ks) false)) _ :=
    giveUp_over _ note
  unfold checkKnownHosts
  simp only [hn]
  rw [hstore]
  exact hend.of_note rfl trivial

theorem onKexEcdhReply_outcome {w : World} (hp : w.pc = .kexEcdhReply) (t : ℤ) (pkt : Bytes) :
    Outcome P w t pkt (onKexEcdhReply P w t pkt) := by
  unfold onKexEcdhReply
  split
  · exact .gaveUp (giveUp_over _ _)
  split
  · exact .gaveUp (giveUp_over _ _)
  rename_i ht
  split
  · exact .gaveUp (giveUp_over _ _)
  rename_i ks qs sig hr
  have hq : ∀ {w'}, Over P (w.modify fun cs ↦ { cs with peerEphPub := qs }) w' → Over P w w' :=
    fun h ↦ h.of_modify fun _ ↦ ⟨rfl, rfl, rfl, rfl⟩
  simp only
  split
  · exact .gaveUp (hq (giveUp_over _ _))
  rename_i hpub hh
  split
  · exact .gaveUp (hq (giveUp_over _ _))
  rename_i sig64 hs
  unfold verifyHost
  simp only [modify_cs]
  split
  · exact .gaveUp (hq (giveUp_over _ _))
  rename_i k hx
  change Outcome P w t pkt
    (if ed25519Verify P hpub (exchanged P w ks qs k).cs.sessionId sig64 = true then
      checkKnownHosts P ((exchanged P w ks qs k).note
        (.verify hpub (exchanged P w ks qs k).cs.sessionId sig64
          (ed25519Verify P hpub (exchanged P w ks qs k).cs.sessionId sig64))) ks
    else giveUp ((exchanged P w ks qs k).note
        (.verify hpub (exchanged P w ks qs k).cs.sessionId sig64
          (ed25519Verify P hpub (exchanged P w ks qs k).cs.sessionId sig64)))
      (ascii "HOST SIGNATURE VERIFY FAILED"))
  split
  · rename_i hv
    rw [hv]
    cases hn : knownHostsCheck w.knownHosts w.job.host (hostkeyFingerprint P ks) with
    | mk ok r =>
      obtain ⟨note, store⟩ := r
      cases ok with
      | true =>
        have hn' : knownHostsCheck (exchanged P w ks qs k).knownHosts
          (exchanged P w ks qs k).job.host (hostkeyFingerprint P ks) = (true, note, store) := hn
        unfold checkKnownHosts
        simp only [note_knownHosts, note_job, hn']
        exact .verified hp (not_not.mp ht) hr hh hs hx hv hn
      | false =>
        have hend : Over P ((exchanged P w ks qs k).note
          (.verify hpub (exchanged P w ks qs k).cs.sessionId sig64 true)) _ :=
          checkKnownHosts_over P hn
        exact .gaveUp (.of_exchanged (hend.of_note trivial trivial))
  · exact .gaveUp (.of_exchanged ((giveUp_over _ _).of_note trivial trivial))

theorem onNewkeys_outcome {w : World} (hp : w.pc = .newkeys) (t : ℤ) (pkt : Bytes) :
    Outcome P w t pkt (onNewkeys P w t) := by
  unfold onNewkeys
  split
  · exact .gaveUp (giveUp_over _ _)
  split
  · exact .gaveUp (giveUp_over _ _)
  · exact .newkeys hp

/-! User authentication. -/

theorem noteFailureMethods_quiet (w : World) (pkt : Bytes) :
    Quiet P w (noteFailureMethods w pkt) := by
  unfold noteFailureMethods
  split <;> exact .same rfl rfl rfl rfl rfl rfl rfl

theorem dataless_of_head {payload : Bytes} {b : UInt8} (h : payload.head? = some b)
    (hb : b ≠ msgChannelData ∧ b ≠ msgChannelWindowAdjust) : Dataless payload := by
  rw [Dataless, h]
  exact ⟨fun he ↦ hb.1 (Option.some.inj he), fun he ↦ hb.2 (Option.some.inj he)⟩

theorem userauth_dataless {payload : Bytes} (h : payload.head? = some msgUserauthRequest) :
    Dataless payload := dataless_of_head h (by decide)

theorem userauthRequest_head (user : Bytes) (method : String) (more : Bytes) :
    (userauthRequest user method ++ more).head? = some msgUserauthRequest := by
  simp [userauthRequest, putU8, putCstring]

theorem infoResponse_head (num : UInt32) (password : Bytes) :
    (infoResponse num password).head? = some msgUserauthInfoResponse := by
  unfold infoResponse
  induction List.range num.toNat using List.reverseRecOn with
  | nil => rfl
  | append_singleton l n ih =>
    rw [List.foldl_append, List.foldl_cons, List.foldl_nil, putString_eq, List.head?_append, ih]
    rfl

theorem authFailed_settles (w : World) : Settles P w (authFailed w) := by
  unfold authFailed
  split <;> exact .giveUp _ _

section
variable {w : World} (hs : w.pc.stage = .login)
include hs

theorem authPassword_settles : Settles P w (authPassword P w) := by
  refine .inl (.sendGoto (userauth_dataless ?_) (fun _ ↦ hs) (.inl hs) hs.symm)
  rw [passwordRequest, putString_eq, putU8, List.append_assoc]
  exact userauthRequest_head w.job.user "password" _

theorem authKeyboardInteractive_settles : Settles P w (authKeyboardInteractive P w) := by
  unfold authKeyboardInteractive
  split
  · refine .inl (.sendGoto (userauth_dataless ?_) (fun _ ↦ hs) (.inl hs) hs.symm)
    rw [keyboardInteractiveRequest, putCstring, putCstring, putString_eq, putString_eq,
      List.append_assoc]
    exact userauthRequest_head w.job.user "keyboard-interactive" _
  · exact authFailed_settles P w

theorem authPublickey_settles : Settles P w (authPublickey P w) := by
  unfold authPublickey
  split
  · split
    · exact .giveUp _ _
    · simp only
      split
      · exact .giveUp _ _
      · refine .inl (.sendGoto (userauth_dataless ?_) (fun _ ↦ hs) (.inl hs) hs.symm)
        rw [publickeyRequest, publickeyClaim, putString_eq, putString_eq, putCstring,
          putString_eq, putU8]
        simp only [List.append_assoc]
        exact userauthRequest_head w.job.user "publickey" _
  · exact authKeyboardInteractive_settles P hs

theorem startChannel_settles : Settles P w (startChannel P w) := by
  refine .inl (.sendGoto ?_ ?_ (.inl hs) hs.symm)
  · simp [channelOpenPayload, Dataless, putU8, putU32, putCstring, msgChannelOpen, msgChannelData,
      msgChannelWindowAdjust]
  · exact fun _ ↦ hs

theorem onServiceAccept_settles (t : ℤ) : Settles P w (onServiceAccept P w t) := by
  unfold onServiceAccept
  split
  · exact .giveUp _ _
  split
  · exact .giveUp _ _
  · have hq : Quiet P w { w with offeredMethods := [] } := .same rfl rfl rfl rfl rfl rfl rfl
    have hhead := userauthRequest_head w.job.user "none" []
    rw [List.append_nil] at hhead
    refine Settles.after (.inl (.sendGoto ?_ (fun _ ↦ hs) (.inl hs) hs.symm)) hq
    exact userauth_dataless hhead

theorem onNoneProbe_settles (t : ℤ) (pkt : Bytes) :
    Settles P w (onNoneProbe P (startChannel P) w t pkt) := by
  have hn := noteFailureMethods_quiet P w pkt
  unfold onNoneProbe
  split
  · exact .inl (.refl w)
  split
  · exact startChannel_settles P hs
  split
  · exact (authPublickey_settles P (hn.stage.trans hs)).after hn
  split
  · exact .giveUp _ _
  · exact authPublickey_settles P hs

theorem onPublickey_settles (t : ℤ) (pkt : Bytes) :
    Settles P w (onPublickey P (startChannel P) w t pkt) := by
  have hn := noteFailureMethods_quiet P w pkt
  unfold onPublickey
  split
  · exact .inl (.refl w)
  split
  · exact startChannel_settles P hs
  · exact (authKeyboardInteractive_settles P (hn.stage.trans hs)).after hn
  · exact .giveUp _ _

theorem onKeyboardInteractive_settles (t : ℤ) (pkt : Bytes) :
    Settles P w (onKeyboardInteractive P (startChannel P) w t pkt) := by
  have hn := noteFailureMethods_quiet P w pkt
  unfold onKeyboardInteractive
  split
  · exact .inl (.refl w)
  split
  · split
    · exact .giveUp _ _
    · rename_i num _
      exact .inl (.send P w (dataless_of_head (infoResponse_head num _) (by decide)) (fun _ ↦ hs)
        (.inl hs))
  split
  · exact startChannel_settles P hs
  · exact (authPassword_settles P (hn.stage.trans hs)).after hn
  · exact .giveUp _ _

theorem onPassword_settles (t : ℤ) (pkt : Bytes) :
    Settles P w (onPassword (startChannel P) w t pkt) := by
  have hn := noteFailureMethods_quiet P w pkt
  unfold onPassword
  split
  · exact .inl (.refl w)
  split
  · exact startChannel_settles P hs
  · exact (authFailed_settles P _).after hn
  · exact .giveUp _ _

end

/-! The channel. -/

/-- The outcome of a return with the round of the pump that follows it. -/
def Resumes (w : World) (t : ℤ) (pkt : Bytes) (w' : World) : Prop :=
  Outcome P w t pkt w' ∨
    ∃ w₁, Outcome P w t pkt w₁ ∧ w₁.pc.stage = .channel ∧ w' = pumpTop P w₁

theorem Settles.resumes {P : Primitives} {w w' : World} {t : ℤ} {pkt : Bytes}
    (h : Settles P w w') (hk : (kindOf w.pc t pkt).Windowless) : Resumes P w t pkt w' :=
  .inl (h.outcome hk)

/-- Away from the channel every packet is plain. -/
theorem kindOf_login {pc : Pc} (h : pc.onChannel = false) (t : ℤ) (pkt : Bytes) :
    kindOf pc t pkt = .plain := by
  cases pc <;> simp_all [kindOf, Pc.onChannel]

theorem kindOf_other {t : ℤ} (h : t ≠ msgChannelOpenConfirm.toNat ∧
    t ≠ msgChannelWindowAdjust.toNat ∧ t ≠ msgChannelData.toNat ∧
    t ≠ msgChannelExtendedData.toNat) (pc : Pc) (pkt : Bytes) : kindOf pc t pkt = .plain := by
  simp [kindOf, h]

theorem kindOf_waiting {pc : Pc} (h : pc = .ptyReq ∨ pc = .channelRequest) {t : ℤ}
    (ht : t ≠ msgChannelWindowAdjust.toNat) (pkt : Bytes) : kindOf pc t pkt = .plain := by
  rcases h with rfl | rfl <;> simp [kindOf, ht]

theorem onGlobalRequest_quiet {w : World} (hs : w.pc.stage.Keyed) (pkt : Bytes) :
    Quiet P w (onGlobalRequest P w pkt) := by
  unfold onGlobalRequest
  split
  · exact .refl w
  split
  · exact .send P w (dataless_of_head rfl (by decide))
      (by simp [Userauth, putU8, msgRequestFailure, msgUserauthRequest, msgUserauthInfoResponse]) hs
  · exact .refl w

theorem onChannel_keyed {pc : Pc} (h : pc.onChannel = true) : pc.stage.Keyed := by
  cases pc <;> simp_all [Pc.onChannel, Pc.stage, Stage.Keyed]

theorem channelRecv_resumes {w : World} {k : World → ℤ → Bytes → World} {t : ℤ} {pkt : Bytes}
    (hp : w.pc.onChannel = true) (hk : t ≠ msgChannelWindowAdjust.toNat → Resumes P w t pkt (k w t pkt)) :
    Resumes P w t pkt (channelRecv P k w t pkt) := by
  unfold channelRecv
  split
  · rename_i ht
    refine .inl (.quiet ?_ (onGlobalRequest_quiet P (onChannel_keyed hp) pkt))
    rw [ht, kindOf_other (by decide)]
    trivial
  split
  · rename_i ht
    exact .inl (.adjust hp ht)
  · rename_i ht
    exact hk ht

theorem channelRequest_plain {payload : Bytes} (h : payload.head? = some msgChannelRequest) :
    Dataless payload ∧ ¬Userauth payload := by
  simp [Dataless, Userauth, h, msgChannelRequest, msgChannelData, msgChannelWindowAdjust,
    msgUserauthRequest, msgUserauthInfoResponse]

theorem ptyReqPayload_plain (cs : Csess) (size : UInt32 × UInt32) :
    Dataless (ptyReqPayload cs size) ∧ ¬Userauth (ptyReqPayload cs size) := by
  refine channelRequest_plain ?_
  simp [ptyReqPayload, putU8, putU32, putCstring, putString_eq]

theorem commandPayload_plain (job : SshJob) (cs : Csess) :
    Dataless (commandPayload job cs) ∧ ¬Userauth (commandPayload job cs) := by
  unfold commandPayload
  split
  · refine channelRequest_plain ?_
    simp [putU8, putU32, putCstring, putString_eq]
  · refine channelRequest_plain ?_
    simp [putU8, putU32, putCstring, putString_eq]

theorem requestCommand_quiet {w : World} (hs : w.pc.stage = .channel) :
    Quiet P w (requestCommand P w) := by
  obtain ⟨hd, ha⟩ := commandPayload_plain w.job w.cs
  exact .sendGoto hd (fun h ↦ absurd h ha) (.inr hs) hs.symm

theorem onChannelOpen_outcome {w : World} (hp : w.pc = .channelOpen) {t : ℤ} {pkt : Bytes} :
    Outcome P w t pkt (onChannelOpen P w t pkt) := by
  unfold onChannelOpen
  split
  · exact .gaveUp (giveUp_over _ _)
  split
  · exact .gaveUp (giveUp_over _ _)
  split
  · exact .gaveUp (giveUp_over _ _)
  rename_i ht
  refine .confirm hp (not_not.mp ht) ?_
  have hw : ∀ payload pc, pc.stage = .channel → Dataless payload ∧ ¬Userauth payload →
      Quiet P ((confirmChannel w pkt).goto .ptyReq)
        ((sendPacket P (confirmChannel w pkt) payload).goto pc) := by
    rintro payload pc hpc ⟨hd, ha⟩
    rw [goto_sendPacket]
    have hgoto : Quiet P ((confirmChannel w pkt).goto .ptyReq) ((confirmChannel w pkt).goto pc) :=
      .same rfl rfl rfl hpc rfl rfl rfl
    exact hgoto.trans (.send P _ hd (fun h ↦ absurd h ha) (.inr hpc))
  simp only
  split
  · exact hw _ .ptyReq rfl (ptyReqPayload_plain _ _)
  · exact hw _ .channelRequest rfl (commandPayload_plain _ _)

theorem onPtyReq_outcome {w : World} (hp : w.pc = .ptyReq) {t : ℤ} {pkt : Bytes}
    (ht : t ≠ msgChannelWindowAdjust.toNat) : Outcome P w t pkt (onPtyReq P w t) := by
  unfold onPtyReq
  split
  · exact .gaveUp (giveUp_over _ _)
  split
  · refine .quiet ?_ (requestCommand_quiet P (by rw [hp]; rfl))
    rw [hp, kindOf_waiting (.inl rfl) ht]
    trivial
  · exact .gaveUp (giveUp_over _ _)

theorem channelEof_plain (cs : Csess) : Dataless (channelEof cs) ∧ ¬Userauth (channelEof cs) := by
  simp [channelEof, Dataless, Userauth, putU8, putU32, msgChannelEof, msgChannelData,
    msgChannelWindowAdjust, msgUserauthRequest, msgUserauthInfoResponse]

theorem channelClose_plain (cs : Csess) :
    Dataless (channelClose cs) ∧ ¬Userauth (channelClose cs) := by
  simp [channelClose, Dataless, Userauth, putU8, putU32, msgChannelClose, msgChannelData,
    msgChannelWindowAdjust, msgUserauthRequest, msgUserauthInfoResponse]

theorem Quiet.plain {w : World} {payload : Bytes} (hs : w.pc.stage = .channel)
    (h : Dataless payload ∧ ¬Userauth payload) : Quiet P w (sendPacket P w payload) :=
  .send P w h.1 (fun ha ↦ absurd ha h.2) (.inr hs)

theorem onChannelRequest_resumes {w : World} (hp : w.pc = .channelRequest) {t : ℤ} {pkt : Bytes}
    (ht : t ≠ msgChannelWindowAdjust.toNat) : Resumes P w t pkt (onChannelRequest P w t) := by
  have hk : (kindOf w.pc t pkt).Windowless := by
    rw [hp, kindOf_waiting (.inr rfl) ht]
    trivial
  have hs : w.pc.stage = .channel := by
    rw [hp]
    rfl
  unfold onChannelRequest
  split
  · exact .inl (.gaveUp (giveUp_over _ _))
  split
  · exact .inl (.gaveUp (giveUp_over _ _))
  split
  · exact .inl (.gaveUp (giveUp_over _ _))
  simp only
  split
  · have hq := Quiet.plain P hs (channelEof_plain w.cs)
    exact .inr ⟨_, .quiet hk hq, hq.stage.trans hs, rfl⟩
  · exact .inr ⟨w, .quiet hk (.refl w), hs, rfl⟩

/-! The pump. -/

/-- A round for each byte is enough. -/
theorem outRounds_poured (w : World) {rounds : ℕ} {left : Bytes} (h : left.length ≤ rounds) :
    Lib.Writes.Poured left (outRounds w rounds left) := by
  induction rounds generalizing left with
  | zero =>
    obtain rfl := List.length_eq_zero_iff.mp (Nat.le_zero.mp h)
    exact .done
  | succ rounds ih =>
    unfold outRounds
    split
    · rename_i hleft
      rw [hleft]
      exact .done
    rename_i hleft
    simp only
    split
    · exact .stalled hleft
    · rename_i htook
      have hpos := Nat.pos_of_ne_zero htook
      exact .round hpos (min_le_right _ _) (ih (by rw [List.length_drop]; omega))

theorem outWrite_quiet (w : World) (data : Bytes) : Quiet P w (outWrite w data) := by
  unfold outWrite
  split
  · exact .refl w
  · have hp := outRounds_poured w (le_refl data.length)
    exact .silent rfl rfl rfl rfl rfl rfl rfl (by simpa [Obs.Calm, Obs.Unsent] using hp)

theorem onServerRequest_quiet (w : World) (pkt : Bytes) : Quiet P w (onServerRequest w pkt) := by
  unfold onServerRequest
  split
  · exact .refl w
  simp only
  split
  · exact .same rfl rfl rfl rfl rfl rfl rfl
  · exact .refl w

theorem onExtendedData_quiet (w : World) (pkt : Bytes) : Quiet P w (onExtendedData w pkt) := by
  unfold onExtendedData
  split
  · exact .refl w
  · exact outWrite_quiet P w _

/-- A type is told apart by its byte. -/
theorem type_eq {t : ℤ} {b c : UInt8} (h : t = b.toNat) : t = c.toNat ↔ b = c := by
  rw [h, Int.natCast_inj, UInt8.toNat_inj]

/-- The window after `n` bytes were received, before it is given back. -/
def usedWindow (cs : Csess) (n : ℕ) : UInt32 :=
  if n < cs.localWindow.toNat then cs.localWindow - UInt32.ofNat n else 0

theorem replenish_none {w : World} {n : ℕ} (h : ¬usedWindow w.cs n < localWindowMax / 2) :
    replenish P w n = w.modify fun cs ↦ { cs with localWindow := usedWindow cs n } := by
  simp only [replenish, modify_cs]
  exact if_neg h

theorem replenish_adjust {w : World} {n : ℕ} (h : usedWindow w.cs n < localWindowMax / 2) :
    replenish P w n =
      (sendPacket P (w.modify fun cs ↦ { cs with localWindow := usedWindow cs n })
        (channelWindowAdjust w.cs (localWindowMax - usedWindow w.cs n))).modify
          fun cs ↦ { cs with localWindow := localWindowMax } := by
  have hsum : ∀ u : UInt32, u + (localWindowMax - u) = localWindowMax := fun u ↦ by
    rw [UInt32.add_comm, UInt32.sub_add_cancel]
  have hused : (w.modify fun cs ↦ { cs with
      localWindow := if n < cs.localWindow.toNat then cs.localWindow - UInt32.ofNat n else 0 }) =
    w.modify fun cs ↦ { cs with localWindow := usedWindow cs n } := rfl
  unfold replenish
  simp only [hused]
  split
  · simp only [World.modify, sendPacket_cs, hsum]
    rfl
  · rename_i hn
    exact absurd h hn

theorem replenish_pc (w : World) (n : ℕ) : (replenish P w n).pc = w.pc := by
  by_cases h : usedWindow w.cs n < localWindowMax / 2
  · rw [replenish_adjust P h, modify_pc, sendPacket_pc, modify_pc]
  · rw [replenish_none P h, modify_pc]

theorem replenish_adds {p : Obs → Prop} (w : World) (n : ℕ)
    (hf : ∀ (f : Frame) add, f.payload = channelWindowAdjust w.cs add → p (.sealed f))
    (hr : ∀ bytes, p (.random bytes)) (hs : ∀ data took, p (.itsSend data took)) :
    Adds p w (replenish P w n) := by
  by_cases h : usedWindow w.cs n < localWindowMax / 2
  · rw [replenish_adjust P h]
    have hm : Adds p w (w.modify fun cs ↦ { cs with localWindow := usedWindow cs n }) := .same rfl
    exact (hm.trans (.send _ (fun f hpay ↦ hf f _ hpay) hr hs)).trans (.same rfl)
  · rw [replenish_none P h]
    exact .same rfl

theorem pumpSwitch_cases {w : World} (hp : w.pc = .pump) {t : ℤ} {b : UInt8} (hb : t = b.toNat)
    (pkt : Bytes) :
    Quiet P w (pumpSwitch P w b pkt).1 ∧ (pumpSwitch P w b pkt).2 = true ∨
      Outcome P w t pkt (pumpSwitch P w b pkt).1 ∧ (pumpSwitch P w b pkt).1.pc.stage = .channel ∧
        (pumpSwitch P w b pkt).2 = false := by
  have hs : w.pc.stage = .channel := by
    rw [hp]
    rfl
  have hquiet : ∀ {w'}, (kindOf w.pc t pkt).Windowless → Quiet P w w' →
      Outcome P w t pkt w' ∧ w'.pc.stage = .channel :=
    fun hk hq ↦ ⟨.quiet hk hq, hq.stage.trans hs⟩
  unfold pumpSwitch
  split
  · rename_i hc
    refine .inr (and_assoc.mp ⟨?_, rfl⟩)
    unfold onData
    cases hd : dataOf pkt with
    | none =>
      refine hquiet ?_ (.refl w)
      rw [hp, kindOf]
      simp [hd, Kind.Windowless, Pc.onChannel, hb, hc, msgChannelData, msgChannelWindowAdjust]
    | some d =>
      refine ⟨.data hp ((type_eq hb).mpr hc) hd, ?_⟩
      rw [replenish_pc, (outWrite_quiet P w d).stage, hs]
  split
  · rename_i hc
    refine .inr (and_assoc.mp ⟨hquiet ?_ (onExtendedData_quiet P w pkt), rfl⟩)
    rw [hp, kindOf]
    cases hd : extendedDataOf pkt <;>
      simp [Kind.Windowless, Pc.onChannel, hb, hc, msgChannelData, msgChannelWindowAdjust,
        msgChannelExtendedData]
  split
  · rename_i hc
    exact .inr ⟨.adjust (by rw [hp]; rfl) ((type_eq hb).mpr hc), hs, rfl⟩
  rename_i hdata hext hadj
  have hk : (kindOf w.pc t pkt).Windowless := by
    have h₁ : ¬t = msgChannelData.toNat := fun h ↦ hdata ((type_eq hb).mp h)
    have h₂ : ¬t = msgChannelExtendedData.toNat := fun h ↦ hext ((type_eq hb).mp h)
    have h₃ : ¬t = msgChannelWindowAdjust.toNat := fun h ↦ hadj ((type_eq hb).mp h)
    rw [hp, kindOf]
    simp only [h₁, h₂, h₃, and_false, if_false, reduceCtorEq, false_and]
    trivial
  split
  · exact .inr (and_assoc.mp ⟨hquiet hk (onServerRequest_quiet P w pkt), rfl⟩)
  split
  · exact .inl ⟨.plain P hs (channelClose_plain w.cs), rfl⟩
  split
  · exact .inl ⟨.refl w, rfl⟩
  split
  · exact .inr (and_assoc.mp ⟨hquiet hk (onGlobalRequest_quiet P (.inr hs) pkt), rfl⟩)
  · exact .inr ⟨.quiet hk (.refl w), hs, rfl⟩

/-- A type that `recv_packet` can return. -/
def Returned (t : ℤ) : Prop := t = 0 ∨ t = -1 ∨ t = -2 ∨ ∃ b : UInt8, t = b.toNat

theorem kindOf_idle {t : ℤ} (h : t = 0 ∨ t = -1 ∨ t = -2) (pc : Pc) (pkt : Bytes) :
    kindOf pc t pkt = .plain := by
  rcases h with rfl | rfl | rfl <;> exact kindOf_other (by decide) pc pkt

theorem onPump_resumes {w : World} (hp : w.pc = .pump) {t : ℤ} (ht : Returned t) (pkt : Bytes) :
    Resumes P w t pkt (onPump P w t pkt) := by
  have hset : ∀ msg, Over P w (finishChannel (setMsg w msg)) := fun msg ↦
    (finishChannel_over _).after (.same rfl rfl rfl rfl rfl rfl rfl)
  unfold onPump
  split
  · rename_i h0
    split
    · refine .inr ⟨w, .quiet ?_ (.refl w), by rw [hp]; rfl, rfl⟩
      rw [kindOf_idle (.inl h0)]
      trivial
    · exact .inl (.gaveUp (hset _))
  split
  · exact .inl (.gaveUp (hset _))
  split
  · exact .inl (.gaveUp (finishChannel_over w))
  rename_i h0 h1 h2
  obtain ⟨b, hb⟩ : ∃ b : UInt8, t = b.toNat := by
    rcases ht with h | h | h | h
    · exact absurd h h0
    · exact absurd h h1
    · exact absurd h h2
    · exact h
  have hbyte : UInt8.ofNat t.toNat = b := by rw [hb, Int.toNat_natCast, UInt8.ofNat_toNat]
  rw [hbyte]
  obtain ⟨hq, hr⟩ | ⟨ho, hst, hr⟩ := pumpSwitch_cases P hp hb pkt
  · split
    · rename_i w' he
      rw [he] at hq
      exact .inl (.gaveUp ((finishChannel_over w').after hq))
    · rename_i he
      rw [he] at hr
      cases hr
  · split
    · rename_i he
      rw [he] at hr
      cases hr
    · rename_i w' he
      rw [he] at ho hst
      exact .inr ⟨w', ho, hst, rfl⟩

end Sshd.Client
