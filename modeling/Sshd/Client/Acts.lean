import Sshd.Client.Receive

namespace Sshd.Client

open Lib.Octets Wire Crypto Framing

variable (P : Primitives)

/-! What the client says, and where it goes on, once `recv_packet` has returned. -/

/-- Calls that read nothing and send nothing but messages of the given types. -/
def Obs.Says (types : List UInt8) : Obs → Prop
  | .sealed f => ∃ t ∈ types, f.payload.head? = some t
  | .opened _ _ _ _ _ | .received _ _ _ => False
  | _ => True

structure Acts (types : List UInt8) (pcs : List Pc) (w w' : World) : Prop where
  pc : w'.pc = w.pc ∨ w'.pc ∈ pcs
  given : w'.job.given = w.job.given
  obs : Adds (Obs.Says types) w w'

/-- The exchange of keys, up to the request for user authentication. -/
def kexTypes : List UInt8 := [msgKexinit, msgKexEcdhInit, msgNewkeys, msgServiceRequest]

def kexPcs : List Pc := [.kexinit, .kexEcdhReply, .newkeys, .serviceAccept, .finished]

/-- The channel, once it was asked for. -/
def channelTypes : List UInt8 :=
  [msgRequestFailure, msgChannelRequest, msgChannelEof, msgChannelClose, msgChannelWindowAdjust,
    msgChannelData]

def channelPcs : List Pc := [.ptyReq, .channelRequest, .pump, .finished]

variable {P}

section
variable {types : List UInt8} {pcs : List Pc} {w w₁ w' : World}

theorem Acts.refl (w : World) : Acts types pcs w w := ⟨.inl rfl, rfl, .same rfl⟩

theorem Acts.trans (h : Acts types pcs w w₁) (h' : Acts types pcs w₁ w') : Acts types pcs w w' := by
  refine ⟨?_, h'.given.trans h.given, h.obs.trans h'.obs⟩
  rcases h'.pc with hpc | hpc
  · rw [hpc]
    exact h.pc
  · exact .inr hpc

theorem Acts.same (hpc : w'.pc = w.pc) (hg : w'.job.given = w.job.given) (ho : w'.obs = w.obs) :
    Acts types pcs w w' := ⟨.inl hpc, hg, .same ho⟩

theorem Acts.note (w : World) {o : Obs} (h : o.Says types) : Acts types pcs w (w.note o) :=
  ⟨.inl rfl, rfl, .note w h⟩

theorem Acts.modify (w : World) (f : Csess → Csess) : Acts types pcs w (w.modify f) :=
  .same rfl rfl rfl

theorem Acts.goto (w : World) {pc : Pc} (h : pc ∈ pcs) : Acts types pcs w (w.goto pc) :=
  ⟨.inr h, rfl, .same rfl⟩

theorem Acts.random (w : World) (n : ℕ) : Acts types pcs w (randomBytes w n).2 :=
  .note w (by trivial)

theorem Acts.fail (w : World) (msg : Bytes) : Acts types pcs w (fail w msg) := .same rfl rfl rfl

theorem Acts.hangUp (w : World) (h : .finished ∈ pcs) : Acts types pcs w (hangUp w) :=
  ⟨.inr h, rfl, [.itsDisconnect w.cs.handle], rfl, by simp [Obs.Says]⟩

theorem Acts.giveUp (w : World) (msg : Bytes) (h : .finished ∈ pcs) :
    Acts types pcs w (giveUp w msg) := (Acts.fail w msg).trans (.hangUp _ h)

theorem Acts.finishChannel (w : World) (h : .finished ∈ pcs) :
    Acts types pcs w (finishChannel w) := by
  refine ⟨.inr h, ?_, [.itsDisconnect w.cs.handle], rfl, by simp [Obs.Says]⟩
  unfold Client.finishChannel
  simp only
  split <;> rfl

theorem Acts.say (w : World) {payload : Bytes} {t : UInt8} (hp : payload.head? = some t)
    (ht : t ∈ types) : Acts types pcs w (sendPacket P w payload) := by
  refine ⟨.inl (sendPacket_pc P w payload), by rw [sendPacket_job], ?_⟩
  exact .send w (fun f hf ↦ ⟨t, ht, hf ▸ hp⟩) (fun _ ↦ trivial) fun _ _ ↦ trivial

theorem Acts.fillRx (w : World) : Acts types pcs w (fillRx w).2 :=
  ⟨.inl rfl, rfl, _, rfl, by simp [Obs.Says]⟩

end

section
variable (P) (w : World) (t : ℤ) (pkt : Bytes)

/-! The exchange. -/

theorem Acts.startKex : Acts kexTypes kexPcs w (startKex P w) := by
  have hs (w : World) (cookie : Bytes) : Acts kexTypes kexPcs w (sendPacket P w (putKexinit cookie)) := by
    refine .say w (t := msgKexinit) ?_ (by decide)
    simp [putKexinit, putU8, putU32, putNamelist, putCstring]
  exact (Acts.random w 16).trans (.trans (.modify _ _) (.trans (hs _ _) (.goto _ (by decide))))

theorem Acts.versionRound (expired : Bool) : Acts kexTypes kexPcs w (versionRound P expired w) := by
  have hend (w : World) (msg : Bytes) : Acts kexTypes kexPcs w (Client.giveUp w msg) :=
    .giveUp w msg (by decide)
  unfold Client.versionRound
  split
  · simp only
    split
    · split
      · exact .trans (.modify w _) (hend _ _)
      · exact .trans (.modify w _) (.trans (.modify _ _) (.startKex P _))
    · exact .modify w _
  · split
    · exact hend w _
    simp only
    split
    · exact .trans (.fillRx w) (hend _ _)
    · exact .fillRx w

theorem Acts.sendEcdhInit : Acts kexTypes kexPcs w (sendEcdhInit P w) := by
  have hr (priv : Bytes) : Acts kexTypes kexPcs w
      ((randomBytes w 32).2.modify fun cs ↦ { cs with ephPriv := priv }) :=
    .trans (.random w 32) (.modify _ _)
  unfold Client.sendEcdhInit
  simp only
  split
  · exact (hr _).trans (.giveUp _ _ (by decide))
  · have hs (w : World) (pub : Bytes) : Acts kexTypes kexPcs w
        (sendPacket P w (putString (putU8 [] msgKexEcdhInit) pub)) := by
      refine .say w (t := msgKexEcdhInit) ?_ (by decide)
      rw [putString_eq]
      rfl
    exact (hr _).trans (.trans (.modify _ _) (.trans (hs _ _) (.goto _ (by decide))))

theorem Acts.onKexinit : Acts kexTypes kexPcs w (onKexinit P w t pkt) := by
  unfold Client.onKexinit
  split
  · exact .giveUp w _ (by decide)
  split
  · exact .giveUp w _ (by decide)
  simp only
  split
  · exact .trans (.modify w _) (.giveUp _ _ (by decide))
  · exact .trans (.modify w _) (.sendEcdhInit P _)

theorem Acts.switchKeys : Acts kexTypes kexPcs w (switchKeys P w) := by
  have hs : Acts kexTypes kexPcs w (sendPacket P w (putU8 [] msgNewkeys)) :=
    .say w (t := msgNewkeys) rfl (by decide)
  exact hs.trans (.trans (.modify _ _) (.trans (.modify _ _) (.trans (.modify _ _)
    (.goto _ (by decide)))))

theorem Acts.checkKnownHosts (kBlob : Bytes) :
    Acts kexTypes kexPcs w (checkKnownHosts P w kBlob) := by
  have hn (store : List Bytes) (host fp : Bytes) (ok : Bool) :
      Acts kexTypes kexPcs w ({ w with knownHosts := store }.note (.knownHosts host fp ok)) :=
    ⟨.inl rfl, rfl, [.knownHosts host fp ok], rfl, by simp [Obs.Says]⟩
  unfold Client.checkKnownHosts
  simp only
  split
  · exact (hn _ _ _ _).trans (.switchKeys P _)
  · exact (hn _ _ _ _).trans (.giveUp _ _ (by decide))

theorem Acts.verifyHost (kBlob hpub sig64 : Bytes) :
    Acts kexTypes kexPcs w (verifyHost P w kBlob hpub sig64) := by
  unfold Client.verifyHost
  split
  · exact .giveUp w _ (by decide)
  rename_i k _
  have hn (h : Bytes) (ok : Bool) : Acts kexTypes kexPcs w
      (((w.modify fun cs ↦ { cs with sharedK := k }).modify
        fun cs ↦ { cs with sessionId := h }).note (.verify hpub h sig64 ok)) :=
    .trans (.trans (.modify w _) (.modify _ _)) (.note _ (by trivial))
  simp only
  split
  · exact (hn _ _).trans (.checkKnownHosts P _ _)
  · exact (hn _ _).trans (.giveUp _ _ (by decide))

theorem Acts.onKexEcdhReply : Acts kexTypes kexPcs w (onKexEcdhReply P w t pkt) := by
  unfold Client.onKexEcdhReply
  split
  · exact .giveUp w _ (by decide)
  split
  · exact .giveUp w _ (by decide)
  split
  · exact .giveUp w _ (by decide)
  rename_i ks qs sig _
  refine .trans (.modify w (fun cs ↦ { cs with peerEphPub := qs })) ?_
  split
  · exact .giveUp _ _ (by decide)
  split
  · exact .giveUp _ _ (by decide)
  · exact .verifyHost P _ _ _ _

theorem Acts.onNewkeys : Acts kexTypes kexPcs w (onNewkeys P w t) := by
  have hs (w : World) : Acts kexTypes kexPcs w
      (sendPacket P w (putCstring (putU8 [] msgServiceRequest) "ssh-userauth")) := by
    refine .say w (t := msgServiceRequest) ?_ (by decide)
    rw [putCstring, putString_eq]
    rfl
  unfold Client.onNewkeys
  split
  · exact .giveUp w _ (by decide)
  split
  · exact .giveUp w _ (by decide)
  · exact .trans (.modify w _) (.trans (hs _) (.goto _ (by decide)))

/-! The channel. -/

theorem Acts.onGlobalRequest : Acts channelTypes channelPcs w (onGlobalRequest P w pkt) := by
  unfold Client.onGlobalRequest
  split
  · exact .refl w
  split
  · exact .say w (t := msgRequestFailure) rfl (by decide)
  · exact .refl w

theorem Acts.pumpLoop (fuel : ℕ) : Acts channelTypes channelPcs w (pumpLoop P fuel w) := by
  induction fuel generalizing w with
  | zero => exact .refl w
  | succ fuel ih =>
    have hw : Acts channelTypes channelPcs w
        ({ w with typed := w.typed.drop 256 }.note (.typed (w.typed.take 256))) :=
      ⟨.inl rfl, rfl, [.typed (w.typed.take 256)], rfl, by simp [Obs.Says]⟩
    have hs (w : World) (cs : Csess) (data : Bytes) :
        Acts channelTypes channelPcs w (sendPacket P w (channelData cs data)) := by
      refine .say w (t := msgChannelData) ?_ (by decide)
      rw [channelData, putString_eq]
      rfl
    unfold Client.pumpLoop
    simp only
    split
    · exact .refl w
    · exact (hw.trans (hs _ _ _)).trans (ih _)

theorem Acts.sendEof (cs : Csess) : Acts channelTypes channelPcs w (sendPacket P w (channelEof cs)) :=
  .say w (t := msgChannelEof) rfl (by decide)

theorem Acts.sendClose (cs : Csess) :
    Acts channelTypes channelPcs w (sendPacket P w (channelClose cs)) :=
  .say w (t := msgChannelClose) rfl (by decide)

theorem Acts.pumpTop : Acts channelTypes channelPcs w (pumpTop P w) := by
  have hin : Acts channelTypes channelPcs w (pumpInput P w) := by
    unfold pumpInput
    split
    · exact .pumpLoop P w _
    · exact .refl w
  unfold Client.pumpTop
  split
  swap
  · exact .goto w (by decide)
  refine hin.trans ?_
  simp only
  split
  · exact .trans (.sendEof P _ _) (.trans (.sendClose P _ _) (.finishChannel _ (by decide)))
  · exact .goto _ (by decide)

theorem Acts.requestCommand : Acts channelTypes channelPcs w (requestCommand P w) := by
  refine .trans (.say w (t := msgChannelRequest) ?_ (by decide)) (.goto _ (by decide))
  unfold commandPayload
  split
  · simp [putCstring, putU8, putU32]
  · simp [putCstring, putU8, putU32]

theorem Acts.onChannelOpen : Acts channelTypes channelPcs w (onChannelOpen P w t pkt) := by
  unfold Client.onChannelOpen
  split
  · exact .giveUp w _ (by decide)
  split
  · exact .giveUp w _ (by decide)
  split
  · exact .giveUp w _ (by decide)
  have hw : Acts channelTypes channelPcs w (confirmChannel w pkt) := .modify w _
  refine hw.trans ?_
  simp only
  split
  · refine .trans (.say _ (t := msgChannelRequest) ?_ (by decide)) (.goto _ (by decide))
    rw [ptyReqPayload, putString_eq, putCstring, putCstring, putString_eq, putString_eq]
    rfl
  · exact .requestCommand P _

theorem Acts.onPtyReq : Acts channelTypes channelPcs w (onPtyReq P w t) := by
  unfold Client.onPtyReq
  split
  · exact .giveUp w _ (by decide)
  split
  · exact .requestCommand P w
  · exact .giveUp w _ (by decide)

theorem Acts.onChannelRequest : Acts channelTypes channelPcs w (onChannelRequest P w t) := by
  unfold Client.onChannelRequest
  split
  · exact .giveUp w _ (by decide)
  split
  · exact .giveUp w _ (by decide)
  split
  · exact .giveUp w _ (by decide)
  simp only
  split
  · exact .trans (.sendEof P w _) (.pumpTop P _)
  · exact .pumpTop P w

theorem Acts.replenish (n : ℕ) : Acts channelTypes channelPcs w (replenish P w n) := by
  by_cases hu : usedWindow w.cs n < localWindowMax / 2
  · rw [replenish_adjust P hu]
    exact .trans (.modify w _) (.trans (.say _ (t := msgChannelWindowAdjust) rfl (by decide))
      (.modify _ _))
  · rw [replenish_none P hu]
    exact .modify w _

theorem Acts.outWrite (data : Bytes) : Acts channelTypes channelPcs w (outWrite w data) := by
  unfold Client.outWrite
  split
  · exact .refl w
  · exact .note w (by trivial)

theorem Acts.onServerRequest : Acts channelTypes channelPcs w (onServerRequest w pkt) := by
  unfold Client.onServerRequest
  split
  · exact .refl w
  simp only
  split
  · exact .same rfl rfl rfl
  · exact .refl w

theorem Acts.pumpSwitch (b : UInt8) : Acts channelTypes channelPcs w (pumpSwitch P w b pkt).1 := by
  unfold Client.pumpSwitch
  split
  · unfold Client.onData
    split
    · exact .refl w
    · exact .trans (.outWrite w _) (.replenish P _ _)
  split
  · unfold Client.onExtendedData
    split
    · exact .refl w
    · exact .outWrite w _
  split
  · exact .same rfl rfl rfl
  split
  · exact .onServerRequest w pkt
  split
  · exact .sendClose P w _
  split
  · exact .refl w
  split
  · exact .onGlobalRequest P w pkt
  · exact .refl w

theorem Acts.onPump : Acts channelTypes channelPcs w (onPump P w t pkt) := by
  have hend (msg : String) : Acts channelTypes channelPcs w (Client.finishChannel (setMsg w msg)) := by
    have hset : Acts channelTypes channelPcs w (setMsg w msg) := .same rfl rfl rfl
    exact hset.trans (.finishChannel _ (by decide))
  have hswitch := Acts.pumpSwitch P w pkt (UInt8.ofNat t.toNat)
  unfold Client.onPump
  split
  · split
    · exact .pumpTop P w
    · exact hend _
  split
  · exact hend _
  split
  · exact .finishChannel w (by decide)
  split
  · rename_i w₁ hw₁
    rw [hw₁] at hswitch
    exact hswitch.trans (.finishChannel w₁ (by decide))
  · rename_i w₁ hw₁
    rw [hw₁] at hswitch
    exact hswitch.trans (.pumpTop P w₁)

theorem Acts.channelRecv {k : World → ℤ → Bytes → World}
    (hk : Acts channelTypes channelPcs w (k w t pkt)) :
    Acts channelTypes channelPcs w (channelRecv P k w t pkt) := by
  unfold Client.channelRecv
  split
  · exact .onGlobalRequest P w pkt
  split
  · exact .same rfl rfl rfl
  · exact hk

end

end Sshd.Client
