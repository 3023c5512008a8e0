import Sshd.Opening
import Sshd.Client.Steps

namespace Sshd.Client

open Lib.Octets Lib.Trace Wire Crypto Framing

variable (P : Primitives)

/-- The packets opened. -/
def openings (obs : List Obs) : List Opening :=
  obs.filterMap fun o ↦ match o with
    | .opened enc key seq packet payload => some ⟨enc, key, seq, packet, payload⟩
    | _ => none

/-- What was sent is in order. -/
def Outgoing (w : World) : Prop := Sends (frames w.obs) w.cs.encOut w.cs.seqOut

/-- `w'` comes from `w` without reading anything from the server. -/
structure Deaf (w w' : World) : Prop where
  tcpIn : w'.tcpIn = w.tcpIn
  rxBuf : w'.cs.rxBuf = w.cs.rxBuf
  seqIn : w'.cs.seqIn = w.cs.seqIn
  decrypts : w.cs.encIn = true → w'.cs.encIn = true
  openings : openings w'.obs = openings w.obs
  sends : Outgoing w → Outgoing w'

/-- The counters, the ciphers in use and what waits to be read. -/
structure Counters where
  rxBuf : Bytes
  seqIn : ℕ
  seqOut : ℕ
  encIn : Bool
  encOut : Bool

def Csess.counters (cs : Csess) : Counters := { cs with }

/-- The fields that are kept from the version lines and the exchange on. -/
structure Kex where
  ourVersion : Bytes
  peerVersion : Bytes
  ourKexInit : Bytes
  peerKexInit : Bytes
  ephPriv : Bytes
  ephPub : Bytes
  sessionId : Bytes
  sendKey : Bytes
  recvKey : Bytes
  encIn : Bool
  encOut : Bool

def Csess.kex (cs : Csess) : Kex := { cs with }

/-- Messages that do not belong to an exchange. -/
def Aloof (payload : Bytes) : Prop :=
  ∃ t, payload.head? = some t ∧ t ∉ [msgKexinit, msgNewkeys, msgKexEcdhInit]

/-- What `recv_packet` returned, and the verdicts on the host's signature and key. -/
def notices (obs : List Obs) : List Obs :=
  obs.filter fun o ↦ match o with
    | .received _ _ _ => true
    | .verify _ _ _ _ => true
    | .knownHosts _ _ _ => true
    | _ => false

/-- Outside of an exchange a session goes on after its login or ends. -/
def PcStep (pc pc' : Pc) : Prop := pc' = pc ∨ pc' = .finished ∨ pc'.stage.Keyed

/-- `w'` comes from `w` outside of an exchange. -/
structure Chats (w w' : World) : Prop extends Deaf w w' where
  kex : w'.cs.kex = w.cs.kex
  pc : PcStep w.pc w'.pc
  notices : notices w'.obs = notices w.obs
  knownHosts : w'.knownHosts = w.knownHosts
  talk : ∃ fs, frames w'.obs = frames w.obs ++ fs ∧
    ∀ f ∈ fs, Aloof f.payload ∧ f.enc = w.cs.encOut ∧ f.key = w.cs.sendKey

theorem notices_append (obs os : List Obs) : notices (obs ++ os) = notices obs ++ notices os :=
  List.filter_append _ _

theorem verify_mem {obs : List Obs} {pub msg sig : Bytes} {ok : Bool} :
    .verify pub msg sig ok ∈ notices obs ↔ .verify pub msg sig ok ∈ obs := by
  simp [notices]

theorem openings_append (obs os : List Obs) : openings (obs ++ os) = openings obs ++ openings os :=
  List.filterMap_append

section
variable {w w₁ w' : World}

theorem Deaf.refl (w : World) : Deaf w w := ⟨rfl, rfl, rfl, id, rfl, id⟩

theorem Deaf.trans (h : Deaf w w₁) (h' : Deaf w₁ w') : Deaf w w' :=
  ⟨h'.tcpIn.trans h.tcpIn, h'.rxBuf.trans h.rxBuf, h'.seqIn.trans h.seqIn,
    h'.decrypts ∘ h.decrypts, h'.openings.trans h.openings, h'.sends ∘ h.sends⟩

/-- Nothing of what is recorded is a packet. -/
theorem Deaf.grow {os : List Obs} (hi : w'.tcpIn = w.tcpIn) (hc : w'.cs.counters = w.cs.counters)
    (hobs : w'.obs = w.obs ++ os) (ho : Client.openings os = []) (hf : frames os = []) :
    Deaf w w' := by
  refine ⟨hi, congrArg Counters.rxBuf hc, congrArg Counters.seqIn hc,
    (congrArg Counters.encIn hc).trans, ?_, fun h ↦ ?_⟩
  · rw [hobs, openings_append, ho, List.append_nil]
  · have henc : w'.cs.encOut = w.cs.encOut := congrArg Counters.encOut hc
    have hseq : w'.cs.seqOut = w.cs.seqOut := congrArg Counters.seqOut hc
    rw [Outgoing, hobs, frames_append, hf, List.append_nil, henc, hseq]
    exact h

theorem Deaf.note (w : World) {o : Obs} (ho : Client.openings [o] = []) (hf : frames [o] = []) :
    Deaf w (w.note o) := .grow rfl rfl rfl ho hf

theorem Deaf.same (hi : w'.tcpIn = w.tcpIn) (hc : w'.cs.counters = w.cs.counters)
    (hobs : w'.obs = w.obs) : Deaf w w' :=
  .grow hi hc (hobs.trans (List.append_nil _).symm) rfl rfl

theorem Deaf.modify (w : World) (f : Csess → Csess) (hf : (f w.cs).counters = w.cs.counters) :
    Deaf w (w.modify f) := .same rfl hf rfl

theorem Deaf.decrypt (w : World) : Deaf w (w.modify fun cs ↦ { cs with encIn := true }) :=
  ⟨rfl, rfl, rfl, fun _ ↦ rfl, rfl, id⟩

theorem Deaf.goto (w : World) (pc : Pc) : Deaf w (w.goto pc) := .same rfl rfl rfl

end

theorem Deaf.send (w : World) (payload : Bytes) : Deaf w (sendPacket P w payload) := by
  refine ⟨?_, ?_, ?_, fun he ↦ ?_, ?_, fun h ↦ ?_⟩
  · rw [sendPacket_eq]
    rfl
  · rw [sendPacket_cs]
  · rw [sendPacket_cs]
  · rw [sendPacket_cs]
    exact he
  · have hnone : Client.openings (sendObs P w payload) = [] := by
      refine List.filterMap_eq_nil_iff.mpr fun o ho ↦ ?_
      obtain ⟨_, rfl⟩ | ⟨_, rfl, -⟩ | ⟨_, _, rfl⟩ := mem_sendObs P w payload ho <;> rfl
    rw [sendPacket_obs, openings_append, hnone, List.append_nil]
  · rw [Outgoing, sendPacket_obs, frames_append, frames_sendObs, sendPacket_cs]
    exact Sends.send h _ (randomBytes_length w _)

/-! Outside of an exchange. -/

theorem PcStep.trans {pc pc₁ pc' : Pc} (h : PcStep pc pc₁) (h' : PcStep pc₁ pc') :
    PcStep pc pc' := by
  rcases h' with rfl | h' | h'
  · exact h
  · exact .inr (.inl h')
  · exact .inr (.inr h')

section
variable {w w₁ w' : World}

theorem Chats.refl (w : World) : Chats w w :=
  ⟨.refl w, rfl, .inl rfl, rfl, rfl, [], (List.append_nil _).symm, by simp⟩

theorem Chats.trans (h : Chats w w₁) (h' : Chats w₁ w') : Chats w w' := by
  obtain ⟨fs, hfs, ht⟩ := h.talk
  obtain ⟨fs', hfs', ht'⟩ := h'.talk
  have henc : w₁.cs.encOut = w.cs.encOut := congrArg Kex.encOut h.kex
  have hkey : w₁.cs.sendKey = w.cs.sendKey := congrArg Kex.sendKey h.kex
  refine ⟨h.toDeaf.trans h'.toDeaf, h'.kex.trans h.kex, h.pc.trans h'.pc,
    h'.notices.trans h.notices, h'.knownHosts.trans h.knownHosts, fs ++ fs', ?_, ?_⟩
  · rw [hfs', hfs, List.append_assoc]
  · intro f hf
    rcases List.mem_append.mp hf with hf | hf
    · exact ht f hf
    · rw [← henc, ← hkey]
      exact ht' f hf

theorem Chats.grow {os : List Obs} (hi : w'.tcpIn = w.tcpIn)
    (hc : w'.cs.counters = w.cs.counters) (hk : w'.cs.kex = w.cs.kex) (hp : PcStep w.pc w'.pc)
    (hobs : w'.obs = w.obs ++ os) (ho : Client.openings os = []) (hf : frames os = [])
    (hn : Client.notices os = []) (hs : w'.knownHosts = w.knownHosts) : Chats w w' := by
  refine ⟨.grow hi hc hobs ho hf, hk, hp, ?_, hs, [], ?_, by simp⟩
  · rw [hobs, notices_append, hn, List.append_nil]
  · rw [hobs, frames_append, hf]

theorem Chats.note (w : World) {o : Obs} (ho : Client.openings [o] = []) (hf : frames [o] = [])
    (hn : Client.notices [o] = []) : Chats w (w.note o) :=
  .grow rfl rfl rfl (.inl rfl) rfl ho hf hn rfl

theorem Chats.same (hi : w'.tcpIn = w.tcpIn) (hc : w'.cs.counters = w.cs.counters)
    (hk : w'.cs.kex = w.cs.kex) (hp : PcStep w.pc w'.pc) (hobs : w'.obs = w.obs)
    (hs : w'.knownHosts = w.knownHosts) : Chats w w' :=
  .grow hi hc hk hp (hobs.trans (List.append_nil _).symm) rfl rfl rfl hs

theorem Chats.modify (w : World) (f : Csess → Csess) (hc : (f w.cs).counters = w.cs.counters)
    (hk : (f w.cs).kex = w.cs.kex) : Chats w (w.modify f) :=
  .same rfl hc hk (.inl rfl) rfl rfl

theorem Chats.goto (w : World) {pc : Pc} (h : pc.stage.Keyed) : Chats w (w.goto pc) :=
  .same rfl rfl rfl (.inr (.inr h)) rfl rfl

theorem Chats.random (w : World) (n : ℕ) : Chats w (randomBytes w n).2 := .note w rfl rfl rfl

theorem Chats.outWrite (w : World) (data : Bytes) : Chats w (outWrite w data) := by
  unfold Client.outWrite
  split
  · exact .refl w
  · exact .note w rfl rfl rfl

theorem Chats.hangUp (w : World) : Chats w (hangUp w) :=
  .trans (.note w (o := .itsDisconnect w.cs.handle) rfl rfl rfl)
    (.same rfl rfl rfl (.inr (.inl rfl)) rfl rfl)

theorem Chats.giveUp (w : World) (msg : Bytes) : Chats w (giveUp w msg) :=
  .trans (.same rfl rfl rfl (.inl rfl) rfl rfl : Chats w (fail w msg)) (.hangUp _)

theorem Chats.finishChannel (w : World) : Chats w (finishChannel w) :=
  .trans (.note w (o := .itsDisconnect w.cs.handle) rfl rfl rfl)
    (.same rfl rfl rfl (.inr (.inl rfl)) rfl rfl)

end

theorem notices_sendObs (w : World) (payload : Bytes) : notices (sendObs P w payload) = [] := by
  refine List.filter_eq_nil_iff.mpr fun o ho ↦ ?_
  obtain ⟨_, rfl⟩ | ⟨_, rfl, -⟩ | ⟨_, _, rfl⟩ := mem_sendObs P w payload ho <;> simp

theorem Chats.send (w : World) {payload : Bytes} (h : Aloof payload) :
    Chats w (sendPacket P w payload) := by
  refine ⟨.send P w payload, ?_, .inl (sendPacket_pc P w payload), ?_,
    sendPacket_knownHosts P w payload, [sendFrame w payload], ?_, ?_⟩
  · rw [sendPacket_cs]
    rfl
  · rw [sendPacket_obs, notices_append, notices_sendObs, List.append_nil]
  · rw [sendPacket_obs, frames_append, frames_sendObs]
  · intro f hf
    rw [List.mem_singleton.mp hf]
    exact ⟨h, rfl, rfl⟩

theorem aloof_of_head {payload : Bytes} {t : UInt8} (hp : payload.head? = some t)
    (ht : t ∉ [msgKexinit, msgNewkeys, msgKexEcdhInit]) : Aloof payload := ⟨t, hp, ht⟩

/-! The exchange. -/

theorem Deaf.sendEcdhInit (w : World) : Deaf w (sendEcdhInit P w) := by
  have hr (priv : Bytes) : Deaf w ((randomBytes w 32).2.modify fun cs ↦ { cs with ephPriv := priv }) :=
    (Chats.random w 32).toDeaf.trans (.modify _ _ rfl)
  unfold Client.sendEcdhInit
  simp only
  split
  · exact (hr _).trans (Chats.giveUp _ _).toDeaf
  · rename_i pub _
    exact (hr _).trans (.trans (.modify _ _ rfl) (.trans (.send P _ _) (.goto _ _)))

theorem Deaf.onKexinit (w : World) (t : ℤ) (pkt : Bytes) : Deaf w (onKexinit P w t pkt) := by
  have hw : Deaf w (w.modify fun cs ↦ { cs with peerKexInit := pkt }) := .modify w _ rfl
  have hend (w : World) (msg : Bytes) : Deaf w (Client.giveUp w msg) := (Chats.giveUp w msg).toDeaf
  unfold Client.onKexinit
  split
  · exact hend w _
  split
  · exact hend w _
  simp only
  split
  · exact hw.trans (hend _ _)
  · exact hw.trans (.sendEcdhInit P _)

theorem Deaf.keyed (w : World) : Deaf w (keyed P w) := by
  refine ⟨rfl, ?_, ?_, fun he ↦ ?_, ?_, fun h ↦ ?_⟩
  · rw [keyed_cs]
  · rw [keyed_cs]
  · rw [keyed_cs]
    exact he
  · rw [keyed_obs]
  · rw [Outgoing, keyed_obs, keyed_cs]
    exact Sends.onward h fun _ ↦ rfl

theorem Deaf.switchKeys (w : World) : Deaf w (switchKeys P w) :=
  .trans (.send P w _) (.keyed P _)

theorem Deaf.checkKnownHosts (w : World) (kBlob : Bytes) : Deaf w (checkKnownHosts P w kBlob) := by
  have hn (store : List Bytes) (host fp : Bytes) (ok : Bool) :
      Deaf w ({ w with knownHosts := store }.note (.knownHosts host fp ok)) := by
    have hs : Deaf w { w with knownHosts := store } := .same rfl rfl rfl
    exact hs.trans (.note _ rfl rfl)
  unfold Client.checkKnownHosts
  simp only
  split
  · exact (hn _ _ _ _).trans (.switchKeys P _)
  · exact (hn _ _ _ _).trans (Chats.giveUp _ _).toDeaf

theorem Deaf.verifyHost (w : World) (kBlob hpub sig64 : Bytes) :
    Deaf w (verifyHost P w kBlob hpub sig64) := by
  have hend (w : World) (msg : Bytes) : Deaf w (Client.giveUp w msg) := (Chats.giveUp w msg).toDeaf
  unfold Client.verifyHost
  split
  · exact hend w _
  rename_i k _
  have hn (h : Bytes) (ok : Bool) : Deaf w (((w.modify fun cs ↦ { cs with sharedK := k }).modify
      fun cs ↦ { cs with sessionId := h }).note (.verify hpub h sig64 ok)) :=
    .trans (.trans (.modify w _ rfl) (.modify _ _ rfl)) (.note _ rfl rfl)
  simp only
  split
  · exact (hn _ _).trans (.checkKnownHosts P _ _)
  · exact (hn _ _).trans (hend _ _)

theorem Deaf.onKexEcdhReply (w : World) (t : ℤ) (pkt : Bytes) :
    Deaf w (onKexEcdhReply P w t pkt) := by
  have hend (w : World) (msg : Bytes) : Deaf w (Client.giveUp w msg) := (Chats.giveUp w msg).toDeaf
  unfold Client.onKexEcdhReply
  split
  · exact hend w _
  split
  · exact hend w _
  split
  · exact hend w _
  rename_i ks qs sig _
  refine .trans (.modify w (fun cs ↦ { cs with peerEphPub := qs }) rfl) ?_
  split
  · exact hend _ _
  split
  · exact hend _ _
  · exact .verifyHost P _ _ _ _

/-! Login. -/

/-- A request is sent, and its answer is waited for. -/
theorem Chats.ask (w : World) {payload : Bytes} {pc : Pc} (h : Aloof payload)
    (hp : pc.stage.Keyed) : Chats w ((sendPacket P w payload).goto pc) :=
  .trans (.send P w h) (.goto _ hp)

theorem Chats.startAuth (w : World) : Chats w (startAuth P w) := by
  refine .ask P w (aloof_of_head (t := msgServiceRequest) ?_ (by decide)) (.inl rfl)
  rw [putCstring, putString_eq]
  rfl

theorem Deaf.onNewkeys (w : World) (t : ℤ) : Deaf w (onNewkeys P w t) := by
  unfold Client.onNewkeys
  split
  · exact (Chats.giveUp w _).toDeaf
  split
  · exact (Chats.giveUp w _).toDeaf
  · exact .trans (.decrypt w) (Chats.startAuth P _).toDeaf

theorem userauthRequest_aloof (user : Bytes) (method : String) (more : Bytes) :
    Aloof (userauthRequest user method ++ more) :=
  aloof_of_head (userauthRequest_head user method more) (by decide)

theorem Chats.onServiceAccept (w : World) (t : ℤ) : Chats w (onServiceAccept P w t) := by
  unfold Client.onServiceAccept
  split
  · exact .giveUp w _
  split
  · exact .giveUp w _
  · have hw : Chats w { w with offeredMethods := [] } := .same rfl rfl rfl (.inl rfl) rfl rfl
    have ha := userauthRequest_aloof w.job.user "none" []
    rw [List.append_nil] at ha
    exact hw.trans (.ask P _ ha (.inl rfl))

theorem Chats.authFailed (w : World) : Chats w (authFailed w) := by
  unfold Client.authFailed
  split
  · exact .giveUp w _
  · exact .giveUp w _

theorem Chats.authPassword (w : World) : Chats w (authPassword P w) := by
  refine .ask P w ?_ (.inl rfl)
  rw [passwordRequest, putString_eq, putU8, List.append_assoc]
  exact userauthRequest_aloof w.job.user "password" _

theorem Chats.authKeyboardInteractive (w : World) : Chats w (authKeyboardInteractive P w) := by
  unfold Client.authKeyboardInteractive
  split
  · refine .ask P w ?_ (.inl rfl)
    rw [keyboardInteractiveRequest, putCstring, putCstring, putString_eq, putString_eq,
      List.append_assoc]
    exact userauthRequest_aloof w.job.user "keyboard-interactive" _
  · exact .authFailed w

theorem Chats.authPublickey (w : World) : Chats w (authPublickey P w) := by
  unfold Client.authPublickey
  split
  swap
  · exact .authKeyboardInteractive P w
  split
  · exact .giveUp w _
  simp only
  split
  · exact .giveUp w _
  · refine .ask P w ?_ (.inl rfl)
    rw [publickeyRequest, publickeyClaim, putString_eq, putString_eq, putCstring, putString_eq,
      putU8]
    simp only [List.append_assoc]
    exact userauthRequest_aloof w.job.user "publickey" _

theorem Chats.startChannel (w : World) : Chats w (startChannel P w) := by
  refine .ask P w (aloof_of_head (t := msgChannelOpen) ?_ (by decide)) (.inl rfl)
  simp [channelOpenPayload, putU8, putU32, putCstring]

theorem Chats.noteFailureMethods (w : World) (pkt : Bytes) : Chats w (noteFailureMethods w pkt) := by
  unfold Client.noteFailureMethods
  split
  · exact .same rfl rfl rfl (.inl rfl) rfl rfl
  · exact .same rfl rfl rfl (.inl rfl) rfl rfl

theorem Chats.onNoneProbe (w : World) (t : ℤ) (pkt : Bytes) :
    Chats w (onNoneProbe P (Client.startChannel P) w t pkt) := by
  unfold Client.onNoneProbe
  split
  · exact .refl w
  split
  · exact .startChannel P w
  split
  · exact .trans (.noteFailureMethods w pkt) (.authPublickey P _)
  split
  · exact .giveUp w _
  · exact .authPublickey P w

theorem Chats.onPublickey (w : World) (t : ℤ) (pkt : Bytes) :
    Chats w (onPublickey P (Client.startChannel P) w t pkt) := by
  unfold Client.onPublickey
  split
  · exact .refl w
  split
  · exact .startChannel P w
  · exact .trans (.noteFailureMethods w pkt) (.authKeyboardInteractive P _)
  · exact .giveUp w _

theorem Chats.onKeyboardInteractive (w : World) (t : ℤ) (pkt : Bytes) :
    Chats w (onKeyboardInteractive P (Client.startChannel P) w t pkt) := by
  unfold Client.onKeyboardInteractive
  split
  · exact .refl w
  split
  · split
    · exact .giveUp w _
    · exact .send P w (aloof_of_head (infoResponse_head _ _) (by decide))
  split
  · exact .startChannel P w
  · exact .trans (.noteFailureMethods w pkt) (.authPassword P _)
  · exact .giveUp w _

theorem Chats.onPassword (w : World) (t : ℤ) (pkt : Bytes) :
    Chats w (onPassword (Client.startChannel P) w t pkt) := by
  unfold Client.onPassword
  split
  · exact .refl w
  split
  · exact .startChannel P w
  · exact .trans (.noteFailureMethods w pkt) (.authFailed _)
  · exact .giveUp w _

/-! The channel. -/

theorem Chats.onGlobalRequest (w : World) (pkt : Bytes) : Chats w (onGlobalRequest P w pkt) := by
  unfold Client.onGlobalRequest
  split
  · exact .refl w
  split
  · exact .send P w (aloof_of_head rfl (by decide))
  · exact .refl w

theorem Chats.pumpLoop (fuel : ℕ) (w : World) : Chats w (pumpLoop P fuel w) := by
  induction fuel generalizing w with
  | zero => exact .refl w
  | succ fuel ih =>
    unfold Client.pumpLoop
    simp only
    split
    · exact .refl w
    · have hs : Chats w { w with typed := w.typed.drop 256 } := .same rfl rfl rfl (.inl rfl) rfl rfl
      have hw := hs.trans (.note _ (o := .typed (w.typed.take 256)) rfl rfl rfl)
      have ha : Aloof (channelData w.cs (w.typed.take 256)) := by
        refine aloof_of_head (t := msgChannelData) ?_ (by decide)
        rw [channelData, putString_eq]
        rfl
      exact (hw.trans (.send P _ ha)).trans (ih _)

theorem channelEof_aloof (cs : Csess) : Aloof (channelEof cs) := aloof_of_head rfl (by decide)

theorem channelClose_aloof (cs : Csess) : Aloof (channelClose cs) := aloof_of_head rfl (by decide)

theorem Chats.pumpTop (w : World) : Chats w (pumpTop P w) := by
  have hin : Chats w (pumpInput P w) := by
    unfold pumpInput
    split
    · exact .pumpLoop P _ w
    · exact .refl w
  unfold Client.pumpTop
  split
  swap
  · exact .goto w (.inr rfl)
  refine hin.trans ?_
  simp only
  split
  · exact .trans (.send P _ (channelEof_aloof _))
      (.trans (.send P _ (channelClose_aloof _)) (.finishChannel _))
  · exact .goto _ (.inr rfl)

theorem Chats.requestCommand (w : World) : Chats w (requestCommand P w) := by
  refine .ask P w (aloof_of_head (t := msgChannelRequest) ?_ (by decide)) (.inr rfl)
  unfold commandPayload
  split
  · simp [putCstring, putU8, putU32]
  · simp [putCstring, putU8, putU32]

theorem Chats.onChannelOpen (w : World) (t : ℤ) (pkt : Bytes) :
    Chats w (onChannelOpen P w t pkt) := by
  unfold Client.onChannelOpen
  split
  · exact .giveUp w _
  split
  · exact .giveUp w _
  split
  · exact .giveUp w _
  refine .trans (.same rfl rfl rfl (.inl rfl) rfl rfl : Chats w (confirmChannel w pkt)) ?_
  simp only
  split
  · refine .ask P _ (aloof_of_head (t := msgChannelRequest) ?_ (by decide)) (.inr rfl)
    rw [ptyReqPayload, putString_eq, putCstring, putCstring, putString_eq, putString_eq]
    rfl
  · exact .requestCommand P _

theorem Chats.onPtyReq (w : World) (t : ℤ) : Chats w (onPtyReq P w t) := by
  unfold Client.onPtyReq
  split
  · exact .giveUp w _
  split
  · exact .requestCommand P w
  · exact .giveUp w _

theorem Chats.onChannelRequest (w : World) (t : ℤ) : Chats w (onChannelRequest P w t) := by
  unfold Client.onChannelRequest
  split
  · exact .giveUp w _
  split
  · exact .giveUp w _
  split
  · exact .giveUp w _
  simp only
  split
  · exact .trans (.send P w (channelEof_aloof _)) (.pumpTop P _)
  · exact .pumpTop P w

theorem Chats.replenish (w : World) (n : ℕ) : Chats w (replenish P w n) := by
  by_cases hu : usedWindow w.cs n < localWindowMax / 2
  · rw [replenish_adjust P hu]
    have ha : Aloof (channelWindowAdjust w.cs (localWindowMax - usedWindow w.cs n)) :=
      aloof_of_head rfl (by decide)
    exact .trans (.modify w _ rfl rfl) (.trans (.send P _ ha) (.modify _ _ rfl rfl))
  · rw [replenish_none P hu]
    exact .modify w _ rfl rfl

theorem Chats.onData (w : World) (pkt : Bytes) : Chats w (onData P w pkt) := by
  unfold Client.onData
  split
  · exact .refl w
  · exact .trans (.outWrite w _) (.replenish P _ _)

theorem Chats.onExtendedData (w : World) (pkt : Bytes) : Chats w (onExtendedData w pkt) := by
  unfold Client.onExtendedData
  split
  · exact .refl w
  · exact .outWrite w _

theorem Chats.onServerRequest (w : World) (pkt : Bytes) : Chats w (onServerRequest w pkt) := by
  unfold Client.onServerRequest
  split
  · exact .refl w
  simp only
  split
  · exact .same rfl rfl rfl (.inl rfl) rfl rfl
  · exact .refl w

theorem Chats.pumpSwitch (w : World) (t : UInt8) (pkt : Bytes) :
    Chats w (pumpSwitch P w t pkt).1 := by
  unfold Client.pumpSwitch
  split
  · exact .onData P w pkt
  split
  · exact .onExtendedData w pkt
  split
  · exact .same rfl rfl rfl (.inl rfl) rfl rfl
  split
  · exact .onServerRequest w pkt
  split
  · exact .send P w (channelClose_aloof _)
  split
  · exact .refl w
  split
  · exact .onGlobalRequest P w pkt
  · exact .refl w

theorem Chats.onPump (w : World) (t : ℤ) (pkt : Bytes) : Chats w (onPump P w t pkt) := by
  have hend (msg : String) : Chats w (Client.finishChannel (setMsg w msg)) :=
    .trans (.same rfl rfl rfl (.inl rfl) rfl rfl : Chats w (setMsg w msg)) (.finishChannel _)
  have hswitch := Chats.pumpSwitch P w (UInt8.ofNat t.toNat) pkt
  unfold Client.onPump
  split
  · split
    · exact .pumpTop P w
    · exact hend _
  split
  · exact hend _
  split
  · exact .finishChannel w
  split
  · rename_i w₁ hw₁
    rw [hw₁] at hswitch
    exact hswitch.trans (.finishChannel w₁)
  · rename_i w₁ hw₁
    rw [hw₁] at hswitch
    exact hswitch.trans (.pumpTop P w₁)

theorem Chats.channelRecv {k : World → ℤ → Bytes → World} (w : World) (t : ℤ) (pkt : Bytes)
    (hk : Chats w (k w t pkt)) : Chats w (channelRecv P k w t pkt) := by
  unfold Client.channelRecv
  split
  · exact .onGlobalRequest P w pkt
  split
  · exact .same rfl rfl rfl (.inl rfl) rfl rfl
  · exact hk

/-- What `recv_packet` returns behind the exchange. -/
theorem Chats.resume (w : World) (hp : w.pc.stage.Keyed) (t : ℤ) (pkt : Bytes) :
    Chats w (resume P w t pkt) := by
  unfold Client.resume
  cases hpc : w.pc with
  | version => exact absurd hp (by simp [hpc, Pc.stage, Stage.Keyed])
  | kexinit => exact absurd hp (by simp [hpc, Pc.stage, Stage.Keyed])
  | kexEcdhReply => exact absurd hp (by simp [hpc, Pc.stage, Stage.Keyed])
  | newkeys => exact absurd hp (by simp [hpc, Pc.stage, Stage.Keyed])
  | serviceAccept => exact .onServiceAccept P w t
  | noneProbe => exact .onNoneProbe P w t pkt
  | publickey => exact .onPublickey P w t pkt
  | keyboardInteractive => exact .onKeyboardInteractive P w t pkt
  | password => exact .onPassword P w t pkt
  | channelOpen => exact .channelRecv P w t pkt (.onChannelOpen P w t pkt)
  | ptyReq => exact .channelRecv P w t pkt (.onPtyReq P w t)
  | channelRequest => exact .channelRecv P w t pkt (.onChannelRequest P w t)
  | pump => exact .onPump P w t pkt
  | finished => exact .refl w

/-- What `recv_packet` returns is dealt with without reading on. -/
theorem Deaf.resume (w : World) (t : ℤ) (pkt : Bytes) : Deaf w (resume P w t pkt) := by
  by_cases hp : w.pc.stage.Keyed
  · exact (Chats.resume P w hp t pkt).toDeaf
  unfold Client.resume
  cases hpc : w.pc with
  | version => exact .refl w
  | kexinit => exact .onKexinit P w t pkt
  | kexEcdhReply => exact .onKexEcdhReply P w t pkt
  | newkeys => exact .onNewkeys P w t
  | finished => exact .refl w
  | _ => exact absurd (by simp [hpc, Pc.stage, Stage.Keyed]) hp

end Sshd.Client
