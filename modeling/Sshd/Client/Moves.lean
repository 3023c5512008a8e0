import Sshd.Lib.Trace
import Sshd.Client.Quiet

namespace Sshd.Client

open Lib.Octets Lib.Trace Wire Crypto Framing
open Relation (ReflTransGen)

variable (P : Primitives)

/-- Calls of a session that comes to its end. -/
def Obs.Final (stage : Stage) : Obs → Prop
  | .itsDisconnect _ | .verify _ _ _ _ => True
  | .knownHosts _ _ ok => ok = false
  | o => o.Calm stage

/-- `w'` is the end of the session `w`. -/
structure Over (w w' : World) : Prop where
  env : w'.env = w.env
  given : w'.job.given = w.job.given
  pc : w'.pc = .finished
  knownHosts : w'.knownHosts = w.knownHosts
  obs : ∃ os, w'.obs = w.obs ++ os ∧ (∀ o ∈ os, o.Final w.pc.stage) ∧
    Emits P w.cs os w'.cs.seqOut

/-- The session with an ephemeral key pair. -/
def ephemeral (w : World) (priv pub : Bytes) : World :=
  (w.note (.random priv)).modify fun cs ↦ { cs with ephPriv := priv, ephPub := pub }

/-- The session after the exchange: the peer's ephemeral key, `K` and `H` are
in place. -/
def exchanged (w : World) (kBlob qs k : Bytes) : World :=
  let w := w.modify fun cs ↦ { cs with peerEphPub := qs }
  let w := w.modify fun cs ↦ { cs with sharedK := k }
  w.modify fun cs ↦ { cs with sessionId := computeExchangeHash P w.cs kBlob }

/-- The session once the host's signature and its key have been accepted. -/
def trusted (w : World) (kBlob qs k hpub sig64 : Bytes) (store : List Bytes) : World :=
  { (exchanged P w kBlob qs k).note
      (.verify hpub (exchanged P w kBlob qs k).cs.sessionId sig64 true) with
    knownHosts := store }.note (.knownHosts w.job.host (hostkeyFingerprint P kBlob) true)

/-- The session with its keys in use for sending. -/
def keyed (w : World) : World :=
  (((w.modify fun cs ↦ { cs with sendKey := deriveKey P cs 67 64 }).modify
    fun cs ↦ { cs with recvKey := deriveKey P cs 68 64 }).modify
      fun cs ↦ { cs with encOut := true }).goto .newkeys

/-- The session with its proposal. -/
def proposed (w : World) (cookie : Bytes) : World :=
  (w.note (.random cookie)).modify fun cs ↦ { cs with ourKexInit := putKexinit cookie }

/-- The session with the channel that a CHANNEL_OPEN_CONFIRM names. -/
def confirmChannel (w : World) (pkt : Bytes) : World :=
  w.modify fun cs ↦
    { cs with
      peerChannel := (confirmed pkt).1
      peerWindow := (confirmed pkt).2.1
      peerMaxPacket := (confirmed pkt).2.2
      localWindow := localWindowMax }

/-- Places where the client reads channel messages. -/
def Pc.onChannel : Pc → Bool
  | .channelOpen | .ptyReq | .channelRequest | .pump => true
  | _ => false

/-- What a packet means for the flow control, at the place where it is read. -/
inductive Kind
  | plain
  | confirm (window maxPacket : UInt32)
  | adjust (amount : UInt32)
  | data (n : ℕ)
  | extended (n : ℕ)
  deriving DecidableEq

def kindOf (pc : Pc) (t : ℤ) (pkt : Bytes) : Kind :=
  if pc = .channelOpen ∧ t = msgChannelOpenConfirm.toNat then
    .confirm (confirmed pkt).2.1 (confirmed pkt).2.2
  else if pc.onChannel = true ∧ t = msgChannelWindowAdjust.toNat then .adjust (adjustAmount pkt)
  else if pc = .pump ∧ t = msgChannelData.toNat then
    match dataOf pkt with
    | none => .plain
    | some d => .data d.length
  else if pc = .pump ∧ t = msgChannelExtendedData.toNat then
    match extendedDataOf pkt with
    | none => .plain
    | some d => .extended d.length
  else .plain

/-- Packets that leave the windows alone. -/
def Kind.Windowless : Kind → Prop
  | .plain | .extended _ => True
  | _ => False

/-- What a return of `recv_packet` can do; `w` is the session with the return
on record. -/
inductive Outcome (w : World) (t : ℤ) (pkt : Bytes) : World → Prop
  | quiet {w'} (hk : (kindOf w.pc t pkt).Windowless) (h : Quiet P w w') : Outcome w t pkt w'
  | gaveUp {w'} (h : Over P w w') : Outcome w t pkt w'
  | ecdhInit (hp : w.pc = .kexinit) (ht : t = msgKexinit.toNat) {priv pub : Bytes}
      (hb : x25519Base P priv = some pub) :
      Outcome w t pkt ((sendPacket P
        (ephemeral (w.modify fun cs ↦ { cs with peerKexInit := pkt }) priv pub)
        (putString (putU8 [] msgKexEcdhInit) pub)).goto .kexEcdhReply)
  | verified (hp : w.pc = .kexEcdhReply) (ht : t = msgKexEcdhReply.toNat)
      {ks qs sig hpub sig64 k note : Bytes} {store : List Bytes}
      (hr : kexEcdhReply pkt = .ok (ks, qs, sig))
      (hh : ed25519Blob ks 32 "host key not ssh-ed25519" "bad host pubkey" = .ok hpub)
      (hs : ed25519Blob sig 64 "host sig not ssh-ed25519" "bad host signature" = .ok sig64)
      (hx : x25519Scalar P w.cs.ephPriv qs = some k)
      (hv : ed25519Verify P hpub (exchanged P w ks qs k).cs.sessionId sig64 = true)
      (hn : knownHostsCheck w.knownHosts w.job.host (hostkeyFingerprint P ks) =
        (true, note, store)) :
      Outcome w t pkt (keyed P
        (sendPacket P (trusted P w ks qs k hpub sig64 store) (putU8 [] msgNewkeys)))
  | newkeys (hp : w.pc = .newkeys) :
      Outcome w t pkt ((sendPacket P (w.modify fun cs ↦ { cs with encIn := true })
        (putCstring (putU8 [] msgServiceRequest) "ssh-userauth")).goto .serviceAccept)
  | confirm (hp : w.pc = .channelOpen) (ht : t = msgChannelOpenConfirm.toNat) {w'}
      (h : Quiet P ((confirmChannel w pkt).goto .ptyReq) w') : Outcome w t pkt w'
  | adjust (hp : w.pc.onChannel = true) (ht : t = msgChannelWindowAdjust.toNat) :
      Outcome w t pkt (onWindowAdjust w pkt)
  | data (hp : w.pc = .pump) (ht : t = msgChannelData.toNat) {d : Bytes}
      (hd : dataOf pkt = some d) : Outcome w t pkt (replenish P (outWrite w d) d.length)

/-- `w'` is `w` with other bytes waiting in ITS or in `job.in`. -/
structure Idle (w w' : World) : Prop where
  env : w'.env = w.env
  given : w'.job.given = w.job.given
  cs : w'.cs = w.cs
  pc : w'.pc = w.pc
  knownHosts : w'.knownHosts = w.knownHosts
  obs : w'.obs = w.obs

/-- The transitions that every event of a session is made of. -/
inductive Move : World → World → Prop
  | idle {w w'} (h : Idle w w') : Move w w'
  | quiet {w w'} (hp : w.pc ≠ .version ∧ w.pc ≠ .finished) (h : Quiet P w w') : Move w w'
  | gaveUp {w w'} (hp : w.pc ≠ .finished) (h : Over P w w') : Move w w'
  | fill {w} (hp : w.pc ≠ .finished) : Move w (fillRx w).2
  | skipLine {w} (hp : w.pc = .version) {line rest : Bytes}
      (hl : takeLine w.cs.rxBuf = some (line, rest)) (hs : line.take 4 ≠ ascii "SSH-") :
      Move w (w.modify fun cs ↦ { cs with rxBuf := rest })
  | startKex {w} (hp : w.pc = .version) {line rest : Bytes}
      (hl : takeLine w.cs.rxBuf = some (line, rest)) (hs : line.take 4 = ascii "SSH-")
      {cookie : Bytes} :
      Move w ((sendPacket P
        (proposed (w.modify fun cs ↦ { cs with rxBuf := rest, peerVersion := line }) cookie)
        (putKexinit cookie)).goto .kexinit)
  | received {w w'} (hp : w.pc ≠ .version ∧ w.pc ≠ .finished) {t : ℤ} {pkt : Bytes}
      (hf : pkt ≠ [] → ∃ enc key seq packet, .opened enc key seq packet pkt ∈ w.obs)
      (h : Outcome P (w.note (.received w.pc t pkt)) t pkt w') : Move w w'
  | pumpRound {w} (hp : w.pc.stage = .channel) (hn : w.typed ≠ []) :
      Move w (sendPacket P
        ({ w with typed := w.typed.drop 256 }.note (.typed (w.typed.take 256)))
        (channelData w.cs (w.typed.take 256)))

section
variable (w : World)

@[simp] theorem keyed_obs : (keyed P w).obs = w.obs := by
  rw [keyed, goto_obs, modify_obs, modify_obs, modify_obs]

@[simp] theorem keyed_job : (keyed P w).job = w.job := by
  rw [keyed, goto_job, modify_job, modify_job, modify_job]

@[simp] theorem keyed_pc : (keyed P w).pc = .newkeys := by rw [keyed, goto_pc]

@[simp] theorem keyed_knownHosts : (keyed P w).knownHosts = w.knownHosts := by
  rw [keyed, goto_knownHosts, modify_knownHosts, modify_knownHosts, modify_knownHosts]

theorem keyed_cs :
    (keyed P w).cs =
      { w.cs with
        sendKey := deriveKey P w.cs 67 64
        recvKey := deriveKey P { w.cs with sendKey := deriveKey P w.cs 67 64 } 68 64
        encOut := true } := by
  rw [keyed, goto_cs, modify_cs, modify_cs, modify_cs]

end

variable {P}

section
variable {w w₁ w' : World}

theorem Obs.Calm.final {stage : Stage} {o : Obs} (h : o.Calm stage) : o.Final stage := by
  cases o <;> first | exact h | exact h.elim

theorem Over.after (h : Over P w₁ w') (hq : Quiet P w w₁) : Over P w w' := by
  obtain ⟨os, hobs, hcalm, hemit⟩ := hq.obs
  obtain ⟨os', hobs', hfinal, hemit'⟩ := h.obs
  refine ⟨h.env.trans hq.env, h.given.trans hq.given, h.pc, h.knownHosts.trans hq.knownHosts,
    os ++ os', by rw [hobs', hobs, List.append_assoc], ?_, ?_⟩
  · intro o hm
    rcases List.mem_append.mp hm with hm | hm
    · exact (hcalm o hm).final
    · exact hq.stage ▸ hfinal o hm
  · exact hemit.append hemit' (congrArg Core.encOut hq.core) (congrArg Core.sendKey hq.core)
      (congrArg Core.handle hq.core)

/-- What the exchange has written so far is forgotten with the session. -/
theorem Over.of_modify {f : Csess → Csess} (h : Over P (w.modify f) w')
    (hf : ∀ cs, (f cs).seqOut = cs.seqOut ∧ (f cs).handle = cs.handle ∧ (f cs).encOut = cs.encOut ∧
      (f cs).sendKey = cs.sendKey) : Over P w w' := by
  obtain ⟨hseq, hhandle, henc, hkey⟩ := hf w.cs
  obtain ⟨os, hobs, hfinal, hemit⟩ := h.obs
  refine ⟨h.env, h.given, h.pc, h.knownHosts, os, hobs, hfinal, ?_⟩
  exact ⟨hseq ▸ hemit.next, hseq ▸ hemit.seq, henc ▸ hkey ▸ hemit.mode,
    fun hpos ↦ hemit.writes (hhandle.symm ▸ hpos)⟩

theorem Over.of_note {o : Obs} (h : Over P (w.note o) w') (ho : o.Final w.pc.stage)
    (hu : o.Unsent) : Over P w w' := by
  obtain ⟨os, hobs, hfinal, hemit⟩ := h.obs
  have hone : Emits P w.cs [o] w.cs.seqOut := .unsent (by simpa using hu)
  refine ⟨h.env, h.given, h.pc, h.knownHosts, [o] ++ os, ?_, ?_, ?_⟩
  · rw [hobs, note_obs, List.append_assoc]
  · intro a ha
    rcases List.mem_append.mp ha with ha | ha
    · rw [List.mem_singleton.mp ha]
      exact ho
    · exact hfinal a ha
  · exact hone.append hemit rfl rfl rfl

theorem Over.of_exchanged {kBlob qs k : Bytes} (h : Over P (exchanged P w kBlob qs k) w') :
    Over P w w' := by
  obtain ⟨os, hobs, hfinal, hemit⟩ := h.obs
  exact ⟨h.env, h.given, h.pc, h.knownHosts, os, hobs, hfinal,
    hemit.next, hemit.seq, hemit.mode, hemit.writes⟩

end

/-! What a transition adds to the record. -/

/-- `w'` has recorded nothing since `w` but calls of the kind `p`. -/
def Adds (p : Obs → Prop) (w w' : World) : Prop := ∃ os, w'.obs = w.obs ++ os ∧ ∀ o ∈ os, p o

section
variable {p : Obs → Prop} {w w₁ w' : World}

theorem Adds.trans (h : Adds p w w₁) (h' : Adds p w₁ w') : Adds p w w' := by
  obtain ⟨os, hobs, hos⟩ := h
  obtain ⟨os', hobs', hos'⟩ := h'
  refine ⟨os ++ os', by rw [hobs', hobs, List.append_assoc], fun o ho ↦ ?_⟩
  rcases List.mem_append.mp ho with ho | ho
  · exact hos o ho
  · exact hos' o ho

theorem Adds.same (h : w'.obs = w.obs) : Adds p w w' :=
  ⟨[], h.trans (List.append_nil _).symm, by simp⟩

theorem Adds.note (w : World) {o : Obs} (h : p o) : Adds p w (w.note o) :=
  ⟨[o], rfl, by simpa using h⟩

/-- Sending a packet adds its frame, with the padding drawn and the bytes written. -/
theorem Adds.send (w : World) {payload : Bytes} (hf : ∀ f : Frame, f.payload = payload → p (.sealed f))
    (hr : ∀ bytes, p (.random bytes)) (hs : ∀ data took, p (.itsSend data took)) :
    Adds p w (sendPacket P w payload) := by
  refine ⟨_, sendPacket_obs P w payload, fun o ho ↦ ?_⟩
  obtain ⟨_, rfl⟩ | ⟨f, rfl, hpay⟩ | ⟨_, _, rfl⟩ := mem_sendObs P w _ ho
  · exact hr _
  · exact hf f hpay
  · exact hs _ _

theorem Quiet.adds (h : Quiet P w w') (hp : ∀ o : Obs, o.Calm w.pc.stage → p o) : Adds p w w' := by
  obtain ⟨os, hobs, hcalm, -⟩ := h.obs
  exact ⟨os, hobs, fun o ho ↦ hp o (hcalm o ho)⟩

theorem Over.adds (h : Over P w w') (hp : ∀ o : Obs, o.Final w.pc.stage → p o) : Adds p w w' := by
  obtain ⟨os, hobs, hfinal, -⟩ := h.obs
  exact ⟨os, hobs, fun o ho ↦ hp o (hfinal o ho)⟩

end

theorem hangUp_over (w : World) : Over P w (hangUp w) :=
  ⟨rfl, rfl, rfl, rfl, [.itsDisconnect w.cs.handle], rfl, by simp [Obs.Final],
    .unsent (by simp [Obs.Unsent])⟩

theorem giveUp_over (w : World) (msg : Bytes) : Over P w (giveUp w msg) := by
  have hq : Quiet P w (fail w msg) := .same rfl rfl rfl rfl rfl rfl rfl
  exact (hangUp_over _).after hq

theorem finishChannel_over (w : World) : Over P w (finishChannel w) := by
  refine (hangUp_over _).after (.same rfl ?_ rfl rfl rfl rfl rfl)
  simp only
  split <;> rfl

end Sshd.Client
