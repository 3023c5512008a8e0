import Sshd.Client.Polls
import Sshd.Server.Runs

namespace Sshd.Client

open Lib.Octets Lib.Trace Wire Crypto Framing
open Relation (ReflTransGen)
open Server (standIn blend packets)

variable (P : Primitives)

/-! The pump. -/

theorem pumpLoop_moves (fuel : ℕ) {w : World} (hs : w.pc.stage = .channel) :
    ReflTransGen (Move P) w (pumpLoop P fuel w) ∧ (pumpLoop P fuel w).pc = w.pc := by
  induction fuel generalizing w with
  | zero => exact ⟨.refl, rfl⟩
  | succ fuel ih =>
    unfold pumpLoop
    simp only
    split
    · exact ⟨.refl, rfl⟩
    · rename_i hne
      have hn : w.typed ≠ [] := fun h ↦ hne (by rw [h]; rfl)
      have hpc := sendPacket_pc P
        ({ w with typed := w.typed.drop 256 }.note (.typed (w.typed.take 256)))
        (channelData w.cs (w.typed.take 256))
      have hrest := ih (hpc ▸ hs)
      exact ⟨.head (.pumpRound hs hn) hrest.1, hrest.2.trans hpc⟩

theorem pc_of_channel {pc : Pc} (h : pc.stage = .channel) : pc ≠ .version ∧ pc ≠ .finished := by
  constructor <;>
    · rintro rfl
      cases h

theorem pumpTop_moves {w : World} (hs : w.pc.stage = .channel) :
    ReflTransGen (Move P) w (pumpTop P w) := by
  unfold pumpTop
  split
  · have hin : ReflTransGen (Move P) w (pumpInput P w) ∧ (pumpInput P w).pc = w.pc := by
      unfold pumpInput
      split
      · exact pumpLoop_moves P _ hs
      · exact ⟨.refl, rfl⟩
    have hst : (pumpInput P w).pc.stage = .channel := by rw [hin.2, hs]
    have hne := pc_of_channel hst
    simp only
    split
    · have heof := Quiet.plain P hst (channelEof_plain (pumpInput P w).cs)
      have hclose := Quiet.plain P (heof.stage.trans hst)
        (channelClose_plain (sendPacket P (pumpInput P w) (channelEof (pumpInput P w).cs)).cs)
      exact hin.1.tail (.gaveUp hne.2 ((finishChannel_over _).after (heof.trans hclose)))
    · exact hin.1.tail (.quiet hne (.goto (by rw [hin.2]; exact hs.symm)))
  · exact .single (.quiet (pc_of_channel hs) (.goto hs.symm))

theorem Resumes.moves {P : Primitives} {w w' : World}
    (hp : w.pc ≠ .version ∧ w.pc ≠ .finished) {t : ℤ} {pkt : Bytes}
    (hf : pkt ≠ [] → ∃ enc key seq packet, .opened enc key seq packet pkt ∈ w.obs)
    (h : Resumes P (w.note (.received w.pc t pkt)) t pkt w') : ReflTransGen (Move P) w w' := by
  obtain ho | ⟨w₁, ho, hs, rfl⟩ := h
  · exact .single (.received hp hf ho)
  · exact .head (.received hp hf ho) (pumpTop_moves P hs)

/-! Rounds of the loops. -/

theorem resume_resumes (w : World) (hp : w.pc ≠ .version ∧ w.pc ≠ .finished) {t : ℤ}
    (ht : Returned t) (pkt : Bytes) : Resumes P w t pkt (resume P w t pkt) := by
  have hlogin : ∀ {w'}, Settles P w w' → w.pc.onChannel = false → Resumes P w t pkt w' := by
    intro w' h hc
    refine h.resumes ?_
    rw [kindOf_login hc]
    trivial
  unfold resume
  cases hpc : w.pc with
  | version => exact absurd hpc hp.1
  | kexinit => exact .inl (onKexinit_outcome P hpc t pkt)
  | kexEcdhReply => exact .inl (onKexEcdhReply_outcome P hpc t pkt)
  | newkeys => exact .inl (onNewkeys_outcome P hpc t pkt)
  | serviceAccept =>
    exact hlogin (onServiceAccept_settles P (by rw [hpc]; rfl) t) (by rw [hpc]; rfl)
  | noneProbe => exact hlogin (onNoneProbe_settles P (by rw [hpc]; rfl) t pkt) (by rw [hpc]; rfl)
  | publickey => exact hlogin (onPublickey_settles P (by rw [hpc]; rfl) t pkt) (by rw [hpc]; rfl)
  | keyboardInteractive =>
    exact hlogin (onKeyboardInteractive_settles P (by rw [hpc]; rfl) t pkt) (by rw [hpc]; rfl)
  | password => exact hlogin (onPassword_settles P (by rw [hpc]; rfl) t pkt) (by rw [hpc]; rfl)
  | channelOpen =>
    exact channelRecv_resumes P (by rw [hpc]; rfl) fun _ ↦ .inl (onChannelOpen_outcome P hpc)
  | ptyReq =>
    exact channelRecv_resumes P (by rw [hpc]; rfl) fun h ↦ .inl (onPtyReq_outcome P hpc h)
  | channelRequest =>
    exact channelRecv_resumes P (by rw [hpc]; rfl) fun h ↦ onChannelRequest_resumes P hpc h
  | pump => exact onPump_resumes P hpc ht pkt
  | finished => exact absurd hpc hp.2

theorem tryParse_got {w w' : World} {out : Bytes} (h : tryParse P w = .got out w') :
    Quiet P w w' ∧ w'.pc = w.pc ∧ ∃ enc key seq packet, .opened enc key seq packet out ∈ w'.obs := by
  unfold tryParse at h
  split at h
  · cases h
  · cases h
  · obtain ⟨rfl, rfl⟩ := Received.got.inj h
    exact ⟨.silent rfl rfl rfl rfl rfl rfl rfl (by simp [Obs.Calm, Obs.Unsent]), rfl,
      _, _, _, _, List.mem_append_right _ (List.mem_singleton_self _)⟩

theorem recvRound_moves (expired : Bool) {w : World} (hp : w.pc ≠ .version ∧ w.pc ≠ .finished) :
    ReflTransGen (Move P) w (recvRound P expired w).2 ∧ (recvRound P expired w).2.pc = w.pc ∧
      ∀ t pkt, (recvRound P expired w).1 = some (t, pkt) → Returned t ∧
        (pkt ≠ [] → ∃ enc key seq packet,
          .opened enc key seq packet pkt ∈ (recvRound P expired w).2.obs) := by
  unfold recvRound
  cases hr : tryParse P w with
  | needMore =>
    simp only
    split
    · refine ⟨.refl, rfl, ?_⟩
      rintro t pkt h
      obtain ⟨rfl, rfl⟩ := Prod.mk.inj (Option.some.inj h)
      exact ⟨.inl rfl, fun h ↦ absurd rfl h⟩
    · split
      · refine ⟨.single (.fill hp.2), rfl, ?_⟩
        rintro t pkt h
        obtain ⟨rfl, rfl⟩ := Prod.mk.inj (Option.some.inj h)
        exact ⟨.inr (.inr (.inl rfl)), fun h ↦ absurd rfl h⟩
      · exact ⟨.single (.fill hp.2), rfl, fun _ _ h ↦ by cases h⟩
  | bad =>
    refine ⟨.refl, rfl, ?_⟩
    rintro t pkt h
    obtain ⟨rfl, rfl⟩ := Prod.mk.inj (Option.some.inj h)
    exact ⟨.inr (.inl rfl), fun h ↦ absurd rfl h⟩
  | got out w₁ =>
    obtain ⟨hq, hpc, hopened⟩ := tryParse_got P hr
    cases out with
    | nil =>
      refine ⟨.single (.quiet hp hq), hpc, ?_⟩
      rintro t pkt h
      obtain ⟨rfl, rfl⟩ := Prod.mk.inj (Option.some.inj h)
      exact ⟨.inr (.inl rfl), fun h ↦ absurd rfl h⟩
    | cons b body =>
      simp only
      split
      · exact ⟨.single (.quiet hp hq), hpc, fun _ _ h ↦ by cases h⟩
      · refine ⟨.single (.quiet hp hq), hpc, ?_⟩
        rintro t pkt h
        obtain ⟨rfl, rfl⟩ := Prod.mk.inj (Option.some.inj h)
        exact ⟨.inr (.inr (.inr ⟨b, rfl⟩)), fun _ ↦ hopened⟩

theorem versionRound_moves (expired : Bool) {w : World} (hp : w.pc = .version) :
    ReflTransGen (Move P) w (versionRound P expired w) := by
  have hne : w.pc ≠ .finished := by simp [hp]
  unfold versionRound
  split
  · rename_i line rest hl
    simp only
    split
    · rename_i hs
      split
      · refine .single (.gaveUp hne ((giveUp_over _ _).of_modify fun _ ↦ ?_))
        exact ⟨rfl, rfl, rfl, rfl⟩
      · exact .single (.startKex hp hl hs)
    · rename_i hs
      exact .single (.skipLine hp hl hs)
  · split
    · exact .single (.gaveUp hne (giveUp_over _ _))
    simp only
    split
    · exact .tail (.single (.fill hne)) (.gaveUp hne (giveUp_over _ _))
    · exact .single (.fill hne)

theorem poll_moves (expired : Bool) (w : World) : ReflTransGen (Move P) w (poll P expired w) := by
  unfold poll
  split
  · exact .refl
  · rename_i hp
    exact versionRound_moves P expired hp
  · rename_i hfin hver
    have hp : w.pc ≠ .version ∧ w.pc ≠ .finished := ⟨hver, hfin⟩
    obtain ⟨hm, hpc, hret⟩ := recvRound_moves P expired hp
    split
    · rename_i w' he
      rw [he] at hm
      exact hm
    · rename_i t pkt w' he
      rw [he] at hm hpc hret
      obtain ⟨ht, hf⟩ := hret t pkt rfl
      have hp' : w'.pc ≠ .version ∧ w'.pc ≠ .finished := hpc ▸ hp
      have hr : Resumes P (w'.note (.received w'.pc t pkt)) t pkt
          (resume P (w'.note (.received w'.pc t pkt)) t pkt) :=
        resume_resumes P (w'.note (.received w'.pc t pkt)) hp' ht pkt
      exact hm.trans (hr.moves hp' hf)

/-- What a client sends in front of its packets. -/
def versionLine : Bytes := ourVersionStr ++ ascii "\r\n"

theorem runSession_connected {env : Env} (h : 0 ≤ env.itsConnect) (job : SshJob)
    (store : List Bytes) : ∃ took,
      (runSession env job store).obs = [.itsConnect env.itsConnect, .itsSend versionLine took] ∧
      (runSession env job store).cs =
        { handle := env.itsConnect, ourVersion := ourVersionStr } ∧
      (runSession env job store).pc = .version ∧ (runSession env job store).job = job ∧
      (runSession env job store).knownHosts = store := by
  have hh : ¬env.itsConnect < 0 := not_lt.mpr h
  simp [runSession, sendRaw, itsSend, World.note, World.modify, World.goto, hh, versionLine]

theorem runSession_refused {env : Env} (h : env.itsConnect < 0) (job : SshJob)
    (store : List Bytes) :
    (runSession env job store).obs = [.itsConnect env.itsConnect] ∧
      (runSession env job store).pc = .finished ∧
      (runSession env job store).job.host = job.host ∧
      (runSession env job store).knownHosts = store := by
  simp [runSession, World.note, World.modify, fail, h]

theorem step_moves (w : World) (event : Event) : ReflTransGen (Move P) w (step P w event) := by
  cases event with
  | tcpArrive data => exact .single (.idle ⟨rfl, rfl, rfl, rfl, rfl, rfl⟩)
  | tcpClose => exact .single (.idle ⟨rfl, rfl, rfl, rfl, rfl, rfl⟩)
  | typed data => exact .single (.idle ⟨rfl, rfl, rfl, rfl, rfl, rfl⟩)
  | userClose => exact .single (.idle ⟨rfl, rfl, rfl, rfl, rfl, rfl⟩)
  | poll expired => exact poll_moves P expired w

theorem run_moves (w : World) (events : List Event) :
    ReflTransGen (Move P) w (runFrom P w events) := by
  induction events generalizing w with
  | nil => exact .refl
  | cons event events ih => exact (step_moves P w event).trans (ih (step P w event))

/-- What holds at the start and is kept by every transition holds of every run. -/
theorem run_induction {motive : World → Prop} {w : World} (hinit : motive w)
    (hmove : ∀ w w', Move P w w' → motive w → motive w') (events : List Event) :
    motive (runFrom P w events) := by
  have hrun := run_moves P w events
  generalize runFrom P w events = w' at hrun
  induction hrun with
  | refl => exact hinit
  | tail _ hm ih => exact hmove _ _ hm ih

/-! A session to run, over the server's stand-ins. -/

def sampleEnv : Env where
  random obs i := if i = 0 then UInt8.ofNat obs.length else 2
  itsConnect := 3
  itsSend _ data := data.length
  itsRecv _ := 1024
  xStreamBufferSend _ left := left.length
  termSize := (80, 24)
  junk := []

/-- `ssh root@host`. -/
def sampleJob : SshJob where
  host := ascii "host"
  user := ascii "root"
  haveCmd := false
  command := []
  havePassword := true
  password := ascii "secret"
  tryPubkey := false
  seed := List.replicate 32 7
  hasIn := true

def serverKexinit : Bytes :=
  let p := putU8 [] msgKexinit ++ List.replicate 16 0
  let p := putNamelist p "curve25519-sha256"
  let p := putNamelist p "ssh-ed25519"
  let p := putNamelist p "chacha20-poly1305@openssh.com"
  putNamelist p "chacha20-poly1305@openssh.com"

/-- What a server sends before its reply. -/
def serverHello : Bytes := ascii "SSH-2.0-x\n" ++ packets false [] 0 [serverKexinit]

/-- The sample client after it has read `bytes` and `typed`. -/
def sampleRun (bytes typed : Bytes) (polls : ℕ) : World :=
  runFrom standIn (runSession sampleEnv sampleJob [])
    (.tcpArrive bytes :: .typed typed :: List.replicate polls (.poll false))

def serverHostKey : Bytes := List.replicate 32 5

/-- The reply of a server that owns the host key, to the client in the state `w`. -/
def serverReply (w : World) : Bytes :=
  let ks := putString (putCstring [] "ssh-ed25519") serverHostKey
  let qs := List.replicate 32 9
  let k := (x25519Scalar standIn w.cs.ephPriv qs).getD []
  let h := (exchanged standIn w ks qs k).cs.sessionId
  let sig := (blend 64 (h ++ serverHostKey)).toList
  let p := putString (putU8 [] msgKexEcdhReply) ks
  let p := putString p qs
  putString p (putString (putCstring [] "ssh-ed25519") sig)

/-- What a server sends in the clear. -/
def serverExchange : Bytes :=
  serverHello ++ packets false [] 1 [serverReply (sampleRun serverHello [] 8), [msgNewkeys]]

def serverKey : Bytes := (sampleRun serverExchange [] 8).cs.recvKey

def serverConfirm (window maxPacket : UInt32) : Bytes :=
  putU32 (putU32 (putU32 (putU32 (putU8 [] msgChannelOpenConfirm) 0) 0) window) maxPacket

/-- A server that lets the client in, opens a channel and a shell, and then
sends the given payloads. -/
def serverBytes (window maxPacket : UInt32) (payloads : List Bytes) : Bytes :=
  serverExchange ++ packets true serverKey 3
    ([msgServiceAccept] :: [msgUserauthSuccess] :: serverConfirm window maxPacket ::
      [msgChannelSuccess] :: [msgChannelSuccess] :: payloads)

end Sshd.Client
