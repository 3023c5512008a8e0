import Sshd.Client.Run
import Sshd.Lib.Writes

namespace Sshd.Client

open Lib.Octets Wire Crypto Framing

variable (P : Primitives)

/-- How far a session has come. -/
inductive Stage
  | version
  | kexinit
  | reply
  | newkeys
  | login
  | channel
  | finished
  deriving DecidableEq

def Pc.stage : Pc → Stage
  | .version => .version
  | .kexinit => .kexinit
  | .kexEcdhReply => .reply
  | .newkeys => .newkeys
  | .serviceAccept | .noneProbe | .publickey | .keyboardInteractive | .password
  | .channelOpen => .login
  | .ptyReq | .channelRequest | .pump => .channel
  | .finished => .finished

/-- The fields that the exchange, the switch of keys and the flow control set. -/
structure Core where
  handle : ℤ
  ourVersion : Bytes
  peerVersion : Bytes
  ourKexInit : Bytes
  peerKexInit : Bytes
  ephPriv : Bytes
  ephPub : Bytes
  peerEphPub : Bytes
  sharedK : Bytes
  sessionId : Bytes
  sendKey : Bytes
  recvKey : Bytes
  encOut : Bool
  encIn : Bool
  peerChannel : UInt32
  peerWindow : UInt32
  peerMaxPacket : UInt32
  localWindow : UInt32

def Csess.core (cs : Csess) : Core := { cs with }

/-- What a job was started with. -/
structure Given where
  host : Bytes
  user : Bytes
  haveCmd : Bool
  command : Bytes
  havePassword : Bool
  password : Bytes
  tryPubkey : Bool
  seed : Bytes
  hasIn : Bool

def SshJob.given (job : SshJob) : Given := { job with }

/-- Packets of user authentication. -/
def Userauth (payload : Bytes) : Prop :=
  payload.head? = some msgUserauthRequest ∨ payload.head? = some msgUserauthInfoResponse

/-- Messages that neither carry data nor grant the server window. -/
def Dataless (payload : Bytes) : Prop :=
  payload.head? ≠ some msgChannelData ∧ payload.head? ≠ some msgChannelWindowAdjust

/-- Stages after the exchange. -/
def Stage.Keyed (stage : Stage) : Prop := stage = .login ∨ stage = .channel

/-- Calls of every stage; packets are sent after the exchange only, and user
authentication is spoken at login only. -/
def Obs.Calm (stage : Stage) : Obs → Prop
  | .random _ | .itsSend _ _ | .opened _ _ _ _ _ => True
  | .output data took => Lib.Writes.Poured data took
  | .sealed f => Dataless f.payload ∧ (Userauth f.payload → stage = .login) ∧ stage.Keyed
  | _ => False

/-- The frames on record. -/
def frames (obs : List Obs) : List Frame :=
  obs.filterMap fun o ↦ match o with
    | .sealed f => some f
    | _ => none

/-- What was offered to the connection, each time with how much it took. -/
def tcpWrites (obs : List Obs) : List (Bytes × ℕ) :=
  obs.filterMap fun o ↦ match o with
    | .itsSend data took => some (data, took)
    | _ => none

theorem frames_append (obs os : List Obs) : frames (obs ++ os) = frames obs ++ frames os :=
  List.filterMap_append

theorem tcpWrites_append (obs os : List Obs) :
    tcpWrites (obs ++ os) = tcpWrites obs ++ tcpWrites os := List.filterMap_append

/-- A connected session `cs` that only sends packets records `os` and ends up
at sequence number `next`. -/
structure Emits (P : Primitives) (cs : Csess) (os : List Obs) (next : ℕ) : Prop where
  next : next = cs.seqOut + (frames os).length
  seq : (frames os).map Frame.seq = List.range' cs.seqOut (frames os).length
  mode : ∀ f ∈ frames os, f.enc = cs.encOut ∧ f.key = cs.sendKey
  writes : 0 ≤ cs.handle → (tcpWrites os).map Prod.fst = (frames os).map (Frame.bytes P)

/-- Calls that send nothing. -/
def Obs.Unsent : Obs → Prop
  | .sealed _ | .itsSend _ _ => False
  | _ => True

theorem frames_unsent {os : List Obs} (h : ∀ o ∈ os, o.Unsent) : frames os = [] := by
  refine List.filterMap_eq_nil_iff.mpr fun o ho ↦ ?_
  have hu := h o ho
  cases o with
  | sealed => exact hu.elim
  | _ => rfl

theorem tcpWrites_unsent {os : List Obs} (h : ∀ o ∈ os, o.Unsent) : tcpWrites os = [] := by
  refine List.filterMap_eq_nil_iff.mpr fun o ho ↦ ?_
  have hu := h o ho
  cases o with
  | itsSend => exact hu.elim
  | _ => rfl

section
variable {P : Primitives} {cs cs' : Csess} {os os' : List Obs} {next : ℕ}

theorem Emits.unsent (h : ∀ o ∈ os, o.Unsent) : Emits P cs os cs.seqOut := by
  refine ⟨?_, ?_, ?_, ?_⟩ <;> simp [frames_unsent h, tcpWrites_unsent h]

theorem Emits.append (h : Emits P cs os cs'.seqOut) (h' : Emits P cs' os' next)
    (henc : cs'.encOut = cs.encOut) (hkey : cs'.sendKey = cs.sendKey)
    (hh : cs'.handle = cs.handle) : Emits P cs (os ++ os') next := by
  have hnext := h.next
  refine ⟨?_, ?_, ?_, ?_⟩
  · rw [h'.next, hnext, frames_append, List.length_append, Nat.add_assoc]
  · rw [frames_append, List.map_append, h.seq, h'.seq, hnext, List.length_append,
      List.range'_append_1]
  · intro f hf
    rw [frames_append, List.mem_append] at hf
    rcases hf with hf | hf
    · exact h.mode f hf
    · rw [← henc, ← hkey]
      exact h'.mode f hf
  · intro hpos
    rw [tcpWrites_append, frames_append, List.map_append, List.map_append, h.writes hpos,
      h'.writes (hh ▸ hpos)]

end

/-- The frame that `sendPacket` makes. -/
def sendFrame (w : World) (payload : Bytes) : Frame :=
  ⟨w.cs.encOut, w.cs.sendKey, w.cs.seqOut, payload,
    (randomBytes w (padLen w.cs.encOut payload.length)).1⟩

/-- What `sendPacket` adds to the record. -/
def sendObs (w : World) (payload : Bytes) : List Obs :=
  let f := sendFrame w payload
  let w := (w.note (.random f.pad)).note (.sealed f)
  if w.cs.handle < 0 then [.random f.pad, .sealed f]
  else [.random f.pad, .sealed f,
    .itsSend (f.bytes P) (min (w.env.itsSend w.obs (f.bytes P)) (f.bytes P).length)]

theorem sendPacket_eq (w : World) (payload : Bytes) :
    sendPacket P w payload =
      { w.modify (fun cs ↦ { cs with seqOut := cs.seqOut + 1 }) with
        obs := w.obs ++ sendObs P w payload } := by
  by_cases h : w.cs.handle < 0
  · simp [sendPacket, sendRaw, sendObs, sendFrame, randomBytes, World.note, World.modify, h]
  · simp [sendPacket, sendRaw, sendObs, sendFrame, randomBytes, itsSend, World.note, World.modify, h]

section
variable (w : World) (payload : Bytes)

theorem sendPacket_cs :
    (sendPacket P w payload).cs = { w.cs with seqOut := w.cs.seqOut + 1 } := by
  rw [sendPacket_eq]
  rfl

@[simp] theorem sendPacket_env : (sendPacket P w payload).env = w.env := by rw [sendPacket_eq]; rfl

@[simp] theorem sendPacket_job : (sendPacket P w payload).job = w.job := by rw [sendPacket_eq]; rfl

@[simp] theorem sendPacket_pc : (sendPacket P w payload).pc = w.pc := by rw [sendPacket_eq]; rfl

@[simp] theorem sendPacket_knownHosts : (sendPacket P w payload).knownHosts = w.knownHosts := by
  rw [sendPacket_eq]
  rfl

@[simp] theorem sendPacket_typed : (sendPacket P w payload).typed = w.typed := by
  rw [sendPacket_eq]
  rfl

@[simp] theorem sendPacket_obs : (sendPacket P w payload).obs = w.obs ++ sendObs P w payload := by
  rw [sendPacket_eq]

theorem sendObs_eq : ∃ rest, sendObs P w payload =
    [.random (sendFrame w payload).pad] ++ [.sealed (sendFrame w payload)] ++ rest ∧
      ∀ o ∈ rest, ∃ data took, o = .itsSend data took := by
  unfold sendObs
  simp only
  split
  · exact ⟨[], rfl, by simp⟩
  · exact ⟨[.itsSend _ _], rfl, by simp⟩

theorem frames_sendObs : frames (sendObs P w payload) = [sendFrame w payload] := by
  unfold sendObs
  simp only
  split <;> rfl

theorem sendPacket_emits :
    Emits P w.cs (sendObs P w payload) (sendPacket P w payload).cs.seqOut := by
  rw [sendPacket_cs]
  refine ⟨?_, ?_, ?_, ?_⟩
  · rw [frames_sendObs]
    rfl
  · rw [frames_sendObs]
    rfl
  · rw [frames_sendObs]
    intro f hf
    rw [List.mem_singleton.mp hf]
    exact ⟨rfl, rfl⟩
  · intro hpos
    rw [frames_sendObs]
    unfold sendObs
    simp only
    split
    · rename_i hneg
      exact absurd hpos (not_le.mpr hneg)
    · rfl

theorem mem_sendObs {o : Obs} (h : o ∈ sendObs P w payload) :
    (∃ bytes, o = .random bytes) ∨ (∃ f, o = .sealed f ∧ f.payload = payload) ∨
      ∃ data took, o = .itsSend data took := by
  unfold sendObs at h
  simp only at h
  split at h
  · simp only [List.mem_cons, List.not_mem_nil, or_false] at h
    obtain rfl | rfl := h
    · exact .inl ⟨_, rfl⟩
    · exact .inr (.inl ⟨_, rfl, rfl⟩)
  · simp only [List.mem_cons, List.not_mem_nil, or_false] at h
    obtain rfl | rfl | rfl := h
    · exact .inl ⟨_, rfl⟩
    · exact .inr (.inl ⟨_, rfl, rfl⟩)
    · exact .inr (.inr ⟨_, _, rfl⟩)

end

/-- `w'` comes from `w` by sending packets that change no window, opening
packets and changing scratch fields. -/
structure Quiet (w w' : World) : Prop where
  env : w'.env = w.env
  given : w'.job.given = w.job.given
  core : w'.cs.core = w.cs.core
  stage : w'.pc.stage = w.pc.stage
  knownHosts : w'.knownHosts = w.knownHosts
  obs : ∃ os, w'.obs = w.obs ++ os ∧ (∀ o ∈ os, o.Calm w.pc.stage) ∧
    Emits P w.cs os w'.cs.seqOut

variable {P}

theorem Quiet.silent {w w' : World} {os : List Obs} (henv : w'.env = w.env)
    (hg : w'.job.given = w.job.given) (hc : w'.cs.core = w.cs.core)
    (hs : w'.pc.stage = w.pc.stage) (hk : w'.knownHosts = w.knownHosts)
    (hseq : w'.cs.seqOut = w.cs.seqOut) (hobs : w'.obs = w.obs ++ os)
    (hos : ∀ o ∈ os, o.Calm w.pc.stage ∧ o.Unsent) : Quiet P w w' :=
  ⟨henv, hg, hc, hs, hk, os, hobs, fun o ho ↦ (hos o ho).1,
    hseq ▸ .unsent fun o ho ↦ (hos o ho).2⟩

theorem Quiet.same {w w' : World} (henv : w'.env = w.env) (hg : w'.job.given = w.job.given)
    (hc : w'.cs.core = w.cs.core) (hs : w'.pc.stage = w.pc.stage)
    (hk : w'.knownHosts = w.knownHosts) (hseq : w'.cs.seqOut = w.cs.seqOut)
    (hobs : w'.obs = w.obs) : Quiet P w w' :=
  .silent henv hg hc hs hk hseq (hobs.trans (List.append_nil _).symm) (by simp)

theorem Quiet.refl (w : World) : Quiet P w w := .same rfl rfl rfl rfl rfl rfl rfl

theorem Quiet.trans {w₁ w₂ w₃ : World} (h : Quiet P w₁ w₂) (h' : Quiet P w₂ w₃) :
    Quiet P w₁ w₃ := by
  obtain ⟨os, hobs, hcalm, hemit⟩ := h.obs
  obtain ⟨os', hobs', hcalm', hemit'⟩ := h'.obs
  refine ⟨h'.env.trans h.env, h'.given.trans h.given, h'.core.trans h.core,
    h'.stage.trans h.stage, h'.knownHosts.trans h.knownHosts, os ++ os',
    by rw [hobs', hobs, List.append_assoc], ?_, ?_⟩
  · intro o hm
    rcases List.mem_append.mp hm with hm | hm
    · exact hcalm o hm
    · exact h.stage ▸ hcalm' o hm
  · exact hemit.append hemit' (congrArg Core.encOut h.core) (congrArg Core.sendKey h.core)
      (congrArg Core.handle h.core)

/-- The worker goes on to wait elsewhere in its stage. -/
theorem Quiet.goto {w : World} {pc : Pc} (h : pc.stage = w.pc.stage) : Quiet P w (w.goto pc) :=
  .same rfl rfl rfl h rfl rfl rfl

variable (P)

theorem Quiet.send (w : World) {payload : Bytes} (hd : Dataless payload)
    (ha : Userauth payload → w.pc.stage = .login) (hs : w.pc.stage.Keyed) : Quiet P w (sendPacket P w payload) := by
  refine ⟨sendPacket_env P w payload, by rw [sendPacket_job], ?_, by rw [sendPacket_pc],
    sendPacket_knownHosts P w payload, _, sendPacket_obs P w payload, ?_,
    sendPacket_emits P w payload⟩
  · rw [sendPacket_cs]
    rfl
  · intro o ho
    obtain ⟨_, rfl⟩ | ⟨f, rfl, rfl⟩ | ⟨_, _, rfl⟩ := mem_sendObs P w _ ho
    · trivial
    · exact ⟨hd, ha, hs⟩
    · trivial

end Sshd.Client
