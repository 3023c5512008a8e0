import Sshd.Server.Dispatch

namespace Sshd.Server

open Lib.Octets Wire Crypto Framing

variable (P : Primitives)

/-- The fields that decide what a session may do. -/
structure Control where
  slot : ℤ
  tcp : ℤ
  phase : Phase
  sessionId : Bytes
  haveSessionId : Bool
  c2sKey : Bytes
  s2cKey : Bytes
  encInbound : Bool
  encOutbound : Bool
  authed : Bool
  localWindow : UInt32
  backendHandle : ℤ
  chanOpen : Bool

def Session.control (s : Session) : Control :=
  { s with }

/-- Messages that grant the client no window. -/
def Windowless (payload : Bytes) : Prop :=
  payload.head? ≠ some msgChannelOpenConfirm ∧ payload.head? ≠ some msgChannelWindowAdjust

theorem windowless_of_head {payload : Bytes} {t : UInt8} (hp : payload.head? = some t)
    (ht : t ∉ [msgChannelOpenConfirm, msgChannelWindowAdjust]) : Windowless payload := by
  rw [List.mem_pair, not_or] at ht
  rw [Windowless, hp]
  exact ⟨fun he ↦ ht.1 (Option.some.inj he), fun he ↦ ht.2 (Option.some.inj he)⟩

theorem buildKexinitPayload_head (w : World) :
    (buildKexinitPayload w).1.head? = some msgKexinit := by
  simp [buildKexinitPayload, kexinitPayload, putU8, putU32, putNamelist, putCstring]

/-- Calls that neither move the session nor write to a backend. -/
def Obs.Calm : Obs → Prop
  | .random _ | .authKey _ _ | .verify _ _ _ _ | .authLogin _ _ _ | .itsRecv _ _ => True
  | .sealed f => Windowless f.payload
  | .itsSend link _ _ _ => link = .tcp
  | _ => False

/-- The frames on record. -/
def frames (obs : List Obs) : List Frame :=
  obs.filterMap fun o ↦ match o with
    | .sealed f => some f
    | _ => none

/-- What was offered to the TCP connection, each time with how much it took. -/
def tcpWrites (obs : List Obs) : List (Bytes × ℕ) :=
  obs.filterMap fun o ↦ match o with
    | .itsSend .tcp _ data took => some (data, took)
    | _ => none

/-- A session `s` that only sends packets records `os` and ends up at sequence
number `next`: the frames are numbered on, in its mode and under its key, and
they are all it writes. -/
structure Emits (P : Primitives) (env : Env) (s : Session) (os : List Obs) (next : ℕ) : Prop where
  next : next = s.seqOut + (frames os).length
  seq : (frames os).map Frame.seq = List.range' s.seqOut (frames os).length
  mode : ∀ f ∈ frames os,
    f.enc = s.encOutbound ∧ f.key = s.s2cKey ∧ f.pad.length = padLen f.enc f.payload.length
  writes : (tcpWrites os).map Prod.fst = (frames os).map (Frame.bytes P)
  took : ∀ a ∈ tcpWrites os, ∃ obs handle, a.2 = min (env.itsSend obs .tcp handle a.1) a.1.length

/-- `w'` comes from `w` by calm calls and changes of scratch fields. -/
structure Tame (w w' : World) : Prop where
  env : w'.env = w.env
  slotInUse : w'.slotInUse = w.slotInUse
  control : w'.s.control = w.s.control
  obs : ∃ os, w'.obs = w.obs ++ os ∧ ∀ o ∈ os, o.Calm

/-- `w'` comes from `w` by sending packets, taking bytes in and changing
scratch fields. -/
structure Quiet (w w' : World) : Prop extends Tame w w' where
  emits : ∃ os, w'.obs = w.obs ++ os ∧ Emits P w.env w.s os w'.s.seqOut

theorem Tame.trans {w₁ w₂ w₃ : World} (h : Tame w₁ w₂) (h' : Tame w₂ w₃) : Tame w₁ w₃ := by
  obtain ⟨os, hobs, hcalm⟩ := h.obs
  obtain ⟨os', hobs', hcalm'⟩ := h'.obs
  refine ⟨h'.env.trans h.env, h'.slotInUse.trans h.slotInUse, h'.control.trans h.control,
    os ++ os', by rw [hobs', hobs, List.append_assoc], ?_⟩
  intro o hm
  rcases List.mem_append.mp hm with hm | hm
  · exact hcalm o hm
  · exact hcalm' o hm

theorem Tame.sendRawTcp (w : World) (data : Bytes) : Tame w (sendRawTcp w data) := by
  unfold Server.sendRawTcp
  split
  · exact ⟨rfl, rfl, rfl, [], (List.append_nil _).symm, by simp⟩
  · exact ⟨rfl, rfl, rfl, _, rfl, by simp [Obs.Calm]⟩

/-- Calls that send nothing to the client. -/
def Obs.Unsent : Obs → Prop
  | .sealed _ => False
  | .itsSend link _ _ _ => link = .backend
  | _ => True

theorem frames_append (obs os : List Obs) : frames (obs ++ os) = frames obs ++ frames os :=
  List.filterMap_append

theorem tcpWrites_append (obs os : List Obs) :
    tcpWrites (obs ++ os) = tcpWrites obs ++ tcpWrites os := List.filterMap_append

/-- Sending to a client that is there. -/
theorem frames_sendPacket {P : Primitives} {w : World}
    (h : ¬(w.s.phase = .closed ∨ w.s.tcp < 0)) (payload : Bytes) :
    frames (sendPacket P w payload).obs = frames w.obs ++ [sendFrame w payload] := by
  rw [sendPacket_obs, frames_append, sendObs, if_neg h]
  rfl

/-- Sending to a client that is there or not. -/
theorem frames_sendPacket_of {P : Primitives} (w : World) (payload : Bytes) :
    ∃ fs, frames (sendPacket P w payload).obs = frames w.obs ++ fs ∧
      ∀ f ∈ fs, f.payload = payload := by
  by_cases hc : w.s.phase = .closed ∨ w.s.tcp < 0
  · refine ⟨[], ?_, nofun⟩
    rw [sendPacket, if_pos hc, List.append_nil]
  · refine ⟨_, frames_sendPacket hc payload, fun f hf ↦ ?_⟩
    obtain rfl := List.mem_singleton.mp hf
    rfl

theorem frames_unsent {os : List Obs} (h : ∀ o ∈ os, o.Unsent) : frames os = [] := by
  refine List.filterMap_eq_nil_iff.mpr fun o ho ↦ ?_
  have hu := h o ho
  cases o with
  | sealed => exact hu.elim
  | _ => rfl

theorem tcpWrites_unsent {os : List Obs} (h : ∀ o ∈ os, o.Unsent) : tcpWrites os = [] := by
  refine List.filterMap_eq_nil_iff.mpr fun o ho ↦ ?_
  have hu := h o ho
  cases o with
  | itsSend link =>
    cases hu
    rfl
  | _ => rfl

section
variable {P : Primitives} {env : Env} {s s' : Session} {os os' : List Obs} {next : ℕ}

theorem Emits.unsent (h : ∀ o ∈ os, o.Unsent) : Emits P env s os s.seqOut := by
  refine ⟨?_, ?_, ?_, ?_, ?_⟩ <;> simp [frames_unsent h, tcpWrites_unsent h]

theorem Emits.append (h : Emits P env s os s'.seqOut) (h' : Emits P env s' os' next)
    (henc : s'.encOutbound = s.encOutbound) (hkey : s'.s2cKey = s.s2cKey) :
    Emits P env s (os ++ os') next := by
  have hnext := h.next
  refine ⟨?_, ?_, ?_, ?_, ?_⟩
  · rw [h'.next, hnext, frames_append, List.length_append, Nat.add_assoc]
  · rw [frames_append, List.map_append, h.seq, h'.seq, hnext, List.length_append,
      List.range'_append_1]
  · intro f hf
    rw [frames_append, List.mem_append] at hf
    rcases hf with hf | hf
    · exact h.mode f hf
    · rw [← henc, ← hkey]
      exact h'.mode f hf
  · rw [tcpWrites_append, frames_append, List.map_append, List.map_append, h.writes, h'.writes]
  · intro a ha
    rw [tcpWrites_append, List.mem_append] at ha
    rcases ha with ha | ha
    · exact h.took a ha
    · exact h'.took a ha

end

theorem sendPacket_emits (w : World) (payload : Bytes) :
    Emits P w.env w.s (sendObs P w payload) (sendPacket P w payload).s.seqOut := by
  rw [sendPacket_s]
  unfold sendObs
  by_cases h : w.s.phase = .closed ∨ w.s.tcp < 0
  · rw [if_pos h]
    simp only [if_pos h]
    exact .unsent (by simp)
  · rw [if_neg h]
    simp only [if_neg h]
    refine ⟨rfl, rfl, ?_, rfl, ?_⟩
    · intro f hf
      rw [List.mem_singleton.mp hf]
      exact ⟨rfl, rfl, randomBytes_length w _⟩
    · intro a ha
      rw [List.mem_singleton.mp ha]
      exact ⟨_, w.s.tcp, rfl⟩

variable {P}

theorem Quiet.silent {w w' : World} {os : List Obs} (henv : w'.env = w.env)
    (hu : w'.slotInUse = w.slotInUse) (hc : w'.s.control = w.s.control)
    (hseq : w'.s.seqOut = w.s.seqOut) (hobs : w'.obs = w.obs ++ os)
    (hos : ∀ o ∈ os, o.Calm ∧ o.Unsent) : Quiet P w w' :=
  ⟨⟨henv, hu, hc, os, hobs, fun o ho ↦ (hos o ho).1⟩,
    os, hobs, hseq ▸ .unsent fun o ho ↦ (hos o ho).2⟩

theorem Quiet.refl (w : World) : Quiet P w w :=
  .silent rfl rfl rfl rfl (List.append_nil _).symm (by simp)

theorem Quiet.trans {w₁ w₂ w₃ : World} (h : Quiet P w₁ w₂) (h' : Quiet P w₂ w₃) :
    Quiet P w₁ w₃ := by
  obtain ⟨os, hobs, hemit⟩ := h.emits
  obtain ⟨os', hobs', hemit'⟩ := h'.emits
  refine ⟨h.toTame.trans h'.toTame, os ++ os', by rw [hobs', hobs, List.append_assoc], ?_⟩
  rw [h.env] at hemit'
  exact hemit.append hemit' (congrArg Control.encOutbound h.control)
    (congrArg Control.s2cKey h.control)

section
variable {w w' : World}

theorem Tame.slot (h : Tame w w') : w'.s.slot = w.s.slot := congrArg Control.slot h.control

theorem Tame.tcp (h : Tame w w') : w'.s.tcp = w.s.tcp := congrArg Control.tcp h.control

theorem Tame.phase (h : Tame w w') : w'.s.phase = w.s.phase := congrArg Control.phase h.control

theorem Tame.sessionId (h : Tame w w') : w'.s.sessionId = w.s.sessionId :=
  congrArg Control.sessionId h.control

theorem Tame.haveSessionId (h : Tame w w') : w'.s.haveSessionId = w.s.haveSessionId :=
  congrArg Control.haveSessionId h.control

theorem Tame.c2sKey (h : Tame w w') : w'.s.c2sKey = w.s.c2sKey :=
  congrArg Control.c2sKey h.control

theorem Tame.encInbound (h : Tame w w') : w'.s.encInbound = w.s.encInbound :=
  congrArg Control.encInbound h.control

theorem Tame.authed (h : Tame w w') : w'.s.authed = w.s.authed :=
  congrArg Control.authed h.control

theorem Tame.localWindow (h : Tame w w') : w'.s.localWindow = w.s.localWindow :=
  congrArg Control.localWindow h.control

theorem Tame.backendHandle (h : Tame w w') : w'.s.backendHandle = w.s.backendHandle :=
  congrArg Control.backendHandle h.control

theorem Tame.chanOpen (h : Tame w w') : w'.s.chanOpen = w.s.chanOpen :=
  congrArg Control.chanOpen h.control

end

/-- Calls with an answer that is looked at and forgotten. -/
def Obs.Mute : Obs → Prop
  | .random _ | .authKey _ _ | .verify _ _ _ _ | .authLogin _ _ _ => True
  | _ => False

theorem Quiet.note {w : World} {o : Obs} (ho : o.Mute) : Quiet P w (w.note o) := by
  have hcalm : o.Calm ∧ o.Unsent := by cases o <;> first | exact ho.elim | exact ⟨trivial, trivial⟩
  exact .silent rfl rfl rfl rfl rfl (by simpa using hcalm)

theorem Quiet.modify (w : World) (f : Session → Session)
    (hf : ∀ s, ((f s).control, (f s).seqOut) = (s.control, s.seqOut)) :
    Quiet P w (w.modify f) :=
  .silent rfl rfl (congrArg Prod.fst (hf w.s)) (congrArg Prod.snd (hf w.s))
    (List.append_nil _).symm (by simp)

theorem Quiet.queues (w : World) (tcpIn : Bytes) (backIn : ℤ → Bytes) :
    Quiet P w { w with tcpIn := tcpIn, backIn := backIn } :=
  .silent rfl rfl rfl rfl (List.append_nil _).symm (by simp)

theorem Quiet.random (w : World) (n : ℕ) : Quiet P w (randomBytes w n).2 := .note trivial

theorem Quiet.recv (w : World) (handle : ℤ) (want : ℕ) :
    Quiet P w (itsRecv w handle want).2 := by
  have hobs : (itsRecv w handle want).2.obs = w.obs ++ [.itsRecv handle (itsRecv w handle want).1] :=
    rfl
  exact .silent rfl rfl rfl rfl hobs (by simp [Obs.Calm, Obs.Unsent])

variable (P)

theorem Quiet.send (w : World) {payload : Bytes} (hp : Windowless payload) :
    Quiet P w (sendPacket P w payload) := by
  refine ⟨⟨sendPacket_env P w payload, sendPacket_slotInUse P w payload, ?_,
    sendObs P w payload, sendPacket_obs P w payload, ?_⟩,
    sendObs P w payload, sendPacket_obs P w payload, sendPacket_emits P w payload⟩
  · rw [sendPacket_s]
    rfl
  · unfold sendObs
    split
    · simp
    · simp [Obs.Calm, sendFrame, hp]

end Sshd.Server
