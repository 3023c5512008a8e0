import Sshd.Server.Quiet

namespace Sshd.Server

open Lib.Octets Wire Crypto

variable (P : Primitives)

/-- What the session knows of the client's end of the channel. -/
structure Peer where
  channel : UInt32
  window : UInt32
  maxPacket : UInt32

def Session.peer (s : Session) : Peer := ⟨s.peerChannel, s.peerWindow, s.peerMaxPacket⟩

/-- The messages that an open channel or the end of a session gives rise to. -/
def channelTypes : List UInt8 :=
  [msgDisconnect, msgChannelOpenConfirm, msgChannelWindowAdjust, msgChannelData, msgChannelEof,
    msgChannelClose, msgChannelRequest, msgChannelSuccess, msgChannelFailure]

def Plain (payload : Bytes) : Prop := ∀ t ∈ payload.head?, t ∉ channelTypes

/-- Calls of a session `s` that neither end it nor move anything on its channel. -/
def Obs.Plain (s : Session) : Obs → Prop
  | .sealed f => Server.Plain f.payload ∧ s.phase ≠ .closed
  | .itsRecv _ _ => False
  | _ => True

/-- `w'` comes from `w` by plain messages and changes of scratch fields. -/
structure Steady (w w' : World) : Prop extends Quiet P w w' where
  peer : w'.s.peer = w.s.peer
  plain : ∃ os, w'.obs = w.obs ++ os ∧ ∀ o ∈ os, o.Plain w.s

theorem plain_of_head {payload : Bytes} {t : UInt8} (hp : payload.head? = some t)
    (ht : t ∉ channelTypes) : Plain payload := by
  intro t' ht'
  rw [hp, Option.mem_some_iff] at ht'
  exact ht' ▸ ht

theorem Plain.windowless {payload : Bytes} (h : Plain payload) : Windowless payload :=
  ⟨fun he ↦ h _ he (by decide), fun he ↦ h _ he (by decide)⟩

variable {P}

theorem Steady.silent {w w' : World} {os : List Obs} (henv : w'.env = w.env)
    (hu : w'.slotInUse = w.slotInUse) (hc : w'.s.control = w.s.control)
    (hseq : w'.s.seqOut = w.s.seqOut) (hpeer : w'.s.peer = w.s.peer) (hobs : w'.obs = w.obs ++ os)
    (hos : ∀ o ∈ os, o.Calm ∧ o.Unsent ∧ o.Plain w.s) : Steady P w w' :=
  ⟨.silent henv hu hc hseq hobs fun o ho ↦ ⟨(hos o ho).1, (hos o ho).2.1⟩, hpeer, os, hobs,
    fun o ho ↦ (hos o ho).2.2⟩

theorem Steady.refl (w : World) : Steady P w w :=
  .silent rfl rfl rfl rfl rfl (List.append_nil _).symm (by simp)

theorem Steady.trans {w₁ w₂ w₃ : World} (h : Steady P w₁ w₂) (h' : Steady P w₂ w₃) : Steady P w₁ w₃ := by
  obtain ⟨os, hobs, hos⟩ := h.plain
  obtain ⟨os', hobs', hos'⟩ := h'.plain
  refine ⟨h.toQuiet.trans h'.toQuiet, h'.peer.trans h.peer, os ++ os',
    by rw [hobs', hobs, List.append_assoc], ?_⟩
  intro o hm
  rcases List.mem_append.mp hm with hm | hm
  · exact hos o hm
  · have ho := hos' o hm
    cases o with
    | sealed f => exact ⟨ho.1, h.phase ▸ ho.2⟩
    | itsRecv => exact ho
    | _ => trivial

theorem Steady.note {w : World} {o : Obs} (ho : o.Mute) : Steady P w (w.note o) := by
  have hcalm : o.Calm ∧ o.Unsent ∧ o.Plain w.s := by
    cases o <;> first | exact ho.elim | exact ⟨trivial, trivial, trivial⟩
  exact .silent rfl rfl rfl rfl rfl rfl (by simpa using hcalm)

theorem Steady.modify (w : World) (f : Session → Session)
    (hf : ∀ s, ((f s).control, (f s).seqOut, (f s).peer) = (s.control, s.seqOut, s.peer)) :
    Steady P w (w.modify f) :=
  .silent rfl rfl (congrArg Prod.fst (hf w.s)) (congrArg (·.2.1) (hf w.s))
    (congrArg (·.2.2) (hf w.s)) (List.append_nil _).symm (by simp)

theorem Steady.queues (w : World) (tcpIn : Bytes) (backIn : ℤ → Bytes) :
    Steady P w { w with tcpIn := tcpIn, backIn := backIn } :=
  .silent rfl rfl rfl rfl rfl (List.append_nil _).symm (by simp)

theorem Steady.random (w : World) (n : ℕ) : Steady P w (randomBytes w n).2 := .note trivial

theorem sendPacket_peer (w : World) (payload : Bytes) :
    (sendPacket P w payload).s.peer = w.s.peer := by
  rw [sendPacket_s]
  rfl

variable (P)

theorem Steady.send (w : World) {payload : Bytes} (hp : Plain payload) :
    Steady P w (sendPacket P w payload) := by
  refine ⟨.send P w hp.windowless, sendPacket_peer w payload, sendObs P w payload,
    sendPacket_obs P w payload, ?_⟩
  unfold sendObs
  split
  · simp
  · rename_i h
    have hopen : w.s.phase ≠ .closed := fun hc ↦ h (.inl hc)
    simp [Obs.Plain, sendFrame, hp, hopen]

end Sshd.Server
