import Sshd.Wire
import Sshd.Server.State

namespace Sshd.Server

open Lib.Octets Wire Crypto Framing

variable (P : Primitives)

def sendRawTcp (w : World) (data : Bytes) : World :=
  if w.s.tcp < 0 then w else (itsSend w .tcp w.s.tcp data).2

def sendPacket (w : World) (payload : Bytes) : World :=
  if w.s.phase = .closed ∨ w.s.tcp < 0 then w else
  let (padBytes, w) := randomBytes w (padLen w.s.encOutbound payload.length)
  let f : Frame := ⟨w.s.encOutbound, w.s.s2cKey, w.s.seqOut, payload, padBytes⟩
  let w := w.note (.sealed f)
  let w := sendRawTcp w (f.bytes P)
  w.modify fun s ↦ { s with seqOut := s.seqOut + 1 }

def sendDisconnect (w : World) (code : UInt32) (msg : String) : World :=
  let p := putU8 [] msgDisconnect
  let p := putU32 p code
  let p := putCstring p msg
  let p := putCstring p ""
  let w := sendPacket P w p
  let w := w.modify fun s ↦ { s with phase := .closed }
  itsDisconnect w .tcp w.s.tcp

/-- The payload with the session after the packet was taken out of `rxBuf`. -/
inductive Received
  | needMore
  | bad
  | got (payload : Bytes) (w : World)

def parsePacket (w : World) : Received :=
  match unframe P w.s.encInbound w.s.c2sKey w.s.seqIn w.s.rxBuf with
  | .needMore => .needMore
  | .bad => .bad
  | .got payload rest =>
    let packet := w.s.rxBuf.take (w.s.rxBuf.length - rest.length)
    let w := w.note (.opened w.s.encInbound w.s.c2sKey w.s.seqIn packet payload)
    .got payload (w.modify fun s ↦ { s with rxBuf := rest, seqIn := s.seqIn + 1 })

/-! Sending a packet touches the record and `seqOut`. -/

/-- The frame that `sendPacket` makes. -/
def sendFrame (w : World) (payload : Bytes) : Frame :=
  ⟨w.s.encOutbound, w.s.s2cKey, w.s.seqOut, payload,
    (randomBytes w (padLen w.s.encOutbound payload.length)).1⟩

/-- What `sendPacket` adds to the record. -/
def sendObs (w : World) (payload : Bytes) : List Obs :=
  if w.s.phase = .closed ∨ w.s.tcp < 0 then [] else
  let f := sendFrame w payload
  let w := (w.note (.random f.pad)).note (.sealed f)
  [.random f.pad, .sealed f,
    .itsSend .tcp w.s.tcp (f.bytes P) (itsSend w .tcp w.s.tcp (f.bytes P)).1]

section
variable (w : World) (payload : Bytes)

theorem sendPacket_closed (h : w.s.phase = .closed ∨ w.s.tcp < 0) :
    sendPacket P w payload = w := if_pos h

theorem sendPacket_open (h : ¬(w.s.phase = .closed ∨ w.s.tcp < 0)) :
    sendPacket P w payload =
      { w.modify (fun s ↦ { s with seqOut := s.seqOut + 1 }) with
        obs := w.obs ++ sendObs P w payload } := by
  have ht : ¬w.s.tcp < 0 := fun ht ↦ h (.inr ht)
  rw [sendPacket, sendObs, if_neg h, if_neg h]
  simp [sendRawTcp, ht, sendFrame, randomBytes, itsSend, World.note, World.modify]

theorem sendPacket_s :
    (sendPacket P w payload).s =
      { w.s with
        seqOut := if w.s.phase = .closed ∨ w.s.tcp < 0 then w.s.seqOut else w.s.seqOut + 1 } := by
  by_cases h : w.s.phase = .closed ∨ w.s.tcp < 0
  · rw [sendPacket_closed P w payload h, if_pos h]
  · rw [sendPacket_open P w payload h, if_neg h]
    rfl

@[simp] theorem sendPacket_env : (sendPacket P w payload).env = w.env := by
  by_cases h : w.s.phase = .closed ∨ w.s.tcp < 0
  · rw [sendPacket_closed P w payload h]
  · rw [sendPacket_open P w payload h]
    rfl

@[simp] theorem sendPacket_slotInUse : (sendPacket P w payload).slotInUse = w.slotInUse := by
  by_cases h : w.s.phase = .closed ∨ w.s.tcp < 0
  · rw [sendPacket_closed P w payload h]
  · rw [sendPacket_open P w payload h]
    rfl

@[simp] theorem sendPacket_tcpIn : (sendPacket P w payload).tcpIn = w.tcpIn := by
  by_cases h : w.s.phase = .closed ∨ w.s.tcp < 0
  · rw [sendPacket_closed P w payload h]
  · rw [sendPacket_open P w payload h]
    rfl

@[simp] theorem sendPacket_backIn : (sendPacket P w payload).backIn = w.backIn := by
  by_cases h : w.s.phase = .closed ∨ w.s.tcp < 0
  · rw [sendPacket_closed P w payload h]
  · rw [sendPacket_open P w payload h]
    rfl

@[simp] theorem sendPacket_obs : (sendPacket P w payload).obs = w.obs ++ sendObs P w payload := by
  by_cases h : w.s.phase = .closed ∨ w.s.tcp < 0
  · rw [sendPacket_closed P w payload h, sendObs, if_pos h, List.append_nil]
  · rw [sendPacket_open P w payload h]

end

end Sshd.Server
