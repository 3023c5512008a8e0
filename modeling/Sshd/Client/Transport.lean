import Sshd.Client.State

namespace Sshd.Client

open Lib.Octets Wire Crypto Framing

variable (P : Primitives)

/-- The loop of `out_write`, as long as there are `rounds` left. No two rounds
offer the same bytes. -/
def outRounds (w : World) : ℕ → Bytes → List ℕ
  | 0, _ => []
  | rounds + 1, left =>
    if left = [] then [] else
    let took := min (w.env.xStreamBufferSend w.obs left) left.length
    -- the other end of the pipe has stalled: the tail is dropped
    if took = 0 then [0] else took :: outRounds w rounds (left.drop took)

/-- A round takes at least one byte or is the last. -/
def outWrite (w : World) (data : Bytes) : World :=
  if data = [] then w else w.note (.output data (outRounds w data.length data))

def sendRaw (w : World) (d : Bytes) : World := if w.cs.handle < 0 then w else itsSend w d

def sendPacket (w : World) (payload : Bytes) : World :=
  let (padBytes, w) := randomBytes w (padLen w.cs.encOut payload.length)
  let f : Frame := ⟨w.cs.encOut, w.cs.sendKey, w.cs.seqOut, payload, padBytes⟩
  let w := w.note (.sealed f)
  let w := sendRaw w (f.bytes P)
  w.modify fun cs ↦ { cs with seqOut := cs.seqOut + 1 }

def fillRx (w : World) : ℕ × World :=
  let (buf, w) := itsRecv w
  (buf.length, w.modify fun cs ↦ { cs with rxBuf := cs.rxBuf ++ buf })

inductive Received
  | needMore
  | bad
  | got (out : Bytes) (w : World)

def tryParse (w : World) : Received :=
  match unframe P w.cs.encIn w.cs.recvKey w.cs.seqIn w.cs.rxBuf with
  | .needMore => .needMore
  | .bad => .bad
  | .got out rest =>
    let packet := w.cs.rxBuf.take (w.cs.rxBuf.length - rest.length)
    let w := w.note (.opened w.cs.encIn w.cs.recvKey w.cs.seqIn packet out)
    .got out (w.modify fun cs ↦ { cs with rxBuf := rest, seqIn := cs.seqIn + 1 })

/-- One round of the loop of `recv_packet`, at a moment when the deadline has
or has not passed: what it returns, with the packet, or nothing yet. -/
def recvRound (expired : Bool) (w : World) : Option (ℤ × Bytes) × World :=
  match tryParse P w with
  | .got [] w => (some (-1, []), w)
  | .got (t :: body) w =>
    if t = msgIgnore ∨ t = msgDebug then (none, w) else (some (t.toNat, t :: body), w)
  | .bad => (some (-1, []), w)
  | .needMore =>
    if expired then (some (0, []), w) else
    let (got, w) := fillRx w
    if got = 0 ∧ w.connected = false ∧ w.cs.rxBuf.length < 4 then (some (-2, []), w) else (none, w)

def fail (w : World) (msg : Bytes) : World :=
  { w with job := { w.job with rc := 1, msg := snprintf 200 (cString msg) } }

/-- The end of `run_session`. -/
def hangUp (w : World) : World :=
  let w := w.note (.itsDisconnect w.cs.handle)
  let w := w.modify fun cs ↦ { cs with handle := -1 }
  w.goto .finished

/-- A step of the session returns `fail(cs.job, msg)`. -/
def giveUp (w : World) (msg : Bytes) : World := hangUp (fail w msg)

end Sshd.Client
