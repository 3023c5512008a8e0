import Sshd.Server.Kex
import Sshd.Server.Auth
import Sshd.Server.Channel

namespace Sshd.Server

open Lib.Octets Wire Crypto

variable (P : Primitives)

def handleGlobalRequest (w : World) (body : Bytes) : World :=
  match skipString (viewInit body) with
  | (false, _) => w
  | (true, v) =>
    if (getU8 v).1 ≠ 0 then sendPacket P w (putU8 [] msgRequestFailure) else w

def sendUnimplemented (w : World) : World :=
  let p := putU8 [] msgUnimplemented
  sendPacket P w (putU32 p (UInt32.ofNat (w.s.seqIn - 1)))

/-- The switch of `dispatch_packet` over the message type. -/
def dispatchMessage (w : World) (type : UInt8) (payload body : Bytes) (sessionSlot : ℤ) :
    World × Bool :=
  if type = msgDisconnect then
    let w := w.modify fun s ↦ { s with phase := .closed }
    (itsDisconnect w .tcp w.s.tcp, false)
  else if type = msgIgnore ∨ type = msgDebug then (w, true)
  else if type = msgKexinit then
    if w.s.phase ≠ .kexWaitKexinit ∧ w.s.phase ≠ .run then (w, false)
    else (handleKexinit P w payload, true)
  else if type = msgKexEcdhInit then
    if w.s.phase ≠ .kexWaitEcdh then (w, false) else handleKexEcdhInit P w body
  else if type = msgNewkeys then
    if w.s.phase ≠ .kexWaitNewkeys then (w, false) else (handleNewkeys w, true)
  else if type = msgServiceRequest then
    if w.s.phase ≠ .auth then (w, false) else handleServiceRequest P w body
  else if type = msgUserauthRequest then
    if w.s.phase ≠ .auth then (w, false) else handleUserauthRequest P w body
  else if type = msgGlobalRequest then (handleGlobalRequest P w body, true)
  else if type = msgChannelOpen then
    if w.s.phase ≠ .run then (w, false) else handleChannelOpen P w body
  else if type = msgChannelRequest then
    if w.s.phase ≠ .run then (w, false) else handleChannelRequest P w body sessionSlot
  else if type = msgChannelData then
    if w.s.phase ≠ .run then (w, false) else (handleChannelData P w body, true)
  else if type = msgChannelWindowAdjust then
    if w.s.phase ≠ .run then (w, false) else (handleChannelWindowAdjust P w body, true)
  else if type = msgChannelEof then (w, true)
  else if type = msgChannelClose then (handleChannelClose P w, true)
  else (sendUnimplemented P w, true)

def dispatchPacket (w : World) (payload : Bytes) (sessionSlot : ℤ) : World × Bool :=
  let w := w.note (.dispatch w.s payload)
  match payload with
  | [] => (w, false)
  | type :: body => dispatchMessage P w type payload body sessionSlot

/-! Entry points. -/

def sshdMaxSessions : ℤ := 2

def sshdSlotFree (w : World) (slot : ℤ) : World :=
  if 0 ≤ slot ∧ slot < sshdMaxSessions then
    { w with slotInUse := Function.update w.slotInUse slot false }
  else w

def sessionOpen (w : World) (tcpHandle slot : ℤ) : World :=
  let w := w.note (.accept tcpHandle slot)
  let w := w.modify fun _ ↦ reset
  let w := w.modify fun s ↦ { s with slot := slot }
  let w := w.modify fun s ↦ { s with tcp := tcpHandle }
  let w := w.modify fun s ↦ { s with phase := .version }
  sendOurVersion w

/-- Wait for the queued bytes, then close the TCP connection. -/
def dropTcp (w : World) : World :=
  if 0 ≤ w.s.tcp then
    let w := itsSendDrain w w.s.tcp
    let w := itsDisconnect w .tcp w.s.tcp
    w.modify fun s ↦ { s with tcp := -1 }
  else w

def freeSlot (w : World) : World :=
  if 0 ≤ w.s.slot then (sshdSlotFree w w.s.slot).modify fun s ↦ { s with slot := -1 } else w

def sessionClose (w : World) : World :=
  if w.s.phase = .closed ∧ w.s.slot < 0 then w else
  let w := dropBackend w
  let w := dropTcp w
  let w := w.modify fun s ↦ { s with phase := .closed }
  let w := w.modify fun s ↦ { s with chanOpen := false }
  freeSlot w

/-- The loop that takes what ITS holds on the TCP connection into `rxBuf`,
1024 bytes at most at a time. -/
def fillRxBuf : ℕ → World → World
  | 0, w => w
  | fuel + 1, w =>
    let got := min (max 1 (w.env.itsRecv w.obs w.s.tcp 1024)) (min 1024 w.tcpIn.length)
    if got = 0 then w
    else fillRxBuf fuel
      { w.modify (fun s ↦ { s with rxBuf := s.rxBuf ++ w.tcpIn.take got }) with
        tcpIn := w.tcpIn.drop got }

/-- The main loop; every round but the last takes bytes out of `rxBuf`. -/
def receiveLoop : ℕ → World → World
  | 0, w => w
  | fuel + 1, w =>
    if w.s.phase = .closed then w
    else if w.s.phase = .version then
      match consumeVersion P w with
      | (w, false) => w
      | (w, true) => receiveLoop fuel w
    else
      match parsePacket P w with
      | .needMore => w
      | .bad => sendDisconnect P w 2 "framing error"
      | .got payload w =>
        match dispatchPacket P w payload w.s.slot with
        | (w, false) => if w.s.phase ≠ .closed then sendDisconnect P w 2 "protocol error" else w
        | (w, true) => receiveLoop fuel w

def sessionOnTcpData (w : World) : World :=
  let w := fillRxBuf w.tcpIn.length w
  let w := receiveLoop P (w.s.rxBuf.length + 1) w
  if w.s.phase = .closed then sessionClose w else w

def sessionOnBackendClose (w : World) : World :=
  if w.s.chanOpen = false then w else
  let w := sessionOnBackendData P w
  let w := dropBackend w
  let w := sendExitStatus P w 0
  let w := sendChannelEof P w
  let w := sendChannelClose P w
  let w := w.modify fun s ↦ { s with chanOpen := false }
  sessionClose w

/-! The callbacks find the session by its slot `i`. -/

variable (i : ℤ)

/-- `sshdSessionAt` finds a session in the slot. -/
def sshdSessionAt (w : World) : Bool :=
  decide (0 ≤ i) && decide (i < sshdMaxSessions) && w.slotInUse i

def onTcpConnect (w : World) (handle : ℤ) : World :=
  let w := { w with slotInUse := Function.update w.slotInUse i true }
  sessionOpen w handle i

def onTcpDisconnect (w : World) : World :=
  if i < 0 ∨ sshdMaxSessions ≤ i then w else sessionClose w

def onTcpRecv (w : World) : World :=
  if i < 0 ∨ sshdMaxSessions ≤ i then w
  else if w.slotInUse i = false then w
  else sessionOnTcpData P w

def onBackendRecvCb (w : World) : World :=
  if sshdSessionAt i w = false ∨ w.s.chanOpen = false then w else sessionOnBackendData P w

def onBackendDisconnectCb (w : World) : World :=
  if sshdSessionAt i w = false then w else sessionOnBackendClose P w

/-- The part of `sshd reset` that is about this slot. -/
def cmdSshdReset (w : World) : World := if w.slotInUse i = false then w else sessionClose w

/-- What can happen to a session: bytes arrive on a connection, a callback
fires, the operator resets the server. -/
inductive Event
  | tcpArrive (data : Bytes)
  | tcpRecv
  | tcpDisconnect
  | backendArrive (handle : ℤ) (data : Bytes)
  | backendRecv
  | backendDisconnect
  | reset

def step (w : World) : Event → World
  | .tcpArrive data => { w with tcpIn := w.tcpIn ++ data }
  | .tcpRecv => onTcpRecv P i w
  | .tcpDisconnect => onTcpDisconnect i w
  | .backendArrive handle data =>
    { w with backIn := Function.update w.backIn handle (w.backIn handle ++ data) }
  | .backendRecv => onBackendRecvCb P i w
  | .backendDisconnect => onBackendDisconnectCb P i w
  | .reset => cmdSshdReset i w

/-- The session that `onTcpConnect` starts in a free slot of an idle server. -/
def accepted (env : Env) (handle : ℤ) : World :=
  onTcpConnect i ⟨env, {}, fun _ ↦ false, [], fun _ ↦ [], []⟩ handle

/-- A whole run of one session. -/
def runFrom (w : World) (events : List Event) : World := events.foldl (step P i) w

end Sshd.Server
