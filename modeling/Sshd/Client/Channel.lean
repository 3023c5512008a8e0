import Sshd.Client.Transport

namespace Sshd.Client

open Lib.Octets Wire Crypto

variable (P : Primitives)

/-- The reply to a GLOBAL_REQUEST, when it wants one. -/
def onGlobalRequest (w : World) (pkt : Bytes) : World :=
  match skipString (viewInit (pkt.drop 1)) with
  | (false, _) => w
  | (true, v) =>
    if (getU8 v).1 ≠ 0 then sendPacket P w (putU8 [] msgRequestFailure) else w

/-- The amount of a WINDOW_ADJUST. -/
def adjustAmount (pkt : Bytes) : UInt32 := (getU32 (getU32 (viewInit (pkt.drop 1))).2).1

def onWindowAdjust (w : World) (pkt : Bytes) : World :=
  w.modify fun cs ↦ { cs with peerWindow := cs.peerWindow + adjustAmount pkt }

def channelData (cs : Csess) (data : Bytes) : Bytes :=
  putString (putU32 (putU8 [] msgChannelData) cs.peerChannel) data

def channelWindowAdjust (cs : Csess) (add : UInt32) : Bytes :=
  putU32 (putU32 (putU8 [] msgChannelWindowAdjust) cs.peerChannel) add

def channelEof (cs : Csess) : Bytes := putU32 (putU8 [] msgChannelEof) cs.peerChannel

def channelClose (cs : Csess) : Bytes := putU32 (putU8 [] msgChannelClose) cs.peerChannel

/-- The loop of `pump_input`: 256 keystrokes at most in a message; every round
but the last takes at least one. -/
def pumpLoop : ℕ → World → World
  | 0, w => w
  | fuel + 1, w =>
    let ib := w.typed.take 256
    if ib = [] then w else
    let w := { w with typed := w.typed.drop 256 }.note (.typed ib)
    pumpLoop fuel (sendPacket P w (channelData w.cs ib))

def pumpInput (w : World) : World :=
  if w.job.hasIn then pumpLoop P (w.typed.length + 1) w else w

/-- `ssh host` without a command. -/
def interactive (w : World) : Bool := !w.job.haveCmd

/-- The end of `do_channel`. -/
def finishChannel (w : World) : World :=
  let job := { w.job with rc := 0 }
  let job :=
    if job.msg = [] then
      { job with msg := snprintf 200 (ascii "Connection to " ++ job.host ++ ascii " closed.") }
    else job
  hangUp { w with job := job }

/-- The round of the pump up to its `recv_packet`. -/
def pumpTop (w : World) : World :=
  if interactive w then
    let w := pumpInput P w
    if w.job.userClose then
      let w := sendPacket P w (channelEof w.cs)
      let w := sendPacket P w (channelClose w.cs)
      finishChannel w
    else w.goto .pump
  else w.goto .pump

def channelOpenPayload : Bytes :=
  let p := putCstring (putU8 [] msgChannelOpen) "session"
  let p := putU32 p localChannelId
  let p := putU32 p localWindowMax
  putU32 p localMaxpacket

/-- `do_channel` up to the server's answer to CHANNEL_OPEN. -/
def startChannel (w : World) : World := (sendPacket P w channelOpenPayload).goto .channelOpen

def ptyReqPayload (cs : Csess) (size : UInt32 × UInt32) : Bytes :=
  let p := putU32 (putU8 [] msgChannelRequest) cs.peerChannel
  let p := putCstring p "pty-req"
  let p := putU8 p 1
  let p := putCstring p "xterm"
  let p := putU32 (putU32 p size.1) size.2
  let p := putU32 (putU32 p 0) 0
  putString p [0]

def commandPayload (job : SshJob) (cs : Csess) : Bytes :=
  let p := putU32 (putU8 [] msgChannelRequest) cs.peerChannel
  if job.haveCmd then putString (putU8 (putCstring p "exec") 1) job.command
  else putU8 (putCstring p "shell") 1

def requestCommand (w : World) : World :=
  (sendPacket P w (commandPayload w.job w.cs)).goto .channelRequest

/-- The channel, window and packet size that a CHANNEL_OPEN_CONFIRM names. -/
def confirmed (pkt : Bytes) : UInt32 × UInt32 × UInt32 :=
  let (_recipient, v) := getU32 (viewInit (pkt.drop 1))
  let (peerChannel, v) := getU32 v
  let (peerWindow, v) := getU32 v
  let (peerMaxPacket, _) := getU32 v
  (peerChannel, peerWindow, peerMaxPacket)

def onChannelOpen (w : World) (t : ℤ) (pkt : Bytes) : World :=
  if t < 0 then giveUp w (ascii "channel open: connection lost")
  else if t = msgChannelOpenFailure.toNat then giveUp w (ascii "server refused session channel")
  else if t ≠ msgChannelOpenConfirm.toNat then giveUp w (ascii "expected channel confirm")
  else
    let (peerChannel, peerWindow, peerMaxPacket) := confirmed pkt
    let w := w.modify fun cs ↦
      { cs with
        peerChannel := peerChannel
        peerWindow := peerWindow
        peerMaxPacket := peerMaxPacket
        localWindow := localWindowMax }
    if interactive w then (sendPacket P w (ptyReqPayload w.cs w.env.termSize)).goto .ptyReq
    else requestCommand P w

def onPtyReq (w : World) (t : ℤ) : World :=
  if t < 0 then giveUp w (ascii "pty-req: connection lost")
  else if t = msgChannelFailure.toNat ∨ t = msgChannelSuccess.toNat then requestCommand P w
  else giveUp w (ascii "expected pty-req reply")

def onChannelRequest (w : World) (t : ℤ) : World :=
  if t < 0 then giveUp w (ascii "channel request: connection lost")
  else if t = msgChannelFailure.toNat then
    giveUp w (ascii (if w.job.haveCmd then "exec refused" else "shell refused"))
  else if t ≠ msgChannelSuccess.toNat then
    giveUp w (ascii "expected channel success (got msg " ++ ascii (Int.repr t) ++ ascii ")")
  else
    let w := if w.job.haveCmd then sendPacket P w (channelEof w.cs) else w
    pumpTop P w

/-- Count what was received against the window; give back the whole window
once half of it is used. -/
def replenish (w : World) (n : ℕ) : World :=
  let w := w.modify fun cs ↦
    { cs with
      localWindow := if n < cs.localWindow.toNat then cs.localWindow - UInt32.ofNat n else 0 }
  if w.cs.localWindow < localWindowMax / 2 then
    let add := localWindowMax - w.cs.localWindow
    let w := sendPacket P w (channelWindowAdjust w.cs add)
    w.modify fun cs ↦ { cs with localWindow := cs.localWindow + add }
  else w

/-- The bytes of a CHANNEL_DATA message. -/
def dataOf (pkt : Bytes) : Option Bytes := (getString (getU32 (viewInit (pkt.drop 1))).2).1

/-- The bytes of a CHANNEL_EXTENDED_DATA message. -/
def extendedDataOf (pkt : Bytes) : Option Bytes :=
  (getString (getU32 (getU32 (viewInit (pkt.drop 1))).2).2).1

def onData (w : World) (pkt : Bytes) : World :=
  match dataOf pkt with
  | none => w
  | some d => replenish P (outWrite w d) d.length

def onExtendedData (w : World) (pkt : Bytes) : World :=
  match extendedDataOf pkt with
  | none => w
  | some d => outWrite w d

/-- A channel request of the server; only `exit-status` is looked at. -/
def onServerRequest (w : World) (pkt : Bytes) : World :=
  match getString (getU32 (viewInit (pkt.drop 1))).2 with
  | (none, _) => w
  | (some type, v) =>
    let (_wantReply, v) := getU8 v
    if type = ascii "exit-status" then
      { w with job := { w.job with exitStatus := (getU32 v).1, haveExit := true } }
    else w

def setMsg (w : World) (msg : String) : World := { w with job := { w.job with msg := ascii msg } }

/-- The switch of the pump, with whether the loop is left. -/
def pumpSwitch (w : World) (t : UInt8) (pkt : Bytes) : World × Bool :=
  if t = msgChannelData then (onData P w pkt, false)
  else if t = msgChannelExtendedData then (onExtendedData w pkt, false)
  else if t = msgChannelWindowAdjust then (onWindowAdjust w pkt, false)
  else if t = msgChannelRequest then (onServerRequest w pkt, false)
  else if t = msgChannelClose then (sendPacket P w (channelClose w.cs), true)
  else if t = msgDisconnect then (w, true)
  else if t = msgGlobalRequest then (onGlobalRequest P w pkt, false)
  else (w, false)

/-- The round of the pump from its `recv_packet` on. -/
def onPump (w : World) (t : ℤ) (pkt : Bytes) : World :=
  if t = 0 then
    if interactive w then pumpTop P w
    else finishChannel (setMsg w "(timed out waiting for output)")
  else if t = -1 then finishChannel (setMsg w "(protocol/decrypt error)")
  else if t = -2 then finishChannel w
  else
    match pumpSwitch P w (UInt8.ofNat t.toNat) pkt with
    | (w, true) => finishChannel w
    | (w, false) => pumpTop P w

/-- `channel_recv` takes a GLOBAL_REQUEST or a WINDOW_ADJUST itself. -/
def channelRecv (k : World → ℤ → Bytes → World) (w : World) (t : ℤ) (pkt : Bytes) : World :=
  if t = msgGlobalRequest.toNat then onGlobalRequest P w pkt
  else if t = msgChannelWindowAdjust.toNat then onWindowAdjust w pkt
  else k w t pkt

end Sshd.Client
