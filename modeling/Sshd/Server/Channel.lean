import Sshd.Server.Transport

namespace Sshd.Server

open Lib.Octets Wire Crypto

variable (P : Primitives)

def sendChannelOpenFailure (w : World) (peerChan reason : UInt32) (desc : String) : World :=
  let p := putU8 [] msgChannelOpenFailure
  let p := putU32 p peerChan
  let p := putU32 p reason
  let p := putCstring p desc
  let p := putCstring p ""
  sendPacket P w p

def sendChannelOpenConfirm (w : World) : World :=
  let p := putU8 [] msgChannelOpenConfirm
  let p := putU32 p w.s.peerChannel
  let p := putU32 p w.s.localChannel
  let p := putU32 p localWindowMax
  let p := putU32 p localMaxpacket
  sendPacket P w p

def channelRequestReply (s : Session) (success : Bool) : Bytes :=
  let p := putU8 [] (if success then msgChannelSuccess else msgChannelFailure)
  putU32 p s.peerChannel

def sendChannelRequestReply (w : World) (success : Bool) : World :=
  sendPacket P w (channelRequestReply w.s success)

def channelData (s : Session) (data : Bytes) : Bytes :=
  let p := putU8 [] msgChannelData
  let p := putU32 p s.peerChannel
  putString p data

def sendChannelData (w : World) (data : Bytes) : World := sendPacket P w (channelData w.s data)

def channelWindowAdjust (s : Session) (add : UInt32) : Bytes :=
  let p := putU8 [] msgChannelWindowAdjust
  let p := putU32 p s.peerChannel
  putU32 p add

def sendChannelWindowAdjust (w : World) (add : UInt32) : World :=
  sendPacket P w (channelWindowAdjust w.s add)

def channelClose (s : Session) : Bytes := putU32 (putU8 [] msgChannelClose) s.peerChannel

def sendChannelClose (w : World) : World := sendPacket P w (channelClose w.s)

def channelEof (s : Session) : Bytes := putU32 (putU8 [] msgChannelEof) s.peerChannel

def sendChannelEof (w : World) : World := sendPacket P w (channelEof w.s)

def exitStatus (s : Session) (status : UInt32) : Bytes :=
  let p := putU8 [] msgChannelRequest
  let p := putU32 p s.peerChannel
  let p := putCstring p "exit-status"
  let p := putU8 p 0
  putU32 p status

def sendExitStatus (w : World) (status : UInt32) : World :=
  if w.s.phase = .closed ∨ w.s.tcp < 0 then w else sendPacket P w (exitStatus w.s status)

/-- The connect payload for the kind of channel that was asked for. -/
def backendFor (w : World) (cliMode : CliMode) : Option Backend :=
  match w.s.chanKind with
  | .cli => some (.cli cliMode (w.env.color w.obs) (decide (cliMode = .line)))
  | .log => some (.log (w.env.logcolor w.obs))
  | .none => none

def openBackendWithMode (w : World) (sessionSlot : ℤ) (cliMode : CliMode) : World × Bool :=
  let w :=
    match backendFor w cliMode with
    | some backend =>
      let (handle, w) := itsConnect w backend sessionSlot
      w.modify fun s ↦ { s with backendHandle := handle }
    | none => w
  (w, decide (0 ≤ w.s.backendHandle))

def openBackend (w : World) (sessionSlot : ℤ) : World × Bool :=
  openBackendWithMode w sessionSlot .ansi

def openBackendLine (w : World) (sessionSlot : ℤ) : World × Bool :=
  openBackendWithMode w sessionSlot .line

/-- Let go of the backend connection, if there is one. -/
def dropBackend (w : World) : World :=
  if 0 ≤ w.s.backendHandle then
    (itsDisconnect w .backend w.s.backendHandle).modify fun s ↦ { s with backendHandle := -1 }
  else w

def handleChannelOpen (w : World) (payload : Bytes) : World × Bool :=
  match getString (viewInit payload) with
  | (none, _) => (w, false)
  | (some typeStr, v) =>
    let (peerCh, v) := getU32 v
    let (peerWin, v) := getU32 v
    let (peerMax, v) := getU32 v
    if v.bad then (w, false)
    else if w.s.chanOpen then
      (sendChannelOpenFailure P w peerCh 2 "only one channel allowed", true)
    else if typeStr ≠ ascii "session" then
      (sendChannelOpenFailure P w peerCh 3 "only session channels", true)
    else
      let w := w.modify fun s ↦
        { s with
          peerChannel := peerCh
          localChannel := localChannelId
          peerWindow := peerWin
          peerMaxPacket := peerMax
          localWindow := localWindowMax
          chanOpen := true }
      (sendChannelOpenConfirm P w, true)

def replyIf (w : World) (wantReply : UInt8) (ok : Bool) : World :=
  if wantReply ≠ 0 then sendChannelRequestReply P w ok else w

/-- `shell`, and `subsystem log`. -/
def requestBackend (w : World) (wantReply : UInt8) (kind : ChanKind) (sessionSlot : ℤ) :
    World × Bool :=
  let w := w.modify fun s ↦ { s with chanKind := kind }
  match openBackend w sessionSlot with
  | (w, false) => (replyIf P w wantReply false, true)
  | (w, true) => (replyIf P w wantReply true, true)

def requestExec (w : World) (v : View) (wantReply : UInt8) (sessionSlot : ℤ) : World × Bool :=
  match getString v with
  | (none, _) => (replyIf P w wantReply false, true)
  | (some cmd, _) =>
    if 256 < cmd.length then (replyIf P w wantReply false, true) else
    let w := w.modify fun s ↦ { s with chanKind := .cli }
    match openBackendLine w sessionSlot with
    | (w, false) => (replyIf P w wantReply false, true)
    | (w, true) =>
      let w := replyIf P w wantReply true
      let line := cmd ++ [59] ++ [10]
      ((itsSend w .backend w.s.backendHandle line).2, true)

def requestSubsystem (w : World) (v : View) (wantReply : UInt8) (sessionSlot : ℤ) :
    World × Bool :=
  match getString v with
  | (none, _) => (replyIf P w wantReply false, true)
  | (some sub, _) =>
    if sub = ascii "log" then requestBackend P w wantReply .log sessionSlot
    else (replyIf P w wantReply false, true)

def handleChannelRequest (w : World) (payload : Bytes) (sessionSlot : ℤ) : World × Bool :=
  let (_recipient, v) := getU32 (viewInit payload)
  match getString v with
  | (none, _) => (w, false)
  | (some typeStr, v) =>
    let (wantReply, v) := getU8 v
    if typeStr = ascii "pty-req" then (replyIf P w wantReply true, true)
    else if typeStr = ascii "shell" then requestBackend P w wantReply .cli sessionSlot
    else if typeStr = ascii "exec" then requestExec P w v wantReply sessionSlot
    else if typeStr = ascii "subsystem" then requestSubsystem P w v wantReply sessionSlot
    else if typeStr = ascii "env" then (replyIf P w wantReply true, true)
    else (replyIf P w wantReply false, true)

/-- Count what the backend took against the window; give back the whole
window once half of it is used. -/
def replenish (w : World) (written : ℕ) : World :=
  if 0 < written then
    let w := w.modify fun s ↦ { s with localWindow := s.localWindow - UInt32.ofNat written }
    if w.s.localWindow < localWindowMax / 2 then
      let add := localWindowMax - w.s.localWindow
      let w := w.modify fun s ↦ { s with localWindow := s.localWindow + add }
      sendChannelWindowAdjust P w add
    else w
  else w

def handleChannelData (w : World) (payload : Bytes) : World :=
  let (_recipient, v) := getU32 (viewInit payload)
  match getString v with
  | (none, _) => w
  | (some d, _) =>
    if w.s.backendHandle < 0 then w else
    let (written, w) := itsSend w .backend w.s.backendHandle d
    replenish P w written

/-- How much the drain loop asks the backend for. -/
def drainWant (s : Session) : ℕ :=
  let want := 1024
  let want := if s.peerWindow.toNat < want then s.peerWindow.toNat else want
  if s.peerMaxPacket ≠ 0 ∧ s.peerMaxPacket.toNat < want then s.peerMaxPacket.toNat else want

/-- The loop of `session_on_backend_data`; every round but the last takes at
least one queued byte. -/
def drainLoop : ℕ → World → World
  | 0, w => w
  | fuel + 1, w =>
    if 0 < w.s.peerWindow ∧ w.s.chanOpen then
      let (got, w) := itsRecv w w.s.backendHandle (drainWant w.s)
      if got = [] then w else
      let w := sendChannelData P w got
      drainLoop fuel (w.modify fun s ↦
        { s with peerWindow := s.peerWindow - UInt32.ofNat got.length })
    else w

def sessionOnBackendData (w : World) : World :=
  if w.s.chanOpen = false ∨ w.s.backendHandle < 0 then w
  else drainLoop P ((w.backIn w.s.backendHandle).length + 1) w

def handleChannelWindowAdjust (w : World) (payload : Bytes) : World :=
  let (_recipient, v) := getU32 (viewInit payload)
  let (add, _) := getU32 v
  let w := w.modify fun s ↦ { s with peerWindow := s.peerWindow + add }
  sessionOnBackendData P w

def handleChannelClose (w : World) : World :=
  if w.s.chanOpen = false then w else
  let w := dropBackend w
  let w := sendChannelClose P w
  let w := w.modify fun s ↦ { s with chanOpen := false }
  w.modify fun s ↦ { s with phase := .closed }

end Sshd.Server
