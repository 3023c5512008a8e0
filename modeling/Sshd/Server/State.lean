import Sshd.Framing

namespace Sshd.Server

open Lib.Octets

/-! Message numbers. -/

def msgDisconnect : UInt8 := 1
def msgIgnore : UInt8 := 2
def msgUnimplemented : UInt8 := 3
def msgDebug : UInt8 := 4
def msgServiceRequest : UInt8 := 5
def msgServiceAccept : UInt8 := 6
def msgKexinit : UInt8 := 20
def msgNewkeys : UInt8 := 21
def msgKexEcdhInit : UInt8 := 30
def msgKexEcdhReply : UInt8 := 31
def msgUserauthRequest : UInt8 := 50
def msgUserauthFailure : UInt8 := 51
def msgUserauthSuccess : UInt8 := 52
def msgUserauthPkOk : UInt8 := 60
def msgGlobalRequest : UInt8 := 80
def msgRequestFailure : UInt8 := 82
def msgChannelOpen : UInt8 := 90
def msgChannelOpenConfirm : UInt8 := 91
def msgChannelOpenFailure : UInt8 := 92
def msgChannelWindowAdjust : UInt8 := 93
def msgChannelData : UInt8 := 94
def msgChannelEof : UInt8 := 96
def msgChannelClose : UInt8 := 97
def msgChannelRequest : UInt8 := 98
def msgChannelSuccess : UInt8 := 99
def msgChannelFailure : UInt8 := 100

def localChannelId : UInt32 := 0
def localWindowMax : UInt32 := 32768
def localMaxpacket : UInt32 := 16384

def ourVersionStr : Bytes := ascii "SSH-2.0-spangap-sshd_0.1"

inductive Phase
  | version
  | kexWaitKexinit
  | kexWaitEcdh
  | kexWaitNewkeys
  | auth
  | run
  | closed
  deriving DecidableEq

inductive ChanKind
  | none
  | cli
  | log
  deriving DecidableEq

inductive KexAlg
  | curve25519Sha256
  | mlkem768X25519
  deriving DecidableEq

/-- The fields of `Session`, at the values `reset` gives them. The two 64-bit
sequence numbers are natural numbers: no run is long enough to wrap them. -/
structure Session where
  slot : ℤ := -1
  tcp : ℤ := -1
  phase : Phase := .version
  rxBuf : Bytes := []
  peerVersion : Bytes := []
  ourVersion : Bytes := []
  kexAlg : KexAlg := .curve25519Sha256
  peerKexInit : Bytes := []
  ourKexInit : Bytes := []
  ephPriv : Bytes := List.replicate 32 0
  ephPub : Bytes := List.replicate 32 0
  peerEphPub : Bytes := List.replicate 32 0
  peerKexBlob : Bytes := []
  ourKexBlob : Bytes := []
  sharedK : Bytes := List.replicate 32 0
  sessionId : Bytes := List.replicate 32 0
  haveSessionId : Bool := false
  c2sKey : Bytes := List.replicate 64 0
  s2cKey : Bytes := List.replicate 64 0
  encInbound : Bool := false
  encOutbound : Bool := false
  seqIn : ℕ := 0
  seqOut : ℕ := 0
  user : Bytes := []
  authed : Bool := false
  peerChannel : UInt32 := 0
  localChannel : UInt32 := 0
  peerWindow : UInt32 := 0
  localWindow : UInt32 := 0
  peerMaxPacket : UInt32 := 0
  chanKind : ChanKind := .none
  backendHandle : ℤ := -1
  chanOpen : Bool := false
  backendClosing : Bool := false

def reset : Session := {}

inductive CliMode
  | ansi
  | line
  deriving DecidableEq

/-- The service a backend connection goes to, with its connect payload. -/
inductive Backend
  | cli (mode : CliMode) (color noPrompt : Bool)
  | log (color : Bool)
  deriving DecidableEq

/-- The two kinds of connection a session has. -/
inductive Link
  | tcp
  | backend
  deriving DecidableEq

/-- The record of a run: every call out of the session code with its answer.
`dispatch` notes the session on entry to `dispatch_packet`, `exchangeHash` and
`deriveKeys` the hash that is signed and the one the keys are derived from,
`sealed` the frame that `send_packet` makes, `opened` the packet that
`parse_packet` takes a payload from. -/
inductive Obs
  | accept (tcp slot : ℤ)
  | random (bytes : Bytes)
  | exchangeHash (h : Bytes)
  | deriveKeys (h : Bytes)
  | authKey (pub : Bytes) (ok : Bool)
  | verify (pub msg sig : Bytes) (ok : Bool)
  | authLogin (pw realm : Bytes) (ok : Bool)
  | opened (enc : Bool) (key : Bytes) (seq : ℕ) (packet payload : Bytes)
  | dispatch (s : Session) (payload : Bytes)
  | sealed (f : Framing.Frame)
  | itsSend (link : Link) (handle : ℤ) (data : Bytes) (took : ℕ)
  | itsRecv (handle : ℤ) (data : Bytes)
  | itsConnect (s : Session) (backend : Backend) (ref handle : ℤ)
  | itsSendDrain (handle : ℤ)
  | itsDisconnect (link : Link) (handle : ℤ)

/-- Everything outside the session code that gives it answers. An answer may
depend on all that was recorded before the question. -/
structure Env where
  random : List Obs → ℕ → UInt8
  hostSeed : List Obs → Bytes
  authorizedKeys : List Obs → List Bytes
  authLogin : List Obs → (pw realm : Bytes) → Bool
  color : List Obs → Bool
  logcolor : List Obs → Bool
  itsSend : List Obs → Link → ℤ → Bytes → ℕ
  itsRecv : List Obs → ℤ → ℕ → ℕ
  itsConnect : List Obs → Backend → ℤ

/-- A session with its surroundings: the slot flags of the daemon, the bytes
ITS holds for it on the TCP connection and on each backend connection. -/
structure World where
  env : Env
  s : Session
  slotInUse : ℤ → Bool
  tcpIn : Bytes
  backIn : ℤ → Bytes
  obs : List Obs

def World.note (w : World) (o : Obs) : World := { w with obs := w.obs ++ [o] }

def World.modify (w : World) (f : Session → Session) : World := { w with s := f w.s }

def randomBytes (w : World) (n : ℕ) : Bytes × World :=
  let bytes := (List.range n).map (w.env.random w.obs)
  (bytes, w.note (.random bytes))

/-- ITS takes any part of what it is offered. -/
def itsSend (w : World) (link : Link) (handle : ℤ) (data : Bytes) : ℕ × World :=
  let took := min (w.env.itsSend w.obs link handle data) data.length
  (took, w.note (.itsSend link handle data took))

/-- At least one byte when some are queued and asked for, at most `want`. -/
def itsRecv (w : World) (handle : ℤ) (want : ℕ) : Bytes × World :=
  let queue := w.backIn handle
  let n := min (max 1 (w.env.itsRecv w.obs handle want)) (min want queue.length)
  (queue.take n,
    { w with backIn := Function.update w.backIn handle (queue.drop n)
             obs := w.obs ++ [.itsRecv handle (queue.take n)] })

/-- A new connection starts with nothing queued. -/
def itsConnect (w : World) (backend : Backend) (ref : ℤ) : ℤ × World :=
  let handle := w.env.itsConnect w.obs backend
  (handle,
    { w with backIn := if 0 ≤ handle then Function.update w.backIn handle [] else w.backIn
             obs := w.obs ++ [.itsConnect w.s backend ref handle] })

def itsSendDrain (w : World) (handle : ℤ) : World := w.note (.itsSendDrain handle)

def itsDisconnect (w : World) (link : Link) (handle : ℤ) : World :=
  w.note (.itsDisconnect link handle)

section
variable (w : World) (o : Obs) (f : Session → Session)

@[simp] theorem note_env : (w.note o).env = w.env := rfl
@[simp] theorem note_s : (w.note o).s = w.s := rfl
@[simp] theorem note_slotInUse : (w.note o).slotInUse = w.slotInUse := rfl
@[simp] theorem note_tcpIn : (w.note o).tcpIn = w.tcpIn := rfl
@[simp] theorem note_backIn : (w.note o).backIn = w.backIn := rfl
@[simp] theorem note_obs : (w.note o).obs = w.obs ++ [o] := rfl

@[simp] theorem modify_env : (w.modify f).env = w.env := rfl
@[simp] theorem modify_s : (w.modify f).s = f w.s := rfl
@[simp] theorem modify_slotInUse : (w.modify f).slotInUse = w.slotInUse := rfl
@[simp] theorem modify_tcpIn : (w.modify f).tcpIn = w.tcpIn := rfl
@[simp] theorem modify_backIn : (w.modify f).backIn = w.backIn := rfl
@[simp] theorem modify_obs : (w.modify f).obs = w.obs := rfl

end

@[simp] theorem randomBytes_length (w : World) (n : ℕ) : (randomBytes w n).1.length = n := by
  simp [randomBytes]

end Sshd.Server
