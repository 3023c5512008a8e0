import Sshd.Framing
import Sshd.Wire
import Sshd.Client.KnownHosts

namespace Sshd.Client

open Lib.Octets Wire Crypto Framing

/-! Message numbers. -/

def msgDisconnect : UInt8 := 1
def msgIgnore : UInt8 := 2
def msgDebug : UInt8 := 4
def msgServiceRequest : UInt8 := 5
def msgServiceAccept : UInt8 := 6
def msgKexinit : UInt8 := 20
def msgNewkeys : UInt8 := 21
def msgKexEcdhInit : UInt8 := 30
def msgKexEcdhReply : UInt8 := 31
def msgUserauthRequest : UInt8 := 50
def msgUserauthFailure : UInt8 := 51
def msgUserauthSuccess : UInt8 := 52
def msgUserauthBanner : UInt8 := 53
def msgUserauthInfoRequest : UInt8 := 60
def msgUserauthInfoResponse : UInt8 := 61
def msgGlobalRequest : UInt8 := 80
def msgRequestFailure : UInt8 := 82
def msgChannelOpen : UInt8 := 90
def msgChannelOpenConfirm : UInt8 := 91
def msgChannelOpenFailure : UInt8 := 92
def msgChannelWindowAdjust : UInt8 := 93
def msgChannelData : UInt8 := 94
def msgChannelExtendedData : UInt8 := 95
def msgChannelEof : UInt8 := 96
def msgChannelClose : UInt8 := 97
def msgChannelRequest : UInt8 := 98
def msgChannelSuccess : UInt8 := 99
def msgChannelFailure : UInt8 := 100

def ourVersionStr : Bytes := ascii "SSH-2.0-spangap-ssh_0.1"
def localChannelId : UInt32 := 0
def localWindowMax : UInt32 := 0x100000
def localMaxpacket : UInt32 := 32768

/-- The fields of `SshJob`; its two pipes are `typed` and the record's `output`
in `World`. -/
structure SshJob where
  host : Bytes
  user : Bytes
  haveCmd : Bool
  command : Bytes
  havePassword : Bool
  password : Bytes
  tryPubkey : Bool
  seed : Bytes
  hasIn : Bool
  userClose : Bool := false
  rc : ℤ := 1
  msg : Bytes := []
  haveExit : Bool := false
  exitStatus : UInt32 := 0

/-- The fields of `Csess`. -/
structure Csess where
  handle : ℤ := -1
  rxBuf : Bytes := []
  ourVersion : Bytes := []
  peerVersion : Bytes := []
  ourKexInit : Bytes := []
  peerKexInit : Bytes := []
  ephPriv : Bytes := List.replicate 32 0
  ephPub : Bytes := List.replicate 32 0
  peerEphPub : Bytes := List.replicate 32 0
  sharedK : Bytes := List.replicate 32 0
  sessionId : Bytes := List.replicate 32 0
  sendKey : Bytes := List.replicate 64 0
  recvKey : Bytes := List.replicate 64 0
  encOut : Bool := false
  encIn : Bool := false
  seqOut : ℕ := 0
  seqIn : ℕ := 0
  peerChannel : UInt32 := 0
  peerWindow : UInt32 := 0
  peerMaxPacket : UInt32 := 0
  localWindow : UInt32 := 0

/-- Where the worker waits: in the loop of `do_version`, or in the
`recv_packet` that reads the message named. -/
inductive Pc
  | version
  | kexinit
  | kexEcdhReply
  | newkeys
  | serviceAccept
  | noneProbe
  | publickey
  | keyboardInteractive
  | password
  | channelOpen
  | ptyReq
  | channelRequest
  | pump
  | finished
  deriving DecidableEq

/-- The record of a run: every call out of the client code with its answer,
the frames it makes, the packets it opens, and each return of `recv_packet`
with the place it returns to. `output` is a call of `out_write`, with what each
round of its loop has got rid of. -/
inductive Obs
  | random (bytes : Bytes)
  | itsConnect (handle : ℤ)
  | itsSend (data : Bytes) (took : ℕ)
  | itsRecv (data : Bytes)
  | itsDisconnect (handle : ℤ)
  | sealed (f : Frame)
  | opened (enc : Bool) (key : Bytes) (seq : ℕ) (packet payload : Bytes)
  | received (pc : Pc) (t : ℤ) (pkt : Bytes)
  | verify (pub msg sig : Bytes) (ok : Bool)
  | knownHosts (host fp : Bytes) (ok : Bool)
  | typed (data : Bytes)
  | output (data : Bytes) (took : List ℕ)

/-- Everything outside the client code that gives it answers. `junk` is what
stands in memory that nothing was written to. -/
structure Env where
  random : List Obs → ℕ → UInt8
  itsConnect : ℤ
  itsSend : List Obs → Bytes → ℕ
  itsRecv : List Obs → ℕ
  xStreamBufferSend : List Obs → Bytes → ℕ
  termSize : UInt32 × UInt32
  junk : Bytes

/-- The client with its surroundings: the array of known hosts, the last list
of methods a server offered, the bytes ITS holds, whether the connection is
up, and the keystrokes in `job.in`. -/
structure World where
  env : Env
  job : SshJob
  cs : Csess
  pc : Pc
  knownHosts : List Bytes
  offeredMethods : Bytes
  tcpIn : Bytes
  connected : Bool
  typed : Bytes
  obs : List Obs

def World.note (w : World) (o : Obs) : World := { w with obs := w.obs ++ [o] }

def World.modify (w : World) (f : Csess → Csess) : World := { w with cs := f w.cs }

def World.goto (w : World) (pc : Pc) : World := { w with pc := pc }

def randomBytes (w : World) (n : ℕ) : Bytes × World :=
  let bytes := (List.range n).map (w.env.random w.obs)
  (bytes, w.note (.random bytes))

/-- ITS takes any part of what it is offered. -/
def itsSend (w : World) (data : Bytes) : World :=
  w.note (.itsSend data (min (w.env.itsSend w.obs data) data.length))

/-- At least one byte when some are queued, at most 1024. -/
def itsRecv (w : World) : Bytes × World :=
  let n := min (max 1 (w.env.itsRecv w.obs)) (min 1024 w.tcpIn.length)
  (w.tcpIn.take n, { w with tcpIn := w.tcpIn.drop n }.note (.itsRecv (w.tcpIn.take n)))

section
variable (w : World) (o : Obs) (f : Csess → Csess) (pc : Pc)

@[simp] theorem note_env : (w.note o).env = w.env := rfl
@[simp] theorem note_job : (w.note o).job = w.job := rfl
@[simp] theorem note_cs : (w.note o).cs = w.cs := rfl
@[simp] theorem note_pc : (w.note o).pc = w.pc := rfl
@[simp] theorem note_knownHosts : (w.note o).knownHosts = w.knownHosts := rfl
@[simp] theorem note_typed : (w.note o).typed = w.typed := rfl
@[simp] theorem note_obs : (w.note o).obs = w.obs ++ [o] := rfl

@[simp] theorem modify_env : (w.modify f).env = w.env := rfl
@[simp] theorem modify_job : (w.modify f).job = w.job := rfl
@[simp] theorem modify_cs : (w.modify f).cs = f w.cs := rfl
@[simp] theorem modify_pc : (w.modify f).pc = w.pc := rfl
@[simp] theorem modify_knownHosts : (w.modify f).knownHosts = w.knownHosts := rfl
@[simp] theorem modify_typed : (w.modify f).typed = w.typed := rfl
@[simp] theorem modify_obs : (w.modify f).obs = w.obs := rfl

@[simp] theorem goto_env : (w.goto pc).env = w.env := rfl
@[simp] theorem goto_job : (w.goto pc).job = w.job := rfl
@[simp] theorem goto_cs : (w.goto pc).cs = w.cs := rfl
@[simp] theorem goto_pc : (w.goto pc).pc = pc := rfl
@[simp] theorem goto_knownHosts : (w.goto pc).knownHosts = w.knownHosts := rfl
@[simp] theorem goto_typed : (w.goto pc).typed = w.typed := rfl
@[simp] theorem goto_obs : (w.goto pc).obs = w.obs := rfl

end

@[simp] theorem randomBytes_length (w : World) (n : ℕ) : (randomBytes w n).1.length = n := by
  simp [randomBytes]

end Sshd.Client
