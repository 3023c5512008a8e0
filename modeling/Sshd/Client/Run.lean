import Sshd.Client.Auth
import Sshd.Client.Channel

namespace Sshd.Client

open Lib.Octets Wire Crypto

variable (P : Primitives)

/-- One round of the loop of `do_version`, at a moment when the deadline has or
has not passed. -/
def versionRound (expired : Bool) (w : World) : World :=
  match takeLine w.cs.rxBuf with
  | some (line, rest) =>
    let w := w.modify fun cs ↦ { cs with rxBuf := rest }
    if line.take 4 = ascii "SSH-" then
      if line.take 8 ≠ ascii "SSH-2.0-" ∧ line.take 8 ≠ ascii "SSH-1.99" then
        giveUp w (ascii "server is not SSH-2.0")
      else startKex P (w.modify fun cs ↦ { cs with peerVersion := line })
    else w
  | none =>
    if expired then giveUp w (ascii "no SSH banner from server") else
    let (got, w) := fillRx w
    if got = 0 ∧ w.connected = false ∧ w.cs.rxBuf = [] then
      giveUp w (ascii "connection closed during banner")
    else w

/-- The end of `do_kex`. -/
def onNewkeys (w : World) (t : ℤ) : World :=
  if t < 0 then giveUp w (ascii "no NEWKEYS from server")
  else if t ≠ msgNewkeys.toNat then giveUp w (ascii "expected NEWKEYS")
  else startAuth P (w.modify fun cs ↦ { cs with encIn := true })

/-- `recv_packet` returns `t` to where the worker waits. -/
def resume (w : World) (t : ℤ) (pkt : Bytes) : World :=
  match w.pc with
  | .version => w
  | .kexinit => onKexinit P w t pkt
  | .kexEcdhReply => onKexEcdhReply P w t pkt
  | .newkeys => onNewkeys P w t
  | .serviceAccept => onServiceAccept P w t
  | .noneProbe => onNoneProbe P (startChannel P) w t pkt
  | .publickey => onPublickey P (startChannel P) w t pkt
  | .keyboardInteractive => onKeyboardInteractive P (startChannel P) w t pkt
  | .password => onPassword (startChannel P) w t pkt
  | .channelOpen => channelRecv P (onChannelOpen P) w t pkt
  | .ptyReq => channelRecv P (fun w t _ ↦ onPtyReq P w t) w t pkt
  | .channelRequest => channelRecv P (fun w t _ ↦ onChannelRequest P w t) w t pkt
  | .pump => onPump P w t pkt
  | .finished => w

/-- The worker runs one round of the loop it waits in. -/
def poll (expired : Bool) (w : World) : World :=
  match w.pc with
  | .finished => w
  | .version => versionRound P expired w
  | _ =>
    match recvRound P expired w with
    | (none, w) => w
    | (some (t, pkt), w) => resume P (w.note (.received w.pc t pkt)) t pkt

/-- `run_session` up to the server's version line. -/
def runSession (env : Env) (job : SshJob) (store : List Bytes) : World :=
  let w : World := ⟨env, job, {}, .finished, store, [], [], true, [], []⟩
  let w := w.note (.itsConnect env.itsConnect)
  let w := w.modify fun cs ↦ { cs with handle := env.itsConnect }
  if w.cs.handle < 0 then fail w (ascii "dial failed (host unreachable / DNS / net down)")
  else
    let w := w.modify fun cs ↦ { cs with ourVersion := ourVersionStr }
    let w := sendRaw w (w.cs.ourVersion ++ ascii "\r\n")
    w.goto .version

/-- What can happen to a client: bytes arrive, the server closes the
connection, the user types into `job.in` or asks for the end, the worker runs. -/
inductive Event
  | tcpArrive (data : Bytes)
  | tcpClose
  | typed (data : Bytes)
  | userClose
  | poll (expired : Bool)

def step (w : World) : Event → World
  | .tcpArrive data => { w with tcpIn := w.tcpIn ++ data }
  | .tcpClose => { w with connected := false }
  | .typed data => { w with typed := w.typed ++ data.take (2048 - w.typed.length) }
  | .userClose => { w with job := { w.job with userClose := true } }
  | .poll expired => poll P expired w

def runFrom (w : World) (events : List Event) : World := events.foldl (step P) w

end Sshd.Client
