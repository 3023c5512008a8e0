import Sshd.Server.Quiet

namespace Sshd.Server

open Lib.Octets Wire Crypto

variable (P : Primitives)

/-! What dispatching one packet can do to a session, said once. Every safety
argument about the server is a case analysis over `Outcome`. -/

/-- The session gives up the TCP connection. -/
def hangUp (w : World) : World :=
  let w := w.modify fun s ↦ { s with phase := .closed }
  itsDisconnect w .tcp w.s.tcp

/-- The session identifier is the exchange hash of the first exchange. -/
def adoptHash (w : World) (h : Bytes) : World :=
  let w := w.note (.exchangeHash h)
  if w.s.haveSessionId then w
  else w.modify fun s ↦ { s with sessionId := h, haveSessionId := true }

def switchOutbound (w : World) : World :=
  (deriveSessionKeys P w).modify fun s ↦ { s with encOutbound := true, phase := .kexWaitNewkeys }

/-- A publickey request whose key is authorized at this moment and whose
signature verifies over the session identifier and the request's own fields. -/
def ByPublickey (env : Env) (obs : List Obs) (s : Session) (payload : Bytes) : Prop :=
  ∃ user svc pkBlob sigBlob pub sig flag rest pkRest sigRest,
    payload = msgUserauthRequest :: (lenPrefixed user ++ lenPrefixed svc ++
      lenPrefixed (ascii "publickey") ++ flag :: (lenPrefixed (ascii "ssh-ed25519") ++
      lenPrefixed pkBlob ++ lenPrefixed sigBlob ++ rest)) ∧
    flag ≠ 0 ∧
    pkBlob = lenPrefixed (ascii "ssh-ed25519") ++ lenPrefixed pub ++ pkRest ∧ pub.length = 32 ∧
    sigBlob = lenPrefixed (ascii "ssh-ed25519") ++ lenPrefixed sig ++ sigRest ∧ sig.length = 64 ∧
    authorizedPubMatches P (env.authorizedKeys obs) pub = true ∧
    ed25519Verify P pub (lenPrefixed s.sessionId ++ [50] ++ lenPrefixed user ++ lenPrefixed svc ++
      lenPrefixed (ascii "publickey") ++ [1] ++ lenPrefixed (ascii "ssh-ed25519") ++
      lenPrefixed pkBlob) sig = true

/-- A password request, no change of password, that `authLogin` accepts. -/
def ByPassword (env : Env) (obs : List Obs) (payload : Bytes) : Prop :=
  ∃ user svc pw rest,
    payload = msgUserauthRequest :: (lenPrefixed user ++ lenPrefixed svc ++
      lenPrefixed (ascii "password") ++ 0 :: (lenPrefixed pw ++ rest)) ∧
    env.authLogin obs (cString pw) (ascii "admin") = true

/-- What a channel request asks the server to connect to, with the line an
`exec` request has written to the backend. -/
def backendRequest (payload : Bytes) : Option (ChanKind × CliMode × Bytes) :=
  match payload with
  | [] => none
  | type :: body =>
    if type ≠ msgChannelRequest then none else
    match getString (getU32 (viewInit body)).2 with
    | (none, _) => none
    | (some typeStr, v) =>
      if typeStr = ascii "shell" then some (.cli, .ansi, [])
      else if typeStr = ascii "exec" then
        match getString (getU8 v).2 with
        | (none, _) => none
        | (some cmd, _) => if 256 < cmd.length then none else some (.cli, .line, cmd ++ [59] ++ [10])
      else if typeStr = ascii "subsystem" then
        match getString (getU8 v).2 with
        | (none, _) => none
        | (some sub, _) => if sub = ascii "log" then some (.log, .ansi, []) else none
      else none

/-- The bytes of a `CHANNEL_DATA` message. -/
def dataPayload (payload : Bytes) : Option Bytes :=
  match payload with
  | [] => none
  | type :: body =>
    if type ≠ msgChannelData then none else (getString (getU32 (viewInit body)).2).1

/-- A connection to a backend is asked for and its handle kept. -/
def connectBackend (w : World) (backend : Backend) (ref : ℤ) : World :=
  let (handle, w) := itsConnect w backend ref
  w.modify fun s ↦ { s with backendHandle := handle }

def openChannel (w : World) (peerCh peerWin peerMax : UInt32) : World :=
  w.modify fun s ↦
    { s with
      peerChannel := peerCh
      localChannel := localChannelId
      peerWindow := peerWin
      peerMaxPacket := peerMax
      localWindow := localWindowMax
      chanOpen := true }

def shut (w : World) : World := w.modify fun s ↦ { s with phase := .closed, chanOpen := false }

/-- `w` is the session with the dispatch of `payload` on record. -/
inductive Outcome (slot : ℤ) (w : World) (payload : Bytes) : World → Prop
  | quiet {w'} (h : Quiet P w w') : Outcome slot w payload w'
  | hangUp {w'} (h : Quiet P w w') : Outcome slot w payload (hangUp w')
  | kexinit (alg : KexAlg) (ht : payload.head? = some msgKexinit)
      (hp : w.s.phase = .kexWaitKexinit ∨ w.s.phase = .run) (hs : selectKexAlg payload = some alg) :
      Outcome slot w payload
        (w.modify fun s ↦ { s with peerKexInit := payload, kexAlg := alg, phase := .kexWaitEcdh })
  | exchange {w₁ w₂} (ht : payload.head? = some msgKexEcdhInit) (hp : w.s.phase = .kexWaitEcdh)
      (hash : Bytes) (h : Quiet P w w₁) (h' : Quiet P (adoptHash w₁ hash) w₂) :
      Outcome slot w payload (switchOutbound P w₂)
  | newkeys (ht : payload.head? = some msgNewkeys) (hp : w.s.phase = .kexWaitNewkeys) :
      Outcome slot w payload (handleNewkeys w)
  | success {w'} (hp : w.s.phase = .auth)
      (hj : ByPublickey P w.env w.obs w.s payload ∨ ByPassword w.env w.obs payload)
      (h : Quiet P w w') :
      Outcome slot w payload (w'.modify fun s ↦ { s with authed := true, phase := .run })
  | chanOpen (hp : w.s.phase = .run) (hc : w.s.chanOpen = false)
      (peerCh peerWin peerMax : UInt32) :
      Outcome slot w payload (sendChannelOpenConfirm P (openChannel w peerCh peerWin peerMax))
  | backend {w₁ w₂} (hp : w.s.phase = .run) (b : Backend)
      (hr : (backendRequest payload).isSome) (h : Quiet P w w₁)
      (h' : Quiet P (connectBackend w₁ b slot) w₂) : Outcome slot w payload w₂
  | exec {w₁ w₂} (hp : w.s.phase = .run) (b : Backend) (line : Bytes)
      (hr : backendRequest payload = some (.cli, .line, line)) (h : Quiet P w w₁)
      (h' : Quiet P (connectBackend w₁ b slot) w₂) (hh : 0 ≤ w₂.s.backendHandle) :
      Outcome slot w payload (itsSend w₂ .backend w₂.s.backendHandle line).2
  | data (hp : w.s.phase = .run) (d : Bytes) (hd : dataPayload payload = some d)
      (hb : 0 ≤ w.s.backendHandle) :
      Outcome slot w payload (replenish P (itsSend w .backend w.s.backendHandle d).2
        (itsSend w .backend w.s.backendHandle d).1)
  | chanClose {w'} (hc : w.s.chanOpen = true) (h : Quiet P (dropBackend w) w') :
      Outcome slot w payload (shut w')

theorem sendDisconnect_eq (w : World) (code : UInt32) (msg : String) :
    ∃ w', Quiet P w w' ∧ sendDisconnect P w code msg = hangUp w' :=
  ⟨_, Quiet.send P w (windowless_of_head rfl (by decide)), rfl⟩

end Sshd.Server
