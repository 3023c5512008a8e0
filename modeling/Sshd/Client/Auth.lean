import Sshd.Client.Kex

namespace Sshd.Client

open Lib.Octets Wire Crypto

variable (P : Primitives)

/-! The methods of `do_auth`, each cut at its `recv_packet`. A method that is
done hands over to the next one. -/

def noteFailureMethods (w : World) (pkt : Bytes) : World :=
  match getString (viewInit (pkt.drop 1)) with
  | (none, _) => { w with offeredMethods := [] }
  | (some m, _) => { w with offeredMethods := cString (m.take 95) }

def userauthRequest (user : Bytes) (method : String) : Bytes :=
  let p := putU8 [] msgUserauthRequest
  let p := putString p user
  let p := putCstring p "ssh-connection"
  putCstring p method

/-- The blob of the user's public key. -/
def pubkeyBlob (pub : Bytes) : Bytes := putString (putCstring [] "ssh-ed25519") pub

/-- What a publickey request says of the key, signed or not. -/
def publickeyClaim (p pkBlob : Bytes) : Bytes :=
  let p := putU8 p 1
  let p := putCstring p "ssh-ed25519"
  putString p pkBlob

def userauthSigned (sessionId user pkBlob : Bytes) : Bytes :=
  publickeyClaim (putString [] sessionId ++ userauthRequest user "publickey") pkBlob

def publickeyRequest (user pkBlob sig : Bytes) : Bytes :=
  let sigBlob := putString (putCstring [] "ssh-ed25519") sig
  putString (publickeyClaim (userauthRequest user "publickey") pkBlob) sigBlob

def passwordRequest (user password : Bytes) : Bytes :=
  putString (putU8 (userauthRequest user "password") 0) password

def keyboardInteractiveRequest (user : Bytes) : Bytes :=
  putCstring (putCstring (userauthRequest user "keyboard-interactive") "") ""

/-- The loop over the prompts of an INFO_REQUEST. -/
def skipPrompts : ℕ → View → Option View
  | 0, v => some v
  | n + 1, v =>
    match skipString v with
    | (false, _) => none
    | (true, v) => skipPrompts n (getU8 v).2

/-- The number of prompts of an INFO_REQUEST, where it can be read. -/
def infoRequestPrompts (pkt : Bytes) : Option UInt32 :=
  match skipString (viewInit (pkt.drop 1)) with
  | (false, _) => none
  | (true, v) =>
    match skipString v with
    | (false, _) => none
    | (true, v) =>
      match skipString v with
      | (false, _) => none
      | (true, v) =>
        let (num, v) := getU32 v
        if v.bad ∨ 32 < num then none else (skipPrompts num.toNat v).map fun _ ↦ num

/-- Every prompt is answered with the one password. -/
def infoResponse (num : UInt32) (password : Bytes) : Bytes :=
  (List.range num.toNat).foldl (fun r _ ↦ putString r password)
    (putU32 (putU8 [] msgUserauthInfoResponse) num)

def authFailed (w : World) : World :=
  if !w.job.havePassword && !w.job.tryPubkey then
    giveUp w (ascii "no auth method available (set s.ssh.password or run ssh-keygen)")
  else
    giveUp w (snprintf 200 (ascii "authentication failed (server offers: " ++
      (if w.offeredMethods = [] then ascii "?" else w.offeredMethods) ++ ascii ")"))

def authPassword (w : World) : World :=
  (sendPacket P w (passwordRequest w.job.user w.job.password)).goto .password

def authKeyboardInteractive (w : World) : World :=
  if w.job.havePassword then
    (sendPacket P w (keyboardInteractiveRequest w.job.user)).goto .keyboardInteractive
  else authFailed w

def authPublickey (w : World) : World :=
  if w.job.tryPubkey then
    match ed25519PubFromSeed P w.job.seed with
    | none => giveUp w (ascii "publickey auth: connection lost")
    | some pub =>
      let pkBlob := pubkeyBlob pub
      match ed25519Sign P w.job.seed (userauthSigned w.cs.sessionId w.job.user pkBlob) with
      | none => giveUp w (ascii "publickey auth: connection lost")
      | some sig => (sendPacket P w (publickeyRequest w.job.user pkBlob sig)).goto .publickey
  else authKeyboardInteractive P w

/-- `do_auth` up to the server's SERVICE_ACCEPT. -/
def startAuth (w : World) : World :=
  (sendPacket P w (putCstring (putU8 [] msgServiceRequest) "ssh-userauth")).goto .serviceAccept

def onServiceAccept (w : World) (t : ℤ) : World :=
  if t < 0 then giveUp w (ascii "no SERVICE_ACCEPT")
  else if t ≠ msgServiceAccept.toNat then giveUp w (ascii "service request rejected")
  else
    let w := { w with offeredMethods := [] }
    (sendPacket P w (userauthRequest w.job.user "none")).goto .noneProbe

/-- `auth_simple_result`: success, failure with its methods noted, or neither. -/
inductive Verdict
  | success
  | failure
  | error
  deriving DecidableEq

def simpleResult (t : ℤ) : Verdict :=
  if t = msgUserauthSuccess.toNat then .success
  else if t = msgUserauthFailure.toNat then .failure
  else .error

variable (startChannel : World → World)

def onNoneProbe (w : World) (t : ℤ) (pkt : Bytes) : World :=
  if t = msgUserauthBanner.toNat then w
  else if t = msgUserauthSuccess.toNat then startChannel w
  else if t = msgUserauthFailure.toNat then authPublickey P (noteFailureMethods w pkt)
  else if t < 0 then giveUp w (ascii "auth probe: connection lost")
  else authPublickey P w

def onPublickey (w : World) (t : ℤ) (pkt : Bytes) : World :=
  if t = msgUserauthBanner.toNat then w
  else match simpleResult t with
    | .success => startChannel w
    | .failure => authKeyboardInteractive P (noteFailureMethods w pkt)
    | .error => giveUp w (ascii "publickey auth: connection lost")

def onKeyboardInteractive (w : World) (t : ℤ) (pkt : Bytes) : World :=
  if t = msgUserauthBanner.toNat then w
  else if t = msgUserauthInfoRequest.toNat then
    match infoRequestPrompts pkt with
    | none => giveUp w (ascii "keyboard-interactive auth: connection lost")
    | some num => sendPacket P w (infoResponse num w.job.password)
  else match simpleResult t with
    | .success => startChannel w
    | .failure => authPassword P (noteFailureMethods w pkt)
    | .error => giveUp w (ascii "keyboard-interactive auth: connection lost")

def onPassword (w : World) (t : ℤ) (pkt : Bytes) : World :=
  if t = msgUserauthBanner.toNat then w
  else match simpleResult t with
    | .success => startChannel w
    | .failure => authFailed (noteFailureMethods w pkt)
    | .error => giveUp w (ascii "password auth: connection lost")

end Sshd.Client
