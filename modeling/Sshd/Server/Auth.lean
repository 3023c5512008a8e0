import Sshd.Server.Transport

namespace Sshd.Server

open Lib.Octets Wire Crypto

variable (P : Primitives)

/-- The base64 field of an `authorized_keys` line, between the first two spaces. -/
def base64Field (line : Bytes) : Bytes :=
  ((line.dropWhile (· ≠ 32)).drop 1).takeWhile (· ≠ 32)

/-- The raw key inside a stored line. -/
def lineKey (line : Bytes) : Option Bytes :=
  if line.take 12 ≠ ascii "ssh-ed25519 " then none else
  match P.base64Decode 80 (base64Field line) with
  | none => none
  | some blob =>
    match getString (viewInit blob) with
    | (none, _) => none
    | (some alg, v2) =>
      if alg ≠ ascii "ssh-ed25519" then none else
      match getString v2 with
      | (none, _) => none
      | (some candidate, _) => if candidate.length ≠ 32 then none else some candidate

/-- The walk over the stored lines. -/
def authorizedPubMatches (lines : List Bytes) (pub : Bytes) : Bool :=
  lines.any fun line ↦ lineKey P line == some pub

def authorizedPub (w : World) (pub : Bytes) : Bool × World :=
  let ok := authorizedPubMatches P (w.env.authorizedKeys w.obs) pub
  (ok, w.note (.authKey pub ok))

def verifySignature (w : World) (pub msg sig : Bytes) : Bool × World :=
  let ok := ed25519Verify P pub msg sig
  (ok, w.note (.verify pub msg sig ok))

/-- The password crosses as a C string. -/
def authLogin (w : World) (pw : Bytes) (realm : String) : Bool × World :=
  let ok := w.env.authLogin w.obs (cString pw) (ascii realm)
  (ok, w.note (.authLogin (cString pw) (ascii realm) ok))

def sendUserauthFailure (w : World) (partialSuccess : Bool) : World :=
  let p := putU8 [] msgUserauthFailure
  let p := putCstring p "publickey,password"
  let p := putU8 p (if partialSuccess then 1 else 0)
  sendPacket P w p

def sendUserauthSuccess (w : World) : World :=
  let w := sendPacket P w (putU8 [] msgUserauthSuccess)
  w.modify fun s ↦ { s with authed := true, phase := .run }

def sendUserauthPkOk (w : World) (algStr pkBlob : Bytes) : World :=
  let p := putU8 [] msgUserauthPkOk
  let p := putString p algStr
  let p := putString p pkBlob
  sendPacket P w p

def handleServiceRequest (w : World) (payload : Bytes) : World × Bool :=
  match getString (viewInit payload) with
  | (none, _) => (sendDisconnect P w 2 "bad SERVICE_REQUEST", false)
  | (some name, _) =>
    if name ≠ ascii "ssh-userauth" then
      (sendDisconnect P w 7 "only ssh-userauth supported", false)
    else
      let p := putU8 [] msgServiceAccept
      let p := putString p name
      (sendPacket P w p, true)

/-- A blob of the shape string(`ssh-ed25519`), string of `len` bytes. -/
def ed25519Blob (blob : Bytes) (len : ℕ) : Option Bytes :=
  match getString (viewInit blob) with
  | (none, _) => none
  | (some inAlg, v) =>
    if inAlg ≠ ascii "ssh-ed25519" then none else
    match getString v with
    | (none, _) => none
    | (some body, _) => if body.length ≠ len then none else some body

/-- The bytes a publickey signature covers. -/
def signedData (sessionId userStr svcStr pkBlob : Bytes) : Bytes :=
  let toSign := putString [] sessionId
  let toSign := putU8 toSign msgUserauthRequest
  let toSign := putString toSign userStr
  let toSign := putString toSign svcStr
  let toSign := putCstring toSign "publickey"
  let toSign := putU8 toSign 1
  let toSign := putCstring toSign "ssh-ed25519"
  putString toSign pkBlob

def badUserauthRequest (w : World) : World × Bool :=
  (sendDisconnect P w 2 "bad USERAUTH_REQUEST", false)

/-- The signature of a publickey request whose key is authorized. -/
def userauthSignature (w : World) (v : View) (userStr svcStr pkBlob pub32 : Bytes) :
    World × Bool :=
  match getString v with
  | (none, _) => badUserauthRequest P w
  | (some sigBlob, _) =>
    match ed25519Blob sigBlob 64 with
    | none => (sendUserauthFailure P w false, true)
    | some sig64 =>
      let toSign := signedData w.s.sessionId userStr svcStr pkBlob
      match verifySignature P w pub32 toSign sig64 with
      | (false, w) => (sendUserauthFailure P w false, true)
      | (true, w) => (sendUserauthSuccess P w, true)

def userauthPublickey (w : World) (v : View) (userStr svcStr : Bytes) : World × Bool :=
  let (hasSig, v) := getU8 v
  match getString v with
  | (none, _) => badUserauthRequest P w
  | (some algStr, v) =>
    match getString v with
    | (none, _) => badUserauthRequest P w
    | (some pkBlob, v) =>
      if algStr ≠ ascii "ssh-ed25519" then (sendUserauthFailure P w false, true) else
      match ed25519Blob pkBlob 32 with
      | none => (sendUserauthFailure P w false, true)
      | some pub32 =>
        match authorizedPub P w pub32 with
        | (false, w) => (sendUserauthFailure P w false, true)
        | (true, w) =>
          if hasSig = 0 then (sendUserauthPkOk P w algStr pkBlob, true)
          else userauthSignature P w v userStr svcStr pkBlob pub32

def userauthPassword (w : World) (v : View) : World × Bool :=
  let (hasChange, v) := getU8 v
  if hasChange ≠ 0 then (sendUserauthFailure P w false, true) else
  match getString v with
  | (none, _) => badUserauthRequest P w
  | (some pw, _) =>
    match authLogin w pw "admin" with
    | (true, w) => (sendUserauthSuccess P w, true)
    | (false, w) => (sendUserauthFailure P w false, true)

def handleUserauthRequest (w : World) (payload : Bytes) : World × Bool :=
  match getString (viewInit payload) with
  | (none, _) => badUserauthRequest P w
  | (some userStr, v) =>
    match getString v with
    | (none, _) => badUserauthRequest P w
    | (some svcStr, v) =>
      match getString v with
      | (none, _) => badUserauthRequest P w
      | (some methodStr, v) =>
        let w := w.modify fun s ↦ { s with user := userStr }
        if methodStr = ascii "publickey" then userauthPublickey P w v userStr svcStr
        else if methodStr = ascii "password" then userauthPassword P w v
        else (sendUserauthFailure P w false, true)

end Sshd.Server
