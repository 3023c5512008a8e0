import Sshd.Client.Transport

namespace Sshd.Client

open Lib.Octets Wire Crypto

variable (P : Primitives)

/-! The exchange hash and the keys derived from it. A running `Sha256` is the
bytes it has been given. -/

def hashK (h k : Bytes) : Bytes := h ++ mpintOctets k

def hashString (h d : Bytes) : Bytes := putString h d

/-- The bytes `compute_exchange_hash` feeds to SHA-256. -/
def exchangeTranscript (cs : Csess) (kBlob : Bytes) : Bytes :=
  let h := hashString [] cs.ourVersion
  let h := hashString h cs.peerVersion
  let h := hashString h cs.ourKexInit
  let h := hashString h cs.peerKexInit
  let h := hashString h kBlob
  let h := hashString h cs.ephPub
  let h := hashString h cs.peerEphPub
  hashK h cs.sharedK

def computeExchangeHash (cs : Csess) (kBlob : Bytes) : Bytes :=
  sha256 P (exchangeTranscript cs kBlob)

/-- The loop of `derive_key`; `out` holds the bytes produced so far. -/
def deriveKeyLoop (cs : Csess) (letter : UInt8) (outLen : ℕ) : ℕ → Bool → Bytes → Bytes
  | 0, _, out => out
  | fuel + 1, first, out =>
    if out.length < outLen then
      let h := hashK [] cs.sharedK ++ cs.sessionId
      let h := if first then h ++ [letter] ++ cs.sessionId else h ++ out
      let blk := sha256 P h
      let take := if 32 < outLen - out.length then 32 else outLen - out.length
      deriveKeyLoop cs letter outLen fuel false (out ++ blk.take take)
    else out

def deriveKey (cs : Csess) (letter : UInt8) (outLen : ℕ) : Bytes :=
  deriveKeyLoop P cs letter outLen outLen true []

/-! Proposals. -/

def putKexinit (cookie : Bytes) : Bytes :=
  let out := putU8 [] msgKexinit
  let out := out ++ cookie
  let out := putNamelist out "curve25519-sha256,curve25519-sha256@libssh.org"
  let out := putNamelist out "ssh-ed25519"
  let out := putNamelist out "chacha20-poly1305@openssh.com"
  let out := putNamelist out "chacha20-poly1305@openssh.com"
  let out := putNamelist out ""
  let out := putNamelist out ""
  let out := putNamelist out "none"
  let out := putNamelist out "none"
  let out := putNamelist out ""
  let out := putNamelist out ""
  let out := putU8 out 0
  putU32 out 0

def nameInCsv (needle : String) (csv : Bytes) : Bool :=
  nameInCsvFrom (ascii needle) csv.length csv

/-- The first four name-lists of a KEXINIT. -/
def kexinitLists (payload : Bytes) : Option (Bytes × Bytes × Bytes × Bytes) :=
  match getString (viewInit (payload.drop 17)) with
  | (none, _) => none
  | (some kex, v) =>
    match getString v with
    | (none, _) => none
    | (some hk, v) =>
      match getString v with
      | (none, _) => none
      | (some encCs, v) =>
        match getString v with
        | (none, _) => none
        | (some encSc, _) => some (kex, hk, encCs, encSc)

/-- The verdict, and what was written to `errOut` if anything was. -/
def checkKexinit (payload : Bytes) : Bool × Option String :=
  if payload.length < 17 + 4 then (false, none) else
  match kexinitLists payload with
  | none => (false, none)
  | some (kex, hk, encCs, encSc) =>
    if !nameInCsv "curve25519-sha256" kex && !nameInCsv "curve25519-sha256@libssh.org" kex then
      (false, some "server offers no curve25519-sha256 KEX")
    else if !nameInCsv "ssh-ed25519" hk then (false, some "server has no ssh-ed25519 host key")
    else if !nameInCsv "chacha20-poly1305@openssh.com" encCs ||
        !nameInCsv "chacha20-poly1305@openssh.com" encSc then
      (false, some "server lacks chacha20-poly1305 cipher")
    else (true, none)

def hostkeyFingerprint (kBlob : Bytes) : Bytes :=
  ascii "SHA256:" ++ base64Nopad P 73 (sha256 P kBlob)

/-! The exchange, cut at each `recv_packet`. -/

/-- `do_kex` up to the server's KEXINIT. -/
def startKex (w : World) : World :=
  let (cookie, w) := randomBytes w 16
  let w := w.modify fun cs ↦ { cs with ourKexInit := putKexinit cookie }
  let w := sendPacket P w w.cs.ourKexInit
  w.goto .kexinit

def sendEcdhInit (w : World) : World :=
  let (priv, w) := randomBytes w 32
  let w := w.modify fun cs ↦ { cs with ephPriv := priv }
  match x25519Base P w.cs.ephPriv with
  | none => giveUp w (ascii "x25519 base failed")
  | some pub =>
    let w := w.modify fun cs ↦ { cs with ephPub := pub }
    let w := sendPacket P w (putString (putU8 [] msgKexEcdhInit) w.cs.ephPub)
    w.goto .kexEcdhReply

def onKexinit (w : World) (t : ℤ) (pkt : Bytes) : World :=
  if t < 0 then giveUp w (ascii "no KEXINIT from server")
  else if t ≠ msgKexinit.toNat then giveUp w (ascii "expected KEXINIT")
  else
    let w := w.modify fun cs ↦ { cs with peerKexInit := pkt }
    match checkKexinit pkt with
    | (false, e) => giveUp w ((e.map ascii).getD w.env.junk)
    | (true, _) => sendEcdhInit P w

/-- `string("ssh-ed25519") || string(data)`: the data, where it has the size
expected. -/
def ed25519Blob (blob : Bytes) (size : ℕ) (notEd25519 bad : String) : Except String Bytes :=
  match getString (viewInit blob) with
  | (none, _) => .error notEd25519
  | (some alg, v) =>
    if alg ≠ ascii "ssh-ed25519" then .error notEd25519 else
    match getString v with
    | (none, _) => .error bad
    | (some data, _) => if data.length ≠ size then .error bad else .ok data

/-- The reply: `K_S`, `Q_S`, and the signature blob. -/
def kexEcdhReply (pkt : Bytes) : Except String (Bytes × Bytes × Bytes) :=
  match getString (viewInit (pkt.drop 1)) with
  | (none, _) => .error "bad REPLY (K_S)"
  | (some ks, v) =>
    match getString v with
    | (none, _) => .error "bad REPLY (Q_S)"
    | (some qs, v) =>
      if qs.length ≠ 32 then .error "bad REPLY (Q_S)" else
      match getString v with
      | (none, _) => .error "bad REPLY (sig)"
      | (some sig, _) => .ok (ks, qs, sig)

/-- `do_kex` from the key derivation to the server's NEWKEYS. -/
def switchKeys (w : World) : World :=
  let w := sendPacket P w (putU8 [] msgNewkeys)
  let w := w.modify fun cs ↦ { cs with sendKey := deriveKey P cs 67 64 }
  let w := w.modify fun cs ↦ { cs with recvKey := deriveKey P cs 68 64 }
  let w := w.modify fun cs ↦ { cs with encOut := true }
  w.goto .newkeys

/-- The known hosts have their say. -/
def checkKnownHosts (w : World) (kBlob : Bytes) : World :=
  let fp := hostkeyFingerprint P kBlob
  let (ok, note, store) := knownHostsCheck w.knownHosts w.job.host fp
  let w := { w with knownHosts := store }.note (.knownHosts w.job.host fp ok)
  if ok then switchKeys P w else giveUp w note

/-- Exchange hash and host signature, once `K_S`, the host key and the
signature are read. -/
def verifyHost (w : World) (kBlob hpub sig64 : Bytes) : World :=
  match x25519Scalar P w.cs.ephPriv w.cs.peerEphPub with
  | none => giveUp w (ascii "x25519 scalar failed")
  | some k =>
    let w := w.modify fun cs ↦ { cs with sharedK := k }
    let h := computeExchangeHash P w.cs kBlob
    let w := w.modify fun cs ↦ { cs with sessionId := h }
    let ok := ed25519Verify P hpub h sig64
    let w := w.note (.verify hpub h sig64 ok)
    if ok then checkKnownHosts P w kBlob else giveUp w (ascii "HOST SIGNATURE VERIFY FAILED")

def onKexEcdhReply (w : World) (t : ℤ) (pkt : Bytes) : World :=
  if t < 0 then giveUp w (ascii "no KEX_ECDH_REPLY")
  else if t ≠ msgKexEcdhReply.toNat then giveUp w (ascii "expected KEX_ECDH_REPLY")
  else
    match kexEcdhReply pkt with
    | .error msg => giveUp w (ascii msg)
    | .ok (ks, qs, sig) =>
      let w := w.modify fun cs ↦ { cs with peerEphPub := qs }
      match ed25519Blob ks 32 "host key not ssh-ed25519" "bad host pubkey" with
      | .error msg => giveUp w (ascii msg)
      | .ok hpub =>
        match ed25519Blob sig 64 "host sig not ssh-ed25519" "bad host signature" with
        | .error msg => giveUp w (ascii msg)
        | .ok sig64 => verifyHost P w ks hpub sig64

end Sshd.Client
