import Sshd.Server.Transport

namespace Sshd.Server

open Lib.Octets Wire Crypto

variable (P : Primitives)

/-! The exchange hash and the keys derived from it. A running `Sha256` is the
bytes it has been given. -/

def buildHostKeyBlob (pub : Bytes) : Bytes :=
  let b := putCstring [] "ssh-ed25519"
  putString b pub

def hashUpdateK (h : Bytes) (s : Session) : Bytes :=
  if s.kexAlg = .mlkem768X25519 then h ++ [0, 0, 0, 32] ++ s.sharedK
  else h ++ mpintOctets s.sharedK

/-- The bytes `compute_exchange_hash` feeds to SHA-256. -/
def exchangeTranscript (s : Session) (kBlob : Bytes) : Bytes :=
  let h := putString [] s.peerVersion
  let h := putString h s.ourVersion
  let h := putString h s.peerKexInit
  let h := putString h s.ourKexInit
  let h := putString h kBlob
  let h :=
    if s.kexAlg = .mlkem768X25519 then putString (putString h s.peerKexBlob) s.ourKexBlob
    else putString (putString h s.peerEphPub) s.ephPub
  hashUpdateK h s

def computeExchangeHash (s : Session) (kBlob : Bytes) : Bytes :=
  sha256 P (exchangeTranscript s kBlob)

/-- The loop of `derive_key`; `out` holds the bytes produced so far. -/
def deriveKeyLoop (s : Session) (letter : UInt8) (outLen : ℕ) : ℕ → Bool → Bytes → Bytes
  | 0, _, out => out
  | fuel + 1, first, out =>
    if out.length < outLen then
      let h := hashUpdateK [] s ++ s.sessionId
      let h := if first then h ++ [letter] ++ s.sessionId else h ++ out
      let prev := sha256 P h
      let take := if 32 < outLen - out.length then 32 else outLen - out.length
      deriveKeyLoop s letter outLen fuel false (out ++ prev.take take)
    else out

def deriveKey (s : Session) (letter : UInt8) (outLen : ℕ) : Bytes :=
  deriveKeyLoop P s letter outLen outLen true []

/-- `'C'` client to server, `'D'` server to client. -/
def deriveSessionKeys (w : World) : World :=
  let w := w.note (.deriveKeys w.s.sessionId)
  let w := w.modify fun s ↦ { s with c2sKey := deriveKey P s 67 64 }
  w.modify fun s ↦ { s with s2cKey := deriveKey P s 68 64 }

/-! Proposals. -/

def ourKexNames : String := "mlkem768x25519-sha256,curve25519-sha256,curve25519-sha256@libssh.org"

def kexinitPayload (cookie : Bytes) : Bytes :=
  let out := putU8 [] msgKexinit
  let out := out ++ cookie
  let out := putNamelist out ourKexNames
  let out := putNamelist out "ssh-ed25519"
  let out := putNamelist out "chacha20-poly1305@openssh.com"
  let out := putNamelist out "chacha20-poly1305@openssh.com"
  let out := putNamelist out ""
  let out := putNamelist out ""
  let out := putNamelist out "none"
  let out := putNamelist out "none"
  let out := putNamelist out ""
  let out := putNamelist out ""
  let out := putU8 out 0
  putU32 out 0

def buildKexinitPayload (w : World) : Bytes × World :=
  let (cookie, w) := randomBytes w 16
  (kexinitPayload cookie, w)

def nameInCsv (needle : String) (csv : Bytes) : Bool :=
  nameInCsvFrom (ascii needle) csv.length csv

def selectKexAlg (peerKexInitPayload : Bytes) : Option KexAlg :=
  if peerKexInitPayload.length < 17 + 4 then none else
  match getString (viewInit (peerKexInitPayload.drop 17)) with
  | (none, _) => none
  | (some list, _) =>
    if nameInCsv "mlkem768x25519-sha256" list then some .mlkem768X25519
    else if nameInCsv "curve25519-sha256" list || nameInCsv "curve25519-sha256@libssh.org" list then
      some .curve25519Sha256
    else none

/-! Version exchange. -/

def sendOurVersion (w : World) : World :=
  let w := w.modify fun s ↦ { s with ourVersion := ourVersionStr }
  sendRawTcp w (w.s.ourVersion ++ ascii "\r\n")

def sendOurKexinit (w : World) : World :=
  let (payload, w) := buildKexinitPayload w
  let w := w.modify fun s ↦ { s with ourKexInit := payload }
  sendPacket P w w.s.ourKexInit

def consumeVersion (w : World) : World × Bool :=
  match takeLine w.s.rxBuf with
  | none =>
    if 1024 < w.s.rxBuf.length then (sendDisconnect P w 2 "preamble too long", false)
    else (w, false)
  | some (line, rest) =>
    let w := w.modify fun s ↦ { s with peerVersion := line, rxBuf := rest }
    if w.s.peerVersion.take 4 ≠ ascii "SSH-" then
      (sendDisconnect P w 2 "not an SSH client", false)
    else if w.s.peerVersion.take 8 ≠ ascii "SSH-2.0-" then
      (sendDisconnect P w 2 "SSH protocol version must be 2.0", false)
    else
      let w := sendOurKexinit P w
      (w.modify fun s ↦ { s with phase := .kexWaitKexinit }, true)

/-! The exchange. -/

/-- Seed and public key of the host. -/
def loadHostKey (w : World) : Option (Bytes × Bytes) :=
  let seedB64 := w.env.hostSeed w.obs
  if seedB64 = [] then none else
  match P.base64Decode 32 seedB64 with
  | none => none
  | some seed =>
    if seed.length ≠ 32 then none
    else (ed25519PubFromSeed P seed).map fun hostPub ↦ (seed, hostPub)

def kexComputeClassical (w : World) : World × Bool :=
  let (priv, w) := randomBytes w 32
  let w := w.modify fun s ↦ { s with ephPriv := priv }
  match x25519Base P w.s.ephPriv with
  | none => (w, false)
  | some pub =>
    let w := w.modify fun s ↦ { s with ephPub := pub }
    match x25519Scalar P w.s.ephPriv w.s.peerEphPub with
    | none => (w, false)
    | some k => (w.modify fun s ↦ { s with sharedK := k }, true)

def kexComputePq (w : World) : World × Bool :=
  if w.s.peerKexBlob.length ≠ mlkem768PkBytes + 32 then (w, false) else
  let kemPk := w.s.peerKexBlob.take mlkem768PkBytes
  let peerX := w.s.peerKexBlob.drop mlkem768PkBytes
  let (coins, w) := randomBytes w 32
  match mlkem768Encap P kemPk coins with
  | none => (w, false)
  | some (ct, mlSs) =>
    let (priv, w) := randomBytes w 32
    let w := w.modify fun s ↦ { s with ephPriv := priv }
    match x25519Base P w.s.ephPriv with
    | none => (w, false)
    | some pub =>
      let w := w.modify fun s ↦ { s with ephPub := pub }
      match x25519Scalar P w.s.ephPriv peerX with
      | none => (w, false)
      | some xSs =>
        let w := w.modify fun s ↦ { s with sharedK := sha256 P (mlSs ++ xSs) }
        (w.modify fun s ↦ { s with ourKexBlob := ct ++ s.ephPub }, true)

def kexCompute (w : World) : World × Bool :=
  if w.s.kexAlg = .mlkem768X25519 then kexComputePq P w else kexComputeClassical P w

/-- The reply packet: host key blob, `Q_S`, signature blob. -/
def kexEcdhReplyPayload (s : Session) (kBlob sig : Bytes) : Bytes :=
  let sigBlob := putCstring [] "ssh-ed25519"
  let sigBlob := putString sigBlob sig
  let p := putU8 [] msgKexEcdhReply
  let p := putString p kBlob
  let p := if s.kexAlg = .mlkem768X25519 then putString p s.ourKexBlob else putString p s.ephPub
  putString p sigBlob

def sendKexEcdhReply (w : World) : World × Bool :=
  match loadHostKey P w with
  | none => (w, false)
  | some (seed, hostPub) =>
    let kBlob := buildHostKeyBlob hostPub
    match kexCompute P w with
    | (w, false) => (w, false)
    | (w, true) =>
      let h := computeExchangeHash P w.s kBlob
      let w := w.note (.exchangeHash h)
      let w :=
        if w.s.haveSessionId then w
        else w.modify fun s ↦ { s with sessionId := h, haveSessionId := true }
      match ed25519Sign P seed h with
      | none => (w, false)
      | some sig => (sendPacket P w (kexEcdhReplyPayload w.s kBlob sig), true)

def handleKexinit (w : World) (payload : Bytes) : World :=
  let w := w.modify fun s ↦ { s with peerKexInit := payload }
  match selectKexAlg payload with
  | none => sendDisconnect P w 3 "no common KEX algorithm"
  | some alg => w.modify fun s ↦ { s with kexAlg := alg, phase := .kexWaitEcdh }

/-- `Q_C` as the chosen algorithm takes it from the client's blob. -/
def storeClientBlob (w : World) (blob : Bytes) : World ⊕ String :=
  if w.s.kexAlg = .mlkem768X25519 then
    if blob.length ≠ mlkem768PkBytes + 32 then .inr "bad PQ KEX_ECDH_INIT size"
    else .inl (w.modify fun s ↦ { s with peerKexBlob := blob })
  else if blob.length ≠ 32 then .inr "bad KEX_ECDH_INIT size"
  else .inl (w.modify fun s ↦ { s with peerEphPub := blob })

def handleKexEcdhInit (w : World) (payload : Bytes) : World × Bool :=
  match getString (viewInit payload) with
  | (none, _) => (sendDisconnect P w 2 "bad KEX_ECDH_INIT", false)
  | (some blob, _) =>
    match storeClientBlob w blob with
    | .inr msg => (sendDisconnect P w 2 msg, false)
    | .inl w =>
      match sendKexEcdhReply P w with
      | (w, false) => (sendDisconnect P w 2 "KEX failed", false)
      | (w, true) =>
        let w := sendPacket P w (putU8 [] msgNewkeys)
        let w := deriveSessionKeys P w
        let w := w.modify fun s ↦ { s with encOutbound := true }
        (w.modify fun s ↦ { s with phase := .kexWaitNewkeys }, true)

def handleNewkeys (w : World) : World :=
  let w := w.modify fun s ↦ { s with encInbound := true }
  w.modify fun s ↦ { s with phase := .auth }

end Sshd.Server
