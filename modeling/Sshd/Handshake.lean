import Sshd.KeyDerivation

namespace Sshd

open Lib Lib.Octets Wire Crypto

variable (P : Primitives)

/-- What the two sides of a key exchange say to each other, and `K` as it is
encoded for the hash. -/
structure Handshake where
  clientVersion : Bytes
  serverVersion : Bytes
  clientKexinit : Bytes
  serverKexinit : Bytes
  kS : Bytes
  qC : Bytes
  qS : Bytes
  k : Bytes
  deriving DecidableEq

/-- The exchange hash `H`. -/
def Handshake.hash (x : Handshake) : Bytes :=
  sha256 P (lenPrefixed x.clientVersion ++ lenPrefixed x.serverVersion ++
    lenPrefixed x.clientKexinit ++ lenPrefixed x.serverKexinit ++ lenPrefixed x.kS ++
    lenPrefixed x.qC ++ lenPrefixed x.qS ++ x.k)

/-- 64 bytes of key material, `K1 || K2`. -/
def sessionKey (k h : Bytes) (letter : UInt8) (sessionId : Bytes) : Bytes :=
  let k1 := sha256 P (k ++ h ++ [letter] ++ sessionId)
  let k2 := sha256 P (k ++ h ++ k1)
  k1 ++ k2

/-- The key of the letter `'C'` or `'D'` in a first exchange. -/
def Handshake.key (x : Handshake) (letter : UInt8) : Bytes :=
  sessionKey P x.k (x.hash P) letter (x.hash P)

/-- `K` for the owner of the scalar `priv`, who says `own` and hears `peer`. -/
def Shared (priv own peer k : Bytes) : Prop :=
  x25519Base P priv = some own ∧ ∃ s, x25519Scalar P priv peer = some s ∧ k = mpintOctets s

/-- `K` for the server of a hybrid exchange, who encapsulates to the first part
of `qC` and joins both secrets. -/
def SharedHybrid (qC qS k : Bytes) : Prop :=
  ∃ coins ct mlSs priv pub xSs,
    mlkem768Encap P (qC.take mlkem768PkBytes) coins = some (ct, mlSs) ∧
      x25519Base P priv = some pub ∧
      x25519Scalar P priv (qC.drop mlkem768PkBytes) = some xSs ∧ qS = ct ++ pub ∧
      k = lenPrefixed (sha256 P (mlSs ++ xSs))

/-- Key material of two blocks. -/
theorem keyMaterial_blocks (k h : Bytes) (letter : UInt8) (sessionId : Bytes) :
    (List.range 64).map (keyMaterial P k h letter sessionId) = sessionKey P k h letter sessionId := by
  have hb : Keystream.blocks (sha256 P) (k ++ h) (letter :: sessionId) 2 =
      (List.range 64).map (keyMaterial P k h letter sessionId) :=
    Keystream.blocks_eq_map (sha256_length P) (by omega) 2
  rw [← hb]
  simp [Keystream.blocks, sessionKey]

theorem server_sessionKey (s : Server.Session) (letter : UInt8) :
    Server.deriveKey P s letter 64 =
      sessionKey P (Server.hashUpdateK [] s) s.sessionId letter s.sessionId := by
  rw [server_deriveKey, keyMaterial_blocks]

theorem client_sessionKey (cs : Client.Csess) (letter : UInt8) :
    Client.deriveKey P cs letter 64 =
      sessionKey P (mpintOctets cs.sharedK) cs.sessionId letter cs.sessionId := by
  rw [client_deriveKey, keyMaterial_blocks]

end Sshd
