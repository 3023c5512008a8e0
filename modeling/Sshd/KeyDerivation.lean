import Sshd.Lib.Keystream
import Sshd.Client.HostTrust
import Sshd.Server.Transcript

namespace Sshd

open Lib Lib.Octets Wire Crypto

/-! The keys that both sides derive. -/

/-- `K1 || K2 || ...`, where `K1 = HASH(K || H || letter || session_id)` and each
further block is the hash of `K || H` and all the blocks before. `k` is `K` as
it is encoded. -/
def keyMaterial (P : Primitives) (k h : Bytes) (letter : UInt8) (sessionId : Bytes) : ℕ → UInt8 :=
  Keystream.stream (sha256 P) (k ++ h) (letter :: sessionId) 32

variable (P : Primitives)

/-- Both loops fill a buffer with hash blocks. -/
theorem server_deriveKeyLoop_eq (s : Server.Session) (letter : UInt8) (outLen fuel : ℕ)
    (first : Bool) (out : Bytes) :
    Server.deriveKeyLoop P s letter outLen fuel first out =
      Keystream.fill (sha256 P) (Server.hashUpdateK [] s ++ s.sessionId) (letter :: s.sessionId) 32
        outLen fuel first out := by
  induction fuel generalizing first out with
  | zero => rfl
  | succ fuel ih =>
    have htake : (if 32 < outLen - out.length then 32 else outLen - out.length) =
        min 32 (outLen - out.length) := by
      split <;> omega
    rw [Server.deriveKeyLoop, Keystream.fill]
    simp only [htake, ih]
    cases first <;> simp

theorem client_deriveKeyLoop_eq (cs : Client.Csess) (letter : UInt8) (outLen fuel : ℕ)
    (first : Bool) (out : Bytes) :
    Client.deriveKeyLoop P cs letter outLen fuel first out =
      Keystream.fill (sha256 P) (Client.hashK [] cs.sharedK ++ cs.sessionId)
        (letter :: cs.sessionId) 32 outLen fuel first out := by
  induction fuel generalizing first out with
  | zero => rfl
  | succ fuel ih =>
    have htake : (if 32 < outLen - out.length then 32 else outLen - out.length) =
        min 32 (outLen - out.length) := by
      split <;> omega
    rw [Client.deriveKeyLoop, Keystream.fill]
    simp only [htake, ih]
    cases first <;> simp

theorem server_deriveKey (s : Server.Session) (letter : UInt8) (outLen : ℕ) :
    Server.deriveKey P s letter outLen =
      (List.range outLen).map (keyMaterial P (Server.hashUpdateK [] s) s.sessionId letter s.sessionId) := by
  rw [Server.deriveKey, server_deriveKeyLoop_eq, Keystream.fill_eq (sha256_length P) (by omega)]
  rfl

theorem client_deriveKey (cs : Client.Csess) (letter : UInt8) (outLen : ℕ) :
    Client.deriveKey P cs letter outLen =
      (List.range outLen).map (keyMaterial P (mpintOctets cs.sharedK) cs.sessionId letter cs.sessionId) := by
  rw [Client.deriveKey, client_deriveKeyLoop_eq, Keystream.fill_eq (sha256_length P) (by omega)]
  rfl

theorem range_map_take {α : Type} (f : ℕ → α) (m n : ℕ) :
    ((List.range (m + n)).map f).take m = (List.range m).map f := by
  rw [← List.map_take, List.take_range, Nat.min_eq_left (Nat.le_add_right m n)]

/-- A key is the front of the key material, and both sides derive the same. -/
theorem derive_key_stream :
    (∀ (s : Server.Session) (letter : UInt8) (outLen : ℕ),
      Server.deriveKey P s letter outLen =
        (List.range outLen).map
          (keyMaterial P (Server.hashUpdateK [] s) s.sessionId letter s.sessionId)) ∧
    (∀ (cs : Client.Csess) (letter : UInt8) (outLen : ℕ),
      Client.deriveKey P cs letter outLen =
        (List.range outLen).map
          (keyMaterial P (mpintOctets cs.sharedK) cs.sessionId letter cs.sessionId)) ∧
    (∀ (s : Server.Session) (letter : UInt8) (m n : ℕ),
      (Server.deriveKey P s letter (m + n)).take m = Server.deriveKey P s letter m) ∧
    (∀ (cs : Client.Csess) (letter : UInt8) (m n : ℕ),
      (Client.deriveKey P cs letter (m + n)).take m = Client.deriveKey P cs letter m) ∧
    ∀ (s : Server.Session) (cs : Client.Csess) (k h : Bytes) (letter : UInt8) (outLen : ℕ),
      Server.deriveKey P { s with kexAlg := .curve25519Sha256, sharedK := k, sessionId := h }
          letter outLen =
        Client.deriveKey P { cs with sharedK := k, sessionId := h } letter outLen := by
  refine ⟨server_deriveKey P, client_deriveKey P, fun s letter m n ↦ ?_, fun cs letter m n ↦ ?_,
    fun s cs k h letter outLen ↦ ?_⟩
  · rw [server_deriveKey, server_deriveKey, range_map_take]
  · rw [client_deriveKey, client_deriveKey, range_map_take]
  · rw [server_deriveKey, client_deriveKey]
    rfl

end Sshd
