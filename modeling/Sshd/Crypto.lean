import Sshd.Lib.Octets
import Mathlib.Data.Vector.Basic

namespace Sshd.Crypto

open Lib.Octets

/-- The primitives the wrappers call: mbedTLS, the vendored Ed25519 and
ML-KEM-768. A result of fixed size is a vector of that size. -/
structure Primitives where
  sha256 : Bytes → Vector UInt8 32
  /-- Scalar, then the point; no point stands for the base point. -/
  x25519Compute : Bytes → Option Bytes → Option (Vector UInt8 32)
  /-- Public key, then the 32 random bytes drawn inside. -/
  cryptoKemEnc : Bytes → Bytes → Option (Vector UInt8 1088 × Vector UInt8 32)
  orlpCreateKeypair : Bytes → Vector UInt8 32 × Vector UInt8 64
  orlpSign : (msg pub priv : Bytes) → Vector UInt8 64
  orlpVerify : (sig msg pub : Bytes) → Bool
  /-- The keystream of a key, a nonce and a starting block, byte by byte. -/
  chacha20 : (key nonce : Bytes) → (counter : ℕ) → ℕ → UInt8
  poly1305 : (key msg : Bytes) → Vector UInt8 16
  /-- The decoder with the size of its output buffer. -/
  base64Decode : ℕ → Bytes → Option Bytes
  /-- The encoder with the size of its output buffer. -/
  base64Encode : ℕ → Bytes → Option Bytes

variable (P : Primitives)

def sha256 (data : Bytes) : Bytes := (P.sha256 data).toList

def x25519Base (scalar : Bytes) : Option Bytes := (P.x25519Compute scalar none).map (·.toList)

def x25519Scalar (scalar point : Bytes) : Option Bytes :=
  (P.x25519Compute scalar (some point)).map (·.toList)

def mlkem768PkBytes : ℕ := 1184
def mlkem768CtBytes : ℕ := 1088
def mlkem768SsBytes : ℕ := 32

/-- Ciphertext and shared secret. -/
def mlkem768Encap (pk coins : Bytes) : Option (Bytes × Bytes) :=
  (P.cryptoKemEnc pk coins).map fun r ↦ (r.1.toList, r.2.toList)

def ed25519PubFromSeed (seed : Bytes) : Option Bytes := some (P.orlpCreateKeypair seed).1.toList

def ed25519Sign (seed msg : Bytes) : Option Bytes :=
  let pair := P.orlpCreateKeypair seed
  some (P.orlpSign msg pair.1.toList pair.2.toList).toList

def ed25519Verify (pub msg sig : Bytes) : Bool := P.orlpVerify sig msg pub

/-- The loop that strips `=` off the end. -/
def base64Nopad (outLen : ℕ) (data : Bytes) : Bytes :=
  match P.base64Encode outLen data with
  | none => []
  | some out => (out.reverse.dropWhile (· = 61)).reverse

@[simp] theorem sha256_length (data : Bytes) : (sha256 P data).length = 32 := by simp [sha256]

theorem x25519Base_length {scalar pub : Bytes} (h : x25519Base P scalar = some pub) :
    pub.length = 32 := by
  simp only [x25519Base, Option.map_eq_some_iff] at h
  obtain ⟨v, -, rfl⟩ := h
  simp

theorem x25519Scalar_length {scalar point k : Bytes} (h : x25519Scalar P scalar point = some k) :
    k.length = 32 := by
  simp only [x25519Scalar, Option.map_eq_some_iff] at h
  obtain ⟨v, -, rfl⟩ := h
  simp

theorem mlkem768Encap_length {pk coins ct ss : Bytes}
    (h : mlkem768Encap P pk coins = some (ct, ss)) :
    ct.length = mlkem768CtBytes ∧ ss.length = mlkem768SsBytes := by
  simp only [mlkem768Encap, Option.map_eq_some_iff, Prod.mk.injEq] at h
  obtain ⟨v, -, rfl, rfl⟩ := h
  simp [mlkem768CtBytes, mlkem768SsBytes]

theorem ed25519PubFromSeed_length {seed pub : Bytes} (h : ed25519PubFromSeed P seed = some pub) :
    pub.length = 32 := by
  obtain rfl := Option.some.inj h
  simp

theorem ed25519Sign_length {seed msg sig : Bytes} (h : ed25519Sign P seed msg = some sig) :
    sig.length = 64 := by
  obtain rfl := Option.some.inj h
  simp

/-! ChaCha20-Poly1305, the OpenSSH variant. -/

def chacha20Update (key nonce : Bytes) (counter : ℕ) (data : Bytes) : Bytes :=
  data.mapIdx fun i b ↦ b ^^^ P.chacha20 key nonce counter i

@[simp] theorem chacha20Update_length (key nonce : Bytes) (counter : ℕ) (data : Bytes) :
    (chacha20Update P key nonce counter data).length = data.length := by
  simp [chacha20Update]

/-- Encryption and decryption are the same operation. -/
@[simp] theorem chacha20Update_chacha20Update (key nonce : Bytes) (counter : ℕ) (data : Bytes) :
    chacha20Update P key nonce counter (chacha20Update P key nonce counter data) = data := by
  apply List.ext_getElem
  · simp
  · intro i h₁ h₂
    simp only [chacha20Update, List.getElem_mapIdx]
    rw [UInt8.xor_assoc, UInt8.xor_self, UInt8.xor_zero]

/-- The sequence number as eight big-endian bytes behind four zeros. -/
def seqToNonce (seq : ℕ) : Bytes := [0, 0, 0, 0] ++ be64 seq

def cc20p1305Length (k1 : Bytes) (seq : ℕ) (in4 : Bytes) : Bytes :=
  chacha20Update P k1 (seqToNonce seq) 0 in4

@[simp] theorem cc20p1305Length_length (k1 : Bytes) (seq : ℕ) (in4 : Bytes) :
    (cc20p1305Length P k1 seq in4).length = in4.length := by
  simp [cc20p1305Length]

@[simp] theorem cc20p1305Length_involutive (k1 : Bytes) (seq : ℕ) (in4 : Bytes) :
    cc20p1305Length P k1 seq (cc20p1305Length P k1 seq in4) = in4 := by
  simp [cc20p1305Length]

def poly1305Tag (k2 nonce aad ct : Bytes) : Bytes :=
  let pkey := chacha20Update P k2 nonce 0 (List.replicate 32 0)
  (P.poly1305 pkey (aad ++ ct)).toList

@[simp] theorem poly1305Tag_length (k2 nonce aad ct : Bytes) :
    (poly1305Tag P k2 nonce aad ct).length = 16 := by
  simp [poly1305Tag]

/-- Ciphertext and tag. -/
def cc20p1305Seal (k2 : Bytes) (seq : ℕ) (aad plain : Bytes) : Bytes × Bytes :=
  let nonce := seqToNonce seq
  let out := chacha20Update P k2 nonce 1 plain
  (out, poly1305Tag P k2 nonce aad out)

/-- The differences of all bytes, collected with `|`. -/
def ctMemcmp16 (a b : Bytes) : UInt8 := (List.zipWith (· ^^^ ·) a b).foldl (· ||| ·) 0

def cc20p1305Open (k2 : Bytes) (seq : ℕ) (aad ct tag : Bytes) : Option Bytes :=
  let nonce := seqToNonce seq
  let want := poly1305Tag P k2 nonce aad ct
  if ctMemcmp16 want tag ≠ 0 then none
  else some (chacha20Update P k2 nonce 1 ct)

theorem foldl_or_eq_zero (l : Bytes) (d : UInt8) :
    l.foldl (· ||| ·) d = 0 ↔ d = 0 ∧ ∀ x ∈ l, x = 0 := by
  induction l generalizing d with
  | nil => simp
  | cons x l ih => simp [ih, UInt8.or_eq_zero_iff, and_assoc]

/-- The constant-time comparison decides equality. -/
theorem ctMemcmp16_eq_zero {a b : Bytes} (h : a.length = b.length) :
    ctMemcmp16 a b = 0 ↔ a = b := by
  rw [ctMemcmp16, foldl_or_eq_zero]
  simp only [true_and]
  induction a generalizing b with
  | nil => cases b <;> simp_all
  | cons x a ih =>
    cases b with
    | nil => simp at h
    | cons y b =>
      have hab := @ih b (by simpa using h)
      rw [List.zipWith_cons_cons, List.forall_mem_cons, hab, UInt8.xor_eq_zero_iff, List.cons.injEq]

@[simp] theorem cc20p1305Seal_length (k2 : Bytes) (seq : ℕ) (aad plain : Bytes) :
    (cc20p1305Seal P k2 seq aad plain).1.length = plain.length := by
  simp [cc20p1305Seal]

@[simp] theorem cc20p1305Seal_tag_length (k2 : Bytes) (seq : ℕ) (aad plain : Bytes) :
    (cc20p1305Seal P k2 seq aad plain).2.length = 16 := by
  simp [cc20p1305Seal]

theorem cc20p1305Open_seal (k2 : Bytes) (seq : ℕ) (aad plain : Bytes) :
    cc20p1305Open P k2 seq aad (cc20p1305Seal P k2 seq aad plain).1
      (cc20p1305Seal P k2 seq aad plain).2 = some plain := by
  have h := (ctMemcmp16_eq_zero (rfl :
    (cc20p1305Seal P k2 seq aad plain).2.length = _)).mpr rfl
  simp only [cc20p1305Seal] at h
  simp [cc20p1305Open, cc20p1305Seal, h]

end Sshd.Crypto
