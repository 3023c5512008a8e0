import Sshd.Server.Kex
import Sshd.Server.Auth
import Sshd.Server.Effect

namespace Sshd.Server

open Lib.Octets Wire Crypto

/-! What is signed is read back in one way only. -/

/-! A number of a fixed size and its `mpint`. -/

/-- The zeros that are stripped, and what is left. -/
theorem stripZeros_spec {val : Bytes} (h : val ≠ []) :
    (∃ n, val = List.replicate n 0 ++ stripZeros val) ∧
      ∃ c rest, stripZeros val = c :: rest ∧ (c = 0 → rest = []) := by
  induction val using stripZeros.induct with
  | case1 => exact absurd rfl h
  | case2 b => exact ⟨⟨0, rfl⟩, b, [], rfl, fun _ ↦ rfl⟩
  | case3 b rest ih =>
    obtain ⟨⟨n, hn⟩, hrest⟩ := ih (List.cons_ne_nil b rest)
    rw [stripZeros, if_pos rfl]
    refine ⟨⟨n + 1, ?_⟩, hrest⟩
    rw [List.replicate_succ, List.cons_append, ← hn]
  | case4 a b rest ha =>
    rw [stripZeros, if_neg ha]
    exact ⟨⟨0, rfl⟩, a, b :: rest, rfl, fun h0 ↦ absurd h0 ha⟩

/-- The bytes of an `mpint` behind its length. -/
def mpintBody (val : Bytes) : Bytes :=
  let k := stripZeros val
  (if decide (k ≠ []) && decide ((k.getD 0 0) &&& 0x80 ≠ 0) then [0] else []) ++ k

theorem mpintOctets_eq (val : Bytes) : mpintOctets val = lenPrefixed (mpintBody val) := by
  simp only [mpintOctets, lenPrefixed, mpintBody, List.length_append]
  split
  · rw [List.length_singleton, Nat.add_comm, List.append_assoc]
  · rw [List.length_nil, Nat.add_comm, List.append_assoc]

theorem mpintBody_length (val : Bytes) : (mpintBody val).length ≤ val.length + 1 := by
  have hstrip : (stripZeros val).length ≤ val.length := by
    by_cases hv : val = []
    · rw [hv]
      exact Nat.le_refl 0
    · obtain ⟨⟨n, hn⟩, -⟩ := stripZeros_spec hv
      have hlen := congrArg List.length hn
      rw [List.length_append] at hlen
      omega
  rw [mpintBody, List.length_append]
  split
  · rw [List.length_singleton]
    omega
  · rw [List.length_nil]
    omega

/-- A padded number begins with a zero that no stripped number of its length has. -/
theorem mpintBody_injective {a b : Bytes} (ha : a ≠ []) (hb : b ≠ []) (hlen : a.length = b.length)
    (h : mpintBody a = mpintBody b) : a = b := by
  obtain ⟨⟨m, hm⟩, c, x, hx, hcx⟩ := stripZeros_spec ha
  obtain ⟨⟨n, hn⟩, d, y, hy, hdy⟩ := stripZeros_spec hb
  have hkey : c :: x = d :: y := by
    simp only [mpintBody, hx, hy] at h
    split at h
    · split at h
      · exact List.append_cancel_left h
      · rw [List.singleton_append, List.nil_append, List.cons.injEq] at h
        rw [hdy h.1.symm] at h
        exact absurd h.2 (List.cons_ne_nil c x)
    · split at h
      · rw [List.singleton_append, List.nil_append, List.cons.injEq] at h
        rw [hcx h.1] at h
        exact absurd h.2.symm (List.cons_ne_nil d y)
      · exact h
  rw [hx, hkey] at hm
  rw [hy] at hn
  have hmn : m = n := by
    have hla := congrArg List.length hm
    have hlb := congrArg List.length hn
    rw [List.length_append, List.length_replicate] at hla hlb
    omega
  rw [hm, hn, hmn]

/-! The exchange hash. -/

/-- `Q_C` and `Q_S`. -/
def clientShare (s : Session) : Bytes :=
  if s.kexAlg = .mlkem768X25519 then s.peerKexBlob else s.peerEphPub

def serverShare (s : Session) : Bytes :=
  if s.kexAlg = .mlkem768X25519 then s.ourKexBlob else s.ephPub

/-- The sizes of `Q_C`, `Q_S` and `K` after an exchange. -/
structure SharesSized (s : Session) : Prop where
  client : (clientShare s).length =
    if s.kexAlg = .mlkem768X25519 then mlkem768PkBytes + 32 else 32
  server : (serverShare s).length =
    if s.kexAlg = .mlkem768X25519 then mlkem768CtBytes + 32 else 32
  secret : s.sharedK.length = 32

theorem exchangeTranscript_eq (s : Session) (kBlob : Bytes) :
    exchangeTranscript s kBlob =
      lenPrefixed s.peerVersion ++ (lenPrefixed s.ourVersion ++ (lenPrefixed s.peerKexInit ++
        (lenPrefixed s.ourKexInit ++ (lenPrefixed kBlob ++ (lenPrefixed (clientShare s) ++
          (lenPrefixed (serverShare s) ++ hashUpdateK [] s)))))) := by
  simp only [exchangeTranscript, clientShare, serverShare, hashUpdateK, putString_eq]
  split
  · simp only [List.nil_append, List.append_assoc]
  · simp only [List.nil_append, List.append_assoc]

theorem hashUpdateK_injective {s t : Session} (halg : s.kexAlg = t.kexAlg)
    (hs : s.sharedK.length = 32) (ht : t.sharedK.length = 32)
    (h : hashUpdateK [] s = hashUpdateK [] t) : s.sharedK = t.sharedK := by
  simp only [hashUpdateK, ← halg] at h
  split at h
  · exact List.append_cancel_left h
  · rw [List.nil_append, List.nil_append, mpintOctets_eq, mpintOctets_eq,
      ← List.append_nil (lenPrefixed (mpintBody s.sharedK)),
      ← List.append_nil (lenPrefixed (mpintBody t.sharedK))] at h
    have hls := mpintBody_length s.sharedK
    have hlt := mpintBody_length t.sharedK
    obtain ⟨hbody, -⟩ := lenPrefixed_append_inj (by omega) (by omega) h
    apply mpintBody_injective _ _ (hs.trans ht.symm) hbody
    · exact List.length_pos_iff.mp (by omega)
    · exact List.length_pos_iff.mp (by omega)

/-- The algorithm shows in the size of the client's share. -/
theorem SharesSized.alg {s t : Session} (hs : SharesSized s) (ht : SharesSized t)
    (h : clientShare s = clientShare t) : s.kexAlg = t.kexAlg := by
  have hlen := hs.client.symm.trans ((congrArg List.length h).trans ht.client)
  cases hsa : s.kexAlg
  · cases hta : t.kexAlg
    · rfl
    · rw [hsa, hta] at hlen
      cases hlen
  · cases hta : t.kexAlg
    · rw [hsa, hta] at hlen
      cases hlen
    · rfl

theorem SharesSized.lt {s : Session} (hs : SharesSized s) :
    (clientShare s).length < 2 ^ 32 ∧ (serverShare s).length < 2 ^ 32 := by
  rw [hs.client, hs.server, mlkem768PkBytes, mlkem768CtBytes]
  split
  · omega
  · omega

/-- The sizes are those that the handler of KEX_ECDH_INIT and the computation
of the shares see to. -/
theorem kexCompute_sized {P : Primitives} {w w₁ w₂ : World} {blob : Bytes}
    (hstore : storeClientBlob w blob = .inl w₁) (hkex : kexCompute P w₁ = (w₂, true)) :
    SharesSized w₂.s := by
  unfold storeClientBlob at hstore
  split at hstore
  · rename_i halg
    split at hstore
    · cases hstore
    rename_i hlen
    obtain rfl := Sum.inl.inj hstore
    rw [not_not] at hlen
    have halg' : (w.modify fun s ↦ { s with peerKexBlob := blob }).s.kexAlg = .mlkem768X25519 := halg
    rw [kexCompute, if_pos halg'] at hkex
    simp only [kexComputePq] at hkex
    split at hkex
    · cases hkex
    split at hkex
    · cases hkex
    rename_i ct mlSs henc
    split at hkex
    · cases hkex
    rename_i pub hbase
    split at hkex
    · cases hkex
    rename_i xSs hscalar
    simp only [Prod.mk.injEq, and_true] at hkex
    subst hkex
    have hct := (mlkem768Encap_length P henc).1
    have hpub := x25519Base_length P hbase
    constructor
    · simp [clientShare, randomBytes, halg, hlen]
    · simp [serverShare, randomBytes, halg, hct, hpub]
    · exact sha256_length P _
  · rename_i halg
    split at hstore
    · cases hstore
    rename_i hlen
    obtain rfl := Sum.inl.inj hstore
    rw [not_not] at hlen
    have halg' : (w.modify fun s ↦ { s with peerEphPub := blob }).s.kexAlg ≠ .mlkem768X25519 := halg
    rw [kexCompute, if_neg halg'] at hkex
    simp only [kexComputeClassical] at hkex
    split at hkex
    · cases hkex
    rename_i pub hbase
    split at hkex
    · cases hkex
    rename_i k hscalar
    simp only [Prod.mk.injEq, and_true] at hkex
    subst hkex
    have hpub := x25519Base_length P hbase
    have hk := x25519Scalar_length P hscalar
    constructor
    · simp [clientShare, randomBytes, halg, hlen]
    · simp [serverShare, randomBytes, halg, hpub]
    · exact hk

/-- All that the exchange hash is about. -/
def handshake (s : Session) (kBlob : Bytes) :
    KexAlg × Bytes × Bytes × Bytes × Bytes × Bytes × Bytes × Bytes × Bytes :=
  (s.kexAlg, s.peerVersion, s.ourVersion, s.peerKexInit, s.ourKexInit, kBlob, clientShare s,
    serverShare s, s.sharedK)

/-- Strings that a 32-bit length can count. -/
def Countable32 (bs : List Bytes) : Prop := ∀ b ∈ bs, b.length < 2 ^ 32

theorem handshake_injective {s t : Session} {kBlob kBlob' : Bytes} (hs : SharesSized s)
    (ht : SharesSized t)
    (hsb : Countable32 [s.peerVersion, s.ourVersion, s.peerKexInit, s.ourKexInit, kBlob])
    (htb : Countable32 [t.peerVersion, t.ourVersion, t.peerKexInit, t.ourKexInit, kBlob'])
    (h : exchangeTranscript s kBlob = exchangeTranscript t kBlob') :
    handshake s kBlob = handshake t kBlob' := by
  simp only [Countable32, List.forall_mem_cons] at hsb htb
  obtain ⟨hs₁, hs₂, hs₃, hs₄, hs₅, -⟩ := hsb
  obtain ⟨ht₁, ht₂, ht₃, ht₄, ht₅, -⟩ := htb
  rw [exchangeTranscript_eq, exchangeTranscript_eq] at h
  obtain ⟨h₁, h⟩ := lenPrefixed_append_inj hs₁ ht₁ h
  obtain ⟨h₂, h⟩ := lenPrefixed_append_inj hs₂ ht₂ h
  obtain ⟨h₃, h⟩ := lenPrefixed_append_inj hs₃ ht₃ h
  obtain ⟨h₄, h⟩ := lenPrefixed_append_inj hs₄ ht₄ h
  obtain ⟨h₅, h⟩ := lenPrefixed_append_inj hs₅ ht₅ h
  obtain ⟨hclient, h⟩ := lenPrefixed_append_inj hs.lt.1 ht.lt.1 h
  obtain ⟨hserver, h⟩ := lenPrefixed_append_inj hs.lt.2 ht.lt.2 h
  have halg := hs.alg ht hclient
  have hk := hashUpdateK_injective halg hs.secret ht.secret h
  rw [handshake, handshake, halg, h₁, h₂, h₃, h₄, h₅, hclient, hserver, hk]

/-! The publickey request. -/

theorem signedData_injective {id user svc pk id' user' svc' pk' : Bytes}
    (hb : Countable32 [id, user, svc, pk]) (hb' : Countable32 [id', user', svc', pk'])
    (h : signedData id user svc pk = signedData id' user' svc' pk') :
    (id, user, svc, pk) = (id', user', svc', pk') := by
  simp only [Countable32, List.forall_mem_cons] at hb hb'
  obtain ⟨h₁, h₂, h₃, h₄, -⟩ := hb
  obtain ⟨h₁', h₂', h₃', h₄', -⟩ := hb'
  rw [signedData_eq, signedData_eq] at h
  simp only [List.append_assoc, List.singleton_append] at h
  obtain ⟨hid, h⟩ := lenPrefixed_append_inj h₁ h₁' h
  obtain ⟨huser, h⟩ := lenPrefixed_append_inj h₂ h₂' (List.cons.inj h).2
  obtain ⟨hsvc, h⟩ := lenPrefixed_append_inj h₃ h₃' h
  have h := List.append_cancel_left (List.cons.inj (List.append_cancel_left h)).2
  rw [← List.append_nil (lenPrefixed pk), ← List.append_nil (lenPrefixed pk')] at h
  obtain ⟨hpk, -⟩ := lenPrefixed_append_inj h₄ h₄' h
  rw [hid, huser, hsvc, hpk]

/-- Two handshakes, or two publickey requests, never have the same bytes to sign. -/
theorem transcripts_injective :
    (∀ s t kBlob kBlob', SharesSized s → SharesSized t →
      Countable32 [s.peerVersion, s.ourVersion, s.peerKexInit, s.ourKexInit, kBlob] →
      Countable32 [t.peerVersion, t.ourVersion, t.peerKexInit, t.ourKexInit, kBlob'] →
      exchangeTranscript s kBlob = exchangeTranscript t kBlob' →
        handshake s kBlob = handshake t kBlob') ∧
    ∀ id user svc pk id' user' svc' pk',
      Countable32 [id, user, svc, pk] → Countable32 [id', user', svc', pk'] →
      signedData id user svc pk = signedData id' user' svc' pk' →
        (id, user, svc, pk) = (id', user', svc', pk') :=
  ⟨fun _ _ _ _ hs ht hsb htb ↦ handshake_injective hs ht hsb htb,
    fun _ _ _ _ _ _ _ _ hb hb' ↦ signedData_injective hb hb'⟩

/-- A session that has made its exchange. -/
def exchanged (alg : KexAlg) (sharedK : Bytes) : Session :=
  { kexAlg := alg
    peerVersion := ascii "SSH-2.0-OpenSSH_9.9"
    ourVersion := ourVersionStr
    peerKexInit := kexinitPayload (List.replicate 16 1)
    ourKexInit := kexinitPayload (List.replicate 16 2)
    ephPub := List.replicate 32 3
    peerEphPub := List.replicate 32 4
    peerKexBlob := List.replicate (mlkem768PkBytes + 32) 5
    ourKexBlob := List.replicate (mlkem768CtBytes + 32) 6
    sharedK := sharedK }

theorem exchanged_sized (alg : KexAlg) {sharedK : Bytes} (h : sharedK.length = 32) :
    SharesSized (exchanged alg sharedK) := by
  cases alg <;> exact ⟨List.length_replicate .., List.length_replicate .., h⟩

theorem exchanged_countable (alg : KexAlg) (sharedK : Bytes) :
    Countable32 [(exchanged alg sharedK).peerVersion, (exchanged alg sharedK).ourVersion,
      (exchanged alg sharedK).peerKexInit, (exchanged alg sharedK).ourKexInit,
      buildHostKeyBlob (List.replicate 32 7)] := by
  have h : Countable32 [ascii "SSH-2.0-OpenSSH_9.9", ourVersionStr,
      kexinitPayload (List.replicate 16 1), kexinitPayload (List.replicate 16 2),
      buildHostKeyBlob (List.replicate 32 7)] := by
    unfold Countable32
    decide +kernel
  exact h

/-- One secret under both methods, two secrets that differ behind their leading
zero, and two requests that divide the same bytes between user and service. -/
theorem transcripts_distinct :
    let kBlob := buildHostKeyBlob (List.replicate 32 7)
    let k := 0 :: List.replicate 31 200
    let k' := 0 :: List.replicate 31 201
    let pk := buildHostKeyBlob (List.replicate 32 8)
    exchangeTranscript (exchanged .curve25519Sha256 k) kBlob ≠
        exchangeTranscript (exchanged .mlkem768X25519 k) kBlob ∧
      exchangeTranscript (exchanged .curve25519Sha256 k) kBlob ≠
        exchangeTranscript (exchanged .curve25519Sha256 k') kBlob ∧
      signedData (List.replicate 32 9) (ascii "root") (ascii "ssh-connection") pk ≠
        signedData (List.replicate 32 9) (ascii "roots") (ascii "sh-connection") pk := by
  intro kBlob k k' pk
  have hk : k.length = 32 ∧ k'.length = 32 := ⟨rfl, rfl⟩
  refine ⟨fun h ↦ ?_, fun h ↦ ?_, fun h ↦ ?_⟩
  · have hs := transcripts_injective.1 _ _ _ _ (exchanged_sized _ hk.1) (exchanged_sized _ hk.1)
      (exchanged_countable _ k) (exchanged_countable _ k) h
    cases congrArg Prod.fst hs
  · have hs := transcripts_injective.1 _ _ _ _ (exchanged_sized _ hk.1) (exchanged_sized _ hk.2)
      (exchanged_countable _ k) (exchanged_countable _ k') h
    simp only [handshake, Prod.mk.injEq] at hs
    exact absurd hs.2.2.2.2.2.2.2.2 (by decide)
  · have hs := transcripts_injective.2 _ _ _ _ _ _ _ _ (by unfold Countable32; decide)
      (by unfold Countable32; decide) h
    simp only [Prod.mk.injEq] at hs
    exact absurd hs.2.1 (by decide)

end Sshd.Server
