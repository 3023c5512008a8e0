import Sshd.Handshake
import Sshd.Synchrony
import Sshd.Server.Reading

namespace Sshd.Server

open Lib.Octets Lib.Trace Wire Crypto Framing

variable (P : Primitives)

/-- The exchange that a session hashes. -/
def Session.handshake (s : Session) (kBlob : Bytes) : Handshake :=
  ⟨s.peerVersion, s.ourVersion, s.peerKexInit, s.ourKexInit, kBlob, clientShare s, serverShare s,
    hashUpdateK [] s⟩

/-- The shares and `K` of either method, for the server's secrets. -/
def Agreed : KexAlg → Handshake → Prop
  | .curve25519Sha256, x =>
    x.qC.length = 32 ∧ x.qS.length = 32 ∧ ∃ priv, Shared P priv x.qS x.qC x.k
  | .mlkem768X25519, x =>
    x.qC.length = mlkem768PkBytes + 32 ∧ x.qS.length = mlkem768CtBytes + 32 ∧
      SharedHybrid P x.qC x.qS x.k

/-- The reply that gives `K_S`, `Q_S` and the host's signature over the exchange hash. -/
def Reply (x : Handshake) (payload : Bytes) : Prop :=
  ∃ seed hostPub sig, ed25519PubFromSeed P seed = some hostPub ∧ x.kS = buildHostKeyBlob hostPub ∧
    ed25519Sign P seed (x.hash P) = some sig ∧
    payload = msgKexEcdhReply :: (lenPrefixed x.kS ++ lenPrefixed x.qS ++
      lenPrefixed (lenPrefixed (ascii "ssh-ed25519") ++ lenPrefixed sig))

/-- `w'` has answered the client's share, and goes on under new keys. -/
structure Exchanged (w : World) (x : Handshake) (w' : World) : Prop extends Deaf w w' where
  sent : ∃ f g, frames w'.obs = frames w.obs ++ [f, g] ∧ Reply P x f.payload ∧
    g.payload = [msgNewkeys] ∧ (f.enc, f.key) = (w.s.encOutbound, w.s.s2cKey) ∧
    (g.enc, g.key) = (w.s.encOutbound, w.s.s2cKey)
  keys : w'.s.keys = ⟨x.hash P, true, x.key P 67, x.key P 68⟩
  said : (w'.s.peerVersion, w'.s.ourVersion, w'.s.ourKexInit) =
    (w.s.peerVersion, w.s.ourVersion, w.s.ourKexInit)
  tcp : w'.s.tcp = w.s.tcp
  phase : w'.s.phase = .kexWaitNewkeys
  modes : (w'.s.encInbound, w'.s.encOutbound) = (w.s.encInbound, true)

/-- The session that has sent its half of a first exchange. -/
def answered (w : World) (x : Handshake) (sig : Bytes) : World :=
  let w := adoptHash w (x.hash P)
  switchOutbound P (sendPacket P (sendPacket P w (kexEcdhReplyPayload w.s x.kS sig)) [msgNewkeys])

section
variable {P}

theorem computeExchangeHash_eq (s : Session) (kBlob : Bytes) :
    computeExchangeHash P s kBlob = (s.handshake kBlob).hash P := by
  rw [computeExchangeHash, exchangeTranscript_eq]
  simp only [Session.handshake, Handshake.hash, List.append_assoc]

theorem kexComputeClassical_true {w w' : World} (h : kexComputeClassical P w = (w', true)) :
    (∃ priv, Shared P priv w'.s.ephPub w.s.peerEphPub (mpintOctets w'.s.sharedK)) ∧
      w'.s.peerEphPub = w.s.peerEphPub ∧ w'.s.kexAlg = w.s.kexAlg := by
  unfold kexComputeClassical at h
  simp only at h
  split at h
  · cases h
  rename_i pub hbase
  split at h
  · cases h
  rename_i k hscalar
  cases h
  exact ⟨⟨_, hbase, k, hscalar, rfl⟩, rfl, rfl⟩

theorem kexComputePq_true {w w' : World} (h : kexComputePq P w = (w', true)) :
    SharedHybrid P w.s.peerKexBlob w'.s.ourKexBlob (lenPrefixed w'.s.sharedK) ∧
      w'.s.peerKexBlob = w.s.peerKexBlob ∧ w'.s.kexAlg = w.s.kexAlg := by
  unfold kexComputePq at h
  simp only at h
  split at h
  · cases h
  split at h
  · cases h
  rename_i ct mlSs henc
  split at h
  · cases h
  rename_i pub hbase
  split at h
  · cases h
  rename_i xSs hscalar
  cases h
  exact ⟨⟨_, ct, mlSs, _, pub, xSs, henc, hbase, hscalar, rfl, rfl⟩, rfl, rfl⟩

/-- `K` is what the two shares and the server's secrets make it. -/
theorem kexCompute_agreed {w w₁ w₂ : World} {blob : Bytes}
    (hstore : storeClientBlob w blob = .inl w₁) (hkex : kexCompute P w₁ = (w₂, true))
    (kBlob : Bytes) :
    (w₂.s.handshake kBlob).qC = blob ∧ Agreed P w.s.kexAlg (w₂.s.handshake kBlob) := by
  have hsized := kexCompute_sized hstore hkex
  have hc : (w₂.s.handshake kBlob).qC.length = _ := hsized.client
  have hs : (w₂.s.handshake kBlob).qS.length = _ := hsized.server
  cases halg : w.s.kexAlg with
  | mlkem768X25519 =>
    have hw₁ : w₁ = w.modify fun s ↦ { s with peerKexBlob := blob } := by
      unfold storeClientBlob at hstore
      rw [if_pos halg] at hstore
      split at hstore
      · cases hstore
      · exact (Sum.inl.inj hstore).symm
    have halg₁ : w₁.s.kexAlg = .mlkem768X25519 := by
      rw [hw₁]
      exact halg
    rw [kexCompute, if_pos halg₁] at hkex
    obtain ⟨hk, hblob, halg₂⟩ := kexComputePq_true hkex
    have halg₂ : w₂.s.kexAlg = .mlkem768X25519 := halg₂.trans halg₁
    have hqC : (w₂.s.handshake kBlob).qC = blob := by
      change clientShare w₂.s = blob
      rw [clientShare, if_pos halg₂, hblob, hw₁]
      rfl
    have hqS : (w₂.s.handshake kBlob).qS = w₂.s.ourKexBlob := if_pos halg₂
    have hkey : (w₂.s.handshake kBlob).k = lenPrefixed w₂.s.sharedK := by
      change hashUpdateK [] w₂.s = _
      rw [hashUpdateK, if_pos halg₂, lenPrefixed, hsized.secret]
      rfl
    rw [if_pos halg₂] at hc hs
    refine ⟨hqC, hc, hs, ?_⟩
    rw [hqS, hkey, hqC]
    rwa [hw₁] at hk
  | curve25519Sha256 =>
    have hne : w.s.kexAlg ≠ .mlkem768X25519 := by
      rw [halg]
      decide
    have hw₁ : w₁ = w.modify fun s ↦ { s with peerEphPub := blob } := by
      unfold storeClientBlob at hstore
      rw [if_neg hne] at hstore
      split at hstore
      · cases hstore
      · exact (Sum.inl.inj hstore).symm
    have hne₁ : w₁.s.kexAlg ≠ .mlkem768X25519 := by
      rw [hw₁]
      exact hne
    rw [kexCompute, if_neg hne₁] at hkex
    obtain ⟨⟨priv, hk⟩, hpub, halg₂⟩ := kexComputeClassical_true hkex
    have hne₂ : w₂.s.kexAlg ≠ .mlkem768X25519 := fun he ↦ hne₁ (halg₂.symm.trans he)
    have hqC : (w₂.s.handshake kBlob).qC = blob := by
      change clientShare w₂.s = blob
      rw [clientShare, if_neg hne₂, hpub, hw₁]
      rfl
    have hqS : (w₂.s.handshake kBlob).qS = w₂.s.ephPub := if_neg hne₂
    have hkey : (w₂.s.handshake kBlob).k = mpintOctets w₂.s.sharedK := if_neg hne₂
    rw [if_neg hne₂] at hc hs
    refine ⟨hqC, hc, hs, priv, ?_⟩
    rw [hqS, hkey, hqC]
    rwa [hw₁] at hk

/-- What the exchange is about and the mode of the packets, so far. -/
theorem kexCompute_keeps (w : World) :
    (kexCompute P w).1.s.kex = w.s.kex ∧ (kexCompute P w).1.s.phase = w.s.phase ∧
      (kexCompute P w).1.s.tcp = w.s.tcp ∧ frames (kexCompute P w).1.obs = frames w.obs := by
  refine kexCompute_induct P (R := fun w w' ↦ w'.s.kex = w.s.kex ∧ w'.s.phase = w.s.phase ∧
    w'.s.tcp = w.s.tcp ∧ frames w'.obs = frames w.obs) (fun w ↦ ⟨rfl, rfl, rfl, rfl⟩) ?_ ?_ ?_ w
  · rintro a b c ⟨hk, hp, ht, hf⟩ ⟨hk', hp', ht', hf'⟩
    exact ⟨hk'.trans hk, hp'.trans hp, ht'.trans ht, hf'.trans hf⟩
  · exact fun w n ↦ ⟨rfl, rfl, rfl, (frames_append w.obs _).trans (List.append_nil _)⟩
  · exact fun w priv pub k blob ↦ ⟨rfl, rfl, rfl, rfl⟩

theorem storeClientBlob_keeps {w w₁ : World} {blob : Bytes}
    (h : storeClientBlob w blob = .inl w₁) :
    w₁.s.kex = w.s.kex ∧ w₁.s.phase = w.s.phase ∧ w₁.s.tcp = w.s.tcp ∧ w₁.obs = w.obs := by
  unfold storeClientBlob at h
  split at h
  · split at h
    · cases h
    · cases h
      exact ⟨rfl, rfl, rfl, rfl⟩
  · split at h
    · cases h
    · cases h
      exact ⟨rfl, rfl, rfl, rfl⟩

theorem loadHostKey_pub {w : World} {seed hostPub : Bytes}
    (h : loadHostKey P w = some (seed, hostPub)) : ed25519PubFromSeed P seed = some hostPub := by
  unfold loadHostKey at h
  simp only at h
  split at h
  · cases h
  split at h
  · cases h
  split at h
  · cases h
  · obtain ⟨pub, hpub, he⟩ := Option.map_eq_some_iff.mp h
    cases he
    exact hpub

/-- The keys of a first exchange. -/
theorem switchOutbound_keys {w : World} {x : Handshake} (hid : w.s.sessionId = x.hash P)
    (hhave : w.s.haveSessionId = true) (hk : hashUpdateK [] w.s = x.k) :
    (switchOutbound P w).s.keys = ⟨x.hash P, true, x.key P 67, x.key P 68⟩ := by
  have hkey (s : Session) (letter : UInt8) (hs : s.sessionId = w.s.sessionId)
      (hu : hashUpdateK [] s = hashUpdateK [] w.s) : deriveKey P s letter 64 = x.key P letter := by
    rw [server_sessionKey, hs, hu, hid, hk]
    rfl
  change Keys.mk w.s.sessionId w.s.haveSessionId (deriveKey P w.s 67 64)
    (deriveKey P { w.s with c2sKey := deriveKey P w.s 67 64 } 68 64) = _
  rw [hkey w.s 67 rfl rfl, hkey { w.s with c2sKey := x.key P 67 } 68 rfl rfl, hid, hhave]

theorem kexEcdhReplyPayload_eq (s : Session) (kBlob sig : Bytes) :
    kexEcdhReplyPayload s kBlob sig =
      msgKexEcdhReply :: (lenPrefixed kBlob ++ lenPrefixed (serverShare s) ++
        lenPrefixed (lenPrefixed (ascii "ssh-ed25519") ++ lenPrefixed sig)) := by
  simp only [kexEcdhReplyPayload, putCstring, putString_eq, putU8, serverShare]
  split
  · simp
  · simp

theorem answered_sends {w : World} {x : Handshake} (hx : w.s.handshake x.kS = x)
    (hhave : w.s.haveSessionId = false) (hopen : ¬(w.s.phase = .closed ∨ w.s.tcp < 0))
    (sig : Bytes) :
    (∃ f g, frames (answered P w x sig).obs = frames w.obs ++ [f, g] ∧
        f.payload = msgKexEcdhReply :: (lenPrefixed x.kS ++ lenPrefixed x.qS ++
          lenPrefixed (lenPrefixed (ascii "ssh-ed25519") ++ lenPrefixed sig)) ∧
        g.payload = [msgNewkeys] ∧ (f.enc, f.key) = (w.s.encOutbound, w.s.s2cKey) ∧
        (g.enc, g.key) = (w.s.encOutbound, w.s.s2cKey)) ∧
      (answered P w x sig).s.keys = ⟨x.hash P, true, x.key P 67, x.key P 68⟩ := by
  have hs₃ : (adoptHash w (x.hash P)).s =
      { w.s with sessionId := x.hash P, haveSessionId := true } := by
    rw [adoptHash_s, hhave]
    rfl
  have hqS : serverShare (adoptHash w (x.hash P)).s = x.qS := by
    rw [hs₃]
    exact congrArg Handshake.qS hx
  unfold answered
  simp only
  generalize hw₃ : adoptHash w (x.hash P) = w₃ at hs₃ hqS
  have hobs₃ : frames w₃.obs = frames w.obs := by
    rw [← hw₃, adoptHash_obs, frames_append]
    exact List.append_nil _
  have hopen₃ : ¬(w₃.s.phase = .closed ∨ w₃.s.tcp < 0) := by
    rw [hs₃]
    exact hopen
  have hs₄ := sendPacket_s P w₃ (kexEcdhReplyPayload w₃.s x.kS sig)
  have hf₄ := frames_sendPacket (P := P) hopen₃ (kexEcdhReplyPayload w₃.s x.kS sig)
  generalize sendPacket P w₃ (kexEcdhReplyPayload w₃.s x.kS sig) = w₄ at hs₄ hf₄ ⊢
  have hopen₄ : ¬(w₄.s.phase = .closed ∨ w₄.s.tcp < 0) := by
    rw [hs₄]
    exact hopen₃
  have hs₅ := sendPacket_s P w₄ [msgNewkeys]
  have hf₅ := frames_sendPacket (P := P) hopen₄ [msgNewkeys]
  generalize sendPacket P w₄ [msgNewkeys] = w₅ at hs₅ hf₅ ⊢
  refine ⟨⟨sendFrame w₃ (kexEcdhReplyPayload w₃.s x.kS sig), sendFrame w₄ [msgNewkeys],
    ?_, ?_, rfl, ?_, ?_⟩, switchOutbound_keys ?_ ?_ ?_⟩
  · have hnone : frames (switchOutbound P w₅).obs = frames w₅.obs :=
      (frames_append w₅.obs [.deriveKeys w₅.s.sessionId]).trans (List.append_nil _)
    rw [hnone, hf₅, hf₄, hobs₃, List.append_assoc]
    rfl
  · rw [← hqS]
    exact kexEcdhReplyPayload_eq w₃.s x.kS sig
  · change (w₃.s.encOutbound, w₃.s.s2cKey) = _
    rw [hs₃]
  · change (w₄.s.encOutbound, w₄.s.s2cKey) = _
    rw [hs₄, hs₃]
  · rw [hs₅, hs₄, hs₃]
  · rw [hs₅, hs₄, hs₃]
  · rw [hs₅, hs₄, hs₃]
    exact congrArg Handshake.k hx

theorem answered_s (w : World) (x : Handshake) (sig : Bytes) :
    ((answered P w x sig).s.kex.peerVersion, (answered P w x sig).s.kex.ourVersion,
        (answered P w x sig).s.kex.ourKexInit) =
      (w.s.kex.peerVersion, w.s.kex.ourVersion, w.s.kex.ourKexInit) ∧
    (answered P w x sig).s.tcp = w.s.tcp ∧ (answered P w x sig).s.phase = .kexWaitNewkeys ∧
    ((answered P w x sig).s.encInbound, (answered P w x sig).s.encOutbound) =
      (w.s.encInbound, true) ∧ (answered P w x sig).s.haveSessionId = true := by
  have hs₃ := adoptHash_s w (x.hash P)
  unfold answered
  simp only
  generalize adoptHash w (x.hash P) = w₃ at hs₃
  have hs₄ := sendPacket_s P w₃ (kexEcdhReplyPayload w₃.s x.kS sig)
  generalize sendPacket P w₃ (kexEcdhReplyPayload w₃.s x.kS sig) = w₄ at hs₄ ⊢
  have hs₅ := sendPacket_s P w₄ [msgNewkeys]
  generalize sendPacket P w₄ [msgNewkeys] = w₅ at hs₅ ⊢
  have hk : w₅.s.kex = { w.s.kex with
      sessionId := if w.s.haveSessionId then w.s.sessionId else x.hash P
      haveSessionId := true } := by
    rw [hs₅, hs₄, hs₃]
    rfl
  refine ⟨?_, ?_, rfl, ?_, ?_⟩
  · change (w₅.s.kex.peerVersion, w₅.s.kex.ourVersion, w₅.s.kex.ourKexInit) = _
    rw [hk]
  · change w₅.s.tcp = _
    rw [hs₅, hs₄, hs₃]
  · change (w₅.s.kex.encInbound, true) = _
    rw [hk]
    rfl
  · change w₅.s.kex.haveSessionId = true
    rw [hk]

theorem switchOutbound_eq (P : Primitives) (w : World) :
    ((deriveSessionKeys P w).modify fun s ↦ { s with encOutbound := true }).modify
      (fun s ↦ { s with phase := .kexWaitNewkeys }) = switchOutbound P w := rfl

theorem handleKexEcdhInit_true {w w' : World} {body : Bytes}
    (h : handleKexEcdhInit P w body = (w', true)) :
    ∃ blob w₁ w₂ seed hostPub sig, (getString (viewInit body)).1 = some blob ∧
      storeClientBlob w blob = .inl w₁ ∧ kexCompute P w₁ = (w₂, true) ∧
      loadHostKey P w₁ = some (seed, hostPub) ∧
      ed25519Sign P seed ((w₂.s.handshake (buildHostKeyBlob hostPub)).hash P) = some sig ∧
      w' = answered P w₂ (w₂.s.handshake (buildHostKeyBlob hostPub)) sig := by
  unfold handleKexEcdhInit at h
  split at h
  · cases h
  rename_i blob v hblob
  split at h
  · cases h
  rename_i w₁ hstore
  split at h
  · cases h
  rename_i w₄ hreply
  unfold sendKexEcdhReply at hreply
  split at hreply
  · cases hreply
  rename_i seed hostPub hload
  split at hreply
  · cases hreply
  rename_i w₂ hkex
  simp only at hreply
  split at hreply
  · cases hreply
  rename_i sig hsig
  cases hreply
  cases h
  have hhash := computeExchangeHash_eq (P := P) w₂.s (buildHostKeyBlob hostPub)
  rw [hhash] at hsig
  refine ⟨blob, w₁, w₂, seed, hostPub, sig, by rw [hblob], hstore, hkex, hload, hsig, ?_⟩
  rw [answered, ← hhash]
  generalize computeExchangeHash P w₂.s (buildHostKeyBlob hostPub) = hash
  exact switchOutbound_eq P _

/-- The first exchange that comes off. -/
theorem handleKexEcdhInit_exchanged {w w' : World} {body : Bytes}
    (h : handleKexEcdhInit P w body = (w', true)) (hhave : w.s.haveSessionId = false)
    (hopen : ¬(w.s.phase = .closed ∨ w.s.tcp < 0)) :
    ∃ x : Handshake, Exchanged P w x w' ∧ Agreed P w.s.kexAlg x ∧
      (getString (viewInit body)).1 = some x.qC ∧
      (x.clientVersion, x.serverVersion, x.clientKexinit, x.serverKexinit) =
        (w.s.peerVersion, w.s.ourVersion, w.s.peerKexInit, w.s.ourKexInit) := by
  have hdeaf := Deaf.handleKexEcdhInit P w body
  rw [h] at hdeaf
  obtain ⟨blob, w₁, w₂, seed, hostPub, sig, hblob, hstore, hkex, hload, hsig, rfl⟩ :=
    handleKexEcdhInit_true h
  have hpub := loadHostKey_pub hload
  obtain ⟨hk₁, hp₁, ht₁, ho₁⟩ := storeClientBlob_keeps hstore
  have hkeeps := kexCompute_keeps (P := P) w₁
  rw [hkex] at hkeeps
  obtain ⟨hk₂, hp₂, ht₂, hf₂⟩ := hkeeps
  have hkex₂ : w₂.s.kex = w.s.kex := hk₂.trans hk₁
  have hphase₂ : w₂.s.phase = w.s.phase := hp₂.trans hp₁
  have htcp₂ : w₂.s.tcp = w.s.tcp := ht₂.trans ht₁
  have hframes₂ : frames w₂.obs = frames w.obs := hf₂.trans (congrArg frames ho₁)
  have hhave₂ : w₂.s.haveSessionId = false := (congrArg Kex.haveSessionId hkex₂).trans hhave
  have henc₂ : w₂.s.encOutbound = w.s.encOutbound := congrArg Kex.encOutbound hkex₂
  have hkey₂ : w₂.s.s2cKey = w.s.s2cKey := congrArg Kex.s2cKey hkex₂
  have hopen₂ : ¬(w₂.s.phase = .closed ∨ w₂.s.tcp < 0) := by rwa [hphase₂, htcp₂]
  obtain ⟨hqC, hagreed⟩ := kexCompute_agreed hstore hkex (buildHostKeyBlob hostPub)
  have hsaid : ((w₂.s.handshake (buildHostKeyBlob hostPub)).clientVersion,
      (w₂.s.handshake (buildHostKeyBlob hostPub)).serverVersion,
      (w₂.s.handshake (buildHostKeyBlob hostPub)).clientKexinit,
      (w₂.s.handshake (buildHostKeyBlob hostPub)).serverKexinit) =
        (w.s.peerVersion, w.s.ourVersion, w.s.peerKexInit, w.s.ourKexInit) :=
    congrArg (fun k : Kex ↦ (k.peerVersion, k.ourVersion, k.peerKexInit, k.ourKexInit)) hkex₂
  have hx : w₂.s.handshake (w₂.s.handshake (buildHostKeyBlob hostPub)).kS =
    w₂.s.handshake (buildHostKeyBlob hostPub) := rfl
  have hkS : (w₂.s.handshake (buildHostKeyBlob hostPub)).kS = buildHostKeyBlob hostPub := rfl
  generalize w₂.s.handshake (buildHostKeyBlob hostPub) = x at hqC hagreed hsaid hsig hx hdeaf hkS ⊢
  obtain ⟨⟨f, g, hfg, hfp, hgp, hfm, hgm⟩, hkeys⟩ := answered_sends hx hhave₂ hopen₂ sig
  obtain ⟨hkept, htcp, hphase, hmodes, -⟩ := answered_s (P := P) w₂ x sig
  rw [henc₂, hkey₂] at hfm hgm
  refine ⟨x, ⟨hdeaf, ⟨f, g, hframes₂ ▸ hfg, ⟨seed, hostPub, sig, hpub, hkS, hsig, hfp⟩, hgp, hfm,
    hgm⟩, hkeys, ?_, htcp.trans htcp₂, hphase, ?_⟩, hagreed, hblob.trans (congrArg some hqC.symm),
    hsaid⟩
  · rw [hkex₂] at hkept
    exact hkept
  · rw [hmodes]
    exact congrArg (fun k : Kex ↦ (k.encInbound, true)) hkex₂

end

end Sshd.Server
