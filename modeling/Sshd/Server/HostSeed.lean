import Sshd.Keys.Generated
import Sshd.Server.FirstExchange

namespace Sshd.Server

open Lib Lib.Octets Wire Crypto Framing

variable (P : Primitives)

/-! The host key of a device: its seed is stored as text in
`secrets.sshd.host_seed`. -/

/-- `loadHostSeed`, on the text that is stored. -/
def loadHostSeed (stored : Bytes) : Option Bytes :=
  if stored = [] then none else
  match P.base64Decode 32 stored with
  | none => none
  | some seed => if seed.length ≠ 32 then none else some seed

/-- What is stored once `generateHostSeed` has drawn `seed`. -/
def generateHostSeed (stored seed : Bytes) : Bytes :=
  match Keys.b64Encode P seed 64 with
  | none => stored
  | some b64 => cString b64

/-- The fingerprint, in a buffer of `bufLen` bytes. -/
def sshdHostFingerprint (stored : Bytes) (bufLen : ℕ) : Option Bytes :=
  match loadHostSeed P stored with
  | none => none
  | some seed =>
    match ed25519PubFromSeed P seed with
    | none => none
    | some pub =>
      let blob := [0, 0, 0, 11] ++ ascii "ssh-ed25519" ++ [0, 0, 0, 32] ++ pub
      let fp := sha256 P blob
      if bufLen < 8 + 43 + 1 then none else
      let text := base64Nopad P (bufLen - 7) fp
      if text = [] then none else some (ascii "SHA256:" ++ text)

/-- `sshd-keygen`: what is stored then, and what is printed. -/
def cmdSshdKeygen (stored seed : Bytes) : Bytes × Bytes :=
  match Keys.b64Encode P seed 64 with
  | none => (stored, ascii "sshd-keygen: encode failed\n")
  | some b64 =>
    let stored := cString b64
    match sshdHostFingerprint P stored 64 with
    | some fp => (stored, ascii "new host key: " ++ fp ++ ascii "\n")
    | none => (stored, ascii "new host key generated\n")

/-- The seed and the public key that a stored text stands for. -/
def hostKey (stored : Bytes) : Option (Bytes × Bytes) :=
  (loadHostSeed P stored).bind fun seed ↦
    (ed25519PubFromSeed P seed).map fun hostPub ↦ (seed, hostPub)

/-- The reply shows the host key that was stored at some moment of the session
with this record. -/
def Shown (env : Env) (record : List Obs) (payload : Bytes) : Prop :=
  ∃ obs seed hostPub rest, obs <+: record ∧
    hostKey P (env.hostSeed obs) = some (seed, hostPub) ∧
      payload = msgKexEcdhReply :: (lenPrefixed (buildHostKeyBlob hostPub) ++ rest)

/-- No other host key was shown than that of the device. -/
structure Reveals (dev : Env) (w : World) : Prop where
  env : w.env = dev
  shown : ∀ p ∈ said (frames w.obs), p.head? = some msgKexEcdhReply → Shown P dev w.obs p

section
variable {P} {w w' : World} {dev : Env}

theorem loadHostKey_eq (w : World) : loadHostKey P w = hostKey P (w.env.hostSeed w.obs) := by
  unfold loadHostKey hostKey loadHostSeed
  by_cases hstored : w.env.hostSeed w.obs = []
  · simp [hstored]
  simp only [if_neg hstored]
  cases P.base64Decode 32 (w.env.hostSeed w.obs) with
  | none => rfl
  | some seed =>
    by_cases hlen : seed.length = 32
    · simp [hlen]
    · simp [hlen]

/-! The text of a seed. -/

section
variable {seed : Bytes}

/-- The text is what was encoded, without the NUL behind it. -/
theorem b64Encode_seed (henc : Keys.EncodesBase64 P) (hseed : seed.length = 32) :
    (Keys.b64Encode P seed 64).map cString = some (Base64.encode seed) := by
  have hlen : (Base64.encode seed).length < 64 := by
    rw [Base64.encode_length, hseed]
    decide
  have hnul : ∀ c ∈ Base64.encode seed, decide (c ≠ 0) = true := fun c hc ↦
    decide_eq_true (Keys.isBase64_ne (Keys.encode_isBase64 _ c hc)).2.1
  have hcut : cString (Base64.encode seed ++ [0]) = Base64.encode seed := by
    rw [cString, List.takeWhile_append_of_pos hnul]
    exact List.append_nil _
  rw [Keys.b64Encode, henc 64 seed hlen, Option.map_some, Option.map_some, if_pos hlen, hcut]

theorem loadHostSeed_encode (hdec : Keys.DecodesBase64 P) (hseed : seed.length = 32) :
    loadHostSeed P (Base64.encode seed) = some seed := by
  have hlen : (Base64.encode seed).length = 44 := by rw [Base64.encode_length, hseed]
  have hne : Base64.encode seed ≠ [] := List.ne_nil_of_length_pos (by omega)
  have hback : P.base64Decode 32 (Base64.encode seed) = some seed := by
    rw [hdec 32 _ (Keys.encode_isBase64 seed), Base64.decode_encode hseed.le]
  simp only [loadHostSeed, if_neg hne, hback, hseed, ne_eq, not_true_eq_false, if_false]

/-- A seed that was generated is loaded again. -/
theorem generateHostSeed_loads (henc : Keys.EncodesBase64 P) (hdec : Keys.DecodesBase64 P)
    (hseed : seed.length = 32) (stored : Bytes) :
    loadHostSeed P (generateHostSeed P stored seed) = some seed := by
  obtain ⟨b64, hb, hc⟩ := Option.map_eq_some_iff.mp (b64Encode_seed henc hseed)
  have hstored : generateHostSeed P stored seed = Base64.encode seed := by
    rw [generateHostSeed, hb, ← hc]
  rw [hstored, loadHostSeed_encode hdec hseed]

end

/-! The replies. -/

theorem Shown.later {record record' : List Obs} {payload : Bytes}
    (h : Shown P dev record payload) (hg : record <+: record') : Shown P dev record' payload := by
  obtain ⟨obs, seed, hostPub, rest, hobs, hk, he⟩ := h
  exact ⟨obs, seed, hostPub, rest, hobs.trans hg, hk, he⟩

theorem Reveals.same (h : Reveals P dev w) (he : w'.env = w.env) (hg : w.obs <+: w'.obs)
    (hf : frames w'.obs = frames w.obs) : Reveals P dev w' := by
  refine ⟨he.trans h.env, fun p hm hh ↦ ?_⟩
  rw [hf] at hm
  exact (h.shown p hm hh).later hg

theorem Reveals.grow (h : Reveals P dev w) (he : w'.env = w.env) (hg : w.obs <+: w'.obs)
    {fs : List Frame} (hf : frames w'.obs = frames w.obs ++ fs)
    (hn : ∀ f ∈ fs, f.payload.head? = some msgKexEcdhReply → Shown P dev w'.obs f.payload) :
    Reveals P dev w' := by
  refine ⟨he.trans h.env, fun p hm hh ↦ ?_⟩
  rw [hf, said_append, List.mem_append] at hm
  obtain hm | hm := hm
  · exact (h.shown p hm hh).later hg
  · obtain ⟨f, hf, rfl⟩ := List.mem_map.mp hm
    exact hn f hf hh

theorem Reveals.talks (h : Reveals P dev w) (he : w'.env = w.env) (hg : w.obs <+: w'.obs)
    (ht : Talks w w') : Reveals P dev w' := by
  obtain ⟨fs, hf, -, hall⟩ := ht
  refine h.grow he hg hf fun f hm hh ↦ ?_
  obtain ⟨⟨⟨t, ht, hout⟩, -⟩, -⟩ := hall f hm
  obtain rfl : t = msgKexEcdhReply := Option.some.inj (ht.symm.trans hh)
  exact absurd (by decide) hout

theorem Reveals.chats (h : Reveals P dev w) (hc : Chats w w') : Reveals P dev w' :=
  h.talks hc.env hc.grows hc.talk

theorem Reveals.send (h : Reveals P dev w) (payload : Bytes)
    (hn : payload.head? = some msgKexEcdhReply → Shown P dev w.obs payload) :
    Reveals P dev (sendPacket P w payload) := by
  obtain ⟨fs, hf, hall⟩ := frames_sendPacket_of (P := P) w payload
  have hg := (Deaf.send P w payload).grows
  refine h.grow (sendPacket_env P w payload) hg hf fun f hm hh ↦ ?_
  rw [hall f hm] at hh ⊢
  exact (hn hh).later hg

/-- The reply to the client's share shows the key that is loaded. -/
theorem Reveals.exchange (h : Reveals P dev w) {body : Bytes}
    (he : handleKexEcdhInit P w body = (w', true)) : Reveals P dev w' := by
  obtain ⟨blob, w₁, w₂, seed, hostPub, sig, -, hstore, hkex, hload, -, rfl⟩ :=
    handleKexEcdhInit_true he
  have h₁ := h.chats (Chats.storeClientBlob hstore)
  have hcompute := Chats.kexCompute P w₁
  rw [hkex] at hcompute
  rw [loadHostKey_eq, h₁.env] at hload
  unfold answered
  have hkS : (w₂.s.handshake (buildHostKeyBlob hostPub)).kS = buildHostKeyBlob hostPub := rfl
  generalize w₂.s.handshake (buildHostKeyBlob hostPub) = x at hkS ⊢
  have h₃ : Reveals P dev (adoptHash w₂ (x.hash P)) := by
    refine (h₁.chats hcompute).same (adoptHash_env w₂ _) ?_ ?_
    · rw [adoptHash_obs]
      exact List.prefix_append _ _
    rw [adoptHash_obs, frames_append]
    exact List.append_nil _
  have hreply := h₃.send (kexEcdhReplyPayload (adoptHash w₂ (x.hash P)).s x.kS sig)
    fun _ ↦ ⟨w₁.obs, seed, hostPub, _, hcompute.grows.trans (by simp), hload, by
      rw [kexEcdhReplyPayload_eq, hkS, List.append_assoc]⟩
  have hnewkeys := hreply.send [msgNewkeys] fun hh ↦ absurd hh (by decide)
  exact hnewkeys.same (Deaf.switchOutbound P _).env (Deaf.switchOutbound P _).grows
    ((frames_append _ [_]).trans (List.append_nil _))

theorem Reveals.takes (h : Reveals P dev w) {payload : Bytes} (ht : Takes P w payload w') :
    Reveals P dev w' := by
  cases ht with
  | chat hc _ => exact h.chats hc
  | ended he => exact h.talks he.env he.grows he.talk
  | kexinit => exact h.same rfl List.prefix_rfl rfl
  | exchange _ _ he => exact h.exchange he
  | newkeys => exact h.same rfl List.prefix_rfl rfl

theorem Reveals.round (h : Reveals P dev w)
    (hr : receiveRound P w = .ends w' ∨ receiveRound P w = .goesOn w') : Reveals P dev w' := by
  cases receiveRound_reading hr with
  | atEnd hc _ => exact h.chats hc
  | ended he => exact h.talks he.env he.grows he.talk
  | @hello line rest _ _ =>
    have hhead := buildKexinitPayload_head
      (w.modify fun s ↦ { s with peerVersion := line, rxBuf := rest })
    have hdrawn : Reveals P dev (buildKexinitPayload
        (w.modify fun s ↦ { s with peerVersion := line, rxBuf := rest })).2 :=
      h.same rfl (List.prefix_append _ _) ((frames_append w.obs _).trans (List.append_nil _))
    unfold greeted sendOurKexinit
    generalize buildKexinitPayload
      (w.modify fun s ↦ { s with peerVersion := line, rxBuf := rest }) = r at hhead hdrawn ⊢
    obtain ⟨payload, w₁⟩ := r
    have hset : Reveals P dev (w₁.modify fun s ↦ { s with ourKexInit := payload }) :=
      hdrawn.same rfl List.prefix_rfl rfl
    have hsent := hset.send payload
      fun hh ↦ absurd (Option.some.inj (hhead.symm.trans hh)) (by decide)
    exact hsent.same rfl List.prefix_rfl rfl
  | garbled _ _ =>
    have hsent := h.send (disconnect 2 "framing error") fun hh ↦ absurd hh (by decide)
    exact hsent.same rfl (List.prefix_append _ _)
      ((frames_append _ [_]).trans (List.append_nil _))
  | @packet w₁ _ payload _ hw ht =>
    obtain ⟨packet, rest, -, -, -, he⟩ := parsePacket_unpacked hw
    rw [he] at ht
    have hread : Reveals P dev (unpacked w packet payload rest) :=
      h.same rfl ⟨_, (List.append_assoc ..).symm⟩ (frames_unpacked w packet payload rest)
    exact hread.takes ht

theorem Reveals.step (h : Reveals P dev w) (i : ℤ) (e : Event) : Reveals P dev (step P i w e) := by
  by_cases he : ∃ data, e = .tcpArrive data
  · obtain ⟨data, rfl⟩ := he
    exact h.same rfl List.prefix_rfl rfl
  · exact step_rule (fun _ _ h hc ↦ h.chats hc) (fun _ h ↦ h.same rfl List.prefix_rfl rfl)
      (fun _ _ h hr ↦ h.round hr) h i fun data hd ↦ he ⟨data, hd⟩

/-- Whatever happens, a session shows no other host key. -/
theorem reveals_run (i : ℤ) (env : Env) (tcp : ℤ) (events : List Event) :
    Reveals P env (runFrom P i (accepted i env tcp) events) := by
  induction events using List.reverseRecOn with
  | nil =>
    have hfresh : Reveals P env
        ⟨env, { reset with slot := i, tcp := tcp, ourVersion := ourVersionStr },
          Function.update (fun _ ↦ false) i true, [], fun _ ↦ [], [.accept tcp i]⟩ :=
      ⟨rfl, List.forall_mem_nil _⟩
    exact hfresh.chats (Chats.sendRawTcp _ _)
  | append_singleton events e ih =>
    rw [runFrom, List.foldl_concat, ← runFrom]
    exact ih.step i e

end

end Sshd.Server
