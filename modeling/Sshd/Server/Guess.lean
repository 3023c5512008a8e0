import Sshd.Server.Negotiation
import Sshd.Server.Transcript

namespace Sshd.Server

open Lib.Octets Lib.Preference Wire Crypto

variable {P : Primitives} {w w' : World}

/-! The exchange as it is seen from outside. -/

/-- The hashes of finished exchanges. -/
def exchangeHashes (obs : List Obs) : List Bytes :=
  obs.filterMap fun o ↦ match o with
    | .exchangeHash h => some h
    | _ => none

theorem exchangeHashes_append (obs os : List Obs) :
    exchangeHashes (obs ++ os) = exchangeHashes obs ++ exchangeHashes os := List.filterMap_append

theorem exchangeHashes_send (w : World) (payload : Bytes) :
    exchangeHashes (sendPacket P w payload).obs = exchangeHashes w.obs :=
  filterMap_send (fun _ ↦ rfl) (fun _ ↦ rfl) (fun _ _ _ _ ↦ rfl) w payload

/-- The client's first method and host key type are the server's first. -/
def GuessRight (lists : List Bytes) : Prop :=
  ∀ i < 2, (names (lists.getD i [])).head? = (names (ourLists.getD i [])).head?

/-- The size of `Q_C`. -/
def shareSize : KexAlg → ℕ
  | .mlkem768X25519 => mlkem768PkBytes + 32
  | .curve25519Sha256 => 32

/-- The session with `blob` as the client's share. -/
def withShare (blob : Bytes) (s : Session) : Session :=
  if s.kexAlg = .mlkem768X25519 then { s with peerKexBlob := blob } else { s with peerEphPub := blob }

theorem shareSize_mlkem (h : w.s.kexAlg = .mlkem768X25519) :
    shareSize w.s.kexAlg = mlkem768PkBytes + 32 := by rw [h]; rfl

theorem shareSize_classical (h : w.s.kexAlg ≠ .mlkem768X25519) : shareSize w.s.kexAlg = 32 := by
  cases hk : w.s.kexAlg with
  | mlkem768X25519 => exact absurd hk h
  | curve25519Sha256 => rfl

theorem storeClientBlob_fits {blob : Bytes} (h : blob.length = shareSize w.s.kexAlg) :
    storeClientBlob w blob = .inl (w.modify (withShare blob)) := by
  by_cases hk : w.s.kexAlg = .mlkem768X25519
  · rw [shareSize_mlkem hk] at h
    simp only [storeClientBlob, hk, h, withShare, World.modify, if_true, ne_eq, not_true_eq_false,
      if_false]
  · rw [shareSize_classical hk] at h
    simp only [storeClientBlob, hk, h, withShare, World.modify, if_false, ne_eq, not_true_eq_false]

theorem storeClientBlob_misfits {blob : Bytes} (h : blob.length ≠ shareSize w.s.kexAlg) :
    ∃ msg, storeClientBlob w blob = .inr msg := by
  by_cases hk : w.s.kexAlg = .mlkem768X25519
  · rw [shareSize_mlkem hk] at h
    exact ⟨_, by simp only [storeClientBlob, if_pos hk, if_pos h]; rfl⟩
  · rw [shareSize_classical hk] at h
    exact ⟨_, by simp only [storeClientBlob, if_neg hk, if_pos h]; rfl⟩

theorem clientShare_withShare (blob : Bytes) (s : Session) : clientShare (withShare blob s) = blob := by
  by_cases hk : s.kexAlg = .mlkem768X25519 <;> simp [clientShare, withShare, hk]

theorem withShare_kexAlg (blob : Bytes) (s : Session) : (withShare blob s).kexAlg = s.kexAlg := by
  by_cases hk : s.kexAlg = .mlkem768X25519 <;> simp [withShare, hk]

theorem withShare_canSend (blob : Bytes) (hw : CanSend w.s) :
    CanSend (w.modify (withShare blob)).s := by
  by_cases hk : w.s.kexAlg = .mlkem768X25519 <;> simpa [World.modify, withShare, hk, CanSend] using hw

/-- From `w` to `w'` the server only computes. -/
structure Computes (w w' : World) : Prop where
  sent : sentPayloads w'.obs = sentPayloads w.obs
  hashes : exchangeHashes w'.obs = exchangeHashes w.obs
  keys : derivations w'.obs = derivations w.obs
  share : clientShare w'.s = clientShare w.s
  kexAlg : w'.s.kexAlg = w.s.kexAlg
  phase : w'.s.phase = w.s.phase
  tcp : w'.s.tcp = w.s.tcp

theorem Computes.refl (w : World) : Computes w w := ⟨rfl, rfl, rfl, rfl, rfl, rfl, rfl⟩

theorem Computes.trans {w₁ w₂ w₃ : World} (h : Computes w₁ w₂) (h' : Computes w₂ w₃) :
    Computes w₁ w₃ :=
  ⟨h'.sent.trans h.sent, h'.hashes.trans h.hashes, h'.keys.trans h.keys, h'.share.trans h.share,
    h'.kexAlg.trans h.kexAlg, h'.phase.trans h.phase, h'.tcp.trans h.tcp⟩

theorem Computes.canSend (h : Computes w w') (hw : CanSend w.s) : CanSend w'.s := by
  rw [CanSend, h.phase, h.tcp]
  exact hw

theorem Computes.random (w : World) (n : ℕ) : Computes w (randomBytes w n).2 :=
  ⟨(sentPayloads_append w.obs _).trans (List.append_nil _),
    (exchangeHashes_append w.obs _).trans (List.append_nil _),
    (derivations_append w.obs _).trans (List.append_nil _), rfl, rfl, rfl, rfl⟩

theorem kexCompute_computes (w : World) : Computes w (kexCompute P w).1 :=
  kexCompute_induct P .refl .trans .random (fun _ _ _ _ _ ↦ ⟨rfl, rfl, rfl, rfl, rfl, rfl, rfl⟩) w

/-! The fate of a KEX_ECDH_INIT. -/

/-- The server hashed the client's share `blob` and answered it. -/
structure Used (P : Primitives) (w w' : World) (blob : Bytes) : Prop where
  fits : blob.length = shareSize w.s.kexAlg
  share : clientShare w'.s = blob
  kexAlg : w'.s.kexAlg = w.s.kexAlg
  phase : w'.s.phase = .kexWaitNewkeys
  answered : ∃ kBlob sig,
    exchangeHashes w'.obs = exchangeHashes w.obs ++ [computeExchangeHash P w'.s kBlob] ∧
      sentPayloads w'.obs =
        sentPayloads w.obs ++ [kexEcdhReplyPayload w'.s kBlob sig, putU8 [] msgNewkeys]

/-- The session that is computed with the client's share, up to the reply. -/
structure Replied (P : Primitives) (w w' : World) : Prop where
  share : clientShare w'.s = clientShare w.s
  kexAlg : w'.s.kexAlg = w.s.kexAlg
  phase : w'.s.phase = w.s.phase
  tcp : w'.s.tcp = w.s.tcp
  answered : ∃ kBlob sig,
    exchangeHashes w'.obs = exchangeHashes w.obs ++ [computeExchangeHash P w'.s kBlob] ∧
      sentPayloads w'.obs = sentPayloads w.obs ++ [kexEcdhReplyPayload w'.s kBlob sig]

theorem sendKexEcdhReply_spec (hw : CanSend w.s) :
    ((sendKexEcdhReply P w).2 = false ∧ Computes w (sendKexEcdhReply P w).1) ∨
      ((sendKexEcdhReply P w).2 = true ∧ Replied P w (sendKexEcdhReply P w).1) := by
  unfold sendKexEcdhReply
  split
  · exact .inl ⟨rfl, .refl w⟩
  rename_i seed hostPub _
  have hq := kexCompute_computes (P := P) w
  split
  · rename_i w₁ hk
    rw [hk] at hq
    exact .inl ⟨rfl, hq⟩
  rename_i w₁ hk
  rw [hk] at hq
  simp only [ed25519Sign]
  refine .inr ⟨trivial, ?_⟩
  let kBlob := buildHostKeyBlob hostPub
  let hash := computeExchangeHash P w₁.s kBlob
  let w₂ := adoptHash w₁ hash
  have hs₂ := adoptHash_s w₁ hash
  have hobs₂ := adoptHash_obs w₁ hash
  have hcan : CanSend w₂.s := by
    rw [CanSend, hs₂]
    exact hq.canSend hw
  generalize (P.orlpSign hash _ _).toList = sig
  change Replied P w (sendPacket P w₂ (kexEcdhReplyPayload w₂.s kBlob sig))
  have hs := sendPacket_s P w₂ (kexEcdhReplyPayload w₂.s kBlob sig)
  have hhash : computeExchangeHash P (sendPacket P w₂ (kexEcdhReplyPayload w₂.s kBlob sig)).s kBlob =
      hash := by
    rw [hs, hs₂]
    rfl
  have hpay : kexEcdhReplyPayload (sendPacket P w₂ (kexEcdhReplyPayload w₂.s kBlob sig)).s kBlob sig =
      kexEcdhReplyPayload w₂.s kBlob sig := by
    rw [hs]
    rfl
  refine ⟨?_, ?_, ?_, ?_, kBlob, sig, ?_, ?_⟩
  · rw [hs, hs₂, ← hq.share]
    rfl
  · rw [hs, hs₂, ← hq.kexAlg]
  · rw [hs, hs₂, ← hq.phase]
  · rw [hs, hs₂, ← hq.tcp]
  · rw [hhash, exchangeHashes_send, hobs₂, exchangeHashes_append, hq.hashes]
    rfl
  · rw [hpay, sentPayloads_send hcan, hobs₂, sentPayloads_append, hq.sent, List.append_assoc]
    rfl

theorem handleKexEcdhInit_fits {body blob : Bytes} (h : (getString (viewInit body)).1 = some blob)
    (hfits : blob.length = shareSize w.s.kexAlg) :
    let r := sendKexEcdhReply P (w.modify (withShare blob))
    handleKexEcdhInit P w body =
      if r.2 then (switchOutbound P (sendPacket P r.1 (putU8 [] msgNewkeys)), true)
      else (sendDisconnect P r.1 2 "KEX failed", false) := by
  rcases hg : getString (viewInit body) with ⟨_ | blob', v⟩
  · rw [hg] at h
    cases h
  · rw [hg] at h
    cases h
    simp only [handleKexEcdhInit, hg, storeClientBlob_fits hfits]
    rcases sendKexEcdhReply P (w.modify (withShare blob)) with ⟨w₁, _ | _⟩
    · rfl
    · rfl

theorem handleKexEcdhInit_misfits {body : Bytes}
    (h : ∀ blob, (getString (viewInit body)).1 = some blob → blob.length ≠ shareSize w.s.kexAlg) :
    ∃ msg, handleKexEcdhInit P w body = (sendDisconnect P w 2 msg, false) := by
  rcases hg : getString (viewInit body) with ⟨_ | blob, v⟩
  · exact ⟨_, by simp only [handleKexEcdhInit, hg]; rfl⟩
  · rw [hg] at h
    obtain ⟨msg, hm⟩ := storeClientBlob_misfits (h blob rfl)
    exact ⟨msg, by simp only [handleKexEcdhInit, hg, hm]⟩

/-- The share in a KEX_ECDH_INIT has the size that the chosen method wants. -/
def Fits (s : Session) (body blob : Bytes) : Prop :=
  (getString (viewInit body)).1 = some blob ∧ blob.length = shareSize s.kexAlg

theorem switchOutbound_s (w : World) : ∃ c2s s2c, (switchOutbound P w).s =
    { w.s with c2sKey := c2s, s2cKey := s2c, encOutbound := true, phase := .kexWaitNewkeys } :=
  ⟨_, _, rfl⟩

theorem handleKexEcdhInit_used (hw : CanSend w.s) {body blob : Bytes} (h : Fits w.s body blob)
    (hreply : (sendKexEcdhReply P (w.modify (withShare blob))).2 = true) :
    (handleKexEcdhInit P w body).2 = true ∧ Used P w (handleKexEcdhInit P w body).1 blob := by
  have hcan := withShare_canSend blob hw
  obtain ⟨hno, -⟩ | ⟨-, hr⟩ := sendKexEcdhReply_spec (P := P) hcan
  · rw [hreply] at hno
    cases hno
  have heq := (handleKexEcdhInit_fits h.1 h.2).trans (if_pos hreply)
  generalize (sendKexEcdhReply P (w.modify (withShare blob))).1 = w₁ at hr heq
  obtain ⟨c2s, s2c, hs₂⟩ := switchOutbound_s (P := P) (sendPacket P w₁ (putU8 [] msgNewkeys))
  rw [sendPacket_s] at hs₂
  have hcan₁ : CanSend w₁.s := by
    rw [CanSend, hr.phase, hr.tcp]
    exact hcan
  obtain ⟨kBlob, sig, hhashes, hsent⟩ := hr.answered
  rw [heq]
  refine ⟨rfl, h.2, ?_, ?_, rfl, kBlob, sig, ?_, ?_⟩
  · rw [hs₂]
    exact hr.share.trans (clientShare_withShare blob w.s)
  · rw [hs₂]
    exact hr.kexAlg.trans (withShare_kexAlg blob w.s)
  · have hhash : computeExchangeHash P (switchOutbound P (sendPacket P w₁ (putU8 [] msgNewkeys))).s
        kBlob = computeExchangeHash P w₁.s kBlob := by
      rw [hs₂]
      rfl
    have hlast : exchangeHashes (switchOutbound P (sendPacket P w₁ (putU8 [] msgNewkeys))).obs =
        exchangeHashes (sendPacket P w₁ (putU8 [] msgNewkeys)).obs :=
      (exchangeHashes_append _ _).trans (List.append_nil _)
    rw [hlast, hhash, exchangeHashes_send, hhashes]
    rfl
  · have hpay : kexEcdhReplyPayload (switchOutbound P (sendPacket P w₁ (putU8 [] msgNewkeys))).s
        kBlob sig = kexEcdhReplyPayload w₁.s kBlob sig := by
      rw [hs₂]
      rfl
    have hlast : sentPayloads (switchOutbound P (sendPacket P w₁ (putU8 [] msgNewkeys))).obs =
        sentPayloads (sendPacket P w₁ (putU8 [] msgNewkeys)).obs :=
      (sentPayloads_append _ _).trans (List.append_nil _)
    rw [hlast, hpay, sentPayloads_send hcan₁, hsent, List.append_assoc]
    rfl

theorem handleKexEcdhInit_refused (hw : CanSend w.s) {body : Bytes}
    (h : ∀ blob, Fits w.s body blob →
      (sendKexEcdhReply P (w.modify (withShare blob))).2 = false) :
    (handleKexEcdhInit P w body).2 = false ∧ Refused P w (handleKexEcdhInit P w body).1 := by
  by_cases hfits : ∃ blob, Fits w.s body blob
  · obtain ⟨blob, hb⟩ := hfits
    have hreply := h blob hb
    have hcan := withShare_canSend blob hw
    have heq := (handleKexEcdhInit_fits hb.1 hb.2).trans
      (if_neg (by rw [hreply]; exact Bool.false_ne_true))
    obtain ⟨-, hq⟩ | ⟨hyes, -⟩ := sendKexEcdhReply_spec (P := P) hcan
    · rw [heq]
      exact ⟨rfl, refused_bye (w := w) (hq.canSend hcan) hq.sent hq.keys 2 "KEX failed"⟩
    · rw [hreply] at hyes
      cases hyes
  · have hmisfit : ∀ blob, (getString (viewInit body)).1 = some blob →
        blob.length ≠ shareSize w.s.kexAlg := fun blob hb hlen ↦ hfits ⟨blob, hb, hlen⟩
    obtain ⟨msg, heq⟩ := handleKexEcdhInit_misfits (P := P) hmisfit
    rw [heq]
    exact ⟨rfl, refused_bye hw rfl rfl _ _⟩

/-! From the KEXINIT to the packet. -/

/-- Of the KEXINIT nothing counts but its list of key exchanges. -/
theorem handleKexinit_blind {payload payload' : Bytes} {alg : KexAlg}
    (hsel : selectKexAlg payload = some alg) (h : kexList payload' = kexList payload) :
    handleKexinit P w payload' =
      (handleKexinit P w payload).modify fun s ↦ { s with peerKexInit := payload' } := by
  have hsame : selectKexAlg payload' = some alg := by
    cases hk : kexList payload with
    | none =>
      rw [selectKexAlg_none hk] at hsel
      cases hsel
    | some list =>
      rw [selectKexAlg_eq hk] at hsel
      rw [selectKexAlg_eq (h.trans hk), hsel]
  rw [handleKexinit_some hsel, handleKexinit_some hsame]
  rfl

/-- With a right guess the client's first method is the one chosen. -/
theorem guess_chosen {payload : Bytes} {lists : List Bytes} {follows : UInt8} {alg : KexAlg}
    (hp : Proposes payload lists follows) (hg : GuessRight lists)
    (hsel : selectKexAlg payload = some alg) : alg = .mlkem768X25519 := by
  have hfirst := hg 0 (by decide)
  cases lists with
  | nil => exact absurd hfirst (by decide +kernel)
  | cons list rest =>
    have hhead : (names list).head? = some mlkemName :=
      hfirst.trans (congrArg List.head? ourNames_eq)
    have hmem : mlkemName ∈ names list := List.mem_of_mem_head? hhead
    rw [selectKexAlg_eq hp.kexList, firstCommon, ourNames_eq,
      List.find?_cons_of_pos (by simpa using hmem)] at hsel
    exact (Option.some.inj hsel).symm

/-- The session waits for the KEX_ECDH_INIT of the method `alg`. -/
structure AwaitsEcdh (w : World) (alg : KexAlg) : Prop where
  phase : w.s.phase = .kexWaitEcdh
  kexAlg : w.s.kexAlg = alg
  tcp : 0 ≤ w.s.tcp

theorem AwaitsEcdh.canSend {alg : KexAlg} (h : AwaitsEcdh w alg) : CanSend w.s :=
  ⟨by rw [h.phase]; decide, h.tcp⟩

theorem dispatch_kexinit {body : Bytes} {alg : KexAlg} (slot : ℤ)
    (hw : w.s.phase = .kexWaitKexinit ∨ w.s.phase = .run) (htcp : 0 ≤ w.s.tcp)
    (hsel : selectKexAlg (msgKexinit :: body) = some alg) :
    AwaitsEcdh (dispatchPacket P w (msgKexinit :: body) slot).1 alg := by
  have hphase : ¬((w.note (.dispatch w.s (msgKexinit :: body))).s.phase ≠ .kexWaitKexinit ∧
      (w.note (.dispatch w.s (msgKexinit :: body))).s.phase ≠ .run) := by
    rintro ⟨hk, hr⟩
    rcases hw with hw | hw
    · exact hk hw
    · exact hr hw
  have heq : dispatchPacket P w (msgKexinit :: body) slot =
      (handleKexinit P (w.note (.dispatch w.s (msgKexinit :: body))) (msgKexinit :: body), true) := by
    change dispatchMessage P (w.note _) msgKexinit _ body slot = _
    rw [dispatchMessage, if_neg (by decide), if_neg (by decide), if_pos rfl, if_neg hphase]
  rw [heq, handleKexinit_some hsel]
  exact ⟨rfl, rfl, htcp⟩

theorem dispatch_ignorable {type : UInt8} {body : Bytes} (slot : ℤ)
    (ht : type = msgIgnore ∨ type = msgDebug) :
    dispatchPacket P w (type :: body) slot = (w.note (.dispatch w.s (type :: body)), true) := by
  change dispatchMessage P (w.note _) type _ body slot = _
  have hno : type ≠ msgDisconnect := by
    rcases ht with rfl | rfl <;> decide
  rw [dispatchMessage, if_neg hno, if_pos ht]

theorem dispatch_ecdhInit {body : Bytes} {alg : KexAlg} (slot : ℤ) (hw : AwaitsEcdh w alg) :
    dispatchPacket P w (msgKexEcdhInit :: body) slot =
      handleKexEcdhInit P (w.note (.dispatch w.s (msgKexEcdhInit :: body))) body := by
  have hphase : ¬(w.note (.dispatch w.s (msgKexEcdhInit :: body))).s.phase ≠ .kexWaitEcdh :=
    fun hne ↦ hne hw.phase
  change dispatchMessage P (w.note _) msgKexEcdhInit _ body slot = _
  rw [dispatchMessage, if_neg (by decide), if_neg (by decide), if_neg (by decide), if_pos rfl,
    if_neg hphase]

/-- IGNORE and DEBUG messages change nothing for the exchange. -/
theorem awaits_run {alg : KexAlg} (slot : ℤ) (hw : AwaitsEcdh w alg) {others : List Bytes}
    (hothers : ∀ p ∈ others, p.head? = some msgIgnore ∨ p.head? = some msgDebug) :
    AwaitsEcdh (others.foldl (fun w p ↦ (dispatchPacket P w p slot).1) w) alg := by
  induction others generalizing w with
  | nil => exact hw
  | cons p others ih =>
    rw [List.foldl_cons]
    refine ih ?_ fun q hq ↦ hothers q (List.mem_cons_of_mem p hq)
    cases p with
    | nil => rcases hothers [] List.mem_cons_self with h | h <;> cases h
    | cons type body =>
      have ht : type = msgIgnore ∨ type = msgDebug := by
        simpa using hothers (type :: body) List.mem_cons_self
      rw [dispatch_ignorable slot ht]
      exact ⟨hw.phase, hw.kexAlg, hw.tcp⟩

theorem Used.since {s : Session} {payload blob : Bytes}
    (h : Used P (w.note (.dispatch s payload)) w' blob) : Used P w w' blob := by
  obtain ⟨kBlob, sig, hhashes, hsent⟩ := h.answered
  have hh : exchangeHashes (w.note (.dispatch s payload)).obs = exchangeHashes w.obs :=
    (exchangeHashes_append w.obs _).trans (List.append_nil _)
  have hs : sentPayloads (w.note (.dispatch s payload)).obs = sentPayloads w.obs :=
    (sentPayloads_append w.obs _).trans (List.append_nil _)
  exact ⟨h.fits, h.share, h.kexAlg, h.phase, kBlob, sig, hh ▸ hhashes, hs ▸ hsent⟩

theorem Refused.since {s : Session} {payload : Bytes}
    (h : Refused P (w.note (.dispatch s payload)) w') : Refused P w w' := by
  obtain ⟨code, msg, hbye⟩ := h.goodbye
  have hs : sentPayloads (w.note (.dispatch s payload)).obs = sentPayloads w.obs :=
    (sentPayloads_append w.obs _).trans (List.append_nil _)
  have hk : derivations (w.note (.dispatch s payload)).obs = derivations w.obs :=
    (derivations_append w.obs _).trans (List.append_nil _)
  exact ⟨h.closed, ⟨code, msg, hs ▸ hbye⟩, hk ▸ h.keyless, h.deaf⟩

theorem ecdhInit_fate {alg : KexAlg} (hw : AwaitsEcdh w alg) (slot : ℤ) (body : Bytes) :
    let w₁ := w.note (.dispatch w.s (msgKexEcdhInit :: body))
    let r := dispatchPacket P w (msgKexEcdhInit :: body) slot
    (∃ blob, Fits w.s body blob ∧ (sendKexEcdhReply P (w₁.modify (withShare blob))).2 = true ∧
        r.2 = true ∧ Used P w r.1 blob) ∨
      ((∀ blob, Fits w.s body blob → (sendKexEcdhReply P (w₁.modify (withShare blob))).2 = false) ∧
        r.2 = false ∧ Refused P w r.1) := by
  intro w₁ r
  have hr : r = handleKexEcdhInit P w₁ body := dispatch_ecdhInit slot hw
  have hcan : CanSend w₁.s := hw.canSend
  by_cases hfits : ∃ blob, Fits w.s body blob ∧
      (sendKexEcdhReply P (w₁.modify (withShare blob))).2 = true
  · obtain ⟨blob, hb, hreply⟩ := hfits
    obtain ⟨hdone, hused⟩ := handleKexEcdhInit_used (w := w₁) hcan hb hreply
    rw [hr]
    exact .inl ⟨blob, hb, hreply, hdone, hused.since⟩
  · have hall : ∀ blob, Fits w₁.s body blob →
        (sendKexEcdhReply P (w₁.modify (withShare blob))).2 = false := by
      intro blob hb
      by_contra hne
      exact hfits ⟨blob, hb, by simpa using hne⟩
    obtain ⟨hdone, href⟩ := handleKexEcdhInit_refused hcan hall
    rw [hr]
    exact .inr ⟨hall, hdone, href.since⟩

/-- Whatever the KEXINIT says of a packet that follows it, and whether or not the
client guessed right, the next KEX_ECDH_INIT is the one that counts: its share is
hashed and answered if it is of the chosen method's size, and otherwise the
session ends. -/
theorem next_packet_counts {kexinit : Bytes} {alg : KexAlg} {others : List Bytes}
    (hw : w.s.phase = .kexWaitKexinit ∨ w.s.phase = .run) (htcp : 0 ≤ w.s.tcp)
    (hsel : selectKexAlg (msgKexinit :: kexinit) = some alg)
    (hothers : ∀ p ∈ others, p.head? = some msgIgnore ∨ p.head? = some msgDebug) (slot : ℤ)
    (body : Bytes) :
    let w₁ := others.foldl (fun w p ↦ (dispatchPacket P w p slot).1)
      (dispatchPacket P w (msgKexinit :: kexinit) slot).1
    let w₂ := w₁.note (.dispatch w₁.s (msgKexEcdhInit :: body))
    let r := dispatchPacket P w₁ (msgKexEcdhInit :: body) slot
    AwaitsEcdh w₁ alg ∧
      (∀ kexinit', kexList (msgKexinit :: kexinit') = kexList (msgKexinit :: kexinit) →
        handleKexinit P w (msgKexinit :: kexinit') =
          (handleKexinit P w (msgKexinit :: kexinit)).modify fun s ↦
            { s with peerKexInit := msgKexinit :: kexinit' }) ∧
      (∀ lists follows, Proposes (msgKexinit :: kexinit) lists follows → GuessRight lists →
        alg = .mlkem768X25519) ∧
      ((∃ blob, Fits w₁.s body blob ∧ (sendKexEcdhReply P (w₂.modify (withShare blob))).2 = true ∧
          r.2 = true ∧ Used P w₁ r.1 blob) ∨
        ((∀ blob, Fits w₁.s body blob →
            (sendKexEcdhReply P (w₂.modify (withShare blob))).2 = false) ∧
          r.2 = false ∧ Refused P w₁ r.1)) := by
  intro w₁ w₂ r
  have hawaits : AwaitsEcdh w₁ alg := awaits_run slot (dispatch_kexinit slot hw htcp hsel) hothers
  refine ⟨hawaits, fun kexinit' hk ↦ handleKexinit_blind hsel hk,
    fun lists follows hp hg ↦ guess_chosen hp hg hsel, ecdhInit_fate hawaits slot body⟩

/-- A KEXINIT whose sender guessed that the server prefers the classical method. -/
def guessedLists : List Bytes := curveName :: ourLists.tail

def guessedKexinit : Bytes := kexinitOf (List.replicate 16 0) guessedLists 1

theorem next_packet_counts_guessed :
    let w₁ := (dispatchPacket standIn waitingWorld guessedKexinit 0).1
    AwaitsEcdh w₁ .curve25519Sha256 ∧
      ((∃ blob, (dispatchPacket standIn w₁ clientEcdhInit 0).2 = true ∧
          Used standIn w₁ (dispatchPacket standIn w₁ clientEcdhInit 0).1 blob) ∨
        (dispatchPacket standIn w₁ clientEcdhInit 0).2 = false ∧
          Refused standIn w₁ (dispatchPacket standIn w₁ clientEcdhInit 0).1) := by
  intro w₁
  have hsel : selectKexAlg guessedKexinit = some .curve25519Sha256 := by decide +kernel
  have hnone : ∀ p ∈ ([] : List Bytes), p.head? = some msgIgnore ∨ p.head? = some msgDebug :=
    fun _ hp ↦ absurd hp List.not_mem_nil
  obtain ⟨hawaits, -, -, hfate⟩ := next_packet_counts (P := standIn) (w := waitingWorld)
    (.inl rfl) (by decide) hsel hnone 0 (lenPrefixed (List.replicate 32 9))
  refine ⟨hawaits, ?_⟩
  rcases hfate with ⟨blob, -, -, hdone, hused⟩ | ⟨-, hdone, href⟩
  · exact .inl ⟨blob, hdone, hused⟩
  · exact .inr ⟨hdone, href⟩

/-- The server leaves the session as it is and sends nothing. -/
def Ignored (P : Primitives) (w : World) (packet : Bytes) (slot : ℤ) : Prop :=
  (dispatchPacket P w packet slot).1.s = w.s ∧
    sentPayloads (dispatchPacket P w packet slot).1.obs = sentPayloads w.obs

/-- The packet that was sent on a wrong guess is answered. -/
theorem wrong_guess_answered :
    Proposes guessedKexinit guessedLists 1 ∧ ¬GuessRight guessedLists ∧
      ¬Ignored standIn (dispatchPacket standIn waitingWorld guessedKexinit 0).1 clientEcdhInit 0 := by
  refine ⟨kexinitOf_proposes List.length_replicate rfl (by decide +kernel), fun h ↦ ?_, fun h ↦ ?_⟩
  · exact absurd (h 0 (by decide)) (by decide +kernel)
  · have hphase := congrArg Session.phase h.1
    exact absurd hphase (by decide +kernel)

end Sshd.Server
