import Sshd.Dialogue
import Sshd.Server.ChannelLife
import Sshd.Server.FirstExchange

namespace Sshd.Server

open Lib.Octets Wire Crypto Framing
open Relation (ReflTransGen)

variable (P : Primitives)

/-! What a session answers to a packet. -/

/-- What an answer depends on and an exchange leaves alone. -/
structure Place where
  phase : Phase
  tcp : ℤ
  backendHandle : ℤ

def Session.place (s : Session) : Place := { s with }

/-- From `w` to `w'` nothing is read, and `ks` is answered. -/
structure Answers (ks : List UInt8) (w w' : World) : Prop where
  openings : openings w'.obs = openings w.obs
  replies : replies (said (frames w'.obs)) = replies (said (frames w.obs)) ++ ks
  formed : ∀ p ∈ said (frames w'.obs), p ∈ said (frames w.obs) ∨ Formed p
  calls : ∃ os, w'.obs = w.obs ++ os ∧ ∀ o ∈ os, o.Undispatched

/-- The session keeps its place meanwhile. -/
structure Utters (ks : List UInt8) (w w' : World) : Prop extends Answers ks w w' where
  place : w'.s.place = w.s.place

/-- The session ends without an answer. -/
structure Hushed (w w' : World) : Prop extends Answers [] w w' where
  closed : w'.s.phase = .closed

/-- The answer to a channel request. -/
def requestAnswer (want : UInt8) (ok : Bool) : List UInt8 :=
  if want = 0 then [] else [if ok then msgChannelSuccess else msgChannelFailure]

/-- The answers to a packet, and the backend's handle in front of it and behind. -/
inductive Reaction (payload : Bytes) (b : ℤ) : List UInt8 → ℤ → Prop
  | idle (h : ∀ q : Query, q.asks payload = false) (hn : wantReply payload = none) :
      Reaction payload b [] b
  | exchange (ht : payload.head? = some msgKexEcdhInit) : Reaction payload b [msgNewkeys] b
  | service (ht : payload.head? = some msgServiceRequest) : Reaction payload b [msgServiceAccept] b
  | login (ht : payload.head? = some msgUserauthRequest) (t : UInt8)
      (hv : t = msgUserauthFailure ∨ t = msgUserauthSuccess ∨
        t = msgUserauthPkOk ∧ probes payload = true) : Reaction payload b [t] b
  | channel (ht : payload.head? = some msgChannelOpen) (t : UInt8)
      (hr : t = msgChannelOpenConfirm ∨ t = msgChannelOpenFailure) : Reaction payload b [t] b
  | request {want : UInt8} (ht : wantReply payload = some want) (ok : Bool) (b' : ℤ)
      (hb : wantsBackend payload = true → ok = true → 0 ≤ b') :
      Reaction payload b (requestAnswer want ok) b'

/-- What becomes of a dispatched packet. -/
inductive Reacts (w : World) (payload : Bytes) : World × Bool → Prop
  | refused {w'} (h : Answers [] w w') : Reacts w payload (w', false)
  | ended {w' ok} (h : Hushed w w') : Reacts w payload (w', ok)
  | goesOn {w' ks} (h : Answers ks w w') (hup : CanSend w'.s)
      (hs : msgUserauthSuccess ∈ ks → w'.s.phase = .run)
      (hr : Reaction payload w.s.backendHandle ks w'.s.backendHandle) : Reacts w payload (w', true)

/-- Requests and data are for a session that runs. -/
def Guarded (s : Session) (payload : Bytes) : Prop :=
  ∀ t ∈ [msgChannelRequest, msgChannelData], payload.head? = some t → s.phase = .run

/-- What a session does at a time. -/
inductive Replies (w : World) : World → Prop
  | hushed {w'} (h : Hushed w w') : Replies w w'
  | utters {w'} (h : Utters [] w w') : Replies w w'
  | greeted {w'} (hp : w.s.phase = .version) (h : Answers [msgKexinit] w w') (hup : CanSend w'.s)
      (hb : w'.s.backendHandle = w.s.backendHandle) : Replies w w'
  | packet {w'} {packet payload rest : Bytes} {ks : List UInt8}
      (hp : w.s.phase ≠ .closed ∧ w.s.phase ≠ .version)
      (h : Answers ks (unpacked w packet payload rest) w')
      (hr : w'.s.phase = .closed ∧ ks = [] ∨ CanSend w'.s ∧ Guarded w.s payload ∧
        (msgUserauthSuccess ∈ ks → w'.s.phase = .run) ∧
        Reaction payload w.s.backendHandle ks w'.s.backendHandle) : Replies w w'

section
variable {P} {ks ls : List UInt8} {w w₁ w' : World}

theorem Answers.trans (h : Answers ks w w₁) (h' : Answers ls w₁ w') : Answers (ks ++ ls) w w' :=
  ⟨h'.openings.trans h.openings, by rw [h'.replies, h.replies, List.append_assoc],
    fun p hp ↦ (h'.formed p hp).elim (h.formed p) .inr, by
      obtain ⟨os, hobs, hos⟩ := h.calls
      obtain ⟨os', hobs', hos'⟩ := h'.calls
      refine ⟨os ++ os', by rw [hobs', hobs, List.append_assoc], fun o ho ↦ ?_⟩
      exact (List.mem_append.mp ho).elim (hos o) (hos' o)⟩

theorem Answers.grow (os : List Obs) (hobs : w'.obs = w.obs ++ os) (ho : Server.openings os = [])
    (hf : frames os = []) (hu : ∀ o ∈ os, o.Undispatched) : Answers [] w w' := by
  refine ⟨?_, ?_, fun p hp ↦ .inl ?_, os, hobs, hu⟩
  · rw [hobs, openings_append, ho, List.append_nil]
  · rw [hobs, frames_append, hf, List.append_nil, List.append_nil]
  · rwa [hobs, frames_append, hf, List.append_nil] at hp

theorem Answers.one {o : Obs} (hobs : w'.obs = w.obs ++ [o]) (ho : Server.openings [o] = [])
    (hf : frames [o] = []) (hu : o.Undispatched) : Answers [] w w' :=
  .grow _ hobs ho hf (List.forall_mem_singleton.mpr hu)

theorem Answers.same (hobs : w'.obs = w.obs) : Answers [] w w' :=
  .grow [] (hobs.trans (List.append_nil _).symm) rfl rfl (List.forall_mem_nil _)

theorem Answers.sendClosed (w : World) (h : w.s.phase = .closed ∨ w.s.tcp < 0) (payload : Bytes) :
    Answers [] w (sendPacket P w payload) := by
  rw [sendPacket_closed P w payload h]
  exact .same rfl

theorem Answers.send (h : CanSend w.s) {payload : Bytes} (hf : Formed payload) :
    Answers (Sshd.replies [payload]) w (sendPacket P w payload) := by
  have hopen : ¬(w.s.phase = .closed ∨ w.s.tcp < 0) := fun hc ↦ hc.elim h.1 (not_lt.mpr h.2)
  refine ⟨(Deaf.send P w payload).openings, ?_, fun p hp ↦ ?_,
    _, sendPacket_obs P w payload, fun o ho ↦ ?_⟩
  · rw [frames_sendPacket hopen, said_append, replies_append]
    rfl
  · rw [frames_sendPacket hopen, said_append, List.mem_append] at hp
    refine hp.imp_right fun hm ↦ ?_
    obtain rfl : p = payload := List.mem_singleton.mp hm
    exact hf
  · obtain ⟨_, rfl⟩ | ⟨_, rfl, _⟩ | ⟨_, _, _, rfl⟩ := mem_sendObs P ho <;> trivial

theorem Utters.trans (h : Utters ks w w₁) (h' : Utters ls w₁ w') : Utters (ks ++ ls) w w' :=
  ⟨h.toAnswers.trans h'.toAnswers, h'.place.trans h.place⟩

theorem Utters.refl (w : World) : Utters [] w w := ⟨.same rfl, rfl⟩

/-- Silence first. -/
theorem Utters.after (h : Utters [] w w₁) (h' : Utters ks w₁ w') : Utters ks w w' := h.trans h'

/-- Silence in the end. -/
theorem Utters.before (h : Utters ks w w₁) (h' : Utters [] w₁ w') : Utters ks w w' := by
  have ht := h.trans h'
  rwa [List.append_nil] at ht

theorem Utters.note (w : World) {o : Obs} (ho : Server.openings [o] = []) (hf : frames [o] = [])
    (hu : o.Undispatched) : Utters [] w (w.note o) :=
  ⟨.one rfl ho hf hu, rfl⟩

theorem Utters.modify (w : World) (f : Session → Session) (hf : (f w.s).place = w.s.place) :
    Utters [] w (w.modify f) := ⟨.same rfl, hf⟩

theorem Utters.random (w : World) (n : ℕ) : Utters [] w (randomBytes w n).2 :=
  .note w rfl rfl trivial

theorem Utters.backendHandle (h : Utters ks w w') : w'.s.backendHandle = w.s.backendHandle :=
  congrArg Place.backendHandle h.place

theorem Utters.canSend (h : Utters ks w w') (hup : CanSend w.s) : CanSend w'.s := by
  have hp : w'.s.phase = w.s.phase := congrArg Place.phase h.place
  have ht : w'.s.tcp = w.s.tcp := congrArg Place.tcp h.place
  rw [CanSend, hp, ht]
  exact hup

theorem sendPacket_place (w : World) (payload : Bytes) :
    (sendPacket P w payload).s.place = w.s.place := by
  rw [sendPacket_s]
  rfl

/-- A message that is waited for. -/
theorem Utters.send (h : CanSend w.s) {payload : Bytes} {t : UInt8} (hp : payload.head? = some t)
    (ht : t ∈ answerTypes) : Utters [t] w (sendPacket P w payload) := by
  have hf : Formed payload := formed_of_head hp fun hm ↦ by
    obtain rfl | hm := List.mem_cons.mp hm
    · exact absurd ht (by decide)
    · exact absurd (List.mem_singleton.mp hm ▸ ht) (by decide)
  exact ⟨replies_singleton hp ht ▸ .send h hf, sendPacket_place w payload⟩

/-- A message that nobody waits for. -/
theorem Utters.aside (w : World) {payload : Bytes} {t : UInt8} (hp : payload.head? = some t)
    (ht : t ∉ answerTypes) (hf : Formed payload) : Utters [] w (sendPacket P w payload) := by
  refine ⟨?_, sendPacket_place w payload⟩
  have hnone : Sshd.replies [payload] = [] :=
    replies_other fun t' ht' he ↦ ht (Option.some.inj (hp.symm.trans he) ▸ ht')
  by_cases h : w.s.phase = .closed ∨ w.s.tcp < 0
  · exact .sendClosed w h payload
  · exact hnone ▸ .send ⟨fun hc ↦ h (.inl hc), not_lt.mp fun ht ↦ h (.inr ht)⟩ hf

theorem Utters.chatter (w : World) {payload : Bytes} {t : UInt8} (hp : payload.head? = some t)
    (ht : t ∉ answerTypes ∧ t ∉ [94, 95]) : Utters [] w (sendPacket P w payload) :=
  .aside w hp ht.1 (formed_of_head hp ht.2)

theorem Utters.data (w : World) (s : Session) {data : Bytes} (h : data.length < 2 ^ 32) :
    Utters [] w (sendPacket P w (channelData s data)) := by
  have hhead : (channelData s data).head? = some msgChannelData := by
    rw [channelData, putString_eq]
    rfl
  refine .aside w hhead (by decide) ⟨fun he ↦ ?_, fun _ ↦ ⟨s.peerChannel, data, h, rfl⟩⟩
  cases hhead.symm.trans he

theorem Hushed.after (h : Answers [] w w₁) (h' : Hushed w₁ w') : Hushed w w' :=
  ⟨h.trans h'.toAnswers, h'.closed⟩

theorem Hushed.sendDisconnect (w : World) (code : UInt32) (msg : String) :
    Hushed w (sendDisconnect P w code msg) := by
  have hs : Utters [] w (sendPacket P w (disconnect code msg)) :=
    .chatter w (t := msgDisconnect) rfl (by decide)
  exact ⟨hs.toAnswers.trans (.one (sendDisconnect_obs w code msg) rfl rfl trivial), rfl⟩

end

section
variable {P} {ks : List UInt8} {w w₁ w' : World} {payload : Bytes}

theorem Reacts.still (hup : CanSend w.s) (h : Utters ks w w') (hs : msgUserauthSuccess ∉ ks)
    (hr : Reaction payload w.s.backendHandle ks w.s.backendHandle) :
    Reacts w payload (w', true) :=
  .goesOn h.toAnswers (h.canSend hup) (fun hm ↦ absurd hm hs) (h.backendHandle.symm ▸ hr)

/-- A message that asks for nothing. -/
theorem Reaction.pass {t : UInt8} {body : Bytes} (ht : t ∉ [30, 5, 50, 90, 98]) (b : ℤ) :
    Reaction (t :: body) b [] b := by
  refine .idle (fun q ↦ ?_) ?_
  · by_contra hq
    have he := Query.head_of_asks (Bool.not_eq_false _ ▸ hq)
    exact ht (Option.some.inj he ▸ q.type_mem)
  · have hne : t ≠ msgChannelRequest := by
      rintro rfl
      exact ht (by decide)
    exact if_pos hne

/-! The exchange. -/

theorem Utters.kexCompute (w : World) : Utters [] w (kexCompute P w).1 :=
  kexCompute_induct P .refl .after .random (fun w _ _ _ _ ↦ .modify w _ rfl) w

theorem Utters.storeClientBlob {blob : Bytes} (h : storeClientBlob w blob = .inl w₁) :
    Utters [] w w₁ := by
  unfold Server.storeClientBlob at h
  split at h
  · split at h
    · cases h
    · cases h
      exact .modify w _ rfl
  · split at h
    · cases h
    · cases h
      exact .modify w _ rfl

theorem Utters.adoptHash (w : World) (hash : Bytes) : Utters [] w (adoptHash w hash) := by
  have hn : Utters [] w (w.note (.exchangeHash hash)) := .note w rfl rfl trivial
  unfold Server.adoptHash
  simp only
  split
  · exact hn
  · exact hn.after (.modify _ _ rfl)

theorem Utters.sendKexEcdhReply (w : World) : Utters [] w (sendKexEcdhReply P w).1 := by
  unfold Server.sendKexEcdhReply
  split
  · exact .refl w
  have hk := Utters.kexCompute (P := P) w
  split
  · rename_i w₂ hw₂
    rw [hw₂] at hk
    exact hk
  rename_i w₂ hw₂
  rw [hw₂] at hk
  simp only [ed25519Sign]
  refine (hk.after (.adoptHash w₂ (computeExchangeHash P w₂.s (buildHostKeyBlob _)))).after
    (.chatter _ (t := msgKexEcdhReply) ?_ (by decide))
  rw [kexEcdhReplyPayload_eq]
  rfl

theorem Answers.switchOutbound (w : World) : Answers [] w (switchOutbound P w) := by
  have hobs : (Server.switchOutbound P w).obs = w.obs ++ [.deriveKeys w.s.sessionId] := rfl
  exact .one hobs rfl rfl trivial

theorem CanSend.switchOutbound (h : CanSend w.s) : CanSend (switchOutbound P w).s ∧
    (Server.switchOutbound P w).s.backendHandle = w.s.backendHandle := ⟨⟨nofun, h.2⟩, rfl⟩

theorem Reacts.handleKexEcdhInit (body : Bytes) (hup : CanSend w.s) :
    Reacts w (msgKexEcdhInit :: body) (handleKexEcdhInit P w body) := by
  unfold Server.handleKexEcdhInit
  split
  · exact .ended (.sendDisconnect w _ _)
  split
  · exact .ended (.sendDisconnect w _ _)
  rename_i w₁ hw₁
  have hs := (Utters.storeClientBlob hw₁).after (.sendKexEcdhReply (P := P) w₁)
  split
  · rename_i w₂ hw₂
    rw [hw₂] at hs
    exact .ended (.after hs.toAnswers (.sendDisconnect w₂ _ _))
  · rename_i w₂ hw₂
    rw [hw₂] at hs
    have hn : Utters [msgNewkeys] w (sendPacket P w₂ (putU8 [] msgNewkeys)) :=
      hs.after (.send (hs.canSend hup) rfl (by decide))
    simp only
    generalize sendPacket P w₂ (putU8 [] msgNewkeys) = w₃ at hn
    rw [switchOutbound_eq]
    have ht := hn.toAnswers.trans (.switchOutbound (P := P) w₃)
    rw [List.append_nil] at ht
    obtain ⟨hup', hb⟩ := (hn.canSend hup).switchOutbound (P := P)
    refine .goesOn ht hup' (fun hm ↦ absurd hm (by decide)) ?_
    rw [hb, hn.backendHandle]
    exact .exchange rfl

theorem Reacts.handleKexinit {body : Bytes} (hup : CanSend w.s) :
    Reacts w (msgKexinit :: body) (handleKexinit P w (msgKexinit :: body), true) := by
  unfold Server.handleKexinit
  simp only
  split
  · have hset : Answers [] w (w.modify fun s ↦ { s with peerKexInit := msgKexinit :: body }) :=
      .same rfl
    exact .ended (.after hset (.sendDisconnect _ _ _))
  · exact .goesOn (.same rfl) ⟨nofun, hup.2⟩ (fun hm ↦ absurd hm (by decide)) (.pass (by decide) _)

/-! The login. -/

theorem Reacts.handleServiceRequest (body : Bytes) (hup : CanSend w.s) :
    Reacts w (msgServiceRequest :: body) (handleServiceRequest P w body) := by
  unfold Server.handleServiceRequest
  split
  · exact .ended (.sendDisconnect w _ _)
  rename_i name _ _
  split
  · exact .ended (.sendDisconnect w _ _)
  · refine .still hup (.send hup (t := msgServiceAccept) ?_ (by decide)) (by decide) (.service rfl)
    rw [putString_eq]
    rfl

/-- A request that is answered, after silence. -/
theorem Reacts.refuse (hup : CanSend w.s) (ht : payload.head? = some msgUserauthRequest)
    (h : Utters [] w w₁) : Reacts w payload (sendUserauthFailure P w₁ false, true) := by
  refine .still hup (h.after (.send (h.canSend hup) (t := msgUserauthFailure) ?_ (by decide)))
    (by decide) (.login ht _ (.inl rfl))
  simp [putU8, putCstring, putString_eq]

theorem Reacts.accept (hup : CanSend w.s) (ht : payload.head? = some msgUserauthRequest)
    (h : Utters [] w w₁) : Reacts w payload (sendUserauthSuccess P w₁, true) := by
  have hs : Utters [msgUserauthSuccess] w (sendPacket P w₁ (putU8 [] msgUserauthSuccess)) :=
    h.after (.send (h.canSend hup) rfl (by decide))
  unfold Server.sendUserauthSuccess
  simp only
  generalize sendPacket P w₁ (putU8 [] msgUserauthSuccess) = w₂ at hs
  have ht' := hs.toAnswers.trans (.same rfl :
    Answers [] w₂ (w₂.modify fun s ↦ { s with authed := true, phase := .run }))
  rw [List.append_nil] at ht'
  refine .goesOn ht' ⟨nofun, (hs.canSend hup).2⟩ (fun _ ↦ rfl) ?_
  change Reaction payload w.s.backendHandle _ w₂.s.backendHandle
  rw [hs.backendHandle]
  exact .login ht _ (.inr (.inl rfl))

theorem Reacts.userauthSignature (hup : CanSend w.s) (ht : payload.head? = some msgUserauthRequest)
    (h : Utters [] w w₁) (v : View) (user svc pkBlob pub : Bytes) :
    Reacts w payload (userauthSignature P w₁ v user svc pkBlob pub) := by
  unfold Server.userauthSignature
  split
  · exact .ended (.after h.toAnswers (.sendDisconnect _ _ _))
  split
  · exact .refuse hup ht h
  rename_i sig64 _
  have hv : Utters [] w (verifySignature P w₁ pub (signedData w₁.s.sessionId user svc pkBlob) sig64).2 :=
    h.after (.note _ rfl rfl trivial)
  simp only
  generalize verifySignature P w₁ pub (signedData w₁.s.sessionId user svc pkBlob) sig64 = r at hv ⊢
  obtain ⟨ok, w₂⟩ := r
  cases ok with
  | false => exact .refuse hup ht hv
  | true => exact .accept hup ht hv

theorem Reacts.userauthPublickey (hup : CanSend w.s) (ht : payload.head? = some msgUserauthRequest)
    (h : Utters [] w w₁) (v : View) (user svc : Bytes)
    (hprobe : (getU8 v).1 = 0 → probes payload = true) :
    Reacts w payload (userauthPublickey P w₁ v user svc) := by
  unfold Server.userauthPublickey
  simp only
  split
  · exact .ended (.after h.toAnswers (.sendDisconnect _ _ _))
  split
  · exact .ended (.after h.toAnswers (.sendDisconnect _ _ _))
  split
  · exact .refuse hup ht h
  split
  · exact .refuse hup ht h
  rename_i pub32 _
  have ha : Utters [] w (authorizedPub P w₁ pub32).2 := h.after (.note _ rfl rfl trivial)
  generalize authorizedPub P w₁ pub32 = r at ha
  obtain ⟨ok, w₂⟩ := r
  cases ok with
  | false => exact .refuse hup ht ha
  | true =>
    simp only
    split
    · rename_i hz
      refine .still hup (ha.after (.send (ha.canSend hup) (t := msgUserauthPkOk) ?_ (by decide)))
        (by decide) (.login ht _ (.inr (.inr ⟨rfl, hprobe hz⟩)))
      simp [putString_eq, putU8]
    · exact .userauthSignature hup ht ha _ _ _ _ _

theorem Reacts.userauthPassword (hup : CanSend w.s) (ht : payload.head? = some msgUserauthRequest)
    (h : Utters [] w w₁) (v : View) : Reacts w payload (userauthPassword P w₁ v) := by
  unfold Server.userauthPassword
  simp only
  split
  · exact .refuse hup ht h
  split
  · exact .ended (.after h.toAnswers (.sendDisconnect _ _ _))
  rename_i pw _ _
  have ha : Utters [] w (authLogin w₁ pw "admin").2 := h.after (.note _ rfl rfl trivial)
  generalize authLogin w₁ pw "admin" = r at ha
  obtain ⟨ok, w₂⟩ := r
  cases ok with
  | false => exact .refuse hup ht ha
  | true => exact .accept hup ht ha

theorem Reacts.handleUserauthRequest (body : Bytes) (hup : CanSend w.s) :
    Reacts w (msgUserauthRequest :: body) (handleUserauthRequest P w body) := by
  unfold Server.handleUserauthRequest
  split
  · exact .ended (.sendDisconnect w _ _)
  split
  · exact .ended (.sendDisconnect w _ _)
  split
  · exact .ended (.sendDisconnect w _ _)
  rename_i user v hu _ svc v' hs _ method v'' hm
  have hset : Utters [] w (w.modify fun s ↦ { s with user := user }) := .modify w _ rfl
  simp only
  split
  · rename_i hpk
    refine .userauthPublickey hup rfl hset _ _ _ fun hz ↦ ?_
    have ht : takeStrings 3 (viewInit body) = some ([user, svc, method], v'') :=
      takeStrings_succ.mpr ⟨v, hu, takeStrings_succ.mpr ⟨v', hs, takeStrings_succ.mpr ⟨v'', hm, rfl⟩⟩⟩
    simp [probes, ht, hpk, hz, msgUserauthRequest]
  split
  · exact .userauthPassword hup rfl hset _
  · exact .refuse hup rfl hset

/-! The channel. -/

theorem Reacts.handleChannelOpen (body : Bytes) (hup : CanSend w.s) :
    Reacts w (msgChannelOpen :: body) (handleChannelOpen P w body) := by
  unfold Server.handleChannelOpen
  split
  · exact .refused (.same rfl)
  simp only
  split
  · exact .refused (.same rfl)
  split
  · exact .still hup (.send hup (t := msgChannelOpenFailure) rfl (by decide)) (by decide)
      (.channel rfl _ (.inr rfl))
  split
  · exact .still hup (.send hup (t := msgChannelOpenFailure) rfl (by decide)) (by decide)
      (.channel rfl _ (.inr rfl))
  · rename_i typeStr v _ _ _ _
    have hm : Utters [] w (openChannel w (getU32 v).1 (getU32 (getU32 v).2).1
      (getU32 (getU32 (getU32 v).2).2).1) := .modify w _ rfl
    exact .still hup (hm.after (.send (hm.canSend hup) (t := msgChannelOpenConfirm) rfl (by decide)))
      (by decide) (.channel rfl _ (.inl rfl))

theorem Utters.replyIf (hup : CanSend w.s) (want : UInt8) (ok : Bool) :
    Utters (requestAnswer want ok) w (replyIf P w want ok) := by
  unfold Server.replyIf requestAnswer
  by_cases hw : want = 0
  · rw [if_neg (not_not.mpr hw), if_pos hw]
    exact .refl w
  · rw [if_pos hw, if_neg hw]
    cases ok with
    | false => exact .send hup rfl (by decide)
    | true => exact .send hup rfl (by decide)

theorem success_requestAnswer (want : UInt8) (ok : Bool) :
    msgUserauthSuccess ∉ requestAnswer want ok := by
  unfold requestAnswer
  split
  · exact List.not_mem_nil
  · cases ok <;> decide

/-- A request that leaves the backend alone. -/
theorem Reacts.reply (hup : CanSend w.s) {want : UInt8} (ht : wantReply payload = some want)
    {ok : Bool} (hn : wantsBackend payload = true → ok ≠ true) :
    Reacts w payload (replyIf P w want ok, true) :=
  .still hup (.replyIf hup want ok) (success_requestAnswer want ok)
    (.request ht ok w.s.backendHandle fun hr hok ↦ absurd hok (hn hr))

theorem Reacts.refuseRequest (hup : CanSend w.s) {want : UInt8}
    (ht : wantReply payload = some want) : Reacts w payload (replyIf P w want false, true) :=
  .reply hup ht fun _ ↦ Bool.false_ne_true

/-- A request that was connected, or not. -/
theorem Reacts.connected (hup : CanSend w.s) {want : UInt8} (ht : wantReply payload = some want)
    (hset : Utters [] w w₁) (b : Backend) (slot : ℤ) {ok : Bool}
    (hok : ok = true → 0 ≤ (connectBackend w₁ b slot).s.backendHandle)
    (h : Utters [] (replyIf P (connectBackend w₁ b slot) want ok) w') :
    Reacts w payload (w', true) := by
  have hconn : Answers [] w (connectBackend w₁ b slot) := hset.toAnswers.trans (.one rfl rfl rfl trivial)
  have hup' : CanSend (connectBackend w₁ b slot).s := hset.canSend hup
  have hreply := (Utters.replyIf (P := P) hup' want ok).before h
  refine .goesOn (hconn.trans hreply.toAnswers) (hreply.canSend hup')
    (fun hm ↦ absurd hm (success_requestAnswer want ok)) ?_
  rw [hreply.backendHandle]
  exact .request ht ok _ fun _ ↦ hok

theorem Reacts.requestBackend (hup : CanSend w.s) {want : UInt8} (ht : wantReply payload = some want)
    {kind : ChanKind} (hk : kind ≠ .none) (slot : ℤ) :
    Reacts w payload (requestBackend P w want kind slot) := by
  have hset : Utters [] w (w.modify fun s ↦ { s with chanKind := kind }) := .modify w _ rfl
  obtain ⟨b, hb⟩ : ∃ b, backendFor (w.modify fun s ↦ { s with chanKind := kind }) .ansi = some b := by
    cases kind with
    | none => exact absurd rfl hk
    | cli => exact ⟨_, rfl⟩
    | log => exact ⟨_, rfl⟩
  have he := openBackendWithMode_eq slot hb
  unfold Server.requestBackend
  simp only [openBackend, he]
  split
  · rename_i w₁ hw₁
    obtain ⟨rfl, -⟩ := Prod.mk.injEq .. ▸ hw₁
    exact .connected hup ht hset b slot (fun hf ↦ absurd hf Bool.false_ne_true) (.refl _)
  · rename_i w₁ hw₁
    obtain ⟨rfl, hok⟩ := Prod.mk.injEq .. ▸ hw₁
    exact .connected hup ht hset b slot (fun _ ↦ of_decide_eq_true hok) (.refl _)

theorem Reacts.requestExec (hup : CanSend w.s) {want : UInt8} (ht : wantReply payload = some want)
    (v : View) (slot : ℤ) : Reacts w payload (requestExec P w v want slot) := by
  have hset : Utters [] w (w.modify fun s ↦ { s with chanKind := .cli }) := .modify w _ rfl
  obtain ⟨b, hb⟩ : ∃ b, backendFor (w.modify fun s ↦ { s with chanKind := .cli }) .line = some b :=
    ⟨_, rfl⟩
  have he := openBackendWithMode_eq slot hb
  unfold Server.requestExec
  split
  · exact .refuseRequest hup ht
  split
  · exact .refuseRequest hup ht
  simp only [openBackendLine, he]
  split
  · rename_i w₁ hw₁
    obtain ⟨rfl, -⟩ := Prod.mk.injEq .. ▸ hw₁
    exact .connected hup ht hset b slot (fun hf ↦ absurd hf Bool.false_ne_true) (.refl _)
  · rename_i w₁ hw₁
    obtain ⟨rfl, hok⟩ := Prod.mk.injEq .. ▸ hw₁
    exact .connected hup ht hset b slot (fun _ ↦ of_decide_eq_true hok) (.note _ rfl rfl trivial)

theorem Reacts.handleChannelRequest (body : Bytes) (slot : ℤ) (hup : CanSend w.s) :
    Reacts w (msgChannelRequest :: body) (handleChannelRequest P w body slot) := by
  unfold Server.handleChannelRequest
  simp only
  split
  · exact .refused (.same rfl)
  rename_i typeStr v hv
  have ht : wantReply (msgChannelRequest :: body) = some (getU8 v).1 := by simp [wantReply, hv]
  have hwants : wantsBackend (msgChannelRequest :: body) =
      (decide (typeStr = ascii "shell") || decide (typeStr = ascii "exec") ||
        decide (typeStr = ascii "subsystem")) := by
    simp [wantsBackend, msgChannelRequest, hv]
  split
  · rename_i hpty
    refine .reply hup ht fun hw ↦ ?_
    rw [hwants, hpty] at hw
    exact absurd hw (by decide)
  split
  · exact .requestBackend hup ht (by decide) slot
  split
  · exact .requestExec hup ht _ slot
  split
  · unfold Server.requestSubsystem
    split
    · exact .refuseRequest hup ht
    split
    · exact .requestBackend hup ht (by decide) slot
    · exact .refuseRequest hup ht
  rename_i hshell hexec hsub
  have hn : ¬wantsBackend (msgChannelRequest :: body) = true := fun hw ↦ by
    rw [hwants] at hw
    simp only [Bool.or_eq_true, decide_eq_true_eq] at hw
    exact hw.elim (fun hw ↦ hw.elim hshell hexec) hsub
  split
  · exact .reply hup ht fun hw ↦ absurd hw hn
  · exact .refuseRequest hup ht

theorem Utters.replenish (w : World) (written : ℕ) : Utters [] w (replenish P w written) := by
  by_cases h : 0 < written ∧ usedWindow w.s written < localWindowMax / 2
  · rw [replenish_adjust P h]
    exact (Utters.modify w _ rfl).after (.chatter _ (t := msgChannelWindowAdjust) rfl (by decide))
  · rw [replenish_none P h]
    exact .modify w _ rfl

theorem Utters.handleChannelData (w : World) (body : Bytes) :
    Utters [] w (handleChannelData P w body) := by
  unfold Server.handleChannelData
  simp only
  split
  · exact .refl w
  split
  · exact .refl w
  · have hsend (data : Bytes) : Utters [] w (itsSend w .backend w.s.backendHandle data).2 :=
      .note w rfl rfl trivial
    exact (hsend _).after (.replenish _ _)

theorem Utters.drainLoop (fuel : ℕ) (w : World) : Utters [] w (drainLoop P fuel w) := by
  induction fuel generalizing w with
  | zero => exact .refl w
  | succ fuel ih =>
    unfold Server.drainLoop
    split
    swap
    · exact .refl w
    have hobs : (itsRecv w w.s.backendHandle (drainWant w.s)).2.obs =
        w.obs ++ [.itsRecv w.s.backendHandle (itsRecv w w.s.backendHandle (drainWant w.s)).1] := rfl
    have hr : Utters [] w (itsRecv w w.s.backendHandle (drainWant w.s)).2 := ⟨.one hobs rfl rfl trivial, rfl⟩
    have hlen := (itsRecv_length w w.s.backendHandle (drainWant w.s)).trans (drainWant_le w.s)
    generalize itsRecv w w.s.backendHandle (drainWant w.s) = r at hr hlen
    simp only
    split
    · exact hr
    · exact ((hr.after (.data r.2 r.2.s (by omega))).after (.modify _ _ rfl)).after (ih _)

theorem Utters.sessionOnBackendData (w : World) : Utters [] w (sessionOnBackendData P w) := by
  unfold Server.sessionOnBackendData
  split
  · exact .refl w
  · exact .drainLoop _ w

theorem Answers.dropBackend (w : World) : Answers [] w (dropBackend w) := by
  unfold Server.dropBackend
  split
  · have hobs : ((itsDisconnect w .backend w.s.backendHandle).modify
        fun s ↦ { s with backendHandle := -1 }).obs =
          w.obs ++ [.itsDisconnect .backend w.s.backendHandle] := rfl
    exact .one hobs rfl rfl trivial
  · exact .same rfl

theorem Hushed.handleChannelClose (hc : w.s.chanOpen ≠ false) :
    Hushed w (handleChannelClose P w) := by
  have hclose : Utters [] (dropBackend w) (sendChannelClose P (dropBackend w)) :=
    .chatter _ (t := msgChannelClose) rfl (by decide)
  unfold Server.handleChannelClose
  rw [if_neg hc]
  exact ⟨((Answers.dropBackend w).trans hclose.toAnswers).trans (.same rfl), rfl⟩

/-! Any packet. -/

theorem Reacts.ite {c : Prop} [Decidable c] {r r' : World × Bool} (h : c → Reacts w payload r)
    (h' : ¬c → Reacts w payload r') : Reacts w payload (if c then r else r') := by
  split
  · exact h ‹c›
  · exact h' ‹¬c›

/-- A message for a phase that the session is not in. -/
theorem Reacts.guarded {c : Prop} [Decidable c] {r : World × Bool} (h : Reacts w payload r) :
    Reacts w payload (if c then (w, false) else r) := .ite (fun _ ↦ .refused (.same rfl)) fun _ ↦ h

theorem Utters.handleGlobalRequest (w : World) (body : Bytes) :
    Utters [] w (handleGlobalRequest P w body) := by
  unfold Server.handleGlobalRequest
  split
  · exact .refl w
  split
  · exact .chatter w (t := msgRequestFailure) rfl (by decide)
  · exact .refl w

theorem Reacts.dispatchMessage (type : UInt8) (body : Bytes) (slot : ℤ) (hup : CanSend w.s) :
    Reacts w (type :: body) (dispatchMessage P w type (type :: body) body slot) := by
  have hpass {w' : World} (hn : type ∉ [30, 5, 50, 90, 98]) (h : Utters [] w w') :
      Reacts w (type :: body) (w', true) := .still hup h List.not_mem_nil (.pass hn _)
  unfold Server.dispatchMessage
  refine .ite (fun _ ↦ ?_) fun _ ↦ .ite (fun ht ↦ ?_) fun _ ↦ .ite (fun ht ↦ ?_) fun _ ↦ ?_
  · have hobs : (itsDisconnect (w.modify fun s ↦ { s with phase := .closed }) .tcp w.s.tcp).obs =
        w.obs ++ [.itsDisconnect .tcp w.s.tcp] := rfl
    exact .ended ⟨.one hobs rfl rfl trivial, rfl⟩
  · exact hpass (by rcases ht with rfl | rfl <;> decide) (.refl w)
  · exact .guarded (ht ▸ .handleKexinit hup)
  refine .ite (fun ht ↦ ?_) fun h₁ ↦ .ite (fun ht ↦ ?_) fun _ ↦ .ite (fun ht ↦ ?_) fun h₂ ↦ ?_
  · exact .guarded (ht ▸ .handleKexEcdhInit body hup)
  · exact .guarded (.goesOn (.same rfl) ⟨nofun, hup.2⟩ (fun hm ↦ absurd hm (by decide))
      (ht ▸ .pass (by decide) _))
  · exact .guarded (ht ▸ .handleServiceRequest body hup)
  refine .ite (fun ht ↦ ?_) fun h₃ ↦ .ite (fun ht ↦ ?_) fun _ ↦ .ite (fun ht ↦ ?_) fun h₄ ↦ ?_
  · exact .guarded (ht ▸ .handleUserauthRequest body hup)
  · exact hpass (ht ▸ by decide) (.handleGlobalRequest w body)
  · exact .guarded (ht ▸ .handleChannelOpen body hup)
  refine .ite (fun ht ↦ ?_) fun h₅ ↦ .ite (fun ht ↦ ?_) fun _ ↦ .ite (fun ht ↦ ?_) fun _ ↦ ?_
  · exact .guarded (ht ▸ .handleChannelRequest body slot hup)
  · exact .guarded (hpass (ht ▸ by decide) (.handleChannelData w body))
  · exact .guarded (hpass (ht ▸ by decide) ((Utters.modify w _ rfl).after (.sessionOnBackendData _)))
  refine .ite (fun ht ↦ ?_) fun _ ↦ .ite (fun ht ↦ ?_) fun _ ↦ ?_
  · exact hpass (ht ▸ by decide) (.refl w)
  · by_cases hc : w.s.chanOpen = false
    · have hsame : Server.handleChannelClose P w = w := if_pos hc
      rw [hsame]
      exact hpass (ht ▸ by decide) (.refl w)
    · exact .ended (.handleChannelClose hc)
  · have hasks : type ∉ [msgKexEcdhInit, msgServiceRequest, msgUserauthRequest, msgChannelOpen,
        msgChannelRequest] := by
      simp only [List.mem_cons, List.not_mem_nil, or_false, not_or]
      exact ⟨h₁, h₂, h₃, h₄, h₅⟩
    exact hpass hasks (.chatter w (t := msgUnimplemented) rfl (by decide))

/-! Any event. -/

theorem dispatchPacket_guarded {slot : ℤ} (h : dispatchPacket P w payload slot = (w', true)) :
    Guarded w.s payload := by
  intro t ht hp
  obtain ⟨body, rfl⟩ : ∃ body, payload = t :: body := List.head?_eq_some_iff.mp hp
  by_contra hn
  have hstop : dispatchMessage P (w.note (.dispatch w.s (t :: body))) t (t :: body) body slot =
      (w.note (.dispatch w.s (t :: body)), false) := by
    simp only [List.mem_cons, List.not_mem_nil, or_false] at ht
    obtain rfl | rfl := ht <;> exact if_pos hn
  exact Bool.false_ne_true (Prod.mk.inj (hstop.symm.trans h)).2

theorem Replies.dispatchPacket {w₁ w₂ : World} {ok : Bool}
    (hp : w.s.phase ≠ .closed ∧ w.s.phase ≠ .version) (hup : CanSend w.s)
    (hw : parsePacket P w = .got payload w₁)
    (hd : dispatchPacket P w₁ payload w₁.s.slot = (w₂, ok)) :
    Replies w (if ok = false ∧ w₂.s.phase ≠ .closed then
      sendDisconnect P w₂ 2 "protocol error" else w₂) := by
  obtain ⟨packet, rest, -, -, -, he⟩ := parsePacket_unpacked hw
  have hup' : CanSend (unpacked w packet payload rest).s := hup
  have hb : (unpacked w packet payload rest).s.backendHandle = w.s.backendHandle := rfl
  have hr : Reacts (unpacked w packet payload rest) payload (w₂, ok) := by
    rw [← hd, ← he]
    cases payload with
    | nil => exact .refused (.same rfl)
    | cons type body => exact .dispatchMessage type body _ (he ▸ hup')
  generalize hw₂ : (w₂, ok) = r at hr
  cases hr with
  | refused h =>
    cases hw₂
    split
    · have hd := Hushed.after h (.sendDisconnect (P := P) w₂ 2 "protocol error")
      exact .packet hp hd.toAnswers (.inl ⟨hd.closed, rfl⟩)
    · rename_i hn
      exact .packet hp h (.inl ⟨not_not.mp fun hc ↦ hn ⟨rfl, hc⟩, rfl⟩)
  | ended h =>
    cases hw₂
    rw [if_neg fun hc ↦ hc.2 h.closed]
    exact .packet hp h.toAnswers (.inl ⟨h.closed, rfl⟩)
  | goesOn h hup hs hr =>
    cases hw₂
    rw [if_neg fun hc ↦ Bool.noConfusion hc.1]
    have hg : Guarded w.s payload := by
      have hn : Guarded w₁.s payload := dispatchPacket_guarded hd
      obtain ⟨_, _, -, rfl⟩ := parsePacket_got P hw
      exact hn
    exact .packet hp h (.inr ⟨hup, hg, hs, hb ▸ hr⟩)

theorem Replies.hello {line rest : Bytes} (hp : w.s.phase = .version) (hup : CanSend w.s) :
    Replies w (Server.greeted P w line rest) := by
  have hset : Utters [] w (w.modify fun s ↦ { s with peerVersion := line, rxBuf := rest }) :=
    .modify w _ rfl
  have hk : Utters [msgKexinit] w (sendOurKexinit P
      (w.modify fun s ↦ { s with peerVersion := line, rxBuf := rest })) := by
    have hhead := buildKexinitPayload_head
      (w.modify fun s ↦ { s with peerVersion := line, rxBuf := rest })
    have hr : Utters [] (w.modify fun s ↦ { s with peerVersion := line, rxBuf := rest })
        (buildKexinitPayload (w.modify fun s ↦ { s with peerVersion := line, rxBuf := rest })).2 :=
      .random _ 16
    unfold sendOurKexinit
    generalize buildKexinitPayload _ = r at hhead hr
    have hm := (hset.after hr).after (.modify _ (fun s ↦ { s with ourKexInit := r.1 }) rfl)
    exact hm.after (.send (hm.canSend hup) hhead (by decide))
  have hdone : Answers [] (sendOurKexinit P
      (w.modify fun s ↦ { s with peerVersion := line, rxBuf := rest }))
      (Server.greeted P w line rest) :=
    .same rfl
  have ht := hk.toAnswers.trans hdone
  rw [List.append_nil] at ht
  exact .greeted hp ht ⟨nofun, (hk.canSend hup).2⟩ hk.backendHandle

/-- A round replies, by moves of the session. -/
theorem receiveRound_replies (hup : w.s.phase ≠ .closed → CanSend w.s)
    (h : receiveRound P w = .ends w' ∨ receiveRound P w = .goesOn w') :
    Replies w w' ∧ ReflTransGen (Move P) w w' := by
  have hbye {v : World} (hv : ReflTransGen (Move P) w v) (code : UInt32) (msg : String) :
      ReflTransGen (Move P) w (sendDisconnect P v code msg) := by
    obtain ⟨v', hq, he⟩ := sendDisconnect_eq P v code msg
    exact he ▸ hv.tail (.hangUp hq)
  by_cases hc : w.s.phase = .closed
  · rw [receiveRound, if_pos hc] at h
    obtain h | h := h <;> cases h
    exact ⟨.utters (.refl w), .refl⟩
  by_cases hp : w.s.phase = .version
  · have hq (line rest : Bytes) :
        Quiet P w (w.modify fun s ↦ { s with peerVersion := line, rxBuf := rest }) :=
      .modify w _ fun _ ↦ rfl
    have hmisfit (line rest : Bytes) (msg : String) : Hushed w (sendDisconnect P
        (w.modify fun s ↦ { s with peerVersion := line, rxBuf := rest }) 2 msg) := by
      have hset : Utters [] w (w.modify fun s ↦ { s with peerVersion := line, rxBuf := rest }) :=
        .modify w _ rfl
      exact .after hset.toAnswers (.sendDisconnect _ 2 msg)
    obtain ⟨line, rest, hl, hv⟩ | ⟨-, hv⟩ := consumeVersion_cases (P := P) w
    · split at hv
      · rw [receiveRound_refused hp hv rfl] at h
        obtain h | h := h <;> cases h
        exact ⟨.hushed (hmisfit line rest _), hbye (.single (.quiet (hq line rest))) 2 _⟩
      split at hv
      · rw [receiveRound_refused hp hv rfl] at h
        obtain h | h := h <;> cases h
        exact ⟨.hushed (hmisfit line rest _), hbye (.single (.quiet (hq line rest))) 2 _⟩
      · rw [receiveRound_greeted hp hv] at h
        obtain h | h := h <;> cases h
        exact ⟨.hello hp (hup hc),
          .single (.versionDone hp ((hq line rest).trans (sendOurKexinit_quiet P _)))⟩
    · split at hv
      · rw [receiveRound_refused hp hv rfl] at h
        obtain h | h := h <;> cases h
        exact ⟨.hushed (.sendDisconnect w _ _), hbye .refl 2 _⟩
      · rw [receiveRound_halfLine hp hv] at h
        obtain h | h := h <;> cases h
  cases hw : parsePacket P w with
  | needMore =>
    rw [receiveRound_needMore ⟨hc, hp⟩ hw] at h
    obtain h | h := h <;> cases h
  | bad =>
    rw [receiveRound_bad ⟨hc, hp⟩ hw] at h
    obtain h | h := h <;> cases h
    exact ⟨.hushed (.sendDisconnect w _ _), hbye .refl 2 _⟩
  | got payload w₁ =>
    rcases hd : dispatchPacket P w₁ payload w₁.s.slot with ⟨w₂, ok⟩
    have ht := Replies.dispatchPacket ⟨hc, hp⟩ (hup hc) hw hd
    have hm : ReflTransGen (Move P) w w₂ := by
      have hmove : Move P w (dispatchPacket P w₁ payload w₁.s.slot).1 := .packet ⟨hc, hp⟩ hw
      rw [hd] at hmove
      exact .single hmove
    rw [receiveRound_got ⟨hc, hp⟩ hw hd] at h
    cases ok with
    | false =>
      obtain h | h := h <;> cases h
      refine ⟨by simpa using ht, ?_⟩
      split
      · exact hbye hm 2 _
      · exact hm
    | true =>
      obtain h | h := h <;> cases h
      exact ⟨by simpa using ht, hm⟩

theorem filled_moves (w : World) : ReflTransGen (Move P) w (filled w) := by
  have hq : Quiet P w { w with tcpIn := [] } := .queues w [] w.backIn
  exact .single (.quiet (hq.trans (.modify _ (fun s ↦ { s with rxBuf := s.rxBuf ++ w.tcpIn }) fun _ ↦ rfl)))

theorem Hushed.sessionClose (w : World) : Hushed w (sessionClose w) := by
  refine ⟨?_, sessionClose_phase w⟩
  obtain ⟨os, hobs, hos, -⟩ := sessionClose_grows w
  refine .grow _ hobs ?_ ?_ fun o ho ↦ ?_
  · refine List.filterMap_eq_nil_iff.mpr fun o ho ↦ ?_
    obtain ⟨_, rfl⟩ | rfl | rfl := hos o ho <;> rfl
  · refine List.filterMap_eq_nil_iff.mpr fun o ho ↦ ?_
    obtain ⟨_, rfl⟩ | rfl | rfl := hos o ho <;> rfl
  · obtain ⟨_, rfl⟩ | rfl | rfl := hos o ho <;> trivial

theorem Answers.farewell (w : World) : Answers [] w (farewell P w) := by
  have hexit (w : World) : Utters [] w (sendExitStatus P w 0) := by
    unfold sendExitStatus
    split
    · exact .refl w
    · refine .chatter w (t := msgChannelRequest) ?_ (by decide)
      simp [exitStatus, putU8, putU32, putCstring, putString_eq]
  have heof (w : World) : Utters [] w (sendChannelEof P w) :=
    .chatter w (t := msgChannelEof) rfl (by decide)
  have hclose (w : World) : Utters [] w (sendChannelClose P w) :=
    .chatter w (t := msgChannelClose) rfl (by decide)
  exact ((Answers.dropBackend w).trans
    (((hexit _).after (heof _)).after (hclose _)).toAnswers).trans (.same rfl)

/-- What is kept whatever the session does, is kept by every event. -/
theorem step_replies {inv : World → Prop} (hup : ∀ w, inv w → w.s.phase ≠ .closed → CanSend w.s)
    (hstep : ∀ w w', inv w → Replies w w' → ReflTransGen (Move P) w w' → inv w') {w : World}
    (h : inv w) (i : ℤ) (e : Event) : inv (step P i w e) := by
  have hclose {w : World} (h : inv w) : inv (sessionClose w) :=
    hstep _ _ h (.hushed (.sessionClose w)) (sessionClose_moves P w)
  have hdrain {w : World} (h : inv w) : inv (sessionOnBackendData P w) :=
    hstep _ _ h (.utters (.sessionOnBackendData w)) (.single (.quiet (sessionOnBackendData_quiet P w)))
  have harrive (tcpIn : Bytes) (backIn : ℤ → Bytes) : inv { w with tcpIn := tcpIn, backIn := backIn } :=
    hstep _ _ h (.utters ⟨.same rfl, rfl⟩) (.single (.quiet (.queues w tcpIn backIn)))
  cases e with
  | tcpArrive data => exact harrive _ _
  | backendArrive handle data => exact harrive _ _
  | tcpRecv =>
    change inv (onTcpRecv P i w)
    obtain hw | ⟨n, hw⟩ := onTcpRecv_rounds (P := P) w i
    · rwa [hw]
    have hfilled : inv (filled w) := hstep _ _ h (.utters ⟨.same rfl, rfl⟩) (filled_moves w)
    have hkept := rounds_rule (P := P) (fun w w' hw hr ↦ by
      obtain ⟨hrep, hmoves⟩ := receiveRound_replies (hup w hw) hr
      exact hstep w w' hw hrep hmoves) hfilled n
    rw [hw]
    split
    · exact hclose hkept
    · exact hkept
  | tcpDisconnect =>
    change inv (onTcpDisconnect i w)
    unfold onTcpDisconnect
    split
    · exact h
    · exact hclose h
  | backendRecv =>
    change inv (onBackendRecvCb P i w)
    unfold onBackendRecvCb
    split
    · exact h
    · exact hdrain h
  | backendDisconnect =>
    change inv (onBackendDisconnectCb P i w)
    unfold onBackendDisconnectCb
    split
    · exact h
    unfold sessionOnBackendClose
    split
    · exact h
    · have hd := Utters.sessionOnBackendData (P := P) w
      have hmoves : ReflTransGen (Move P) w (sessionOnBackendData P w) :=
        .single (.quiet (sessionOnBackendData_quiet P w))
      exact hstep _ _ h (.hushed (.after (hd.toAnswers.trans (.farewell _)) (.sessionClose _)))
        ((hmoves.trans (farewell_moves P _)).trans (sessionClose_moves P _))
  | reset =>
    change inv (cmdSshdReset i w)
    unfold cmdSshdReset
    split
    · exact h
    · exact hclose h

end

end Sshd.Server
