import Sshd.Opening
import Sshd.Server.OutputDelivery
import Sshd.Server.Traffic

namespace Sshd.Server

open Lib.Octets Lib.Trace Wire Crypto Framing

variable (P : Primitives)

/-- The packets opened. -/
def openings (obs : List Obs) : List Opening :=
  obs.filterMap fun o ↦ match o with
    | .opened enc key seq packet payload => some ⟨enc, key, seq, packet, payload⟩
    | _ => none

/-- What was sent is in order. -/
def Outgoing (w : World) : Prop := Sends (frames w.obs) w.s.encOutbound w.s.seqOut

/-- `w'` comes from `w` without reading anything from the client. -/
structure Deaf (w w' : World) : Prop where
  tcpIn : w'.tcpIn = w.tcpIn
  seqIn : w'.s.seqIn = w.s.seqIn
  rxBuf : w'.s.rxBuf = w.s.rxBuf
  decrypts : w.s.encInbound = true → w'.s.encInbound = true
  openings : openings w'.obs = openings w.obs
  sends : Outgoing w → Outgoing w'
  env : w'.env = w.env
  grows : w.obs <+: w'.obs

/-- The counters, the ciphers in use and what waits to be read. -/
structure Counters where
  rxBuf : Bytes
  seqIn : ℕ
  seqOut : ℕ
  encInbound : Bool
  encOutbound : Bool

def Session.counters (s : Session) : Counters := { s with }

/-- The fields that are kept from the version lines and the exchange on. -/
structure Kex where
  peerVersion : Bytes
  ourVersion : Bytes
  kexAlg : KexAlg
  peerKexInit : Bytes
  ourKexInit : Bytes
  sessionId : Bytes
  haveSessionId : Bool
  c2sKey : Bytes
  s2cKey : Bytes
  encInbound : Bool
  encOutbound : Bool

def Session.kex (s : Session) : Kex := { s with }

/-- Messages that do not belong to an exchange. -/
def Aloof (payload : Bytes) : Prop :=
  ∃ t, payload.head? = some t ∧ t ∉ [msgKexinit, msgNewkeys, msgKexEcdhReply]

/-- No payload is longer; the longest ones repeat a key out of a request. -/
def longest : ℕ := 34984

/-- Messages that neither belong to an exchange nor report a framing error. -/
def Casual (payload : Bytes) : Prop :=
  Aloof payload ∧ payload ≠ disconnect 2 "framing error" ∧ payload.length ≤ longest

/-- Outside of an exchange a session logs in or ends. -/
def PhaseStep (s s' : Session) : Prop :=
  (s'.phase, s'.tcp) = (s.phase, s.tcp) ∨ s'.phase = .closed ∨
    s.phase = .auth ∧ (s'.phase, s'.tcp) = (.run, s.tcp)

/-- From `w` to `w'` only casual messages are sent, and none once it is closed. -/
def Talks (w w' : World) : Prop :=
  ∃ fs, frames w'.obs = frames w.obs ++ fs ∧ (w.s.phase = .closed → fs = []) ∧
    ∀ f ∈ fs, Casual f.payload ∧ f.enc = w.s.encOutbound ∧ f.key = w.s.s2cKey

/-- `w'` comes from `w` outside of an exchange. -/
structure Chats (w w' : World) : Prop extends Deaf w w' where
  kex : w'.s.kex = w.s.kex
  phase : PhaseStep w.s w'.s
  talk : Talks w w'

theorem openings_append (obs os : List Obs) : openings (obs ++ os) = openings obs ++ openings os :=
  List.filterMap_append

section
variable {w w₁ w' : World}

theorem Deaf.refl (w : World) : Deaf w w := ⟨rfl, rfl, rfl, id, rfl, id, rfl, List.prefix_rfl⟩

theorem Deaf.trans (h : Deaf w w₁) (h' : Deaf w₁ w') : Deaf w w' :=
  ⟨h'.tcpIn.trans h.tcpIn, h'.seqIn.trans h.seqIn, h'.rxBuf.trans h.rxBuf,
    h'.decrypts ∘ h.decrypts, h'.openings.trans h.openings, h'.sends ∘ h.sends,
    h'.env.trans h.env, h.grows.trans h'.grows⟩

/-- Nothing of what is recorded is a packet. -/
theorem Deaf.grow {os : List Obs} (hi : w'.tcpIn = w.tcpIn) (hc : w'.s.counters = w.s.counters)
    (hobs : w'.obs = w.obs ++ os) (ho : Server.openings os = []) (hf : frames os = [])
    (he : w'.env = w.env) : Deaf w w' := by
  refine ⟨hi, congrArg Counters.seqIn hc, congrArg Counters.rxBuf hc,
    (congrArg Counters.encInbound hc).trans, ?_, fun h ↦ ?_, he, ⟨os, hobs.symm⟩⟩
  · rw [hobs, openings_append, ho, List.append_nil]
  · have henc : w'.s.encOutbound = w.s.encOutbound := congrArg Counters.encOutbound hc
    have hseq : w'.s.seqOut = w.s.seqOut := congrArg Counters.seqOut hc
    rw [Outgoing, hobs, frames_append, hf, List.append_nil, henc, hseq]
    exact h

theorem Deaf.note (w : World) {o : Obs} (ho : Server.openings [o] = []) (hf : frames [o] = []) :
    Deaf w (w.note o) := .grow rfl rfl rfl ho hf rfl

theorem Deaf.same (hi : w'.tcpIn = w.tcpIn) (hc : w'.s.counters = w.s.counters)
    (hobs : w'.obs = w.obs) (he : w'.env = w.env) : Deaf w w' :=
  .grow hi hc (hobs.trans (List.append_nil _).symm) rfl rfl he

theorem Deaf.modify (w : World) (f : Session → Session) (hf : (f w.s).counters = w.s.counters) :
    Deaf w (w.modify f) := .same rfl hf rfl rfl

theorem Deaf.encrypt (w : World) : Deaf w (w.modify fun s ↦ { s with encOutbound := true }) :=
  ⟨rfl, rfl, rfl, id, rfl, fun h ↦ Sends.onward h fun _ ↦ rfl, rfl, List.prefix_rfl⟩

theorem Deaf.decrypt (w : World) : Deaf w (w.modify fun s ↦ { s with encInbound := true }) :=
  ⟨rfl, rfl, rfl, fun _ ↦ rfl, rfl, id, rfl, List.prefix_rfl⟩

end

/-! Packets. -/

theorem Deaf.send (w : World) (payload : Bytes) : Deaf w (sendPacket P w payload) := by
  refine ⟨sendPacket_tcpIn P w payload, ?_, ?_, fun he ↦ ?_, ?_, fun h ↦ ?_,
    sendPacket_env P w payload, ⟨_, (sendPacket_obs P w payload).symm⟩⟩
  · rw [sendPacket_s]
  · rw [sendPacket_s]
  · rw [sendPacket_s]
    exact he
  · have hnone : Server.openings (sendObs P w payload) = [] := by
      unfold sendObs
      split
      · rfl
      · rfl
    rw [sendPacket_obs, openings_append, hnone, List.append_nil]
  · by_cases hc : w.s.phase = .closed ∨ w.s.tcp < 0
    · rw [sendPacket_closed P w payload hc]
      exact h
    · have hobs : frames (sendPacket P w payload).obs = frames w.obs ++ [sendFrame w payload] := by
        rw [sendPacket_obs, frames_append, sendObs, if_neg hc]
        rfl
      rw [Outgoing, hobs, sendPacket_s, if_neg hc]
      exact Sends.send h _ (randomBytes_length w _)

theorem Deaf.sendDisconnect (w : World) (code : UInt32) (msg : String) :
    Deaf w (sendDisconnect P w code msg) := by
  exact .trans (.trans (.send P w _) (.modify _ _ rfl)) (.note _ rfl rfl)

/-! Outside of an exchange. -/

theorem PhaseStep.trans {s s₁ s' : Session} (h : PhaseStep s s₁) (h' : PhaseStep s₁ s') :
    PhaseStep s s' := by
  rcases h' with he | hc | ⟨hp, he⟩
  · obtain ⟨hphase, htcp⟩ := Prod.mk.inj he
    rw [PhaseStep, hphase, htcp]
    exact h
  · exact .inr (.inl hc)
  · rcases h with he' | hc | ⟨-, he'⟩
    · obtain ⟨hphase, htcp⟩ := Prod.mk.inj he'
      exact .inr (.inr ⟨hphase ▸ hp, htcp ▸ he⟩)
    · cases hp.symm.trans hc
    · cases hp.symm.trans (Prod.mk.inj he').1

theorem PhaseStep.closed {s s' : Session} (h : PhaseStep s s') (hc : s.phase = .closed) :
    s'.phase = .closed := by
  rcases h with he | he | ⟨hp, -⟩
  · exact (Prod.mk.inj he).1.trans hc
  · exact he
  · cases hp.symm.trans hc

theorem casual_of_head {payload : Bytes} {t : UInt8} (hp : payload.head? = some t)
    (hl : payload.length.ble longest = true)
    (ht : t ∉ [msgDisconnect, msgKexinit, msgNewkeys, msgKexEcdhReply]) : Casual payload := by
  rw [List.mem_cons, not_or] at ht
  refine ⟨⟨t, hp, ht.2⟩, fun he ↦ ?_, Nat.le_of_ble_eq_true hl⟩
  rw [he] at hp
  exact ht.1 (Option.some.inj hp).symm

theorem casual_disconnect {code : UInt32} {msg : String}
    (h : disconnect code msg ≠ disconnect 2 "framing error" ∧
      (disconnect code msg).length ≤ longest) : Casual (disconnect code msg) :=
  ⟨⟨msgDisconnect, rfl, by decide⟩, h⟩

section
variable {w w₁ w' : World}

theorem Chats.refl (w : World) : Chats w w :=
  ⟨.refl w, rfl, .inl rfl, [], (List.append_nil _).symm, by simp, by simp⟩

theorem Chats.trans (h : Chats w w₁) (h' : Chats w₁ w') : Chats w w' := by
  obtain ⟨fs, hfs, hn, ht⟩ := h.talk
  obtain ⟨fs', hfs', hn', ht'⟩ := h'.talk
  have henc : w₁.s.encOutbound = w.s.encOutbound := congrArg Kex.encOutbound h.kex
  have hkey : w₁.s.s2cKey = w.s.s2cKey := congrArg Kex.s2cKey h.kex
  refine ⟨h.toDeaf.trans h'.toDeaf, h'.kex.trans h.kex, h.phase.trans h'.phase, fs ++ fs', ?_, ?_, ?_⟩
  · rw [hfs', hfs, List.append_assoc]
  · intro hc
    rw [hn hc, hn' (h.phase.closed hc), List.append_nil]
  · intro f hf
    rcases List.mem_append.mp hf with hf | hf
    · exact ht f hf
    · rw [← henc, ← hkey]
      exact ht' f hf

theorem Chats.grow {os : List Obs} (hi : w'.tcpIn = w.tcpIn) (hc : w'.s.counters = w.s.counters)
    (hk : w'.s.kex = w.s.kex) (hp : PhaseStep w.s w'.s) (hobs : w'.obs = w.obs ++ os)
    (ho : Server.openings os = []) (hf : frames os = []) (he : w'.env = w.env) :
    Chats w w' := by
  refine ⟨.grow hi hc hobs ho hf he, hk, hp, [], ?_, by simp, by simp⟩
  rw [hobs, frames_append, hf]

theorem Chats.note (w : World) {o : Obs} (ho : Server.openings [o] = []) (hf : frames [o] = []) :
    Chats w (w.note o) := .grow rfl rfl rfl (.inl rfl) rfl ho hf rfl

theorem Chats.same (hi : w'.tcpIn = w.tcpIn) (hc : w'.s.counters = w.s.counters)
    (hk : w'.s.kex = w.s.kex) (hp : PhaseStep w.s w'.s) (hobs : w'.obs = w.obs)
    (he : w'.env = w.env) : Chats w w' :=
  .grow hi hc hk hp (hobs.trans (List.append_nil _).symm) rfl rfl he

theorem Chats.modify (w : World) (f : Session → Session) (hc : (f w.s).counters = w.s.counters)
    (hk : (f w.s).kex = w.s.kex) (hp : ((f w.s).phase, (f w.s).tcp) = (w.s.phase, w.s.tcp)) :
    Chats w (w.modify f) :=
  .same rfl hc hk (.inl hp) rfl rfl

theorem Chats.random (w : World) (n : ℕ) : Chats w (randomBytes w n).2 := .note w rfl rfl

theorem Chats.itsSend (w : World) (link : Link) (handle : ℤ) (data : Bytes) :
    Chats w (itsSend w link handle data).2 := .note w rfl rfl

theorem Chats.itsRecv (w : World) (handle : ℤ) (want : ℕ) : Chats w (itsRecv w handle want).2 := by
  have hobs : (Server.itsRecv w handle want).2.obs =
      w.obs ++ [.itsRecv handle (Server.itsRecv w handle want).1] := rfl
  exact .grow rfl rfl rfl (.inl rfl) hobs rfl rfl rfl

theorem Chats.connectBackend (w : World) (b : Backend) (ref : ℤ) :
    Chats w (connectBackend w b ref) := by
  have hobs : (Server.connectBackend w b ref).obs =
      w.obs ++ [.itsConnect w.s b ref (w.env.itsConnect w.obs b)] := rfl
  exact .grow rfl rfl rfl (.inl rfl) hobs rfl rfl rfl

theorem Chats.ite {c : Prop} [Decidable c] {r r' : World × Bool} (h : Chats w r.1)
    (h' : Chats w r'.1) : Chats w (if c then r else r').1 := by
  split
  · exact h
  · exact h'

end

theorem Chats.send (w : World) {payload : Bytes} (h : Casual payload) :
    Chats w (sendPacket P w payload) := by
  refine ⟨.send P w payload, ?_, .inl ?_, ?_⟩
  · rw [sendPacket_s]
    rfl
  · rw [sendPacket_s]
  · by_cases hc : w.s.phase = .closed ∨ w.s.tcp < 0
    · rw [sendPacket_closed P w payload hc]
      exact ⟨[], (List.append_nil _).symm, by simp, by simp⟩
    · refine ⟨[sendFrame w payload], ?_, fun hp ↦ absurd (.inl hp) hc, ?_⟩
      · rw [sendPacket_obs, frames_append, sendObs, if_neg hc]
        rfl
      · intro f hf
        rw [List.mem_singleton.mp hf]
        exact ⟨h, rfl, rfl⟩

theorem Chats.sendRawTcp (w : World) (data : Bytes) : Chats w (sendRawTcp w data) := by
  unfold Server.sendRawTcp
  split
  · exact .refl w
  · exact .itsSend w _ _ _

theorem Chats.sendDisconnect (w : World) {code : UInt32} {msg : String}
    (h : disconnect code msg ≠ disconnect 2 "framing error" ∧
      (disconnect code msg).length ≤ longest) :
    Chats w (sendDisconnect P w code msg) := by
  have hs := Chats.send P w (casual_disconnect h)
  have hclosed : Chats (sendPacket P w (disconnect code msg))
      ((sendPacket P w (disconnect code msg)).modify fun s ↦ { s with phase := .closed }) :=
    .same rfl rfl rfl (.inr (.inl rfl)) rfl rfl
  exact (hs.trans hclosed).trans (.note _ rfl rfl)

/-! The exchange. -/

theorem Deaf.sendOurKexinit (w : World) : Deaf w (sendOurKexinit P w) := by
  have hr : Deaf w (buildKexinitPayload w).2 := (Chats.random w 16).toDeaf
  unfold Server.sendOurKexinit
  generalize buildKexinitPayload w = r at hr ⊢
  exact (hr.trans (.modify _ (fun s ↦ { s with ourKexInit := r.1 }) rfl)).trans (.send P _ _)

theorem Chats.kexCompute (w : World) : Chats w (kexCompute P w).1 :=
  kexCompute_induct P .refl .trans .random (fun w _ _ _ _ ↦ .modify w _ rfl rfl rfl) w

theorem Chats.storeClientBlob {w w₁ : World} {blob : Bytes}
    (h : storeClientBlob w blob = .inl w₁) : Chats w w₁ := by
  unfold Server.storeClientBlob at h
  split at h
  · split at h
    · cases h
    · cases h
      exact .modify w _ rfl rfl rfl
  · split at h
    · cases h
    · cases h
      exact .modify w _ rfl rfl rfl

theorem Deaf.adoptHash (w : World) (hash : Bytes) : Deaf w (adoptHash w hash) := by
  refine .grow ?_ ?_ (adoptHash_obs w hash) rfl rfl (adoptHash_env w hash)
  · simp only [Server.adoptHash]
    split <;> rfl
  · rw [adoptHash_s]
    rfl

theorem Deaf.switchOutbound (w : World) : Deaf w (switchOutbound P w) := by
  have hk : Deaf w (deriveSessionKeys P w) :=
    .trans (.note w (o := .deriveKeys w.s.sessionId) rfl rfl) (.same rfl rfl rfl rfl)
  exact (hk.trans (.encrypt _)).trans (.same rfl rfl rfl rfl)

theorem Deaf.sendKexEcdhReply (w : World) : Deaf w (sendKexEcdhReply P w).1 := by
  unfold Server.sendKexEcdhReply
  split
  · exact .refl w
  rename_i seed hostPub _
  have hk := (Chats.kexCompute P w).toDeaf
  split
  · rename_i w₁ hw₁
    rw [hw₁] at hk
    exact hk
  rename_i w₁ hw₁
  rw [hw₁] at hk
  simp only [ed25519Sign]
  exact (hk.trans (.adoptHash w₁ _)).trans (.send P (Server.adoptHash w₁ _) _)

theorem Deaf.handleKexEcdhInit (w : World) (body : Bytes) :
    Deaf w (handleKexEcdhInit P w body).1 := by
  unfold Server.handleKexEcdhInit
  split
  · exact .sendDisconnect P w _ _
  split
  · exact .sendDisconnect P w _ _
  rename_i w₁ hw₁
  have hreply := (Chats.storeClientBlob hw₁).toDeaf.trans (.sendKexEcdhReply P w₁)
  split
  · rename_i w₂ hw₂
    rw [hw₂] at hreply
    exact hreply.trans (.sendDisconnect P w₂ _ _)
  · rename_i w₂ hw₂
    rw [hw₂] at hreply
    exact (hreply.trans (.send P w₂ _)).trans (.switchOutbound P _)

/-! Authentication. -/

theorem Chats.sendUserauthFailure (w : World) (partialSuccess : Bool) :
    Chats w (sendUserauthFailure P w partialSuccess) := .send P w (casual_of_head rfl rfl (by decide))

theorem Chats.sendUserauthSuccess (w : World) (hp : w.s.phase = .auth) :
    Chats w (sendUserauthSuccess P w) := by
  have ho : Casual (putU8 [] msgUserauthSuccess) := casual_of_head rfl rfl (by decide)
  refine (Chats.send P w ho).trans (.same rfl rfl rfl (.inr (.inr ⟨?_, rfl⟩)) rfl rfl)
  rw [sendPacket_s]
  exact hp

theorem Chats.handleServiceRequest (w : World) (body : Bytes) :
    Chats w (handleServiceRequest P w body).1 := by
  unfold Server.handleServiceRequest
  split
  · exact .sendDisconnect P w (by decide)
  split
  · exact .sendDisconnect P w (by decide)
  · rename_i hname
    rw [not_not.mp hname]
    exact .send P w (casual_of_head rfl rfl (by decide))

theorem Chats.userauthSignature (w : World) (hp : w.s.phase = .auth) (v : View)
    (user svc pkBlob pub : Bytes) :
    Chats w (userauthSignature P w v user svc pkBlob pub).1 := by
  unfold Server.userauthSignature
  split
  · exact .sendDisconnect P w (by decide)
  split
  · exact .sendUserauthFailure P w _
  simp only [verifySignature]
  split
  · rename_i w₁ hw₁
    obtain ⟨-, rfl⟩ := Prod.mk.injEq .. ▸ hw₁
    exact .trans (.note w rfl rfl) (.sendUserauthFailure P _ _)
  · rename_i w₁ hw₁
    obtain ⟨-, rfl⟩ := Prod.mk.injEq .. ▸ hw₁
    exact .trans (.note w rfl rfl) (.sendUserauthSuccess P _ hp)

/-- The key that is repeated is shorter than its request. -/
theorem casual_pkOk {pkBlob : Bytes} (h : pkBlob.length + 20 ≤ longest) :
    Casual (putString (putString (putU8 [] msgUserauthPkOk) (ascii "ssh-ed25519")) pkBlob) := by
  have halg : (ascii "ssh-ed25519").length = 11 := by decide
  refine casual_of_head rfl (Nat.ble_eq_true_of_le ?_) (by decide)
  simp only [putU8, putString_eq, List.nil_append, List.length_append, List.length_cons,
    List.length_nil, lenPrefixed_length]
  omega

theorem Chats.userauthPublickey (w : World) (hp : w.s.phase = .auth) {v : View} (hv : v.Ok)
    (hl : v.rest.length < longest) (user svc : Bytes) :
    Chats w (userauthPublickey P w v user svc).1 := by
  have hv' := getU8_ok hv
  have hl' := (getU8_rest_length hv).trans_lt hl
  unfold Server.userauthPublickey
  generalize getU8 v = r at hv' hl'
  simp only
  split
  · exact .sendDisconnect P w (by decide)
  rename_i alg _ hg
  obtain ⟨hok, halg⟩ := getString_length hv' hg
  split
  · exact .sendDisconnect P w (by decide)
  rename_i pkBlob _ hg'
  obtain ⟨-, hblob⟩ := getString_length hok hg'
  split
  · exact .sendUserauthFailure P w _
  rename_i hname
  obtain rfl := not_not.mp hname
  have hlen : (ascii "ssh-ed25519").length = 11 := by decide
  split
  · exact .sendUserauthFailure P w _
  simp only [authorizedPub]
  split
  · rename_i w₁ hw₁
    obtain ⟨-, rfl⟩ := Prod.mk.injEq .. ▸ hw₁
    exact .trans (.note w rfl rfl) (.sendUserauthFailure P _ _)
  · rename_i w₁ hw₁
    obtain ⟨-, rfl⟩ := Prod.mk.injEq .. ▸ hw₁
    exact .trans (.note w rfl rfl) (.ite (.send P _ (casual_pkOk (by omega)))
      (.userauthSignature P _ (by exact hp) _ _ _ _ _))

theorem Chats.userauthPassword (w : World) (hp : w.s.phase = .auth) (v : View) :
    Chats w (userauthPassword P w v).1 := by
  unfold Server.userauthPassword
  simp only
  split
  · exact .sendUserauthFailure P w _
  split
  · exact .sendDisconnect P w (by decide)
  simp only [authLogin]
  split
  · rename_i w₁ hw₁
    obtain ⟨-, rfl⟩ := Prod.mk.injEq .. ▸ hw₁
    exact .trans (.note w rfl rfl) (.sendUserauthSuccess P _ hp)
  · rename_i w₁ hw₁
    obtain ⟨-, rfl⟩ := Prod.mk.injEq .. ▸ hw₁
    exact .trans (.note w rfl rfl) (.sendUserauthFailure P _ _)

theorem Chats.handleUserauthRequest (w : World) (hp : w.s.phase = .auth) {body : Bytes}
    (hb : body.length < 35000) : Chats w (handleUserauthRequest P w body).1 := by
  have hbody := congrArg List.length (rest_viewInit_append body)
  rw [List.length_append] at hbody
  unfold Server.handleUserauthRequest
  split
  · exact .sendDisconnect P w (by decide)
  rename_i user _ hg
  obtain ⟨hok, hlen⟩ := getString_length (viewInit_ok body) hg
  split
  · exact .sendDisconnect P w (by decide)
  rename_i svc _ hg
  obtain ⟨hok, hlen'⟩ := getString_length hok hg
  split
  · exact .sendDisconnect P w (by decide)
  rename_i method v hg
  obtain ⟨hok, hlen''⟩ := getString_length hok hg
  refine .trans (.modify w (fun s ↦ { s with user := user }) rfl rfl rfl) ?_
  simp only
  split
  · rename_i hm
    have hmethod : method.length = 9 := by
      rw [hm]
      decide
    have hl : v.rest.length < longest := by
      unfold longest
      omega
    exact .userauthPublickey P _ (by exact hp) hok hl _ _
  · exact .ite (.userauthPassword P _ (by exact hp) _) (.sendUserauthFailure P _ _)

/-! The channel. -/

theorem Chats.dropBackend (w : World) : Chats w (dropBackend w) := by
  unfold Server.dropBackend
  split
  · exact .trans (.note w rfl rfl) (.modify _ _ rfl rfl rfl)
  · exact .refl w

theorem Chats.replyIf (w : World) (want : UInt8) (ok : Bool) : Chats w (replyIf P w want ok) := by
  have ho : Casual (channelRequestReply w.s ok) := by
    cases ok <;> exact casual_of_head rfl rfl (by decide)
  unfold Server.replyIf
  split
  · exact .send P w ho
  · exact .refl w

theorem Chats.replenish (w : World) (written : ℕ) : Chats w (replenish P w written) := by
  by_cases h : 0 < written ∧ usedWindow w.s written < localWindowMax / 2
  · rw [replenish_adjust P h]
    exact .trans (.modify w _ rfl rfl rfl) (.send P _ (casual_of_head rfl rfl (by decide)))
  · rw [replenish_none P h]
    exact .modify w _ rfl rfl rfl

theorem casual_data (s : Session) {data : Bytes} (h : data.length ≤ 1024) :
    Casual (channelData s data) := by
  have hhead : (channelData s data).head? = some msgChannelData := by
    rw [channelData, putString_eq]
    rfl
  refine casual_of_head hhead (Nat.ble_eq_true_of_le ?_) (by decide)
  simp only [channelData, putU8, putU32, putString_eq, List.nil_append, List.length_append,
    List.length_cons, List.length_nil, lenPrefixed_length, be32_length, longest]
  omega

theorem itsRecv_length (w : World) (handle : ℤ) (want : ℕ) :
    (itsRecv w handle want).1.length ≤ want := by
  change ((w.backIn handle).take (min (max 1 (w.env.itsRecv w.obs handle want))
    (min want (w.backIn handle).length))).length ≤ want
  rw [List.length_take]
  omega

theorem drainWant_le (s : Session) : drainWant s ≤ 1024 := by
  simp only [drainWant]
  split <;> split <;> omega

theorem Chats.drainLoop (fuel : ℕ) (w : World) : Chats w (drainLoop P fuel w) := by
  induction fuel generalizing w with
  | zero => exact .refl w
  | succ fuel ih =>
    unfold Server.drainLoop
    split
    swap
    · exact .refl w
    simp only
    split
    · exact .itsRecv w _ _
    · refine .trans (.trans (.itsRecv w _ _) (.send P _ (casual_data _ ?_)))
        (.trans (.modify _ _ rfl rfl rfl) (ih _))
      exact (itsRecv_length w _ _).trans (drainWant_le w.s)

theorem Chats.sessionOnBackendData (w : World) : Chats w (sessionOnBackendData P w) := by
  unfold Server.sessionOnBackendData
  split
  · exact .refl w
  · exact .drainLoop P _ w

theorem Chats.openBackendWithMode (w : World) (slot : ℤ) (mode : CliMode) :
    Chats w (openBackendWithMode w slot mode).1 := by
  cases hb : backendFor w mode with
  | none =>
    unfold Server.openBackendWithMode
    rw [hb]
    exact .refl w
  | some b =>
    rw [openBackendWithMode_eq slot hb]
    exact .connectBackend w b slot

theorem Chats.requestBackend (w : World) (want : UInt8) (kind : ChanKind) (slot : ℤ) :
    Chats w (requestBackend P w want kind slot).1 := by
  have hb := (Chats.modify w (fun s ↦ { s with chanKind := kind }) rfl rfl rfl).trans
    (.openBackendWithMode _ slot .ansi)
  unfold Server.requestBackend
  simp only [openBackend]
  split
  · rename_i w₁ hw₁
    rw [hw₁] at hb
    exact hb.trans (.replyIf P _ _ _)
  · rename_i w₁ hw₁
    rw [hw₁] at hb
    exact hb.trans (.replyIf P _ _ _)

theorem Chats.requestExec (w : World) (v : View) (want : UInt8) (slot : ℤ) :
    Chats w (requestExec P w v want slot).1 := by
  have hb := (Chats.modify w (fun s ↦ { s with chanKind := .cli }) rfl rfl rfl).trans
    (.openBackendWithMode _ slot .line)
  unfold Server.requestExec
  split
  · exact .replyIf P w _ _
  split
  · exact .replyIf P w _ _
  simp only [openBackendLine]
  split
  · rename_i w₁ hw₁
    rw [hw₁] at hb
    exact hb.trans (.replyIf P _ _ _)
  · rename_i w₁ hw₁
    rw [hw₁] at hb
    exact (hb.trans (.replyIf P _ _ _)).trans (.itsSend _ _ _ _)

theorem Chats.requestSubsystem (w : World) (v : View) (want : UInt8) (slot : ℤ) :
    Chats w (requestSubsystem P w v want slot).1 := by
  unfold Server.requestSubsystem
  split
  · exact .replyIf P w _ _
  · exact .ite (.requestBackend P w _ _ _) (.replyIf P w _ _)

theorem Chats.handleChannelRequest (w : World) (body : Bytes) (slot : ℤ) :
    Chats w (handleChannelRequest P w body slot).1 := by
  unfold Server.handleChannelRequest
  simp only
  split
  · exact .refl w
  refine .ite (.replyIf P w _ _) (.ite (.requestBackend P w _ _ _) ?_)
  exact .ite (.requestExec P w _ _ _)
    (.ite (.requestSubsystem P w _ _ _) (.ite (.replyIf P w _ _) (.replyIf P w _ _)))

theorem Chats.handleChannelOpen (w : World) (body : Bytes) :
    Chats w (handleChannelOpen P w body).1 := by
  unfold Server.handleChannelOpen
  split
  · exact .refl w
  refine .ite (.refl w) (.ite (.send P w (casual_of_head rfl rfl (by decide)))
    (.ite (.send P w (casual_of_head rfl rfl (by decide))) ?_))
  exact .trans (.modify w _ rfl rfl rfl) (.send P _ (casual_of_head rfl rfl (by decide)))

theorem Chats.handleChannelData (w : World) (body : Bytes) : Chats w (handleChannelData P w body) := by
  unfold Server.handleChannelData
  simp only
  split
  · exact .refl w
  split
  · exact .refl w
  · exact .trans (.itsSend w _ _ _) (.replenish P _ _)

theorem Chats.handleChannelClose (w : World) : Chats w (handleChannelClose P w) := by
  unfold Server.handleChannelClose
  split
  · exact .refl w
  · exact .trans (.dropBackend w) (.trans (.send P _ (casual_of_head rfl rfl (by decide)))
      (.trans (.modify _ _ rfl rfl rfl) (.same rfl rfl rfl (.inr (.inl rfl)) rfl rfl)))

theorem Chats.handleGlobalRequest (w : World) (body : Bytes) :
    Chats w (handleGlobalRequest P w body) := by
  unfold Server.handleGlobalRequest
  split
  · exact .refl w
  split
  · exact .send P w (casual_of_head rfl rfl (by decide))
  · exact .refl w

/-- A message that belongs to no exchange. -/
theorem Chats.dispatchMessage (w : World) {type : UInt8}
    (ht : type ∉ [msgKexinit, msgKexEcdhInit, msgNewkeys]) (payload : Bytes) {body : Bytes}
    (hb : body.length < 35000) (slot : ℤ) :
    Chats w (dispatchMessage P w type payload body slot).1 := by
  simp only [List.mem_cons, List.not_mem_nil, or_false, not_or] at ht
  unfold Server.dispatchMessage
  rw [if_neg ht.1, if_neg ht.2.1, if_neg ht.2.2]
  have hclosed : Chats w (w.modify fun s ↦ { s with phase := .closed }) :=
    .same rfl rfl rfl (.inr (.inl rfl)) rfl rfl
  refine .ite (hclosed.trans (.note _ rfl rfl)) (.ite (.refl w) ?_)
  refine .ite (.ite (.refl w) (.handleServiceRequest P w body)) ?_
  refine .ite ?_ ?_
  · split
    · exact .refl w
    · rename_i hp
      exact .handleUserauthRequest P w (not_not.mp hp) hb
  refine .ite (.handleGlobalRequest P w body) ?_
  refine .ite (.ite (.refl w) (.handleChannelOpen P w body)) ?_
  refine .ite (.ite (.refl w) (.handleChannelRequest P w body slot)) ?_
  refine .ite (.ite (.refl w) (.handleChannelData P w body)) ?_
  refine .ite (.ite (.refl w) (.trans (.modify w _ rfl rfl rfl) (.sessionOnBackendData P _))) ?_
  refine .ite (.refl w) (.ite (.handleChannelClose P w) ?_)
  exact .send P w (casual_of_head rfl rfl (by decide))

/-! Messages of an exchange. -/

section
variable (w : World) (payload body : Bytes) (slot : ℤ)

theorem dispatchMessage_kexinit :
    dispatchMessage P w msgKexinit payload body slot =
      if w.s.phase ≠ .kexWaitKexinit ∧ w.s.phase ≠ .run then (w, false)
      else (handleKexinit P w payload, true) := rfl

theorem dispatchMessage_kexEcdhInit :
    dispatchMessage P w msgKexEcdhInit payload body slot =
      if w.s.phase ≠ .kexWaitEcdh then (w, false) else handleKexEcdhInit P w body := rfl

theorem dispatchMessage_newkeys :
    dispatchMessage P w msgNewkeys payload body slot =
      if w.s.phase ≠ .kexWaitNewkeys then (w, false) else (handleNewkeys w, true) := rfl

end

theorem Deaf.handleKexinit (w : World) (payload : Bytes) : Deaf w (handleKexinit P w payload) := by
  have hw : Deaf w (w.modify fun s ↦ { s with peerKexInit := payload }) := .modify w _ rfl
  unfold Server.handleKexinit
  simp only
  split
  · exact hw.trans (.sendDisconnect P _ _ _)
  · exact hw.trans (.same rfl rfl rfl rfl)

/-- A message is dealt with without reading on. -/
theorem Deaf.dispatchMessage (w : World) (type : UInt8) (payload : Bytes) {body : Bytes}
    (hb : body.length < 35000) (slot : ℤ) :
    Deaf w (dispatchMessage P w type payload body slot).1 := by
  by_cases ht : type ∈ [msgKexinit, msgKexEcdhInit, msgNewkeys]
  swap
  · exact (Chats.dispatchMessage P w ht payload hb slot).toDeaf
  simp only [List.mem_cons, List.not_mem_nil, or_false] at ht
  obtain rfl | rfl | rfl := ht
  · rw [dispatchMessage_kexinit]
    split
    · exact .refl w
    · exact .handleKexinit P w payload
  · rw [dispatchMessage_kexEcdhInit]
    split
    · exact .refl w
    · exact .handleKexEcdhInit P w body
  · rw [dispatchMessage_newkeys]
    split
    · exact .refl w
    · exact .trans (.decrypt w) (.same rfl rfl rfl rfl)

theorem Deaf.dispatchPacket (w : World) {payload : Bytes} (hl : payload.length < 35000) (slot : ℤ) :
    Deaf w (dispatchPacket P w payload slot).1 := by
  have hn : Deaf w (w.note (.dispatch w.s payload)) := .note w rfl rfl
  unfold Server.dispatchPacket
  cases payload with
  | nil => exact hn
  | cons type body =>
    exact hn.trans (.dispatchMessage P _ _ _ ((Nat.le_succ _).trans_lt hl) _)

theorem parsePacket_length {w w₁ : World} {payload : Bytes}
    (h : parsePacket P w = .got payload w₁) : payload.length < 35000 := by
  obtain ⟨_, _, hu, -⟩ := parsePacket_got P h
  exact (unframe_got P hu).1

theorem dropTcp_tcpIn (w : World) : (dropTcp w).tcpIn = w.tcpIn := by
  unfold dropTcp
  split <;> rfl

theorem freeSlot_tcpIn (w : World) : (freeSlot w).tcpIn = w.tcpIn := by
  unfold freeSlot sshdSlotFree
  split
  · split <;> rfl
  · rfl

theorem Chats.sessionClose (w : World) : Chats w (sessionClose w) := by
  obtain ⟨os, hobs, hos, -, -⟩ := sessionClose_grows w
  have hnone : Server.openings os = [] ∧ frames os = [] := by
    constructor
    all_goals
      refine List.filterMap_eq_nil_iff.mpr fun o ho ↦ ?_
      obtain ⟨_, rfl⟩ | rfl | rfl := hos o ho <;> rfl
  by_cases h : w.s.phase = .closed ∧ w.s.slot < 0
  · rw [Server.sessionClose, if_pos h]
    exact .refl w
  have hs := sessionClose_eq h
  refine .grow ?_ ?_ ?_ (.inr (.inl (sessionClose_phase w))) hobs hnone.1 hnone.2 ?_
  · rw [hs]
    exact (freeSlot_tcpIn _).trans ((dropTcp_tcpIn _).trans (Chats.dropBackend w).tcpIn)
  · rw [hs, freeSlot_s]
    change (dropTcp (Server.dropBackend w)).s.counters = _
    rw [dropTcp_s, dropBackend_s]
    rfl
  · rw [hs, freeSlot_s]
    change (dropTcp (Server.dropBackend w)).s.kex = _
    rw [dropTcp_s, dropBackend_s]
    rfl
  · rw [hs, freeSlot_env]
    exact (dropTcp_env _).trans (dropBackend_env w)

theorem Chats.farewell (w : World) : Chats w (farewell P w) := by
  have hstatus : Chats (Server.dropBackend w) (sendExitStatus P (Server.dropBackend w) 0) := by
    unfold sendExitStatus
    split
    · exact .refl _
    · exact .send P _ (casual_of_head rfl rfl (by decide))
  exact .trans (((Chats.dropBackend w).trans hstatus).trans
    (.send P _ (casual_of_head rfl rfl (by decide))))
    (.trans (.send P _ (casual_of_head rfl rfl (by decide))) (.modify _ _ rfl rfl rfl))

end Sshd.Server
