import Sshd.Server.Runs

namespace Sshd.Server

open Lib.Octets Wire Crypto

variable (P : Primitives)

/-! Two sessions that have read the same bytes differ in the unread ones only.
The record shows these wherever it shows a session. -/

def Obs.blank : Obs → Obs
  | .dispatch s payload => .dispatch { s with rxBuf := [] } payload
  | .itsConnect s backend ref handle => .itsConnect { s with rxBuf := [] } backend ref handle
  | o => o

/-- Nothing outside the session code looks at unread bytes. -/
structure Env.Blind (env : Env) : Prop where
  random : ∀ obs, env.random (obs.map Obs.blank) = env.random obs
  hostSeed : ∀ obs, env.hostSeed (obs.map Obs.blank) = env.hostSeed obs
  authorizedKeys : ∀ obs, env.authorizedKeys (obs.map Obs.blank) = env.authorizedKeys obs
  authLogin : ∀ obs, env.authLogin (obs.map Obs.blank) = env.authLogin obs
  color : ∀ obs, env.color (obs.map Obs.blank) = env.color obs
  logcolor : ∀ obs, env.logcolor (obs.map Obs.blank) = env.logcolor obs
  itsSend : ∀ obs, env.itsSend (obs.map Obs.blank) = env.itsSend obs
  itsRecv : ∀ obs, env.itsRecv (obs.map Obs.blank) = env.itsRecv obs
  itsConnect : ∀ obs, env.itsConnect (obs.map Obs.blank) = env.itsConnect obs

/-- `v` is `w` with `c` for its unread bytes, and all that has arrived is taken
in. -/
structure Twin (c : Bytes) (w v : World) : Prop where
  blind : w.env.Blind
  tcpIn : w.tcpIn = [] ∧ v.tcpIn = []
  env : v.env = w.env
  s : v.s = { w.s with rxBuf := c }
  slotInUse : v.slotInUse = w.slotInUse
  backIn : v.backIn = w.backIn
  obs : v.obs.map Obs.blank = w.obs.map Obs.blank

section
variable {c : Bytes} {w v : World}

theorem Twin.self (h : w.env.Blind) (hq : w.tcpIn = []) : Twin w.s.rxBuf w w :=
  ⟨h, ⟨hq, hq⟩, rfl, rfl, rfl, rfl, rfl⟩

theorem Twin.ask {α : Type} (h : Twin c w v) {f : Env → List Obs → α}
    (hf : ∀ obs, f w.env (obs.map Obs.blank) = f w.env obs) : f v.env v.obs = f w.env w.obs := by
  rw [h.env, ← hf v.obs, h.obs, hf]

theorem Twin.note (h : Twin c w v) {o o' : Obs} (ho : o'.blank = o.blank) :
    Twin c (w.note o) (v.note o') where
  blind := h.blind
  tcpIn := h.tcpIn
  env := h.env
  s := h.s
  slotInUse := h.slotInUse
  backIn := h.backIn
  obs := by
    rw [note_obs, note_obs, List.map_append, List.map_append, h.obs]
    exact congrArg (_ ++ [·]) ho

theorem Twin.modify (h : Twin c w v) {f g : Session → Session}
    (hf : g { w.s with rxBuf := c } = { f w.s with rxBuf := c }) :
    Twin c (w.modify f) (v.modify g) where
  blind := h.blind
  tcpIn := h.tcpIn
  env := h.env
  s := by
    rw [modify_s, h.s]
    exact hf
  slotInUse := h.slotInUse
  backIn := h.backIn
  obs := h.obs

theorem Twin.randomBytes (h : Twin c w v) (n : ℕ) :
    (randomBytes v n).1 = (randomBytes w n).1 ∧ Twin c (randomBytes w n).2 (randomBytes v n).2 := by
  have hf : v.env.random v.obs = w.env.random w.obs := h.ask h.blind.random
  have hbytes : (Server.randomBytes v n).1 = (Server.randomBytes w n).1 := by
    simp only [Server.randomBytes, hf]
  exact ⟨hbytes, h.note (congrArg Obs.random hbytes)⟩

theorem Twin.itsSend (h : Twin c w v) (link : Link) (handle : ℤ) (data : Bytes) :
    (itsSend v link handle data).1 = (itsSend w link handle data).1 ∧
      Twin c (itsSend w link handle data).2 (itsSend v link handle data).2 := by
  have hf : v.env.itsSend v.obs = w.env.itsSend w.obs := h.ask h.blind.itsSend
  have htook : (Server.itsSend v link handle data).1 = (Server.itsSend w link handle data).1 := by
    simp only [Server.itsSend, hf]
  exact ⟨htook, h.note (congrArg (Obs.itsSend link handle data) htook)⟩

theorem Twin.itsRecv (h : Twin c w v) (handle : ℤ) (want : ℕ) :
    (itsRecv v handle want).1 = (itsRecv w handle want).1 ∧
      Twin c (itsRecv w handle want).2 (itsRecv v handle want).2 := by
  have hf : v.env.itsRecv v.obs = w.env.itsRecv w.obs := h.ask h.blind.itsRecv
  simp only [Server.itsRecv, hf, h.backIn, true_and]
  refine ⟨h.blind, h.tcpIn, h.env, h.s, h.slotInUse, rfl, ?_⟩
  rw [List.map_append, List.map_append, h.obs]

theorem Twin.itsConnect (h : Twin c w v) (backend : Backend) (ref : ℤ) :
    (itsConnect v backend ref).1 = (itsConnect w backend ref).1 ∧
      Twin c (itsConnect w backend ref).2 (itsConnect v backend ref).2 := by
  have hf : v.env.itsConnect v.obs = w.env.itsConnect w.obs := h.ask h.blind.itsConnect
  simp only [Server.itsConnect, hf, h.backIn, true_and]
  refine ⟨h.blind, h.tcpIn, h.env, h.s, h.slotInUse, rfl, ?_⟩
  rw [List.map_append, List.map_append, h.obs, h.s]
  rfl

theorem Twin.itsDisconnect (h : Twin c w v) (link : Link) (handle : ℤ) :
    Twin c (itsDisconnect w link handle) (itsDisconnect v link handle) := h.note rfl

/-! Packets. -/

theorem Twin.sendRawTcp (h : Twin c w v) (data : Bytes) :
    Twin c (sendRawTcp w data) (sendRawTcp v data) := by
  unfold Server.sendRawTcp
  simp only [h.s]
  split
  · exact h
  · exact (h.itsSend .tcp w.s.tcp data).2

theorem Twin.sendPacket (h : Twin c w v) (payload : Bytes) :
    Twin c (sendPacket P w payload) (sendPacket P v payload) := by
  unfold Server.sendPacket
  simp only [h.s]
  split
  · exact h
  obtain ⟨hpad, h₁⟩ := h.randomBytes (Framing.padLen w.s.encOutbound payload.length)
  have hs : (Server.randomBytes v (Framing.padLen w.s.encOutbound payload.length)).2.s =
      { w.s with rxBuf := c } := h.s
  simp only [hpad, hs]
  exact ((h₁.note rfl).sendRawTcp _).modify rfl

theorem Twin.sendDisconnect (h : Twin c w v) (code : UInt32) (msg : String) :
    Twin c (sendDisconnect P w code msg) (sendDisconnect P v code msg) := by
  unfold Server.sendDisconnect
  simp only [modify_s]
  have h₁ := h.sendPacket P
    (putCstring (putCstring (putU32 (putU8 [] msgDisconnect) code) msg) "")
  rw [h₁.s]
  exact (h₁.modify rfl).itsDisconnect .tcp _

/-! Handlers, with the flag they return. -/

/-- Two results that agree. -/
def Twins (c : Bytes) (r r' : World × Bool) : Prop := Twin c r.1 r'.1 ∧ r'.2 = r.2

theorem Twins.flag (h : Twin c w v) (ok : Bool) : Twins c (w, ok) (v, ok) := ⟨h, rfl⟩

theorem Twins.apart {r r' : World × Bool} (h : Twins c r r') :
    ∃ w v ok, r = (w, ok) ∧ r' = (v, ok) ∧ Twin c w v :=
  ⟨r.1, r'.1, r.2, rfl, Prod.ext rfl h.2, h.1⟩

theorem Twins.ite {q : Prop} [Decidable q] {r₁ r₂ r₁' r₂' : World × Bool} (h₁ : Twins c r₁ r₁')
    (h₂ : Twins c r₂ r₂') : Twins c (if q then r₁ else r₂) (if q then r₁' else r₂') := by
  split
  · exact h₁
  · exact h₂

theorem Twin.buildKexinitPayload (h : Twin c w v) :
    (buildKexinitPayload v).1 = (buildKexinitPayload w).1 ∧
      Twin c (buildKexinitPayload w).2 (buildKexinitPayload v).2 := by
  obtain ⟨hcookie, h₁⟩ := h.randomBytes 16
  exact ⟨congrArg kexinitPayload hcookie, h₁⟩

theorem Twin.sendOurKexinit (h : Twin c w v) :
    Twin c (sendOurKexinit P w) (sendOurKexinit P v) := by
  obtain ⟨hpayload, h₁⟩ := h.buildKexinitPayload
  unfold Server.sendOurKexinit
  simp only [hpayload, modify_s]
  exact (h₁.modify rfl).sendPacket P _

theorem Twin.deriveSessionKeys (h : Twin c w v) :
    Twin c (deriveSessionKeys P w) (deriveSessionKeys P v) := by
  have hid : v.s.sessionId = w.s.sessionId := by rw [h.s]
  unfold Server.deriveSessionKeys
  rw [hid]
  exact .modify (.modify (.note h rfl) rfl) rfl

theorem Twin.loadHostKey (h : Twin c w v) : loadHostKey P v = loadHostKey P w := by
  have hf : v.env.hostSeed v.obs = w.env.hostSeed w.obs := h.ask h.blind.hostSeed
  simp only [Server.loadHostKey, hf]

theorem Twin.kexComputeClassical (h : Twin c w v) :
    Twins c (kexComputeClassical P w) (kexComputeClassical P v) := by
  obtain ⟨hpriv, h₁⟩ := h.randomBytes 32
  unfold Server.kexComputeClassical
  simp only [hpriv, modify_s]
  generalize (Server.randomBytes w 32).1 = priv
  generalize (Server.randomBytes w 32).2 = w₁ at h₁ ⊢
  generalize (Server.randomBytes v 32).2 = v₁ at h₁ ⊢
  simp only [h₁.s]
  split
  · exact .flag (.modify h₁ rfl) false
  · split
    · exact .flag (.modify (.modify h₁ rfl) rfl) false
    · exact .flag (.modify (.modify (.modify h₁ rfl) rfl) rfl) true

theorem Twin.kexComputePq (h : Twin c w v) :
    Twins c (kexComputePq P w) (kexComputePq P v) := by
  unfold Server.kexComputePq
  simp only [h.s]
  split
  · exact .flag h false
  obtain ⟨hcoins, h₁⟩ := h.randomBytes 32
  simp only [hcoins]
  generalize (Server.randomBytes w 32).1 = coins
  generalize (Server.randomBytes w 32).2 = w₁ at h₁ ⊢
  generalize (Server.randomBytes v 32).2 = v₁ at h₁ ⊢
  split
  · exact .flag h₁ false
  rename_i ct mlSs _
  obtain ⟨hpriv, h₂⟩ := h₁.randomBytes 32
  simp only [hpriv, modify_s]
  generalize (Server.randomBytes w₁ 32).1 = priv
  generalize (Server.randomBytes w₁ 32).2 = w₂ at h₂ ⊢
  generalize (Server.randomBytes v₁ 32).2 = v₂ at h₂ ⊢
  split
  · exact .flag (.modify h₂ rfl) false
  · split
    · exact .flag (.modify (.modify h₂ rfl) rfl) false
    · exact .flag (.modify (.modify (.modify (.modify h₂ rfl) rfl) rfl) rfl) true

theorem Twin.kexCompute (h : Twin c w v) : Twins c (kexCompute P w) (kexCompute P v) := by
  unfold Server.kexCompute
  simp only [h.s]
  split
  · exact h.kexComputePq P
  · exact h.kexComputeClassical P

theorem Twin.firstHash (h : Twin c w v) (hash : Bytes) :
    Twin c
      (if w.s.haveSessionId then w
        else w.modify fun s ↦ { s with sessionId := hash, haveSessionId := true })
      (if v.s.haveSessionId then v
        else v.modify fun s ↦ { s with sessionId := hash, haveSessionId := true }) := by
  have hid : v.s.haveSessionId = w.s.haveSessionId := by rw [h.s]
  by_cases ht : w.s.haveSessionId = true
  · rw [if_pos (hid.trans ht), if_pos ht]
    exact h
  · rw [if_neg fun hv ↦ ht (hid.symm.trans hv), if_neg ht]
    exact .modify h rfl

theorem Twin.sendKexEcdhReply (h : Twin c w v) :
    Twins c (sendKexEcdhReply P w) (sendKexEcdhReply P v) := by
  unfold Server.sendKexEcdhReply
  rw [h.loadHostKey P]
  split
  · exact .flag h false
  rename_i seed hostPub _
  obtain ⟨w₁, v₁, ok, hw, hv, h₁⟩ := (h.kexCompute P).apart
  rw [hw, hv]
  cases ok
  · exact .flag h₁ false
  have hhash : computeExchangeHash P v₁.s (buildHostKeyBlob hostPub) =
      computeExchangeHash P w₁.s (buildHostKeyBlob hostPub) := by
    rw [h₁.s]
    rfl
  simp only [hhash]
  generalize computeExchangeHash P w₁.s (buildHostKeyBlob hostPub) = hash
  have h₂ := (h₁.note (o := .exchangeHash hash) rfl).firstHash hash
  split
  · exact .flag h₂ false
  · rw [h₂.s]
    exact .flag (h₂.sendPacket P _) true

theorem Twin.handleKexinit (h : Twin c w v) (payload : Bytes) :
    Twin c (handleKexinit P w payload) (handleKexinit P v payload) := by
  unfold Server.handleKexinit
  simp only
  split
  · exact .sendDisconnect P (.modify h rfl) 3 _
  · exact .modify (.modify h rfl) rfl

theorem Twin.handleKexEcdhInit (h : Twin c w v) (payload : Bytes) :
    Twins c (handleKexEcdhInit P w payload) (handleKexEcdhInit P v payload) := by
  unfold Server.handleKexEcdhInit
  split
  · exact .flag (h.sendDisconnect P 2 _) false
  rename_i blob _ _
  have hstore : (∃ msg, storeClientBlob w blob = .inr msg ∧ storeClientBlob v blob = .inr msg) ∨
      ∃ w₁ v₁, storeClientBlob w blob = .inl w₁ ∧ storeClientBlob v blob = .inl v₁ ∧
        Twin c w₁ v₁ := by
    unfold storeClientBlob
    simp only [h.s]
    split
    · split
      · exact .inl ⟨_, rfl, rfl⟩
      · exact .inr ⟨_, _, rfl, rfl, h.modify rfl⟩
    · split
      · exact .inl ⟨_, rfl, rfl⟩
      · exact .inr ⟨_, _, rfl, rfl, h.modify rfl⟩
  obtain ⟨msg, hw, hv⟩ | ⟨w₁, v₁, hw, hv, h₁⟩ := hstore
  · rw [hw, hv]
    exact .flag (h.sendDisconnect P 2 _) false
  rw [hw, hv]
  obtain ⟨w₂, v₂, ok, hw, hv, h₂⟩ := (h₁.sendKexEcdhReply P).apart
  simp only [hw, hv]
  cases ok
  · exact .flag (h₂.sendDisconnect P 2 _) false
  · exact .flag (.modify (.modify ((h₂.sendPacket P _).deriveSessionKeys P) rfl) rfl) true

theorem Twin.handleNewkeys (h : Twin c w v) : Twin c (handleNewkeys w) (handleNewkeys v) := by
  unfold Server.handleNewkeys
  exact .modify (.modify h rfl) rfl

/-! Authentication. -/

theorem Twin.authorizedPub (h : Twin c w v) (pub : Bytes) :
    (authorizedPub P v pub).1 = (authorizedPub P w pub).1 ∧
      Twin c (authorizedPub P w pub).2 (authorizedPub P v pub).2 := by
  have hf : v.env.authorizedKeys v.obs = w.env.authorizedKeys w.obs := h.ask h.blind.authorizedKeys
  have hok : (Server.authorizedPub P v pub).1 = (Server.authorizedPub P w pub).1 := by
    simp only [Server.authorizedPub, hf]
  exact ⟨hok, h.note (congrArg (Obs.authKey pub) hok)⟩

theorem Twin.authLogin (h : Twin c w v) (pw : Bytes) (realm : String) :
    (authLogin v pw realm).1 = (authLogin w pw realm).1 ∧
      Twin c (authLogin w pw realm).2 (authLogin v pw realm).2 := by
  have hf : v.env.authLogin v.obs = w.env.authLogin w.obs := h.ask h.blind.authLogin
  have hok : (Server.authLogin v pw realm).1 = (Server.authLogin w pw realm).1 := by
    simp only [Server.authLogin, hf]
  exact ⟨hok, h.note (congrArg (Obs.authLogin (cString pw) (ascii realm)) hok)⟩

theorem Twin.sendUserauthFailure (h : Twin c w v) (partialSuccess : Bool) :
    Twin c (sendUserauthFailure P w partialSuccess) (sendUserauthFailure P v partialSuccess) :=
  h.sendPacket P _

theorem Twin.sendUserauthSuccess (h : Twin c w v) :
    Twin c (sendUserauthSuccess P w) (sendUserauthSuccess P v) := by
  unfold Server.sendUserauthSuccess
  exact .modify (h.sendPacket P _) rfl

theorem Twin.badUserauthRequest (h : Twin c w v) :
    Twins c (badUserauthRequest P w) (badUserauthRequest P v) :=
  .flag (h.sendDisconnect P 2 _) false

theorem Twin.handleServiceRequest (h : Twin c w v) (payload : Bytes) :
    Twins c (handleServiceRequest P w payload) (handleServiceRequest P v payload) := by
  unfold Server.handleServiceRequest
  split
  · exact .flag (h.sendDisconnect P 2 _) false
  · split
    · exact .flag (h.sendDisconnect P 7 _) false
    · exact .flag (h.sendPacket P _) true

theorem Twin.userauthSignature (h : Twin c w v) (view : View) (userStr svcStr pkBlob pub32 : Bytes) :
    Twins c (userauthSignature P w view userStr svcStr pkBlob pub32)
      (userauthSignature P v view userStr svcStr pkBlob pub32) := by
  unfold Server.userauthSignature verifySignature
  simp only [h.s]
  split
  · exact h.badUserauthRequest P
  split
  · exact .flag (h.sendUserauthFailure P false) true
  rename_i sig64 _
  generalize ed25519Verify P pub32 (signedData w.s.sessionId userStr svcStr pkBlob) sig64 = ok
  cases ok
  · exact .flag (.sendUserauthFailure P (.note h rfl) false) true
  · exact .flag (.sendUserauthSuccess P (.note h rfl)) true

theorem Twin.userauthPublickey (h : Twin c w v) (view : View) (userStr svcStr : Bytes) :
    Twins c (userauthPublickey P w view userStr svcStr)
      (userauthPublickey P v view userStr svcStr) := by
  unfold Server.userauthPublickey
  simp only
  split
  · exact h.badUserauthRequest P
  split
  · exact h.badUserauthRequest P
  split
  · exact .flag (h.sendUserauthFailure P false) true
  split
  · exact .flag (h.sendUserauthFailure P false) true
  rename_i pub32 _
  obtain ⟨hok, h₁⟩ := h.authorizedPub P pub32
  generalize Server.authorizedPub P w pub32 = r at hok h₁ ⊢
  generalize Server.authorizedPub P v pub32 = r' at hok h₁ ⊢
  obtain ⟨ok, w₁⟩ := r
  obtain ⟨ok', v₁⟩ := r'
  obtain rfl : ok' = ok := hok
  cases ok'
  · exact .flag (h₁.sendUserauthFailure P false) true
  · simp only
    split
    · exact .flag (h₁.sendPacket P _) true
    · exact h₁.userauthSignature P _ _ _ _ _

theorem Twin.userauthPassword (h : Twin c w v) (view : View) :
    Twins c (userauthPassword P w view) (userauthPassword P v view) := by
  unfold Server.userauthPassword
  simp only
  split
  · exact .flag (h.sendUserauthFailure P false) true
  split
  · exact h.badUserauthRequest P
  rename_i pw _ _
  obtain ⟨hok, h₁⟩ := h.authLogin pw "admin"
  generalize Server.authLogin w pw "admin" = r at hok h₁ ⊢
  generalize Server.authLogin v pw "admin" = r' at hok h₁ ⊢
  obtain ⟨ok, w₁⟩ := r
  obtain ⟨ok', v₁⟩ := r'
  obtain rfl : ok' = ok := hok
  cases ok'
  · exact .flag (h₁.sendUserauthFailure P false) true
  · exact .flag (h₁.sendUserauthSuccess P) true

theorem Twin.handleUserauthRequest (h : Twin c w v) (payload : Bytes) :
    Twins c (handleUserauthRequest P w payload) (handleUserauthRequest P v payload) := by
  unfold Server.handleUserauthRequest
  split
  · exact h.badUserauthRequest P
  rename_i userStr _ _
  have hu : Twin c (w.modify fun s ↦ { s with user := userStr })
      (v.modify fun s ↦ { s with user := userStr }) := h.modify rfl
  split
  · exact h.badUserauthRequest P
  split
  · exact h.badUserauthRequest P
  simp only
  split
  · exact hu.userauthPublickey P _ _ _
  split
  · exact hu.userauthPassword P _
  · exact .flag (hu.sendUserauthFailure P false) true

/-! The channel. -/

theorem Twin.sendChannelOpenConfirm (h : Twin c w v) :
    Twin c (sendChannelOpenConfirm P w) (sendChannelOpenConfirm P v) := by
  unfold Server.sendChannelOpenConfirm
  simp only [h.s]
  exact h.sendPacket P _

theorem Twin.replyIf (h : Twin c w v) (wantReply : UInt8) (ok : Bool) :
    Twin c (replyIf P w wantReply ok) (replyIf P v wantReply ok) := by
  unfold Server.replyIf sendChannelRequestReply
  split
  · rw [h.s]
    exact h.sendPacket P _
  · exact h

theorem Twin.openBackendWithMode (h : Twin c w v) (sessionSlot : ℤ) (cliMode : CliMode) :
    Twins c (openBackendWithMode w sessionSlot cliMode) (openBackendWithMode v sessionSlot cliMode) := by
  have hcolor : v.env.color v.obs = w.env.color w.obs := h.ask h.blind.color
  have hlog : v.env.logcolor v.obs = w.env.logcolor w.obs := h.ask h.blind.logcolor
  have hfor : backendFor v cliMode = backendFor w cliMode := by
    simp only [backendFor, hcolor, hlog, h.s]
  unfold Server.openBackendWithMode
  rw [hfor]
  cases backendFor w cliMode with
  | none =>
    simp only [h.s]
    exact .flag h _
  | some backend =>
    obtain ⟨hhandle, h₁⟩ := h.itsConnect backend sessionSlot
    simp only [modify_s, hhandle]
    exact .flag (.modify h₁ rfl) _

theorem Twin.dropBackend (h : Twin c w v) : Twin c (dropBackend w) (dropBackend v) := by
  unfold Server.dropBackend
  simp only [h.s]
  split
  · exact .modify (h.itsDisconnect .backend _) rfl
  · exact h

theorem Twin.handleChannelOpen (h : Twin c w v) (payload : Bytes) :
    Twins c (handleChannelOpen P w payload) (handleChannelOpen P v payload) := by
  unfold Server.handleChannelOpen
  simp only [h.s]
  split
  · exact .flag h false
  split
  · exact .flag h false
  split
  · exact .flag (h.sendPacket P _) true
  split
  · exact .flag (h.sendPacket P _) true
  · exact .flag (.sendChannelOpenConfirm P (.modify h rfl)) true

theorem Twin.requestBackend (h : Twin c w v) (wantReply : UInt8) (kind : ChanKind)
    (sessionSlot : ℤ) :
    Twins c (requestBackend P w wantReply kind sessionSlot)
      (requestBackend P v wantReply kind sessionSlot) := by
  have hk : Twin c (w.modify fun s ↦ { s with chanKind := kind })
      (v.modify fun s ↦ { s with chanKind := kind }) := h.modify rfl
  unfold Server.requestBackend openBackend
  simp only
  obtain ⟨w₁, v₁, ok, hw, hv, h₁⟩ := (hk.openBackendWithMode sessionSlot .ansi).apart
  rw [hw, hv]
  cases ok
  · exact .flag (h₁.replyIf P _ false) true
  · exact .flag (h₁.replyIf P _ true) true

theorem Twin.requestExec (h : Twin c w v) (view : View) (wantReply : UInt8) (sessionSlot : ℤ) :
    Twins c (requestExec P w view wantReply sessionSlot)
      (requestExec P v view wantReply sessionSlot) := by
  unfold Server.requestExec openBackendLine
  split
  · exact .flag (h.replyIf P _ false) true
  split
  · exact .flag (h.replyIf P _ false) true
  have hk : Twin c (w.modify fun s ↦ { s with chanKind := .cli })
      (v.modify fun s ↦ { s with chanKind := .cli }) := h.modify rfl
  simp only
  obtain ⟨w₁, v₁, ok, hw, hv, h₁⟩ := (hk.openBackendWithMode sessionSlot .line).apart
  rw [hw, hv]
  cases ok
  · exact .flag (h₁.replyIf P _ false) true
  · have h₂ := h₁.replyIf P wantReply true
    simp only [h₂.s]
    exact .flag (h₂.itsSend .backend _ _).2 true

theorem Twin.requestSubsystem (h : Twin c w v) (view : View) (wantReply : UInt8)
    (sessionSlot : ℤ) :
    Twins c (requestSubsystem P w view wantReply sessionSlot)
      (requestSubsystem P v view wantReply sessionSlot) := by
  unfold Server.requestSubsystem
  split
  · exact .flag (h.replyIf P _ false) true
  split
  · exact h.requestBackend P _ _ _
  · exact .flag (h.replyIf P _ false) true

theorem Twin.handleChannelRequest (h : Twin c w v) (payload : Bytes) (sessionSlot : ℤ) :
    Twins c (handleChannelRequest P w payload sessionSlot)
      (handleChannelRequest P v payload sessionSlot) := by
  unfold Server.handleChannelRequest
  simp only
  split
  · exact .flag h false
  split
  · exact .flag (h.replyIf P _ true) true
  split
  · exact h.requestBackend P _ _ _
  split
  · exact h.requestExec P _ _ _
  split
  · exact h.requestSubsystem P _ _ _
  split
  · exact .flag (h.replyIf P _ true) true
  · exact .flag (h.replyIf P _ false) true

theorem Twin.sendChannelWindowAdjust (h : Twin c w v) (add : UInt32) :
    Twin c (sendChannelWindowAdjust P w add) (sendChannelWindowAdjust P v add) := by
  unfold Server.sendChannelWindowAdjust
  rw [h.s]
  exact h.sendPacket P _

theorem Twin.replenish (h : Twin c w v) (written : ℕ) :
    Twin c (replenish P w written) (replenish P v written) := by
  have hused : usedWindow v.s written = usedWindow w.s written := by
    rw [h.s]
    rfl
  have hadd : adjustment v.s written = adjustment w.s written := by
    rw [h.s]
    rfl
  by_cases hn : 0 < written ∧ usedWindow w.s written < localWindowMax / 2
  · rw [replenish_adjust P hn, replenish_adjust P (by rw [hused]; exact hn), hadd]
    exact .sendChannelWindowAdjust P (.modify h rfl) _
  · rw [replenish_none P hn, replenish_none P (by rw [hused]; exact hn)]
    exact .modify h rfl

theorem Twin.handleChannelData (h : Twin c w v) (payload : Bytes) :
    Twin c (handleChannelData P w payload) (handleChannelData P v payload) := by
  unfold Server.handleChannelData
  simp only [h.s]
  split
  · exact h
  split
  · exact h
  rename_i d _ _ _
  obtain ⟨hwritten, h₁⟩ := h.itsSend .backend w.s.backendHandle d
  rw [hwritten]
  exact h₁.replenish P _

theorem Twin.drainLoop (h : Twin c w v) (fuel : ℕ) :
    Twin c (drainLoop P fuel w) (drainLoop P fuel v) := by
  induction fuel generalizing w v with
  | zero => exact h
  | succ fuel ih =>
    have hwant : drainWant v.s = drainWant w.s := by
      rw [h.s]
      rfl
    obtain ⟨hgot, h₁⟩ := h.itsRecv w.s.backendHandle (drainWant w.s)
    have hsend : Twin c
        (sendChannelData P (Server.itsRecv w w.s.backendHandle (drainWant w.s)).2
          (Server.itsRecv w w.s.backendHandle (drainWant w.s)).1)
        (sendChannelData P (Server.itsRecv v w.s.backendHandle (drainWant w.s)).2
          (Server.itsRecv w w.s.backendHandle (drainWant w.s)).1) := by
      unfold sendChannelData
      rw [h₁.s]
      exact h₁.sendPacket P _
    unfold Server.drainLoop
    rw [hwant]
    simp only [h.s, hgot]
    split
    · split
      · exact h₁
      · exact ih (.modify hsend rfl)
    · exact h

theorem Twin.sessionOnBackendData (h : Twin c w v) :
    Twin c (sessionOnBackendData P w) (sessionOnBackendData P v) := by
  unfold Server.sessionOnBackendData
  simp only [h.s, h.backIn]
  split
  · exact h
  · exact h.drainLoop P _

theorem Twin.handleChannelWindowAdjust (h : Twin c w v) (payload : Bytes) :
    Twin c (handleChannelWindowAdjust P w payload) (handleChannelWindowAdjust P v payload) := by
  unfold Server.handleChannelWindowAdjust
  exact .sessionOnBackendData P (.modify h rfl)

theorem Twin.handleChannelClose (h : Twin c w v) :
    Twin c (handleChannelClose P w) (handleChannelClose P v) := by
  have h₁ : Twin c (sendChannelClose P (Server.dropBackend w))
      (sendChannelClose P (Server.dropBackend v)) := by
    unfold sendChannelClose
    rw [h.dropBackend.s]
    exact h.dropBackend.sendPacket P _
  unfold Server.handleChannelClose
  simp only [h.s]
  split
  · exact h
  · exact .modify (.modify h₁ rfl) rfl

/-! Packets, and the end of a session. -/

theorem Twin.handleGlobalRequest (h : Twin c w v) (body : Bytes) :
    Twin c (handleGlobalRequest P w body) (handleGlobalRequest P v body) := by
  unfold Server.handleGlobalRequest
  split
  · exact h
  · split
    · exact h.sendPacket P _
    · exact h

theorem Twin.sendUnimplemented (h : Twin c w v) :
    Twin c (sendUnimplemented P w) (sendUnimplemented P v) := by
  unfold Server.sendUnimplemented
  simp only [h.s]
  exact h.sendPacket P _

theorem Twin.dispatchMessage (h : Twin c w v) (type : UInt8) (payload body : Bytes)
    (sessionSlot : ℤ) :
    Twins c (dispatchMessage P w type payload body sessionSlot)
      (dispatchMessage P v type payload body sessionSlot) := by
  have hp : v.s.phase = w.s.phase := by rw [h.s]
  have htcp : v.s.tcp = w.s.tcp := by rw [h.s]
  have hquit : Twin c
      (Server.itsDisconnect (w.modify fun s ↦ { s with phase := .closed }) .tcp w.s.tcp)
      (Server.itsDisconnect (v.modify fun s ↦ { s with phase := .closed }) .tcp v.s.tcp) := by
    rw [htcp]
    exact .itsDisconnect (.modify h rfl) .tcp _
  have hno : Twins c (w, false) (v, false) := .flag h false
  have hyes : Twins c (w, true) (v, true) := .flag h true
  unfold Server.dispatchMessage
  rw [hp]
  refine .ite (.flag hquit false) (.ite hyes ?_)
  refine .ite (.ite hno (.flag (h.handleKexinit P payload) true)) ?_
  refine .ite (.ite hno (h.handleKexEcdhInit P body)) ?_
  refine .ite (.ite hno (.flag h.handleNewkeys true)) ?_
  refine .ite (.ite hno (h.handleServiceRequest P body)) ?_
  refine .ite (.ite hno (h.handleUserauthRequest P body)) ?_
  refine .ite (.flag (h.handleGlobalRequest P body) true) ?_
  refine .ite (.ite hno (h.handleChannelOpen P body)) ?_
  refine .ite (.ite hno (h.handleChannelRequest P body sessionSlot)) ?_
  refine .ite (.ite hno (.flag (h.handleChannelData P body) true)) ?_
  refine .ite (.ite hno (.flag (h.handleChannelWindowAdjust P body) true)) ?_
  refine .ite hyes (.ite (.flag (h.handleChannelClose P) true) ?_)
  exact .flag (h.sendUnimplemented P) true

theorem Twin.dispatchPacket (h : Twin c w v) (payload : Bytes) (sessionSlot : ℤ) :
    Twins c (dispatchPacket P w payload sessionSlot) (dispatchPacket P v payload sessionSlot) := by
  have h₁ : Twin c (w.note (.dispatch w.s payload)) (v.note (.dispatch v.s payload)) := by
    refine h.note ?_
    rw [h.s]
    rfl
  cases payload with
  | nil => exact .flag h₁ false
  | cons type body => exact h₁.dispatchMessage P type (type :: body) body sessionSlot

theorem Twin.dropTcp (h : Twin c w v) : Twin c (dropTcp w) (dropTcp v) := by
  unfold Server.dropTcp itsSendDrain
  simp only [note_s, h.s]
  split
  · exact .modify (.itsDisconnect (.note h rfl) .tcp _) rfl
  · exact h

theorem Twin.freeSlot (h : Twin c w v) : Twin c (freeSlot w) (freeSlot v) := by
  have hfree : Twin c (sshdSlotFree w w.s.slot) (sshdSlotFree v w.s.slot) := by
    unfold sshdSlotFree
    split
    · exact ⟨h.blind, h.tcpIn, h.env, h.s, congrArg (Function.update · _ _) h.slotInUse, h.backIn, h.obs⟩
    · exact h
  unfold Server.freeSlot
  simp only [h.s]
  split
  · exact .modify hfree rfl
  · exact h

theorem Twin.sessionClose (h : Twin c w v) : Twin c (sessionClose w) (sessionClose v) := by
  unfold Server.sessionClose
  simp only [h.s]
  split
  · exact h
  · exact .freeSlot (.modify (.modify h.dropBackend.dropTcp rfl) rfl)

end

end Sshd.Server
