import Sshd.Server.ReceiveLoop

namespace Sshd.Server

open Lib.Octets Wire Crypto Framing

variable (P : Primitives)

/-! What one round of the receive loop does, as far as the exchange goes. -/

structure Keys where
  sessionId : Bytes
  haveSessionId : Bool
  c2sKey : Bytes
  s2cKey : Bytes

def Session.keys (s : Session) : Keys := { s with }

/-- `w'` is the end of the session `w`. -/
structure Finished (w w' : World) : Prop where
  closed : w'.s.phase = .closed
  keys : w'.s.keys = w.s.keys
  ourKexInit : w'.s.ourKexInit = w.s.ourKexInit
  openings : openings w'.obs = openings w.obs
  talk : Talks w w'
  env : w'.env = w.env
  grows : w.obs <+: w'.obs

/-- The session that has read the client's version line. -/
def greeted (w : World) (line rest : Bytes) : World :=
  (sendOurKexinit P (w.modify fun s ↦ { s with peerVersion := line, rxBuf := rest })).modify
    fun s ↦ { s with phase := .kexWaitKexinit }

/-- What a packet does; `w` is the session with its dispatch on record. -/
inductive Takes (w : World) (payload : Bytes) : World → Prop
  | chat {w'} (h : Chats w w')
      (hn : ∀ t ∈ [msgKexinit, msgKexEcdhInit, msgNewkeys], payload.head? = some t →
        w'.s.phase = .closed) : Takes w payload w'
  | ended {w'} (h : Finished w w') : Takes w payload w'
  | kexinit (alg : KexAlg) (ht : payload.head? = some msgKexinit)
      (hs : selectKexAlg payload = some alg)
      (hp : w.s.phase = .kexWaitKexinit ∨ w.s.phase = .run) :
      Takes w payload
        (w.modify fun s ↦ { s with peerKexInit := payload, kexAlg := alg, phase := .kexWaitEcdh })
  | exchange {w' body} (ht : payload = msgKexEcdhInit :: body) (hp : w.s.phase = .kexWaitEcdh)
      (h : handleKexEcdhInit P w body = (w', true)) : Takes w payload w'
  | newkeys (ht : payload.head? = some msgNewkeys) (hp : w.s.phase = .kexWaitNewkeys) :
      Takes w payload (handleNewkeys w)

/-- A round of the receive loop that does not wait. -/
inductive Reading (w : World) : World → Prop
  | atEnd {w'} (h : Chats w w') (hc : w'.s.phase = .closed) : Reading w w'
  | ended {w'} (h : Finished w w') : Reading w w'
  | hello {line rest : Bytes} (hp : w.s.phase = .version)
      (hl : takeLine w.s.rxBuf = some (line, rest)) : Reading w (greeted P w line rest)
  | garbled (hp : w.s.phase ≠ .closed ∧ w.s.phase ≠ .version) (hw : parsePacket P w = .bad) :
      Reading w (sendDisconnect P w 2 "framing error")
  | packet {w₁ w'} {payload : Bytes} (hp : w.s.phase ≠ .closed ∧ w.s.phase ≠ .version)
      (hw : parsePacket P w = .got payload w₁)
      (h : Takes P (w₁.note (.dispatch w₁.s payload)) payload w') : Reading w w'

variable {P}

section
variable {w w₁ w' : World}

theorem Chats.keys (h : Chats w w') : w'.s.keys = w.s.keys := by
  have hs : w'.s.sessionId = w.s.sessionId := congrArg Kex.sessionId h.kex
  have hh : w'.s.haveSessionId = w.s.haveSessionId := congrArg Kex.haveSessionId h.kex
  have hc : w'.s.c2sKey = w.s.c2sKey := congrArg Kex.c2sKey h.kex
  have hk : w'.s.s2cKey = w.s.s2cKey := congrArg Kex.s2cKey h.kex
  rw [Session.keys, Session.keys, hs, hh, hc, hk]

/-- The end of a session that has set a field on its way. -/
theorem Finished.modify {f : Session → Session} (h : Chats (w.modify f) w') (hc : w'.s.phase = .closed)
    (hk : (f w.s).keys = w.s.keys)
    (hf : ((f w.s).encOutbound, (f w.s).ourKexInit, (f w.s).phase) =
      (w.s.encOutbound, w.s.ourKexInit, w.s.phase)) : Finished w w' := by
  obtain ⟨fs, hfs, hn, ht⟩ := h.talk
  have hkey : (f w.s).s2cKey = w.s.s2cKey := congrArg Keys.s2cKey hk
  simp only [Prod.mk.injEq] at hf
  have hours : w'.s.ourKexInit = (f w.s).ourKexInit := congrArg Kex.ourKexInit h.kex
  refine ⟨hc, h.keys.trans hk, hours.trans hf.2.1, h.openings, ⟨fs, hfs,
    fun hp ↦ hn (hf.2.2.trans hp), fun g hg ↦ ?_⟩, h.env, h.grows⟩
  rw [← hf.1, ← hkey]
  exact ht g hg

end

section
variable {w : World}

theorem handleKexinit_takes {payload : Bytes} (ht : payload.head? = some msgKexinit)
    (hp : w.s.phase = .kexWaitKexinit ∨ w.s.phase = .run) :
    Takes P w payload (handleKexinit P w payload) := by
  unfold handleKexinit
  simp only
  split
  · refine .ended (.modify (f := fun s ↦ { s with peerKexInit := payload })
      (.sendDisconnect P _ (by decide)) rfl rfl rfl)
  · rename_i alg hs
    exact .kexinit alg ht hs hp

/-- An exchange that fails changes nothing but scratch fields. -/
theorem handleKexEcdhInit_fails {w' : World} {body : Bytes}
    (h : handleKexEcdhInit P w body = (w', false)) : Chats w w' := by
  unfold handleKexEcdhInit at h
  split at h
  · cases h
    exact .sendDisconnect P w (by decide)
  rename_i blob _ _
  split at h
  · rename_i msg hm
    cases h
    unfold storeClientBlob at hm
    split at hm
    · split at hm
      · cases hm
        exact .sendDisconnect P w (by decide)
      · cases hm
    · split at hm
      · cases hm
        exact .sendDisconnect P w (by decide)
      · cases hm
  rename_i w₁ hw₁
  have hstore := Chats.storeClientBlob hw₁
  split at h
  · rename_i w₂ hw₂
    cases h
    refine (hstore.trans ?_).trans (.sendDisconnect P w₂ (by decide))
    unfold sendKexEcdhReply at hw₂
    split at hw₂
    · cases hw₂
      exact .refl w₁
    have hk := Chats.kexCompute P w₁
    split at hw₂
    · rename_i w₃ hw₃
      cases hw₂
      rw [hw₃] at hk
      exact hk
    · simp only [ed25519Sign] at hw₂
      cases hw₂
  · cases h

theorem dispatchPacket_takes {payload : Bytes} (hl : payload.length < 35000) {w₁ w₂ : World}
    {ok : Bool} (h : dispatchPacket P w₁ payload w₁.s.slot = (w₂, ok)) :
    Takes P (w₁.note (.dispatch w₁.s payload)) payload
      (if ok = false ∧ w₂.s.phase ≠ .closed then sendDisconnect P w₂ 2 "protocol error" else w₂) := by
  generalize hw : w₁.note (.dispatch w₁.s payload) = w
  -- a packet that is refused ends the session
  have hrefused (hc : Chats w w₂) (hok : ok = false) : Takes P w payload
      (if ok = false ∧ w₂.s.phase ≠ .closed then sendDisconnect P w₂ 2 "protocol error" else w₂) := by
    split
    · exact .chat (hc.trans (.sendDisconnect P w₂ (by decide))) fun _ _ _ ↦ rfl
    · rename_i hn
      exact .chat hc fun _ _ _ ↦ not_not.mp fun hp ↦ hn ⟨hok, hp⟩
  have htaken (ht : Takes P w payload w₂) (hok : ok = true) : Takes P w payload
      (if ok = false ∧ w₂.s.phase ≠ .closed then sendDisconnect P w₂ 2 "protocol error" else w₂) := by
    rw [if_neg (by simp [hok])]
    exact ht
  cases payload with
  | nil =>
    rw [dispatchPacket, hw] at h
    cases h
    exact hrefused (.refl _) rfl
  | cons type body =>
    have h : dispatchMessage P w type (type :: body) body w₁.s.slot = (w₂, ok) := by
      rw [dispatchPacket, hw] at h
      exact h
    by_cases hk : type ∈ [msgKexinit, msgKexEcdhInit, msgNewkeys]
    swap
    · have hc := Chats.dispatchMessage P w hk (type :: body) ((Nat.le_succ _).trans_lt hl) w₁.s.slot
      rw [h] at hc
      cases ok with
      | false => exact hrefused hc rfl
      | true =>
        refine htaken (.chat hc fun t ht hn ↦ absurd ?_ hk) rfl
        rw [Option.some.inj hn]
        exact ht
    simp only [List.mem_cons, List.not_mem_nil, or_false] at hk
    obtain rfl | rfl | rfl := hk
    · rw [dispatchMessage_kexinit] at h
      split at h
      · cases h
        exact hrefused (.refl _) rfl
      · rename_i hp
        cases h
        refine htaken (handleKexinit_takes rfl ?_) rfl
        by_contra hn
        exact hp ⟨fun he ↦ hn (.inl he), fun he ↦ hn (.inr he)⟩
    · rw [dispatchMessage_kexEcdhInit] at h
      split at h
      · cases h
        exact hrefused (.refl _) rfl
      · rename_i hp
        cases ok with
        | false => exact hrefused (handleKexEcdhInit_fails h) rfl
        | true => exact htaken (.exchange rfl (not_not.mp hp) h) rfl
    · rw [dispatchMessage_newkeys] at h
      split at h
      · cases h
        exact hrefused (.refl _) rfl
      · rename_i hp
        cases h
        exact htaken (.newkeys rfl (not_not.mp hp)) rfl

theorem receiveRound_reading {w' : World}
    (h : receiveRound P w = .ends w' ∨ receiveRound P w = .goesOn w') : Reading P w w' := by
  by_cases hc : w.s.phase = .closed
  · rw [receiveRound, if_pos hc] at h
    obtain h | h := h <;> cases h
    exact .atEnd (.refl w) hc
  by_cases hp : w.s.phase = .version
  · have hmisfit (line rest : Bytes) (msg : String)
        (hm : disconnect 2 msg ≠ disconnect 2 "framing error" ∧
          (disconnect 2 msg).length ≤ longest) :
        Finished w (sendDisconnect P
          (w.modify fun s ↦ { s with peerVersion := line, rxBuf := rest }) 2 msg) :=
      .modify (f := fun s ↦ { s with peerVersion := line, rxBuf := rest })
        (.sendDisconnect P _ hm) rfl rfl rfl
    obtain ⟨line, rest, hl, hv⟩ | ⟨-, hv⟩ := consumeVersion_cases (P := P) w
    · split at hv
      · rw [receiveRound_refused hp hv rfl] at h
        obtain h | h := h <;> cases h
        exact .ended (hmisfit line rest _ (by decide))
      split at hv
      · rw [receiveRound_refused hp hv rfl] at h
        obtain h | h := h <;> cases h
        exact .ended (hmisfit line rest _ (by decide))
      · rw [receiveRound_greeted hp hv] at h
        obtain h | h := h <;> cases h
        exact .hello hp hl
    · split at hv
      · rw [receiveRound_refused hp hv rfl] at h
        obtain h | h := h <;> cases h
        exact .atEnd (.sendDisconnect P w (by decide)) rfl
      · rw [receiveRound_halfLine hp hv] at h
        obtain h | h := h <;> cases h
  cases hw : parsePacket P w with
  | needMore =>
    rw [receiveRound_needMore ⟨hc, hp⟩ hw] at h
    obtain h | h := h <;> cases h
  | bad =>
    rw [receiveRound_bad ⟨hc, hp⟩ hw] at h
    obtain h | h := h <;> cases h
    exact .garbled ⟨hc, hp⟩ hw
  | got payload w₁ =>
    rcases hd : dispatchPacket P w₁ payload w₁.s.slot with ⟨w₂, ok⟩
    have ht := dispatchPacket_takes (parsePacket_length P hw) hd
    rw [receiveRound_got ⟨hc, hp⟩ hw hd] at h
    refine .packet ⟨hc, hp⟩ hw ?_
    cases ok with
    | false =>
      obtain h | h := h <;> cases h
      simpa using ht
    | true =>
      obtain h | h := h <;> cases h
      simpa using ht

end

end Sshd.Server
