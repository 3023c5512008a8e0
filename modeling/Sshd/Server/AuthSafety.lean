import Sshd.Server.Runs

namespace Sshd.Server

open Lib.Octets Lib.Trace Wire Crypto

variable (P : Primitives)

/-- The hash of the first key exchange on record. -/
def firstExchangeHash (obs : List Obs) : Option Bytes :=
  obs.findSome? fun o ↦ match o with
    | .exchangeHash h => some h
    | _ => none

/-- The record holds a request, opened by the inbound cipher and dispatched
in phase AUTH, that proves who the client is. -/
def Authenticated (env : Env) (obs : List Obs) : Prop :=
  ∃ pre seq packet s payload post,
    obs = pre ++ .opened s.encInbound s.c2sKey seq packet payload :: .dispatch s payload :: post ∧
    s.phase = .auth ∧ s.encInbound = true ∧ firstExchangeHash pre = some s.sessionId ∧
    (ByPublickey P env
        (pre ++ [.opened s.encInbound s.c2sKey seq packet payload, .dispatch s payload]) s payload ∨
      ByPassword env
        (pre ++ [.opened s.encInbound s.c2sKey seq packet payload, .dispatch s payload]) payload)

/-- Being in phase RUN, asking for a backend and writing to one. -/
def Obs.Privileged : Obs → Prop
  | .dispatch s _ => s.phase = .run
  | .itsConnect _ _ _ _ => True
  | .itsSend link _ _ _ => link = .backend
  | _ => False

variable {P} {env : Env}

theorem Authenticated.append {obs : List Obs} (h : Authenticated P env obs) (os : List Obs) :
    Authenticated P env (obs ++ os) := by
  obtain ⟨pre, seq, packet, s, payload, post, rfl, hs⟩ := h
  exact ⟨pre, seq, packet, s, payload, post ++ os, by simp, hs⟩

theorem firstExchangeHash_append (obs os : List Obs) :
    firstExchangeHash (obs ++ os) = (firstExchangeHash obs).or (firstExchangeHash os) :=
  List.findSome?_append

theorem firstExchangeHash_none {os : List Obs} (h : ∀ o ∈ os, ∀ hash, o ≠ .exchangeHash hash) :
    firstExchangeHash os = none := by
  refine List.findSome?_eq_none_iff.mpr fun o ho ↦ ?_
  split
  · rename_i hash
    exact absurd rfl (h _ ho hash)
  · rfl

/-- Only a proof of identity leads to phase RUN, and everything privileged
comes after one. -/
structure AuthInv (P : Primitives) (env : Env) (w : World) : Prop where
  answers : w.env = env
  run : w.s.phase = .run → Authenticated P env w.obs
  past : EachAfter (fun pre o ↦ o.Privileged → Authenticated P env pre) w.obs
  auth : w.s.phase = .auth → w.s.encInbound = true ∧ w.s.haveSessionId = true
  newkeys : w.s.phase = .kexWaitNewkeys → w.s.haveSessionId = true
  hash : firstExchangeHash w.obs = if w.s.haveSessionId then some w.s.sessionId else none

/-- Calls that do not touch the session's identity. -/
def Obs.Neutral (w : World) (o : Obs) : Prop :=
  (o.Privileged → w.s.phase = .run) ∧ ∀ hash, o ≠ .exchangeHash hash

theorem Obs.Calm.neutral {o : Obs} (h : o.Calm) (w : World) : o.Neutral w := by
  constructor
  · cases o with
    | itsSend link _ _ _ =>
      intro hp
      cases h.symm.trans hp
    | _ => first | exact h.elim | exact fun hp ↦ hp.elim
  · rintro hash rfl
    exact h

section
variable {w w' : World}

theorem AuthInv.grow {os : List Obs} (h : AuthInv P env w) (henv : w'.env = w.env)
    (hobs : w'.obs = w.obs ++ os) (hos : ∀ o ∈ os, o.Neutral w)
    (hid : w'.s.sessionId = w.s.sessionId) (hhave : w'.s.haveSessionId = w.s.haveSessionId)
    (henc : w'.s.encInbound = w.s.encInbound)
    (hphase : w'.s.phase = w.s.phase ∨
      w'.s.phase ≠ .run ∧ w'.s.phase ≠ .auth ∧ w'.s.phase ≠ .kexWaitNewkeys) :
    AuthInv P env w' where
  answers := henv.trans h.answers
  run hp := by
    obtain he | ⟨hne, -, -⟩ := hphase
    · rw [hobs]
      exact (h.run (he.symm.trans hp)).append os
    · exact absurd hp hne
  past := by
    rw [hobs]
    refine eachAfter_append.mpr ⟨h.past, .of_forall fun o ho pre hpriv ↦ ?_⟩
    exact (h.run ((hos o ho).1 hpriv)).append pre
  auth hp := by
    obtain he | ⟨-, hne, -⟩ := hphase
    · rw [henc, hhave]
      exact h.auth (he.symm.trans hp)
    · exact absurd hp hne
  newkeys hp := by
    obtain he | ⟨-, -, hne⟩ := hphase
    · rw [hhave]
      exact h.newkeys (he.symm.trans hp)
    · exact absurd hp hne
  hash := by
    rw [hobs, firstExchangeHash_append, firstExchangeHash_none fun o ho ↦ (hos o ho).2, hid, hhave,
      Option.or_none]
    exact h.hash

theorem AuthInv.quiet (h : AuthInv P env w) (hq : Tame w w') : AuthInv P env w' := by
  obtain ⟨os, hobs, hcalm⟩ := hq.obs
  exact h.grow hq.env hobs (fun o ho ↦ (hcalm o ho).neutral w) hq.sessionId hq.haveSessionId
    hq.encInbound (.inl hq.phase)

theorem AuthInv.hangUp (h : AuthInv P env w) : AuthInv P env (hangUp w) := by
  refine h.grow rfl rfl ?_ rfl rfl rfl (.inr ⟨nofun, nofun, nofun⟩)
  simp [Obs.Neutral, Obs.Privileged]

theorem AuthInv.dropBackend (h : AuthInv P env w) : AuthInv P env (dropBackend w) := by
  have hs := dropBackend_s w
  refine h.grow (dropBackend_env w) (dropBackend_obs w) ?_ (by rw [hs]) (by rw [hs]) (by rw [hs])
    (.inl (by rw [hs]))
  unfold dropObs
  split <;> simp [Obs.Neutral, Obs.Privileged]

theorem AuthInv.shut (h : AuthInv P env w) : AuthInv P env (shut w) :=
  h.grow rfl (List.append_nil _).symm (by simp) rfl rfl rfl (.inr ⟨nofun, nofun, nofun⟩)

theorem AuthInv.adoptHash (h : AuthInv P env w) (hp : w.s.phase = .kexWaitEcdh) (hash : Bytes) :
    AuthInv P env (adoptHash w hash) where
  answers := (adoptHash_env w hash).trans h.answers
  run hr := by
    rw [adoptHash_s] at hr
    cases hp.symm.trans hr
  past := by
    rw [adoptHash_obs]
    exact h.past.snoc fun hpriv ↦ hpriv.elim
  auth ha := by
    rw [adoptHash_s] at ha
    cases hp.symm.trans ha
  newkeys hn := by rw [adoptHash_s]
  hash := by
    have hfirst : firstExchangeHash [.exchangeHash hash] = some hash := rfl
    rw [adoptHash_obs, firstExchangeHash_append, adoptHash_s, h.hash, hfirst]
    cases w.s.haveSessionId <;> rfl

theorem AuthInv.exchange {w₁ w₂ : World} (h : AuthInv P env w) (hp : w.s.phase = .kexWaitEcdh)
    {hash : Bytes} (hq : Quiet P w w₁) (hq' : Quiet P (Server.adoptHash w₁ hash) w₂) :
    AuthInv P env (switchOutbound P w₂) := by
  have h₂ := ((h.quiet hq.toTame).adoptHash (hq.phase.trans hp) hash).quiet hq'.toTame
  have hhave : w₂.s.haveSessionId = true := by
    rw [hq'.haveSessionId, adoptHash_s]
  refine ⟨h₂.answers, nofun, h₂.past.snoc fun hpriv ↦ hpriv.elim, nofun, fun _ ↦ hhave, ?_⟩
  change firstExchangeHash (w₂.obs ++ [.deriveKeys w₂.s.sessionId]) = _
  rw [firstExchangeHash_append, h₂.hash]
  exact Option.or_none

theorem AuthInv.newkeysStep (h : AuthInv P env w) (hp : w.s.phase = .kexWaitNewkeys) :
    AuthInv P env (handleNewkeys w) :=
  ⟨h.answers, nofun, h.past, fun _ ↦ ⟨rfl, h.newkeys hp⟩, nofun, h.hash⟩

/-- A session in phase RUN may ask for a backend and write to it. -/
theorem AuthInv.connectBackend (h : AuthInv P env w) (hp : w.s.phase = .run) (b : Backend)
    (ref : ℤ) : AuthInv P env (connectBackend w b ref) := by
  refine h.grow rfl rfl ?_ rfl rfl rfl (.inl rfl)
  simp [Obs.Neutral, hp]

theorem AuthInv.backendSend (h : AuthInv P env w) (hp : w.s.phase = .run) (handle : ℤ)
    (data : Bytes) : AuthInv P env (itsSend w .backend handle data).2 := by
  refine h.grow rfl rfl ?_ rfl rfl rfl (.inl rfl)
  simp [Obs.Neutral, hp]

theorem AuthInv.send (h : AuthInv P env w) (payload : Bytes) :
    AuthInv P env (sendPacket P w payload) := by
  have hs := sendPacket_s P w payload
  refine h.grow (sendPacket_env P w payload) (sendPacket_obs P w payload) ?_ (by rw [hs])
    (by rw [hs]) (by rw [hs]) (.inl (by rw [hs]))
  intro o ho
  obtain ⟨_, rfl⟩ | ⟨_, rfl, _⟩ | ⟨_, _, _, rfl⟩ := mem_sendObs P ho <;>
    simp [Obs.Neutral, Obs.Privileged]

theorem AuthInv.replenish (h : AuthInv P env w) (written : ℕ) :
    AuthInv P env (replenish P w written) := by
  obtain ⟨os, hobs, hos⟩ := replenish_obs P w written
  have hc := replenish_control P w written
  refine h.grow (replenish_env P w written) hobs ?_ (congrArg Control.sessionId hc)
    (congrArg Control.haveSessionId hc) (congrArg Control.encInbound hc)
    (.inl (congrArg Control.phase hc))
  intro o ho
  obtain ⟨_, rfl⟩ | ⟨_, rfl, _⟩ | ⟨_, _, _, rfl⟩ := hos o ho <;>
    simp [Obs.Neutral, Obs.Privileged]

end

/-- What dispatching a packet finds on record. -/
theorem AuthInv.opened {w w₁ : World} {payload : Bytes} (h : AuthInv P env w)
    (hw : parsePacket P w = .got payload w₁) :
    AuthInv P env (w₁.note (.dispatch w₁.s payload)) := by
  obtain ⟨packet, rest, -, rfl⟩ := parsePacket_got P hw
  refine h.grow rfl (List.append_assoc w.obs [_] [_]) ?_ rfl rfl rfl (.inl rfl)
  simp [Obs.Neutral, Obs.Privileged]

/-- An accepted request is the proof that everything after it rests on. -/
theorem AuthInv.authenticated {w w₁ : World} {payload : Bytes} (h : AuthInv P env w)
    (hw : parsePacket P w = .got payload w₁) (hp : w₁.s.phase = .auth)
    (hj : ByPublickey P env (w₁.note (.dispatch w₁.s payload)).obs w₁.s payload ∨
      ByPassword env (w₁.note (.dispatch w₁.s payload)).obs payload) :
    Authenticated P env (w₁.note (.dispatch w₁.s payload)).obs := by
  obtain ⟨packet, rest, -, rfl⟩ := parsePacket_got P hw
  obtain ⟨henc, hhave⟩ := h.auth hp
  have hhash : firstExchangeHash w.obs = some w.s.sessionId := by
    rw [h.hash, hhave, if_pos rfl]
  refine ⟨w.obs, w.s.seqIn, packet, _, payload, [], ?_, hp, henc, hhash, ?_⟩
  · simp only [note_obs, modify_obs, List.append_assoc]
    rfl
  · simp only [note_obs, modify_obs, List.append_assoc] at hj
    exact hj

theorem AuthInv.packet {w w₁ w₂ : World} {payload : Bytes} {slot : ℤ} (h : AuthInv P env w)
    (hw : parsePacket P w = .got payload w₁)
    (ho : Outcome P slot (w₁.note (.dispatch w₁.s payload)) payload w₂) : AuthInv P env w₂ := by
  have hd := h.opened hw
  have hauth := h.authenticated hw
  generalize hwd : w₁.note (.dispatch w₁.s payload) = wd at ho hd hauth
  have hs : w₁.s = wd.s := by rw [← hwd, note_s]
  rw [hs] at hauth
  cases ho with
  | quiet hq => exact hd.quiet hq.toTame
  | hangUp hq => exact (hd.quiet hq.toTame).hangUp
  | kexinit alg ht hp hsel =>
    exact hd.grow rfl (List.append_nil _).symm (by simp) rfl rfl rfl (.inr ⟨nofun, nofun, nofun⟩)
  | exchange ht hp hash hq hq' => exact hd.exchange hp hq hq'
  | newkeys ht hp => exact hd.newkeysStep hp
  | @success w' hp hj hq =>
    have hproof := hauth hp (hd.answers ▸ hj)
    have hq' := hd.quiet hq.toTame
    obtain ⟨os, hobs, -⟩ := hq.obs
    exact ⟨hq'.answers, fun _ ↦ hobs ▸ hproof.append os, hq'.past, nofun, nofun, hq'.hash⟩
  | chanOpen hp hc peerCh peerWin peerMax =>
    have hopen : AuthInv P env (openChannel wd peerCh peerWin peerMax) :=
      hd.grow rfl (List.append_nil _).symm (by simp) rfl rfl rfl (.inl rfl)
    exact hopen.send _
  | backend hp b hr hq hq' =>
    exact ((hd.quiet hq.toTame).connectBackend (hq.phase.trans hp) b _).quiet hq'.toTame
  | exec hp b line hr hq hq' hh =>
    have hp' := hq.phase.trans hp
    have hp₂ := hq'.phase.trans hp'
    exact (((hd.quiet hq.toTame).connectBackend hp' b _).quiet hq'.toTame).backendSend hp₂ _ line
  | data hp d hdata hb => exact (hd.backendSend hp _ d).replenish _
  | chanClose hc hq => exact (hd.dropBackend.quiet hq.toTame).shut

theorem AuthInv.step {w w' : World} (h : AuthInv P env w) (hm : Move P w w') :
    AuthInv P env w' := by
  cases hm with
  | quiet hq => exact h.quiet hq.toTame
  | versionDone hp hq =>
    exact (h.quiet hq.toTame).grow rfl (List.append_nil _).symm (by simp) rfl rfl rfl
      (.inr ⟨nofun, nofun, nofun⟩)
  | hangUp hq => exact (h.quiet hq.toTame).hangUp
  | packet hp hw => exact h.packet hw (dispatchPacket_outcome P _ _ _)
  | dropBackend => exact h.dropBackend
  | chanShut hb => exact h.grow rfl (List.append_nil _).symm (by simp) rfl rfl rfl (.inl rfl)
  | teardown hb =>
    have hs := dropTcp_s w
    refine AuthInv.shut ?_
    refine h.grow (dropTcp_env w) (dropTcp_obs w) ?_ (by rw [hs]) (by rw [hs]) (by rw [hs])
      (.inl (by rw [hs]))
    split <;> simp [Obs.Neutral, Obs.Privileged]
  | freeSlot hp hc hb =>
    have hs := freeSlot_s w
    exact h.grow (freeSlot_env w) (by rw [freeSlot_obs, List.append_nil]) (by simp) (by rw [hs])
      (by rw [hs]) (by rw [hs]) (.inl (by rw [hs]))

theorem authInv_accepted (i : ℤ) (tcp : ℤ) : AuthInv P env (accepted i env tcp) := by
  obtain ⟨w, hq, henv, hobs, hs⟩ := accepted_tame i env tcp
  have hw : AuthInv P env w := by
    refine ⟨henv, ?_, ?_, ?_, ?_, ?_⟩
    · rw [hs]
      nofun
    · rw [hobs]
      exact eachAfter_singleton.mpr fun hpriv ↦ hpriv.elim
    · rw [hs]
      nofun
    · rw [hs]
      nofun
    · rw [hs, hobs]
      rfl
  exact hw.quiet hq

/-- A packet that takes a session into phase RUN is itself a proof of identity. -/
theorem dispatchPacket_run {w : World} {payload : Bytes} {slot : ℤ} (hp : w.s.phase ≠ .run)
    (hr : (dispatchPacket P w payload slot).1.s.phase = .run) :
    w.s.phase = .auth ∧
      (ByPublickey P w.env (w.obs ++ [.dispatch w.s payload]) w.s payload ∨
        ByPassword w.env (w.obs ++ [.dispatch w.s payload]) payload) := by
  have ho := dispatchPacket_outcome P w payload slot
  generalize (dispatchPacket P w payload slot).1 = w₂ at hr ho
  cases ho with
  | success hp' hj hq => exact ⟨hp', hj⟩
  | quiet hq => exact absurd (hq.phase.symm.trans hr) hp
  | chanOpen hp' => exact absurd hp' hp
  | backend hp' => exact absurd hp' hp
  | exec hp' => exact absurd hp' hp
  | data hp' => exact absurd hp' hp
  | hangUp => cases hr
  | kexinit => cases hr
  | exchange => cases hr
  | newkeys => cases hr
  | chanClose => cases hr

/-- Authentication safety: a session is in phase RUN, connects a backend or
writes to one only after an authenticated request of the same session, and
only such a request brings it into phase RUN. -/
theorem authentication_safety (P : Primitives) (env : Env) (i tcp : ℤ) (events : List Event) :
    ((runFrom P i (accepted i env tcp) events).s.phase = .run →
        Authenticated P env (runFrom P i (accepted i env tcp) events).obs) ∧
      EachAfter (fun pre o ↦ o.Privileged → Authenticated P env pre)
        (runFrom P i (accepted i env tcp) events).obs ∧
      ∀ (w : World) (payload : Bytes) (slot : ℤ), w.s.phase ≠ .run →
        (dispatchPacket P w payload slot).1.s.phase = .run →
        w.s.phase = .auth ∧
          (ByPublickey P w.env (w.obs ++ [.dispatch w.s payload]) w.s payload ∨
            ByPassword w.env (w.obs ++ [.dispatch w.s payload]) payload) := by
  have h : AuthInv P env (runFrom P i (accepted i env tcp) events) :=
    run_induction P i _ (fun _ _ h hm ↦ h.step hm) (authInv_accepted i tcp) events
  exact ⟨h.run, h.past, fun w payload slot hp hr ↦ dispatchPacket_run hp hr⟩

theorem authentication_safety_login :
    (sampleRun sampleEnv []).s.phase = .run ∧
      Authenticated standIn sampleEnv (sampleRun sampleEnv []).obs := by
  have hp : (sampleRun sampleEnv []).s.phase = .run := by decide +kernel
  have h := authentication_safety standIn sampleEnv 0 3 [.tcpArrive (clientBytes []), .tcpRecv]
  rw [← sampleRun] at h
  exact ⟨hp, h.1 hp⟩

end Sshd.Server
