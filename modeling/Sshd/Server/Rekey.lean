import Mathlib.Data.List.Chain
import Sshd.Server.Runs

namespace Sshd.Server

open Lib.Octets Lib.Trace Wire Crypto

variable {P : Primitives}

/-- The hash of the latest key exchange on record. -/
def lastExchangeHash (obs : List Obs) : Option Bytes :=
  obs.foldl (fun last o ↦ match o with
    | .exchangeHash h => some h
    | _ => last) none

/-- Keys are derived from the hash that the same exchange has signed. -/
def HashAgrees (obs : List Obs) : Prop :=
  EachAfter (fun pre o ↦ ∀ h, o = .deriveKeys h → lastExchangeHash pre = some h) obs

/-- The key that inbound bytes are opened under, once they are encrypted. -/
def openKey (s : Session) : Option Bytes := if s.encInbound then some s.c2sKey else none

/-- The packets that were dispatched, each with the session it met. -/
def dispatches (obs : List Obs) : List (Session × Bytes) :=
  obs.filterMap fun o ↦ match o with
    | .dispatch s payload => some (s, payload)
    | _ => none

/-- From one packet to the next the inbound key changes only by `NEWKEYS`. -/
def KeyKept (a b : Session × Bytes) : Prop :=
  openKey b.1 = openKey a.1 ∨ a.2.head? = some msgNewkeys

instance : DecidableRel KeyKept := fun a b ↦
  inferInstanceAs (Decidable (openKey b.1 = openKey a.1 ∨ a.2.head? = some msgNewkeys))

/-- An authenticated session is in RUN or closed: no phase of a key exchange
leads back to RUN. -/
def Settled (s : Session) : Prop := s.authed = true → s.phase = .run ∨ s.phase = .closed

structure RekeySafe (w : World) : Prop where
  hash : HashAgrees w.obs
  key : List.IsChain KeyKept (dispatches w.obs ++ [(w.s, [])])
  authed : ∀ a ∈ dispatches w.obs ++ [(w.s, [])], Settled a.1

/-- No `KEXINIT` is accepted in RUN. -/
def SingleExchange (obs : List Obs) : Prop :=
  ∀ s payload, .dispatch s payload ∈ obs → s.phase = .run →
    payload.head? = some msgKexinit → selectKexAlg payload = none

/-- Nothing about keys or packets. -/
def Obs.Keyless : Obs → Prop
  | .dispatch _ _ | .exchangeHash _ | .deriveKeys _ => False
  | _ => True

theorem Obs.Calm.keyless {o : Obs} (h : o.Calm) : o.Keyless := by
  cases o <;> first | exact h.elim | trivial

theorem dispatches_append (obs os : List Obs) :
    dispatches (obs ++ os) = dispatches obs ++ dispatches os :=
  List.filterMap_append

theorem dispatches_keyless {os : List Obs} (h : ∀ o ∈ os, o.Keyless) : dispatches os = [] := by
  refine List.filterMap_eq_nil_iff.mpr fun o ho ↦ ?_
  have hk := h o ho
  cases o <;> first | exact hk.elim | rfl

theorem lastExchangeHash_keyless {obs os : List Obs} (h : ∀ o ∈ os, o.Keyless) :
    lastExchangeHash (obs ++ os) = lastExchangeHash obs := by
  induction os generalizing obs with
  | nil => rw [List.append_nil]
  | cons o os ih =>
    have ho := h o List.mem_cons_self
    rw [List.append_cons, ih fun o' ho' ↦ h o' (List.mem_cons_of_mem o ho')]
    unfold lastExchangeHash
    rw [List.foldl_append]
    cases o <;> first | exact ho.elim | rfl

/-- With a single exchange, a session identifier means that the exchange is
over, and authentication that it is behind the session for good. -/
structure RekeyInv (w : World) : Prop extends RekeySafe w where
  fresh : w.s.haveSessionId = false → w.s.encInbound = false ∧ w.s.authed = false
  early : w.s.phase = .version ∨ w.s.phase = .kexWaitKexinit ∨ w.s.phase = .kexWaitEcdh →
    w.s.haveSessionId = false
  newkeys : w.s.phase = .kexWaitNewkeys →
    w.s.haveSessionId = true ∧ w.s.encInbound = false ∧ w.s.authed = false
  auth : w.s.phase = .auth → w.s.haveSessionId = true ∧ w.s.authed = false

/-- A phase that the invariant allows every session to be in. -/
def Phase.Free (p : Phase) : Prop := p = .run ∨ p = .closed

section
variable {w w' : World} {os : List Obs}

theorem RekeySafe.grow (h : RekeySafe w) (hobs : w'.obs = w.obs ++ os) (hd : dispatches os = [])
    (hhash : EachAfter
      (fun pre o ↦ ∀ h, o = .deriveKeys h → lastExchangeHash (w.obs ++ pre) = some h) os)
    (hopen : openKey w'.s = openKey w.s) (hset : Settled w'.s) : RekeySafe w' := by
  have hsame : dispatches w'.obs = dispatches w.obs := by
    rw [hobs, dispatches_append, hd, List.append_nil]
  refine ⟨?_, ?_, ?_⟩
  · rw [HashAgrees, hobs]
    exact eachAfter_append.mpr ⟨h.hash, hhash⟩
  · rw [hsame]
    obtain ⟨hl, -, hr⟩ := List.isChain_append.mp h.key
    refine hl.append (.singleton _) fun a ha b hb ↦ ?_
    obtain rfl : (w'.s, []) = b := by simpa using hb
    obtain he | hn := hr a ha (w.s, []) (by simp)
    · exact .inl (hopen.trans he)
    · exact .inr hn
  · rw [hsame]
    intro a ha
    obtain ha | ha := List.mem_append.mp ha
    · exact h.authed a (List.mem_append_left _ ha)
    · obtain rfl := List.mem_singleton.mp ha
      exact hset

theorem eachAfter_keyless (hos : ∀ o ∈ os, o.Keyless) (obs : List Obs) :
    EachAfter (fun pre o ↦ ∀ h, o = .deriveKeys h → lastExchangeHash (obs ++ pre) = some h) os := by
  refine .of_forall fun o ho _ hash he ↦ ?_
  exact absurd (hos o ho) (by rw [he]; exact id)

theorem RekeyInv.settled (h : RekeyInv w) : Settled w.s :=
  h.authed (w.s, []) (by simp)

theorem RekeyInv.grow (h : RekeyInv w) (hobs : w'.obs = w.obs ++ os) (hos : ∀ o ∈ os, o.Keyless)
    (hhave : w'.s.haveSessionId = w.s.haveSessionId) (henc : w'.s.encInbound = w.s.encInbound)
    (hkey : w'.s.c2sKey = w.s.c2sKey) (hauthed : w'.s.authed = w.s.authed)
    (hphase : w'.s.phase = w.s.phase ∨ w'.s.phase.Free) : RekeyInv w' := by
  have hopen : openKey w'.s = openKey w.s := by rw [openKey, openKey, henc, hkey]
  have hback : ∀ p : Phase, ¬p.Free → w'.s.phase = p → w.s.phase = p := by
    intro p hp hw
    obtain he | hf := hphase
    · exact he ▸ hw
    · exact absurd (hw ▸ hf) hp
  have hset : Settled w'.s := by
    intro hw
    obtain he | he := hphase
    · rw [he]
      exact h.settled (hauthed ▸ hw)
    · exact he
  refine ⟨h.toRekeySafe.grow hobs (dispatches_keyless hos) (eachAfter_keyless hos _) hopen hset,
    ?_, ?_, ?_, ?_⟩
  · rw [hhave, henc, hauthed]
    exact h.fresh
  · rw [hhave]
    refine fun hp ↦ h.early (hp.imp ?_ (Or.imp ?_ ?_))
    · exact hback .version (by simp [Phase.Free])
    · exact hback .kexWaitKexinit (by simp [Phase.Free])
    · exact hback .kexWaitEcdh (by simp [Phase.Free])
  · intro hp
    rw [hhave, henc, hauthed]
    exact h.newkeys (hback .kexWaitNewkeys (by simp [Phase.Free]) hp)
  · intro hp
    rw [hhave, hauthed]
    exact h.auth (hback .auth (by simp [Phase.Free]) hp)

theorem RekeyInv.quiet (h : RekeyInv w) (hq : Tame w w') : RekeyInv w' := by
  obtain ⟨os, hobs, hcalm⟩ := hq.obs
  exact h.grow hobs (fun o ho ↦ (hcalm o ho).keyless) hq.haveSessionId hq.encInbound hq.c2sKey
    hq.authed (.inl hq.phase)

theorem RekeyInv.hangUp (h : RekeyInv w) : RekeyInv (hangUp w) :=
  h.grow rfl (by simp [Obs.Keyless]) rfl rfl rfl rfl (.inr (.inr rfl))

theorem RekeyInv.shut (h : RekeyInv w) : RekeyInv (shut w) :=
  h.grow (List.append_nil _).symm (by simp) rfl rfl rfl rfl (.inr (.inr rfl))

theorem RekeyInv.dropBackend (h : RekeyInv w) : RekeyInv (dropBackend w) := by
  have hs := dropBackend_s w
  refine h.grow (dropBackend_obs w) ?_ (by rw [hs]) (by rw [hs]) (by rw [hs]) (by rw [hs])
    (.inl (by rw [hs]))
  unfold dropObs
  split <;> simp [Obs.Keyless]

theorem RekeyInv.send (h : RekeyInv w) (payload : Bytes) : RekeyInv (sendPacket P w payload) := by
  have hs := sendPacket_s P w payload
  refine h.grow (sendPacket_obs P w payload) ?_ (by rw [hs]) (by rw [hs]) (by rw [hs]) (by rw [hs])
    (.inl (by rw [hs]))
  intro o ho
  obtain ⟨_, rfl⟩ | ⟨_, rfl, _⟩ | ⟨_, _, _, rfl⟩ := mem_sendObs P ho <;> trivial

theorem RekeyInv.replenish (h : RekeyInv w) (written : ℕ) : RekeyInv (replenish P w written) := by
  obtain ⟨os, hobs, hos⟩ := replenish_obs P w written
  have hc := replenish_control P w written
  refine h.grow hobs ?_ (congrArg Control.haveSessionId hc) (congrArg Control.encInbound hc)
    (congrArg Control.c2sKey hc) (congrArg Control.authed hc) (.inl (congrArg Control.phase hc))
  intro o ho
  obtain ⟨_, rfl⟩ | ⟨_, rfl, _⟩ | ⟨_, _, _, rfl⟩ := hos o ho <;> trivial

theorem RekeyInv.connectBackend (h : RekeyInv w) (b : Backend) (ref : ℤ) :
    RekeyInv (connectBackend w b ref) :=
  h.grow rfl (by simp [Obs.Keyless]) rfl rfl rfl rfl (.inl rfl)

theorem RekeyInv.backendSend (h : RekeyInv w) (handle : ℤ) (data : Bytes) :
    RekeyInv (itsSend w .backend handle data).2 :=
  h.grow rfl (by simp [Obs.Keyless]) rfl rfl rfl rfl (.inl rfl)

theorem RekeyInv.opened {w₁ : World} {payload : Bytes} (h : RekeyInv w)
    (hw : parsePacket P w = .got payload w₁) : RekeyInv (w₁.note (.dispatch w₁.s payload)) := by
  obtain ⟨packet, rest, -, rfl⟩ := parsePacket_got P hw
  have h₁ : RekeyInv ((w.note (.opened w.s.encInbound w.s.c2sKey w.s.seqIn packet payload)).modify
      fun s ↦ { s with rxBuf := rest, seqIn := s.seqIn + 1 }) :=
    h.grow rfl (by simp [Obs.Keyless]) rfl rfl rfl rfl (.inl rfl)
  generalize (w.note (.opened w.s.encInbound w.s.c2sKey w.s.seqIn packet payload)).modify
      (fun s ↦ { s with rxBuf := rest, seqIn := s.seqIn + 1 }) = w₁ at h₁
  have hd : dispatches (w₁.obs ++ [.dispatch w₁.s payload]) =
      dispatches w₁.obs ++ [(w₁.s, payload)] := dispatches_append _ _
  refine ⟨⟨h₁.hash.snoc nofun, ?_, ?_⟩, h₁.fresh, h₁.early, h₁.newkeys, h₁.auth⟩
  · rw [note_obs, hd]
    obtain ⟨hl, -, hr⟩ := List.isChain_append.mp h₁.key
    refine (hl.append (.singleton _) fun a ha b hb ↦ ?_).append (.singleton _) fun a ha b hb ↦ ?_
    · obtain rfl : (w₁.s, payload) = b := by simpa using hb
      exact hr a ha (w₁.s, []) (by simp)
    · obtain rfl : (w₁.s, payload) = a := by simpa using ha
      obtain rfl : (w₁.s, []) = b := by simpa using hb
      exact .inl rfl
  · rw [note_obs, hd]
    intro a ha
    obtain ha | ha := List.mem_append.mp ha
    · obtain ha | ha := List.mem_append.mp ha
      · exact h₁.authed a (List.mem_append_left _ ha)
      · obtain rfl := List.mem_singleton.mp ha
        exact h₁.settled
    · obtain rfl := List.mem_singleton.mp ha
      exact h₁.settled

/-- A session before the exchange goes on to another phase of it. -/
theorem RekeyInv.before (h : RekeyInv w) (hhave : w.s.haveSessionId = false)
    {f : Session → Session} (hf : (f w.s).control = { w.s.control with phase := (f w.s).phase })
    (hp : (f w.s).phase = .kexWaitKexinit ∨ (f w.s).phase = .kexWaitEcdh) :
    RekeyInv (w.modify f) := by
  obtain ⟨henc, hauthed⟩ := h.fresh hhave
  have hhave' : (f w.s).haveSessionId = w.s.haveSessionId := congrArg Control.haveSessionId hf
  have henc' : (f w.s).encInbound = w.s.encInbound := congrArg Control.encInbound hf
  have hkey' : (f w.s).c2sKey = w.s.c2sKey := congrArg Control.c2sKey hf
  have hauthed' : (f w.s).authed = w.s.authed := congrArg Control.authed hf
  have hset : Settled (f w.s) := by
    intro ha
    cases (hauthed'.trans hauthed).symm.trans ha
  refine ⟨h.toRekeySafe.grow (List.append_nil _).symm rfl (eachAfter_nil _) ?_ hset, ?_, ?_, ?_, ?_⟩
  · change openKey (f w.s) = openKey w.s
    rw [openKey, openKey, henc', hkey']
  · exact fun _ ↦ ⟨henc'.trans henc, hauthed'.trans hauthed⟩
  · exact fun _ ↦ hhave'.trans hhave
  · intro hn
    have hn' : (f w.s).phase = .kexWaitNewkeys := hn
    simp [hn'] at hp
  · intro hn
    have hn' : (f w.s).phase = .auth := hn
    simp [hn'] at hp

/-- The first exchange: no bytes have been encrypted yet, so that the new key
replaces none. -/
theorem RekeyInv.exchange {w₁ w₂ : World} {hash : Bytes} (h : RekeyInv w)
    (hhave : w.s.haveSessionId = false) (hq : Quiet P w w₁)
    (hq' : Quiet P (adoptHash w₁ hash) w₂) : RekeyInv (switchOutbound P w₂) := by
  obtain ⟨henc, hauthed⟩ := h.fresh hhave
  have hs := adoptHash_s w₁ hash
  have henc₂ : w₂.s.encInbound = false := by rw [hq'.encInbound, hs, hq.encInbound, henc]
  have hauthed₂ : w₂.s.authed = false := by rw [hq'.authed, hs, hq.authed, hauthed]
  have hid : w₂.s.sessionId = hash := by
    rw [hq'.sessionId, hs, hq.haveSessionId, hhave]
    rfl
  have hadopt : RekeySafe (adoptHash w₁ hash) := by
    refine (h.quiet hq.toTame).toRekeySafe.grow (adoptHash_obs w₁ hash) rfl
      (eachAfter_singleton.mpr nofun) ?_ ?_
    · rw [hs, openKey, openKey]
    · rw [hs]
      intro ha
      rw [hq.authed, hauthed] at ha
      cases ha
  obtain ⟨os, hobs, hcalm⟩ := hq'.obs
  have hkeyless : ∀ o ∈ os, o.Keyless := fun o ho ↦ (hcalm o ho).keyless
  have hsafe : RekeySafe w₂ := by
    refine hadopt.grow hobs (dispatches_keyless hkeyless) (eachAfter_keyless hkeyless _) ?_ ?_
    · rw [openKey, openKey, hq'.encInbound, hq'.c2sKey]
    · intro ha
      rw [hauthed₂] at ha
      cases ha
  have hlast : lastExchangeHash w₂.obs = some hash := by
    rw [hobs, lastExchangeHash_keyless hkeyless, adoptHash_obs, lastExchangeHash, List.foldl_append]
    rfl
  have hswitch : RekeySafe (switchOutbound P w₂) := by
    have hobs : (switchOutbound P w₂).obs = w₂.obs ++ [.deriveKeys w₂.s.sessionId] := rfl
    refine hsafe.grow hobs rfl ?_ ?_ ?_
    · refine eachAfter_singleton.mpr fun h he ↦ ?_
      rw [List.append_nil, hlast, ← hid, Obs.deriveKeys.inj he]
    · have henc' : (switchOutbound P w₂).s.encInbound = w₂.s.encInbound := rfl
      rw [openKey, openKey, henc', henc₂]
      rfl
    · intro ha
      cases hauthed₂.symm.trans ha
  have hhave₂ : (switchOutbound P w₂).s.haveSessionId = true := by
    have he : (switchOutbound P w₂).s.haveSessionId = w₂.s.haveSessionId := rfl
    rw [he, hq'.haveSessionId, hs]
  refine ⟨hswitch, ?_, ?_, fun _ ↦ ⟨hhave₂, henc₂, hauthed₂⟩, nofun⟩
  · intro hf
    cases hhave₂.symm.trans hf
  · rintro (hp' | hp' | hp') <;> cases hp'

/-- `NEWKEYS` is the last packet on record and may switch the inbound key. -/
theorem RekeyInv.newkeysStep {s : Session} {payload : Bytes} (h : RekeyInv w)
    (hlast : ∃ obs, dispatches w.obs = dispatches obs ++ [(s, payload)])
    (ht : payload.head? = some msgNewkeys) (hp : w.s.phase = .kexWaitNewkeys) :
    RekeyInv (handleNewkeys w) := by
  obtain ⟨hhave, -, hauthed⟩ := h.newkeys hp
  have hset : Settled (handleNewkeys w).s := by
    intro ha
    cases hauthed.symm.trans ha
  have hhave' : (handleNewkeys w).s.haveSessionId = true := hhave
  refine ⟨⟨h.hash, ?_, ?_⟩, ?_, ?_, nofun, fun _ ↦ ⟨hhave', hauthed⟩⟩
  · obtain ⟨obs, hd⟩ := hlast
    have hl := (List.isChain_append.mp h.key).1
    change List.IsChain KeyKept (dispatches w.obs ++ [((handleNewkeys w).s, [])])
    refine hl.append (.singleton _) fun a ha b hb ↦ ?_
    rw [hd] at ha
    obtain rfl : (s, payload) = a := by simpa using ha
    exact .inr ht
  · intro a ha
    obtain ha | ha := List.mem_append.mp ha
    · exact h.authed a (List.mem_append_left _ ha)
    · obtain rfl := List.mem_singleton.mp ha
      exact hset
  · intro hf
    cases hhave'.symm.trans hf
  · rintro (hp' | hp' | hp') <;> cases hp'

theorem RekeyInv.success (h : RekeyInv w) (hhave : w.s.haveSessionId = true) :
    RekeyInv (w.modify fun s ↦ { s with authed := true, phase := .run }) := by
  refine ⟨h.toRekeySafe.grow (List.append_nil _).symm rfl (eachAfter_nil _) rfl
    (fun _ ↦ .inl rfl), ?_, ?_, nofun, nofun⟩
  · intro hf
    cases hhave.symm.trans hf
  · rintro (hp | hp | hp) <;> cases hp

end

theorem SingleExchange.earlier {obs obs' : List Obs} (h : SingleExchange obs')
    (hp : obs <+: obs') : SingleExchange obs :=
  fun s payload hm ↦ h s payload (hp.subset hm)

theorem RekeyInv.packet {w w₁ w₂ : World} {payload : Bytes} {slot : ℤ} (h : RekeyInv w)
    (hw : parsePacket P w = .got payload w₁)
    (ho : Outcome P slot (w₁.note (.dispatch w₁.s payload)) payload w₂)
    (hone : SingleExchange (w₁.note (.dispatch w₁.s payload)).obs) : RekeyInv w₂ := by
  have hd := h.opened hw
  have hlast : dispatches (w₁.note (.dispatch w₁.s payload)).obs =
      dispatches w₁.obs ++ [(w₁.s, payload)] := dispatches_append _ _
  have hmem : .dispatch w₁.s payload ∈ (w₁.note (.dispatch w₁.s payload)).obs := by simp
  have hs : w₁.s = (w₁.note (.dispatch w₁.s payload)).s := rfl
  generalize w₁.note (.dispatch w₁.s payload) = wd at ho hd hlast hmem hs hone
  cases ho with
  | quiet hq => exact hd.quiet hq.toTame
  | hangUp hq => exact (hd.quiet hq.toTame).hangUp
  | kexinit alg ht hp hsel =>
    obtain hp | hp := hp
    · exact hd.before (hd.early (.inr (.inl hp))) rfl (.inr rfl)
    -- a second exchange would begin here
    · rw [hone w₁.s payload hmem (hs ▸ hp) ht] at hsel
      cases hsel
  | exchange ht hp hash hq hq' => exact hd.exchange (hd.early (.inr (.inr hp))) hq hq'
  | newkeys ht hp => exact hd.newkeysStep ⟨_, hlast⟩ ht hp
  | success hp hj hq =>
    refine (hd.quiet hq.toTame).success ?_
    rw [hq.haveSessionId]
    exact (hd.auth hp).1
  | chanOpen hp hc peerCh peerWin peerMax =>
    have hopen : RekeyInv (openChannel wd peerCh peerWin peerMax) :=
      hd.grow (List.append_nil _).symm (by simp) rfl rfl rfl rfl (.inl rfl)
    exact hopen.send _
  | backend hp b hr hq hq' => exact ((hd.quiet hq.toTame).connectBackend b _).quiet hq'.toTame
  | exec hp b line hr hq hq' hh =>
    exact (((hd.quiet hq.toTame).connectBackend b _).quiet hq'.toTame).backendSend _ line
  | data hp d hdata hb => exact (hd.backendSend _ d).replenish _
  | chanClose hc hq => exact (hd.dropBackend.quiet hq.toTame).shut

theorem RekeyInv.step {w w' : World} (h : RekeyInv w) (hm : Move P w w')
    (hone : SingleExchange w'.obs) : RekeyInv w' := by
  cases hm with
  | quiet hq => exact h.quiet hq.toTame
  | @versionDone w' hp hq =>
    have h' := h.quiet hq.toTame
    exact h'.before (h'.early (.inl (hq.phase.trans hp))) rfl (.inl rfl)
  | hangUp hq => exact (h.quiet hq.toTame).hangUp
  | @packet w₁ payload hp hw =>
    have ho := dispatchPacket_outcome P w₁ payload w₁.s.slot
    exact h.packet hw ho (hone.earlier (ho.obs_grows P))
  | dropBackend => exact h.dropBackend
  | chanShut hb => exact h.grow (List.append_nil _).symm (by simp) rfl rfl rfl rfl (.inl rfl)
  | teardown hb =>
    have hs := dropTcp_s w
    refine RekeyInv.shut ?_
    refine h.grow (dropTcp_obs w) ?_ (by rw [hs]) (by rw [hs]) (by rw [hs]) (by rw [hs])
      (.inl (by rw [hs]))
    split <;> simp [Obs.Keyless]
  | freeSlot hp hc hb =>
    have hs := freeSlot_s w
    exact h.grow (by rw [freeSlot_obs, List.append_nil]) (by simp) (by rw [hs]) (by rw [hs])
      (by rw [hs]) (by rw [hs]) (.inl (by rw [hs]))

theorem rekeyInv_accepted (i : ℤ) (env : Env) (tcp : ℤ) : RekeyInv (accepted i env tcp) := by
  obtain ⟨w, hq, henv, hobs, hs⟩ := accepted_tame i env tcp
  have hd : dispatches w.obs = [] := by
    rw [hobs]
    rfl
  have hw : RekeyInv w := by
    refine ⟨⟨?_, ?_, ?_⟩, ?_, ?_, ?_, ?_⟩
    · rw [hobs]
      exact eachAfter_singleton.mpr nofun
    · rw [hd]
      exact .singleton _
    · rw [hd]
      intro a ha
      obtain rfl := List.mem_singleton.mp ha
      rw [hs]
      nofun
    · rw [hs]
      exact fun _ ↦ ⟨rfl, rfl⟩
    · rw [hs]
      exact fun _ ↦ rfl
    · rw [hs]
      nofun
    · rw [hs]
      nofun
  exact hw.quiet hq

/-- As long as no second exchange begins, every run keeps its keys, its session
identifier and its authentication straight. -/
theorem rekey_safe (P : Primitives) (env : Env) (i tcp : ℤ) (events : List Event)
    (hone : SingleExchange (runFrom P i (accepted i env tcp) events).obs) :
    RekeySafe (runFrom P i (accepted i env tcp) events) := by
  have h := run_induction P i (fun w ↦ SingleExchange w.obs → RekeyInv w)
    (fun w w' h hm hone ↦ ?_) (fun _ ↦ rekeyInv_accepted i env tcp) events hone
  · exact h.toRekeySafe
  · exact (h (hone.earlier (hm.obs_grows P))).step hm hone

/-- A client that logs in and then sends a `KEXINIT` that names no algorithm. -/
theorem rekey_safe_login :
    RekeySafe (sampleRun sampleEnv [[msgIgnore], [msgKexinit], [msgIgnore]]) := by
  have hone : ∀ a ∈ dispatches (sampleRun sampleEnv [[msgIgnore], [msgKexinit], [msgIgnore]]).obs,
      a.1.phase = .run → a.2.head? = some msgKexinit → selectKexAlg a.2 = none := by
    decide +kernel
  refine rekey_safe standIn sampleEnv 0 3
    [.tcpArrive (clientBytes [[msgIgnore], [msgKexinit], [msgIgnore]]), .tcpRecv]
    fun s payload hm ↦ hone (s, payload) ?_
  exact List.mem_filterMap.mpr ⟨_, hm, rfl⟩

/-- A client that rekeys: the inbound key is replaced by `KEX_ECDH_INIT`, before
the client's `NEWKEYS`. -/
theorem rekey_replaces_key : ¬RekeySafe (sampleRun sampleEnv [clientKexinit, clientEcdhInit]) := by
  intro h
  exact absurd h.key (by decide +kernel)

end Sshd.Server
