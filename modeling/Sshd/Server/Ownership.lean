import Sshd.Server.Runs

namespace Sshd.Server

open Lib.Octets Wire Crypto

variable {P : Primitives}

/-- The backend connections that were made and not let go of. -/
def heldAfter (held : List ℤ) : Obs → List ℤ
  | .itsConnect _ _ _ handle => if 0 ≤ handle then held ++ [handle] else held
  | .itsDisconnect .backend handle => held.filter (· ≠ handle)
  | _ => held

def held (obs : List Obs) : List ℤ := obs.foldl heldAfter []

/-- The session holds the backend it knows of and no other, only while the
channel is open, and none once it has given up its slot. -/
structure OwnsBackend (w : World) : Prop where
  owned : held w.obs = if 0 ≤ w.s.backendHandle then [w.s.backendHandle] else []
  opened : held w.obs ≠ [] → w.s.chanOpen = true
  released : w.s.slot < 0 → held w.obs = []

/-- A backend is asked for when there is none, and granted to an open channel. -/
def ConnectsOnce (obs : List Obs) : Prop :=
  ∀ s b ref handle, .itsConnect s b ref handle ∈ obs →
    s.backendHandle < 0 ∧ (0 ≤ handle → s.chanOpen = true)

/-- Calls that leave the backend connections alone. -/
def Obs.Unheld : Obs → Prop
  | .itsConnect _ _ _ _ => False
  | .itsDisconnect link _ => link = .tcp
  | _ => True

theorem Obs.Calm.unheld {o : Obs} (h : o.Calm) : o.Unheld := by
  cases o <;> first | exact h.elim | trivial

theorem held_snoc (obs : List Obs) (o : Obs) : held (obs ++ [o]) = heldAfter (held obs) o := by
  rw [held, List.foldl_append]
  rfl

theorem held_unheld {obs os : List Obs} (h : ∀ o ∈ os, o.Unheld) :
    held (obs ++ os) = held obs := by
  induction os generalizing obs with
  | nil => rw [List.append_nil]
  | cons o os ih =>
    have ho := h o List.mem_cons_self
    rw [List.append_cons, ih fun o' ho' ↦ h o' (List.mem_cons_of_mem o ho'), held_snoc]
    cases o with
    | itsConnect => exact ho.elim
    | itsDisconnect link handle =>
      cases ho
      rfl
    | _ => rfl

/-- The invariant; a session without a slot is closed and holds nothing. -/
structure OwnInv (w : World) : Prop where
  owned : held w.obs = if 0 ≤ w.s.backendHandle then [w.s.backendHandle] else []
  opened : 0 ≤ w.s.backendHandle → w.s.chanOpen = true
  released : w.s.slot < 0 → w.s.phase = .closed ∧ w.s.backendHandle < 0

section
variable {w w' : World} {os : List Obs}

theorem OwnInv.grow (h : OwnInv w) (hobs : w'.obs = w.obs ++ os) (hos : ∀ o ∈ os, o.Unheld)
    (hb : w'.s.backendHandle = w.s.backendHandle) (hc : w'.s.chanOpen = w.s.chanOpen)
    (hslot : w'.s.slot = w.s.slot) (hphase : w.s.phase = .closed → w'.s.phase = .closed) :
    OwnInv w' where
  owned := by rw [hobs, held_unheld hos, hb, h.owned]
  opened := by
    rw [hb, hc]
    exact h.opened
  released hs := by
    rw [hb]
    obtain ⟨hp, hh⟩ := h.released (hslot ▸ hs)
    exact ⟨hphase hp, hh⟩

theorem OwnInv.quiet (h : OwnInv w) (hq : Tame w w') : OwnInv w' := by
  obtain ⟨os, hobs, hcalm⟩ := hq.obs
  exact h.grow hobs (fun o ho ↦ (hcalm o ho).unheld) hq.backendHandle hq.chanOpen hq.slot
    fun hp ↦ hq.phase.trans hp

theorem OwnInv.hangUp (h : OwnInv w) : OwnInv (hangUp w) :=
  h.grow rfl (by simp [Obs.Unheld]) rfl rfl rfl fun _ ↦ rfl

theorem OwnInv.dropBackend (h : OwnInv w) : OwnInv (dropBackend w) := by
  have hs := dropBackend_s w
  have hneg := dropBackend_backendHandle w
  refine ⟨?_, fun hb ↦ absurd hb (not_le.mpr hneg), ?_⟩
  · rw [if_neg (not_le.mpr hneg), dropBackend_obs, dropObs]
    by_cases hb : 0 ≤ w.s.backendHandle
    · have hown := h.owned
      rw [if_pos hb] at hown
      rw [if_pos hb, held_snoc, hown]
      simp [heldAfter]
    · have hown := h.owned
      rw [if_neg hb] at hown
      rw [if_neg hb, List.append_nil, hown]
  · intro hslot
    rw [hs] at hslot
    exact ⟨by rw [hs]; exact (h.released hslot).1, hneg⟩

theorem OwnInv.unopened (h : OwnInv w) (hb : w.s.backendHandle < 0) (f : Session → Session)
    (hfb : (f w.s).backendHandle = w.s.backendHandle) (hslot : (f w.s).slot = w.s.slot)
    (hphase : w.s.phase = .closed → (f w.s).phase = .closed) : OwnInv (w.modify f) where
  owned := by
    have hown := h.owned
    rw [modify_obs, modify_s, hfb]
    exact hown
  opened hb' := by
    rw [modify_s, hfb] at hb'
    exact absurd hb' (not_le.mpr hb)
  released hs := by
    rw [modify_s] at hs ⊢
    rw [hfb]
    exact ⟨hphase (h.released (hslot ▸ hs)).1, hb⟩

theorem OwnInv.connectBackend (h : OwnInv w) (hslot : 0 ≤ w.s.slot) (b : Backend) (ref : ℤ)
    (hb : w.s.backendHandle < 0) (hc : 0 ≤ w.env.itsConnect w.obs b → w.s.chanOpen = true) :
    OwnInv (connectBackend w b ref) where
  owned := by
    have hown := h.owned
    rw [if_neg (not_le.mpr hb)] at hown
    change held (w.obs ++ [.itsConnect w.s b ref (w.env.itsConnect w.obs b)]) =
      if 0 ≤ w.env.itsConnect w.obs b then [w.env.itsConnect w.obs b] else []
    rw [held_snoc, hown]
    rfl
  opened := hc
  released hs := absurd hslot (not_le.mpr hs)

theorem OwnInv.send (h : OwnInv w) (payload : Bytes) : OwnInv (sendPacket P w payload) := by
  have hs := sendPacket_s P w payload
  refine h.grow (sendPacket_obs P w payload) ?_ (by rw [hs]) (by rw [hs]) (by rw [hs])
    (by rw [hs]; exact id)
  intro o ho
  obtain ⟨_, rfl⟩ | ⟨_, rfl, _⟩ | ⟨_, _, _, rfl⟩ := mem_sendObs P ho <;> trivial

theorem OwnInv.replenish (h : OwnInv w) (written : ℕ) : OwnInv (replenish P w written) := by
  obtain ⟨os, hobs, hos⟩ := replenish_obs P w written
  have hc := replenish_control P w written
  refine h.grow hobs ?_ (congrArg Control.backendHandle hc) (congrArg Control.chanOpen hc)
    (congrArg Control.slot hc) fun hp ↦ (congrArg Control.phase hc).trans hp
  intro o ho
  obtain ⟨_, rfl⟩ | ⟨_, rfl, _⟩ | ⟨_, _, _, rfl⟩ := hos o ho <;> trivial

theorem OwnInv.backendSend (h : OwnInv w) (handle : ℤ) (data : Bytes) :
    OwnInv (itsSend w .backend handle data).2 :=
  h.grow rfl (by simp [Obs.Unheld]) rfl rfl rfl id

end

theorem ConnectsOnce.earlier {obs obs' : List Obs} (h : ConnectsOnce obs')
    (hp : obs <+: obs') : ConnectsOnce obs :=
  fun s b ref handle hm ↦ h s b ref handle (hp.subset hm)

theorem ConnectsOnce.connect {w w' : World} {b : Backend} {ref : ℤ} (h : ConnectsOnce w'.obs)
    (hp : (connectBackend w b ref).obs <+: w'.obs) :
    w.s.backendHandle < 0 ∧ (0 ≤ w.env.itsConnect w.obs b → w.s.chanOpen = true) :=
  h w.s b ref _ (hp.subset (List.mem_append_right _ (List.mem_singleton_self _)))

theorem OwnInv.packet {w w₁ w₂ : World} {payload : Bytes} {slot : ℤ} (h : OwnInv w)
    (hp : w.s.phase ≠ .closed) (hw : parsePacket P w = .got payload w₁)
    (ho : Outcome P slot (w₁.note (.dispatch w₁.s payload)) payload w₂) (hc : ConnectsOnce w₂.obs) :
    OwnInv w₂ := by
  have hslot : 0 ≤ w.s.slot := not_lt.mp fun hs ↦ hp (h.released hs).1
  obtain ⟨packet, rest, -, rfl⟩ := parsePacket_got P hw
  have hd : OwnInv (((w.note (.opened w.s.encInbound w.s.c2sKey w.s.seqIn packet payload)).modify
      fun s ↦ { s with rxBuf := rest, seqIn := s.seqIn + 1 }).note (.dispatch
        { w.s with rxBuf := rest, seqIn := w.s.seqIn + 1 } payload)) :=
    h.grow (List.append_assoc w.obs [_] [_]) (by simp [Obs.Unheld]) rfl rfl rfl id
  have hslotd : 0 ≤ (((w.note (.opened w.s.encInbound w.s.c2sKey w.s.seqIn packet payload)).modify
      fun s ↦ { s with rxBuf := rest, seqIn := s.seqIn + 1 }).note (.dispatch
        { w.s with rxBuf := rest, seqIn := w.s.seqIn + 1 } payload)).s.slot := hslot
  generalize hwd : ((w.note (.opened w.s.encInbound w.s.c2sKey w.s.seqIn packet payload)).modify
      fun s ↦ { s with rxBuf := rest, seqIn := s.seqIn + 1 }).note (.dispatch
        { w.s with rxBuf := rest, seqIn := w.s.seqIn + 1 } payload) = wd at hd hslotd
  have ho : Outcome P slot wd payload w₂ := hwd ▸ ho
  cases ho with
  | quiet hq => exact hd.quiet hq.toTame
  | hangUp hq => exact (hd.quiet hq.toTame).hangUp
  | kexinit alg ht hp hsel =>
    exact hd.grow (List.append_nil _).symm (by simp) rfl rfl rfl
      fun hcl ↦ by rcases hp with hp | hp <;> cases hp.symm.trans hcl
  | @exchange w₁ w₂ ht hp hash hq hq' =>
    have hs := adoptHash_s w₁ hash
    have hadopt : OwnInv (adoptHash w₁ hash) :=
      (hd.quiet hq.toTame).grow (adoptHash_obs w₁ hash) (by simp [Obs.Unheld]) (by rw [hs]) (by rw [hs])
        (by rw [hs]) fun hcl ↦ by rw [hs]; exact hcl
    refine (hadopt.quiet hq'.toTame).grow rfl (by simp [Obs.Unheld]) rfl rfl rfl fun hcl ↦ ?_
    rw [hq'.phase, hs, hq.phase, hp] at hcl
    cases hcl
  | newkeys ht hp =>
    exact hd.grow (List.append_nil _).symm (by simp) rfl rfl rfl fun hcl ↦ by
      cases hp.symm.trans hcl
  | success hp hj hq =>
    refine (hd.quiet hq.toTame).grow (List.append_nil _).symm (by simp) rfl rfl rfl fun hcl ↦ ?_
    rw [hq.phase, hp] at hcl
    cases hcl
  | chanOpen hp hch peerCh peerWin peerMax =>
    have hopen : OwnInv (openChannel wd peerCh peerWin peerMax) :=
      ⟨hd.owned, fun _ ↦ rfl, hd.released⟩
    exact hopen.send _
  | @backend w₁ _ hp b hr hq hq' =>
    obtain ⟨hb, hch⟩ := hc.connect hq'.obs_grows
    exact ((hd.quiet hq.toTame).connectBackend (hq.slot ▸ hslotd) b _ hb hch).quiet hq'.toTame
  | exec hp b line hr hq hq' hh =>
    obtain ⟨hb, hch⟩ := hc.connect (hq'.obs_grows.trans (List.prefix_append _ _))
    exact (((hd.quiet hq.toTame).connectBackend (hq.slot ▸ hslotd) b _ hb hch).quiet hq'.toTame).backendSend
      _ line
  | data hp d hdata hb => exact (hd.backendSend _ d).replenish _
  | chanClose hch hq =>
    have hdrop := hd.dropBackend.quiet hq.toTame
    refine hdrop.unopened ?_ _ rfl rfl fun _ ↦ rfl
    rw [hq.backendHandle]
    exact dropBackend_backendHandle wd

theorem OwnInv.step {w w' : World} (h : OwnInv w) (hm : Move P w w') (hone : ConnectsOnce w'.obs) :
    OwnInv w' := by
  cases hm with
  | quiet hq => exact h.quiet hq.toTame
  | versionDone hp hq =>
    refine (h.quiet hq.toTame).grow (List.append_nil _).symm (by simp) rfl rfl rfl fun hcl ↦ ?_
    rw [hq.phase, hp] at hcl
    cases hcl
  | hangUp hq => exact (h.quiet hq.toTame).hangUp
  | packet hp hw => exact h.packet hp.1 hw (dispatchPacket_outcome P _ _ _) hone
  | dropBackend => exact h.dropBackend
  | chanShut hb => exact h.unopened hb _ rfl rfl id
  | teardown hb =>
    have hs := dropTcp_s w
    have hdrop : OwnInv (dropTcp w) := by
      refine h.grow (dropTcp_obs w) ?_ (by rw [hs]) (by rw [hs]) (by rw [hs]) (by rw [hs]; exact id)
      split <;> simp [Obs.Unheld]
    exact hdrop.unopened (by rw [hs]; exact hb) _ rfl rfl fun _ ↦ rfl
  | freeSlot hp hc hb =>
    have hs := freeSlot_s w
    have hneg : ¬0 ≤ w.s.backendHandle := not_le.mpr hb
    refine ⟨?_, ?_, ?_⟩
    · rw [freeSlot_obs, hs]
      exact h.owned
    · rw [hs]
      exact h.opened
    · rw [hs]
      exact fun _ ↦ ⟨hp, hb⟩

theorem ownInv_accepted (i : ℕ) (env : Env) (tcp : ℤ) : OwnInv (accepted i env tcp) := by
  obtain ⟨w, hq, henv, hobs, hs⟩ := accepted_tame i env tcp
  have hw : OwnInv w := by
    refine ⟨?_, ?_, ?_⟩
    · rw [hobs, hs]
      rfl
    · rw [hs]
      intro hb
      change (0 : ℤ) ≤ -1 at hb
      omega
    · rw [hs]
      intro hslot
      exact absurd hslot (not_lt.mpr (Int.natCast_nonneg i))
  exact hw.quiet hq

/-- A session that asks for a backend only when it has none, for an open
channel, owns its backends in every run. -/
theorem owns_backend (P : Primitives) (env : Env) (i : ℕ) (tcp : ℤ) (events : List Event)
    (hc : ConnectsOnce (runFrom P i (accepted i env tcp) events).obs) :
    OwnsBackend (runFrom P i (accepted i env tcp) events) := by
  have h := run_induction P i (fun w ↦ ConnectsOnce w.obs → OwnInv w)
    (fun w w' h hm hc ↦ (h (hc.earlier (hm.obs_grows P))).step hm hc)
    (fun _ ↦ ownInv_accepted i env tcp) events hc
  refine ⟨h.owned, fun hne ↦ h.opened (not_lt.mp fun hb ↦ hne ?_), fun hs ↦ ?_⟩
  · rw [h.owned, if_neg (not_le.mpr hb)]
  · rw [h.owned, if_neg (not_le.mpr (h.released hs).2)]

/-- The connects on record, each with the session that made it. -/
def connects (obs : List Obs) : List (Session × ℤ) :=
  obs.filterMap fun o ↦ match o with
    | .itsConnect s _ _ handle => some (s, handle)
    | _ => none

theorem owns_backend_shell :
    OwnsBackend (sampleRun sampleEnv [clientChannelOpen 4096 1024, clientShell]) := by
  have hc : ∀ a ∈ connects (sampleRun sampleEnv [clientChannelOpen 4096 1024, clientShell]).obs,
      a.1.backendHandle < 0 ∧ (0 ≤ a.2 → a.1.chanOpen = true) := by
    decide +kernel
  refine owns_backend standIn sampleEnv 0 3
    [.tcpArrive (clientBytes [clientChannelOpen 4096 1024, clientShell]), .tcpRecv]
    fun s b ref handle hm ↦ hc (s, handle) ?_
  exact List.mem_filterMap.mpr ⟨_, hm, rfl⟩

/-- A second shell request overwrites the handle of the first backend. -/
theorem second_shell_leaks :
    ¬OwnsBackend
      (sampleRun sampleEnv [clientChannelOpen 4096 1024, clientShell, clientShell]) := by
  intro h
  exact absurd h.owned (by decide +kernel)

end Sshd.Server
