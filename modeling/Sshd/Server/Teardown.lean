import Sshd.Server.OutputDelivery
import Sshd.Server.Traffic

namespace Sshd.Server

open Lib.Octets Lib.Trace Wire Crypto

variable {P : Primitives}

/-! How a session gives up its connections. -/

/-- The TCP connections that were given up, in order. -/
def tcpReleases (obs : List Obs) : List ℤ :=
  obs.filterMap fun o ↦ match o with
    | .itsDisconnect .tcp handle => some handle
    | _ => none

/-- A TCP connection is given up behind a wait for its queue, with nothing sent
in between. -/
def AfterDrain (pre : List Obs) : Obs → Prop
  | .itsDisconnect .tcp handle =>
    ∃ pre' mid, pre = pre' ++ .itsSendDrain handle :: mid ∧ sentPayloads mid = []
  | _ => True

/-- The connection `tcp` is given up once the session is over, once only and
drained, and `session_close` leaves no handle and nothing to do again. -/
structure Releases (tcp : ℤ) (w : World) : Prop where
  running : w.s.phase ≠ .closed → tcpReleases w.obs = []
  once : w.s.phase = .closed → tcpReleases w.obs = [tcp]
  drained : EachAfter AfterDrain w.obs
  handles : (sessionClose w).s.tcp < 0 ∧ (sessionClose w).s.backendHandle < 0
  again : sessionClose (sessionClose w) = sessionClose w

/-- Neither side has sent a DISCONNECT. -/
structure Undisconnected (obs : List Obs) : Prop where
  sent : ∀ payload ∈ sentPayloads obs, payload.head? ≠ some msgDisconnect
  received : ∀ s payload, .dispatch s payload ∈ obs → payload.head? ≠ some msgDisconnect

theorem tcpReleases_append (obs os : List Obs) :
    tcpReleases (obs ++ os) = tcpReleases obs ++ tcpReleases os := List.filterMap_append

theorem undisconnected_append {obs os : List Obs} :
    Undisconnected (obs ++ os) ↔ Undisconnected obs ∧ Undisconnected os := by
  constructor
  · rintro ⟨hs, hr⟩
    rw [sentPayloads_append] at hs
    exact ⟨⟨fun p hp ↦ hs p (List.mem_append_left _ hp),
        fun s p hp ↦ hr s p (List.mem_append_left _ hp)⟩,
      ⟨fun p hp ↦ hs p (List.mem_append_right _ hp),
        fun s p hp ↦ hr s p (List.mem_append_right _ hp)⟩⟩
  · rintro ⟨⟨hs, hr⟩, hs', hr'⟩
    refine ⟨fun p hp ↦ ?_, fun s p hp ↦ ?_⟩
    · rw [sentPayloads_append] at hp
      exact (List.mem_append.mp hp).elim (hs p) (hs' p)
    · exact (List.mem_append.mp hp).elim (hr s p) (hr' s p)

/-- Calls that neither give up the TCP connection nor carry a DISCONNECT. -/
def Obs.Lasting : Obs → Prop
  | .itsDisconnect link _ => link = .backend
  | .sealed f => f.payload.head? ≠ some msgDisconnect
  | .dispatch _ payload => payload.head? ≠ some msgDisconnect
  | _ => True

theorem Obs.Aside.lasting {o : Obs} (h : o.Aside) : o.Lasting := by
  cases o with
  | sealed => exact h.2
  | itsDisconnect => exact h
  | dispatch => exact h.elim
  | _ => trivial

section
variable {w w' : World} {os : List Obs} {tcp : ℤ}

theorem tcpReleases_lasting (h : ∀ o ∈ os, o.Lasting) : tcpReleases os = [] := by
  refine List.filterMap_eq_nil_iff.mpr fun o ho ↦ ?_
  have hl := h o ho
  cases o with
  | itsDisconnect =>
    cases hl
    rfl
  | _ => rfl

theorem undisconnected_lasting (h : ∀ o ∈ os, o.Lasting) : Undisconnected os := by
  refine ⟨fun payload hp ↦ ?_, fun s payload hp ↦ h _ hp⟩
  obtain ⟨o, ho, hf⟩ := List.mem_filterMap.mp hp
  have hl := h o ho
  cases o with
  | sealed =>
    cases hf
    exact hl
  | _ => cases hf

/-- A session that is up. -/
structure Running (tcp : ℤ) (w : World) : Prop where
  phase : w.s.phase ≠ .closed
  linked : w.s.tcp = tcp
  releases : tcpReleases w.obs = []
  undisconnected : Undisconnected w.obs

/-- A session that is over and waits for `session_close`. -/
structure Ending (tcp : ℤ) (w : World) : Prop where
  phase : w.s.phase = .closed
  slot : 0 ≤ w.s.slot
  linked : w.s.tcp = tcp
  releases : tcpReleases w.obs = [] ∧ Undisconnected w.obs ∨
    tcpReleases w.obs = [tcp] ∧ ¬Undisconnected w.obs

/-- A session that `session_close` is done with. -/
structure Ended (tcp : ℤ) (w : World) : Prop where
  phase : w.s.phase = .closed
  slot : w.s.slot < 0
  handles : w.s.tcp < 0 ∧ w.s.backendHandle < 0
  releases : tcpReleases w.obs = [tcp] ∧ EachAfter AfterDrain w.obs ∧ Undisconnected w.obs ∨
    tcpReleases w.obs = [tcp, tcp] ∧ ¬Undisconnected w.obs

inductive TearInv (tcp : ℤ) (w : World) : Prop
  | running (h : Running tcp w)
  | ending (h : Ending tcp w)
  | ended (h : Ended tcp w)

/-! Steps of a session that is up. -/

theorem Running.grow (h : Running tcp w) (hobs : w'.obs = w.obs ++ os) (hos : ∀ o ∈ os, o.Lasting)
    (hp : w'.s.phase ≠ .closed) (htcp : w'.s.tcp = w.s.tcp) : Running tcp w' where
  phase := hp
  linked := htcp.trans h.linked
  releases := by rw [hobs, tcpReleases_append, h.releases, tcpReleases_lasting hos]; rfl
  undisconnected := by
    rw [hobs]
    exact undisconnected_append.mpr ⟨h.undisconnected, undisconnected_lasting hos⟩

theorem Running.same (h : Running tcp w) (hobs : w'.obs = w.obs) (hp : w'.s.phase ≠ .closed)
    (htcp : w'.s.tcp = w.s.tcp) : Running tcp w' :=
  h.grow (hobs.trans (List.append_nil _).symm) (by simp) hp htcp

theorem Running.aside (h : Running tcp w) (ha : Aside w w') : Running tcp w' := by
  obtain ⟨os, hobs, hos⟩ := ha.obs
  exact h.grow hobs (fun o ho ↦ (hos o ho).lasting) (fun hc ↦ h.phase (ha.phase.mp hc)) ha.tcp

theorem Running.drain (h : Running tcp w) (hw : CanSend w.s) :
    Running tcp (sessionOnBackendData P w) := by
  have hq := sessionOnBackendData_quiet P w
  obtain ⟨os, hobs, hcalm⟩ := hq.obs
  obtain ⟨chunks, hsent⟩ := sessionOnBackendData_sends (P := P) hw
  rw [hobs, sentPayloads_append] at hsent
  have hchunks := List.append_cancel_left hsent
  refine h.grow hobs (fun o ho ↦ ?_) (by rw [hq.phase]; exact h.phase) hq.tcp
  have hc := hcalm o ho
  cases o with
  | sealed f =>
    have hm : f.payload ∈ sentPayloads os := List.mem_filterMap.mpr ⟨_, ho, rfl⟩
    rw [hchunks] at hm
    obtain ⟨chunk, -, he⟩ := List.mem_map.mp hm
    change f.payload.head? ≠ _
    rw [← he]
    exact fun hd ↦ absurd (Option.some.inj hd) (by decide)
  | itsDisconnect => exact hc.elim
  | dispatch => exact hc.elim
  | _ => trivial

/-- `send_disconnect` gives up the connection at once. -/
theorem Running.bye (h : Running tcp w) (hw : CanSend w.s) (hslot : 0 ≤ w.s.slot) (code : UInt32)
    (msg : String) : Ending tcp (sendDisconnect P w code msg) := by
  set p := disconnect code msg with hdef
  have hobs := sendDisconnect_obs (P := P) w code msg
  have hs : (sendPacket P w p).s.tcp = tcp ∧ (sendPacket P w p).s.slot = w.s.slot := by
    rw [sendPacket_s]
    exact ⟨h.linked, rfl⟩
  have hnone : tcpReleases (sendPacket P w p).obs = [] :=
    (filterMap_send (fun _ ↦ rfl) (fun _ ↦ rfl) (fun _ _ _ _ ↦ rfl) w p).trans h.releases
  refine ⟨rfl, hs.2 ▸ hslot, hs.1, .inr ⟨?_, fun hu ↦ ?_⟩⟩
  · rw [hobs, tcpReleases_append, hnone, hs.1]
    rfl
  · have hm : p ∈ sentPayloads (sendDisconnect P w code msg).obs := by
      rw [sentPayloads_bye hw]
      exact List.mem_append_right _ (List.mem_singleton_self p)
    exact hu.sent p hm rfl

/-- So does a DISCONNECT of the client. -/
theorem Running.hangUp (h : Running tcp w) (hslot : 0 ≤ w.s.slot) {payload : Bytes}
    (ht : payload.head? = some msgDisconnect) :
    Ending tcp (hangUp (w.note (.dispatch w.s payload))) := by
  have hobs : (Server.hangUp (w.note (.dispatch w.s payload))).obs =
      w.obs ++ [.dispatch w.s payload, .itsDisconnect .tcp w.s.tcp] := List.append_assoc ..
  refine ⟨rfl, hslot, h.linked, .inr ⟨?_, fun hu ↦ ?_⟩⟩
  · rw [hobs, tcpReleases_append, h.releases, h.linked]
    rfl
  · exact hu.received w.s payload (by rw [hobs]; simp) ht

theorem Running.shut (h : Running tcp w) (hslot : 0 ≤ w.s.slot) : Ending tcp (shut w) :=
  ⟨rfl, hslot, h.linked, .inl ⟨h.releases, h.undisconnected⟩⟩

/-! `session_close`. -/

theorem sessionClose_slot (w : World) : (sessionClose w).s.slot < 0 := by
  by_cases h : w.s.phase = .closed ∧ w.s.slot < 0
  · rw [sessionClose, if_pos h]
    exact h.2
  · rw [sessionClose_eq h, freeSlot_s]
    split
    · exact Int.negSucc_lt_zero 0
    · rename_i hn
      exact not_le.mp hn

/-- A second `session_close` has no effect. -/
theorem sessionClose_again (w : World) : sessionClose (sessionClose w) = sessionClose w :=
  if_pos ⟨sessionClose_phase w, sessionClose_slot w⟩

theorem sessionClose_linked (hslot : 0 ≤ w.s.slot) (hlink : w.s.tcp = tcp) (htcp : 0 ≤ tcp) :
    (sessionClose w).obs = w.obs ++ dropObs w.s ++ [.itsSendDrain tcp] ++ [.itsDisconnect .tcp tcp] ∧
      (sessionClose w).s.tcp < 0 ∧ (sessionClose w).s.backendHandle < 0 := by
  have hopen : ¬(w.s.phase = .closed ∧ w.s.slot < 0) := fun h ↦ absurd h.2 (not_lt.mpr hslot)
  have hdrop : (dropBackend w).s.tcp = tcp := by
    rw [dropBackend_s]
    exact hlink
  rw [sessionClose_eq hopen, freeSlot_obs, freeSlot_s]
  change (dropTcp (dropBackend w)).obs = _ ∧ (dropTcp (dropBackend w)).s.tcp < 0 ∧
    (dropTcp (dropBackend w)).s.backendHandle < 0
  rw [dropTcp_obs, dropBackend_obs, hdrop, if_pos htcp, dropTcp_s, hdrop, if_pos htcp]
  refine ⟨by simp, Int.negSucc_lt_zero 0, dropBackend_backendHandle w⟩

theorem afterDrain_of_none {obs : List Obs} (h : tcpReleases obs = []) :
    EachAfter AfterDrain obs := by
  refine EachAfter.of_forall fun o ho pre ↦ ?_
  have hnone := List.filterMap_eq_nil_iff.mp h o ho
  cases o with
  | itsDisconnect link =>
    cases link with
    | tcp => cases hnone
    | backend => trivial
  | _ => trivial

theorem dropObs_lasting (s : Session) : ∀ o ∈ dropObs s, o.Lasting := by
  unfold dropObs
  split
  · simp [Obs.Lasting]
  · simp

theorem ended_of_linked (hslot : 0 ≤ w.s.slot) (hlink : w.s.tcp = tcp) (htcp : 0 ≤ tcp)
    (h : tcpReleases w.obs = [] ∧ Undisconnected w.obs ∨
      tcpReleases w.obs = [tcp] ∧ ¬Undisconnected w.obs) : Ended tcp (sessionClose w) := by
  obtain ⟨hobs, hhandles⟩ := sessionClose_linked hslot hlink htcp
  have hreleases : tcpReleases (sessionClose w).obs = tcpReleases w.obs ++ [tcp] := by
    rw [hobs, tcpReleases_append, tcpReleases_append, tcpReleases_append,
      tcpReleases_lasting (dropObs_lasting w.s), List.append_nil]
    exact congrArg (· ++ [tcp]) (List.append_nil _)
  refine ⟨sessionClose_phase w, sessionClose_slot w, hhandles, ?_⟩
  obtain ⟨hnone, hu⟩ | ⟨hone, hu⟩ := h
  · refine .inl ⟨by rw [hreleases, hnone]; rfl, ?_, ?_⟩
    · rw [hobs]
      have hpre : EachAfter AfterDrain (w.obs ++ dropObs w.s) := by
        refine afterDrain_of_none ?_
        rw [tcpReleases_append, hnone, tcpReleases_lasting (dropObs_lasting w.s)]
        rfl
      refine (hpre.snoc ?_).snoc ?_
      · trivial
      · exact ⟨_, [], rfl, rfl⟩
    · rw [hobs, List.append_assoc, List.append_assoc]
      refine undisconnected_append.mpr ⟨hu, undisconnected_append.mpr
        ⟨undisconnected_lasting (dropObs_lasting w.s), ?_⟩⟩
      exact ⟨nofun, by simp⟩
  · refine .inr ⟨by rw [hreleases, hone]; rfl, fun hu' ↦ hu ?_⟩
    rw [hobs, List.append_assoc, List.append_assoc] at hu'
    exact (undisconnected_append.mp hu').1

/-! Turns. -/

theorem lasting_grow (obs : List Obs) (h : ∀ o ∈ os, o.Lasting) :
    tcpReleases (obs ++ os) = tcpReleases obs ∧ (Undisconnected (obs ++ os) ↔ Undisconnected obs) ∧
      (EachAfter AfterDrain obs → EachAfter AfterDrain (obs ++ os)) := by
  refine ⟨?_, ?_, fun hd ↦ eachAfter_append.mpr ⟨hd, EachAfter.of_forall fun o ho pre ↦ ?_⟩⟩
  · rw [tcpReleases_append, tcpReleases_lasting h, List.append_nil]
  · rw [undisconnected_append, and_iff_left (undisconnected_lasting h)]
  · have hl := h o ho
    cases o with
    | itsDisconnect =>
      cases hl
      trivial
    | _ => trivial

theorem Running.dispatch (h : Running tcp w) (hw : CanSend w.s) (hslot : 0 ≤ w.s.slot)
    {payload : Bytes} (ht : Traffic P (w.note (.dispatch w.s payload)) payload w') :
    TearInv tcp w' := by
  have hnoted (hn : payload.head? ≠ some msgDisconnect) :
      Running tcp (w.note (.dispatch w.s payload)) := by
    refine h.grow rfl ?_ h.phase rfl
    simpa [Obs.Lasting] using hn
  cases ht with
  | aside hi ha => exact .running ((hnoted hi.head).aside ha)
  | bye hi ha code msg =>
    refine .ending (((hnoted hi.head).aside ha).bye ?_ ?_ code msg)
    · exact ⟨fun hc ↦ hw.1 (ha.phase.mp hc), ha.tcp.symm ▸ hw.2⟩
    · rw [ha.slot]
      exact hslot
  | disconnect ht => exact .ending (h.hangUp hslot ht)
  | chanOpen _ _ ho ha =>
    have hn : payload.head? ≠ some msgDisconnect := by
      rw [openRequest_head ho]
      decide
    refine .running (Running.aside ?_ ha)
    exact (hnoted hn).same rfl h.phase rfl
  | @adjust _ add ha =>
    have hn : payload.head? ≠ some msgDisconnect := by
      rw [windowAdjust_head ha]
      decide
    have hwide : Running tcp (widenWindow (w.note (.dispatch w.s payload)) add) :=
      (hnoted hn).same rfl h.phase rfl
    exact .running (hwide.drain hw)
  | chanClose hi _ ha =>
    refine .ending (((hnoted hi.head).aside ha).shut ?_)
    rw [ha.slot]
    exact hslot

theorem TearInv.turn (htcp : 0 ≤ tcp) (h : TearInv tcp w) (hup : Up w.s) (ht : Turn P w w') :
    TearInv tcp w' := by
  cases h with
  | running h =>
    have hw : CanSend w.s := ⟨h.phase, hup.linked h.phase⟩
    have hslot : 0 ≤ w.s.slot := not_lt.mp fun hn ↦ h.phase (hup.slotted hn).1
    cases ht with
    | steady hs => exact .running (h.aside (hs.aside P))
    | versionDone _ hs =>
      exact .running ((h.aside (hs.aside P)).same rfl nofun rfl)
    | bye _ hs code msg =>
      have ha := hs.aside P
      refine .ending ((h.aside ha).bye ⟨fun hc ↦ hw.1 (ha.phase.mp hc), ha.tcp.symm ▸ hw.2⟩ ?_ code msg)
      rw [ha.slot]
      exact hslot
    | @packet w₁ payload _ hp =>
      have ha := parsePacket_aside P hp
      refine (h.aside ha).dispatch ⟨fun hc ↦ hw.1 (ha.phase.mp hc), ha.tcp.symm ▸ hw.2⟩ ?_
        (dispatchPacket_traffic P w₁ payload w₁.s.slot)
      rw [ha.slot]
      exact hslot
    | drain _ _ => exact .running (h.drain hw)
    | farewell _ _ =>
      obtain ⟨w₁, ha, he⟩ := farewell_aside P w
      have hbye : Running tcp (farewell P w) := by
        rw [he]
        exact (h.aside ha).same rfl (fun hc ↦ h.phase (ha.phase.mp hc)) rfl
      refine .ended (ended_of_linked ?_ hbye.linked htcp (.inl ⟨hbye.releases, hbye.undisconnected⟩))
      rw [he]
      exact ha.slot.symm ▸ hslot
    | close => exact .ended (ended_of_linked hslot h.linked htcp (.inl ⟨h.releases, h.undisconnected⟩))
  | ending h =>
    cases ht with
    | steady hs =>
      have ha := hs.aside P
      obtain ⟨os, hobs, hos⟩ := ha.obs
      obtain ⟨hr, hu, -⟩ := lasting_grow w.obs fun o ho ↦ (hos o ho).lasting
      refine .ending ⟨ha.phase.mpr h.phase, ha.slot.symm ▸ h.slot, ha.tcp.trans h.linked, ?_⟩
      rw [hobs, hr, hu]
      exact h.releases
    | versionDone hp => cases hp.symm.trans h.phase
    | bye hp => exact absurd h.phase hp
    | packet hp => exact absurd h.phase hp.1
    | drain hp => exact absurd h.phase hp
    | farewell hp => exact absurd h.phase hp
    | close => exact .ended (ended_of_linked h.slot h.linked htcp h.releases)
  | ended h =>
    cases ht with
    | steady hs =>
      have ha := hs.aside P
      obtain ⟨os, hobs, hos⟩ := ha.obs
      obtain ⟨hr, hu, hd⟩ := lasting_grow w.obs fun o ho ↦ (hos o ho).lasting
      refine .ended ⟨ha.phase.mpr h.phase, ha.slot.symm ▸ h.slot, ?_, ?_⟩
      · rw [hs.tcp, hs.backendHandle]
        exact h.handles
      · rw [hobs, hr, hu]
        exact h.releases.imp_left fun ⟨hone, hdrained, hquit⟩ ↦ ⟨hone, hd hdrained, hquit⟩
    | versionDone hp => cases hp.symm.trans h.phase
    | bye hp => exact absurd h.phase hp
    | packet hp => exact absurd h.phase hp.1
    | drain hp => exact absurd h.phase hp
    | farewell hp => exact absurd h.phase hp
    | close =>
      rw [sessionClose, if_pos ⟨h.phase, h.slot⟩]
      exact .ended h

end

/-! Whole runs. -/

theorem running_accepted (slot : ℕ) (env : Env) (tcp : ℕ) :
    Running tcp (accepted slot env tcp) := by
  obtain ⟨w, ha, hobs, hs⟩ := accepted_aside slot env tcp
  refine Running.aside ⟨?_, ?_, ?_, ?_⟩ ha
  · rw [hs]
    nofun
  · rw [hs]
  · rw [hobs]
    rfl
  · rw [hobs]
    exact ⟨nofun, by simp⟩

/-- Between events a session that is over has been closed. -/
theorem run_closed_slot (slot : ℕ) (env : Env) (tcp : ℕ) (events : List Event)
    (hc : (runFrom P slot (accepted slot env tcp) events).s.phase = .closed) :
    (runFrom P slot (accepted slot env tcp) events).s.slot < 0 := by
  induction events using List.reverseRecOn with
  | nil => exact absurd hc (running_accepted slot env tcp).phase
  | append_singleton events e ih =>
    rw [runFrom_snoc] at hc ⊢
    obtain hq | ⟨-, hn⟩ | ⟨w₁, -, he⟩ := step_ends P slot (runFrom P slot (accepted slot env tcp) events) e
    · rw [hq.slot]
      exact ih (hq.phase.symm.trans hc)
    · exact absurd hc hn
    · rw [he]
      exact sessionClose_slot w₁

theorem tearInv_run (slot tcp : ℕ) (env : Env) (events : List Event) :
    TearInv tcp (runFrom P slot (accepted slot env tcp) events) ∧
      Up (runFrom P slot (accepted slot env tcp) events).s :=
  turn_induction P (fun w ↦ TearInv tcp w ∧ Up w.s)
    (fun _ _ h ht ↦ ⟨h.1.turn (Int.natCast_nonneg tcp) h.2 ht, h.2.moves P (ht.moves P)⟩) slot tcp
    ⟨.running (running_accepted slot env tcp), up_accepted slot env tcp⟩ events

/-- In every run a session gives up its connection as it should exactly when no
DISCONNECT is sent or received. -/
theorem releases_iff (P : Primitives) (env : Env) (slot tcp : ℕ) (events : List Event) :
    Releases tcp (runFrom P slot (accepted slot env tcp) events) ↔
      Undisconnected (runFrom P slot (accepted slot env tcp) events).obs := by
  obtain ⟨hinv, hup⟩ := tearInv_run (P := P) slot tcp env events
  have hslot := run_closed_slot (P := P) slot env tcp events
  generalize runFrom P slot (accepted slot env tcp) events = w at hinv hup hslot
  cases hinv with
  | running h =>
    have hs : 0 ≤ w.s.slot := not_lt.mp fun hn ↦ h.phase (hup.slotted hn).1
    refine iff_of_true ⟨fun _ ↦ h.releases, fun hc ↦ absurd hc h.phase, afterDrain_of_none h.releases,
      ?_, sessionClose_again w⟩ h.undisconnected
    exact (sessionClose_linked hs h.linked (Int.natCast_nonneg tcp)).2
  | ending h => exact absurd (hslot h.phase) (not_lt.mpr h.slot)
  | ended h =>
    obtain ⟨hone, hdrained, hu⟩ | ⟨htwo, hu⟩ := h.releases
    · refine iff_of_true ⟨fun hn ↦ absurd h.phase hn, fun _ ↦ hone, hdrained, ?_,
        sessionClose_again w⟩ hu
      rw [sessionClose, if_pos ⟨h.phase, h.slot⟩]
      exact h.handles
    · refine iff_of_false (fun hr ↦ ?_) hu
      cases htwo.symm.trans (hr.once h.phase)

/-- A client that does not speak SSH has its connection given up twice, the
first time with the DISCONNECT still queued. -/
theorem refused_client_released_twice :
    ¬Releases 3 (runFrom standIn (0 : ℕ) (accepted (0 : ℕ) sampleEnv (3 : ℕ))
      [.tcpArrive (ascii "HTTP/1.1\n"), .tcpRecv]) := by
  intro h
  have hone := h.once (by decide +kernel)
  revert hone
  decide +kernel

end Sshd.Server
