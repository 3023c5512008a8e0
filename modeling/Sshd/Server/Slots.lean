import Sshd.Server.Isolation
import Sshd.Server.ReceiveLoop
import Sshd.Server.Traffic

namespace Sshd.Server

open Lib.Octets Lib.Trace Wire Crypto
open Relation (ReflTransGen)

variable (P : Primitives)

/-! The handles of the TCP connections that are open: accepted and not given
up since. -/

def noteOpen (cur : List ℤ) : Obs → List ℤ
  | .accept tcp _ => tcp :: cur
  | .itsDisconnect .tcp handle => cur.filter (· ≠ handle)
  | _ => cur

def openTcp (obs : List Obs) : List ℤ := obs.foldl noteOpen []

/-- A connection is accepted under a handle that no open one has. -/
def FreshHandle (pre : List Obs) : Obs → Prop
  | .accept tcp _ => tcp ∉ openTcp pre
  | _ => True

/-- Connections that are open at the same time have different handles. -/
def DistinctHandles (obs : List Obs) : Prop := EachAfter FreshHandle obs

instance (pre : List Obs) : (o : Obs) → Decidable (FreshHandle pre o)
  | .accept tcp _ => inferInstanceAs (Decidable (tcp ∉ openTcp pre))
  | .random _ | .exchangeHash _ | .deriveKeys _ | .authKey _ _ | .verify _ _ _ _
  | .authLogin _ _ _ | .opened _ _ _ _ _ | .dispatch _ _ | .sealed _ | .itsSend _ _ _ _
  | .itsRecv _ _ | .itsConnect _ _ _ _ | .itsSendDrain _ | .itsDisconnect _ _ => .isTrue trivial

instance (obs : List Obs) : Decidable (DistinctHandles obs) :=
  inferInstanceAs (Decidable (EachAfter FreshHandle obs))

/-- A slot that has had a session. -/
def Daemon.Used (d : Daemon) (i : ℤ) : Prop := ∃ tcp, .accept tcp i ∈ d.obs

/-- A slot whose session has not ended. -/
def Daemon.Live (d : Daemon) (i : ℤ) : Prop := d.Used i ∧ (d.sessions i).phase ≠ .closed

/-- A slot that can be given to the next connection. -/
def Daemon.Freed (d : Daemon) (i : ℤ) : Prop :=
  d.slotInUse i = false ∧ (d.sessions i).phase = .closed

/-- The client closes its connection, a backend ends while the channel is open,
or the operator resets the server. -/
def DaemonEvent.Ends (d : Daemon) (i : ℤ) : DaemonEvent → Prop
  | .disconnect conn => ∃ c, (conns d.obs)[conn]? = some c ∧ 0 ≤ c.handle ∧ c.ref = i ∧
      (c.link = .backend → (d.sessions i).chanOpen = true)
  | .reset => True
  | _ => False

/-- What has come on the connection is an end of the session: junk, a line of
another protocol, a packet that cannot be opened, a message that is refused or
that closes the session. -/
inductive Fails : World → Prop
  | closed {w} (h : w.s.phase = .closed) : Fails w
  | junk {w} (hp : w.s.phase = .version) (hline : takeLine w.s.rxBuf = none)
      (hlen : 1024 < w.s.rxBuf.length) : Fails w
  | version {w line rest} (hp : w.s.phase = .version)
      (hline : takeLine w.s.rxBuf = some (line, rest))
      (hv : line.take 8 ≠ ascii "SSH-2.0-") : Fails w
  | greeted {w w'} (hp : w.s.phase = .version) (h : consumeVersion P w = (w', true))
      (hf : Fails w') : Fails w
  | bad {w} (hp : w.s.phase ≠ .closed ∧ w.s.phase ≠ .version) (h : parsePacket P w = .bad) :
      Fails w
  | refused {w w₁ w₂ payload} (hp : w.s.phase ≠ .closed ∧ w.s.phase ≠ .version)
      (h : parsePacket P w = .got payload w₁)
      (hd : dispatchPacket P w₁ payload w₁.s.slot = (w₂, false)) : Fails w
  | taken {w w₁ w₂ payload} (hp : w.s.phase ≠ .closed ∧ w.s.phase ≠ .version)
      (h : parsePacket P w = .got payload w₁)
      (hd : dispatchPacket P w₁ payload w₁.s.slot = (w₂, true)) (hf : Fails w₂) : Fails w

/-- The books of the daemon agree with its sessions: on which slots are taken
and on whose connection is whose. An event frees the slot of a live session if
it ends the session, and only then; the end of a connection, a reset and an
error in what is received are such events. A new connection is turned away when
all slots are live, and only then. -/
structure SlotsKept (d : Daemon) : Prop where
  inUse : ∀ i, d.Used i → (d.slotInUse i = true ↔ (d.sessions i).slot = i)
  slotted : ∀ i, d.Used i → ((d.sessions i).slot = i ↔ (d.sessions i).phase ≠ .closed)
  unused : ∀ i, ¬d.Used i → d.slotInUse i = false
  distinct : ∀ i j, d.Live i → d.Live j → (d.sessions i).tcp = (d.sessions j).tcp → i = j
  frees : ∀ e i, d.Live i →
    ((d.step P e).slotInUse i = false ↔ ((d.step P e).sessions i).phase = .closed)
  connected : ∀ i, d.Live i → (d.sessions i).tcp ∈ openTcp d.obs
  ends : ∀ e i, d.Live i → e.Ends d i → (d.step P e).Freed i
  fails : ∀ conn c, (conns d.obs)[conn]? = some c → c.link = .tcp → 0 ≤ c.handle → d.Live c.ref →
    ((d.step P (.recv conn)).Freed c.ref ↔ Fails P (filled (d.world c.ref)))
  refuses : ∀ handle, (∀ i, 0 ≤ i ∧ i < sshdMaxSessions → d.Live i) →
    d.step P (.tcpConnect handle) = d
  accepts : ∀ handle, ¬(∀ i, 0 ≤ i ∧ i < sshdMaxSessions → d.Live i) →
    ∃ slot, (0 ≤ slot ∧ slot < sshdMaxSessions) ∧ ¬d.Live slot ∧
      conns (d.step P (.tcpConnect handle)).obs = conns d.obs ++ [⟨.tcp, handle, slot⟩]

/-- What a call leaves of the TCP connections: it may give up its own one, which
ends the session. -/
structure Leaves (w w' : World) : Prop where
  tcp : w'.s.tcp = w.s.tcp ∨ w'.s.tcp < 0
  closed : w.s.phase = .closed → w'.s.phase = .closed
  held : ∀ h, 0 ≤ h → h ∈ openTcp w.obs →
    h ∈ openTcp w'.obs ∨ h = w.s.tcp ∧ w'.s.phase = .closed

/-- In every slot in use is the session of an open connection, no two of them
of the same. -/
structure HandlesKept (d : Daemon) : Prop where
  held : ∀ i, d.slotInUse i = true →
    .accept (d.sessions i).tcp i ∈ d.obs ∧ (d.sessions i).tcp ∈ openTcp d.obs
  distinct : ∀ i j, d.slotInUse i = true → d.slotInUse j = true →
    (d.sessions i).tcp = (d.sessions j).tcp → i = j

theorem openTcp_append (obs os : List Obs) :
    openTcp (obs ++ os) = os.foldl noteOpen (openTcp obs) := List.foldl_append

section
variable {w w₁ w' : World} {os : List Obs}

/-- A connection that nobody gives up stays open. -/
theorem mem_openTcp {obs : List Obs} {handle : ℤ} (h : handle ∈ openTcp obs)
    (hos : .itsDisconnect .tcp handle ∉ os) : handle ∈ openTcp (obs ++ os) := by
  rw [openTcp_append]
  generalize openTcp obs = cur at h
  induction os generalizing cur with
  | nil => exact h
  | cons o os ih =>
    obtain ⟨hne, hos⟩ := not_or.mp (List.mem_cons.not.mp hos)
    refine ih hos _ ?_
    cases o with
    | accept => exact List.mem_cons_of_mem _ h
    | itsDisconnect link handle' =>
      cases link with
      | tcp =>
        refine List.mem_filter.mpr ⟨h, decide_eq_true ?_⟩
        rintro rfl
        exact hne rfl
      | backend => exact h
    | _ => exact h

theorem Leaves.of_obs (hobs : w'.obs = w.obs ++ os) (htcp : w'.s.tcp = w.s.tcp ∨ w'.s.tcp < 0)
    (hp : w.s.phase = .closed → w'.s.phase = .closed)
    (hos : ∀ handle, .itsDisconnect .tcp handle ∈ os → handle = w.s.tcp ∧ w'.s.phase = .closed) :
    Leaves w w' where
  tcp := htcp
  closed := hp
  held handle _ h := by
    rw [hobs]
    by_cases hm : .itsDisconnect .tcp handle ∈ os
    · exact .inr (hos handle hm)
    · exact .inl (mem_openTcp h hm)

theorem Leaves.trans (h : Leaves w w₁) (h' : Leaves w₁ w') : Leaves w w' where
  tcp := by
    obtain ht | ht := h'.tcp
    · rw [ht]
      exact h.tcp
    · exact .inr ht
  closed hp := h'.closed (h.closed hp)
  held handle hn ho := by
    obtain ho | ⟨he, hp⟩ := h.held handle hn ho
    · obtain ho | ⟨he, hp⟩ := h'.held handle hn ho
      · exact .inl ho
      · obtain ht | ht := h.tcp
        · exact .inr ⟨he.trans ht, hp⟩
        · exact absurd hn (not_le.mpr (he ▸ ht))
    · exact .inr ⟨he, h'.closed hp⟩

theorem Leaves.refl (w : World) : Leaves w w :=
  .of_obs (List.append_nil _).symm (.inl rfl) id (by simp)

theorem Leaves.aside (h : Aside w w') : Leaves w w' := by
  obtain ⟨os, hobs, hos⟩ := h.obs
  refine .of_obs hobs (.inl h.tcp) h.phase.mpr fun handle hm ↦ ?_
  cases hos _ hm

theorem Leaves.quiet (h : Quiet P w w') : Leaves w w' := by
  obtain ⟨os, hobs, hos⟩ := h.obs
  refine .of_obs hobs (.inl h.tcp) (fun hp ↦ h.phase.trans hp) fun handle hm ↦ ?_
  exact (hos _ hm).elim

theorem Leaves.note (w : World) {o : Obs} (ho : ∀ handle, o ≠ .itsDisconnect .tcp handle) :
    Leaves w (w.note o) :=
  .of_obs rfl (.inl rfl) id fun handle hm ↦ absurd (List.mem_singleton.mp hm).symm (ho handle)

theorem Leaves.modify (w : World) (f : Session → Session) (htcp : (f w.s).tcp = w.s.tcp)
    (hp : w.s.phase = .closed → (f w.s).phase = .closed) : Leaves w (w.modify f) :=
  .of_obs (List.append_nil _).symm (.inl htcp) hp (by simp)

theorem Leaves.hangUp (w : World) : Leaves w (hangUp w) :=
  .of_obs rfl (.inl rfl) (fun _ ↦ rfl) fun handle hm ↦ by
    cases List.mem_singleton.mp hm
    exact ⟨rfl, rfl⟩

theorem Leaves.bye (w : World) (code : UInt32) (msg : String) :
    Leaves w (sendDisconnect P w code msg) := by
  obtain ⟨w₁, hq, he⟩ := sendDisconnect_eq P w code msg
  rw [he]
  exact (Leaves.quiet P hq).trans (.hangUp w₁)

theorem Leaves.close (w : World) : Leaves w (sessionClose w) := by
  obtain ⟨os, hobs, hos, hp, -⟩ := sessionClose_grows w
  refine .of_obs hobs ?_ (fun _ ↦ hp) fun handle hm ↦ ⟨?_, hp⟩
  · by_cases h : w.s.phase = .closed ∧ w.s.slot < 0
    · rw [sessionClose, if_pos h]
      exact .inl rfl
    · rw [sessionClose_eq h, freeSlot_s]
      change (dropTcp (dropBackend w)).s.tcp = w.s.tcp ∨ (dropTcp (dropBackend w)).s.tcp < 0
      rw [dropTcp_s]
      refine .inr ?_
      simp only
      split <;> omega
  · obtain ⟨_, he⟩ | he | he := hos _ hm
    · cases he
    · cases he
    · cases he
      rfl

theorem Leaves.traffic {payload : Bytes} (h : Traffic P w payload w') : Leaves w w' := by
  cases h with
  | aside _ ha => exact .aside ha
  | bye _ ha code msg => exact (Leaves.aside ha).trans (.bye P _ code msg)
  | disconnect => exact .hangUp w
  | chanOpen _ _ _ ha => exact (Leaves.modify w _ rfl id).trans (.aside ha)
  | adjust => exact (Leaves.modify w _ rfl id).trans (.quiet P (sessionOnBackendData_quiet P _))
  | chanClose _ _ ha => exact (Leaves.aside ha).trans (.modify _ _ rfl fun _ ↦ rfl)

theorem Leaves.turn (h : Turn P w w') : Leaves w w' := by
  cases h with
  | steady hs => exact .aside (hs.aside P)
  | versionDone hp hs =>
    have ha := hs.aside P
    refine (Leaves.aside ha).trans (.modify _ _ rfl fun hc ↦ ?_)
    cases hp.symm.trans (ha.phase.mp hc)
  | bye _ hs code msg => exact (Leaves.aside (hs.aside P)).trans (.bye P _ code msg)
  | @packet w₁ payload _ hw =>
    have hp := Leaves.aside (parsePacket_aside P hw)
    have hn : Leaves w₁ (w₁.note (.dispatch w₁.s payload)) := .note w₁ (by simp)
    exact (hp.trans hn).trans (.traffic P (dispatchPacket_traffic P _ _ _))
  | drain => exact .quiet P (sessionOnBackendData_quiet P w)
  | farewell =>
    obtain ⟨w₁, ha, he⟩ := farewell_aside P w
    rw [he]
    exact ((Leaves.aside ha).trans (.modify w₁ _ rfl id)).trans (.close _)
  | close => exact .close w

/-- What an event does to a session that is not over. -/
theorem Leaves.step {i : ℤ} (hp : w.s.phase ≠ .closed) (e : Event) : Leaves w (step P i w e) := by
  have hturns := step_turns P i w (fun hc ↦ absurd hc hp) e
  generalize Server.step P i w e = w' at hturns ⊢
  induction hturns with
  | refl => exact .refl w
  | tail _ ht ih => exact ih.trans (.turn P ht)

theorem slotInUse_freeSlot {j : ℤ} (h : (freeSlot w).slotInUse j = true) :
    w.slotInUse j = true := by
  unfold freeSlot sshdSlotFree at h
  split at h
  · split at h
    · by_cases hj : j = w.s.slot
      · subst hj
        cases (Function.update_self ..).symm.trans h
      · exact (Function.update_of_ne hj ..).symm.trans h
    · exact h
  · exact h

theorem slotInUse_move {j : ℤ} (hm : Move P w w') (h : w'.slotInUse j = true) :
    w.slotInUse j = true := by
  cases hm with
  | quiet hq => exact (Sits.round P (.quiet hq)).slotInUse ▸ h
  | versionDone hp hq => exact (Sits.round P (.versionDone hp hq)).slotInUse ▸ h
  | hangUp hq => exact (Sits.round P (.hangUp hq)).slotInUse ▸ h
  | packet hp hw => exact (Sits.round P (.packet hp hw)).slotInUse ▸ h
  | dropBackend => exact dropBackend_slotInUse w ▸ h
  | chanShut => exact h
  | teardown => exact dropTcp_slotInUse w ▸ h
  | freeSlot => exact slotInUse_freeSlot h

/-- No event of a session takes a slot. -/
theorem slotInUse_step {i j : ℤ} (e : Event) (h : (step P i w e).slotInUse j = true) :
    w.slotInUse j = true := by
  have hmoves := step_moves P i w e
  generalize step P i w e = w' at hmoves h
  induction hmoves with
  | refl => exact h
  | tail _ hm ih => exact ih (slotInUse_move P hm h)

end

/-! What ends a session. -/

section
variable {w w' : World}

theorem Fails.round (h : Fails P w) : (∃ w', receiveRound P w = .ends w') ∨
    ∃ w', receiveRound P w = .goesOn w' ∧ Fails P w' := by
  cases h with
  | closed h => exact .inl ⟨w, if_pos h⟩
  | junk hp hline hlen =>
    have hv : consumeVersion P w = (sendDisconnect P w 2 "preamble too long", false) := by
      obtain ⟨line, rest, hsome, -⟩ | ⟨-, hv⟩ := consumeVersion_cases (P := P) w
      · cases hline.symm.trans hsome
      · rw [hv, if_pos hlen]
    exact .inl ⟨_, receiveRound_refused hp hv rfl⟩
  | @version _ line rest hp hline hv =>
    obtain ⟨line', rest', hsome, hc⟩ | ⟨hnone, -⟩ := consumeVersion_cases (P := P) w
    · obtain ⟨rfl, rfl⟩ := Prod.mk.inj (Option.some.inj (hline.symm.trans hsome))
      by_cases hssh : line.take 4 ≠ ascii "SSH-"
      · rw [if_pos hssh] at hc
        exact .inl ⟨_, receiveRound_refused hp hc rfl⟩
      · rw [if_neg hssh, if_pos hv] at hc
        exact .inl ⟨_, receiveRound_refused hp hc rfl⟩
    · cases hline.symm.trans hnone
  | greeted hp hv hf => exact .inr ⟨_, receiveRound_greeted hp hv, hf⟩
  | bad hp hb => exact .inl ⟨_, receiveRound_bad hp hb⟩
  | refused hp hg hd => exact .inl ⟨_, receiveRound_got hp hg hd⟩
  | taken hp hg hd hf => exact .inr ⟨_, receiveRound_got hp hg hd, hf⟩

theorem Fails.of_version (hp : w.s.phase = .version) (h : consumeVersion P w = (w', false))
    (hc : w'.s.phase = .closed) : Fails P w := by
  obtain ⟨line, rest, hline, hv⟩ | ⟨hline, hv⟩ := consumeVersion_cases (P := P) w
  · refine .version hp hline fun hver ↦ ?_
    have hssh : line.take 4 = ascii "SSH-" := by
      have htake : line.take 4 = (line.take 8).take 4 := by rw [List.take_take]; rfl
      rw [htake, hver]
      rfl
    rw [if_neg (not_not.mpr hssh), if_neg (not_not.mpr hver)] at hv
    cases h.symm.trans hv
  · refine .junk hp hline ?_
    by_contra hlen
    rw [if_neg hlen] at hv
    obtain ⟨rfl, -⟩ := Prod.mk.inj (h.symm.trans hv)
    cases hp.symm.trans hc

/-- A round that does not wait meets an end, or leaves a session that will. -/
theorem Fails.of_round (hwait : receiveRound P w ≠ .waits)
    (hnext : ∀ w', receiveRound P w = .goesOn w' → Fails P w') : Fails P w := by
  by_cases hc : w.s.phase = .closed
  · exact .closed hc
  by_cases hp : w.s.phase = .version
  · cases hv : consumeVersion P w with
    | mk w₁ ok =>
      cases ok with
      | false =>
        refine .of_version P hp hv ?_
        by_contra hopen
        refine hwait ?_
        rw [receiveRound, if_neg hc, if_pos hp, hv]
        exact if_neg hopen
      | true => exact .greeted hp hv (hnext w₁ (receiveRound_greeted hp hv))
  · cases hg : parsePacket P w with
    | needMore => exact absurd (receiveRound_needMore ⟨hc, hp⟩ hg) hwait
    | bad => exact .bad ⟨hc, hp⟩ hg
    | got payload w₁ =>
      cases hd : dispatchPacket P w₁ payload w₁.s.slot with
      | mk w₂ ok =>
        have hr := receiveRound_got ⟨hc, hp⟩ hg hd
        cases ok with
        | false => exact .refused ⟨hc, hp⟩ hg hd
        | true => exact .taken ⟨hc, hp⟩ hg hd (hnext w₂ hr)

/-- A session that has read all there is is closed exactly when it met an end. -/
theorem Drains.fails_iff (h : Drains P w w') : Fails P w ↔ w'.s.phase = .closed := by
  induction h with
  | @waits w hr =>
    refine ⟨fun hf ↦ ?_, fun hc ↦ absurd hc (receiveRound_waits hr)⟩
    obtain ⟨w', he⟩ | ⟨w', he, -⟩ := hf.round
    · cases hr.symm.trans he
    · cases hr.symm.trans he
  | @ends w w' hr =>
    refine ⟨fun _ ↦ receiveRound_ends hr, fun _ ↦ .of_round P ?_ fun w₁ he ↦ ?_⟩
    · rw [hr]
      nofun
    · cases hr.symm.trans he
  | @goesOn w w₁ w' hr _ ih =>
    refine ⟨fun hf ↦ ih.mp ?_, fun hc ↦ .of_round P ?_ fun w₂ he ↦ ?_⟩
    · obtain ⟨w₂, he⟩ | ⟨w₂, he, hf⟩ := hf.round
      · cases hr.symm.trans he
      · cases hr.symm.trans he
        exact hf
    · rw [hr]
      nofun
    · cases hr.symm.trans he
      exact ih.mpr hc

theorem onTcpRecv_closed {i : ℤ} (hi : 0 ≤ i ∧ i < sshdMaxSessions) (hu : w.slotInUse i = true) :
    (onTcpRecv P i w).s.phase = .closed ↔ Fails P (filled w) := by
  have hrecv : onTcpRecv P i w = sessionOnTcpData P w := by
    unfold onTcpRecv
    rw [if_neg (by omega), if_neg (by rw [hu]; decide)]
  obtain ⟨w₁, hdrains, hw⟩ := sessionOnTcpData_drains (P := P) w
  have hfails : Fails P (filled w) ↔ w₁.s.phase = .closed := hdrains.fails_iff P
  rw [hrecv, hw, hfails]
  split
  · rename_i hc
    exact ⟨fun _ ↦ hc, fun _ ↦ (sessionClose_closed w₁).1⟩
  · rfl

theorem sessionOnBackendClose_closed (hc : w.s.chanOpen = true) :
    (sessionOnBackendClose P w).s.phase = .closed := by
  unfold sessionOnBackendClose
  rw [if_neg (by rw [hc]; decide)]
  exact (sessionClose_closed _).1

end

section
variable {d : Daemon} {i j : ℤ}

theorem DaemonInv.seated_inUse (h : DaemonInv d) (hu : d.slotInUse i = true) :
    (0 ≤ i ∧ i < sshdMaxSessions) ∧ Seated i (d.world i) := by
  obtain ⟨-, hf⟩ | hs := h i
  · cases hf.symm.trans hu
  · exact hs

/-- A slot in use has a session that is up. -/
theorem DaemonInv.up_inUse (h : DaemonInv d) (hu : d.slotInUse i = true) :
    (d.sessions i).phase ≠ .closed ∧ 0 ≤ (d.sessions i).tcp := by
  obtain ⟨-, hs⟩ := h.seated_inUse hu
  have hslot : 0 ≤ (d.sessions i).slot := of_decide_eq_true (hs.inUse.symm.trans hu)
  have hp : (d.sessions i).phase ≠ .closed := fun hp ↦ absurd hslot (not_le.mpr (hs.gone hp))
  exact ⟨hp, hs.up.linked hp⟩

theorem HandlesKept.on (h : HandlesKept d) (hd : DaemonInv d) (hi : d.slotInUse i = true) (e : Event)
    (hd' : DaemonInv (d.on i fun w ↦ step P i w e)) :
    HandlesKept (d.on i fun w ↦ step P i w e) := by
  have hl : Leaves (d.world i) (step P i (d.world i) e) := .step P (hd.up_inUse hi).1 e
  have hu (j : ℤ) (hj : (d.on i fun w ↦ step P i w e).slotInUse j = true) : d.slotInUse j = true :=
    slotInUse_step (w := d.world i) P e hj
  have hgrow : d.obs <+: (d.on i fun w ↦ step P i w e).obs := on_obs_grows P (step_ends P i _ e)
  have htcp (j : ℤ) (hj : (d.on i fun w ↦ step P i w e).slotInUse j = true) :
      ((d.on i fun w ↦ step P i w e).sessions j).tcp = (d.sessions j).tcp := by
    by_cases hji : j = i
    · subst hji
      have hup := (hd'.up_inUse hj).2
      rw [on_sessions_self] at hup ⊢
      exact hl.tcp.resolve_right (not_lt.mpr hup)
    · rw [on_sessions_ne d hji]
  refine ⟨fun j hj ↦ ?_, fun j k hj hk he ↦ ?_⟩
  · obtain ⟨ha, ho⟩ := h.held j (hu j hj)
    rw [htcp j hj]
    refine ⟨hgrow.subset ha, ?_⟩
    refine (hl.held _ (hd.up_inUse (hu j hj)).2 ho).resolve_right fun ⟨he, hp⟩ ↦ ?_
    obtain rfl := h.distinct j i (hu j hj) hi he
    refine (hd'.up_inUse hj).1 ?_
    rw [on_sessions_self]
    exact hp
  · rw [htcp j hj, htcp k hk] at he
    exact h.distinct j k (hu j hj) (hu k hk) he

/-- A callback comes to nothing or is an event of a slot in use. -/
theorem step_callback (h : DaemonInv d) {e : DaemonEvent} {conn : ℕ} (he : e.conn = some conn) :
    d.step P e = d ∨
      ∃ i ev, d.slotInUse i = true ∧ d.step P e = d.on i fun w ↦ step P i w ev := by
  cases hc : (conns d.obs)[conn]? with
  | none =>
    left
    cases e with
    | recv =>
      cases he
      simp only [Daemon.step, Daemon.callback, hc]
    | disconnect =>
      cases he
      simp only [Daemon.step, Daemon.callback, hc]
    | _ => cases he
  | some c =>
    by_cases hf : d.slotInUse c.ref = false
    · exact .inl (step_idle P h he hc (.inl hf))
    rw [Bool.not_eq_false] at hf
    cases e with
    | recv =>
      cases he
      simp only [Daemon.step, Daemon.callback, hc]
      split
      · exact .inl rfl
      · right
        unfold Daemon.recv
        split
        · exact ⟨c.ref, .tcpRecv, hf, rfl⟩
        · exact ⟨c.ref, .backendRecv, hf, rfl⟩
    | disconnect =>
      cases he
      simp only [Daemon.step, Daemon.callback, hc]
      split
      · exact .inl rfl
      · right
        unfold Daemon.disconnect
        split
        · exact ⟨c.ref, .tcpDisconnect, hf, rfl⟩
        · exact ⟨c.ref, .backendDisconnect, hf, rfl⟩
    | _ => cases he

theorem HandlesKept.callback (h : HandlesKept d) (hd : DaemonInv d) {e : DaemonEvent} {conn : ℕ}
    (he : e.conn = some conn) : HandlesKept (d.step P e) := by
  have hd' := hd.step P e
  obtain hs | ⟨i, ev, hu, hs⟩ := step_callback P hd he
  · rw [hs]
    exact h
  · rw [hs] at hd' ⊢
    exact h.on P hd hu ev hd'

theorem HandlesKept.reset (h : HandlesKept d) (P : Primitives) (hd : DaemonInv d) (i : ℤ) :
    HandlesKept (d.on i (cmdSshdReset i)) := by
  by_cases hf : d.slotInUse i = false
  · have hsame : d.on i (cmdSshdReset i) = d := on_eq_self (if_pos hf)
    rw [hsame]
    exact h
  · rw [Bool.not_eq_false] at hf
    exact h.on P hd hf .reset (DaemonInv.reset P hd i)

theorem HandlesKept.accept (h : HandlesKept d) (hfree : d.slotInUse i = false) (handle : ℕ)
    (hfresh : (handle : ℤ) ∉ openTcp d.obs) :
    HandlesKept ({ d with tcpIn := Function.update d.tcpIn handle [] }.on i
      fun w ↦ onTcpConnect i w handle) := by
  set d₀ : Daemon := { d with tcpIn := Function.update d.tcpIn handle [] } with hd₀
  have htame := onTcpConnect_tame i (d₀.world i) handle
  obtain ⟨os, hobs, hcalm⟩ := htame.obs
  have hobs' : (d₀.on i fun w ↦ onTcpConnect i w handle).obs =
      d.obs ++ .accept handle i :: os := hobs.trans (List.append_assoc ..)
  have hopen (a : ℤ) (ha : a = handle ∨ a ∈ openTcp d.obs) :
      a ∈ openTcp (d₀.on i fun w ↦ onTcpConnect i w handle).obs := by
    have hm : a ∈ openTcp (d.obs ++ [.accept handle i]) := by
      rw [openTcp_append]
      exact List.mem_cons.mpr ha
    rw [hobs', ← List.singleton_append, ← List.append_assoc]
    exact mem_openTcp hm fun hd ↦ hcalm _ hd
  have hself : ((d₀.on i fun w ↦ onTcpConnect i w handle).sessions i).tcp = handle := by
    rw [on_sessions_self]
    exact htame.tcp
  have hothers (j : ℤ) (hj : j ≠ i) :
      ((d₀.on i fun w ↦ onTcpConnect i w handle).slotInUse j = true → d.slotInUse j = true) ∧
        (d₀.on i fun w ↦ onTcpConnect i w handle).sessions j = d.sessions j := by
    refine ⟨fun hu ↦ ?_, on_sessions_ne d₀ hj _⟩
    have hu' := (congrFun htame.slotInUse j).symm.trans hu
    exact (Function.update_of_ne hj ..).symm.trans hu'
  have hheld (j : ℤ) (hj : j ≠ i)
      (hu : (d₀.on i fun w ↦ onTcpConnect i w handle).slotInUse j = true) :
      ((d₀.on i fun w ↦ onTcpConnect i w handle).sessions j).tcp ≠ handle := by
    intro he
    rw [(hothers j hj).2] at he
    exact hfresh (he ▸ (h.held j ((hothers j hj).1 hu)).2)
  refine ⟨fun j hj ↦ ?_, fun j k hj hk he ↦ ?_⟩
  · by_cases hji : j = i
    · subst hji
      rw [hself]
      exact ⟨by rw [hobs']; simp, hopen _ (.inl rfl)⟩
    · obtain ⟨ha, ho⟩ := h.held j ((hothers j hji).1 hj)
      rw [(hothers j hji).2]
      refine ⟨?_, hopen _ (.inr ho)⟩
      rw [hobs']
      exact List.mem_append_left _ ha
  · by_cases hji : j = i
    · by_cases hki : k = i
      · exact hji.trans hki.symm
      · subst hji
        exact absurd (he.symm.trans hself) (hheld k hki hk)
    · by_cases hki : k = i
      · subst hki
        exact absurd (he.trans hself) (hheld j hji hj)
      · rw [(hothers j hji).2, (hothers k hki).2] at he
        exact h.distinct j k ((hothers j hji).1 hj) ((hothers k hki).1 hk) he

theorem HandlesKept.step (h : HandlesKept d) (hd : DaemonInv d) (e : DaemonEvent)
    (hfresh : DistinctHandles (d.step P e).obs) : HandlesKept (d.step P e) := by
  cases e with
  | tcpConnect handle =>
    cases hslot : findFreeSlot d with
    | none =>
      simp only [Daemon.step, hslot]
      exact h
    | some slot =>
      simp only [Daemon.step, hslot] at hfresh ⊢
      refine h.accept (findFreeSlot_spec hslot).2 handle ?_
      obtain ⟨os, hobs, -⟩ := (onTcpConnect_tame slot
        (({ d with tcpIn := Function.update d.tcpIn handle [] } : Daemon).world slot) handle).obs
      exact hfresh d.obs (.accept handle slot) os (hobs.trans (List.append_assoc ..))
  | arrive link => cases link <;> exact ⟨h.held, h.distinct⟩
  | recv => exact h.callback P hd rfl
  | disconnect => exact h.callback P hd rfl
  | reset =>
    have h₀ := h.reset P hd 0
    exact h₀.reset P (DaemonInv.reset P hd 0) 1

theorem run_obs_grows (d : Daemon) (events : List DaemonEvent) : d.obs <+: (d.run P events).obs := by
  induction events generalizing d with
  | nil => exact List.prefix_rfl
  | cons e events ih => exact (step_obs_grows P d e).trans (ih _)

theorem HandlesKept.run (h : HandlesKept d) (hd : DaemonInv d) (events : List DaemonEvent)
    (hfresh : DistinctHandles (d.run P events).obs) : HandlesKept (d.run P events) := by
  induction events generalizing d with
  | nil => exact h
  | cons e events ih =>
    refine ih (h.step P hd e ?_) (hd.step P e) hfresh
    obtain ⟨os, hos⟩ := run_obs_grows P (d.step P e) events
    exact (eachAfter_append.mp (hos.symm ▸ hfresh)).1

theorem handlesKept_boot (env : Env) : HandlesKept (boot env) := ⟨nofun, nofun⟩

theorem DaemonInv.used (h : DaemonInv d) (hu : d.Used i) :
    (0 ≤ i ∧ i < sshdMaxSessions) ∧ Seated i (d.world i) := by
  obtain ⟨tcp, ha⟩ := hu
  have hc : (⟨.tcp, tcp, i⟩ : Conn) ∈ conns d.obs := List.mem_filterMap.mpr ⟨_, ha, rfl⟩
  obtain ⟨hn, -⟩ | hs := h i
  · exact absurd hn (latest_of_mem hc)
  · exact hs

theorem live_iff (h : DaemonInv d) (hk : HandlesKept d) : d.Live i ↔ d.slotInUse i = true := by
  constructor
  · rintro ⟨hu, hp⟩
    obtain ⟨-, hs⟩ := h.used hu
    refine hs.inUse.trans (decide_eq_true (not_lt.mp fun hn ↦ hp ?_))
    exact (hs.up.slotted hn).1
  · intro hu
    exact ⟨⟨_, (hk.held i hu).1⟩, (h.up_inUse hu).1⟩

theorem findFreeSlot_none (d : Daemon) :
    findFreeSlot d = none ↔ ∀ i, 0 ≤ i ∧ i < sshdMaxSessions → d.slotInUse i = true := by
  unfold findFreeSlot
  constructor
  · intro h i hi
    split at h
    · cases h
    rename_i h₀
    split at h
    · cases h
    rename_i h₁
    have hcases : i = 0 ∨ i = 1 := by
      unfold sshdMaxSessions at hi
      omega
    obtain rfl | rfl := hcases
    · exact (Bool.not_eq_false _).mp h₀
    · exact (Bool.not_eq_false _).mp h₁
  · intro h
    rw [if_neg (by rw [h 0 (by decide)]; decide), if_neg (by rw [h 1 (by decide)]; decide)]

/-- The end of a connection closes the session in its slot. -/
theorem closed_disconnect (h : DaemonInv d) {c : Conn} {conn : ℕ} (hc : (conns d.obs)[conn]? = some c)
    (hh : 0 ≤ c.handle) (hu : d.slotInUse c.ref = true)
    (hopen : c.link = .backend → (d.sessions c.ref).chanOpen = true) :
    ((d.step P (.disconnect conn)).sessions c.ref).phase = .closed := by
  obtain ⟨hi, -⟩ := h.seated hc
  simp only [Daemon.step, Daemon.callback, hc, if_neg (not_lt.mpr hh)]
  unfold Daemon.disconnect
  split
  · rw [on_sessions_self]
    unfold onTcpDisconnect
    rw [if_neg (by omega)]
    exact (sessionClose_closed _).1
  · rename_i hlink
    have hat : sshdSessionAt c.ref (d.world c.ref) = true := by
      have hw : (d.world c.ref).slotInUse c.ref = true := hu
      simp [sshdSessionAt, hi.1, hi.2, hw]
    rw [on_sessions_self]
    unfold onBackendDisconnectCb
    rw [if_neg (by rw [hat]; decide)]
    exact sessionOnBackendClose_closed P (hopen hlink)

/-- A reset closes every session, one slot after the other. -/
theorem closed_reset (h : DaemonInv d) (hu : d.slotInUse i = true) :
    ((d.step P .reset).sessions i).phase = .closed := by
  have hclose {d : Daemon} {j : ℤ} (hj : d.slotInUse j = true) :
      ((d.on j (cmdSshdReset j)).sessions j).phase = .closed := by
    rw [on_sessions_self]
    unfold cmdSshdReset
    rw [if_neg (by rw [show (d.world j).slotInUse j = true from hj]; decide)]
    exact (sessionClose_closed _).1
  obtain ⟨hi, -⟩ := h.seated_inUse hu
  have hcases : i = 0 ∨ i = 1 := by
    unfold sshdMaxSessions at hi
    omega
  simp only [Daemon.step]
  obtain rfl | rfl := hcases
  · rw [on_sessions_ne _ (by decide)]
    exact hclose hu
  · refine hclose ?_
    obtain ⟨-, hf⟩ | ⟨h0, hs⟩ := h 0
    · rwa [on_eq_self (show cmdSshdReset 0 (d.world 0) = d.world 0 from if_pos hf)]
    · exact ((hs.ends P h0 (step_ends P 0 _ .reset)).2 1 (by decide)).2.trans hu

/-- A slot in use is freed when its session is closed. -/
theorem freed_iff (h : DaemonInv d) (hu : d.Used i) (e : DaemonEvent) :
    (d.step P e).slotInUse i = false ↔ ((d.step P e).sessions i).phase = .closed := by
  obtain ⟨tcp, ha⟩ := hu
  obtain ⟨-, hs⟩ := (h.step P e).used ⟨tcp, (step_obs_grows P d e).subset ha⟩
  change ((d.step P e).world i).slotInUse i = false ↔ ((d.step P e).world i).s.phase = .closed
  rw [hs.inUse, decide_eq_false_iff_not, not_le]
  exact ⟨fun hn ↦ (hs.up.slotted hn).1, hs.gone⟩

theorem slotsKept_of_handlesKept (h : DaemonInv d) (hk : HandlesKept d) : SlotsKept P d where
  inUse i hu := by
    obtain ⟨hi, hs⟩ := h.used hu
    change (d.world i).slotInUse i = true ↔ (d.world i).s.slot = i
    rw [hs.inUse, decide_eq_true_iff]
    constructor
    · intro hslot
      exact hs.slot.resolve_right (not_lt.mpr hslot)
    · intro he
      rw [he]
      exact hi.1
  slotted i hu := by
    obtain ⟨hi, hs⟩ := h.used hu
    constructor
    · intro he hp
      have hneg : (d.sessions i).slot < 0 := hs.gone hp
      omega
    · intro hp
      exact hs.slot.resolve_right fun hneg ↦ hp (hs.up.slotted hneg).1
  unused i hu := by
    refine (Bool.not_eq_true _).mp fun ht ↦ hu ?_
    exact ⟨_, (hk.held i ht).1⟩
  distinct i j hi hj he := hk.distinct i j ((live_iff h hk).mp hi) ((live_iff h hk).mp hj) he
  frees e i hlive := freed_iff P h hlive.1 e
  connected i hlive := (hk.held i ((live_iff h hk).mp hlive)).2
  ends e i hlive hend := by
    have hu := (live_iff h hk).mp hlive
    have hp : ((d.step P e).sessions i).phase = .closed := by
      cases e with
      | disconnect conn =>
        obtain ⟨c, hc, hh, rfl, hopen⟩ := hend
        exact closed_disconnect P h hc hh hu hopen
      | reset => exact closed_reset P h hu
      | _ => exact hend.elim
    exact ⟨(freed_iff P h hlive.1 e).mpr hp, hp⟩
  fails conn c hc hlink hh hlive := by
    have hu := (live_iff h hk).mp hlive
    have hp : ((d.step P (.recv conn)).sessions c.ref).phase = .closed ↔
        Fails P (filled (d.world c.ref)) := by
      simp only [Daemon.step, Daemon.callback, hc, if_neg (not_lt.mpr hh), Daemon.recv, hlink]
      rw [on_sessions_self]
      exact onTcpRecv_closed P (h.seated hc).1 hu
    exact (and_iff_right_of_imp (freed_iff P h hlive.1 _).mpr).trans hp
  refuses handle hall := by
    have hnone : findFreeSlot d = none :=
      (findFreeSlot_none d).mpr fun i hi ↦ (live_iff h hk).mp (hall i hi)
    simp only [Daemon.step, hnone]
  accepts handle hsome := by
    cases hslot : findFreeSlot d with
    | none =>
      refine absurd (fun i hi ↦ (live_iff h hk).mpr ?_) hsome
      exact (findFreeSlot_none d).mp hslot i hi
    | some slot =>
      obtain ⟨hi, hfree⟩ := findFreeSlot_spec hslot
      refine ⟨slot, hi, fun hlive ↦ ?_, conns_tcpConnect P hslot handle⟩
      cases hfree.symm.trans ((live_iff h hk).mp hlive)

end

/-- Between callbacks the books of the daemon are right, in every run in which
ITS gives connections that are open at the same time different handles. -/
theorem slots_kept (P : Primitives) (env : Env) (events : List DaemonEvent)
    (hdistinct : DistinctHandles ((boot env).run P events).obs) :
    SlotsKept P ((boot env).run P events) := by
  have hboot : DaemonInv (boot env) := fun _ ↦ .inl ⟨rfl, rfl⟩
  have hkept := (handlesKept_boot env).run P hboot events hdistinct
  exact slotsKept_of_handlesKept P (daemonInv_run P env events) hkept

/-- A handle comes back once its first connection is closed. -/
theorem slots_kept_three :
    SlotsKept standIn ((boot sampleEnv).run standIn
      [.tcpConnect 3, .tcpConnect 4, .tcpConnect 5, .disconnect 0, .tcpConnect 3, .reset,
        .tcpConnect 4]) :=
  slots_kept standIn sampleEnv _ (by decide +kernel)

end Sshd.Server
