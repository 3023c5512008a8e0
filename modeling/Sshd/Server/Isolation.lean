import Sshd.Server.Seat

namespace Sshd.Server

open Lib.Octets Lib.Trace Wire Crypto
open Relation (ReflTransGen)

variable (P : Primitives)

def Session.handle (s : Session) : Link → ℤ
  | .tcp => s.tcp
  | .backend => s.backendHandle

/-- The callback comes too late for its connection: another session is in the
slot or, where the other end has closed it, the session has asked for another
connection of the kind. -/
def Stale (d : Daemon) (c : Conn) (conn : ℕ) : DaemonEvent → Prop
  | .recv _ => ∃ c' ∈ (conns d.obs).drop (conn + 1), c'.ref = c.ref ∧ c'.link = .tcp
  | .disconnect _ => ∃ c' ∈ (conns d.obs).drop (conn + 1), c'.Replaces c
  | _ => False

/-- There is nothing in the slot that the callback could act on. -/
def Idle (d : Daemon) (c : Conn) : Prop :=
  d.slotInUse c.ref = false ∨ c.link = .backend ∧ (d.sessions c.ref).chanOpen = false

/-- The number of the connection that an event is about. -/
def DaemonEvent.conn : DaemonEvent → Option ℕ
  | .recv conn | .disconnect conn => some conn
  | _ => none

/-- An event that is not late, or finds an idle slot. -/
def Punctual (d : Daemon) (e : DaemonEvent) : Prop :=
  ∀ conn ∈ e.conn, ∀ c ∈ (conns d.obs)[conn]?, Stale d c conn e → Idle d c

/-- Late callbacks only ever find an idle slot. -/
def LateOnlyIdle (env : Env) (events : List DaemonEvent) : Prop :=
  EachAfter (fun pre e ↦ Punctual ((boot env).run P pre) e) events

instance (d : Daemon) (c : Conn) (conn : ℕ) : (e : DaemonEvent) → Decidable (Stale d c conn e)
  | .recv _ => inferInstanceAs
      (Decidable (∃ c' ∈ (conns d.obs).drop (conn + 1), c'.ref = c.ref ∧ c'.link = .tcp))
  | .disconnect _ => inferInstanceAs
      (Decidable (∃ c' ∈ (conns d.obs).drop (conn + 1), c'.ref = c.ref ∧
        (c'.link = .tcp ∨ c'.link = c.link)))
  | .tcpConnect _ | .arrive _ _ _ | .reset => .isFalse id

instance (d : Daemon) (c : Conn) : Decidable (Idle d c) :=
  inferInstanceAs (Decidable (d.slotInUse c.ref = false ∨
    c.link = .backend ∧ (d.sessions c.ref).chanOpen = false))

instance (d : Daemon) (e : DaemonEvent) : Decidable (Punctual d e) :=
  inferInstanceAs (Decidable (∀ conn ∈ e.conn, ∀ c ∈ (conns d.obs)[conn]?,
    Stale d c conn e → Idle d c))

instance (env : Env) (events : List DaemonEvent) : Decidable (LateOnlyIdle P env events) :=
  inferInstanceAs (Decidable (EachAfter (fun pre e ↦ Punctual ((boot env).run P pre) e) events))

/-- An event on a connection that slot `i` has had before `d`. -/
def DaemonEvent.ofPast (d : Daemon) (i : ℤ) (e : DaemonEvent) : Bool :=
  e.conn.any fun conn ↦ ((conns d.obs)[conn]?).any fun c ↦ c.ref = i

/-- A connection that the other end closes changes no session but the one it
belongs to, and a session in a used slot goes on as if the slot had never been
used: neither what the last session has left in it nor the callbacks of earlier
connections make a difference. -/
structure Isolated (env : Env) (events : List DaemonEvent) : Prop where
  own : ∀ pre conn post c, events = pre ++ .disconnect conn :: post →
    (conns ((boot env).run P pre).obs)[conn]? = some c →
    (((boot env).run P pre).step P (.disconnect conn)).sessions ≠
      ((boot env).run P pre).sessions →
    (((boot env).run P pre).sessions c.ref).handle c.link = c.handle
  fresh : ∀ pre handle post slot (s : Session), events = pre ++ .tcpConnect handle :: post →
    findFreeSlot ((boot env).run P pre) = some slot →
    ((boot env).run P pre).run P (.tcpConnect handle :: post) =
      { (boot env).run P pre with
        sessions := Function.update ((boot env).run P pre).sessions slot s }.run P
          (.tcpConnect handle :: post.filter fun e ↦ !e.ofPast ((boot env).run P pre) slot)

/-- Every slot is as at boot or has the session that is on record for it. -/
def DaemonInv (d : Daemon) : Prop :=
  ∀ i, (latest i d.obs = fun _ ↦ none) ∧ d.slotInUse i = false ∨
    (0 ≤ i ∧ i < sshdMaxSessions) ∧ Seated i (d.world i)

section
variable {d : Daemon} {i : ℤ} {call : World → World} {c : Conn} {conn : ℕ} {e : DaemonEvent}

theorem Seated.congr {w w' : World} (h : Seated i w) (hs : w'.s = w.s)
    (hu : w'.slotInUse i = w.slotInUse i) (ho : latest i w'.obs = latest i w.obs) : Seated i w' where
  up := hs ▸ h.up
  slot := hs ▸ h.slot
  inUse := by rw [hu, hs, h.inUse]
  tcp := by
    rw [ho, hs]
    exact h.tcp
  gone := by
    rw [hs]
    exact h.gone
  backend := by
    rw [ho, hs]
    exact h.backend

theorem DaemonInv.on (h : DaemonInv d) (hi : 0 ≤ i ∧ i < sshdMaxSessions)
    (hw : Seated i (call (d.world i)))
    (hothers : ∀ j ≠ i, latest j (call (d.world i)).obs = latest j d.obs ∧
      (call (d.world i)).slotInUse j = d.slotInUse j) : DaemonInv (d.on i call) := by
  intro j
  by_cases hj : j = i
  · subst hj
    refine .inr ⟨hi, hw.congr ?_ rfl rfl⟩
    exact on_sessions_self d j call
  · obtain ⟨ho, hu⟩ := hothers j hj
    obtain ⟨hn, hf⟩ | ⟨hj', hs⟩ := h j
    · exact .inl ⟨ho.trans hn, hu.trans hf⟩
    · exact .inr ⟨hj', hs.congr (on_sessions_ne d hj call) hu ho⟩

/-- A call into a slot that is as at boot, or one that leaves the session as
every event does. -/
theorem DaemonInv.onEnds (h : DaemonInv d) (he : Ends P (d.world i) (call (d.world i)))
    (hfree : d.slotInUse i = false → latest i d.obs = (fun _ ↦ none) →
      call (d.world i) = d.world i) : DaemonInv (d.on i call) := by
  obtain ⟨hn, hf⟩ | ⟨hi, hs⟩ := h i
  · rw [on_eq_self (hfree hf hn)]
    exact h
  · obtain ⟨hw, hothers⟩ := hs.ends P hi he
    exact h.on hi hw hothers

theorem DaemonInv.seated (h : DaemonInv d) (hc : (conns d.obs)[conn]? = some c) :
    (0 ≤ c.ref ∧ c.ref < sshdMaxSessions) ∧ Seated c.ref (d.world c.ref) := by
  obtain ⟨hn, -⟩ | hs := h c.ref
  · exact absurd hn (latest_of_mem (List.mem_of_getElem? hc))
  · exact hs

theorem findFreeSlot_spec (h : findFreeSlot d = some i) :
    (0 ≤ i ∧ i < sshdMaxSessions) ∧ d.slotInUse i = false := by
  unfold findFreeSlot at h
  split at h
  · rename_i hf
    cases h
    exact ⟨by decide, hf⟩
  split at h
  · rename_i hf
    cases h
    exact ⟨by decide, hf⟩
  · cases h

theorem DaemonInv.callback (h : DaemonInv d) {f : Conn → Daemon}
    (hf : ∀ c, (conns d.obs)[conn]? = some c → DaemonInv (f c)) :
    DaemonInv (d.callback conn f) := by
  unfold Daemon.callback
  split
  · exact h
  · rename_i c hc
    split
    · exact h
    · exact hf c hc

theorem DaemonInv.reset (P : Primitives) (h : DaemonInv d) (i : ℤ) : DaemonInv (d.on i (cmdSshdReset i)) :=
  h.onEnds P (step_ends P i _ .reset) fun hf _ ↦ if_pos hf

theorem DaemonInv.step (h : DaemonInv d) (e : DaemonEvent) : DaemonInv (d.step P e) := by
  cases e with
  | tcpConnect handle =>
    unfold Daemon.step
    simp only
    split
    · exact h
    · rename_i slot hslot
      obtain ⟨hi, -⟩ := findFreeSlot_spec hslot
      have h' : DaemonInv { d with tcpIn := Function.update d.tcpIn handle [] } := fun j ↦
        (h j).imp id fun hs ↦ ⟨hs.1, hs.2.congr rfl rfl rfl⟩
      obtain ⟨hw, hothers⟩ := seated_accept hi.1
        (({ d with tcpIn := Function.update d.tcpIn handle [] } : Daemon).world slot) handle
      exact h'.on hi hw hothers
  | arrive link handle data =>
    cases link <;> exact fun j ↦ (h j).imp id fun hs ↦ ⟨hs.1, hs.2.congr rfl rfl rfl⟩
  | recv conn =>
    refine h.callback fun c hc ↦ ?_
    obtain ⟨hi, hs⟩ := h.seated hc
    unfold Daemon.recv
    split
    · obtain ⟨hw, hothers⟩ := hs.ends P hi (step_ends P c.ref _ .tcpRecv)
      exact h.on hi hw hothers
    · obtain ⟨hw, hothers⟩ := hs.ends P hi (step_ends P c.ref _ .backendRecv)
      exact h.on hi hw hothers
  | disconnect conn =>
    refine h.callback fun c hc ↦ ?_
    obtain ⟨hi, hs⟩ := h.seated hc
    unfold Daemon.disconnect
    split
    · obtain ⟨hw, hothers⟩ := hs.ends P hi (step_ends P c.ref _ .tcpDisconnect)
      exact h.on hi hw hothers
    · obtain ⟨hw, hothers⟩ := hs.ends P hi (step_ends P c.ref _ .backendDisconnect)
      exact h.on hi hw hothers
  | reset => exact DaemonInv.reset P (DaemonInv.reset P h 0) 1

theorem DaemonInv.run (h : DaemonInv d) (events : List DaemonEvent) :
    DaemonInv (d.run P events) := by
  induction events generalizing d with
  | nil => exact h
  | cons e events ih => exact ih (h.step P e)

theorem daemonInv_run (env : Env) (events : List DaemonEvent) :
    DaemonInv ((boot env).run P events) :=
  DaemonInv.run P (fun _ ↦ .inl ⟨rfl, rfl⟩) events

theorem sessionClose_gone {w : World} (hp : w.s.phase = .closed) (hs : w.s.slot < 0) :
    sessionClose w = w := if_pos ⟨hp, hs⟩

theorem onTcpDisconnect_gone {w : World} (hp : w.s.phase = .closed) (hs : w.s.slot < 0) :
    onTcpDisconnect i w = w := by
  unfold onTcpDisconnect
  split
  · rfl
  · exact sessionClose_gone hp hs

theorem sshdSessionAt_free {w : World} (h : w.slotInUse i = false) : sshdSessionAt i w = false := by
  rw [sshdSessionAt, h, Bool.and_false]

theorem step_idle (h : DaemonInv d) (he : e.conn = some conn)
    (hc : (conns d.obs)[conn]? = some c) (hidle : Idle d c) : d.step P e = d := by
  obtain ⟨-, hs⟩ := h.seated hc
  have hfree : (d.world c.ref).slotInUse c.ref = false →
      (d.world c.ref).s.phase = .closed ∧ (d.world c.ref).s.slot < 0 := by
    intro hf
    have hslot : (d.world c.ref).s.slot < 0 := by
      rw [hs.inUse] at hf
      exact not_le.mp (of_decide_eq_false hf)
    exact ⟨(hs.up.slotted hslot).1, hslot⟩
  cases e with
  | tcpConnect => cases he
  | arrive => cases he
  | reset => cases he
  | recv n =>
    cases he
    simp only [Daemon.step, Daemon.callback, hc]
    split
    · rfl
    unfold Daemon.recv
    split
    · rename_i hl
      have hf := hidle.resolve_right fun hb ↦ by cases hl.symm.trans hb.1
      refine on_eq_self ?_
      unfold onTcpRecv
      split
      · rfl
      · exact if_pos hf
    · refine on_eq_self (if_pos ?_)
      exact hidle.imp (fun hf ↦ sshdSessionAt_free hf) fun hb ↦ hb.2
  | disconnect n =>
    cases he
    simp only [Daemon.step, Daemon.callback, hc]
    split
    · rfl
    unfold Daemon.disconnect
    split
    · rename_i hl
      have hf := hidle.resolve_right fun hb ↦ by cases hl.symm.trans hb.1
      exact on_eq_self (onTcpDisconnect_gone (hfree hf).1 (hfree hf).2)
    · refine on_eq_self ?_
      unfold onBackendDisconnectCb
      split
      · rfl
      · rename_i hat
        obtain hf | ⟨-, hclosed⟩ := hidle
        · exact absurd (sshdSessionAt_free hf) hat
        · exact if_pos hclosed

/-- What a disconnect changes belongs to the connection that is gone. -/
theorem own_of_latest (h : DaemonInv d) (hc : (conns d.obs)[conn]? = some c)
    (hl : latest c.ref d.obs c.link = some c.handle)
    (hne : (d.step P (.disconnect conn)).sessions ≠ d.sessions) :
    (d.sessions c.ref).handle c.link = c.handle := by
  obtain ⟨-, hs⟩ := h.seated hc
  by_contra hother
  refine hne (congrArg Daemon.sessions ?_)
  simp only [Daemon.step, Daemon.callback, hc]
  split
  · rfl
  unfold Daemon.disconnect
  split
  · rename_i hlink
    rw [hlink] at hl hother
    have htcp := (hs.tcp _ hl).resolve_left hother
    have hp : (d.world c.ref).s.phase = .closed := by
      by_contra hp
      exact absurd (hs.up.linked hp) (not_le.mpr htcp)
    exact on_eq_self (onTcpDisconnect_gone hp (hs.gone hp))
  · rename_i hlink
    rw [hlink] at hl hother
    have hp : (d.world c.ref).s.phase = .closed := by
      by_contra hp
      exact hother (hs.backend hp _ hl)
    have hf : (d.world c.ref).slotInUse c.ref = false := by
      rw [hs.inUse]
      exact decide_eq_false (not_le.mpr (hs.gone hp))
    exact on_eq_self (if_pos (sshdSessionAt_free hf))

theorem onTcpConnect_forgets (w : World) (s : Session) (tcpIn : Bytes) (tcp : ℤ) :
    onTcpConnect i w tcp =
      { onTcpConnect i { w with s := s, tcpIn := tcpIn } tcp with tcpIn := w.tcpIn } := by
  by_cases ht : tcp < 0
  · simp only [onTcpConnect, sessionOpen, sendOurVersion, sendRawTcp, World.note, World.modify, ht,
      if_true]
  · simp only [onTcpConnect, sessionOpen, sendOurVersion, sendRawTcp, World.note, World.modify, ht,
      if_false]
    rfl

theorem on_forgets (s : Session)
    (hcall : ∀ w s tcpIn,
      call w = { call { w with s := s, tcpIn := tcpIn } with tcpIn := w.tcpIn }) :
    d.on i call = { d with sessions := Function.update d.sessions i s }.on i call := by
  have hin (w : World) : (call w).tcpIn = w.tcpIn := by rw [hcall w w.s w.tcpIn]
  have hw : ({ d with sessions := Function.update d.sessions i s } : Daemon).world i =
      { d.world i with s := s, tcpIn := d.tcpIn s.tcp } := by
    simp [Daemon.world]
  have ht : Function.update d.tcpIn (d.sessions i).tcp (call (d.world i)).tcpIn = d.tcpIn := by
    rw [hin]
    exact Function.update_eq_self ..
  have ht' : Function.update d.tcpIn (Function.update d.sessions i s i).tcp
      (call { d.world i with s := s, tcpIn := d.tcpIn s.tcp }).tcpIn = d.tcpIn := by
    rw [hin, Function.update_self]
    exact Function.update_eq_self ..
  simp only [Daemon.on, ht, hw, ht', Function.update_idem]
  rw [hcall (d.world i) s (d.tcpIn s.tcp)]

/-- Nothing of the session that was in the slot is left. -/
theorem step_tcpConnect_forgets {slot : ℤ} (hslot : findFreeSlot d = some slot) (s : Session)
    (handle : ℕ) :
    d.step P (.tcpConnect handle) =
      { d with sessions := Function.update d.sessions slot s }.step P (.tcpConnect handle) := by
  have hslot' : findFreeSlot { d with sessions := Function.update d.sessions slot s } = some slot :=
    hslot
  simp only [Daemon.step, hslot, hslot']
  exact on_forgets s fun w s tcpIn ↦ onTcpConnect_forgets w s tcpIn handle

theorem on_obs_grows (he : Ends P (d.world i) (call (d.world i))) :
    d.obs <+: (d.on i call).obs := by
  have hm := he.moves
  change (d.world i).obs <+: (call (d.world i)).obs
  generalize call (d.world i) = w at hm
  induction hm with
  | refl => exact List.prefix_rfl
  | tail _ hs ih => exact ih.trans (hs.obs_grows P)

theorem callback_obs_grows {f : Conn → Daemon} (hf : ∀ c, d.obs <+: (f c).obs) :
    d.obs <+: (d.callback conn f).obs := by
  unfold Daemon.callback
  split
  · exact List.prefix_rfl
  · split
    · exact List.prefix_rfl
    · exact hf _

theorem step_obs_grows (d : Daemon) (e : DaemonEvent) : d.obs <+: (d.step P e).obs := by
  cases e with
  | tcpConnect handle =>
    unfold Daemon.step
    simp only
    split
    · exact List.prefix_rfl
    · rename_i slot _
      have hq := (onTcpConnect_tame slot
        (({ d with tcpIn := Function.update d.tcpIn handle [] } : Daemon).world slot)
        handle).obs_grows
      exact (List.prefix_append d.obs _).trans hq
  | arrive link handle data => cases link <;> exact List.prefix_rfl
  | recv conn =>
    refine callback_obs_grows fun c ↦ ?_
    unfold Daemon.recv
    split
    · exact on_obs_grows P (step_ends P c.ref _ .tcpRecv)
    · exact on_obs_grows P (step_ends P c.ref _ .backendRecv)
  | disconnect conn =>
    refine callback_obs_grows fun c ↦ ?_
    unfold Daemon.disconnect
    split
    · exact on_obs_grows P (step_ends P c.ref _ .tcpDisconnect)
    · exact on_obs_grows P (step_ends P c.ref _ .backendDisconnect)
  | reset =>
    exact (on_obs_grows P (step_ends P 0 _ .reset)).trans
      (on_obs_grows P (step_ends P 1 _ .reset))

theorem conns_grows {obs obs' : List Obs} (h : obs <+: obs') : conns obs <+: conns obs' := by
  obtain ⟨os, rfl⟩ := h
  exact ⟨conns os, (conns_append obs os).symm⟩

end

theorem ofPast_iff {d : Daemon} {i : ℤ} {e : DaemonEvent} :
    e.ofPast d i = true ↔
      ∃ conn c, e.conn = some conn ∧ (conns d.obs)[conn]? = some c ∧ c.ref = i := by
  simp only [DaemonEvent.ofPast, Option.any_eq_true, decide_eq_true_eq]
  constructor
  · rintro ⟨conn, hconn, c, hc, href⟩
    exact ⟨conn, c, hconn, hc, href⟩
  · rintro ⟨conn, c, hconn, hc, href⟩
    exact ⟨conn, hconn, c, hc, href⟩

/-- A slot's earlier connections are stale once the slot is in use again. -/
theorem stale_ofPast {d d' : Daemon} {slot tcp : ℤ} {e : DaemonEvent} {conn : ℕ} {c : Conn}
    (hd : conns d.obs ++ [⟨.tcp, tcp, slot⟩] <+: conns d'.obs) (he : e.conn = some conn)
    (hc : (conns d.obs)[conn]? = some c) (href : c.ref = slot) :
    (conns d'.obs)[conn]? = some c ∧ Stale d' c conn e := by
  obtain ⟨rest, hrest⟩ := hd
  obtain ⟨hlt, -⟩ := List.getElem?_eq_some_iff.mp hc
  have hnew : ⟨.tcp, tcp, slot⟩ ∈ (conns d'.obs).drop (conn + 1) := by
    rw [← hrest, List.append_assoc, List.drop_append_of_le_length hlt]
    simp
  refine ⟨?_, ?_⟩
  · rw [← hrest, List.append_assoc, List.getElem?_append_left hlt]
    exact hc
  · cases e with
    | tcpConnect => cases he
    | arrive => cases he
    | reset => cases he
    | recv => exact ⟨_, hnew, href.symm, rfl⟩
    | disconnect => exact ⟨_, hnew, href.symm, .inl rfl⟩

/-- What follows on an accepted connection goes the same way without the
callbacks of the slot's earlier connections. -/
theorem run_filter_ofPast {env : Env} {events : List DaemonEvent} (h : LateOnlyIdle P env events)
    {d : Daemon} {slot tcp : ℤ} (pre post : List DaemonEvent) (hevents : events = pre ++ post)
    (hd : conns d.obs ++ [⟨.tcp, tcp, slot⟩] <+: conns ((boot env).run P pre).obs) :
    ((boot env).run P pre).run P post =
      ((boot env).run P pre).run P (post.filter fun e ↦ !e.ofPast d slot) := by
  induction post generalizing pre with
  | nil => rfl
  | cons e post ih =>
    have hstep : (boot env).run P (pre ++ [e]) = ((boot env).run P pre).step P e :=
      Daemon.run_append P (boot env) pre [e]
    have hd' := hd.trans (conns_grows (step_obs_grows P ((boot env).run P pre) e))
    rw [← hstep] at hd'
    have hrest := ih (pre ++ [e]) (by rw [hevents, List.append_assoc]; rfl) hd'
    rw [hstep] at hrest
    by_cases hpast : e.ofPast d slot = true
    · obtain ⟨conn, c, hconn, hc, href⟩ := ofPast_iff.mp hpast
      obtain ⟨hc', hstale⟩ := stale_ofPast hd hconn hc href
      have hidle := h pre e post hevents conn hconn c hc' hstale
      rw [List.filter_cons_of_neg (by simp [hpast])]
      rw [step_idle P (daemonInv_run P env pre) hconn hc' hidle] at hrest
      change (((boot env).run P pre).step P e).run P post = _
      rw [step_idle P (daemonInv_run P env pre) hconn hc' hidle]
      exact hrest
    · rw [List.filter_cons_of_pos (by simp [hpast])]
      exact hrest

theorem conns_tcpConnect {d : Daemon} {slot : ℤ} (hslot : findFreeSlot d = some slot)
    (handle : ℕ) :
    conns (d.step P (.tcpConnect handle)).obs = conns d.obs ++ [⟨.tcp, handle, slot⟩] := by
  simp only [Daemon.step, hslot]
  exact conns_accept slot _ handle

/-- As long as late callbacks find an idle slot, no session sees an event that
is not its own. -/
theorem isolated_of_lateOnlyIdle (P : Primitives) (env : Env) (events : List DaemonEvent)
    (h : LateOnlyIdle P env events) : Isolated P env events where
  own pre conn post c hevents hc hne := by
    have hinv := daemonInv_run P env pre
    refine own_of_latest P hinv hc (latest_of_not_replaced hc fun c' hm hr ↦ ?_) hne
    have hidle := h pre (.disconnect conn) post hevents conn rfl c hc ⟨c', hm, hr⟩
    exact hne (congrArg Daemon.sessions (step_idle P hinv rfl hc hidle))
  fresh pre handle post slot s hevents hslot := by
    have hstep : (boot env).run P (pre ++ [.tcpConnect handle]) =
        ((boot env).run P pre).step P (.tcpConnect handle) :=
      Daemon.run_append P (boot env) pre [_]
    have hconns : conns ((boot env).run P (pre ++ [.tcpConnect handle])).obs =
        conns ((boot env).run P pre).obs ++ [⟨.tcp, (handle : ℤ), slot⟩] := by
      rw [hstep]
      exact conns_tcpConnect P hslot handle
    have hd : conns ((boot env).run P pre).obs ++ [⟨.tcp, (handle : ℤ), slot⟩] <+:
        conns ((boot env).run P (pre ++ [.tcpConnect handle])).obs :=
      ⟨[], by rw [hconns, List.append_nil]⟩
    have hrun := run_filter_ofPast P h (pre ++ [.tcpConnect handle]) post
      (by rw [hevents, List.append_assoc]; rfl) hd
    rw [hstep] at hrun
    refine Eq.trans hrun ?_
    rw [step_tcpConnect_forgets P hslot s handle]
    rfl

/-! Sample runs with random bytes that never change, so that one client can
log in twice. -/

def steadyEnv : Env := { sampleEnv with random := fun _ _ ↦ 2 }

def steadyKey : Bytes :=
  (runFrom standIn 0 (accepted 0 steadyEnv 3) [.tcpArrive clientHello, .tcpRecv]).s.c2sKey

def steadyClient (payloads : List Bytes) : Bytes :=
  clientHello ++ packets true steadyKey 3 (clientPassword :: payloads)

theorem isolated_timely_exit :
    Isolated standIn steadyEnv [.tcpConnect 3,
      .arrive .tcp 3 (steadyClient [clientChannelOpen 4096 1024, clientShell]), .recv 0,
      .disconnect 0, .tcpConnect 4, .disconnect 1, .disconnect 2] :=
  isolated_of_lateOnlyIdle standIn steadyEnv _ (by decide +kernel)

/-- The second shell of a session leaves the first backend behind; the next
session in the slot has a shell of its own. -/
def lateExit : List DaemonEvent :=
  [.tcpConnect 3,
    .arrive .tcp 3 (steadyClient [clientChannelOpen 4096 1024, clientShell, clientShell]), .recv 0,
    .disconnect 0, .tcpConnect 4,
    .arrive .tcp 4 (steadyClient [clientChannelOpen 4096 1024, clientShell]), .recv 3]

/-- When the backend that was left behind exits, the other session ends. -/
theorem late_exit_ends_session : ¬Isolated standIn steadyEnv (lateExit ++ [.disconnect 1]) := by
  intro h
  have hphase : (((boot steadyEnv).run standIn lateExit).sessions 0).phase ≠
      ((((boot steadyEnv).run standIn lateExit).step standIn (.disconnect 1)).sessions 0).phase := by
    decide +kernel
  have hown := h.own lateExit 1 [] ⟨.backend, 34, 0⟩ rfl (by decide +kernel)
    fun hs ↦ hphase (congrArg Session.phase (congrFun hs 0)).symm
  exact absurd hown (by decide +kernel)

end Sshd.Server
