import Sshd.Server.Runs

namespace Sshd.Server

open Lib.Octets Wire Crypto

variable {P : Primitives}

/-- What the client has sent for a backend, with the handle of that backend:
the bytes of `CHANNEL_DATA` while there is one, the line of an `exec` request
once its backend is connected. The first component is an `exec` line whose
connect is still to come. -/
def feedAfter (state : Option Bytes × List (ℤ × Bytes)) : Obs →
    Option Bytes × List (ℤ × Bytes)
  | .dispatch s payload =>
    if s.phase = .run then
      match dataPayload payload with
      | some d => (none, state.2 ++ if 0 ≤ s.backendHandle then [(s.backendHandle, d)] else [])
      | none =>
        match backendRequest payload with
        | some (.cli, .line, line) => (some line, state.2)
        | _ => (none, state.2)
    else (none, state.2)
  | .itsConnect _ _ _ handle =>
    match state.1 with
    | some line => (none, state.2 ++ if 0 ≤ handle then [(handle, line)] else [])
    | none => state
  | _ => state

def feed (obs : List Obs) : Option Bytes × List (ℤ × Bytes) := obs.foldl feedAfter (none, [])

def received (obs : List Obs) : List (ℤ × Bytes) := (feed obs).2

/-- The writes to backends: handle, bytes and how many of them were taken. -/
def writes (obs : List Obs) : List (ℤ × Bytes × ℕ) :=
  obs.filterMap fun o ↦ match o with
    | .itsSend .backend handle data took => some (handle, data, took)
    | _ => none

def offered (obs : List Obs) : List (ℤ × Bytes) := (writes obs).map fun w ↦ (w.1, w.2.1)

def given (obs : List Obs) : List (ℤ × Bytes) :=
  (writes obs).map fun w ↦ (w.1, w.2.1.take w.2.2)

/-- The stream of one backend. -/
def bytesFor (handle : ℤ) (l : List (ℤ × Bytes)) : Bytes :=
  l.flatMap fun w ↦ if w.1 = handle then w.2 else []

/-- Every backend has been given exactly what the client sent for it, or the
session is over. -/
def InputDelivered (w : World) : Prop :=
  w.s.phase = .closed ∨ ∀ handle, bytesFor handle (given w.obs) = bytesFor handle (received w.obs)

def AllTaken (obs : List Obs) : Prop := ∀ w ∈ writes obs, w.2.1.length ≤ w.2.2

/-! What was offered is what was received. -/

/-- Calls that no backend sees. -/
def Obs.Unfed : Obs → Prop
  | .dispatch _ _ | .itsConnect _ _ _ _ => False
  | .itsSend link _ _ _ => link = .tcp
  | _ => True

theorem Obs.Calm.unfed {o : Obs} (h : o.Calm) : o.Unfed := by
  cases o <;> first | exact h.elim | trivial

section
variable {s : Session} {payload : Bytes} (state : Option Bytes × List (ℤ × Bytes))

theorem feedAfter_data {d : Bytes} (hp : s.phase = .run) (hd : dataPayload payload = some d) :
    feedAfter state (.dispatch s payload) =
      (none, state.2 ++ if 0 ≤ s.backendHandle then [(s.backendHandle, d)] else []) := by
  simp only [feedAfter, hp, hd, if_true]

theorem feedAfter_exec {line : Bytes} (hp : s.phase = .run) (hd : dataPayload payload = none)
    (hr : backendRequest payload = some (.cli, .line, line)) :
    feedAfter state (.dispatch s payload) = (some line, state.2) := by
  simp only [feedAfter, hp, hd, hr, if_true]

theorem feedAfter_other (hd : s.phase = .run → dataPayload payload = none)
    (hr : s.phase = .run → ∀ line, backendRequest payload ≠ some (.cli, .line, line)) :
    feedAfter state (.dispatch s payload) = (none, state.2) := by
  by_cases hp : s.phase = .run
  · simp only [feedAfter, hp, hd hp, if_true]
    split
    · rename_i line hline
      exact absurd hline (hr hp line)
    · rfl
  · simp only [feedAfter, hp, if_false]

end

theorem feed_snoc (obs : List Obs) (o : Obs) : feed (obs ++ [o]) = feedAfter (feed obs) o := by
  rw [feed, List.foldl_append]
  rfl

theorem feed_unfed {obs os : List Obs} (h : ∀ o ∈ os, o.Unfed) : feed (obs ++ os) = feed obs := by
  induction os generalizing obs with
  | nil => rw [List.append_nil]
  | cons o os ih =>
    have ho := h o List.mem_cons_self
    rw [List.append_cons, ih fun o' ho' ↦ h o' (List.mem_cons_of_mem o ho'), feed_snoc]
    cases o <;> first | exact ho.elim | rfl

theorem offered_append (obs os : List Obs) : offered (obs ++ os) = offered obs ++ offered os := by
  rw [offered, writes, List.filterMap_append, List.map_append]
  rfl

theorem offered_unfed {os : List Obs} (h : ∀ o ∈ os, o.Unfed) : offered os = [] := by
  refine List.map_eq_nil_iff.mpr (List.filterMap_eq_nil_iff.mpr fun o ho ↦ ?_)
  have hu := h o ho
  cases o with
  | itsSend link handle data took =>
    cases hu
    rfl
  | _ => rfl

/-- The backends have been offered what the client sent. -/
def Offers (w : World) : Prop := received w.obs = offered w.obs

section
variable {w w' : World} {os : List Obs}

theorem Offers.grow (h : Offers w) (hobs : w'.obs = w.obs ++ os) (hos : ∀ o ∈ os, o.Unfed) :
    Offers w' := by
  rw [Offers, hobs, received, feed_unfed hos, offered_append, offered_unfed hos, List.append_nil]
  exact h

theorem Offers.same (h : Offers w) (hobs : w'.obs = w.obs) : Offers w' := by
  rw [Offers, hobs]
  exact h

theorem Offers.quiet (h : Offers w) (hq : Tame w w') : Offers w' := by
  obtain ⟨os, hobs, hcalm⟩ := hq.obs
  exact h.grow hobs fun o ho ↦ (hcalm o ho).unfed

theorem Offers.send (h : Offers w) (payload : Bytes) : Offers (sendPacket P w payload) := by
  refine h.grow (sendPacket_obs P w payload) fun o ho ↦ ?_
  obtain ⟨_, rfl⟩ | ⟨_, rfl, _⟩ | ⟨_, _, _, rfl⟩ := mem_sendObs P ho <;> trivial

theorem Offers.replenish (h : Offers w) (written : ℕ) : Offers (replenish P w written) := by
  obtain ⟨os, hobs, hos⟩ := replenish_obs P w written
  refine h.grow hobs fun o ho ↦ ?_
  obtain ⟨_, rfl⟩ | ⟨_, rfl, _⟩ | ⟨_, _, _, rfl⟩ := hos o ho <;> trivial

theorem Offers.dropBackend (h : Offers w) : Offers (dropBackend w) := by
  refine h.grow (dropBackend_obs w) ?_
  unfold dropObs
  split <;> simp [Obs.Unfed]

theorem quiet_feed (hq : Tame w w') : feed w'.obs = feed w.obs := by
  obtain ⟨os, hobs, hcalm⟩ := hq.obs
  rw [hobs, feed_unfed fun o ho ↦ (hcalm o ho).unfed]

theorem Offers.connectBackend (h : Offers w) (hf : (feed w.obs).1 = none) (b : Backend) (ref : ℤ) :
    Offers (connectBackend w b ref) := by
  have hfeed : feed (Server.connectBackend w b ref).obs = feed w.obs := by
    change feed (w.obs ++ [_]) = _
    rw [feed_snoc, feedAfter, hf]
  have hoff : offered (Server.connectBackend w b ref).obs = offered w.obs := by
    change offered (w.obs ++ [_]) = _
    rw [offered_append]
    exact List.append_nil _
  rw [Offers, received, hfeed, hoff]
  exact h

theorem Offers.backendSend {handle : ℤ} {data : Bytes}
    (h : received w.obs = offered w.obs ++ [(handle, data)]) :
    Offers (itsSend w .backend handle data).2 := by
  change received (w.obs ++ [_]) = offered (w.obs ++ [_])
  rw [received, feed_snoc, offered_append]
  exact h

theorem Offers.hangUp (h : Offers w) : Offers (hangUp w) := h.grow rfl (by simp [Obs.Unfed])

theorem Offers.outcome {payload : Bytes} {slot : ℤ} (h : Offers w) (hf : (feed w.obs).1 = none)
    (hdata : w.s.phase = .run → dataPayload payload = none)
    (hexec : w.s.phase = .run → ∀ line, backendRequest payload ≠ some (.cli, .line, line))
    (ho : Outcome P slot w payload w') : Offers w' := by
  cases ho with
  | quiet hq => exact h.quiet hq.toTame
  | hangUp hq => exact (h.quiet hq.toTame).hangUp
  | kexinit => exact h
  | @exchange w₁ _ ht hp hash hq hq' =>
    have hadopt : Offers (adoptHash w₁ hash) :=
      (h.quiet hq.toTame).grow (adoptHash_obs w₁ hash) (by simp [Obs.Unfed])
    exact (hadopt.quiet hq'.toTame).grow rfl (by simp [Obs.Unfed])
  | newkeys => exact h
  | success hp hj hq => exact (h.quiet hq.toTame).same rfl
  | chanOpen hp hc peerCh peerWin peerMax =>
    have hopen : Offers (openChannel w peerCh peerWin peerMax) := h
    exact hopen.send _
  | backend hp b hr hq hq' =>
    exact ((h.quiet hq.toTame).connectBackend (by rw [quiet_feed hq.toTame, hf]) b _).quiet hq'.toTame
  | exec hp b line hr hq hq' hh => exact absurd hr (hexec hp line)
  | data hp d hd hb =>
    rw [hdata hp] at hd
    cases hd
  | chanClose hc hq => exact (h.dropBackend.quiet hq.toTame).same rfl

end

theorem Offers.packet {w w₁ : World} {payload : Bytes} (h : Offers w)
    (hw : parsePacket P w = .got payload w₁) :
    Offers (dispatchPacket P w₁ payload w₁.s.slot).1 := by
  have h₁ : Offers w₁ := by
    obtain ⟨packet, rest, -, rfl⟩ := parsePacket_got P hw
    exact h.grow rfl (by simp [Obs.Unfed])
  have hfeed : feed (w₁.note (.dispatch w₁.s payload)).obs =
      feedAfter (feed w₁.obs) (.dispatch w₁.s payload) := feed_snoc _ _
  have hoff : offered (w₁.note (.dispatch w₁.s payload)).obs = offered w₁.obs := by
    rw [note_obs, offered_append]
    exact List.append_nil _
  have ho := dispatchPacket_outcome P w₁ payload w₁.s.slot
  have hidle : (w₁.s.phase = .run → dataPayload payload = none) →
      (w₁.s.phase = .run → ∀ line, backendRequest payload ≠ some (.cli, .line, line)) →
      Offers (dispatchPacket P w₁ payload w₁.s.slot).1 := by
    intro hdata hexec
    rw [feedAfter_other _ hdata hexec] at hfeed
    have hd : Offers (w₁.note (.dispatch w₁.s payload)) := by
      rw [Offers, received, hfeed, hoff]
      exact h₁
    exact hd.outcome (by rw [hfeed]) hdata hexec ho
  by_cases hp : w₁.s.phase = .run
  swap
  · exact hidle (fun hr ↦ absurd hr hp) fun hr ↦ absurd hr hp
  cases hd : dataPayload payload with
  | some d =>
    rw [dispatchPacket_data P w₁.s.slot hp hd]
    rw [feedAfter_data _ hp hd] at hfeed
    split
    · rename_i hb
      rw [if_neg (not_le.mpr hb), List.append_nil] at hfeed
      rw [Offers, received, hfeed, hoff]
      exact h₁
    · rename_i hb
      rw [if_pos (not_lt.mp hb)] at hfeed
      refine (Offers.backendSend ?_).replenish _
      rw [received, hfeed, hoff]
      exact congrArg (· ++ _) h₁
  | none =>
    by_cases hexec : ∃ line, backendRequest payload = some (.cli, .line, line)
    · obtain ⟨line, hr⟩ := hexec
      obtain ⟨b, w₂, w₃, hq, hq', hcases⟩ := dispatchPacket_exec P w₁.s.slot hp hr
      rw [feedAfter_exec _ hp hd hr] at hfeed
      have hf₂ : feed w₂.obs = (some line, received w₁.obs) := (quiet_feed hq.toTame).trans hfeed
      have ho₂ : offered w₂.obs = offered w₁.obs := by
        obtain ⟨os, hobs, hcalm⟩ := hq.obs
        rw [hobs, offered_append, offered_unfed fun o ho ↦ (hcalm o ho).unfed, List.append_nil,
          hoff]
      have hf₃ : received w₃.obs = received w₁.obs ++
          if 0 ≤ w₃.s.backendHandle then [(w₃.s.backendHandle, line)] else [] := by
        rw [received, quiet_feed hq'.toTame, hq'.backendHandle]
        change (feed (w₂.obs ++ [_])).2 = _
        rw [feed_snoc, feedAfter, hf₂]
        rfl
      have ho₃ : offered w₃.obs = offered w₁.obs := by
        obtain ⟨os, hobs, hcalm⟩ := hq'.obs
        rw [hobs, offered_append, offered_unfed fun o ho ↦ (hcalm o ho).unfed, List.append_nil,
          ← ho₂]
        change offered (w₂.obs ++ [_]) = _
        rw [offered_append]
        exact List.append_nil _
      obtain ⟨hh, he⟩ | ⟨hh, he⟩ := hcases
      · rw [he, Offers, hf₃, if_neg (not_le.mpr hh), List.append_nil, ho₃]
        exact h₁
      · rw [he]
        refine Offers.backendSend ?_
        rw [hf₃, if_pos hh, ho₃]
        exact congrArg (· ++ _) h₁
    · exact hidle (fun _ ↦ hd) fun _ line hr ↦ hexec ⟨line, hr⟩

theorem Offers.step {w w' : World} (h : Offers w) (hm : Move P w w') : Offers w' := by
  cases hm with
  | quiet hq => exact h.quiet hq.toTame
  | versionDone hp hq => exact (h.quiet hq.toTame).same rfl
  | hangUp hq => exact (h.quiet hq.toTame).hangUp
  | packet hp hw => exact h.packet hw
  | dropBackend => exact h.dropBackend
  | chanShut hb => exact h
  | teardown hb =>
    have hobs : (shut (dropTcp w)).obs = (dropTcp w).obs := rfl
    rw [dropTcp_obs] at hobs
    refine h.grow hobs ?_
    split <;> simp [Obs.Unfed]
  | freeSlot hp hc hb => exact h.grow (by rw [freeSlot_obs, List.append_nil]) (by simp)

/-! Whole writes give a backend what it was offered, short ones less. -/

theorem bytesFor_cons (handle : ℤ) (w : ℤ × Bytes) (l : List (ℤ × Bytes)) :
    bytesFor handle (w :: l) = (if w.1 = handle then w.2 else []) ++ bytesFor handle l := by
  rw [bytesFor, List.flatMap_cons]
  rfl

section
variable (handle : ℤ) (l : List (ℤ × Bytes × ℕ))

theorem bytesFor_take_le :
    (bytesFor handle (l.map fun w ↦ (w.1, w.2.1.take w.2.2))).length ≤
      (bytesFor handle (l.map fun w ↦ (w.1, w.2.1))).length := by
  induction l with
  | nil => exact le_rfl
  | cons w l ih =>
    simp only [List.map_cons, bytesFor_cons, List.length_append]
    have hw : (if w.1 = handle then w.2.1.take w.2.2 else []).length ≤
        (if w.1 = handle then w.2.1 else []).length := by
      split
      · exact List.length_take_le' _ _
      · exact le_rfl
    omega

theorem taken_of_length (h : (bytesFor handle (l.map fun w ↦ (w.1, w.2.1.take w.2.2))).length =
      (bytesFor handle (l.map fun w ↦ (w.1, w.2.1))).length) :
    ∀ w ∈ l, w.1 = handle → w.2.1.length ≤ w.2.2 := by
  induction l with
  | nil => simp
  | cons w l ih =>
    have hle := bytesFor_take_le handle l
    simp only [List.map_cons, bytesFor_cons, List.length_append] at h
    intro w' hw' hh
    obtain rfl | hm := List.mem_cons.mp hw'
    · rw [if_pos hh, if_pos hh, List.length_take] at h
      omega
    · refine ih ?_ w' hm hh
      have hw : (if w.1 = handle then w.2.1.take w.2.2 else []).length ≤
          (if w.1 = handle then w.2.1 else []).length := by
        split
        · exact List.length_take_le' _ _
        · exact le_rfl
      omega

end

theorem allTaken_iff (obs : List Obs) :
    (∀ handle, bytesFor handle (given obs) = bytesFor handle (offered obs)) ↔ AllTaken obs := by
  constructor
  · intro h w hw
    exact taken_of_length w.1 (writes obs) (congrArg List.length (h w.1)) w hw rfl
  · intro h handle
    have hmap : given obs = offered obs := by
      refine List.map_congr_left fun w hw ↦ ?_
      rw [List.take_of_length_le (h w hw)]
    rw [hmap]

/-- The client's bytes reach the backends without loss exactly as long as
every write is taken whole. -/
theorem inputDelivered_iff (P : Primitives) (env : Env) (i tcp : ℤ) (events : List Event) :
    InputDelivered (runFrom P i (accepted i env tcp) events) ↔
      (runFrom P i (accepted i env tcp) events).s.phase = .closed ∨
        AllTaken (runFrom P i (accepted i env tcp) events).obs := by
  have h₀ : Offers (accepted i env tcp) := by
    obtain ⟨w, hq, -, hobs, -⟩ := accepted_tame i env tcp
    refine Offers.quiet ?_ hq
    rw [Offers, hobs]
    rfl
  have h : Offers (runFrom P i (accepted i env tcp) events) :=
    run_induction P i Offers (fun _ _ h hm ↦ h.step hm) h₀ events
  rw [InputDelivered, h, allTaken_iff]

/-- A backend that takes one byte of each write. -/
def slowEnv : Env :=
  { sampleEnv with itsSend := fun _ link _ data ↦ if link = .backend then 1 else data.length }

theorem short_write_drops : ¬InputDelivered
    (sampleRun slowEnv [clientChannelOpen 4096 1024, clientShell, clientData (ascii "ls")]) := by
  rintro (h | h)
  · exact absurd h (by decide +kernel)
  · have hb := h (sampleRun slowEnv
      [clientChannelOpen 4096 1024, clientShell, clientData (ascii "ls")]).s.backendHandle
    exact absurd hb (by decide +kernel)

end Sshd.Server
