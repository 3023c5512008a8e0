import Sshd.Server.Deaf

namespace Sshd.Server

open Lib.Octets Wire Crypto

variable (P : Primitives)

/-! One round of the receive loop. -/

inductive Rounded
  | waits
  | ends (w : World)
  | goesOn (w : World)

/-- What becomes of a loop in world `w`. -/
def Rounded.result (w : World) (loop : World → World) : Rounded → World
  | .waits => w
  | .ends w' => w'
  | .goesOn w' => loop w'

def receiveRound (w : World) : Rounded :=
  if w.s.phase = .closed then .ends w
  else if w.s.phase = .version then
    match consumeVersion P w with
    | (w, false) => if w.s.phase = .closed then .ends w else .waits
    | (w, true) => .goesOn w
  else
    match parsePacket P w with
    | .needMore => .waits
    | .bad => .ends (sendDisconnect P w 2 "framing error")
    | .got payload w =>
      match dispatchPacket P w payload w.s.slot with
      | (w, false) =>
        .ends (if w.s.phase ≠ .closed then sendDisconnect P w 2 "protocol error" else w)
      | (w, true) => .goesOn w

/-- Rounds until there is nothing left to read. -/
inductive Drains : World → World → Prop
  | waits {w} (h : receiveRound P w = .waits) : Drains w w
  | ends {w w'} (h : receiveRound P w = .ends w') : Drains w w'
  | goesOn {w w₁ w'} (h : receiveRound P w = .goesOn w₁) (hd : Drains w₁ w') : Drains w w'

section
variable {P} {w w₁ w' : World}

theorem Drains.unique {w₂ : World} (h : Drains P w w₁) (h' : Drains P w w₂) : w₁ = w₂ := by
  induction h with
  | waits hr =>
    cases h' with
    | waits => rfl
    | ends hr' => cases hr.symm.trans hr'
    | goesOn hr' => cases hr.symm.trans hr'
  | ends hr =>
    cases h' with
    | waits hr' => cases hr.symm.trans hr'
    | ends hr' =>
      cases hr.symm.trans hr'
      rfl
    | goesOn hr' => cases hr.symm.trans hr'
  | goesOn hr _ ih =>
    cases h' with
    | waits hr' => cases hr.symm.trans hr'
    | ends hr' => cases hr.symm.trans hr'
    | goesOn hr' hd =>
      cases hr.symm.trans hr'
      exact ih hd

theorem Outcome.not_version {slot : ℤ} {payload : Bytes} (h : Outcome P slot w payload w')
    (hp : w.s.phase ≠ .version) : w'.s.phase ≠ .version := by
  cases h with
  | quiet hq => exact hq.phase ▸ hp
  | hangUp =>
    intro he
    cases he
  | kexinit =>
    intro he
    cases he
  | exchange =>
    intro he
    cases he
  | newkeys =>
    intro he
    cases he
  | success =>
    intro he
    cases he
  | chanOpen =>
    rw [sendChannelOpenConfirm, sendPacket_s]
    exact hp
  | backend _ b _ hq hq' =>
    rw [hq'.phase]
    exact fun he ↦ hp (hq.phase.symm.trans he)
  | exec _ b _ _ hq hq' _ =>
    intro he
    exact hp (hq.phase.symm.trans (hq'.phase.symm.trans he))
  | data _ d _ _ =>
    have hc := congrArg Control.phase (replenish_control P
      (itsSend w .backend w.s.backendHandle d).2 (itsSend w .backend w.s.backendHandle d).1)
    exact fun he ↦ hp (hc.symm.trans he)
  | chanClose =>
    intro he
    cases he

theorem consumeVersion_cases (w : World) :
    (∃ line rest, takeLine w.s.rxBuf = some (line, rest) ∧
      consumeVersion P w =
        if line.take 4 ≠ ascii "SSH-" then
          (sendDisconnect P (w.modify fun s ↦ { s with peerVersion := line, rxBuf := rest }) 2
            "not an SSH client", false)
        else if line.take 8 ≠ ascii "SSH-2.0-" then
          (sendDisconnect P (w.modify fun s ↦ { s with peerVersion := line, rxBuf := rest }) 2
            "SSH protocol version must be 2.0", false)
        else
          ((sendOurKexinit P
            (w.modify fun s ↦ { s with peerVersion := line, rxBuf := rest })).modify
              fun s ↦ { s with phase := .kexWaitKexinit }, true)) ∨
    takeLine w.s.rxBuf = none ∧
      consumeVersion P w =
        if 1024 < w.s.rxBuf.length then (sendDisconnect P w 2 "preamble too long", false)
        else (w, false) := by
  unfold consumeVersion
  cases hl : takeLine w.s.rxBuf with
  | none => exact .inr ⟨rfl, rfl⟩
  | some p => exact .inl ⟨p.1, p.2, rfl, rfl⟩

/-! The rounds make up the loop. -/

theorem receiveRound_ends (h : receiveRound P w = .ends w') : w'.s.phase = .closed := by
  unfold receiveRound at h
  split at h
  · rename_i hc
    cases h
    exact hc
  split at h
  · split at h
    · split at h
      · rename_i hc
        cases h
        exact hc
      · cases h
    · cases h
  · split at h
    · cases h
    · cases h
      rfl
    · split at h
      · cases h
        split
        · rfl
        · rename_i hc
          exact not_not.mp hc
      · cases h

theorem receiveRound_waits (h : receiveRound P w = .waits) : w.s.phase ≠ .closed := by
  intro hc
  rw [receiveRound, if_pos hc] at h
  cases h

/-! What a round does with the version line, and what with a packet. -/

theorem receiveRound_halfLine (hp : w.s.phase = .version) (h : consumeVersion P w = (w, false)) :
    receiveRound P w = .waits := by
  have hopen : w.s.phase ≠ .closed := by
    rw [hp]
    nofun
  rw [receiveRound, if_neg hopen, if_pos hp, h]
  exact if_neg hopen

theorem receiveRound_refused (hp : w.s.phase = .version) (h : consumeVersion P w = (w', false))
    (hc : w'.s.phase = .closed) : receiveRound P w = .ends w' := by
  rw [receiveRound, if_neg (by rw [hp]; nofun), if_pos hp, h]
  exact if_pos hc

theorem receiveRound_greeted (hp : w.s.phase = .version) (h : consumeVersion P w = (w', true)) :
    receiveRound P w = .goesOn w' := by
  rw [receiveRound, if_neg (by rw [hp]; nofun), if_pos hp, h]

theorem receiveRound_needMore (hp : w.s.phase ≠ .closed ∧ w.s.phase ≠ .version)
    (h : parsePacket P w = .needMore) : receiveRound P w = .waits := by
  rw [receiveRound, if_neg hp.1, if_neg hp.2, h]

theorem receiveRound_bad (hp : w.s.phase ≠ .closed ∧ w.s.phase ≠ .version)
    (h : parsePacket P w = .bad) :
    receiveRound P w = .ends (sendDisconnect P w 2 "framing error") := by
  rw [receiveRound, if_neg hp.1, if_neg hp.2, h]

theorem receiveRound_got (hp : w.s.phase ≠ .closed ∧ w.s.phase ≠ .version) {payload : Bytes}
    {w₂ : World} {ok : Bool} (h : parsePacket P w = .got payload w₁)
    (hd : dispatchPacket P w₁ payload w₁.s.slot = (w₂, ok)) :
    receiveRound P w = if ok then .goesOn w₂
      else .ends (if w₂.s.phase ≠ .closed then sendDisconnect P w₂ 2 "protocol error" else w₂) := by
  rw [receiveRound, if_neg hp.1, if_neg hp.2, h]
  dsimp only
  rw [hd]
  cases ok <;> rfl

theorem takeLine_some {rxBuf line rest : Bytes} (h : takeLine rxBuf = some (line, rest)) :
    rest.length < rxBuf.length := by
  unfold takeLine at h
  split at h
  · rename_i hm
    have hidx := List.idxOf_lt_length_of_mem hm
    cases h
    rw [List.length_drop]
    omega
  · cases h

/-- Reading a version line and going on takes the line away. -/
theorem consumeVersion_true (h : consumeVersion P w = (w', true)) :
    w'.s.phase ≠ .version ∧ w'.s.rxBuf.length < w.s.rxBuf.length := by
  obtain ⟨line, rest, htake, hw⟩ | ⟨-, hw⟩ := consumeVersion_cases (P := P) w
  · rw [hw] at h
    split at h
    · cases h
    split at h
    · cases h
    cases h
    refine ⟨nofun, ?_⟩
    have hk := Deaf.sendOurKexinit P (w.modify fun s ↦ { s with peerVersion := line, rxBuf := rest })
    change (sendOurKexinit P _).s.rxBuf.length < _
    rw [hk.rxBuf]
    exact takeLine_some htake
  · rw [hw] at h
    split at h <;> cases h

/-- Not going on without closing the session is waiting for the rest of a short
line. -/
theorem consumeVersion_false (h : consumeVersion P w = (w', false)) (hc : w'.s.phase ≠ .closed) :
    w' = w ∧ w.s.rxBuf.length ≤ 1024 := by
  obtain ⟨line, rest, -, hw⟩ | ⟨-, hw⟩ := consumeVersion_cases (P := P) w
  · rw [hw] at h
    split at h
    · cases h
      exact absurd rfl hc
    split at h
    · cases h
      exact absurd rfl hc
    cases h
  · rw [hw] at h
    split at h
    · cases h
      exact absurd rfl hc
    · rename_i hlen
      cases h
      exact ⟨rfl, not_lt.mp hlen⟩

/-- A round that goes on has read something, and is past the version line. -/
theorem receiveRound_reads (h : receiveRound P w = .goesOn w') :
    w'.s.phase ≠ .version ∧ w'.s.rxBuf.length < w.s.rxBuf.length := by
  unfold receiveRound at h
  split at h
  · cases h
  split at h
  · split at h
    · split at h <;> cases h
    · rename_i hv
      cases h
      exact consumeVersion_true hv
  · rename_i hp
    split at h
    · cases h
    · cases h
    rename_i payload w₁ hw₁
    obtain ⟨packet, rest, hu, rfl⟩ := parsePacket_got P hw₁
    have hlt := (Framing.unframe_got P hu).2.1
    have hlen := (Framing.unframe_got P hu).1
    split at h
    · cases h
    · rename_i heq
      cases h
      generalize hw : (w.note _).modify _ = w₁ at heq
      have hphase : (w₁.note (.dispatch w₁.s payload)).s.phase ≠ .version := by
        rw [← hw]
        exact hp
      have hn := (dispatchPacket_outcome P w₁ payload w₁.s.slot).not_version hphase
      have hd := (Deaf.dispatchPacket P w₁ hlen w₁.s.slot).rxBuf
      rw [heq] at hn hd
      refine ⟨hn, ?_⟩
      rw [hd, ← hw]
      change rest.length < _
      omega

theorem receiveLoop_succ (n : ℕ) (w : World) :
    receiveLoop P (n + 1) w = (receiveRound P w).result w (receiveLoop P n) := by
  unfold receiveLoop receiveRound
  split
  · rfl
  split
  · cases hv : consumeVersion P w with
    | mk w' ok =>
      cases ok
      · simp only
        split
        · rfl
        · rename_i hn
          exact (consumeVersion_false hv hn).1
      · rfl
  · cases parsePacket P w with
    | needMore => rfl
    | bad => rfl
    | got payload w₁ =>
      simp only
      cases hd : dispatchPacket P w₁ payload w₁.s.slot with
      | mk w' ok => cases ok <;> rfl

theorem receiveLoop_drains (n : ℕ) (hn : w.s.rxBuf.length < n) :
    Drains P w (receiveLoop P n w) := by
  induction n generalizing w with
  | zero => cases hn
  | succ n ih =>
    rw [receiveLoop_succ]
    cases hr : receiveRound P w with
    | waits => exact .waits hr
    | ends w' => exact .ends hr
    | goesOn w' =>
      have hlt := (receiveRound_reads hr).2
      exact .goesOn hr (ih (by omega))

/-! What is left unread. -/

theorem fillRxBuf_eq (n : ℕ) (w : World) (h : w.tcpIn.length ≤ n) :
    fillRxBuf n w =
      { w with s := { w.s with rxBuf := w.s.rxBuf ++ w.tcpIn }, tcpIn := [] } := by
  induction n generalizing w with
  | zero =>
    have hq : w.tcpIn = [] := List.eq_nil_of_length_eq_zero (Nat.le_zero.mp h)
    obtain ⟨env, s, slotInUse, tcpIn, backIn, obs⟩ := w
    obtain rfl : tcpIn = [] := hq
    simp [fillRxBuf]
  | succ n ih =>
    unfold fillRxBuf
    simp only
    split
    · rename_i hz
      have hq : w.tcpIn = [] := List.eq_nil_of_length_eq_zero (by omega)
      obtain ⟨env, s, slotInUse, tcpIn, backIn, obs⟩ := w
      obtain rfl : tcpIn = [] := hq
      simp
    · rename_i hz
      rw [ih _ (by simp only [List.length_drop]; omega)]
      simp [World.modify]

/-- A session that goes on has left little unread. -/
def LittleUnread (w : World) : Prop :=
  w.s.phase ≠ .closed →
    if w.s.phase = .version then w.s.rxBuf.length ≤ 1024 else w.s.rxBuf.length < 4 + 35000 + 16

theorem LittleUnread.closed (h : w.s.phase = .closed) : LittleUnread w := fun hn ↦ absurd h hn

theorem LittleUnread.empty (h : w.s.rxBuf = []) : LittleUnread w := by
  intro _
  rw [h]
  split
  · exact Nat.zero_le 1024
  · exact Nat.zero_lt_succ _

theorem LittleUnread.same (h : LittleUnread w) (hp : w'.s.phase = w.s.phase)
    (hr : w'.s.rxBuf = w.s.rxBuf) : LittleUnread w' := by
  unfold LittleUnread
  rw [hp, hr]
  exact h

theorem parsePacket_needMore (h : parsePacket P w = .needMore) :
    Framing.unframe P w.s.encInbound w.s.c2sKey w.s.seqIn w.s.rxBuf = .needMore := by
  unfold parsePacket at h
  split at h
  · assumption
  · cases h
  · cases h

/-- A round waits for more only of a line or a packet that is still allowed. -/
theorem receiveRound_unread (h : receiveRound P w = .waits) : LittleUnread w := by
  intro hc
  unfold receiveRound at h
  rw [if_neg hc] at h
  split at h
  · rename_i hp
    rw [if_pos hp]
    split at h
    · split at h
      · cases h
      · rename_i hv hn
        exact (consumeVersion_false hv hn).2
    · cases h
  · rename_i hp
    rw [if_neg hp]
    split at h
    · rename_i hn
      exact Framing.unframe_needMore P (parsePacket_needMore hn)
    · cases h
    · split at h <;> cases h

theorem Drains.littleUnread (h : Drains P w w') : LittleUnread w' := by
  induction h with
  | waits hr => exact receiveRound_unread hr
  | ends hr => exact .closed (receiveRound_ends hr)
  | goesOn _ _ ih => exact ih

/-- A delivery is read as far as it goes. -/
theorem sessionOnTcpData_drains (w : World) :
    ∃ d, Drains P { w with s := { w.s with rxBuf := w.s.rxBuf ++ w.tcpIn }, tcpIn := [] } d ∧
      sessionOnTcpData P w = if d.s.phase = .closed then sessionClose d else d := by
  refine ⟨_, receiveLoop_drains (P := P) _ (Nat.lt_succ_self _), ?_⟩
  unfold sessionOnTcpData
  rw [fillRxBuf_eq _ _ le_rfl]

/-- Only what arrives on the connection takes part in an exchange. -/
theorem step_chats (w : World) (i : ℤ) {e : Event} (he : ∀ data, e ≠ .tcpArrive data)
    (hr : e ≠ .tcpRecv) : Chats w (step P i w e) := by
  cases e with
  | tcpArrive data => exact absurd rfl (he data)
  | tcpRecv => exact absurd rfl hr
  | backendArrive => exact .same rfl rfl rfl (.inl rfl) rfl rfl
  | tcpDisconnect =>
    change Chats w (onTcpDisconnect i w)
    unfold onTcpDisconnect
    split
    · exact .refl w
    · exact .sessionClose w
  | backendRecv =>
    change Chats w (onBackendRecvCb P i w)
    unfold onBackendRecvCb
    split
    · exact .refl w
    · exact .sessionOnBackendData P w
  | backendDisconnect =>
    change Chats w (onBackendDisconnectCb P i w)
    unfold onBackendDisconnectCb
    split
    · exact .refl w
    unfold sessionOnBackendClose
    split
    · exact .refl w
    · exact ((Chats.sessionOnBackendData P w).trans (.farewell P _)).trans (.sessionClose _)
  | reset =>
    change Chats w (cmdSshdReset i w)
    unfold cmdSshdReset
    split
    · exact .refl w
    · exact .sessionClose w

/-- The session that has taken all that ITS holds into its buffer. -/
def filled (w : World) : World :=
  { w with s := { w.s with rxBuf := w.s.rxBuf ++ w.tcpIn }, tcpIn := [] }

variable (P) in
/-- The next moment of the receive loop. -/
def nextRound (w : World) : World := (receiveRound P w).result w id

theorem nextRound_cases (w : World) : nextRound P w = w ∨
    receiveRound P w = .ends (nextRound P w) ∨ receiveRound P w = .goesOn (nextRound P w) := by
  unfold nextRound
  cases receiveRound P w with
  | waits => exact .inl rfl
  | ends w' => exact .inr (.inl rfl)
  | goesOn w' => exact .inr (.inr rfl)

theorem Drains.rounds (h : Drains P w w') : ∃ n, w' = (nextRound P)^[n] w := by
  induction h with
  | waits => exact ⟨0, rfl⟩
  | ends hr => exact ⟨1, by rw [Function.iterate_one, nextRound, hr]; rfl⟩
  | @goesOn w w₁ _ hr _ ih =>
    obtain ⟨n, hn⟩ := ih
    have hnext : nextRound P w = w₁ := by
      rw [nextRound, hr]
      rfl
    exact ⟨n + 1, by rw [Function.iterate_succ_apply, hnext, hn]⟩

/-- A delivery is so many rounds, and a session that they have shut is closed. -/
theorem onTcpRecv_rounds (w : World) (i : ℤ) : onTcpRecv P i w = w ∨
    ∃ n, onTcpRecv P i w =
      if ((nextRound P)^[n] (filled w)).s.phase = .closed then
        sessionClose ((nextRound P)^[n] (filled w))
      else (nextRound P)^[n] (filled w) := by
  unfold onTcpRecv
  split
  · exact .inl rfl
  split
  · exact .inl rfl
  obtain ⟨d, hd, hw⟩ := sessionOnTcpData_drains (P := P) w
  obtain ⟨n, rfl⟩ := hd.rounds
  exact .inr ⟨n, hw⟩

/-- What rounds keep is kept at every moment of the loop. -/
theorem rounds_rule {inv : World → Prop} (hround : ∀ w w', inv w →
    receiveRound P w = .ends w' ∨ receiveRound P w = .goesOn w' → inv w') (h : inv w) (n : ℕ) :
    inv ((nextRound P)^[n] w) := by
  induction n with
  | zero => exact h
  | succ n ih =>
    rw [Function.iterate_succ_apply']
    obtain he | hr := nextRound_cases (P := P) ((nextRound P)^[n] w)
    · rwa [he]
    · exact hround _ _ ih hr

/-- What rounds and everything outside of an exchange keep, is kept by every
event but an arrival. -/
theorem step_rule {inv : World → Prop} (hchat : ∀ w w', inv w → Chats w w' → inv w')
    (hfill : ∀ w, inv w → inv (filled w))
    (hround : ∀ w w', inv w →
      receiveRound P w = .ends w' ∨ receiveRound P w = .goesOn w' → inv w')
    {w : World} (h : inv w) (i : ℤ) {e : Event} (he : ∀ data, e ≠ .tcpArrive data) :
    inv (step P i w e) := by
  by_cases hr : e = .tcpRecv
  · subst hr
    change inv (onTcpRecv P i w)
    obtain hw | ⟨n, hw⟩ := onTcpRecv_rounds (P := P) w i
    · rwa [hw]
    have hkept := rounds_rule hround (hfill w h) n
    rw [hw]
    split
    · exact hchat _ _ hkept (.sessionClose _)
    · exact hkept
  · exact hchat _ _ h (step_chats w i he hr)

theorem LittleUnread.delivery (w : World) : LittleUnread (sessionOnTcpData P w) := by
  obtain ⟨d, hd, he⟩ := sessionOnTcpData_drains (P := P) w
  rw [he]
  split
  · exact .closed (sessionClose_phase d)
  · exact hd.littleUnread

theorem LittleUnread.step (h : LittleUnread w) (i : ℤ) (e : Event) :
    LittleUnread (step P i w e) := by
  have hdrain : LittleUnread (sessionOnBackendData P w) :=
    h.same (sessionOnBackendData_quiet P w).phase (Chats.sessionOnBackendData P w).rxBuf
  have hclose (w : World) : LittleUnread (sessionClose w) := .closed (sessionClose_phase w)
  cases e with
  | tcpArrive => exact h
  | backendArrive => exact h
  | tcpRecv =>
    change LittleUnread (onTcpRecv P i w)
    unfold onTcpRecv
    split
    · exact h
    split
    · exact h
    · exact .delivery w
  | tcpDisconnect =>
    change LittleUnread (onTcpDisconnect i w)
    unfold onTcpDisconnect
    split
    · exact h
    · exact hclose w
  | backendRecv =>
    change LittleUnread (onBackendRecvCb P i w)
    unfold onBackendRecvCb
    split
    · exact h
    · exact hdrain
  | backendDisconnect =>
    change LittleUnread (onBackendDisconnectCb P i w)
    unfold onBackendDisconnectCb
    split
    · exact h
    unfold sessionOnBackendClose
    split
    · exact h
    · exact hclose _
  | reset =>
    change LittleUnread (cmdSshdReset i w)
    unfold cmdSshdReset
    split
    · exact h
    · exact hclose w

theorem littleUnread_run (i : ℤ) (env : Env) (tcp : ℤ) (events : List Event) :
    LittleUnread (runFrom P i (accepted i env tcp) events) := by
  induction events using List.reverseRecOn with
  | nil =>
    have hfresh := Chats.sendRawTcp
      ⟨env, { reset with slot := i, tcp := tcp, ourVersion := ourVersionStr },
        Function.update (fun _ ↦ false) i true, [], fun _ ↦ [], [.accept tcp i]⟩
      (ourVersionStr ++ ascii "\r\n")
    exact .empty hfresh.rxBuf
  | append_singleton events e ih =>
    rw [runFrom_snoc]
    exact ih.step i e

end

/-- The loop ends for whatever stands in `rxBuf`, because every round that is
not the last takes bytes away; and it never leaves more than a line or a packet
may be long. -/
theorem receive_loop_bounded :
    (∀ w, ∃ w', Drains P w w' ∧ ∀ fuel, w.s.rxBuf.length < fuel → receiveLoop P fuel w = w') ∧
    (∀ w w', receiveRound P w = .goesOn w' → w'.s.rxBuf.length < w.s.rxBuf.length) ∧
    (∀ w, LittleUnread (sessionOnTcpData P w) ∧
      ∃ d, Drains P { w with s := { w.s with rxBuf := w.s.rxBuf ++ w.tcpIn }, tcpIn := [] } d ∧
        sessionOnTcpData P w = if d.s.phase = .closed then sessionClose d else d) ∧
    ∀ i env tcp events, LittleUnread (runFrom P i (accepted i env tcp) events) := by
  refine ⟨fun w ↦ ?_, fun w w' h ↦ (receiveRound_reads h).2,
    fun w ↦ ⟨.delivery w, sessionOnTcpData_drains w⟩, littleUnread_run⟩
  have hd := receiveLoop_drains (P := P) (w := w) _ (Nat.lt_succ_self _)
  exact ⟨_, hd, fun fuel hf ↦ (receiveLoop_drains fuel hf).unique hd⟩

end Sshd.Server
