import Sshd.Server.Isolation

namespace Sshd.Server

open Lib.Octets Wire Crypto

variable {P : Primitives}

/-- The messages that were sent. -/
def sentPayloads (obs : List Obs) : List Bytes :=
  obs.filterMap fun o ↦ match o with
    | .sealed f => some f.payload
    | _ => none

/-- What was read from backends, each piece with the connection it came from. -/
def backendReads (obs : List Obs) : List (ℤ × Bytes) :=
  obs.filterMap fun o ↦ match o with
    | .itsRecv handle data => if data = [] then none else some (handle, data)
    | _ => none

theorem sentPayloads_append (obs os : List Obs) :
    sentPayloads (obs ++ os) = sentPayloads obs ++ sentPayloads os := List.filterMap_append

theorem backendReads_append (obs os : List Obs) :
    backendReads (obs ++ os) = backendReads obs ++ backendReads os := List.filterMap_append

/-- A session that can send. -/
def CanSend (s : Session) : Prop := s.phase ≠ .closed ∧ 0 ≤ s.tcp

theorem sentPayloads_send {w : World} (h : CanSend w.s) (payload : Bytes) :
    sentPayloads (sendPacket P w payload).obs = sentPayloads w.obs ++ [payload] := by
  have hup : ¬(w.s.phase = .closed ∨ w.s.tcp < 0) := by
    rintro (hc | hc)
    · exact h.1 hc
    · exact absurd h.2 (not_le.mpr hc)
  rw [sendPacket_obs, sentPayloads_append, sendObs, if_neg hup]
  rfl

theorem filterMap_send {α : Type} {f : Obs → Option α} (hr : ∀ bytes, f (.random bytes) = none)
    (hf : ∀ frame, f (.sealed frame) = none) (hi : ∀ l h d t, f (.itsSend l h d t) = none)
    (w : World) (payload : Bytes) :
    (sendPacket P w payload).obs.filterMap f = w.obs.filterMap f := by
  have hnone : (sendObs P w payload).filterMap f = [] := by
    refine List.filterMap_eq_nil_iff.mpr fun o ho ↦ ?_
    obtain ⟨bytes, rfl⟩ | ⟨frame, rfl, -⟩ | ⟨handle, data, took, rfl⟩ := mem_sendObs P ho
    · exact hr bytes
    · exact hf frame
    · exact hi _ _ _ _
  rw [sendPacket_obs, List.filterMap_append, hnone, List.append_nil]

theorem filterMap_dropBackend {α : Type} {f : Obs → Option α}
    (hd : ∀ l h, f (.itsDisconnect l h) = none) (w : World) :
    (dropBackend w).obs.filterMap f = w.obs.filterMap f := by
  rw [dropBackend_obs, List.filterMap_append, dropObs]
  split <;> simp [hd]

theorem filterMap_sessionClose {α : Type} {f : Obs → Option α}
    (hd : ∀ l h, f (.itsDisconnect l h) = none) (hs : ∀ h, f (.itsSendDrain h) = none) (w : World) :
    (sessionClose w).obs.filterMap f = w.obs.filterMap f := by
  unfold sessionClose
  split
  · rfl
  simp only
  rw [freeSlot_obs, modify_obs, modify_obs, dropTcp_obs, List.filterMap_append,
    filterMap_dropBackend hd]
  split <;> simp [hd, hs]

theorem backendReads_send (w : World) (payload : Bytes) :
    backendReads (sendPacket P w payload).obs = backendReads w.obs :=
  filterMap_send (fun _ ↦ rfl) (fun _ ↦ rfl) (fun _ _ _ _ ↦ rfl) w payload

/-- The message that `send_disconnect` sends. -/
def disconnect (code : UInt32) (msg : String) : Bytes :=
  putCstring (putCstring (putU32 (putU8 [] msgDisconnect) code) msg) ""

theorem sendDisconnect_obs (w : World) (code : UInt32) (msg : String) :
    (sendDisconnect P w code msg).obs =
      (sendPacket P w (disconnect code msg)).obs ++
        [.itsDisconnect .tcp (sendPacket P w (disconnect code msg)).s.tcp] := rfl

theorem sentPayloads_bye {w : World} (h : CanSend w.s) (code : UInt32) (msg : String) :
    sentPayloads (sendDisconnect P w code msg).obs = sentPayloads w.obs ++ [disconnect code msg] := by
  rw [sendDisconnect_obs, sentPayloads_append, sentPayloads_send h]
  exact List.append_nil _

/-- A round asks for at least one byte and for no more than the window has. -/
theorem drainWant_bounds {s : Session} (h : 0 < s.peerWindow) :
    0 < drainWant s ∧ drainWant s ≤ s.peerWindow.toNat := by
  have hw : 0 < s.peerWindow.toNat := UInt32.lt_iff_toNat_lt.mp h
  have hwin : 0 < (if s.peerWindow.toNat < 1024 then s.peerWindow.toNat else 1024) ∧
      (if s.peerWindow.toNat < 1024 then s.peerWindow.toNat else 1024) ≤ s.peerWindow.toNat := by
    split <;> omega
  rw [drainWant]
  generalize (if s.peerWindow.toNat < 1024 then s.peerWindow.toNat else 1024) = want at hwin
  by_cases hm : s.peerMaxPacket ≠ 0 ∧ s.peerMaxPacket.toNat < want
  · have hne : s.peerMaxPacket.toNat ≠ 0 := fun he ↦ hm.1 (UInt32.toNat.inj he)
    simp only [if_pos hm]
    omega
  · simp only [if_neg hm]
    exact hwin

theorem itsRecv_spec (w : World) (handle : ℤ) {want : ℕ} (hwant : 0 < want) :
    w.backIn handle = (itsRecv w handle want).1 ++ (itsRecv w handle want).2.backIn handle ∧
      (itsRecv w handle want).1.length ≤ want ∧
      ((itsRecv w handle want).1 = [] → w.backIn handle = []) := by
  set n := min (max 1 (w.env.itsRecv w.obs handle want)) (min want (w.backIn handle).length) with hn
  have hgot : (itsRecv w handle want).1 = (w.backIn handle).take n := rfl
  have hrest : (itsRecv w handle want).2.backIn handle = (w.backIn handle).drop n :=
    Function.update_self ..
  rw [hgot, hrest]
  refine ⟨(List.take_append_drop n _).symm, ?_, ?_⟩
  · rw [List.length_take]
    omega
  · intro hnil
    cases hq : w.backIn handle with
    | nil => rfl
    | cons b queue =>
      rw [hq, List.take_eq_nil_iff] at hnil
      simp only [hq, List.length_cons, reduceCtorEq, or_false] at hnil hn
      omega

theorem backendReads_itsRecv (w : World) (handle : ℤ) (want : ℕ) :
    backendReads (itsRecv w handle want).2.obs = backendReads w.obs ++
      if (itsRecv w handle want).1 = [] then [] else [(handle, (itsRecv w handle want).1)] := by
  have hobs : (itsRecv w handle want).2.obs =
      w.obs ++ [.itsRecv handle (itsRecv w handle want).1] := rfl
  rw [hobs, backendReads_append]
  congr 1
  split
  · rename_i h
    simp [backendReads, h]
  · rename_i h
    simp [backendReads, h]

/-- One round of the drain loop, with at least one byte to send. -/
theorem drainRound_spec {w : World} (hup : CanSend w.s) {got : Bytes} {w₁ : World}
    (hs : w₁.s = w.s) (hgot : got.length ≤ w.s.peerWindow.toNat) :
    let w₂ := (sendChannelData P w₁ got).modify fun s ↦
      { s with peerWindow := s.peerWindow - UInt32.ofNat got.length }
    w₂.s.peerWindow.toNat = w.s.peerWindow.toNat - got.length ∧
      (∃ seqOut peerWindow, w₂.s = { w.s with seqOut := seqOut, peerWindow := peerWindow }) ∧
      w₂.backIn = w₁.backIn ∧ backendReads w₂.obs = backendReads w₁.obs ∧
      sentPayloads w₂.obs = sentPayloads w₁.obs ++ [channelData w.s got] := by
  have hsess : (sendChannelData P w₁ got).s =
      { w.s with seqOut := (sendChannelData P w₁ got).s.seqOut } := by
    rw [sendChannelData, sendPacket_s, hs]
  have hwin : (sendChannelData P w₁ got).s.peerWindow = w.s.peerWindow := by rw [hsess]
  have hnat : (UInt32.ofNat got.length).toNat = got.length := by
    have hlt := w.s.peerWindow.toNat_lt
    rw [UInt32.toNat_ofNat']
    omega
  refine ⟨?_, ?_, sendPacket_backIn P w₁ _, backendReads_send w₁ _, ?_⟩
  · rw [modify_s]
    simp only
    rw [hwin, UInt32.toNat_sub_of_le _ _ (UInt32.le_iff_toNat_le.mpr (hnat.trans_le hgot)), hnat]
  · exact ⟨_, _, by rw [modify_s, hsess]⟩
  · rw [modify_obs, sendChannelData, sentPayloads_send (by rwa [hs]), hs]

/-- The drain loop sends the queue as far as the peer's window reaches. -/
theorem drainLoop_spec (fuel : ℕ) (w : World) (hfuel : (w.backIn w.s.backendHandle).length < fuel)
    (hup : CanSend w.s) (hc : w.s.chanOpen = true) :
    (∃ seqOut peerWindow, (drainLoop P fuel w).s =
        { w.s with seqOut := seqOut, peerWindow := peerWindow }) ∧
      ∃ chunks : List Bytes,
        chunks.flatten = (w.backIn w.s.backendHandle).take w.s.peerWindow.toNat ∧
        backendReads (drainLoop P fuel w).obs =
          backendReads w.obs ++ chunks.map (Prod.mk w.s.backendHandle) ∧
        sentPayloads (drainLoop P fuel w).obs =
          sentPayloads w.obs ++ chunks.map (channelData w.s) := by
  induction fuel generalizing w with
  | zero => omega
  | succ fuel ih =>
    unfold drainLoop
    split
    swap
    · rename_i hstop
      have hzero : w.s.peerWindow.toNat = 0 := by
        have hle : ¬0 < w.s.peerWindow := fun hlt ↦ hstop ⟨hlt, hc⟩
        rw [UInt32.lt_iff_toNat_lt] at hle
        exact Nat.eq_zero_of_not_pos hle
      exact ⟨⟨_, _, rfl⟩, [], by rw [hzero]; rfl, by simp, by simp⟩
    rename_i hgo
    obtain ⟨hwant, hle⟩ := drainWant_bounds hgo.1
    obtain ⟨hqueue, hlen, hnil⟩ := itsRecv_spec w w.s.backendHandle hwant
    have hs : (itsRecv w w.s.backendHandle (drainWant w.s)).2.s = w.s := rfl
    have hsent : sentPayloads (itsRecv w w.s.backendHandle (drainWant w.s)).2.obs =
        sentPayloads w.obs := by
      change sentPayloads (w.obs ++ [_]) = _
      rw [sentPayloads_append]
      exact List.append_nil _
    have hreads := backendReads_itsRecv w w.s.backendHandle (drainWant w.s)
    generalize itsRecv w w.s.backendHandle (drainWant w.s) = r at hqueue hlen hnil hs hsent hreads ⊢
    simp only
    split
    · rename_i hempty
      refine ⟨⟨w.s.seqOut, w.s.peerWindow, by rw [hs]⟩, [], ?_, ?_, ?_⟩
      · rw [hnil hempty, List.take_nil]
        rfl
      · rw [hreads, if_pos hempty, List.map_nil]
      · rw [hsent, List.map_nil, List.append_nil]
    rename_i hne
    have hpos : 0 < r.1.length := List.length_pos_iff.mpr hne
    obtain ⟨hwin, ⟨seqOut, peerWindow, hsess⟩, hback, hkept, hround⟩ :=
      drainRound_spec hup hs (hlen.trans hle)
    generalize (sendChannelData P r.2 r.1).modify (fun s ↦
      { s with peerWindow := s.peerWindow - UInt32.ofNat r.1.length }) = w₂
      at hwin hsess hback hkept hround ⊢
    have hhandle : w₂.s.backendHandle = w.s.backendHandle := by rw [hsess]
    have hup₂ : CanSend w₂.s := by
      rw [hsess]
      exact hup
    have hfuel₂ : (w₂.backIn w₂.s.backendHandle).length < fuel := by
      rw [hqueue, List.length_append] at hfuel
      rw [hhandle, hback]
      omega
    have hc₂ : w₂.s.chanOpen = true := by
      rw [hsess]
      exact hc
    obtain ⟨⟨seqOut', peerWindow', hfinal⟩, chunks, hflat, hread, hobs⟩ := ih w₂ hfuel₂ hup₂ hc₂
    refine ⟨⟨seqOut', peerWindow', ?_⟩, r.1 :: chunks, ?_, ?_, ?_⟩
    · rw [hfinal, hsess]
    · rw [List.flatten_cons, hflat, hhandle, hback, hwin, hqueue, List.take_append,
        List.take_of_length_le (hlen.trans hle)]
    · rw [hread, hkept, hreads, if_neg hne, hhandle, List.map_cons, List.append_assoc]
      rfl
    · have hdata : channelData w₂.s = channelData w.s := by rw [hsess]; rfl
      rw [hobs, hround, hsent, hdata, List.map_cons, List.append_assoc]
      rfl

/-- What a drain makes of a session with an open channel. -/
theorem sessionOnBackendData_spec {w : World} (hup : CanSend w.s) (hc : w.s.chanOpen = true) :
    (∃ seqOut peerWindow, (sessionOnBackendData P w).s =
      { w.s with seqOut := seqOut, peerWindow := peerWindow }) ∧
    ∃ chunks : List Bytes,
      (0 ≤ w.s.backendHandle →
        chunks.flatten = (w.backIn w.s.backendHandle).take w.s.peerWindow.toNat) ∧
      backendReads (sessionOnBackendData P w).obs =
        backendReads w.obs ++ chunks.map (Prod.mk w.s.backendHandle) ∧
      sentPayloads (sessionOnBackendData P w).obs =
        sentPayloads w.obs ++ chunks.map (channelData w.s) := by
  by_cases hb : w.s.backendHandle < 0
  · rw [sessionOnBackendData, if_pos (.inr hb)]
    exact ⟨⟨_, _, rfl⟩, [], fun hn ↦ absurd hb (not_lt.mpr hn), by simp, by simp⟩
  · have hgo : ¬(w.s.chanOpen = false ∨ w.s.backendHandle < 0) := by simp [hc, hb]
    rw [sessionOnBackendData, if_neg hgo]
    obtain ⟨hs, chunks, hflat, hrest⟩ :=
      drainLoop_spec (P := P) ((w.backIn w.s.backendHandle).length + 1) w (Nat.lt_succ_self _) hup hc
    exact ⟨hs, chunks, fun _ ↦ hflat, hrest⟩

/-- A backend's output goes out in data messages. -/
theorem sessionOnBackendData_sends {w : World} (hw : CanSend w.s) :
    ∃ chunks : List Bytes, sentPayloads (sessionOnBackendData P w).obs =
      sentPayloads w.obs ++ chunks.map (channelData w.s) := by
  by_cases hc : w.s.chanOpen = true
  · obtain ⟨-, chunks, -, -, hsent⟩ := sessionOnBackendData_spec (P := P) hw hc
    exact ⟨chunks, hsent⟩
  · refine ⟨[], ?_⟩
    rw [sessionOnBackendData, if_pos (.inl (Bool.not_eq_true _ ▸ hc)), List.map_nil,
      List.append_nil]

theorem dropBackend_sent (w : World) : sentPayloads (dropBackend w).obs = sentPayloads w.obs :=
  filterMap_dropBackend (fun _ _ ↦ rfl) w

theorem sessionClose_sent (w : World) : sentPayloads (sessionClose w).obs = sentPayloads w.obs :=
  filterMap_sessionClose (fun _ _ ↦ rfl) (fun _ ↦ rfl) w

theorem CanSend.sendPacket {w : World} (h : CanSend w.s) (payload : Bytes) :
    CanSend (sendPacket P w payload).s := by
  rw [sendPacket_s]
  exact h

theorem sendEnd_spec {w : World} (h : CanSend w.s) :
    sentPayloads (sendChannelClose P (sendChannelEof P (sendExitStatus P w 0))).obs =
      sentPayloads w.obs ++ [exitStatus w.s 0, channelEof w.s, channelClose w.s] := by
  have hup : ¬(w.s.phase = .closed ∨ w.s.tcp < 0) := by
    rintro (hc | hc)
    · exact h.1 hc
    · exact absurd h.2 (not_le.mpr hc)
  have heof (w : World) (p : Bytes) : channelEof (sendPacket P w p).s = channelEof w.s := by
    rw [sendPacket_s]
    rfl
  have hclose (w : World) (p : Bytes) : channelClose (sendPacket P w p).s = channelClose w.s := by
    rw [sendPacket_s]
    rfl
  rw [sendExitStatus, if_neg hup, sendChannelEof, sendChannelClose,
    sentPayloads_send ((h.sendPacket _).sendPacket _), sentPayloads_send (h.sendPacket _),
    sentPayloads_send h, hclose, hclose, heof, List.append_assoc, List.append_assoc]
  rfl

/-- A closed session has no open channel between two callbacks. -/
theorem Seated.canSend {i : ℤ} {w : World} (h : Seated i w) (hc : w.s.chanOpen = true) :
    0 ≤ w.s.slot ∧ CanSend w.s := by
  have hslot : 0 ≤ w.s.slot := by
    by_contra hn
    cases (h.up.slotted (not_le.mp hn)).2.symm.trans hc
  have hp : w.s.phase ≠ .closed := fun hp ↦ absurd (h.gone hp) (not_lt.mpr hslot)
  exact ⟨hslot, hp, h.up.linked hp⟩

end Sshd.Server
