import Sshd.Client.Steps

namespace Sshd.Client

open Lib.Octets Lib.Trace Wire Crypto Framing

variable (P : Primitives)

/-- The frames are numbered from zero and, behind the version line, they are
all that was written. -/
structure Outbound (w : World) : Prop where
  next : w.cs.seqOut = (frames w.obs).length
  seq : (frames w.obs).map Frame.seq = List.range (frames w.obs).length
  writes : (tcpWrites w.obs).map Prod.fst = versionLine :: (frames w.obs).map (Frame.bytes P)

/-- An `Outbound` session that has its connection. -/
structure Sending (w : World) : Prop extends Outbound P w where
  handle : 0 ≤ w.cs.handle

section
variable {P : Primitives} {w w' : World} {os : List Obs}

theorem Sending.emits (h : Sending P w) (hobs : w'.obs = w.obs ++ os)
    (he : Emits P w.cs os w'.cs.seqOut) : Outbound P w' := by
  have hnext := h.next
  refine ⟨?_, ?_, ?_⟩
  · rw [he.next, hobs, frames_append, List.length_append, hnext]
  · have hsplit := @List.range'_append_1 0 (frames w.obs).length (frames os).length
    rw [Nat.zero_add] at hsplit
    rw [hobs, frames_append, List.map_append, h.seq, he.seq, hnext, List.length_append,
      List.range_eq_range', List.range_eq_range', hsplit]
  · rw [hobs, frames_append, tcpWrites_append, List.map_append, List.map_append, h.writes,
      he.writes h.handle, List.cons_append]

theorem Sending.silent (h : Sending P w) (hobs : w'.obs = w.obs ++ os)
    (hos : ∀ o ∈ os, o.Unsent) (hseq : w'.cs.seqOut = w.cs.seqOut)
    (hh : w'.cs.handle = w.cs.handle) : Sending P w' := by
  have he : Emits P w.cs os w.cs.seqOut := .unsent hos
  exact ⟨h.emits hobs (hseq ▸ he), hh ▸ h.handle⟩

theorem Sending.same (h : Sending P w) (hobs : w'.obs = w.obs)
    (hseq : w'.cs.seqOut = w.cs.seqOut) (hh : w'.cs.handle = w.cs.handle) : Sending P w' :=
  h.silent (hobs.trans (List.append_nil _).symm) (by simp) hseq hh

theorem Sending.quiet (h : Sending P w) (hq : Quiet P w w') : Sending P w' := by
  obtain ⟨os, hobs, -, he⟩ := hq.obs
  have hh : w'.cs.handle = w.cs.handle := congrArg Core.handle hq.core
  exact ⟨h.emits hobs he, hh ▸ h.handle⟩

theorem Sending.gaveUp (h : Sending P w) (ho : Over P w w') : Outbound P w' := by
  obtain ⟨os, hobs, -, he⟩ := ho.obs
  exact h.emits hobs he

theorem Sending.note (h : Sending P w) {o : Obs} (ho : o.Unsent) : Sending P (w.note o) :=
  h.silent rfl (by simpa using ho) rfl rfl

theorem Sending.modify (h : Sending P w) {f : Csess → Csess} (hseq : (f w.cs).seqOut = w.cs.seqOut)
    (hh : (f w.cs).handle = w.cs.handle) : Sending P (w.modify f) :=
  h.same rfl hseq hh

theorem Sending.send (h : Sending P w) (payload : Bytes) : Sending P (sendPacket P w payload) := by
  refine ⟨h.emits (sendPacket_obs P w payload) (sendPacket_emits P w payload), ?_⟩
  rw [sendPacket_cs]
  exact h.handle

theorem Sending.goto (h : Sending P w) (pc : Pc) : Sending P (w.goto pc) := h.same rfl rfl rfl

theorem Sending.replenish (h : Sending P w) (n : ℕ) : Sending P (replenish P w n) := by
  by_cases hu : usedWindow w.cs n < localWindowMax / 2
  · rw [replenish_adjust P hu]
    have hm : Sending P (w.modify fun cs ↦ { cs with localWindow := usedWindow cs n }) :=
      h.same rfl rfl rfl
    exact (hm.send _).same rfl rfl rfl
  · rw [replenish_none P hu]
    exact h.same rfl rfl rfl

theorem Sending.trusted (h : Sending P w) (kBlob qs k hpub sig64 : Bytes) (store : List Bytes) :
    Sending P (trusted P w kBlob qs k hpub sig64 store) :=
  h.silent (List.append_assoc ..) (by simp [Obs.Unsent]) rfl rfl

theorem Sending.keyed (h : Sending P w) : Sending P (keyed P w) := by
  refine Sending.goto (Sending.modify (Sending.modify (Sending.modify h ?_ ?_) ?_ ?_) ?_ ?_) _
  all_goals rfl

theorem Sending.outcome {t : ℤ} {pkt : Bytes} (h : Sending P w) (ho : Outcome P w t pkt w') :
    Sending P w' ∨ w'.pc = .finished ∧ Outbound P w' := by
  cases ho with
  | quiet _ hq => exact .inl (h.quiet hq)
  | gaveUp hover => exact .inr ⟨hover.pc, h.gaveUp hover⟩
  | @ecdhInit _ _ priv pub _ =>
    have he : Sending P (ephemeral (w.modify fun cs ↦ { cs with peerKexInit := pkt }) priv pub) :=
      h.silent rfl (by simp [Obs.Unsent]) rfl rfl
    exact .inl ((he.send _).goto _)
  | @verified _ _ ks qs sig hpub sig64 k note store =>
    exact .inl (((h.trusted ks qs k hpub sig64 store).send _).keyed)
  | newkeys =>
    have hn : Sending P (w.modify fun cs ↦ { cs with encIn := true }) := h.modify rfl rfl
    exact .inl ((hn.send _).goto _)
  | confirm _ _ hq =>
    have hc : Sending P ((confirmChannel w pkt).goto .ptyReq) := h.same rfl rfl rfl
    exact .inl (hc.quiet hq)
  | adjust => exact .inl (h.modify rfl rfl)
  | @data _ _ d _ => exact .inl ((h.quiet (outWrite_quiet P w d)).replenish _)

/-- A session that goes on has its connection; one that is over has recorded
all it sent. -/
theorem Sending.step (h : w.pc ≠ .finished → Sending P w) (hout : Outbound P w)
    (hm : Move P w w') : (w'.pc ≠ .finished → Sending P w') ∧ Outbound P w' := by
  have hsend : Sending P w' → (w'.pc ≠ .finished → Sending P w') ∧ Outbound P w' :=
    fun h' ↦ ⟨fun _ ↦ h', h'.toOutbound⟩
  cases hm with
  | idle hi =>
    refine ⟨fun hp ↦ ?_, ?_, hi.obs ▸ hout.seq, hi.obs ▸ hout.writes⟩
    · exact (h (hi.pc ▸ hp)).same hi.obs (by rw [hi.cs]) (by rw [hi.cs])
    · rw [hi.cs, hi.obs, hout.next]
  | quiet hp hq => exact hsend ((h hp.2).quiet hq)
  | gaveUp hp ho => exact ⟨fun hne ↦ absurd ho.pc hne, (h hp).gaveUp ho⟩
  | fill hp => exact hsend ((h hp).silent rfl (by simp [Obs.Unsent]) rfl rfl)
  | skipLine hp => exact hsend ((h (by simp [hp])).modify rfl rfl)
  | @startKex hp line rest _ _ cookie =>
    have hprop : Sending P (proposed
        (w.modify fun cs ↦ { cs with rxBuf := rest, peerVersion := line }) cookie) :=
      (h (by simp [hp])).silent rfl (by simp [Obs.Unsent]) rfl rfl
    exact hsend ((hprop.send _).goto _)
  | @received _ hp t pkt _ ho =>
    have hnote : Sending P (w.note (.received w.pc t pkt)) := (h hp.2).note (by trivial)
    obtain hs | ⟨hpc, hover⟩ := hnote.outcome ho
    · exact hsend hs
    · exact ⟨fun hne ↦ absurd hpc hne, hover⟩
  | pumpRound hs =>
    have hw : Sending P ({ w with typed := w.typed.drop 256 }.note (.typed (w.typed.take 256))) :=
      (h (pc_of_channel hs).2).silent rfl (by simp [Obs.Unsent]) rfl rfl
    exact hsend (hw.send _)

end

section
variable (env : Env) (job : SshJob) (store : List Bytes) (events : List Event)

theorem sending_runSession (h : 0 ≤ env.itsConnect) : Sending P (runSession env job store) := by
  obtain ⟨took, hobs, hcs, -⟩ := runSession_connected h job store
  refine ⟨⟨?_, ?_, ?_⟩, ?_⟩
  · rw [hobs, hcs]
    rfl
  · rw [hobs]
    rfl
  · rw [hobs]
    rfl
  · rw [hcs]
    exact h

theorem outbound_run (h : 0 ≤ env.itsConnect) :
    Outbound P (runFrom P (runSession env job store) events) := by
  have hinit := sending_runSession P env job store h
  refine (run_induction P (motive := fun w ↦ (w.pc ≠ .finished → Sending P w) ∧ Outbound P w)
    ⟨fun _ ↦ hinit, hinit.toOutbound⟩ ?_ events).2
  exact fun w w' hm hw ↦ Sending.step hw.1 hw.2 hm

/-- A client that gets no connection has nothing to send. -/
theorem refused_run (h : env.itsConnect < 0) :
    (runFrom P (runSession env job store) events).obs = [.itsConnect env.itsConnect] := by
  obtain ⟨hobs, hpc, -⟩ := runSession_refused h job store
  refine (run_induction P
    (motive := fun w ↦ w.pc = .finished ∧ w.obs = [.itsConnect env.itsConnect]) ⟨hpc, hobs⟩ ?_
    events).2
  intro w w' hm hw
  cases hm with
  | idle hi => exact ⟨hi.pc.trans hw.1, hi.obs.trans hw.2⟩
  | quiet hp => exact absurd hw.1 hp.2
  | gaveUp hp => exact absurd hw.1 hp
  | fill hp => exact absurd hw.1 hp
  | skipLine hp => exact absurd (hp.symm.trans hw.1) (by simp)
  | startKex hp => exact absurd (hp.symm.trans hw.1) (by simp)
  | received hp => exact absurd hw.1 hp.2
  | pumpRound hs => exact absurd hw.1 (pc_of_channel hs).2

end

end Sshd.Client
