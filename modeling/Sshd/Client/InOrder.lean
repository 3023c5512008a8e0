import Sshd.Client.Deaf

namespace Sshd.Client

open Lib.Octets Lib.Trace Wire Crypto Framing

variable (P : Primitives)

/-- What was sent and what was opened is numbered and encrypted in order. -/
structure InOrder (w : World) : Prop where
  sends : Outgoing w
  receives : Receives P (openings w.obs) w.cs.encIn w.cs.seqIn

section
variable {P} {w w' : World}

theorem InOrder.deaf (h : InOrder P w) (hd : Deaf w w') : InOrder P w' := by
  refine ⟨hd.sends h.sends, ?_⟩
  rw [hd.openings, hd.seqIn]
  exact h.receives.onward hd.decrypts

/-- A packet is opened out of its own bytes. -/
theorem tryParse_opened {out : Bytes} {w₁ : World} (h : tryParse P w = .got out w₁) :
    ∃ packet rest, unframe P w.cs.encIn w.cs.recvKey w.cs.seqIn packet = .got out [] ∧
      w₁ = (w.note (.opened w.cs.encIn w.cs.recvKey w.cs.seqIn packet out)).modify
        fun cs ↦ { cs with rxBuf := rest, seqIn := cs.seqIn + 1 } := by
  unfold tryParse at h
  split at h
  · cases h
  · cases h
  · rename_i rest hu
    cases h
    exact ⟨_, rest, (unframe_front P hu).2, rfl⟩

theorem InOrder.parsed {out : Bytes} {w₁ : World} (h : InOrder P w)
    (hw : tryParse P w = .got out w₁) : InOrder P w₁ := by
  obtain ⟨packet, rest, hp, rfl⟩ := tryParse_opened hw
  have hsent : frames ((w.note (.opened w.cs.encIn w.cs.recvKey w.cs.seqIn packet out)).modify
      fun cs ↦ { cs with rxBuf := rest, seqIn := cs.seqIn + 1 }).obs = frames w.obs :=
    (frames_append w.obs _).trans (List.append_nil _)
  have hopen : openings ((w.note (.opened w.cs.encIn w.cs.recvKey w.cs.seqIn packet out)).modify
      fun cs ↦ { cs with rxBuf := rest, seqIn := cs.seqIn + 1 }).obs =
        openings w.obs ++ [⟨w.cs.encIn, w.cs.recvKey, w.cs.seqIn, packet, out⟩] :=
    openings_append w.obs _
  refine ⟨?_, ?_⟩
  · rw [Outgoing, hsent]
    exact h.sends
  · rw [hopen]
    exact h.receives.receive hp

end

/-! Whole runs. -/

theorem Deaf.startKex (w : World) : Deaf w (startKex P w) := by
  have hm (w : World) (payload : Bytes) :
      Deaf w (w.modify fun cs ↦ { cs with ourKexInit := payload }) := .modify w _ rfl
  exact (((Chats.random w 16).toDeaf.trans (hm _ _)).trans (.send P _ _)).trans (.goto _ _)

variable {P}

theorem InOrder.fillRx {w : World} (h : InOrder P w) : InOrder P (fillRx w).2 := by
  have hsent : frames (Client.fillRx w).2.obs = frames w.obs :=
    (frames_append w.obs _).trans (List.append_nil _)
  have hopen : openings (Client.fillRx w).2.obs = openings w.obs :=
    (openings_append w.obs _).trans (List.append_nil _)
  refine ⟨?_, ?_⟩
  · rw [Outgoing, hsent]
    exact h.sends
  · rw [hopen]
    exact h.receives

theorem InOrder.versionRound {w : World} (h : InOrder P w) (expired : Bool) :
    InOrder P (versionRound P expired w) := by
  unfold Client.versionRound
  split
  · rename_i line rest _
    have hw : InOrder P (w.modify fun cs ↦ { cs with rxBuf := rest }) := ⟨h.sends, h.receives⟩
    simp only
    split
    · split
      · exact hw.deaf (Chats.giveUp _ _).toDeaf
      · exact hw.deaf (.trans (.modify _ _ rfl) (.startKex P _))
    · exact hw
  · split
    · exact h.deaf (Chats.giveUp w _).toDeaf
    simp only
    split
    · exact h.fillRx.deaf (Chats.giveUp _ _).toDeaf
    · exact h.fillRx

theorem InOrder.recvRound {w : World} (h : InOrder P w) (expired : Bool) :
    InOrder P (recvRound P expired w).2 := by
  unfold Client.recvRound
  cases hr : tryParse P w with
  | needMore =>
    simp only
    split
    · exact h
    split
    · exact h.fillRx
    · exact h.fillRx
  | bad => exact h
  | got out w₁ =>
    cases out with
    | nil => exact h.parsed hr
    | cons b body =>
      simp only
      split
      · exact h.parsed hr
      · exact h.parsed hr

theorem InOrder.poll {w : World} (h : InOrder P w) (expired : Bool) :
    InOrder P (poll P expired w) := by
  have hr := h.recvRound expired
  unfold Client.poll
  split
  · exact h
  · exact h.versionRound expired
  split
  · rename_i w₁ hw₁
    rw [hw₁] at hr
    exact hr
  · rename_i t pkt w₁ hw₁
    rw [hw₁] at hr
    exact (hr.deaf (.note w₁ (o := .received w₁.pc t pkt) rfl rfl)).deaf (.resume P _ t pkt)

theorem InOrder.step {w : World} (h : InOrder P w) (event : Event) :
    InOrder P (step P w event) := by
  cases event with
  | poll expired => exact h.poll expired
  | _ => exact ⟨h.sends, h.receives⟩

variable (P)

theorem inOrder_runSession (env : Env) (job : SshJob) (store : List Bytes) :
    InOrder P (runSession env job store) := by
  by_cases hh : 0 ≤ env.itsConnect
  · obtain ⟨took, hobs, hcs, -⟩ := runSession_connected hh job store
    refine ⟨?_, ?_⟩
    · rw [Outgoing, hobs, hcs]
      exact sends_nil
    · rw [hobs, hcs]
      exact receives_nil
  · have hw : runSession env job store = fail _ _ := if_pos (not_le.mp hh)
    rw [hw]
    exact ⟨sends_nil, receives_nil⟩

theorem inOrder_run (env : Env) (job : SshJob) (store : List Bytes) (events : List Event) :
    InOrder P (runFrom P (runSession env job store) events) := by
  induction events using List.reverseRecOn with
  | nil => exact inOrder_runSession P env job store
  | append_singleton events event ih =>
    rw [runFrom, List.foldl_concat]
    exact ih.step event

end Sshd.Client
