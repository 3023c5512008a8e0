import Sshd.Server.ReceiveLoop

namespace Sshd.Server

open Lib.Octets Lib.Trace Wire Crypto Framing

variable (P : Primitives)

/-- What was sent and what was opened is numbered and encrypted in order. -/
structure InOrder (w : World) : Prop where
  sends : Outgoing w
  receives : Receives P (openings w.obs) w.s.encInbound w.s.seqIn

section
variable {P} {w w' : World}

theorem InOrder.deaf (h : InOrder P w) (hd : Deaf w w') : InOrder P w' := by
  refine ⟨hd.sends h.sends, ?_⟩
  rw [hd.openings, hd.seqIn]
  exact h.receives.onward hd.decrypts

/-- A packet is opened out of its own bytes. -/
theorem parsePacket_opened {w₁ : World} {payload : Bytes} (h : parsePacket P w = .got payload w₁) :
    ∃ packet rest, unframe P w.s.encInbound w.s.c2sKey w.s.seqIn packet = .got payload [] ∧
      w₁ = (w.note (.opened w.s.encInbound w.s.c2sKey w.s.seqIn packet payload)).modify
        fun s ↦ { s with rxBuf := rest, seqIn := s.seqIn + 1 } := by
  unfold parsePacket at h
  split at h
  · cases h
  · cases h
  · rename_i rest hu
    cases h
    exact ⟨_, rest, (unframe_front P hu).2, rfl⟩

theorem InOrder.parsed {w₁ : World} {payload : Bytes} (h : InOrder P w)
    (hw : parsePacket P w = .got payload w₁) : InOrder P w₁ := by
  obtain ⟨packet, rest, hp, rfl⟩ := parsePacket_opened hw
  have hsent : frames ((w.note (.opened w.s.encInbound w.s.c2sKey w.s.seqIn packet payload)).modify
      fun s ↦ { s with rxBuf := rest, seqIn := s.seqIn + 1 }).obs = frames w.obs :=
    (frames_append w.obs _).trans (List.append_nil _)
  have hopen : openings ((w.note (.opened w.s.encInbound w.s.c2sKey w.s.seqIn packet payload)).modify
      fun s ↦ { s with rxBuf := rest, seqIn := s.seqIn + 1 }).obs =
        openings w.obs ++ [⟨w.s.encInbound, w.s.c2sKey, w.s.seqIn, packet, payload⟩] :=
    openings_append w.obs _
  refine ⟨?_, ?_⟩
  · rw [Outgoing, hsent]
    exact h.sends
  · rw [hopen]
    exact h.receives.receive hp

end

/-! Whole runs. -/

variable {P}

theorem InOrder.consumeVersion {w : World} (h : InOrder P w) :
    InOrder P (consumeVersion P w).1 := by
  have hw (line rest : Bytes) :
      InOrder P (w.modify fun s ↦ { s with peerVersion := line, rxBuf := rest }) :=
    ⟨h.sends, h.receives⟩
  obtain ⟨line, rest, -, hv⟩ | ⟨-, hv⟩ := consumeVersion_cases (P := P) w
  · rw [hv]
    split
    · exact (hw _ _).deaf (.sendDisconnect P _ _ _)
    split
    · exact (hw _ _).deaf (.sendDisconnect P _ _ _)
    · exact ((hw _ _).deaf (.sendOurKexinit P _)).deaf (.same rfl rfl rfl rfl)
  · rw [hv]
    split
    · exact h.deaf (.sendDisconnect P w _ _)
    · exact h

theorem InOrder.round {w w' : World} (h : InOrder P w)
    (hr : receiveRound P w = .ends w' ∨ receiveRound P w = .goesOn w') : InOrder P w' := by
  unfold receiveRound at hr
  split at hr
  · obtain hr | hr := hr <;> cases hr
    exact h
  split at hr
  · have hv := h.consumeVersion
    split at hr
    · rename_i w₁ hw₁
      rw [hw₁] at hv
      split at hr
      · obtain hr | hr := hr <;> cases hr
        exact hv
      · obtain hr | hr := hr <;> cases hr
    · rename_i w₁ hw₁
      rw [hw₁] at hv
      obtain hr | hr := hr <;> cases hr
      exact hv
  split at hr
  · obtain hr | hr := hr <;> cases hr
  · obtain hr | hr := hr <;> cases hr
    exact h.deaf (.sendDisconnect P w _ _)
  rename_i payload w₁ hw₁
  have hd := (h.parsed hw₁).deaf (.dispatchPacket P w₁ (parsePacket_length P hw₁) w₁.s.slot)
  split at hr
  · rename_i w₂ hw₂
    rw [hw₂] at hd
    obtain hr | hr := hr <;> cases hr
    split
    · exact hd.deaf (.sendDisconnect P w₂ _ _)
    · exact hd
  · rename_i w₂ hw₂
    rw [hw₂] at hd
    obtain hr | hr := hr <;> cases hr
    exact hd

theorem InOrder.step {w : World} (h : InOrder P w) (i : ℤ) (e : Event) :
    InOrder P (step P i w e) := by
  by_cases he : ∃ data, e = .tcpArrive data
  · obtain ⟨data, rfl⟩ := he
    exact ⟨h.sends, h.receives⟩
  · exact step_rule (fun _ _ h hc ↦ h.deaf hc.toDeaf) (fun _ h ↦ ⟨h.sends, h.receives⟩)
      (fun _ _ h hr ↦ h.round hr) h i fun data hd ↦ he ⟨data, hd⟩

variable (P)

theorem inOrder_accepted (i : ℤ) (env : Env) (tcp : ℤ) : InOrder P (accepted i env tcp) := by
  have hfresh : InOrder P ⟨env, { reset with slot := i, tcp := tcp, ourVersion := ourVersionStr },
      Function.update (fun _ ↦ false) i true, [], fun _ ↦ [], [.accept tcp i]⟩ :=
    ⟨sends_nil, receives_nil⟩
  exact hfresh.deaf (Chats.sendRawTcp _ _).toDeaf

theorem inOrder_run (i : ℤ) (env : Env) (tcp : ℤ) (events : List Event) :
    InOrder P (runFrom P i (accepted i env tcp) events) := by
  induction events using List.reverseRecOn with
  | nil => exact inOrder_accepted P i env tcp
  | append_singleton events e ih =>
    rw [runFrom_snoc]
    exact ih.step i e

end Sshd.Server
