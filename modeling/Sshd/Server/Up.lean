import Sshd.Server.Runs

namespace Sshd.Server

open Lib.Octets Lib.Trace Wire Crypto
open Relation (ReflTransGen)

variable (P : Primitives)

/-! A session that is not closed has its TCP connection, and one without a
slot is over. -/

structure Up (s : Session) : Prop where
  linked : s.phase ≠ .closed → 0 ≤ s.tcp
  slotted : s.slot < 0 → s.phase = .closed ∧ s.chanOpen = false

theorem Up.change {s s' : Session} (h : Up s) (htcp : s'.tcp = s.tcp) (hslot : s'.slot = s.slot)
    (hp : s.phase = .closed → s'.phase = .closed)
    (hc : s.phase = .closed → s.chanOpen = false → s'.chanOpen = false) : Up s' where
  linked hn := by
    rw [htcp]
    exact h.linked fun he ↦ hn (hp he)
  slotted hs := by
    obtain ⟨hcl, hch⟩ := h.slotted (hslot ▸ hs)
    exact ⟨hp hcl, hc hcl hch⟩

/-- The other way for a session to go on: it was not closed before. -/
theorem Up.alive {s s' : Session} (h : Up s) (hp : s.phase ≠ .closed) (htcp : s'.tcp = s.tcp)
    (hslot : s'.slot = s.slot) : Up s' :=
  h.change htcp hslot (fun he ↦ absurd he hp) fun he ↦ absurd he hp

theorem Up.quiet {w w' : World} (h : Up w.s) (hq : Tame w w') : Up w'.s :=
  h.change hq.tcp hq.slot (fun hp ↦ hq.phase.trans hp) fun _ hc ↦ hq.chanOpen.trans hc

theorem Up.outcome {w w' : World} {payload : Bytes} {slot : ℤ} (h : Up w.s)
    (hp : w.s.phase ≠ .closed) (ho : Outcome P slot w payload w') : Up w'.s := by
  cases ho with
  | quiet hq => exact h.quiet hq.toTame
  | hangUp hq => exact (h.quiet hq.toTame).change rfl rfl (fun _ ↦ rfl) fun _ hc ↦ hc
  | kexinit => exact h.alive hp rfl rfl
  | exchange _ _ hash hq hq' =>
    refine h.alive hp ?_ ?_
    · rw [← hq.tcp]
      exact hq'.tcp.trans (by rw [adoptHash_s])
    · rw [← hq.slot]
      exact hq'.slot.trans (by rw [adoptHash_s])
  | newkeys => exact h.alive hp rfl rfl
  | success _ _ hq => exact h.alive hp hq.tcp hq.slot
  | chanOpen =>
    rw [sendChannelOpenConfirm, sendPacket_s]
    exact h.alive hp rfl rfl
  | backend _ b _ hq hq' => exact h.alive hp (hq'.tcp.trans hq.tcp) (hq'.slot.trans hq.slot)
  | exec _ b _ _ hq hq' _ => exact h.alive hp (hq'.tcp.trans hq.tcp) (hq'.slot.trans hq.slot)
  | data _ d _ _ =>
    have hc := replenish_control P (itsSend w .backend w.s.backendHandle d).2
      (itsSend w .backend w.s.backendHandle d).1
    exact h.alive hp (congrArg Control.tcp hc) (congrArg Control.slot hc)
  | chanClose _ hq =>
    have hs := dropBackend_s w
    exact h.alive hp (hq.tcp.trans (by rw [hs])) (hq.slot.trans (by rw [hs]))

theorem Up.step {w w' : World} (h : Up w.s) (hm : Move P w w') : Up w'.s := by
  cases hm with
  | quiet hq => exact h.quiet hq.toTame
  | versionDone hp hq =>
    refine (h.quiet hq.toTame).alive ?_ rfl rfl
    rw [hq.phase, hp]
    nofun
  | hangUp hq => exact (h.quiet hq.toTame).change rfl rfl (fun _ ↦ rfl) fun _ hc ↦ hc
  | @packet w₁ payload hp hw =>
    have hparsed : Up w₁.s ∧ w₁.s.phase = w.s.phase := by
      obtain ⟨packet, rest, -, rfl⟩ := parsePacket_got P hw
      exact ⟨h.change rfl rfl id fun _ ↦ id, rfl⟩
    have hd : Up (w₁.note (.dispatch w₁.s payload)).s := hparsed.1
    refine hd.outcome P ?_ (dispatchPacket_outcome P w₁ payload w₁.s.slot)
    rw [note_s, hparsed.2]
    exact hp.1
  | dropBackend =>
    rw [dropBackend_s]
    exact h.change rfl rfl id fun _ ↦ id
  | chanShut => exact h.change rfl rfl id fun _ _ ↦ rfl
  | teardown => exact ⟨fun hp ↦ absurd rfl hp, fun _ ↦ ⟨rfl, rfl⟩⟩
  | freeSlot hp hc hb =>
    rw [freeSlot_s]
    exact ⟨fun hn ↦ absurd hp hn, fun _ ↦ ⟨hp, hc⟩⟩

theorem Up.moves {w w' : World} (h : Up w.s) (hm : ReflTransGen (Move P) w w') : Up w'.s := by
  induction hm with
  | refl => exact h
  | tail _ hs ih => exact ih.step P hs

theorem up_accepted (slot : ℕ) (env : Env) (tcp : ℕ) : Up (accepted slot env tcp).s := by
  obtain ⟨w, hq, -, -, hs⟩ := accepted_tame slot env tcp
  refine Up.quiet ?_ hq
  rw [hs]
  exact ⟨fun _ ↦ Int.natCast_nonneg tcp, fun h ↦ absurd (Int.natCast_nonneg slot) (not_le.mpr h)⟩

theorem sessionClose_chanOpen {w : World} (h : Up w.s) : (sessionClose w).s.chanOpen = false := by
  by_cases hc : w.s.phase = .closed ∧ w.s.slot < 0
  · rw [sessionClose, if_pos hc]
    exact (h.slotted hc.2).2
  · rw [sessionClose_eq hc, freeSlot_s]
    rfl

/-- Between events a closed session has no open channel. -/
theorem Up.ends {w w' : World} (h : Up w.s) (hc : w.s.phase = .closed → w.s.chanOpen = false)
    (he : Ends P w w') : w'.s.phase = .closed → w'.s.chanOpen = false := by
  obtain hq | ⟨-, hn⟩ | ⟨w₁, hm, rfl⟩ := he
  · rw [hq.phase, hq.chanOpen]
    exact hc
  · exact fun hp ↦ absurd hp hn
  · exact fun _ ↦ sessionClose_chanOpen (h.moves P hm)

/-- Between events an open channel means a session that is up. -/
theorem run_up (slot : ℕ) (env : Env) (tcp : ℕ) (events : List Event)
    (hc : (runFrom P slot (accepted slot env tcp) events).s.chanOpen = true) :
    (runFrom P slot (accepted slot env tcp) events).s.phase ≠ .closed ∧
      0 ≤ (runFrom P slot (accepted slot env tcp) events).s.tcp := by
  have hrun : ∀ (events : List Event) (w : World), Up w.s →
      (w.s.phase = .closed → w.s.chanOpen = false) →
      Up (runFrom P slot w events).s ∧ ((runFrom P slot w events).s.phase = .closed →
        (runFrom P slot w events).s.chanOpen = false) := by
    intro events
    induction events with
    | nil => exact fun w hup hclosed ↦ ⟨hup, hclosed⟩
    | cons e events ih =>
      intro w hup hclosed
      exact ih (step P slot w e) (hup.moves P (step_moves P slot w e))
        (hup.ends P hclosed (step_ends P slot w e))
  obtain ⟨hup, hclosed⟩ := hrun events _ (up_accepted slot env tcp) (by
    obtain ⟨w, hq, -, -, hs⟩ := accepted_tame slot env tcp
    intro _
    rw [hq.chanOpen, hs]
    rfl)
  have hp : (runFrom P slot (accepted slot env tcp) events).s.phase ≠ .closed := by
    intro hp
    cases (hclosed hp).symm.trans hc
  exact ⟨hp, hup.linked hp⟩

end Sshd.Server
