import Sshd.Lib.Writes
import Sshd.Server.Outbound
import Sshd.Client.Outbound

namespace Sshd

open Lib.Octets Lib.Writes Crypto Framing

variable (P : Primitives)

/-- What the connection has taken is the version line followed by the frames,
numbered from zero, up to where it stopped taking; nothing is offered to it
after a piece that it cut short. -/
structure Intact (line : Bytes) (frames : List Frame) (writes : List (Bytes × ℕ)) : Prop where
  numbered : frames.map Frame.seq = List.range frames.length
  image : accepted writes <+: line ++ (frames.map (Frame.bytes P)).flatten
  unbroken : Unbroken writes

theorem intact_iff_whole {line : Bytes} {frames : List Frame} {writes : List (Bytes × ℕ)}
    (hseq : frames.map Frame.seq = List.range frames.length)
    (hw : writes.map Prod.fst = line :: frames.map (Frame.bytes P)) :
    Intact P line frames writes ↔ Whole writes := by
  have hoffered : offered writes = line ++ (frames.map (Frame.bytes P)).flatten := by
    rw [offered, hw, List.flatten_cons]
  constructor
  · intro h
    exact (unbroken_iff_whole writes).mp h.unbroken
  · intro h
    exact ⟨hseq, hoffered ▸ h.accepted_prefix, (unbroken_iff_whole writes).mpr h⟩

theorem intact_nil (line : Bytes) : Intact P line [] [] :=
  ⟨rfl, List.nil_prefix, (unbroken_iff_whole []).mpr (by simp [Whole])⟩

theorem server_intact_iff (i : ℤ) (env : Server.Env) (tcp : ℕ) (events : List Server.Event) :
    let w := Server.runFrom P i (Server.accepted i env tcp) events
    Intact P Server.versionLine (Server.frames w.obs) (Server.tcpWrites w.obs) ↔
      Whole (Server.tcpWrites w.obs) := by
  have h := Server.outbound_run P i env tcp events
  exact intact_iff_whole P h.seq h.writes

theorem client_intact_iff (env : Client.Env) (job : Client.SshJob) (store : List Bytes)
    (events : List Client.Event) :
    let w := Client.runFrom P (Client.runSession env job store) events
    Intact P Client.versionLine (Client.frames w.obs) (Client.tcpWrites w.obs) ↔
      Whole (Client.tcpWrites w.obs) := by
  intro w
  rcases lt_or_ge env.itsConnect 0 with hneg | hpos
  · have hobs : w.obs = [.itsConnect env.itsConnect] :=
      Client.refused_run P env job store events hneg
    rw [hobs]
    exact ⟨fun _ ↦ by simp [Whole, Client.tcpWrites], fun _ ↦ intact_nil P _⟩
  · have h := Client.outbound_run P env job store events hpos
    exact intact_iff_whole P h.seq h.writes

/-- Both ends keep the outbound stream intact in exactly the runs in which the
connection takes whole everything but what it was offered last. -/
theorem outbound_intact_iff (P : Primitives) :
    (∀ i env (tcp : ℕ) events,
      let w := Server.runFrom P i (Server.accepted i env tcp) events
      Intact P Server.versionLine (Server.frames w.obs) (Server.tcpWrites w.obs) ↔
        Whole (Server.tcpWrites w.obs)) ∧
    ∀ env job store events,
      let w := Client.runFrom P (Client.runSession env job store) events
      Intact P Client.versionLine (Client.frames w.obs) (Client.tcpWrites w.obs) ↔
        Whole (Client.tcpWrites w.obs) :=
  ⟨server_intact_iff P, client_intact_iff P⟩

/-- A connection that takes nothing of what is offered first. -/
def stalledEnv : Server.Env :=
  { Server.sampleEnv with itsSend := fun obs _ _ data ↦ if obs.length ≤ 1 then 0 else data.length }

theorem stalled_write_breaks :
    let w := Server.runFrom Server.standIn 0 (Server.accepted 0 stalledEnv 3)
      [.tcpArrive (ascii "SSH-2.0-x\n"), .tcpRecv]
    w.s.phase ≠ .closed ∧ ¬Intact Server.standIn Server.versionLine (Server.frames w.obs)
      (Server.tcpWrites w.obs) := by
  refine ⟨by decide +kernel, fun h ↦ ?_⟩
  exact absurd h.image (by decide +kernel)

end Sshd
