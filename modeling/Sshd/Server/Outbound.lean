import Sshd.Server.Runs

namespace Sshd.Server

open Lib.Octets Lib.Trace Wire Crypto Framing
open Relation (ReflTransGen)

variable (P : Primitives)

/-- What a server sends in front of its packets. -/
def versionLine : Bytes := ourVersionStr ++ ascii "\r\n"

/-- The frames are numbered from zero and, behind the version line, they are
all that was written. -/
structure Outbound (w : World) : Prop where
  next : w.s.seqOut = (frames w.obs).length
  seq : (frames w.obs).map Frame.seq = List.range (frames w.obs).length
  writes : (tcpWrites w.obs).map Prod.fst = versionLine :: (frames w.obs).map (Frame.bytes P)

section
variable {P : Primitives} {env : Env} {w w' : World} {os : List Obs}

theorem Outbound.emits (h : Outbound P w) (hobs : w'.obs = w.obs ++ os)
    (he : Emits P env w.s os w'.s.seqOut) : Outbound P w' := by
  have hnext := h.next
  refine ⟨?_, ?_, ?_⟩
  · rw [he.next, hobs, frames_append, List.length_append, hnext]
  · have hsplit := @List.range'_append_1 0 (frames w.obs).length (frames os).length
    rw [Nat.zero_add] at hsplit
    rw [hobs, frames_append, List.map_append, h.seq, he.seq, hnext, List.length_append,
      List.range_eq_range', List.range_eq_range', hsplit]
  · rw [hobs, frames_append, tcpWrites_append, List.map_append, List.map_append, h.writes,
      he.writes, List.cons_append]

theorem Outbound.silent (h : Outbound P w) (hobs : w'.obs = w.obs ++ os)
    (hos : ∀ o ∈ os, o.Unsent) (hseq : w'.s.seqOut = w.s.seqOut) : Outbound P w' := by
  have he : Emits P w.env w.s os w.s.seqOut := .unsent hos
  exact h.emits hobs (hseq ▸ he)

theorem Outbound.same (h : Outbound P w) (hobs : w'.obs = w.obs)
    (hseq : w'.s.seqOut = w.s.seqOut) : Outbound P w' :=
  h.silent (hobs.trans (List.append_nil _).symm) (by simp) hseq

theorem Outbound.quiet (h : Outbound P w) (hq : Quiet P w w') : Outbound P w' := by
  obtain ⟨os, hobs, he⟩ := hq.emits
  exact h.emits hobs he

theorem Outbound.send (h : Outbound P w) (payload : Bytes) : Outbound P (sendPacket P w payload) :=
  h.emits (sendPacket_obs P w payload) (sendPacket_emits P w payload)

theorem Outbound.hangUp (h : Outbound P w) : Outbound P (hangUp w) :=
  h.silent rfl (by simp [Obs.Unsent]) rfl

theorem Outbound.dropBackend (h : Outbound P w) : Outbound P (dropBackend w) := by
  refine h.silent (dropBackend_obs w) ?_ (by rw [dropBackend_s])
  unfold dropObs
  split <;> simp [Obs.Unsent]

theorem Outbound.adoptHash (h : Outbound P w) (hash : Bytes) : Outbound P (adoptHash w hash) :=
  h.silent (adoptHash_obs w hash) (by simp [Obs.Unsent]) (by rw [adoptHash_s])

theorem Outbound.connectBackend (h : Outbound P w) (b : Backend) (ref : ℤ) :
    Outbound P (connectBackend w b ref) :=
  h.silent rfl (by simp [Obs.Unsent]) rfl

theorem Outbound.backendSend (h : Outbound P w) (handle : ℤ) (data : Bytes) :
    Outbound P (itsSend w .backend handle data).2 :=
  h.silent rfl (by simp [Obs.Unsent]) rfl

theorem Outbound.replenish (h : Outbound P w) (written : ℕ) :
    Outbound P (replenish P w written) := by
  by_cases hadj : 0 < written ∧ usedWindow w.s written < localWindowMax / 2
  · rw [replenish_adjust P hadj, sendChannelWindowAdjust]
    exact (h.same rfl rfl : Outbound P (w.modify _)).send _
  · rw [replenish_none P hadj]
    exact h.same rfl rfl

end

theorem Outbound.packet {w w₁ : World} {payload : Bytes} (h : Outbound P w)
    (hw : parsePacket P w = .got payload w₁) :
    Outbound P (dispatchPacket P w₁ payload w₁.s.slot).1 := by
  have hd : Outbound P (w₁.note (.dispatch w₁.s payload)) := by
    obtain ⟨packet, rest, -, rfl⟩ := parsePacket_got P hw
    exact h.silent (List.append_assoc ..) (by simp [Obs.Unsent]) rfl
  have ho := dispatchPacket_outcome P w₁ payload w₁.s.slot
  generalize (dispatchPacket P w₁ payload w₁.s.slot).1 = w₂ at ho
  cases ho with
  | quiet hq => exact hd.quiet hq
  | hangUp hq => exact (hd.quiet hq).hangUp
  | kexinit => exact hd.same rfl rfl
  | @exchange w₁ w₂ _ _ hash hq hq' =>
    exact (((hd.quiet hq).adoptHash hash).quiet hq').silent rfl (by simp [Obs.Unsent]) rfl
  | newkeys => exact hd.same rfl rfl
  | success _ _ hq => exact (hd.quiet hq).same rfl rfl
  | chanOpen _ _ peerCh peerWin peerMax =>
    have ho : Outbound P (openChannel (w₁.note (.dispatch w₁.s payload)) peerCh peerWin peerMax) :=
      hd.same rfl rfl
    exact ho.send _
  | backend _ b _ hq hq' => exact ((hd.quiet hq).connectBackend b _).quiet hq'
  | exec _ b line _ hq hq' _ =>
    exact (((hd.quiet hq).connectBackend b _).quiet hq').backendSend _ line
  | data _ d _ _ => exact (hd.backendSend _ d).replenish _
  | chanClose _ hq => exact (hd.dropBackend.quiet hq).same rfl rfl

theorem Outbound.step {w w' : World} (h : Outbound P w) (hm : Move P w w') : Outbound P w' := by
  cases hm with
  | quiet hq => exact h.quiet hq
  | versionDone _ hq => exact (h.quiet hq).same rfl rfl
  | hangUp hq => exact (h.quiet hq).hangUp
  | packet _ hw => exact h.packet P hw
  | dropBackend => exact h.dropBackend
  | chanShut => exact h.same rfl rfl
  | teardown =>
    refine h.silent (dropTcp_obs w) ?_ (by change (dropTcp w).s.seqOut = _; rw [dropTcp_s])
    split <;> simp [Obs.Unsent]
  | freeSlot => exact h.same (freeSlot_obs w) (by rw [freeSlot_s])

theorem accepted_obs (i : ℤ) (env : Env) (tcp : ℕ) : (accepted i env tcp).obs =
    [.accept tcp i, .itsSend .tcp tcp versionLine
      (min (env.itsSend [.accept tcp i] .tcp tcp versionLine) versionLine.length)] := by
  have ht : ¬(tcp : ℤ) < 0 := not_lt.mpr (Int.natCast_nonneg tcp)
  simp [accepted, onTcpConnect, sessionOpen, sendOurVersion, sendRawTcp, itsSend, World.note,
    World.modify, ht, versionLine]

theorem outbound_accepted (i : ℤ) (env : Env) (tcp : ℕ) : Outbound P (accepted i env tcp) := by
  have ht : ¬(tcp : ℤ) < 0 := not_lt.mpr (Int.natCast_nonneg tcp)
  have hobs := accepted_obs i env tcp
  refine ⟨?_, ?_, ?_⟩
  · rw [hobs]
    simp [accepted, onTcpConnect, sessionOpen, sendOurVersion, sendRawTcp, itsSend, World.note,
      World.modify, ht, reset, frames]
  · rw [hobs]
    rfl
  · rw [hobs]
    rfl

theorem outbound_run (i : ℤ) (env : Env) (tcp : ℕ) (events : List Event) :
    Outbound P (runFrom P i (accepted i env tcp) events) :=
  run_induction P i (Outbound P) (fun _ _ h hm ↦ h.step P hm) (outbound_accepted P i env tcp) events

end Sshd.Server
