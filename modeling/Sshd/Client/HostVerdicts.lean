import Sshd.Client.HostTrust
import Sshd.Client.InStep
import Sshd.Client.Owes

namespace Sshd.Client

open Lib.Octets Wire Crypto Framing

/-! The verdict of the known hosts. -/

/-- What the known hosts were asked, host and fingerprint, and what they said. -/
def hostVerdicts (obs : List Obs) : List (Bytes × Bytes × Bool) :=
  (notices obs).filterMap fun o ↦ match o with
    | .knownHosts host fp ok => some (host, fp, ok)
    | _ => none

/-- The places up to the server's reply. -/
def Pc.Unjudged (pc : Pc) : Prop := pc = .version ∨ pc = .kexinit ∨ pc = .kexEcdhReply

variable (P : Primitives)

/-- From `w` to `w'` the known hosts are left alone, or they are asked for the
key in the server's reply. -/
inductive Consults (w w' : World) : Prop
  | still (hv : hostVerdicts w'.obs = hostVerdicts w.obs) (hs : w'.knownHosts = w.knownHosts)
      (hp : w'.pc.Unjudged → w.pc.Unjudged)
  | asks {pkt ks qs hpub sig64 note : Bytes} {ok : Bool} (hp : w.pc = .kexEcdhReply)
      (hp' : ¬w'.pc.Unjudged) (hm : pkt ∈ heard (openings w'.obs))
      (hh : pkt.head? = some msgKexEcdhReply) (hr : Replied pkt ks qs hpub sig64)
      (hn : knownHostsCheck w.knownHosts w.job.host (hostkeyFingerprint P ks) =
        (ok, note, w'.knownHosts))
      (hv : hostVerdicts w'.obs =
        hostVerdicts w.obs ++ [(w.job.host, hostkeyFingerprint P ks, ok)])

/-- The verdicts are those of the known hosts that the session started with. -/
structure Consulted (host : Bytes) (store : List Bytes) (w : World) : Prop where
  before : w.pc.Unjudged → hostVerdicts w.obs = []
  unasked : hostVerdicts w.obs = [] → w.knownHosts = store
  asked : ∀ v ∈ hostVerdicts w.obs, v.1 = host ∧
    ∃ note, knownHostsCheck store host v.2.1 = (v.2.2, note, w.knownHosts)

section
variable {P} {w w₁ w' : World} {t : ℤ} {pkt : Bytes} {host : Bytes} {store : List Bytes}

theorem Pc.not_unjudged {pc : Pc} (h : pc = .newkeys ∨ pc = .finished ∨ pc.stage.Keyed) :
    ¬pc.Unjudged := by
  rintro (rfl | rfl | rfl) <;> simp [Pc.stage, Stage.Keyed] at h

theorem hostVerdicts_of_notices (h : notices w'.obs = notices w.obs) :
    hostVerdicts w'.obs = hostVerdicts w.obs :=
  congrArg (List.filterMap _) h

theorem hostVerdicts_snoc (obs : List Obs) (o : Obs) :
    hostVerdicts (obs ++ [o]) = hostVerdicts obs ++ hostVerdicts [o] := by
  rw [hostVerdicts, notices_append, List.filterMap_append]
  rfl

theorem hostVerdicts_judged (w : World) (ks qs k hpub sig64 : Bytes) (ok : Bool) :
    hostVerdicts (judged P w ks qs k hpub sig64 ok).obs = hostVerdicts w.obs :=
  (hostVerdicts_snoc w.obs _).trans (List.append_nil _)

theorem hostVerdicts_checked (w : World) (ks qs k hpub sig64 : Bytes) (ok : Bool) :
    hostVerdicts (checked P w ks qs k hpub sig64 ok).obs =
      hostVerdicts w.obs ++ [(w.job.host, hostkeyFingerprint P ks, ok)] :=
  (hostVerdicts_snoc (judged P w ks qs k hpub sig64 true).obs _).trans
    (congrArg (· ++ _) (hostVerdicts_judged w ks qs k hpub sig64 true))

theorem Consults.refl (w : World) : Consults P w w := .still rfl rfl id

/-- A step in front that has nothing to do with the known hosts. -/
theorem Consults.after (h : Consults P w₁ w') (hv : hostVerdicts w₁.obs = hostVerdicts w.obs)
    (hs : w₁.knownHosts = w.knownHosts) (hp : w₁.pc = w.pc) (hj : w₁.job.host = w.job.host) :
    Consults P w w' := by
  cases h with
  | still hv' hs' hp' => exact .still (hv'.trans hv) (hs'.trans hs) (hp ▸ hp')
  | asks hpc hpc' hm hh hr hn hv' =>
    rw [hs, hj] at hn
    rw [hv, hj] at hv'
    exact .asks (hp ▸ hpc) hpc' hm hh hr hn hv'

theorem Chats.consults (h : Chats w w') : Consults P w w' := by
  refine .still (hostVerdicts_of_notices h.notices) h.knownHosts fun he ↦ ?_
  obtain hp | hp | hp := h.pc
  · exact hp ▸ he
  · exact absurd he (Pc.not_unjudged (.inr (.inl hp)))
  · exact absurd he (Pc.not_unjudged (.inr (.inr hp)))

theorem Ended.consults (h : Ended w w') : Consults P w w' :=
  .still (hostVerdicts_of_notices h.notices) h.knownHosts fun he ↦
    absurd he (Pc.not_unjudged (.inr (.inl h.finished)))

theorem Takes.consults (h : Takes P w t pkt w') (hm : t = msgKexEcdhReply.toNat →
    pkt ∈ heard (openings w.obs) ∧ pkt.head? = some msgKexEcdhReply) : Consults P w w' := by
  cases h with
  | chat h _ => exact h.consults
  | ended _ h => exact h.consults
  | @ecdhInit hp _ priv pub _ =>
    obtain ⟨-, -, hn⟩ := sendPacket_adds (P := P)
      (ephemeral (w.modify fun cs ↦ { cs with peerKexInit := pkt }) priv pub)
      (putString (putU8 [] msgKexEcdhInit) pub)
    refine .still ((hostVerdicts_of_notices hn).trans ?_) (sendPacket_knownHosts P _ _)
      fun _ ↦ .inr (.inl hp)
    exact (hostVerdicts_snoc w.obs (.random priv)).trans (List.append_nil _)
  | @refused _ _ _ ks qs hpub sig64 k ok _ _ _ h =>
    exact h.consults.after (hostVerdicts_judged w ks qs k hpub sig64 ok) rfl rfl rfl
  | @unknown _ hp ht ks qs hpub sig64 k note store hr _ _ hn h =>
    obtain ⟨hpkt, hhead⟩ := hm ht
    have hopens : openings (checked P w ks qs k hpub sig64 false).obs = openings w.obs :=
      (Unread.checked w ks qs k hpub sig64 false).openings
    have hv := hostVerdicts_checked (P := P) w ks qs k hpub sig64 false
    have hstore : store = w'.knownHosts :=
      (knownHostsCheck_refused hn).trans h.knownHosts.symm
    refine .asks hp (Pc.not_unjudged (.inr (.inl h.finished))) ?_ hhead hr (hstore ▸ hn)
      ((hostVerdicts_of_notices h.notices).trans hv)
    rw [h.openings, hopens]
    exact hpkt
  | @verified hp ht ks qs hpub sig64 k note store hr _ _ hn =>
    obtain ⟨hpkt, hhead⟩ := hm ht
    have hopens : openings (trusted P w ks qs k hpub sig64 store).obs = openings w.obs :=
      (Unread.checked (P := P) w ks qs k hpub sig64 true).openings
    have hv : hostVerdicts (trusted P w ks qs k hpub sig64 store).obs =
        hostVerdicts w.obs ++ [(w.job.host, hostkeyFingerprint P ks, true)] :=
      hostVerdicts_checked w ks qs k hpub sig64 true
    have hstore : (trusted P w ks qs k hpub sig64 store).knownHosts = store := rfl
    generalize trusted P w ks qs k hpub sig64 store = v at hopens hv hstore ⊢
    obtain ⟨-, ho, hn'⟩ := sendPacket_adds (P := P) v (putU8 [] msgNewkeys)
    have hs := (sendPacket_knownHosts P v (putU8 [] msgNewkeys)).trans hstore
    generalize sendPacket P v (putU8 [] msgNewkeys) = u at ho hn' hs ⊢
    have hcheck : knownHostsCheck w.knownHosts w.job.host (hostkeyFingerprint P ks) =
        (true, note, (keyed P u).knownHosts) := by
      rw [keyed_knownHosts, hs]
      exact hn
    refine .asks hp (Pc.not_unjudged (.inl (keyed_pc P u))) ?_ hhead hr hcheck ?_
    · rw [keyed_obs, ho, hopens]
      exact hpkt
    · rw [keyed_obs]
      exact (hostVerdicts_of_notices hn').trans hv
  | newkeys hp _ h =>
    refine .still (hostVerdicts_of_notices h.notices) h.knownHosts fun he ↦ ?_
    have hkeyed : w'.pc = .finished ∨ w'.pc.stage.Keyed := by
      obtain hpc | hpc | hpc := h.pc
      · exact .inr (by rw [hpc]; simp [World.goto, Pc.stage, Stage.Keyed])
      · exact .inl hpc
      · exact .inr hpc
    exact absurd he (Pc.not_unjudged (.inr hkeyed))

theorem hostVerdicts_received (w : World) (pc : Pc) (t : ℤ) (pkt : Bytes) :
    hostVerdicts (w.note (.received pc t pkt)).obs = hostVerdicts w.obs :=
  (hostVerdicts_snoc w.obs _).trans (List.append_nil _)

/-- `recv_packet` returns no packet. -/
theorem Consults.silent (ht : t ≤ 0) {pc : Pc}
    (h : Takes P (w.note (.received pc t [])) t [] w') : Consults P w w' := by
  refine (h.consults fun he ↦ ?_).after (hostVerdicts_received w pc t []) rfl rfl rfl
  rw [he] at ht
  exact absurd ht (by decide)

theorem Reading.consults (h : Reading P w w') : Consults P w w' := by
  have hfill : hostVerdicts (fillRx w).2.obs = hostVerdicts w.obs :=
    hostVerdicts_of_notices (fillRx_record w).2.2
  cases h with
  | stay _ => exact .refl w
  | fill _ => exact .still hfill rfl id
  | atEnd _ hv h _ =>
    obtain rfl | rfl := hv
    · exact h.consults
    · exact h.consults.after hfill rfl rfl rfl
  | skipLine _ _ _ => exact .still rfl rfl id
  | misfit _ => exact (Ended.giveUp _ _).consults.after rfl rfl rfl rfl
  | @hello line rest hp _ _ =>
    obtain ⟨w₁, cookie, he, hv, hs⟩ : ∃ w₁ cookie,
        startKex P (w.modify fun cs ↦ { cs with rxBuf := rest, peerVersion := line }) =
          (sendPacket P w₁ (putKexinit cookie)).goto .kexinit ∧
        hostVerdicts w₁.obs = hostVerdicts w.obs ∧ w₁.knownHosts = w.knownHosts :=
      ⟨_, _, rfl, (hostVerdicts_snoc w.obs _).trans (List.append_nil _), rfl⟩
    obtain ⟨-, -, hn⟩ := sendPacket_adds (P := P) w₁ (putKexinit cookie)
    rw [he]
    exact .still ((hostVerdicts_of_notices hn).trans hv) ((sendPacket_knownHosts P _ _).trans hs)
      fun _ ↦ .inl hp
  | silence _ hv ht h =>
    have ht : _ ≤ (0 : ℤ) := ht.elim (fun ht ↦ ht.le) fun ht ↦ by omega
    obtain rfl | rfl := hv
    · exact .silent ht h
    · exact (Consults.silent ht h).after hfill rfl rfl rfl
  | garbled _ _ h => exact .silent (by decide) h
  | hollow _ hw h =>
    obtain ⟨packet, rest, -, -, -, rfl⟩ := tryParse_unpacked hw
    exact (Consults.silent (by decide) h).after
      (hostVerdicts_of_notices (notices_unpacked w packet [] rest)) rfl rfl rfl
  | ignored _ hw _ =>
    obtain ⟨packet, rest, -, -, -, rfl⟩ := tryParse_unpacked hw
    exact .still (hostVerdicts_of_notices (notices_unpacked w packet _ rest)) rfl id
  | @packet _ _ b body _ hw h =>
    obtain ⟨packet, rest, -, -, -, rfl⟩ := tryParse_unpacked hw
    have hv : hostVerdicts ((unpacked w packet (b :: body) rest).note
        (.received w.pc b.toNat (b :: body))).obs = hostVerdicts w.obs :=
      (hostVerdicts_received _ _ _ _).trans
        (hostVerdicts_of_notices (notices_unpacked w packet _ rest))
    have ho : openings ((unpacked w packet (b :: body) rest).note
        (.received w.pc b.toNat (b :: body))).obs =
          openings (unpacked w packet (b :: body) rest).obs :=
      (openings_append _ [_]).trans (List.append_nil _)
    refine (h.consults fun he ↦ ⟨?_, ?_⟩).after hv rfl rfl rfl
    · rw [ho, heard_unpacked]
      exact List.mem_append_right _ (List.mem_singleton_self _)
    · exact congrArg some (UInt8.toNat_inj.mp (Int.ofNat_inj.mp he))

theorem step_consults (w : World) (e : Event) : Consults P w (step P w e) := by
  cases e with
  | poll expired => exact (poll_reading expired w).consults
  | _ => exact .still rfl rfl id

theorem Consulted.step (h : Consulted host store w) (hh : w.job.host = host)
    (hc : Consults P w w') : Consulted host store w' := by
  cases hc with
  | still hv hs hp =>
    refine ⟨fun he ↦ ?_, ?_, ?_⟩
    · rw [hv]
      exact h.before (hp he)
    · rw [hv, hs]
      exact h.unasked
    · rw [hv, hs]
      exact h.asked
  | @asks _ _ _ _ _ note _ hp hp' _ _ _ hn hv =>
    have hnone := h.before (.inr (.inr hp))
    rw [hnone, List.nil_append] at hv
    refine ⟨fun he ↦ absurd he hp', fun he ↦ ?_, fun v hm ↦ ?_⟩
    · rw [hv] at he
      cases he
    · rw [hv, List.mem_singleton] at hm
      rw [hm, ← h.unasked hnone]
      exact ⟨hh, note, hh ▸ hn⟩

/-- One look at the known hosts decides over a session. -/
theorem consulted_run (env : Env) (job : SshJob) (store : List Bytes) (events : List Event) :
    Consulted job.host store (runFrom P (runSession env job store) events) := by
  have hstart : (runSession env job store).job.host = job.host ∧
      hostVerdicts (runSession env job store).obs = [] ∧
      (runSession env job store).knownHosts = store := by
    by_cases hc : 0 ≤ env.itsConnect
    · obtain ⟨took, hobs, -, -, hjob, hstore⟩ := runSession_connected hc job store
      exact ⟨congrArg SshJob.host hjob, by rw [hobs]; rfl, hstore⟩
    · obtain ⟨hobs, -, hjob, hstore⟩ := runSession_refused (not_le.mp hc) job store
      exact ⟨hjob, by rw [hobs]; rfl, hstore⟩
  obtain ⟨hjob, hnone, hstore⟩ := hstart
  induction events using List.reverseRecOn with
  | nil =>
    refine ⟨fun _ ↦ hnone, fun _ ↦ hstore, fun v hm ↦ ?_⟩
    change v ∈ hostVerdicts (runSession env job store).obs at hm
    rw [hnone] at hm
    cases hm
  | append_singleton events e ih =>
    have hhost : (runFrom P (runSession env job store) events).job.host = job.host :=
      (congrArg Given.host (given_run (P := P) _ events)).trans hjob
    rw [runFrom, List.foldl_concat, ← runFrom]
    exact ih.step hhost (step_consults _ e)

/-! What is stored. -/

/-- The entry of a host stays as it is. -/
theorem storedFp_remembered {store known : List Bytes} {host fp : Bytes} (hh : 32 ∉ host)
    (h : Remembered store known host fp) : storedFp known host = some fp := by
  obtain ⟨hs, rfl⟩ | ⟨hs, rfl⟩ := h
  · exact hs
  · obtain ⟨hmem, hhost, hfp⟩ := @entry_split (host, fp) hh
    rw [storedFp, Option.map_eq_none_iff] at hs
    rw [storedFp, List.find?_append, hs, Option.none_or]
    simp [hmem, hhost, hfp]

theorem knownHostsCheck_stored {store : List Bytes} {host stored : Bytes}
    (h : storedFp store host = some stored) (fp : Bytes) :
    (knownHostsCheck store host fp).1 = decide (stored = fp) := by
  have hscan := scanKnownHosts_storedFp store host fp 0
  rw [h] at hscan
  obtain ⟨⟨ok, note⟩, hr, hok⟩ := Option.map_eq_some_iff.mp hscan
  rw [knownHostsCheck, hr]
  exact hok

end

end Sshd.Client
