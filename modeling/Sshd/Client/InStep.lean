import Sshd.Agreement
import Sshd.Client.FlowControl

namespace Sshd.Client

open Lib.Octets Lib.Trace Wire Crypto Framing

/-! What a client hears and says. -/

/-- `recv_packet` reports no framing error. -/
def Clean (obs : List Obs) : Prop := ∀ pc pkt, .received pc (-1) pkt ∉ obs

section
variable {P : Primitives} {w w₁ w' : World} {t : ℤ} {pkt : Bytes}

theorem clean_notices {obs : List Obs} : Clean (notices obs) ↔ Clean obs := by
  refine forall_congr' fun pc ↦ forall_congr' fun pkt ↦ not_congr ?_
  simp [notices]

/-- `w'` comes from `w` without reading or reporting a framing error. -/
structure Unread (w w' : World) : Prop where
  openings : openings w'.obs = openings w.obs
  clean : Clean w.obs → Clean w'.obs

theorem Unread.trans (h : Unread w w₁) (h' : Unread w₁ w') : Unread w w' :=
  ⟨h'.openings.trans h.openings, h'.clean ∘ h.clean⟩

theorem Unread.of_notices (ho : Client.openings w'.obs = Client.openings w.obs)
    (hn : notices w'.obs = notices w.obs) : Unread w w' := by
  refine ⟨ho, fun hc ↦ clean_notices.mp ?_⟩
  rw [hn]
  exact clean_notices.mpr hc

theorem Unread.grow {o : Obs} (hobs : w'.obs = w.obs ++ [o]) (ho : Client.openings [o] = [])
    (hc : Clean [o]) : Unread w w' := by
  refine ⟨?_, fun hw pc pkt hm ↦ ?_⟩
  · rw [hobs, openings_append, ho, List.append_nil]
  · rw [hobs] at hm
    exact (List.mem_append.mp hm).elim (hw pc pkt) (hc pc pkt)

theorem Chats.unread (h : Chats w w') : Unread w w' := .of_notices h.openings h.notices

theorem Ended.unread (h : Ended w w') : Unread w w' := .of_notices h.openings h.notices

theorem Unread.judged (w : World) (ks qs k hpub sig64 : Bytes) (ok : Bool) :
    Unread w (judged P w ks qs k hpub sig64 ok) :=
  .grow (o := .verify hpub (exchanged P w ks qs k).cs.sessionId sig64 ok) rfl rfl (by simp [Clean])

theorem Unread.checked (w : World) (ks qs k hpub sig64 : Bytes) (ok : Bool) :
    Unread w (checked P w ks qs k hpub sig64 ok) :=
  (Unread.judged w ks qs k hpub sig64 true).trans
    (.grow (o := .knownHosts w.job.host (hostkeyFingerprint P ks) ok) rfl rfl (by simp [Clean]))

theorem Unread.send (w : World) (payload : Bytes) : Unread w (sendPacket P w payload) := by
  obtain ⟨-, ho, hn⟩ := sendPacket_adds (P := P) w payload
  exact .of_notices ho hn

theorem Takes.unread (h : Takes P w t pkt w') : Unread w w' := by
  cases h with
  | chat h _ => exact h.unread
  | ended _ h => exact h.unread
  | @ecdhInit _ _ priv pub _ =>
    have he : Unread w (ephemeral (w.modify fun cs ↦ { cs with peerKexInit := pkt }) priv pub) :=
      .grow (o := .random priv) rfl rfl (by simp [Clean])
    exact (he.trans (.send _ _)).trans (.of_notices rfl rfl)
  | refused _ _ _ _ _ h => exact (Unread.judged w _ _ _ _ _ _).trans h.unread
  | unknown _ _ _ _ _ _ h => exact (Unread.checked w _ _ _ _ _ _).trans h.unread
  | @verified _ _ ks qs hpub sig64 k _ store =>
    have hc := Unread.checked (P := P) w ks qs k hpub sig64 true
    have ht : Unread w (trusted P w ks qs k hpub sig64 store) := ⟨hc.openings, hc.clean⟩
    refine ht.trans ((Unread.send (P := P) _ (putU8 [] msgNewkeys)).trans ?_)
    exact .of_notices (by rw [keyed_obs]) (by rw [keyed_obs])
  | newkeys _ _ h =>
    have hd : Unread w ((w.modify fun cs ↦ { cs with encIn := true }).goto .serviceAccept) :=
      .of_notices rfl rfl
    exact hd.trans h.unread

theorem Unread.received (w : World) (pc : Pc) (ht : t ≠ -1) (pkt : Bytes) :
    Unread w (w.note (.received pc t pkt)) :=
  .grow (o := .received pc t pkt) rfl rfl fun pc' pkt' hm ↦ by
    rw [List.mem_singleton, Obs.received.injEq] at hm
    exact ht hm.2.1.symm

theorem Unread.fill (w : World) : Unread w (fillRx w).2 :=
  .of_notices (fillRx_record w).2.1 (fillRx_record w).2.2

theorem Unread.startKex (w : World) : Unread w (startKex P w) := by
  have hset (cookie : Bytes) : Unread w
      ((w.note (.random cookie)).modify fun cs ↦ { cs with ourKexInit := putKexinit cookie }) :=
    .grow (o := .random cookie) rfl rfl (by simp [Clean])
  unfold Client.startKex
  exact ((hset _).trans (.send _ _)).trans (.of_notices rfl rfl)

/-- What a round reads and reports. -/
theorem Reading.hears (h : Reading P w w') : Unread w w' ∨
    (w.pc ≠ .version ∧ w.pc ≠ .finished) ∧ (tryParse P w = .bad ∨
      ∃ packet payload rest, unframe P w.cs.encIn w.cs.recvKey w.cs.seqIn w.cs.rxBuf =
          .got payload rest ∧ packet = w.cs.rxBuf.take (w.cs.rxBuf.length - rest.length) ∧
        openings w'.obs = openings w.obs ++
          [⟨w.cs.encIn, w.cs.recvKey, w.cs.seqIn, packet, payload⟩] ∧
        (payload ≠ [] → Clean w.obs → Clean w'.obs)) := by
  have hgot {w₁ : World} {payload : Bytes} (hw : tryParse P w = .got payload w₁)
      (hr : payload ≠ [] → Unread w₁ w') (ho : openings w'.obs = openings w₁.obs) :
      ∃ packet payload rest, unframe P w.cs.encIn w.cs.recvKey w.cs.seqIn w.cs.rxBuf =
          .got payload rest ∧ packet = w.cs.rxBuf.take (w.cs.rxBuf.length - rest.length) ∧
        openings w'.obs = openings w.obs ++
          [⟨w.cs.encIn, w.cs.recvKey, w.cs.seqIn, packet, payload⟩] ∧
        (payload ≠ [] → Clean w.obs → Clean w'.obs) := by
    obtain ⟨packet, rest, -, hu, hpacket, rfl⟩ := tryParse_unpacked hw
    refine ⟨packet, payload, rest, hu, hpacket, ho.trans (openings_unpacked w packet payload rest),
      fun hn hclean ↦ (hr hn).clean fun pc pkt hm ↦ ?_⟩
    obtain hm | hm := List.mem_append.mp hm
    · exact hclean pc pkt hm
    · cases List.mem_singleton.mp hm
  have hwait {v : World} (hv : v = w ∨ v = (fillRx w).2) : Unread w v := by
    obtain rfl | rfl := hv
    · exact .of_notices rfl rfl
    · exact .fill w
  cases h with
  | stay => exact .inl (.of_notices rfl rfl)
  | fill => exact .inl (.fill w)
  | atEnd _ hv h _ => exact .inl ((hwait hv).trans h.unread)
  | skipLine => exact .inl (.of_notices rfl rfl)
  | @misfit rest msg =>
    have hset : Unread w (w.modify fun cs ↦ { cs with rxBuf := rest }) := .of_notices rfl rfl
    exact .inl (hset.trans (Chats.giveUp _ msg).unread)
  | @hello line rest =>
    have hset : Unread w (w.modify fun cs ↦ { cs with rxBuf := rest, peerVersion := line }) :=
      .of_notices rfl rfl
    exact .inl (hset.trans (.startKex _))
  | silence _ hv ht h =>
    exact .inl ((hwait hv).trans ((Unread.received _ _ (by omega) []).trans h.unread))
  | garbled hp hw _ => exact .inr ⟨hp, .inl hw⟩
  | @hollow w₁ _ hp hw h =>
    have ho : openings (w₁.note (.received w.pc (-1) [])).obs = openings w₁.obs :=
      (openings_append w₁.obs [_]).trans (List.append_nil _)
    exact .inr ⟨hp, .inr (hgot hw (fun hn ↦ absurd rfl hn) (h.unread.openings.trans ho))⟩
  | ignored hp hw _ => exact .inr ⟨hp, .inr (hgot hw (fun _ ↦ .of_notices rfl rfl) rfl)⟩
  | @packet w₁ _ b body hp hw h =>
    have hread := (Unread.received w₁ w.pc (t := b.toNat) (by omega) (b :: body)).trans h.unread
    exact .inr ⟨hp, .inr (hgot hw (fun _ ↦ hread) hread.openings)⟩

end

/-! The exchange, from the version lines to the server's NEWKEYS. -/

def Pc.Exchanging (pc : Pc) : Prop :=
  pc = .version ∨ pc = .kexinit ∨ pc = .kexEcdhReply ∨ pc = .newkeys

/-- In `w'` there are no longer packets and no further verdicts than in `w`, unless
the exchange is over or goes on, respectively. -/
structure Further (w w' : World) : Prop where
  brief : w'.pc.Exchanging → w.pc.Exchanging ∧ ∃ fs, frames w'.obs = frames w.obs ++ fs ∧
    ∀ f ∈ fs, f.payload.length ≤ 1000
  verdicts : ¬w.pc.Exchanging → ∀ pub msg sig ok, .verify pub msg sig ok ∈ w'.obs →
    .verify pub msg sig ok ∈ w.obs

section
variable {P : Primitives} {w w₁ w' : World} {t : ℤ} {pkt : Bytes}

theorem Further.trans (h : Further w w₁) (h' : Further w₁ w') : Further w w' := by
  refine ⟨fun hp ↦ ?_, fun hp pub msg sig ok hm ↦ ?_⟩
  · obtain ⟨hp₁, fs', hfs', hs'⟩ := h'.brief hp
    obtain ⟨hp₀, fs, hfs, hs⟩ := h.brief hp₁
    refine ⟨hp₀, fs ++ fs', ?_, fun f hf ↦ (List.mem_append.mp hf).elim (hs f) (hs' f)⟩
    rw [hfs', hfs, List.append_assoc]
  · exact h.verdicts hp _ _ _ _ (h'.verdicts (fun hp₁ ↦ hp (h.brief hp₁).1) _ _ _ _ hm)

theorem Further.same (hpc : w'.pc = w.pc) (hf : frames w'.obs = frames w.obs)
    (hv : ∀ pub msg sig ok, .verify pub msg sig ok ∈ w'.obs → .verify pub msg sig ok ∈ w.obs) :
    Further w w' :=
  ⟨fun hp ↦ ⟨hpc ▸ hp, [], hf.trans (List.append_nil _).symm, nofun⟩, fun _ ↦ hv⟩

theorem Further.note {o : Obs} (hf : frames [o] = [])
    (ho : ∀ pub msg sig ok, o ≠ .verify pub msg sig ok) : Further w (w.note o) := by
  refine .same rfl ((frames_append w.obs [o]).trans ?_) fun pub msg sig ok hm ↦ ?_
  · rw [hf, List.append_nil]
  · exact (List.mem_append.mp hm).resolve_right fun hm ↦
      ho pub msg sig ok (List.mem_singleton.mp hm).symm

/-- The exchange is over with `w'`. -/
theorem Further.over (hp : ¬w'.pc.Exchanging)
    (hn : ¬w.pc.Exchanging → notices w'.obs = notices w.obs) : Further w w' := by
  refine ⟨fun hp' ↦ absurd hp' hp, fun hp pub msg sig ok hm ↦ ?_⟩
  rw [← verify_mem, hn hp] at hm
  exact verify_mem.mp hm

/-- The exchange goes on with a packet. -/
theorem Further.send (hp : w.pc.Exchanging) {v : World} (hv : frames v.obs = frames w.obs)
    {payload : Bytes} (hs : payload.length ≤ 1000)
    (hw : frames w'.obs = frames (sendPacket P v payload).obs) : Further w w' := by
  refine ⟨fun _ ↦ ⟨hp, [sendFrame v payload], ?_, fun f hf ↦ ?_⟩, fun hn ↦ absurd hp hn⟩
  · rw [hw, (sendPacket_adds v payload).1, hv]
  · rw [List.mem_singleton.mp hf]
    exact hs

theorem Pc.not_exchanging {pc : Pc} (h : pc = .finished ∨ pc.stage.Keyed) : ¬pc.Exchanging := by
  intro he
  obtain rfl | hk := h
  · simp [Pc.Exchanging] at he
  · refine Pc.not_keyed ?_ hk
    obtain h | h | h | h := he
    · exact .inl h
    · exact .inr (.inl h)
    · exact .inr (.inr (.inl h))
    · exact .inr (.inr (.inr (.inl h)))

/-- Outside of an exchange none begins. -/
theorem PcStep.over {pc pc' : Pc} (h : PcStep pc pc') (hp : pc.stage.Keyed) : ¬pc'.Exchanging := by
  obtain rfl | hf | hk := h
  · exact Pc.not_exchanging (.inr hp)
  · exact Pc.not_exchanging (.inl hf)
  · exact Pc.not_exchanging (.inr hk)

theorem Takes.further (h : Takes P w t pkt w') : Further w w' := by
  cases h with
  | chat h hp =>
    exact .over (hp.elim h.pc.over fun hf ↦ Pc.not_exchanging (.inl hf)) fun _ ↦ h.notices
  | ended hp h =>
    exact .over (Pc.not_exchanging (.inl h.finished)) fun hn ↦
      absurd (hp.elim (.inr ∘ .inl) (.inr ∘ .inr ∘ .inl)) hn
  | @ecdhInit hp _ priv pub hb =>
    have hlen := x25519Base_length P hb
    have hdrawn : frames (ephemeral (w.modify fun cs ↦ { cs with peerKexInit := pkt }) priv pub).obs =
        frames w.obs := (frames_append w.obs [_]).trans (List.append_nil _)
    refine .send (.inr (.inl hp)) hdrawn ?_ rfl
    rw [putString_eq, List.length_append, lenPrefixed_length, hlen]
    decide
  | refused hp _ _ _ _ h =>
    exact .over (Pc.not_exchanging (.inl h.finished)) fun hn ↦ absurd (.inr (.inr (.inl hp))) hn
  | unknown hp _ _ _ _ _ h =>
    exact .over (Pc.not_exchanging (.inl h.finished)) fun hn ↦ absurd (.inr (.inr (.inl hp))) hn
  | @verified hp _ ks qs hpub sig64 k _ store =>
    have hf : frames (trusted P w ks qs k hpub sig64 store).obs = frames w.obs :=
      (frames_append _ [_]).trans ((List.append_nil _).trans
        ((frames_append w.obs [_]).trans (List.append_nil _)))
    have hs : (putU8 [] msgNewkeys).length ≤ 1000 := by decide
    refine .send (P := P) (.inr (.inr (.inl hp))) hf hs ?_
    rw [keyed_obs]
  | newkeys hp _ h =>
    exact .over (h.pc.over (.inl rfl)) fun hn ↦ absurd (.inr (.inr (.inr hp))) hn

theorem putKexinit_length (cookie : Bytes) :
    (putKexinit cookie).length = cookie.length + (putKexinit []).length := by
  simp only [putKexinit, putNamelist, putCstring, putString_eq, putU8, putU32,
    List.length_append, List.length_nil]
  omega

theorem Further.startKex (hp : w.pc.Exchanging) : Further w (startKex P w) := by
  unfold Client.startKex
  have hlen : (putKexinit (randomBytes w 16).1).length ≤ 1000 := by
    rw [putKexinit_length, randomBytes_length]
    decide +kernel
  exact .send hp ((frames_append w.obs [_]).trans (List.append_nil _)) hlen rfl

theorem Reading.further (h : Reading P w w') : Further w w' := by
  have hreceived {v : World} (hp : v.pc = w.pc) (hf : frames v.obs = frames w.obs)
      (hn : notices v.obs = notices w.obs) (t : ℤ) (pkt : Bytes) :
      Further w (v.note (.received w.pc t pkt)) := by
    have hv : Further w v := .same hp hf fun pub msg sig ok hm ↦ by
      rwa [← verify_mem, hn, verify_mem] at hm
    exact hv.trans (.note rfl nofun)
  have hwait {v : World} (hv : v = w ∨ v = (fillRx w).2) :
      v.pc = w.pc ∧ frames v.obs = frames w.obs ∧ notices v.obs = notices w.obs := by
    obtain rfl | rfl := hv
    · exact ⟨rfl, rfl, rfl⟩
    · exact ⟨rfl, (fillRx_record w).1, (fillRx_record w).2.2⟩
  have hgot {w₁ : World} {payload : Bytes} (hw : tryParse P w = .got payload w₁) :
      w₁.pc = w.pc ∧ frames w₁.obs = frames w.obs ∧ notices w₁.obs = notices w.obs := by
    obtain ⟨packet, rest, -, -, -, rfl⟩ := tryParse_unpacked hw
    exact ⟨rfl, frames_unpacked w packet payload rest, notices_unpacked w packet payload rest⟩
  have hsame {v : World} (hv : v.pc = w.pc ∧ frames v.obs = frames w.obs ∧
      notices v.obs = notices w.obs) : Further w v :=
    .same hv.1 hv.2.1 fun pub msg sig ok hm ↦ by rwa [← verify_mem, hv.2.2, verify_mem] at hm
  cases h with
  | stay => exact hsame ⟨rfl, rfl, rfl⟩
  | fill => exact hsame (hwait (.inr rfl))
  | atEnd hp hv h hf =>
    refine (hsame (hwait hv)).trans (.over (Pc.not_exchanging (.inl hf)) fun _ ↦ h.notices)
  | skipLine => exact .same rfl rfl fun _ _ _ _ hm ↦ hm
  | misfit hp =>
    exact .over (Pc.not_exchanging (.inl rfl)) fun hn ↦ absurd (.inl hp) hn
  | @hello line rest hp =>
    have hset : Further w (w.modify fun cs ↦ { cs with rxBuf := rest, peerVersion := line }) :=
      .same rfl rfl fun _ _ _ _ hm ↦ hm
    exact hset.trans (.startKex (.inl hp))
  | silence _ hv _ h =>
    obtain ⟨hp, hf, hn⟩ := hwait hv
    exact (hreceived hp hf hn _ _).trans h.further
  | garbled _ _ h => exact (hreceived rfl rfl rfl _ _).trans h.further
  | hollow _ hw h =>
    obtain ⟨hp, hf, hn⟩ := hgot hw
    exact (hreceived hp hf hn _ _).trans h.further
  | ignored _ hw _ => exact hsame (hgot hw)
  | packet _ hw h =>
    obtain ⟨hp, hf, hn⟩ := hgot hw
    exact (hreceived hp hf hn _ _).trans h.further

theorem step_further (w : World) (e : Event) : Further w (step P w e) := by
  cases e with
  | poll expired => exact (poll_reading expired w).further
  | _ => exact .same rfl rfl fun _ _ _ _ hm ↦ hm

/-- Up to the end of the exchange the packets are short. -/
theorem exchanging_short {env : Env} (hconn : 0 ≤ env.itsConnect) (job : SshJob)
    (store : List Bytes) (events : List Event)
    (hp : (runFrom P (runSession env job store) events).pc.Exchanging) :
    ∀ f ∈ frames (runFrom P (runSession env job store) events).obs, f.payload.length ≤ 1000 := by
  induction events using List.reverseRecOn with
  | nil =>
    obtain ⟨took, hobs, -⟩ := runSession_connected hconn job store
    change ∀ f ∈ frames (runSession env job store).obs, _
    rw [hobs]
    nofun
  | append_singleton events e ih =>
    rw [runFrom, List.foldl_concat] at hp ⊢
    obtain ⟨hp, fs, hfs, hs⟩ := (step_further _ e).brief hp
    rw [hfs]
    exact fun f hf ↦ (List.mem_append.mp hf).elim (ih hp f) (hs f)

end

/-! A client that hears what its server says. -/

/-- The record only grows. -/
theorem step_grows {P : Primitives} (w : World) (e : Event) : w.obs <+: (step P w e).obs := by
  have hstep (a b : World) (ha : w.obs <+: a.obs) (hm : Move P a b) : w.obs <+: b.obs := by
    obtain ⟨os, hobs, -⟩ | hobs := hm.muted
    · exact ha.trans ⟨os, hobs.symm⟩
    · exact ha.trans ⟨_, hobs.symm⟩
  exact run_invariant hstep (step_moves P w e) List.prefix_rfl

/-! A server on the other side. -/

section
variable {P : Primitives} {arrived toServer fromClient : Bytes} {sent : List Frame}
  {openedS : List Opening} {oursS : Bytes} {keysS : Server.Keys} {zS x : Option Handshake}
  {w w' : World}

/-- How a session reads on that is up. -/
theorem Standing.reader (hst : Standing P arrived w x) (hl : Listens w) (hp : w.pc ≠ .version)
    (hf : Framing.Follows P sent (openings w.obs))
    (hk : w.cs.encIn = true → ∀ f ∈ sent, f.enc = true → f.key = w.cs.recvKey)
    (hs : arrived <+: Server.versionLine ++ (sent.map (Frame.bytes P)).flatten) :
    Reader P (openings w.obs) sent w.cs.encIn w.cs.recvKey (w.cs.rxBuf ++ w.tcpIn) := by
  obtain ⟨mid, hskips, hline, -⟩ := (hst.greeted hp).1
  rw [skips_server hs hskips] at hline
  exact ⟨hf, hl, hk, (firstLine takeLine_server hs hline).2⟩

variable (P) in
/-- All that has come is read. -/
def Waits (w : World) : Prop :=
  w.tcpIn = [] ∧ if w.pc = .version then takeLine w.cs.rxBuf = none else tryParse P w = .needMore

variable (P arrived sent openedS) in
/-- A client that has read nothing but what the server sent. -/
structure Hears (w : World) : Prop where
  law : Law P arrived w
  order : InOrder P w
  follows : Framing.Follows P sent (openings w.obs)
  heard : heard openedS <+: said (frames w.obs)
  clean : Clean w.obs

section
variable (hP : Commutes P)
  (hs : Server.Record P toServer sent openedS oursS keysS zS) (hsend : Sender sent)
  (htc : arrived <+: Server.versionLine ++ (sent.map (Frame.bytes P)).flatten)
  (hts : toServer <+: Client.versionLine ++ fromClient)

include hP hs htc hts in
theorem Hears.reader (h : Hears P arrived sent openedS w)
    (hp : w.pc ≠ .version ∧ w.pc ≠ .finished) :
    Reader P (openings w.obs) sent w.cs.encIn w.cs.recvKey (w.cs.rxBuf ++ w.tcpIn) := by
  obtain ⟨z, hr, hup⟩ := h.law
  obtain ⟨hst, hl⟩ := hup hp.2
  refine hst.reader hl hp.1 h.follows (fun he ↦ ?_) htc
  refine (keys_agree hP hr hs hts htc h.heard h.follows.payloads).2 fun hz ↦ ?_
  have hearly := (hst.early hz).2.1
  rw [he] at hearly
  cases hearly

include hP hs hsend htc hts in
theorem Hears.poll (h : Hears P arrived sent openedS w) (expired : Bool)
    (hgrow : ∃ fs, frames (Client.poll P expired w).obs = frames w.obs ++ fs) :
    Hears P arrived sent openedS (Client.poll P expired w) := by
  have hlaw := h.law.poll expired
  have horder := h.order.poll expired
  have hheard : Framing.heard openedS <+: said (frames (Client.poll P expired w).obs) := by
    obtain ⟨fs, hfs⟩ := hgrow
    rw [hfs, said_append]
    exact h.heard.trans (List.prefix_append _ _)
  obtain hu | ⟨hp, hparse⟩ := (poll_reading (P := P) expired w).hears
  · exact ⟨hlaw, horder, hu.openings ▸ h.follows, hheard, hu.clean h.clean⟩
  have hreader := h.reader hP hs htc hts hp
  have hseq : w.cs.seqIn = (openings w.obs).length := h.order.receives.next
  have hread := hreader.unframe hsend rfl
  rw [← hseq] at hread
  obtain hbad | ⟨packet, payload, rest, hu, rfl, ho, hclean⟩ := hparse
  · refine absurd ?_ hread.1
    unfold tryParse at hbad
    split at hbad
    · cases hbad
    · assumption
    · cases hbad
  · have hf := hread.2 payload rest hu
    refine ⟨hlaw, horder, ho ▸ hf, hheard, hclean ?_ h.clean⟩
    -- the server says nothing that is empty
    rintro rfl
    refine hs.spoken (hf.payloads.subset ?_)
    rw [heard_append]
    exact List.mem_append_right _ (List.mem_singleton_self _)

include hP hs hsend htc hts in
theorem Hears.step (h : Hears P arrived sent openedS w) {e : Event}
    (he : ∀ data, e ≠ .tcpArrive data) : Hears P arrived sent openedS (step P w e) := by
  have hlaw := h.law.step he
  have horder := h.order.step e
  cases e with
  | tcpArrive data => exact absurd rfl (he data)
  | poll expired =>
    obtain ⟨os, hos⟩ := step_grows (P := P) w (.poll expired)
    exact h.poll hP hs hsend htc hts expired ⟨frames os, (congrArg frames hos.symm).trans (frames_append _ _)⟩
  | tcpClose => exact ⟨hlaw, horder, h.follows, h.heard, h.clean⟩
  | typed data => exact ⟨hlaw, horder, h.follows, h.heard, h.clean⟩
  | userClose => exact ⟨hlaw, horder, h.follows, h.heard, h.clean⟩

/-- A session that has got everything and waits for more knows the server's version. -/
theorem Hears.greeted (h : Hears P arrived sent openedS w) (hp : w.pc ≠ .finished)
    (hall : arrived = Server.versionLine ++ (sent.map (Frame.bytes P)).flatten) (hw : Waits P w) :
    w.pc ≠ .version := by
  intro hv
  obtain ⟨htcp, hw⟩ := hw
  obtain ⟨z, -, hup⟩ := h.law
  obtain ⟨hst, -⟩ := hup hp
  have hline := takeLine_append takeLine_server (sent.map (Frame.bytes P)).flatten
  rw [← hall, List.nil_append] at hline
  have htc : arrived <+: Server.versionLine ++ (sent.map (Frame.bytes P)).flatten :=
    hall ▸ List.prefix_rfl
  have ha := skips_server htc (hst.greeting hv).1
  rw [htcp, List.append_nil] at ha
  rw [if_pos hv, ha, hline] at hw
  cases hw

include hP hs hsend hts in
/-- A session that has got everything and waits for more has read everything. -/
theorem Hears.done (h : Hears P arrived sent openedS w) (hp : w.pc ≠ .finished)
    (hall : arrived = Server.versionLine ++ (sent.map (Frame.bytes P)).flatten) (hw : Waits P w) :
    Framing.heard (openings w.obs) = said sent := by
  have hv := h.greeted hp hall hw
  obtain ⟨htcp, hw⟩ := hw
  rw [if_neg hv] at hw
  obtain ⟨z, hr, hup⟩ := h.law
  obtain ⟨hst, -⟩ := hup hp
  have htc : arrived <+: Server.versionLine ++ (sent.map (Frame.bytes P)).flatten :=
    hall ▸ List.prefix_rfl
  have hline := takeLine_append takeLine_server (sent.map (Frame.bytes P)).flatten
  rw [← hall, List.nil_append] at hline
  have hread := h.reader hP hs htc hts ⟨hv, hp⟩
  obtain ⟨mid, hskips, hgreet, -⟩ := (hst.greeted hv).1
  rw [skips_server htc hskips, hline, htcp, List.append_nil] at hgreet
  rw [htcp, List.append_nil] at hread
  refine (hread.done hsend (Prod.mk.inj (Option.some.inj hgreet)).2.symm ?_).1
  rw [← h.order.receives.next]
  unfold tryParse at hw
  split at hw
  · assumption
  · cases hw
  · cases hw

end

end

end Sshd.Client
