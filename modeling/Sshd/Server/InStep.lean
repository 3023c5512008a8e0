import Sshd.Agreement
import Sshd.Server.InOrder

namespace Sshd.Server

open Lib.Octets Lib.Trace Wire Crypto Framing

/-! A server that hears what its client says. -/

section
variable {P : Primitives}

/-- A payload that reports no framing error and does not cause one. -/
def Orderly (payload : Bytes) : Prop :=
  payload ≠ disconnect 2 "framing error" ∧ payload.length ≤ longest

/-- From `w` to `w'` only orderly payloads are sent. -/
def Reports (w w' : World) : Prop :=
  ∃ fs, frames w'.obs = frames w.obs ++ fs ∧ ∀ f ∈ fs, Orderly f.payload

variable {w w₁ w' : World}

theorem Reports.same (h : frames w'.obs = frames w.obs) : Reports w w' :=
  ⟨[], h.trans (List.append_nil _).symm, nofun⟩

theorem Reports.trans (h : Reports w w₁) (h' : Reports w₁ w') : Reports w w' := by
  obtain ⟨fs, hfs, hn⟩ := h
  obtain ⟨fs', hfs', hn'⟩ := h'
  refine ⟨fs ++ fs', ?_, fun f hf ↦ ?_⟩
  · rw [hfs', hfs, List.append_assoc]
  · exact (List.mem_append.mp hf).elim (hn f) (hn' f)

theorem Reports.send (w : World) {payload : Bytes} {t : UInt8} (hp : payload.head? = some t)
    (ht : t ≠ msgDisconnect) (hl : payload.length ≤ longest) :
    Reports w (sendPacket P w payload) := by
  obtain ⟨fs, hfs, hpay⟩ := frames_sendPacket_of (P := P) w payload
  refine ⟨fs, hfs, fun f hf ↦ ⟨fun he ↦ ht ?_, hpay f hf ▸ hl⟩⟩
  rw [← hpay f hf, he] at hp
  exact (Option.some.inj hp).symm

theorem Talks.reports (h : Talks w w') : Reports w w' := by
  obtain ⟨fs, hfs, -, ht⟩ := h
  exact ⟨fs, hfs, fun f hf ↦ (ht f hf).1.2⟩

theorem kexinitPayload_length (cookie : Bytes) :
    (kexinitPayload cookie).length = cookie.length + (kexinitPayload []).length := by
  simp only [kexinitPayload, putNamelist, putCstring, putString_eq, putU8, putU32,
    List.length_append, List.length_nil]
  omega

theorem Reports.sendOurKexinit (w : World) : Reports w (sendOurKexinit P w) := by
  have hhead := buildKexinitPayload_head w
  have hlen : (buildKexinitPayload w).1.length ≤ longest := by
    change (kexinitPayload (randomBytes w 16).1).length ≤ longest
    rw [kexinitPayload_length, randomBytes_length]
    decide +kernel
  have hobs : frames (buildKexinitPayload w).2.obs = frames w.obs :=
    (frames_append w.obs _).trans (List.append_nil _)
  unfold Server.sendOurKexinit
  generalize buildKexinitPayload w = r at hhead hlen hobs ⊢
  have hset : Reports w (r.2.modify fun s ↦ { s with ourKexInit := r.1 }) := .same hobs
  exact hset.trans (.send _ hhead (by decide) hlen)

theorem kexEcdhReplyPayload_short {s : Session} {seed hostPub msg sig : Bytes}
    (hpub : ed25519PubFromSeed P seed = some hostPub) (hsig : ed25519Sign P seed msg = some sig)
    (hs : SharesSized s) :
    (kexEcdhReplyPayload s (buildHostKeyBlob hostPub) sig).length ≤ longest := by
  have hpubLen := ed25519PubFromSeed_length P hpub
  have hsigLen := ed25519Sign_length P hsig
  have halg : (ascii "ssh-ed25519").length = 11 := by decide
  have hserver := hs.server
  simp only [kexEcdhReplyPayload_eq, buildHostKeyBlob_eq, List.length_cons, List.length_append,
    lenPrefixed_length, longest, mlkem768CtBytes] at hserver ⊢
  split at hserver <;> omega

theorem handleKexEcdhInit_reports {body : Bytes} (h : handleKexEcdhInit P w body = (w', true)) :
    Reports w w' := by
  obtain ⟨blob, w₁, w₂, seed, hostPub, sig, -, hstore, hkex, hload, hsig, rfl⟩ :=
    handleKexEcdhInit_true h
  have hpub := loadHostKey_pub hload
  have hshort (hash : Bytes) : (kexEcdhReplyPayload (adoptHash w₂ hash).s
      (buildHostKeyBlob hostPub) sig).length ≤ longest := by
    obtain ⟨hclient, hserver, hsecret⟩ := kexCompute_sized hstore hkex
    refine kexEcdhReplyPayload_short hpub hsig ?_
    rw [adoptHash_s]
    exact ⟨hclient, hserver, hsecret⟩
  obtain ⟨-, -, -, ho₁⟩ := storeClientBlob_keeps hstore
  obtain ⟨-, -, -, hf₂⟩ := kexCompute_keeps (P := P) w₁
  rw [hkex] at hf₂
  have hstart : Reports w w₂ := .same (hf₂.trans (congrArg frames ho₁))
  have hblob : (w₂.s.handshake (buildHostKeyBlob hostPub)).kS = buildHostKeyBlob hostPub := rfl
  generalize w₂.s.handshake (buildHostKeyBlob hostPub) = x at hblob ⊢
  have hadopt : Reports w₂ (adoptHash w₂ (x.hash P)) := by
    refine .same ?_
    rw [adoptHash_obs, frames_append]
    exact List.append_nil _
  have hreply : Reports (adoptHash w₂ (x.hash P)) (sendPacket P (adoptHash w₂ (x.hash P))
      (kexEcdhReplyPayload (adoptHash w₂ (x.hash P)).s x.kS sig)) :=
    .send _ (by rw [kexEcdhReplyPayload_eq]; rfl) (t := msgKexEcdhReply) (by decide)
      (hblob ▸ hshort _)
  refine (hstart.trans hadopt).trans (hreply.trans ?_)
  unfold answered
  simp only
  generalize sendPacket P (adoptHash w₂ (x.hash P)) _ = w₃
  have hnewkeys : Reports w₃ (sendPacket P w₃ [msgNewkeys]) :=
    .send _ (t := msgNewkeys) rfl (by decide) (by decide)
  refine hnewkeys.trans (.same ?_)
  generalize sendPacket P w₃ [msgNewkeys] = w₄
  exact (frames_append w₄.obs [.deriveKeys w₄.s.sessionId]).trans (List.append_nil _)

theorem Takes.reports {payload : Bytes} (h : Takes P w payload w') : Reports w w' := by
  cases h with
  | chat h _ => exact h.talk.reports
  | ended h => exact h.talk.reports
  | kexinit => exact .same rfl
  | exchange _ _ h => exact handleKexEcdhInit_reports h
  | newkeys => exact .same rfl

/-- What a round reads and reports. -/
theorem Reading.hears (h : Reading P w w') :
    openings w'.obs = openings w.obs ∧ Reports w w' ∨
      (w.s.phase ≠ .closed ∧ w.s.phase ≠ .version) ∧ (parsePacket P w = .bad ∨
        ∃ packet payload rest, unframe P w.s.encInbound w.s.c2sKey w.s.seqIn w.s.rxBuf =
            .got payload rest ∧ packet = w.s.rxBuf.take (w.s.rxBuf.length - rest.length) ∧
          openings w'.obs = openings w.obs ++
            [⟨w.s.encInbound, w.s.c2sKey, w.s.seqIn, packet, payload⟩] ∧ Reports w w') := by
  cases h with
  | atEnd h _ => exact .inl ⟨h.openings, h.talk.reports⟩
  | ended h => exact .inl ⟨h.openings, h.talk.reports⟩
  | @hello line rest hp hl =>
    have hset : Reports w (w.modify fun s ↦ { s with peerVersion := line, rxBuf := rest }) :=
      .same rfl
    refine .inl ⟨?_, (hset.trans (.sendOurKexinit _)).trans (.same rfl)⟩
    exact (Deaf.sendOurKexinit P
      (w.modify fun s ↦ { s with peerVersion := line, rxBuf := rest })).openings
  | garbled hp hw => exact .inr ⟨hp, .inl hw⟩
  | @packet w₁ _ payload hp hw ht =>
    obtain ⟨packet, rest, -, hu, hpacket, he⟩ := parsePacket_unpacked hw
    have hstart : Reports w (unpacked w packet payload rest) :=
      .same (frames_unpacked w packet payload rest)
    rw [he] at ht
    refine .inr ⟨hp, .inr ⟨packet, payload, rest, hu, hpacket, ?_, hstart.trans ht.reports⟩⟩
    rw [ht.openings, openings_unpacked]

end

/-- The record only grows. -/
theorem step_grows {P : Primitives} {i : ℤ} (w : World) (e : Event) :
    w.obs <+: (step P i w e).obs := by
  have hstep (a b : World) (ha : w.obs <+: a.obs) (hm : Move P a b) : w.obs <+: b.obs :=
    ha.trans (hm.obs_grows P)
  exact run_invariant hstep (step_moves P i w e) List.prefix_rfl

/-! A client on the other side. -/

section
variable {P : Primitives} {arrived toClient fromServer : Bytes} {sent : List Frame}
  {openedC : List Opening} {marks : List Client.Obs} {oursC ephPub : Bytes} {keysC : Client.Keys}
  {zC x : Option Handshake} {w w' : World}

/-- How a session reads on that is up. -/
theorem Standing.reader (hst : Standing arrived w x) (hl : Listens w) (hp : w.s.phase ≠ .version)
    (hf : Follows P sent (openings w.obs)) (hk : ∀ f ∈ sent, f.enc = true → f.key = w.s.c2sKey)
    (hs : arrived <+: Client.versionLine ++ (sent.map (Frame.bytes P)).flatten) :
    Reader P (openings w.obs) sent w.s.encInbound w.s.c2sKey (w.s.rxBuf ++ w.tcpIn) :=
  ⟨hf, hl, fun _ ↦ hk, (firstLine takeLine_client hs (hst.greeted hp).1).2⟩

variable (P) in
/-- All that has come is read. -/
def Waits (w : World) : Prop :=
  w.tcpIn = [] ∧ if w.s.phase = .version then takeLine w.s.rxBuf = none else
    parsePacket P w = .needMore

variable (P arrived sent openedC) in
/-- A server that has read nothing but what the client sent. -/
structure Hears (w : World) : Prop where
  law : Law P arrived w
  order : InOrder P w
  follows : Follows P sent (openings w.obs)
  answered : heard openedC <+: said (frames w.obs)
  clean : ∀ f ∈ frames w.obs, Orderly f.payload

theorem Hears.grow (h : Hears P arrived sent openedC w) (hlaw : Law P arrived w')
    (horder : InOrder P w') (hf : Follows P sent (openings w'.obs)) (hr : Reports w w') :
    Hears P arrived sent openedC w' := by
  obtain ⟨fs, hfs, hn⟩ := hr
  refine ⟨hlaw, horder, hf, ?_, fun f hm ↦ ?_⟩
  · rw [hfs, said_append]
    exact h.answered.trans (List.prefix_append _ _)
  · rw [hfs] at hm
    exact (List.mem_append.mp hm).elim (h.clean f) (hn f)

section
variable (hP : Commutes P)
  (hc : Client.Record P toClient sent openedC marks oursC ephPub keysC zC) (hsend : Sender sent)
  (hs : arrived <+: Client.versionLine ++ (sent.map (Frame.bytes P)).flatten)
  (htc : toClient <+: Server.versionLine ++ fromServer)

include hc in
/-- The client asks for one exchange only. -/
theorem Hears.once (h : Hears P arrived sent openedC w) : Once (openings w.obs) :=
  (h.follows.payloads.sublist.countP_le).trans hc.once

include hP hc hs htc in
theorem Hears.reader (h : Hears P arrived sent openedC w)
    (hp : w.s.phase ≠ .closed ∧ w.s.phase ≠ .version) :
    Reader P (openings w.obs) sent w.s.encInbound w.s.c2sKey (w.s.rxBuf ++ w.tcpIn) := by
  obtain ⟨z, hr, hup⟩ := h.law (h.once hc)
  obtain ⟨hst, hl⟩ := hup hp.1
  exact hst.reader hl hp.2 h.follows
    (keys_agree hP hc hr hs htc h.follows.payloads h.answered).1 hs

include hP hc hsend hs htc in
theorem Hears.round (h : Hears P arrived sent openedC w)
    (hr : receiveRound P w = .ends w' ∨ receiveRound P w = .goesOn w') :
    Hears P arrived sent openedC w' := by
  have hlaw := h.law.round hr
  have horder := h.order.round hr
  obtain ⟨ho, hrep⟩ | ⟨hp, hparse⟩ := (receiveRound_reading hr).hears
  · exact h.grow hlaw horder (ho ▸ h.follows) hrep
  have hreader := h.reader hP hc hs htc hp
  have hseq : w.s.seqIn = (openings w.obs).length := h.order.receives.next
  have hread := hreader.unframe hsend rfl
  rw [← hseq] at hread
  obtain hbad | ⟨packet, payload, rest, hu, rfl, ho, hrep⟩ := hparse
  · refine absurd ?_ hread.1
    unfold parsePacket at hbad
    split at hbad
    · cases hbad
    · assumption
    · cases hbad
  · refine h.grow hlaw horder ?_ hrep
    rw [ho]
    exact hread.2 payload rest hu

include hP hc hsend hs htc in
theorem Hears.step (h : Hears P arrived sent openedC w) (i : ℤ) {e : Event}
    (he : ∀ data, e ≠ .tcpArrive data) : Hears P arrived sent openedC (step P i w e) := by
  refine step_rule (fun v v' hv hchat ↦ ?_) (fun v hv ↦ ?_) (fun v v' hv hr ↦ ?_) h i he
  · exact hv.grow (hv.law.chats hchat) (hv.order.deaf hchat.toDeaf)
      (hchat.openings ▸ hv.follows) hchat.talk.reports
  · exact ⟨hv.law.fill, ⟨hv.order.sends, hv.order.receives⟩, hv.follows, hv.answered, hv.clean⟩
  · exact hv.round hP hc hsend hs htc hr

/-- A session that has got everything and waits for more knows the client's version. -/
theorem Hears.greeted (h : Hears P arrived sent openedC w) (hr : Once (openings w.obs))
    (hp : w.s.phase ≠ .closed)
    (hall : arrived = Client.versionLine ++ (sent.map (Frame.bytes P)).flatten) (hw : Waits P w) :
    w.s.phase ≠ .version := by
  intro hv
  obtain ⟨htcp, hw⟩ := hw
  obtain ⟨z, -, hup⟩ := h.law hr
  obtain ⟨hst, -⟩ := hup hp
  have hline := takeLine_append takeLine_client (sent.map (Frame.bytes P)).flatten
  rw [← hall, List.nil_append] at hline
  obtain ⟨ha, -⟩ := hst.greeting hv
  rw [htcp, List.append_nil] at ha
  rw [if_pos hv, ← ha, hline] at hw
  cases hw

include hP hc hsend htc in
/-- A session that has got everything and waits for more has read everything. -/
theorem Hears.done (h : Hears P arrived sent openedC w) (hp : w.s.phase ≠ .closed)
    (hall : arrived = Client.versionLine ++ (sent.map (Frame.bytes P)).flatten) (hw : Waits P w) :
    heard (openings w.obs) = said sent := by
  have hv := h.greeted (h.once hc) hp hall hw
  obtain ⟨htcp, hw⟩ := hw
  rw [if_neg hv] at hw
  obtain ⟨z, hr, hup⟩ := h.law (h.once hc)
  obtain ⟨hst, -⟩ := hup hp
  have hline := takeLine_append takeLine_client (sent.map (Frame.bytes P)).flatten
  rw [← hall, List.nil_append] at hline
  have hread := h.reader hP hc (hall ▸ List.prefix_rfl) htc ⟨hp, hv⟩
  obtain ⟨hgreet, -⟩ := hst.greeted hv
  rw [hline, htcp, List.append_nil] at hgreet
  rw [htcp, List.append_nil] at hread
  refine (hread.done hsend (Prod.mk.inj (Option.some.inj hgreet)).2.symm ?_).1
  rw [← h.order.receives.next]
  unfold parsePacket at hw
  split at hw
  · assumption
  · cases hw
  · cases hw

end

end

end Sshd.Server
