import Sshd.Server.Exchange

namespace Sshd.Server

open Lib.Octets Lib.Trace Wire Crypto Framing

/-! What goes over the wire up to the end of the first exchange. -/

/-- One exchange at most is asked for. -/
def Once (opened : List Opening) : Prop :=
  (heard opened).countP (fun p ↦ p.head? = some msgKexEcdhInit) ≤ 1

variable (P : Primitives)

/-- The values of the exchange are those on the wire. -/
structure OnWire (arrived : Bytes) (sent : List Frame) (opened : List Opening) (x : Handshake) :
    Prop where
  clientVersion : ∃ rest, takeLine arrived = some (x.clientVersion, rest)
  serverVersion : x.serverVersion = ourVersionStr
  clientKexinit : x.clientKexinit ∈ heard opened ∧ x.clientKexinit.head? = some msgKexinit
  serverKexinit : x.serverKexinit ∈ said sent ∧ x.serverKexinit.head? = some msgKexinit
  qC : ∃ body, msgKexEcdhInit :: body ∈ heard opened ∧
    (getString (viewInit body)).1 = some x.qC
  agreed : ∃ alg, selectKexAlg x.clientKexinit = some alg ∧ Agreed P alg x

/-- What the packets have to do with the exchange `x`, if it took place. -/
structure Record (arrived : Bytes) (sent : List Frame) (opened : List Opening) (ourKexInit : Bytes)
    (keys : Keys) (x : Option Handshake) : Prop where
  sends : Switches Frame.enc Frame.payload sent
  opens : Switches Opening.enc Opening.payload opened
  spoken : [] ∉ said sent
  proposal : ∀ p ∈ said sent, p.head? = some msgKexinit → p = ourKexInit
  reply : ∀ p ∈ said sent, p.head? = some msgKexEcdhReply → ∃ h ∈ x, Reply P h p
  sealing : ∀ f ∈ sent, f.enc = true → ∃ h ∈ x, f.key = h.key P 68
  onWire : ∀ h ∈ x, OnWire P arrived sent opened h
  keyed : ∀ h ∈ x, keys = ⟨h.hash P, true, h.key P 67, h.key P 68⟩
  fresh : x = none → keys.haveSessionId = false

/-- A session that is up. -/
structure Standing (arrived : Bytes) (w : World) (x : Option Handshake) : Prop where
  speaks : w.s.encOutbound = true ↔ Switched (said (frames w.obs))
  tcp : 0 ≤ w.s.tcp
  ourVersion : w.s.ourVersion = ourVersionStr
  early : x = none → w.s.encOutbound = false ∧ w.s.encInbound = false ∧
    (w.s.phase = .version ∨ w.s.phase = .kexWaitKexinit ∨ w.s.phase = .kexWaitEcdh)
  greeting : w.s.phase = .version → arrived = w.s.rxBuf ++ w.tcpIn ∧ openings w.obs = [] ∧
    ∀ p ∈ said (frames w.obs), p.head? ≠ some msgKexinit
  greeted : w.s.phase ≠ .version →
    takeLine arrived = some (w.s.peerVersion,
      ((openings w.obs).map Opening.packet).flatten ++ (w.s.rxBuf ++ w.tcpIn)) ∧
    w.s.ourKexInit ∈ said (frames w.obs) ∧ w.s.ourKexInit.head? = some msgKexinit
  chosen : w.s.phase = .kexWaitEcdh → w.s.peerKexInit ∈ heard (openings w.obs) ∧
    w.s.peerKexInit.head? = some msgKexinit ∧ selectKexAlg w.s.peerKexInit = some w.s.kexAlg

/-- The session opens packets in the mode they were sent in. -/
def Listens (w : World) : Prop := w.s.encInbound = true ↔ Switched (heard (openings w.obs))

/-- While one exchange at most is asked for, all follows from what is on the wire. -/
def Law (arrived : Bytes) (w : World) : Prop :=
  Once (openings w.obs) → ∃ x,
    Record P arrived (frames w.obs) (openings w.obs) w.s.ourKexInit w.s.keys x ∧
      (w.s.phase ≠ .closed → Standing arrived w x ∧ Listens w)

section
variable {P} {arrived : Bytes} {sent : List Frame} {opened : List Opening} {ourKexInit : Bytes}
  {keys : Keys} {x : Option Handshake}

theorem Once.of_append {os ps : List Opening} (h : Once (os ++ ps)) : Once os := by
  rw [Once, heard_append, List.countP_append] at h
  exact (Nat.le_add_right _ _).trans h

theorem OnWire.mono {h : Handshake} (hw : OnWire P arrived sent opened h) (data : Bytes)
    (fs : List Frame) (os : List Opening) : OnWire P (arrived ++ data) (sent ++ fs) (opened ++ os) h := by
  obtain ⟨rest, hl⟩ := hw.clientVersion
  obtain ⟨body, hb, hq⟩ := hw.qC
  refine ⟨⟨_, takeLine_append hl data⟩, hw.serverVersion, ⟨?_, hw.clientKexinit.2⟩,
    ⟨?_, hw.serverKexinit.2⟩, ⟨body, ?_, hq⟩, hw.agreed⟩
  · rw [heard_append]
    exact List.mem_append_left _ hw.clientKexinit.1
  · rw [said_append]
    exact List.mem_append_left _ hw.serverKexinit.1
  · rw [heard_append]
    exact List.mem_append_left _ hb

/-- More arrives, or is sent or opened. -/
theorem Record.mono (h : Record P arrived sent opened ourKexInit keys x) (data : Bytes)
    (fs : List Frame) (os : List Opening) (hs : Switches Frame.enc Frame.payload (sent ++ fs))
    (ho : Switches Opening.enc Opening.payload (opened ++ os)) (hn : [] ∉ said fs)
    (hp : ∀ p ∈ said fs, p.head? = some msgKexinit → p = ourKexInit)
    (hr : ∀ p ∈ said fs, p.head? = some msgKexEcdhReply → ∃ y ∈ x, Reply P y p)
    (hk : ∀ f ∈ fs, f.enc = true → ∃ y ∈ x, f.key = y.key P 68) :
    Record P (arrived ++ data) (sent ++ fs) (opened ++ os) ourKexInit keys x where
  sends := hs
  opens := ho
  spoken hm := by
    rw [said_append, List.mem_append] at hm
    exact hm.elim h.spoken hn
  proposal p hm := by
    rw [said_append, List.mem_append] at hm
    exact hm.elim (h.proposal p) (hp p)
  reply p hm := by
    rw [said_append, List.mem_append] at hm
    exact hm.elim (h.reply p) (hr p)
  sealing f hm := (List.mem_append.mp hm).elim (h.sealing f) (hk f)
  onWire y hy := (h.onWire y hy).mono data fs os
  keyed := h.keyed
  fresh := h.fresh

theorem Record.arrive (h : Record P arrived sent opened ourKexInit keys x) (data : Bytes) :
    Record P (arrived ++ data) sent opened ourKexInit keys x := by
  have hm := h.mono data [] [] (by simpa using h.sends) (by simpa using h.opens)
    nofun nofun nofun nofun
  rwa [List.append_nil, List.append_nil] at hm

theorem Record.say (h : Record P arrived sent opened ourKexInit keys x) {f : Frame}
    (henc : f.enc = true ↔ Switched (said sent))
    (hkey : f.enc = true → ∃ y ∈ x, f.key = y.key P 68) (hn : f.payload ≠ [])
    (hk : f.payload.head? = some msgKexinit → f.payload = ourKexInit)
    (hr : f.payload.head? = some msgKexEcdhReply → ∃ y ∈ x, Reply P y f.payload) :
    Record P arrived (sent ++ [f]) opened ourKexInit keys x := by
  have hm := h.mono [] [f] [] (h.sends.snoc henc) (by simpa using h.opens)
    (by simpa [said, eq_comm] using hn) (by simpa [said] using hk) (by simpa [said] using hr)
    (by simpa using hkey)
  rwa [List.append_nil, List.append_nil] at hm

theorem Record.hear (h : Record P arrived sent opened ourKexInit keys x) {o : Opening}
    (henc : o.enc = true ↔ Switched (heard opened)) :
    Record P arrived sent (opened ++ [o]) ourKexInit keys x := by
  have hm := h.mono [] [] [o] (by simpa using h.sends) (h.opens.snoc henc)
    nofun nofun nofun nofun
  rwa [List.append_nil, List.append_nil] at hm

/-- Talk that has nothing to do with the exchange. -/
theorem Record.talk (h : Record P arrived sent opened ourKexInit keys x) {enc : Bool} {key : Bytes}
    (henc : enc = true ↔ Switched (said sent)) (hkey : enc = true → ∃ y ∈ x, key = y.key P 68)
    {fs : List Frame} (hfs : ∀ f ∈ fs, Aloof f.payload ∧ f.enc = enc ∧ f.key = key) :
    Record P arrived (sent ++ fs) opened ourKexInit keys x ∧
      (Switched (said (sent ++ fs)) ↔ Switched (said sent)) := by
  have hother {b : UInt8} (hb : b ∈ [msgKexinit, msgNewkeys, msgKexEcdhReply]) {f : Frame}
      (hf : f ∈ fs) : f.payload.head? ≠ some b := by
    obtain ⟨⟨t, ht, hout⟩, -⟩ := hfs f hf
    intro hp
    rw [ht] at hp
    exact hout (Option.some.inj hp ▸ hb)
  have hsaid {b : UInt8} (hb : b ∈ [msgKexinit, msgNewkeys, msgKexEcdhReply]) (p : Bytes)
      (hp : p ∈ said fs) : p.head? ≠ some b := by
    obtain ⟨f, hf, rfl⟩ := List.mem_map.mp hp
    exact hother hb hf
  obtain ⟨hs, hsw⟩ := h.sends.talk henc fun f hf ↦
    ⟨(hfs f hf).2.1, hother (b := msgNewkeys) (by decide) hf⟩
  have hm := h.mono [] fs [] hs (by simpa using h.opens) (fun hn ↦ ?_)
    (fun p hp hh ↦ absurd hh (hsaid (by decide) p hp))
    (fun p hp hh ↦ absurd hh (hsaid (by decide) p hp)) fun f hf hh ↦ ?_
  · rw [List.append_nil, List.append_nil] at hm
    exact ⟨hm, hsw⟩
  · obtain ⟨f, hf, he⟩ := List.mem_map.mp hn
    obtain ⟨⟨t, ht, -⟩, -⟩ := hfs f hf
    rw [he] at ht
    cases ht
  · rw [(hfs f hf).2.2]
    exact hkey ((hfs f hf).2.1 ▸ hh)

end

/-! Steps. -/

section
variable {P} {arrived : Bytes} {w w' : World} {x : Option Handshake}

theorem Standing.sealing (h : Standing arrived w x)
    (hr : Record P arrived (frames w.obs) (openings w.obs) w.s.ourKexInit w.s.keys x)
    (he : w.s.encOutbound = true) : ∃ y ∈ x, w.s.s2cKey = y.key P 68 := by
  cases x with
  | none =>
    have hearly := (h.early rfl).1
    rw [he] at hearly
    cases hearly
  | some y => exact ⟨y, rfl, congrArg Keys.s2cKey (hr.keyed y rfl)⟩

/-- Outside of an exchange. -/
theorem Standing.chats (h : Standing arrived w x) (hc : Chats w w') (hopen : w'.s.phase ≠ .closed)
    (hspeak : Switched (said (frames w'.obs)) ↔ Switched (said (frames w.obs)))
    (hsaid : ∀ p ∈ said (frames w'.obs), p ∈ said (frames w.obs) ∨ p.head? ≠ some msgKexinit) :
    Standing arrived w' x := by
  have hphase : (w'.s.phase, w'.s.tcp) = (w.s.phase, w.s.tcp) ∨
      w.s.phase = .auth ∧ (w'.s.phase, w'.s.tcp) = (.run, w.s.tcp) := by
    rcases hc.phase with he | he | he
    · exact .inl he
    · exact absurd he hopen
    · exact .inr he
  have hback (p : Phase) (hp : p ≠ .run) (he : w'.s.phase = p) : w.s.phase = p := by
    rcases hphase with h' | ⟨-, h'⟩
    · exact (Prod.mk.inj h').1.symm.trans he
    · exact absurd (he.symm.trans (Prod.mk.inj h').1) hp
  have hkeep {α : Type} (f : Kex → α) : f w'.s.kex = f w.s.kex := congrArg f hc.kex
  constructor
  · rw [hspeak, ← h.speaks]
    exact Eq.congr_left (hkeep Kex.encOutbound)
  · rcases hphase with h' | ⟨-, h'⟩
    · exact (Prod.mk.inj h').2.symm ▸ h.tcp
    · exact (Prod.mk.inj h').2.symm ▸ h.tcp
  · exact (hkeep Kex.ourVersion).trans h.ourVersion
  · intro hx
    obtain ⟨he, hi, hp⟩ := h.early hx
    refine ⟨(hkeep Kex.encOutbound).trans he, (hkeep Kex.encInbound).trans hi, ?_⟩
    rcases hphase with h' | ⟨ha, -⟩
    · rw [(Prod.mk.inj h').1]
      exact hp
    · rw [ha] at hp
      simp at hp
  · intro hp
    obtain ⟨ha, ho, hn⟩ := h.greeting (hback _ (by decide) hp)
    rw [hc.rxBuf, hc.tcpIn, hc.openings]
    refine ⟨ha, ho, fun p hm ↦ ?_⟩
    rcases hsaid p hm with hm | hm
    · exact hn p hm
    · exact hm
  · intro hp
    have hne : w.s.phase ≠ .version := fun he ↦ by
      rcases hphase with h' | ⟨ha, -⟩
      · exact hp ((Prod.mk.inj h').1.trans he)
      · cases ha.symm.trans he
    obtain ⟨hl, hk, ht⟩ := h.greeted hne
    have hours : w'.s.ourKexInit = w.s.ourKexInit := hkeep Kex.ourKexInit
    have hpeer : w'.s.peerVersion = w.s.peerVersion := hkeep Kex.peerVersion
    obtain ⟨fs, hfs, -⟩ := hc.talk
    rw [hc.rxBuf, hc.tcpIn, hc.openings, hours, hpeer, hfs, said_append]
    exact ⟨hl, List.mem_append_left _ hk, ht⟩
  · intro hp
    have hpeer : w'.s.peerKexInit = w.s.peerKexInit := hkeep Kex.peerKexInit
    have halg : w'.s.kexAlg = w.s.kexAlg := hkeep Kex.kexAlg
    rw [hpeer, halg, hc.openings]
    exact h.chosen (hback _ (by decide) hp)

/-- Talk outside of an exchange, for as long as the session is up. -/
theorem Record.talks {kexinit : Bytes} {keys : Keys}
    (hr : Record P arrived (frames w.obs) (openings w.obs) kexinit keys x)
    (hs : w.s.phase ≠ .closed → (w.s.encOutbound = true ↔ Switched (said (frames w.obs))) ∧
      (w.s.encOutbound = true → ∃ y ∈ x, w.s.s2cKey = y.key P 68))
    (ht : Talks w w') :
    Record P arrived (frames w'.obs) (openings w.obs) kexinit keys x ∧
      (Switched (said (frames w'.obs)) ↔ Switched (said (frames w.obs))) ∧
      ∀ p ∈ said (frames w'.obs), p ∈ said (frames w.obs) ∨ p.head? ≠ some msgKexinit := by
  obtain ⟨fs, hfs, hn, ht⟩ := ht
  rw [hfs]
  by_cases hc : w.s.phase = .closed
  · rw [hn hc, List.append_nil]
    exact ⟨hr, Iff.rfl, fun p hp ↦ .inl hp⟩
  · obtain ⟨hspeak, hkey⟩ := hs hc
    obtain ⟨hr', hsw⟩ := hr.talk hspeak hkey fun f hf ↦ ⟨(ht f hf).1.1, (ht f hf).2⟩
    refine ⟨hr', hsw, fun p hp ↦ ?_⟩
    rw [said_append, List.mem_append] at hp
    refine hp.imp_right fun hp ↦ ?_
    obtain ⟨f, hf, rfl⟩ := List.mem_map.mp hp
    obtain ⟨⟨⟨t, hhead, hout⟩, -⟩, -⟩ := ht f hf
    rw [hhead]
    intro he
    exact hout (by rw [Option.some.inj he]; decide)

theorem Record.chats
    (hr : Record P arrived (frames w.obs) (openings w.obs) w.s.ourKexInit w.s.keys x)
    (hs : w.s.phase ≠ .closed → Standing arrived w x) (hc : Chats w w') :
    Record P arrived (frames w'.obs) (openings w'.obs) w'.s.ourKexInit w'.s.keys x ∧
      (w'.s.phase ≠ .closed → Standing arrived w' x) := by
  obtain ⟨hr', hsw, hsaid⟩ := hr.talks (fun hp ↦ ⟨(hs hp).speaks, (hs hp).sealing hr⟩) hc.talk
  have hours : w'.s.ourKexInit = w.s.ourKexInit := congrArg Kex.ourKexInit hc.kex
  rw [hc.openings, hours, hc.keys]
  exact ⟨hr', fun hopen ↦ (hs fun hp ↦ hopen (hc.phase.closed hp)).chats hc hopen hsw hsaid⟩

theorem Law.chats (h : Law P arrived w) (hc : Chats w w') : Law P arrived w' := by
  intro hone
  obtain ⟨x, hr, hs⟩ := h (hc.openings ▸ hone)
  obtain ⟨hr', hs'⟩ := hr.chats (fun hp ↦ (hs hp).1) hc
  have henc : w'.s.encInbound = w.s.encInbound := congrArg Kex.encInbound hc.kex
  refine ⟨x, hr', fun hopen ↦ ⟨hs' hopen, ?_⟩⟩
  rw [Listens, henc, hc.openings]
  exact (hs fun hp ↦ hopen (hc.phase.closed hp)).2

theorem Law.fill (h : Law P arrived w) :
    Law P arrived { w with s := { w.s with rxBuf := w.s.rxBuf ++ w.tcpIn }, tcpIn := [] } := by
  intro hone
  obtain ⟨x, hr, hs⟩ := h hone
  refine ⟨x, hr, fun hopen ↦ ?_⟩
  obtain ⟨hst, hl⟩ := hs hopen
  refine ⟨{ hst with greeting := fun hp ↦ ?_, greeted := fun hp ↦ ?_ }, hl⟩
  · simpa using hst.greeting hp
  · simpa using hst.greeted hp

theorem Law.arrive (h : Law P arrived w) (data : Bytes) :
    Law P (arrived ++ data) { w with tcpIn := w.tcpIn ++ data } := by
  intro hone
  obtain ⟨x, hr, hs⟩ := h hone
  refine ⟨x, hr.arrive data, fun hopen ↦ ?_⟩
  obtain ⟨hst, hl⟩ := hs hopen
  refine ⟨{ hst with greeting := fun hp ↦ ?_, greeted := fun hp ↦ ?_ }, hl⟩
  · obtain ⟨ha, ho⟩ := hst.greeting hp
    refine ⟨?_, ho⟩
    rw [ha, List.append_assoc]
  · obtain ⟨hline, hk⟩ := hst.greeted hp
    refine ⟨?_, hk⟩
    have hmore := takeLine_append hline data
    simpa [List.append_assoc] using hmore

/-- The server's proposal goes out. -/
theorem sendOurKexinit_sends (hopen : ¬(w.s.phase = .closed ∨ w.s.tcp < 0)) :
    ∃ payload f, payload.head? = some msgKexinit ∧ f.payload = payload ∧
      f.enc = w.s.encOutbound ∧ f.key = w.s.s2cKey ∧
      frames (sendOurKexinit P w).obs = frames w.obs ++ [f] ∧
      (sendOurKexinit P w).s = { w.s with ourKexInit := payload, seqOut := w.s.seqOut + 1 } := by
  have hhead := buildKexinitPayload_head w
  have hobs : frames (buildKexinitPayload w).2.obs = frames w.obs :=
    (frames_append w.obs _).trans (List.append_nil _)
  have hs : (buildKexinitPayload w).2.s = w.s := rfl
  unfold sendOurKexinit
  generalize buildKexinitPayload w = r at hhead hobs hs ⊢
  obtain ⟨payload, w₁⟩ := r
  change w₁.s = w.s at hs
  have hopen₁ : ¬((w₁.modify fun s ↦ { s with ourKexInit := payload }).s.phase = .closed ∨
      (w₁.modify fun s ↦ { s with ourKexInit := payload }).s.tcp < 0) := by
    rw [modify_s, hs]
    exact hopen
  refine ⟨payload, sendFrame (w₁.modify fun s ↦ { s with ourKexInit := payload }) payload, hhead,
    rfl, ?_, ?_, ?_, ?_⟩
  · change w₁.s.encOutbound = _
    rw [hs]
  · change w₁.s.s2cKey = _
    rw [hs]
  · exact (frames_sendPacket hopen₁ payload).trans (congrArg (· ++ _) hobs)
  · refine (sendPacket_s P _ payload).trans ?_
    rw [if_neg hopen₁, modify_s, hs]

theorem Law.hello (h : Law P arrived w) {line rest : Bytes} (hp : w.s.phase = .version)
    (hl : takeLine w.s.rxBuf = some (line, rest)) : Law P arrived (greeted P w line rest) := by
  have hup : w.s.phase ≠ .closed := by
    rw [hp]
    nofun
  have hdeaf := Deaf.sendOurKexinit P (w.modify fun s ↦ { s with peerVersion := line, rxBuf := rest })
  have hopen : 0 ≤ w.s.tcp →
      ¬((w.modify fun s ↦ { s with peerVersion := line, rxBuf := rest }).s.phase = .closed ∨
        (w.modify fun s ↦ { s with peerVersion := line, rxBuf := rest }).s.tcp < 0) :=
    fun ht hc ↦ hc.elim hup (not_lt.mpr ht)
  have hsends := fun ht ↦ sendOurKexinit_sends (P := P) (hopen ht)
  unfold greeted
  generalize sendOurKexinit P (w.modify fun s ↦ { s with peerVersion := line, rxBuf := rest }) = v
    at hdeaf hsends ⊢
  have hopens : openings v.obs = openings w.obs := hdeaf.openings
  intro hone
  change Once (openings v.obs) at hone
  rw [hopens] at hone
  obtain ⟨x, hr, hs⟩ := h hone
  obtain ⟨hst, hlisten⟩ := hs hup
  obtain ⟨payload, f, hhead, rfl, henc, hkey, hframes, hvs⟩ := hsends hst.tcp
  obtain ⟨ha, ho, hn⟩ := hst.greeting hp
  change frames v.obs = frames w.obs ++ [f] at hframes
  have hnew : Record P arrived (frames w.obs ++ [f]) (openings w.obs) f.payload w.s.keys x := by
    refine { hr with proposal := fun p hp hh ↦ absurd hh (hn p hp) }.say ?_ ?_ ?_ (fun _ ↦ rfl) ?_
    · rw [henc]
      exact hst.speaks
    · rw [henc, hkey]
      exact hst.sealing hr
    · rintro he
      rw [he] at hhead
      cases hhead
    · rw [hhead]
      intro he
      cases he
  refine ⟨x, ?_, fun _ ↦ ⟨?_, ?_⟩⟩
  · change Record P arrived (frames v.obs) (openings v.obs) v.s.ourKexInit v.s.keys x
    rw [hframes, hopens, hvs]
    exact hnew
  · have htcpIn : v.tcpIn = w.tcpIn := hdeaf.tcpIn
    constructor
    · change v.s.encOutbound = true ↔ Switched (said (frames v.obs))
      rw [hframes, hvs, said_append, switched_append]
      refine hst.speaks.trans (or_iff_left fun hsw ↦ ?_).symm
      cases hhead.symm.trans (switched_singleton.mp hsw)
    · change 0 ≤ v.s.tcp
      rw [hvs]
      exact hst.tcp
    · change v.s.ourVersion = _
      rw [hvs]
      exact hst.ourVersion
    · intro hx
      change v.s.encOutbound = false ∧ v.s.encInbound = false ∧ _
      rw [hvs]
      exact ⟨(hst.early hx).1, (hst.early hx).2.1, .inr (.inl rfl)⟩
    · nofun
    · intro _
      change takeLine arrived = some (v.s.peerVersion,
        ((openings v.obs).map Opening.packet).flatten ++ (v.s.rxBuf ++ v.tcpIn)) ∧
          v.s.ourKexInit ∈ said (frames v.obs) ∧ v.s.ourKexInit.head? = _
      rw [hopens, ho, htcpIn, hframes, hvs, ha]
      refine ⟨takeLine_append hl _, ?_, hhead⟩
      rw [said_append]
      exact List.mem_append_right _ (List.mem_singleton_self _)
    · nofun
  · change v.s.encInbound = true ↔ Switched (heard (openings v.obs))
    rw [hopens, hvs]
    exact hlisten

/-! Packets. -/

/-- The session that has taken a packet out of its buffer. -/
def unpacked (w : World) (packet payload rest : Bytes) : World :=
  let w := (w.note (.opened w.s.encInbound w.s.c2sKey w.s.seqIn packet payload)).modify
    fun s ↦ { s with rxBuf := rest, seqIn := s.seqIn + 1 }
  w.note (.dispatch w.s payload)

theorem parsePacket_unpacked {w₁ : World} {payload : Bytes} (h : parsePacket P w = .got payload w₁) :
    ∃ packet rest, packet ++ rest = w.s.rxBuf ∧
      unframe P w.s.encInbound w.s.c2sKey w.s.seqIn w.s.rxBuf = .got payload rest ∧
      packet = w.s.rxBuf.take (w.s.rxBuf.length - rest.length) ∧
      w₁.note (.dispatch w₁.s payload) = unpacked w packet payload rest := by
  unfold parsePacket at h
  split at h
  · cases h
  · cases h
  · rename_i rest hu
    cases h
    exact ⟨_, rest, (unframe_front P hu).1, hu, rfl, rfl⟩

section
variable (w) (packet payload rest : Bytes)

theorem frames_unpacked : frames (unpacked w packet payload rest).obs = frames w.obs :=
  (frames_append (w.obs ++ [_]) [_]).trans
    ((List.append_nil _).trans ((frames_append w.obs [_]).trans (List.append_nil _)))

theorem openings_unpacked : openings (unpacked w packet payload rest).obs =
    openings w.obs ++ [⟨w.s.encInbound, w.s.c2sKey, w.s.seqIn, packet, payload⟩] :=
  (openings_append (w.obs ++ [_]) [_]).trans
    ((List.append_nil _).trans (openings_append w.obs [_]))

theorem heard_unpacked : heard (openings (unpacked w packet payload rest).obs) =
    heard (openings w.obs) ++ [payload] := by
  rw [openings_unpacked, heard_append]
  rfl

end

theorem Standing.unpacked (h : Standing arrived w x) {packet rest : Bytes}
    (hp : w.s.phase ≠ .version) (hb : packet ++ rest = w.s.rxBuf) (payload : Bytes) :
    Standing arrived (unpacked w packet payload rest) x := by
  obtain ⟨hl, hk⟩ := h.greeted hp
  constructor
  · rw [frames_unpacked]
    exact h.speaks
  · exact h.tcp
  · exact h.ourVersion
  · exact h.early
  · exact fun he ↦ absurd he hp
  · intro _
    rw [frames_unpacked, openings_unpacked]
    refine ⟨?_, hk⟩
    rw [hl, ← hb]
    simp [Server.unpacked]
  · intro he
    obtain ⟨hm, hc⟩ := h.chosen he
    rw [heard_unpacked]
    exact ⟨List.mem_append_left _ hm, hc⟩

/-- A first exchange comes of what was heard before it. -/
theorem Standing.onWire (h : Standing arrived w x) (hp : w.s.phase = .kexWaitEcdh) {body : Bytes}
    (hb : msgKexEcdhInit :: body ∈ heard (openings w.obs)) {y : Handshake}
    (ha : Agreed P w.s.kexAlg y) (hq : (getString (viewInit body)).1 = some y.qC)
    (hy : (y.clientVersion, y.serverVersion, y.clientKexinit, y.serverKexinit) =
      (w.s.peerVersion, w.s.ourVersion, w.s.peerKexInit, w.s.ourKexInit)) :
    OnWire P arrived (frames w.obs) (openings w.obs) y := by
  simp only [Prod.mk.injEq] at hy
  obtain ⟨hvc, hvs, hic, his⟩ := hy
  obtain ⟨hl, hk⟩ := h.greeted (by rw [hp]; nofun)
  obtain ⟨hm, hh, hs⟩ := h.chosen hp
  refine ⟨⟨_, hvc ▸ hl⟩, hvs.trans h.ourVersion, ?_, ?_, ⟨body, hb, hq⟩, _, ?_, ha⟩
  · rw [hic]
    exact ⟨hm, hh⟩
  · rw [his]
    exact hk
  · rw [hic]
    exact hs

/-- The first exchange goes on record. -/
theorem Record.exchanged {y : Handshake}
    (hr : Record P arrived (frames w.obs) (openings w.obs) w.s.ourKexInit w.s.keys none)
    (hst : Standing arrived w none) (hw : OnWire P arrived (frames w.obs) (openings w.obs) y)
    (he : Exchanged P w y w') :
    Record P arrived (frames w'.obs) (openings w'.obs) w'.s.ourKexInit w'.s.keys (some y) ∧
      Switched (said (frames w'.obs)) := by
  obtain ⟨f, g, hfg, hreply, hg, hf, hgm⟩ := he.sent
  obtain ⟨henc, hkey⟩ := Prod.mk.inj hf
  obtain ⟨henc', hkey'⟩ := Prod.mk.inj hgm
  have hours : w'.s.ourKexInit = w.s.ourKexInit := (Prod.mk.inj (Prod.mk.inj he.said).2).2
  have hplain : w.s.encOutbound = false := (hst.early rfl).1
  have hsilent : ¬Switched (said (frames w.obs)) := fun hs ↦ by
    rw [hst.speaks.mpr hs] at hplain
    cases hplain
  have hhead : f.payload.head? = some msgKexEcdhReply := by
    obtain ⟨_, _, _, -, -, -, hp⟩ := hreply
    rw [hp]
    rfl
  rw [hfg, he.openings, hours, he.keys, List.append_cons]
  have hsome : Record P arrived (frames w.obs) (openings w.obs) w.s.ourKexInit
      ⟨y.hash P, true, y.key P 67, y.key P 68⟩ (some y) := by
    refine ⟨hr.sends, hr.opens, hr.spoken, hr.proposal, fun p hp hh ↦ ?_, fun f hf hh ↦ ?_, ?_, ?_,
      nofun⟩
    · obtain ⟨_, hn, -⟩ := hr.reply p hp hh
      cases hn
    · obtain ⟨_, hn, -⟩ := hr.sealing f hf hh
      cases hn
    · rintro _ ⟨⟩
      exact hw
    · rintro _ ⟨⟩
      rfl
  have hfirst := hsome.say (f := f) (by rw [henc, hplain]; simpa using hsilent)
    (fun hh ↦ by rw [henc, hplain] at hh; cases hh) (fun hh ↦ by rw [hh] at hhead; cases hhead)
    (fun hh ↦ by cases hhead.symm.trans hh) fun _ ↦ ⟨y, rfl, hreply⟩
  have hstill : Switched (said (frames w.obs ++ [f])) ↔ Switched (said (frames w.obs)) := by
    rw [said_append]
    refine switched_snoc ?_
    rw [hhead]
    nofun
  refine ⟨hfirst.say ?_ (fun hh ↦ ?_) (by rw [hg]; nofun) (fun hh ↦ ?_) fun hh ↦ ?_, ?_⟩
  · rw [henc', hplain, hstill]
    simpa using hsilent
  · rw [henc', hplain] at hh
    cases hh
  · rw [hg] at hh
    cases hh
  · rw [hg] at hh
    cases hh
  · rw [said_append, switched_append]
    refine .inr (switched_singleton.mpr ?_)
    rw [hg]
    rfl

theorem Standing.exchanged {y : Handshake} (hst : Standing arrived w x)
    (hp : w.s.phase = .kexWaitEcdh) (he : Exchanged P w y w')
    (hsw : Switched (said (frames w'.obs))) : Standing arrived w' (some y) := by
  obtain ⟨f, g, hfg, -⟩ := he.sent
  obtain ⟨hpeer, hsaid⟩ := Prod.mk.inj he.said
  obtain ⟨hver, hours⟩ := Prod.mk.inj hsaid
  obtain ⟨hl, hk, ht⟩ := hst.greeted (by rw [hp]; nofun)
  constructor
  · rw [(Prod.mk.inj he.modes).2]
    simpa using hsw
  · rw [he.tcp]
    exact hst.tcp
  · exact hver.trans hst.ourVersion
  · nofun
  · rw [he.phase]
    nofun
  · intro _
    rw [hpeer, hours, he.openings, he.rxBuf, he.tcpIn, hfg, said_append]
    exact ⟨hl, List.mem_append_left _ hk, ht⟩
  · rw [he.phase]
    nofun

/-- A second exchange would not be the first. -/
theorem OnWire.once {y : Handshake} (h : OnWire P arrived (frames w.obs) (openings w.obs) y)
    {body : Bytes} {o : Opening} (ho : o.payload = msgKexEcdhInit :: body) :
    ¬Once (openings w.obs ++ [o]) := by
  obtain ⟨body', hb, -⟩ := h.qC
  intro hone
  have hpos : 0 < (heard (openings w.obs)).countP (fun p ↦ p.head? = some msgKexEcdhInit) :=
    List.countP_pos_iff.mpr ⟨_, hb, by simp⟩
  rw [Once, heard_append, List.countP_append] at hone
  have hlast : (heard [o]).countP (fun p ↦ p.head? = some msgKexEcdhInit) = 1 := by
    simp [heard, ho]
  omega

theorem Takes.openings {payload : Bytes} (h : Takes P w payload w') :
    openings w'.obs = openings w.obs := by
  cases h with
  | chat h _ => exact h.openings
  | ended h => exact h.openings
  | kexinit => rfl
  | @exchange w' body _ _ h =>
    have hd := Deaf.handleKexEcdhInit P w body
    rw [h] at hd
    exact hd.openings
  | newkeys => rfl

theorem Law.packet (h : Law P arrived w) (hp : w.s.phase ≠ .closed ∧ w.s.phase ≠ .version)
    {packet payload rest : Bytes} (hb : packet ++ rest = w.s.rxBuf)
    (ht : Takes P (unpacked w packet payload rest) payload w') : Law P arrived w' := by
  intro hone
  have hopens := openings_unpacked w packet payload rest
  have hheard := heard_unpacked w packet payload rest
  rw [ht.openings, hopens] at hone
  obtain ⟨x, hr, hs⟩ := h hone.of_append
  obtain ⟨hst, hl⟩ := hs hp.1
  have hr₂ : Record P arrived (frames (unpacked w packet payload rest).obs)
      (openings (unpacked w packet payload rest).obs)
      (unpacked w packet payload rest).s.ourKexInit (unpacked w packet payload rest).s.keys x := by
    rw [frames_unpacked, hopens]
    exact hr.hear hl
  have hst₂ := hst.unpacked hp.2 hb payload
  have hl₂ : (unpacked w packet payload rest).s.encInbound = true ↔
      Switched (heard (openings w.obs)) := hl
  generalize hw₂ : unpacked w packet payload rest = w₂ at ht hopens hheard hr₂ hst₂ hl₂
  have hquiet (hn : payload.head? ≠ some msgNewkeys) :
      w₂.s.encInbound = true ↔ Switched (heard (openings w₂.obs)) := by
    rw [hheard, switched_snoc hn]
    exact hl₂
  cases ht with
  | chat hc hn =>
    obtain ⟨hr', hs'⟩ := hr₂.chats (fun _ ↦ hst₂) hc
    refine ⟨x, hr', fun hopen ↦ ⟨hs' hopen, ?_⟩⟩
    have henc : w'.s.encInbound = w₂.s.encInbound := congrArg Kex.encInbound hc.kex
    rw [Listens, henc, hc.openings]
    exact hquiet fun he ↦ hopen (hn _ (by decide) he)
  | ended he =>
    obtain ⟨hr', -⟩ := hr₂.talks (fun _ ↦ ⟨hst₂.speaks, hst₂.sealing hr₂⟩) he.talk
    refine ⟨x, ?_, fun hopen ↦ absurd he.closed hopen⟩
    rw [he.openings, he.ourKexInit, he.keys]
    exact hr'
  | kexinit alg ht hsel hp' =>
    refine ⟨x, hr₂, fun _ ↦ ⟨⟨hst₂.speaks, hst₂.tcp, hst₂.ourVersion, fun hx ↦ ?_, nofun,
      fun _ ↦ ?_, fun _ ↦ ⟨?_, ht, hsel⟩⟩, ?_⟩⟩
    · exact ⟨(hst₂.early hx).1, (hst₂.early hx).2.1, .inr (.inr rfl)⟩
    · refine hst₂.greeted fun he ↦ ?_
      rw [he] at hp'
      simp at hp'
    · change payload ∈ heard (openings w₂.obs)
      rw [hheard]
      exact List.mem_append_right _ (List.mem_singleton_self _)
    · refine hquiet fun hn ↦ ?_
      cases ht.symm.trans hn
  | @exchange _ body ht hp' he =>
    -- the exchange before it would have been another one
    obtain rfl : x = none := by
      cases x with
      | none => rfl
      | some y => exact absurd hone ((hr.onWire y rfl).once ht)
    have hopen : ¬(w₂.s.phase = .closed ∨ w₂.s.tcp < 0) := by
      rintro (hc | hc)
      · cases hp'.symm.trans hc
      · exact not_lt.mpr hst₂.tcp hc
    obtain ⟨y, hy, hagreed, hqC, hsaid⟩ := handleKexEcdhInit_exchanged he (hr₂.fresh rfl) hopen
    have hmem : msgKexEcdhInit :: body ∈ heard (openings w₂.obs) := by
      rw [hheard, ht]
      exact List.mem_append_right _ (List.mem_singleton_self _)
    obtain ⟨hr', hsw⟩ := hr₂.exchanged hst₂ (hst₂.onWire hp' hmem hagreed hqC hsaid) hy
    refine ⟨some y, hr', fun _ ↦ ⟨hst₂.exchanged hp' hy hsw, ?_⟩⟩
    rw [Listens, (Prod.mk.inj hy.modes).1, hy.openings]
    refine hquiet ?_
    rw [ht]
    exact fun hn ↦ absurd (Option.some.inj hn) (by decide)
  | newkeys ht hp' =>
    refine ⟨x, hr₂, fun _ ↦ ⟨⟨hst₂.speaks, hst₂.tcp, hst₂.ourVersion, fun hx ↦ ?_, nofun,
      fun _ ↦ ?_, nofun⟩, ?_⟩⟩
    · have hearly := (hst₂.early hx).2.2
      rw [hp'] at hearly
      simp at hearly
    · exact hst₂.greeted (by rw [hp']; nofun)
    · refine iff_of_true rfl ?_
      change Switched (heard (openings w₂.obs))
      rw [hheard, switched_append]
      exact .inr (switched_singleton.mpr ht)

theorem Law.round (h : Law P arrived w)
    (hr : receiveRound P w = .ends w' ∨ receiveRound P w = .goesOn w') : Law P arrived w' := by
  cases receiveRound_reading hr with
  | atEnd hc _ => exact h.chats hc
  | ended he =>
    intro hone
    rw [he.openings] at hone
    obtain ⟨x, hr, hs⟩ := h hone
    obtain ⟨hr', -⟩ := hr.talks (fun hp ↦ ⟨(hs hp).1.speaks, (hs hp).1.sealing hr⟩) he.talk
    refine ⟨x, ?_, fun hopen ↦ absurd he.closed hopen⟩
    rw [he.openings, he.ourKexInit, he.keys]
    exact hr'
  | hello hp hl => exact h.hello hp hl
  | garbled hp _ =>
    intro hone
    have hopens : openings (sendDisconnect P w 2 "framing error").obs = openings w.obs :=
      (Deaf.sendDisconnect P w 2 "framing error").openings
    rw [hopens] at hone
    obtain ⟨x, hr, hs⟩ := h hone
    obtain ⟨hst, -⟩ := hs hp.1
    have hframes : frames (sendDisconnect P w 2 "framing error").obs =
        frames w.obs ++ [sendFrame w (disconnect 2 "framing error")] :=
      (frames_append _ [_]).trans ((List.append_nil _).trans
        (frames_sendPacket (fun hc ↦ hc.elim hp.1 (not_lt.mpr hst.tcp)) _))
    refine ⟨x, ?_, fun hopen ↦ absurd rfl hopen⟩
    have hkept : (sendDisconnect P w 2 "framing error").s.kex = w.s.kex := by
      change (sendPacket P w (disconnect 2 "framing error")).s.kex = _
      rw [sendPacket_s]
      rfl
    have hours : (sendDisconnect P w 2 "framing error").s.ourKexInit = w.s.ourKexInit :=
      congrArg Kex.ourKexInit hkept
    have hkeys : (sendDisconnect P w 2 "framing error").s.keys = w.s.keys :=
      congrArg (fun k : Kex ↦ (⟨k.sessionId, k.haveSessionId, k.c2sKey, k.s2cKey⟩ : Keys)) hkept
    rw [hopens, hframes, hours, hkeys]
    refine (hr.talk hst.speaks (hst.sealing hr) fun f hf ↦ ?_).1
    obtain rfl := List.mem_singleton.mp hf
    exact ⟨⟨msgDisconnect, rfl, by decide⟩, rfl, rfl⟩
  | @packet w₁ _ payload hp hw ht =>
    obtain ⟨packet, rest, hb, -, -, he⟩ := parsePacket_unpacked hw
    rw [he] at ht
    exact h.packet hp hb ht

theorem Law.step (h : Law P arrived w) (i : ℤ) {e : Event} (he : ∀ data, e ≠ .tcpArrive data) :
    Law P arrived (step P i w e) :=
  step_rule (fun _ _ h hc ↦ h.chats hc) (fun _ h ↦ h.fill) (fun _ _ h hr ↦ h.round hr) h i he

end

/-- A connection that was just accepted. -/
theorem law_accepted (i : ℤ) (env : Env) {tcp : ℤ} (ht : 0 ≤ tcp) :
    Law P [] (accepted i env tcp) := by
  have hfresh : Law P [] ⟨env, { reset with slot := i, tcp := tcp, ourVersion := ourVersionStr },
      Function.update (fun _ ↦ false) i true, [], fun _ ↦ [], [.accept tcp i]⟩ := by
    intro _
    refine ⟨none, ⟨.nil, .nil, nofun, nofun, nofun, nofun, nofun, nofun, fun _ ↦ rfl⟩, fun _ ↦ ⟨?_, ?_⟩⟩
    · exact ⟨iff_of_false nofun not_switched_nil, ht, rfl, fun _ ↦ ⟨rfl, rfl, .inl rfl⟩,
        fun _ ↦ ⟨rfl, rfl, nofun⟩, fun h ↦ absurd rfl h, nofun⟩
    · exact iff_of_false nofun not_switched_nil
  exact hfresh.chats (Chats.sendRawTcp _ _)

end Sshd.Server
