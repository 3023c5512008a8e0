import Sshd.Synchrony
import Sshd.Client.Reading

namespace Sshd.Client

open Lib.Octets Lib.Trace Wire Crypto Framing

/-! What goes over the wire up to the end of the exchange. -/

/-- The stream with the lines in front of the server's version line skipped. -/
inductive Skips : Bytes → Bytes → Prop
  | none (stream : Bytes) : Skips stream stream
  | line {stream line rest out : Bytes} (hl : takeLine stream = some (line, rest))
      (hs : line.take 4 ≠ ascii "SSH-") (h : Skips rest out) : Skips stream out

variable (P : Primitives)

/-- The values of the exchange are those on the wire, and `K` is the client's. -/
structure OnWire (arrived : Bytes) (sent : List Frame) (opened : List Opening) (x : Handshake) :
    Prop where
  clientVersion : x.clientVersion = ourVersionStr
  serverVersion : ∃ mid rest, Skips arrived mid ∧ takeLine mid = some (x.serverVersion, rest) ∧
    x.serverVersion.take 4 = ascii "SSH-"
  clientKexinit : x.clientKexinit ∈ said sent ∧ x.clientKexinit.head? = some msgKexinit
  serverKexinit : x.serverKexinit ∈ heard opened ∧ x.serverKexinit.head? = some msgKexinit
  qC : putString (putU8 [] msgKexEcdhInit) x.qC ∈ said sent
  shared : ∃ priv, Shared P priv x.qC x.qS x.k

/-- The reply that the values of the exchange come from. -/
def Answered (opened : List Opening) (x : Handshake) (hpub sig64 : Bytes) : Prop :=
  ∃ pkt ∈ heard opened, pkt.head? = some msgKexEcdhReply ∧ Replied pkt x.kS x.qS hpub sig64

/-- What the packets have to do with the exchange `x`, if it took place. -/
structure Record (arrived : Bytes) (sent : List Frame) (opened : List Opening) (marks : List Obs)
    (ourKexInit ephPub : Bytes) (keys : Keys) (x : Option Handshake) : Prop where
  sends : Switches Frame.enc Frame.payload sent
  opens : Switches Opening.enc Opening.payload opened
  proposal : ∀ p ∈ said sent, p.head? = some msgKexinit →
    p = ourKexInit ∧ ∃ cookie, cookie.length = 16 ∧ p = putKexinit cookie
  share : ∀ p ∈ said sent, p.head? = some msgKexEcdhInit →
    p = putString (putU8 [] msgKexEcdhInit) ephPub
  once : (said sent).countP (fun p ↦ p.head? = some msgKexEcdhInit) ≤ 1
  sealing : ∀ f ∈ sent, f.enc = true → ∃ h ∈ x, f.key = h.key P 67
  onWire : ∀ h ∈ x, OnWire P arrived sent opened h ∧ ∃ hpub sig64, Answered opened h hpub sig64 ∧
    .verify hpub (h.hash P) sig64 true ∈ marks
  keyed : ∀ h ∈ x, keys = ⟨h.hash P, h.key P 67, h.key P 68⟩
  verdicts : ∀ pub msg sig ok, .verify pub msg sig ok ∈ marks →
    ok = ed25519Verify P pub msg sig ∧ ∃ h : Handshake, msg = h.hash P ∧
      OnWire P arrived sent opened h ∧ Answered opened h pub sig

/-- A session that is up. -/
structure Standing (arrived : Bytes) (w : World) (x : Option Handshake) : Prop where
  speaks : w.cs.encOut = true ↔ Switched (said (frames w.obs))
  ourVersion : w.cs.ourVersion = ourVersionStr
  early : x = none → w.cs.encOut = false ∧ w.cs.encIn = false ∧
    (w.pc = .version ∨ w.pc = .kexinit ∨ w.pc = .kexEcdhReply)
  late : x ≠ none → w.pc = .newkeys ∨ w.pc.stage.Keyed
  listening : w.pc.stage.Keyed → w.cs.encIn = true
  greeting : w.pc = .version → Skips arrived (w.cs.rxBuf ++ w.tcpIn) ∧ openings w.obs = [] ∧
    ∀ p ∈ said (frames w.obs), p.head? ≠ some msgKexinit
  greeted : w.pc ≠ .version →
    (∃ mid, Skips arrived mid ∧ takeLine mid = some (w.cs.peerVersion,
      ((openings w.obs).map Opening.packet).flatten ++ (w.cs.rxBuf ++ w.tcpIn)) ∧
        w.cs.peerVersion.take 4 = ascii "SSH-") ∧
    w.cs.ourKexInit ∈ said (frames w.obs) ∧ w.cs.ourKexInit.head? = some msgKexinit
  unshared : w.pc = .version ∨ w.pc = .kexinit →
    ∀ p ∈ said (frames w.obs), p.head? ≠ some msgKexEcdhInit
  shared : w.pc = .kexEcdhReply →
    (w.cs.peerKexInit ∈ heard (openings w.obs) ∧ w.cs.peerKexInit.head? = some msgKexinit) ∧
    putString (putU8 [] msgKexEcdhInit) w.cs.ephPub ∈ said (frames w.obs) ∧
    x25519Base P w.cs.ephPriv = some w.cs.ephPub

/-- The session opens packets in the mode they were sent in. -/
def Listens (w : World) : Prop := w.cs.encIn = true ↔ Switched (heard (openings w.obs))

def OnRecord (arrived : Bytes) (w : World) (x : Option Handshake) : Prop :=
  Record P arrived (frames w.obs) (openings w.obs) (notices w.obs) w.cs.ourKexInit w.cs.ephPub
    w.cs.keys x

/-- All follows from what is on the wire. -/
def Law (arrived : Bytes) (w : World) : Prop :=
  ∃ x, OnRecord P arrived w x ∧ (w.pc ≠ .finished → Standing P arrived w x ∧ Listens w)

section
variable {P} {arrived : Bytes} {sent : List Frame} {opened : List Opening} {marks : List Obs}
  {ourKexInit ephPub : Bytes} {keys : Keys} {x : Option Handshake}

theorem Skips.append {stream out : Bytes} (h : Skips stream out) (more : Bytes) :
    Skips (stream ++ more) (out ++ more) := by
  induction h with
  | none stream => exact .none _
  | line hl hs _ ih => exact .line (takeLine_append hl more) hs ih

theorem Skips.snoc {stream out line rest : Bytes} (h : Skips stream out)
    (hl : takeLine out = some (line, rest)) (hs : line.take 4 ≠ ascii "SSH-") :
    Skips stream rest := by
  induction h with
  | none stream => exact .line hl hs (.none _)
  | line hl' hs' _ ih => exact .line hl' hs' (ih hl)

theorem OnWire.mono {h : Handshake} (hw : OnWire P arrived sent opened h) (data : Bytes)
    (fs : List Frame) (os : List Opening) :
    OnWire P (arrived ++ data) (sent ++ fs) (opened ++ os) h := by
  obtain ⟨mid, rest, hsk, hl, hs⟩ := hw.serverVersion
  refine ⟨hw.clientVersion, ⟨_, _, hsk.append data, takeLine_append hl data, hs⟩,
    ⟨?_, hw.clientKexinit.2⟩, ⟨?_, hw.serverKexinit.2⟩, ?_, hw.shared⟩
  · rw [said_append]
    exact List.mem_append_left _ hw.clientKexinit.1
  · rw [heard_append]
    exact List.mem_append_left _ hw.serverKexinit.1
  · rw [said_append]
    exact List.mem_append_left _ hw.qC

theorem Answered.mono {h : Handshake} {hpub sig64 : Bytes} (ha : Answered opened h hpub sig64)
    (os : List Opening) : Answered (opened ++ os) h hpub sig64 := by
  obtain ⟨pkt, hm, hp⟩ := ha
  refine ⟨pkt, ?_, hp⟩
  rw [heard_append]
  exact List.mem_append_left _ hm

/-- More arrives, or is sent or opened. -/
theorem Record.mono (h : Record P arrived sent opened marks ourKexInit ephPub keys x) (data : Bytes)
    (fs : List Frame) (os : List Opening) (hs : Switches Frame.enc Frame.payload (sent ++ fs))
    (ho : Switches Opening.enc Opening.payload (opened ++ os))
    (hp : ∀ p ∈ said fs, p.head? = some msgKexinit →
      p = ourKexInit ∧ ∃ cookie, cookie.length = 16 ∧ p = putKexinit cookie)
    (hq : ∀ p ∈ said fs, p.head? ≠ some msgKexEcdhInit)
    (hk : ∀ f ∈ fs, f.enc = true → ∃ h ∈ x, f.key = h.key P 67) :
    Record P (arrived ++ data) (sent ++ fs) (opened ++ os) marks ourKexInit ephPub keys x where
  sends := hs
  opens := ho
  proposal p hm := by
    rw [said_append, List.mem_append] at hm
    exact hm.elim (h.proposal p) (hp p)
  share p hm hh := by
    rw [said_append, List.mem_append] at hm
    exact hm.elim (fun hm ↦ h.share p hm hh) fun hm ↦ absurd hh (hq p hm)
  once := by
    have hnone : (said fs).countP (fun p ↦ p.head? = some msgKexEcdhInit) = 0 :=
      List.countP_eq_zero.mpr fun p hm ↦ by simpa using hq p hm
    rw [said_append, List.countP_append, hnone]
    exact h.once
  sealing f hm := by
    exact (List.mem_append.mp hm).elim (h.sealing f) (hk f)
  onWire y hy := by
    obtain ⟨hw, hpub, sig64, ha, hv⟩ := h.onWire y hy
    exact ⟨hw.mono data fs os, hpub, sig64, ha.mono os, hv⟩
  keyed := h.keyed
  verdicts pub msg sig ok hm := by
    obtain ⟨hok, y, hy, hw, ha⟩ := h.verdicts pub msg sig ok hm
    exact ⟨hok, y, hy, hw.mono data fs os, ha.mono os⟩

theorem Record.arrive (h : Record P arrived sent opened marks ourKexInit ephPub keys x)
    (data : Bytes) : Record P (arrived ++ data) sent opened marks ourKexInit ephPub keys x := by
  have hm := h.mono data [] [] (by simpa using h.sends) (by simpa using h.opens)
    nofun nofun nofun
  rwa [List.append_nil, List.append_nil] at hm

theorem Record.say (h : Record P arrived sent opened marks ourKexInit ephPub keys x) {f : Frame}
    (henc : f.enc = true ↔ Switched (said sent))
    (hkey : f.enc = true → ∃ y ∈ x, f.key = y.key P 67)
    (hp : f.payload.head? = some msgKexinit →
      f.payload = ourKexInit ∧ ∃ cookie, cookie.length = 16 ∧ f.payload = putKexinit cookie)
    (hq : f.payload.head? ≠ some msgKexEcdhInit) :
    Record P arrived (sent ++ [f]) opened marks ourKexInit ephPub keys x := by
  have hm := h.mono [] [f] [] (h.sends.snoc henc) (by simpa using h.opens)
    (by simpa [said] using hp) (by simpa [said] using hq) (by simpa using hkey)
  rwa [List.append_nil, List.append_nil] at hm

theorem Record.hear (h : Record P arrived sent opened marks ourKexInit ephPub keys x) {o : Opening}
    (henc : o.enc = true ↔ Switched (heard opened)) :
    Record P arrived sent (opened ++ [o]) marks ourKexInit ephPub keys x := by
  have hm := h.mono [] [] [o] (by simpa using h.sends) (h.opens.snoc henc)
    nofun nofun nofun
  rwa [List.append_nil, List.append_nil] at hm

/-- More goes on record, but no further verdict. -/
theorem Record.mark (h : Record P arrived sent opened marks ourKexInit ephPub keys x) {o : Obs}
    (ho : ∀ pub msg sig ok, o ≠ .verify pub msg sig ok) :
    Record P arrived sent opened (marks ++ [o]) ourKexInit ephPub keys x := by
  refine { h with onWire := fun y hy ↦ ?_, verdicts := fun pub msg sig ok hm ↦ ?_ }
  · obtain ⟨hw, hpub, sig64, ha, hv⟩ := h.onWire y hy
    exact ⟨hw, hpub, sig64, ha, List.mem_append_left _ hv⟩
  · exact h.verdicts pub msg sig ok ((List.mem_append.mp hm).resolve_right fun hm ↦
      ho pub msg sig ok (List.mem_singleton.mp hm).symm)

/-- Talk that has nothing to do with the exchange. -/
theorem Record.talk (h : Record P arrived sent opened marks ourKexInit ephPub keys x) {enc : Bool}
    {key : Bytes} (henc : enc = true ↔ Switched (said sent))
    (hkey : enc = true → ∃ y ∈ x, key = y.key P 67) {fs : List Frame}
    (hfs : ∀ f ∈ fs, Aloof f.payload ∧ f.enc = enc ∧ f.key = key) :
    Record P arrived (sent ++ fs) opened marks ourKexInit ephPub keys x ∧
      (Switched (said (sent ++ fs)) ↔ Switched (said sent)) := by
  have hother {b : UInt8} (hb : b ∈ [msgKexinit, msgNewkeys, msgKexEcdhInit]) {f : Frame}
      (hf : f ∈ fs) : f.payload.head? ≠ some b := by
    obtain ⟨⟨t, ht, hout⟩, -⟩ := hfs f hf
    intro hp
    rw [ht] at hp
    exact hout (Option.some.inj hp ▸ hb)
  have hsaid {b : UInt8} (hb : b ∈ [msgKexinit, msgNewkeys, msgKexEcdhInit]) (p : Bytes)
      (hp : p ∈ said fs) : p.head? ≠ some b := by
    obtain ⟨f, hf, rfl⟩ := List.mem_map.mp hp
    exact hother hb hf
  obtain ⟨hs, hsw⟩ := h.sends.talk henc fun f hf ↦
    ⟨(hfs f hf).2.1, hother (b := msgNewkeys) (by decide) hf⟩
  have hm := h.mono [] fs [] hs (by simpa using h.opens)
    (fun p hp hh ↦ absurd hh (hsaid (by decide) p hp)) (hsaid (by decide)) fun f hf hh ↦ ?_
  · rw [List.append_nil, List.append_nil] at hm
    exact ⟨hm, hsw⟩
  · rw [(hfs f hf).2.2]
    exact hkey ((hfs f hf).2.1 ▸ hh)

end

/-! Steps. -/

theorem Pc.not_keyed {pc : Pc} (h : pc = .version ∨ pc = .kexinit ∨ pc = .kexEcdhReply ∨
    pc = .newkeys ∨ pc = .finished) : ¬pc.stage.Keyed := by
  obtain rfl | rfl | rfl | rfl | rfl := h <;> simp [Pc.stage, Stage.Keyed]

section
variable {P} {arrived : Bytes} {w w' : World} {x : Option Handshake}

theorem Standing.sealing (h : Standing P arrived w x) (hr : OnRecord P arrived w x)
    (he : w.cs.encOut = true) : ∃ y ∈ x, w.cs.sendKey = y.key P 67 := by
  cases x with
  | none =>
    have hearly := (h.early rfl).1
    rw [he] at hearly
    cases hearly
  | some y => exact ⟨y, rfl, congrArg Keys.sendKey (hr.keyed y rfl)⟩

/-- Outside of an exchange. -/
theorem Standing.chats (h : Standing P arrived w x) (hc : Chats w w')
    (hp : w'.pc = w.pc ∨ w.pc.stage.Keyed ∧ w'.pc.stage.Keyed)
    (hspeak : Switched (said (frames w'.obs)) ↔ Switched (said (frames w.obs)))
    (hsaid : ∀ p ∈ said (frames w'.obs), p ∈ said (frames w.obs) ∨
      p.head? ≠ some msgKexinit ∧ p.head? ≠ some msgKexEcdhInit) : Standing P arrived w' x := by
  have hkeep {α : Type} (f : Kex → α) : f w'.cs.kex = f w.cs.kex := congrArg f hc.kex
  have hback {pc : Pc} (hn : ¬pc.stage.Keyed) (he : w'.pc = pc) : w.pc = pc := by
    obtain h' | ⟨-, h'⟩ := hp
    · exact h'.symm.trans he
    · exact absurd (he ▸ h') hn
  have hnew : ∀ p ∈ said (frames w.obs), p ∈ said (frames w'.obs) := by
    obtain ⟨fs, hfs, -⟩ := hc.talk
    intro p hm
    rw [hfs, said_append]
    exact List.mem_append_left _ hm
  constructor
  · rw [hspeak, ← h.speaks]
    exact Eq.congr_left (hkeep Kex.encOut)
  · exact (hkeep Kex.ourVersion).trans h.ourVersion
  · intro hx
    obtain ⟨he, hi, hpc⟩ := h.early hx
    refine ⟨(hkeep Kex.encOut).trans he, (hkeep Kex.encIn).trans hi, ?_⟩
    obtain h' | ⟨h', -⟩ := hp
    · rw [h']
      exact hpc
    · refine absurd h' (Pc.not_keyed ?_)
      exact hpc.imp_right (Or.imp_right .inl)
  · intro hx
    obtain h' | ⟨-, h'⟩ := hp
    · rw [h']
      exact h.late hx
    · exact .inr h'
  · intro hk
    refine (hkeep Kex.encIn).trans (h.listening ?_)
    obtain h' | ⟨h', -⟩ := hp
    · exact h' ▸ hk
    · exact h'
  · intro he
    obtain ⟨ha, ho, hn⟩ := h.greeting (hback (Pc.not_keyed (.inl rfl)) he)
    rw [hc.rxBuf, hc.tcpIn, hc.openings]
    refine ⟨ha, ho, fun p hm ↦ ?_⟩
    obtain hm | hm := hsaid p hm
    · exact hn p hm
    · exact hm.1
  · intro he
    have hne : w.pc ≠ .version := fun hv ↦ by
      obtain h' | ⟨h', -⟩ := hp
      · exact he (h'.trans hv)
      · exact Pc.not_keyed (.inl rfl) (hv ▸ h')
    obtain ⟨hl, hk, ht⟩ := h.greeted hne
    have hours : w'.cs.ourKexInit = w.cs.ourKexInit := hkeep Kex.ourKexInit
    have hpeer : w'.cs.peerVersion = w.cs.peerVersion := hkeep Kex.peerVersion
    rw [hc.rxBuf, hc.tcpIn, hc.openings, hours, hpeer]
    exact ⟨hl, hnew _ hk, ht⟩
  · intro he p hm
    have he' : w.pc = .version ∨ w.pc = .kexinit :=
      he.imp (hback (Pc.not_keyed (.inl rfl))) (hback (Pc.not_keyed (.inr (.inl rfl))))
    obtain hm | hm := hsaid p hm
    · exact h.unshared he' p hm
    · exact hm.2
  · intro he
    obtain ⟨hk, hm, hb⟩ := h.shared (hback (Pc.not_keyed (.inr (.inr (.inl rfl)))) he)
    have hpeer : w'.cs.peerKexInit = w.cs.peerKexInit := hkeep Kex.peerKexInit
    have hpriv : w'.cs.ephPriv = w.cs.ephPriv := hkeep Kex.ephPriv
    have hpub : w'.cs.ephPub = w.cs.ephPub := hkeep Kex.ephPub
    rw [hpeer, hpriv, hpub, hc.openings]
    exact ⟨hk, hnew _ hm, hb⟩

theorem OnRecord.chats (hr : OnRecord P arrived w x)
    (hs : Standing P arrived w x) (hc : Chats w w')
    (hp : w'.pc = .finished ∨ w'.pc = w.pc ∨ w.pc.stage.Keyed) :
    OnRecord P arrived w' x ∧ (w'.pc ≠ .finished → Standing P arrived w' x) := by
  obtain ⟨fs, hfs, ht⟩ := hc.talk
  have hours : w'.cs.ourKexInit = w.cs.ourKexInit := congrArg Kex.ourKexInit hc.kex
  have hpub : w'.cs.ephPub = w.cs.ephPub := congrArg Kex.ephPub hc.kex
  have hkeys : w'.cs.keys = w.cs.keys :=
    congrArg (fun k : Kex ↦ (⟨k.sessionId, k.sendKey, k.recvKey⟩ : Keys)) hc.kex
  obtain ⟨hr', hsw⟩ := Record.talk hr hs.speaks (hs.sealing hr) ht
  refine ⟨?_, fun hne ↦ hs.chats hc ?_ (hfs ▸ hsw) fun p hm ↦ ?_⟩
  · rw [OnRecord, hfs, hc.openings, hc.notices, hours, hpub, hkeys]
    exact hr'
  · obtain h' | h' | h' := hc.pc
    · exact .inl h'
    · exact absurd h' hne
    · obtain hf | he | hk := hp
      · exact absurd hf hne
      · exact .inl he
      · exact .inr ⟨hk, h'⟩
  · rw [hfs, said_append, List.mem_append] at hm
    refine hm.imp_right fun hm ↦ ?_
    obtain ⟨f, hf, rfl⟩ := List.mem_map.mp hm
    obtain ⟨⟨t, hhead, hout⟩, -⟩ := ht f hf
    rw [hhead]
    constructor
    · exact fun he ↦ hout (by rw [Option.some.inj he]; decide)
    · exact fun he ↦ hout (by rw [Option.some.inj he]; decide)

/-- Without keys nothing in the record is about them. -/
theorem Record.keyless {sent : List Frame} {opened : List Opening} {marks : List Obs}
    {ourKexInit ephPub : Bytes} {keys : Keys}
    (h : Record P arrived sent opened marks ourKexInit ephPub keys none) (keys' : Keys) :
    Record P arrived sent opened marks ourKexInit ephPub keys' none := { h with keyed := nofun }

theorem OnRecord.ended (hr : OnRecord P arrived w none) (he : Ended w w') :
    OnRecord P arrived w' none := by
  rw [OnRecord, he.frames, he.openings, he.notices, he.ourKexInit, he.ephPub]
  exact hr.keyless _

/-- The client may settle on a proposal as long as it has made none. -/
theorem Record.propose {sent : List Frame} {opened : List Opening} {marks : List Obs}
    {ourKexInit ephPub : Bytes} {keys : Keys}
    (h : Record P arrived sent opened marks ourKexInit ephPub keys none)
    (hn : ∀ p ∈ said sent, p.head? ≠ some msgKexinit) (proposal : Bytes) :
    Record P arrived sent opened marks proposal ephPub keys none :=
  { h with proposal := fun p hm hh ↦ absurd hh (hn p hm) }

/-- No keys are there while the exchange goes on. -/
theorem Standing.unkeyed (h : Standing P arrived w x)
    (hp : w.pc = .version ∨ w.pc = .kexinit ∨ w.pc = .kexEcdhReply) : x = none := by
  by_contra hx
  obtain hn | hk := h.late hx
  · rw [hn] at hp
    simp at hp
  · exact Pc.not_keyed (hp.imp_right (Or.imp_right .inl)) hk

/-- The client's share goes out. -/
theorem Record.offer {sent : List Frame} {opened : List Opening} {marks : List Obs}
    {ourKexInit ephPub : Bytes} {keys : Keys}
    (h : Record P arrived sent opened marks ourKexInit ephPub keys none) {f : Frame} {pub : Bytes}
    (henc : f.enc = false) (hsilent : ¬Switched (said sent))
    (hn : ∀ p ∈ said sent, p.head? ≠ some msgKexEcdhInit)
    (hf : f.payload = putString (putU8 [] msgKexEcdhInit) pub) :
    Record P arrived (sent ++ [f]) opened marks ourKexInit pub keys none where
  sends := h.sends.snoc (by rw [henc]; exact iff_of_false nofun hsilent)
  opens := h.opens
  proposal p hm hh := by
    rw [said_append, List.mem_append] at hm
    obtain hm | hm := hm
    · exact h.proposal p hm hh
    · obtain rfl := List.mem_singleton.mp hm
      rw [hf, putString_eq] at hh
      cases hh
  share p hm hh := by
    rw [said_append, List.mem_append] at hm
    obtain hm | hm := hm
    · exact absurd hh (hn p hm)
    · obtain rfl := List.mem_singleton.mp hm
      exact hf
  once := by
    have hnone : (said sent).countP (fun p ↦ p.head? = some msgKexEcdhInit) = 0 :=
      List.countP_eq_zero.mpr fun p hm ↦ by simpa using hn p hm
    rw [said_append, List.countP_append, hnone, Nat.zero_add]
    exact List.countP_le_length
  sealing g hm hh := by
    obtain hm | hm := List.mem_append.mp hm
    · exact h.sealing g hm hh
    · obtain rfl := List.mem_singleton.mp hm
      rw [henc] at hh
      cases hh
  onWire := nofun
  keyed := nofun
  verdicts pub msg sig ok hm := by
    obtain ⟨hok, y, hy, hw, ha⟩ := h.verdicts pub msg sig ok hm
    have hw' := hw.mono [] [f] []
    have ha' := ha.mono []
    rw [List.append_nil, List.append_nil] at hw'
    rw [List.append_nil] at ha'
    exact ⟨hok, y, hy, hw', ha'⟩

/-- What sending a packet adds to the record. -/
theorem sendPacket_adds (w : World) (payload : Bytes) :
    frames (sendPacket P w payload).obs = frames w.obs ++ [sendFrame w payload] ∧
      openings (sendPacket P w payload).obs = openings w.obs ∧
      notices (sendPacket P w payload).obs = notices w.obs := by
  refine ⟨?_, (Deaf.send P w payload).openings, ?_⟩
  · rw [sendPacket_obs, frames_append, frames_sendObs]
  · rw [sendPacket_obs, notices_append, notices_sendObs, List.append_nil]

theorem Law.offer {pkt priv pub : Bytes} (hr : OnRecord P arrived w x)
    (hst : Standing P arrived w x) (hl : Listens w) (hp : w.pc = .kexinit)
    (hm : pkt ∈ heard (openings w.obs) ∧ pkt.head? = some msgKexinit)
    (hb : x25519Base P priv = some pub) :
    Law P arrived ((sendPacket P (ephemeral (w.modify fun cs ↦ { cs with peerKexInit := pkt }) priv
      pub) (putString (putU8 [] msgKexEcdhInit) pub)).goto .kexEcdhReply) := by
  obtain rfl := hst.unkeyed (.inr (.inl hp))
  obtain ⟨henc, hin, -⟩ := hst.early rfl
  have hsilent : ¬Switched (said (frames w.obs)) := fun hs ↦ by
    rw [hst.speaks.mpr hs] at henc
    cases henc
  obtain ⟨hline, hours⟩ := hst.greeted (by rw [hp]; nofun)
  have he : ∃ w₁, ephemeral (w.modify fun cs ↦ { cs with peerKexInit := pkt }) priv pub = w₁ ∧
      w₁.cs = { w.cs with peerKexInit := pkt, ephPriv := priv, ephPub := pub } ∧
      w₁.tcpIn = w.tcpIn ∧ frames w₁.obs = frames w.obs ∧ openings w₁.obs = openings w.obs ∧
      notices w₁.obs = notices w.obs :=
    ⟨_, rfl, rfl, rfl, (frames_append w.obs [_]).trans (List.append_nil _),
      (openings_append w.obs [_]).trans (List.append_nil _),
      (notices_append w.obs [_]).trans (List.append_nil _)⟩
  obtain ⟨w₁, hw₁, hcs, ht₁, hf₁, ho₁, hn₁⟩ := he
  rw [hw₁]
  obtain ⟨hf, ho, hn⟩ := sendPacket_adds (P := P) w₁ (putString (putU8 [] msgKexEcdhInit) pub)
  have ht := (Deaf.send P w₁ (putString (putU8 [] msgKexEcdhInit) pub)).tcpIn.trans ht₁
  have hs := sendPacket_cs P w₁ (putString (putU8 [] msgKexEcdhInit) pub)
  have hfe : (sendFrame w₁ (putString (putU8 [] msgKexEcdhInit) pub)).enc = false := by
    change w₁.cs.encOut = false
    rw [hcs]
    exact henc
  have hfp : (sendFrame w₁ (putString (putU8 [] msgKexEcdhInit) pub)).payload =
    putString (putU8 [] msgKexEcdhInit) pub := rfl
  rw [hf₁] at hf
  rw [ho₁] at ho
  rw [hn₁] at hn
  rw [hcs] at hs
  generalize sendFrame w₁ (putString (putU8 [] msgKexEcdhInit) pub) = f at hf hfe hfp
  generalize sendPacket P w₁ (putString (putU8 [] msgKexEcdhInit) pub) = v at hf ho hn hs ht
  have hhead : f.payload.head? = some msgKexEcdhInit := by
    rw [hfp, putString_eq]
    rfl
  refine ⟨none, ?_, fun _ ↦ ⟨⟨?_, ?_, ?_, ?_, ?_, ?_, ?_, ?_, ?_⟩, ?_⟩⟩
  · change Record P arrived (frames v.obs) (openings v.obs) (notices v.obs) v.cs.ourKexInit
      v.cs.ephPub v.cs.keys none
    rw [hf, ho, hn, hs]
    exact hr.offer hfe hsilent (hst.unshared (.inr hp)) hfp
  · change v.cs.encOut = true ↔ Switched (said (frames v.obs))
    rw [hs, hf, said_append]
    refine hst.speaks.trans (switched_snoc ?_).symm
    rw [hhead]
    nofun
  · change v.cs.ourVersion = _
    rw [hs]
    exact hst.ourVersion
  · intro _
    change v.cs.encOut = false ∧ v.cs.encIn = false ∧ _
    rw [hs]
    exact ⟨henc, hin, .inr (.inr rfl)⟩
  · exact fun hx ↦ absurd rfl hx
  · exact fun hk ↦ absurd hk (Pc.not_keyed (.inr (.inr (.inl rfl))))
  · nofun
  · intro _
    change (∃ mid, Skips arrived mid ∧ takeLine mid = some (v.cs.peerVersion,
      ((openings v.obs).map Opening.packet).flatten ++ (v.cs.rxBuf ++ v.tcpIn)) ∧
        v.cs.peerVersion.take 4 = ascii "SSH-") ∧
      v.cs.ourKexInit ∈ said (frames v.obs) ∧ v.cs.ourKexInit.head? = _
    rw [hs, hf, ho, ht, said_append]
    exact ⟨hline, List.mem_append_left _ hours.1, hours.2⟩
  · rintro (h | h) <;> cases h
  · intro _
    change (v.cs.peerKexInit ∈ heard (openings v.obs) ∧ v.cs.peerKexInit.head? = _) ∧
      putString _ v.cs.ephPub ∈ said (frames v.obs) ∧ x25519Base P v.cs.ephPriv = some v.cs.ephPub
    rw [hs, hf, ho, said_append, ← hfp]
    exact ⟨hm, List.mem_append_right _ (List.mem_singleton_self _), hb⟩
  · change v.cs.encIn = true ↔ Switched (heard (openings v.obs))
    rw [hs, ho]
    exact hl

/-- The exchange that the client has checked. -/
def judgedExchange (w : World) (ks qs k : Bytes) : Handshake :=
  (exchanged P w ks qs k).cs.handshake ks

theorem judged_sessionId (w : World) (ks qs k : Bytes) :
    (exchanged P w ks qs k).cs.sessionId = (judgedExchange (P := P) w ks qs k).hash P :=
  computeExchangeHash_eq _ ks

theorem Standing.onWire (h : Standing P arrived w x) (hp : w.pc = .kexEcdhReply) {qs k : Bytes}
    (ks : Bytes) (hx : x25519Scalar P w.cs.ephPriv qs = some k) :
    OnWire P arrived (frames w.obs) (openings w.obs) (judgedExchange (P := P) w ks qs k) := by
  obtain ⟨⟨mid, hsk, hl, hs⟩, hours⟩ := h.greeted (by rw [hp]; nofun)
  obtain ⟨hk, hm, hb⟩ := h.shared hp
  exact ⟨h.ourVersion, ⟨mid, _, hsk, hl, hs⟩, hours, hk, hm, w.cs.ephPriv, hb, k, hx, rfl⟩

theorem OnRecord.judge {pkt ks qs hpub sig64 k : Bytes} (hr : OnRecord P arrived w none)
    (hst : Standing P arrived w none) (hp : w.pc = .kexEcdhReply)
    (hm : pkt ∈ heard (openings w.obs) ∧ pkt.head? = some msgKexEcdhReply)
    (hrep : Replied pkt ks qs hpub sig64) (hx : x25519Scalar P w.cs.ephPriv qs = some k) {ok : Bool}
    (hv : ok = ed25519Verify P hpub (exchanged P w ks qs k).cs.sessionId sig64) :
    OnRecord P arrived (judged P w ks qs k hpub sig64 ok) none ∧
      Answered (openings w.obs) (judgedExchange (P := P) w ks qs k) hpub sig64 := by
  have hanswer : Answered (openings w.obs) (judgedExchange (P := P) w ks qs k) hpub sig64 :=
    ⟨pkt, hm.1, hm.2, hrep⟩
  have hframes : frames (judged P w ks qs k hpub sig64 ok).obs = frames w.obs :=
    (frames_append w.obs [_]).trans (List.append_nil _)
  have hopens : openings (judged P w ks qs k hpub sig64 ok).obs = openings w.obs :=
    (openings_append w.obs [_]).trans (List.append_nil _)
  have hnotes : notices (judged P w ks qs k hpub sig64 ok).obs =
      notices w.obs ++ [.verify hpub (exchanged P w ks qs k).cs.sessionId sig64 ok] :=
    notices_append w.obs [_]
  refine ⟨?_, hanswer⟩
  rw [OnRecord, hframes, hopens, hnotes]
  refine { hr.keyless _ with onWire := nofun, verdicts := fun pub msg sig ok' hm' ↦ ?_ }
  obtain hm' | hm' := List.mem_append.mp hm'
  · exact hr.verdicts pub msg sig ok' hm'
  · obtain ⟨rfl, rfl, rfl, rfl⟩ := Obs.verify.inj (List.mem_singleton.mp hm')
    exact ⟨hv, _, judged_sessionId w ks qs k, hst.onWire hp ks hx, hanswer⟩

/-- The keys of an exchange. -/
theorem keyed_keys {y : Handshake} (hid : w.cs.sessionId = y.hash P)
    (hk : mpintOctets w.cs.sharedK = y.k) :
    (keyed P w).cs.keys = ⟨y.hash P, y.key P 67, y.key P 68⟩ := by
  have hkey (cs : Csess) (letter : UInt8) (hs : cs.sessionId = w.cs.sessionId)
      (hu : cs.sharedK = w.cs.sharedK) : deriveKey P cs letter 64 = y.key P letter := by
    rw [client_sessionKey, hs, hu, hid, hk]
    rfl
  rw [keyed_cs]
  change Keys.mk w.cs.sessionId (deriveKey P w.cs 67 64)
    (deriveKey P { w.cs with sendKey := deriveKey P w.cs 67 64 } 68 64) = _
  rw [hkey w.cs 67 rfl rfl, hkey { w.cs with sendKey := y.key P 67 } 68 rfl rfl, hid]

/-- The exchange goes on record. -/
theorem Record.adopt {sent : List Frame} {opened : List Opening} {marks : List Obs}
    {ourKexInit ephPub : Bytes} {keys : Keys}
    (h : Record P arrived sent opened marks ourKexInit ephPub keys none) {y : Handshake}
    (hw : OnWire P arrived sent opened y) {hpub sig64 : Bytes}
    (ha : Answered opened y hpub sig64) (hv : .verify hpub (y.hash P) sig64 true ∈ marks) :
    Record P arrived sent opened marks ourKexInit ephPub ⟨y.hash P, y.key P 67, y.key P 68⟩
      (some y) := by
  refine ⟨h.sends, h.opens, h.proposal, h.share, h.once, fun f hf he ↦ ?_, ?_, ?_, h.verdicts⟩
  · obtain ⟨_, hn, -⟩ := h.sealing f hf he
    cases hn
  · rintro _ ⟨⟩
    exact ⟨hw, hpub, sig64, ha, hv⟩
  · rintro _ ⟨⟩
    rfl

/-- The verdict on the host key goes on record. -/
theorem OnRecord.check {ks qs k hpub sig64 : Bytes}
    (h : OnRecord P arrived (judged P w ks qs k hpub sig64 true) x) (ok : Bool) :
    OnRecord P arrived (checked P w ks qs k hpub sig64 ok) x := by
  have hframes : frames (checked P w ks qs k hpub sig64 ok).obs =
      frames (judged P w ks qs k hpub sig64 true).obs :=
    (frames_append _ [_]).trans (List.append_nil _)
  have hopens : openings (checked P w ks qs k hpub sig64 ok).obs =
      openings (judged P w ks qs k hpub sig64 true).obs :=
    (openings_append _ [_]).trans (List.append_nil _)
  have hnotes : notices (checked P w ks qs k hpub sig64 ok).obs =
      notices (judged P w ks qs k hpub sig64 true).obs ++
        [.knownHosts w.job.host (hostkeyFingerprint P ks) ok] :=
    notices_append _ [_]
  rw [OnRecord, hframes, hopens, hnotes]
  exact Record.mark h (by simp)

theorem Law.verified {pkt ks qs hpub sig64 k : Bytes} (hr : OnRecord P arrived w x)
    (hst : Standing P arrived w x) (hl : Listens w) (hp : w.pc = .kexEcdhReply)
    (hm : pkt ∈ heard (openings w.obs) ∧ pkt.head? = some msgKexEcdhReply)
    (hrep : Replied pkt ks qs hpub sig64) (hx : x25519Scalar P w.cs.ephPriv qs = some k)
    (hv : ed25519Verify P hpub (exchanged P w ks qs k).cs.sessionId sig64 = true)
    (store : List Bytes) :
    Law P arrived (keyed P
      (sendPacket P (trusted P w ks qs k hpub sig64 store) (putU8 [] msgNewkeys))) := by
  obtain rfl := hst.unkeyed (.inr (.inr hp))
  obtain ⟨henc, hin, -⟩ := hst.early rfl
  have hsilent : ¬Switched (said (frames w.obs)) := fun hs ↦ by
    rw [hst.speaks.mpr hs] at henc
    cases henc
  obtain ⟨hline, hours⟩ := hst.greeted (by rw [hp]; nofun)
  have hwire := hst.onWire hp ks hx
  obtain ⟨hj, hanswer⟩ := hr.judge hst hp hm hrep hx hv.symm
  have hr₁ := hj.check true
  have hopens : openings (trusted P w ks qs k hpub sig64 store).obs = openings w.obs :=
    (openings_append _ [_]).trans ((List.append_nil _).trans
      ((openings_append w.obs [_]).trans (List.append_nil _)))
  have hf : frames (trusted P w ks qs k hpub sig64 store).obs = frames w.obs :=
    (frames_append _ [_]).trans ((List.append_nil _).trans
      ((frames_append w.obs [_]).trans (List.append_nil _)))
  have hs : (trusted P w ks qs k hpub sig64 store).cs = (exchanged P w ks qs k).cs := rfl
  have hmark : .verify hpub (exchanged P w ks qs k).cs.sessionId sig64 true ∈
      notices (trusted P w ks qs k hpub sig64 store).obs :=
    verify_mem.mpr (List.mem_append_left _ (List.mem_append_right _ (List.mem_singleton_self _)))
  have ht : (trusted P w ks qs k hpub sig64 store).tcpIn = w.tcpIn := rfl
  change Record P arrived (frames (trusted P w ks qs k hpub sig64 store).obs)
    (openings (trusted P w ks qs k hpub sig64 store).obs)
    (notices (trusted P w ks qs k hpub sig64 store).obs) w.cs.ourKexInit w.cs.ephPub _ none at hr₁
  rw [hf, hopens] at hr₁
  generalize trusted P w ks qs k hpub sig64 store = v at hopens hf hs hmark ht hr₁ ⊢
  obtain ⟨hf', ho', hn'⟩ := sendPacket_adds (P := P) v (putU8 [] msgNewkeys)
  have ht' := (Deaf.send P v (putU8 [] msgNewkeys)).tcpIn.trans ht
  have hs' := sendPacket_cs P v (putU8 [] msgNewkeys)
  have hfe : (sendFrame v (putU8 [] msgNewkeys)).enc = false := by
    change v.cs.encOut = false
    rw [hs]
    exact henc
  have hfp : (sendFrame v (putU8 [] msgNewkeys)).payload = [msgNewkeys] := rfl
  rw [hf] at hf'
  rw [hopens] at ho'
  rw [hs] at hs'
  have hid := judged_sessionId (P := P) w ks qs k
  rw [hid] at hmark
  have hk : mpintOctets (exchanged P w ks qs k).cs.sharedK =
    (judgedExchange (P := P) w ks qs k).k := rfl
  generalize sendFrame v (putU8 [] msgNewkeys) = f at hf' hfe hfp
  generalize sendPacket P v (putU8 [] msgNewkeys) = u at hf' ho' hn' hs' ht' ⊢
  have hkeys := keyed_keys (P := P) (w := u) (y := judgedExchange (P := P) w ks qs k)
    (by rw [hs']; exact hid) (by rw [hs']; exact hk)
  have hcs := keyed_cs P u
  generalize judgedExchange (P := P) w ks qs k = y at hwire hanswer hmark hkeys
  have hsay := (hr₁.adopt hwire hanswer hmark).say (f := f)
    (by rw [hfe]; exact iff_of_false nofun hsilent) (fun he ↦ by rw [hfe] at he; cases he)
    (fun he ↦ by rw [hfp] at he; cases he) (by rw [hfp]; nofun)
  refine ⟨some y, ?_, fun _ ↦ ⟨⟨?_, ?_, nofun, ?_, ?_, nofun, ?_, ?_, nofun⟩, ?_⟩⟩
  · change Record P arrived (frames (keyed P u).obs) (openings (keyed P u).obs)
      (notices (keyed P u).obs) (keyed P u).cs.ourKexInit (keyed P u).cs.ephPub _ _
    rw [hkeys, keyed_obs, hf', ho', hn', hcs, hs']
    exact hsay
  · rw [keyed_obs, hf', hcs, said_append, switched_append]
    exact iff_of_true rfl (.inr (switched_singleton.mpr (by rw [hfp]; rfl)))
  · rw [hcs, hs']
    exact hst.ourVersion
  · exact fun _ ↦ .inl rfl
  · exact fun he ↦ absurd he (Pc.not_keyed (.inr (.inr (.inr (.inl rfl)))))
  · intro _
    have htcp : (keyed P u).tcpIn = w.tcpIn := ht'
    rw [keyed_obs, hf', ho', hcs, htcp, hs', said_append]
    exact ⟨hline, List.mem_append_left _ hours.1, hours.2⟩
  · rintro (h | h) <;> cases h
  · rw [Listens, keyed_obs, ho', hcs, hs']
    exact hl

/-- NEWKEYS has come. -/
theorem Standing.decrypt (h : Standing P arrived w x) (hp : w.pc = .newkeys) :
    Standing P arrived ((w.modify fun cs ↦ { cs with encIn := true }).goto .serviceAccept) x := by
  have hx : x ≠ none := fun hx ↦ by
    obtain ⟨-, -, h' | h' | h'⟩ := h.early hx <;> cases hp.symm.trans h'
  refine ⟨h.speaks, h.ourVersion, fun hx' ↦ absurd hx' hx, fun _ ↦ .inr (.inl rfl), fun _ ↦ rfl,
    nofun, fun _ ↦ h.greeted (by rw [hp]; nofun), ?_, nofun⟩
  rintro (h' | h') <;> cases h'

theorem Law.takes {t : ℤ} {pkt : Bytes} (hr : OnRecord P arrived w x)
    (hst : Standing P arrived w x)
    (hsw : t = msgNewkeys.toNat → Switched (heard (openings w.obs)))
    (hl : t ≠ msgNewkeys.toNat → Listens w)
    (hm : ∀ b : UInt8, b ≠ 0 → t = b.toNat →
      pkt ∈ heard (openings w.obs) ∧ pkt.head? = some b)
    (h : Takes P w t pkt w') : Law P arrived w' := by
  cases h with
  | chat hc hp =>
    obtain ⟨hr', hs'⟩ := hr.chats hst hc (hp.elim (.inr ∘ .inr) .inl)
    refine ⟨x, hr', fun hne ↦ ⟨hs' hne, ?_⟩⟩
    have hk := hp.resolve_right hne
    have henc : w'.cs.encIn = w.cs.encIn := congrArg Kex.encIn hc.kex
    rw [Listens, henc, hc.openings]
    by_cases ht : t = msgNewkeys.toNat
    · exact iff_of_true (hst.listening hk) (hsw ht)
    · exact hl ht
  | ended hp he =>
    obtain rfl := hst.unkeyed (.inr hp)
    exact ⟨none, hr.ended he, fun hne ↦ absurd he.finished hne⟩
  | ecdhInit hp ht hb =>
    exact .offer hr hst (hl (by rw [ht]; decide)) hp (hm _ (by decide) ht) hb
  | refused hp ht hrep hx hv he =>
    obtain rfl := hst.unkeyed (.inr (.inr hp))
    have hj := (hr.judge hst hp (hm _ (by decide) ht) hrep hx hv).1
    exact ⟨none, hj.ended he, fun hne ↦ absurd he.finished hne⟩
  | unknown hp ht hrep hx hv _ he =>
    obtain rfl := hst.unkeyed (.inr (.inr hp))
    have hj := (hr.judge hst hp (hm _ (by decide) ht) hrep hx hv.symm).1
    exact ⟨none, (hj.check false).ended he, fun hne ↦ absurd he.finished hne⟩
  | verified hp ht hrep hx hv =>
    exact .verified hr hst (hl (by rw [ht]; decide)) hp (hm _ (by decide) ht) hrep hx hv _
  | newkeys hp ht hc =>
    have hr₁ : OnRecord P arrived
      ((w.modify fun cs ↦ { cs with encIn := true }).goto .serviceAccept) x := hr
    obtain ⟨hr', hs'⟩ := hr₁.chats (hst.decrypt hp) hc (.inr (.inr (.inl rfl)))
    refine ⟨x, hr', fun hne ↦ ⟨hs' hne, ?_⟩⟩
    have henc : w'.cs.encIn = true := congrArg Kex.encIn hc.kex
    rw [Listens, henc, hc.openings]
    exact iff_of_true rfl (hsw ht)

/-! Polls. -/

theorem Standing.congr (h : Standing P arrived w x) (hk : w'.cs.kex = w.cs.kex)
    (hin : w'.cs.rxBuf ++ w'.tcpIn = w.cs.rxBuf ++ w.tcpIn) (hp : w'.pc = w.pc)
    (hf : frames w'.obs = frames w.obs) (ho : openings w'.obs = openings w.obs) :
    Standing P arrived w' x := by
  have hkeep {α : Type} (f : Kex → α) : f w'.cs.kex = f w.cs.kex := congrArg f hk
  have henc : w'.cs.encOut = w.cs.encOut := hkeep Kex.encOut
  have hdec : w'.cs.encIn = w.cs.encIn := hkeep Kex.encIn
  have hver : w'.cs.ourVersion = w.cs.ourVersion := hkeep Kex.ourVersion
  have hpeer : w'.cs.peerVersion = w.cs.peerVersion := hkeep Kex.peerVersion
  have hours : w'.cs.ourKexInit = w.cs.ourKexInit := hkeep Kex.ourKexInit
  have hkex : w'.cs.peerKexInit = w.cs.peerKexInit := hkeep Kex.peerKexInit
  have hpriv : w'.cs.ephPriv = w.cs.ephPriv := hkeep Kex.ephPriv
  have hpub : w'.cs.ephPub = w.cs.ephPub := hkeep Kex.ephPub
  constructor
  · rw [henc, hf]
    exact h.speaks
  · rw [hver]
    exact h.ourVersion
  · rw [henc, hdec, hp]
    exact h.early
  · rw [hp]
    exact h.late
  · rw [hp, hdec]
    exact h.listening
  · rw [hp, hin, ho, hf]
    exact h.greeting
  · rw [hp, hin, ho, hf, hpeer, hours]
    exact h.greeted
  · rw [hp, hf]
    exact h.unshared
  · rw [hp, hkex, hpriv, hpub, ho, hf]
    exact h.shared

/-- The return of `recv_packet` goes on record. -/
theorem OnRecord.received (h : OnRecord P arrived w x) (pc : Pc) (t : ℤ) (pkt : Bytes) :
    OnRecord P arrived (w.note (.received pc t pkt)) x := by
  have hf : frames (w.note (.received pc t pkt)).obs = frames w.obs :=
    (frames_append w.obs [_]).trans (List.append_nil _)
  have ho : openings (w.note (.received pc t pkt)).obs = openings w.obs :=
    (openings_append w.obs [_]).trans (List.append_nil _)
  have hn : notices (w.note (.received pc t pkt)).obs = notices w.obs ++ [.received pc t pkt] :=
    notices_append w.obs [_]
  rw [OnRecord, hf, ho, hn]
  exact Record.mark h (by simp)

theorem Standing.received (h : Standing P arrived w x) (pc : Pc) (t : ℤ) (pkt : Bytes) :
    Standing P arrived (w.note (.received pc t pkt)) x :=
  h.congr rfl rfl rfl ((frames_append w.obs [_]).trans (List.append_nil _))
    ((openings_append w.obs [_]).trans (List.append_nil _))

theorem fillRx_stream (w : World) : (fillRx w).2.cs.rxBuf ++ (fillRx w).2.tcpIn =
    w.cs.rxBuf ++ w.tcpIn := by
  change (w.cs.rxBuf ++ w.tcpIn.take _) ++ w.tcpIn.drop _ = _
  rw [List.append_assoc, List.take_append_drop]

theorem fillRx_record (w : World) : frames (fillRx w).2.obs = frames w.obs ∧
    openings (fillRx w).2.obs = openings w.obs ∧ notices (fillRx w).2.obs = notices w.obs :=
  ⟨(frames_append w.obs [_]).trans (List.append_nil _),
    (openings_append w.obs [_]).trans (List.append_nil _),
    (notices_append w.obs [_]).trans (List.append_nil _)⟩

theorem OnRecord.fill (h : OnRecord P arrived w x) : OnRecord P arrived (fillRx w).2 x := by
  obtain ⟨hf, ho, hn⟩ := fillRx_record w
  rw [OnRecord, hf, ho, hn]
  exact h

theorem Standing.fill (h : Standing P arrived w x) : Standing P arrived (fillRx w).2 x :=
  h.congr rfl (fillRx_stream w) rfl (fillRx_record w).1 (fillRx_record w).2.1

theorem Listens.fill (h : Listens w) : Listens (fillRx w).2 := by
  rw [Listens, (fillRx_record w).2.1]
  exact h

/-- The session that has taken a packet out of its buffer. -/
def unpacked (w : World) (packet payload rest : Bytes) : World :=
  (w.note (.opened w.cs.encIn w.cs.recvKey w.cs.seqIn packet payload)).modify
    fun cs ↦ { cs with rxBuf := rest, seqIn := cs.seqIn + 1 }

theorem tryParse_unpacked {w₁ : World} {payload : Bytes} (h : tryParse P w = .got payload w₁) :
    ∃ packet rest, packet ++ rest = w.cs.rxBuf ∧
      unframe P w.cs.encIn w.cs.recvKey w.cs.seqIn w.cs.rxBuf = .got payload rest ∧
      packet = w.cs.rxBuf.take (w.cs.rxBuf.length - rest.length) ∧
      w₁ = unpacked w packet payload rest := by
  unfold tryParse at h
  split at h
  · cases h
  · cases h
  · rename_i rest hu
    cases h
    exact ⟨_, rest, (unframe_front P hu).1, hu, rfl, rfl⟩

section
variable (w) (packet payload rest : Bytes)

theorem frames_unpacked : frames (unpacked w packet payload rest).obs = frames w.obs :=
  (frames_append w.obs [_]).trans (List.append_nil _)

theorem notices_unpacked : notices (unpacked w packet payload rest).obs = notices w.obs :=
  (notices_append w.obs [_]).trans (List.append_nil _)

theorem openings_unpacked : openings (unpacked w packet payload rest).obs =
    openings w.obs ++ [⟨w.cs.encIn, w.cs.recvKey, w.cs.seqIn, packet, payload⟩] :=
  openings_append w.obs [_]

theorem heard_unpacked : heard (openings (unpacked w packet payload rest).obs) =
    heard (openings w.obs) ++ [payload] := by
  rw [openings_unpacked, heard_append]
  rfl

end

theorem OnRecord.unpacked (h : OnRecord P arrived w x) (hl : Listens w)
    (packet payload rest : Bytes) : OnRecord P arrived (unpacked w packet payload rest) x := by
  rw [OnRecord, frames_unpacked, openings_unpacked, notices_unpacked]
  exact Record.hear h hl

theorem Standing.unpacked (h : Standing P arrived w x) {packet rest : Bytes}
    (hp : w.pc ≠ .version) (hb : packet ++ rest = w.cs.rxBuf) (payload : Bytes) :
    Standing P arrived (unpacked w packet payload rest) x := by
  obtain ⟨⟨mid, hsk, hl, hs⟩, hk⟩ := h.greeted hp
  constructor
  · rw [frames_unpacked]
    exact h.speaks
  · exact h.ourVersion
  · exact h.early
  · exact h.late
  · exact h.listening
  · exact fun he ↦ absurd he hp
  · intro _
    rw [frames_unpacked, openings_unpacked]
    refine ⟨⟨mid, hsk, ?_, hs⟩, hk⟩
    rw [hl, ← hb, List.map_append, List.flatten_append]
    simp only [List.map_cons, List.map_nil, List.flatten_cons, List.flatten_nil, List.append_nil,
      List.append_assoc]
    rfl
  · rw [frames_unpacked]
    exact h.unshared
  · intro he
    obtain ⟨⟨hm, hh⟩, hc⟩ := h.shared he
    rw [heard_unpacked, frames_unpacked]
    exact ⟨⟨List.mem_append_left _ hm, hh⟩, hc⟩

/-- The server's version line has come; the client proposes. -/
theorem Law.hello {line rest : Bytes} (hr : OnRecord P arrived w x) (hst : Standing P arrived w x)
    (hl : Listens w) (hp : w.pc = .version) (hline : takeLine w.cs.rxBuf = some (line, rest))
    (hs : line.take 4 = ascii "SSH-") :
    Law P arrived
      (startKex P (w.modify fun cs ↦ { cs with rxBuf := rest, peerVersion := line })) := by
  obtain rfl := hst.unkeyed (.inl hp)
  obtain ⟨henc, hin, -⟩ := hst.early rfl
  obtain ⟨hskips, hopens, hsaid⟩ := hst.greeting hp
  have hsilent : ¬Switched (said (frames w.obs)) := fun hs ↦ by
    rw [hst.speaks.mpr hs] at henc
    cases henc
  have hcookie := randomBytes_length
    (w.modify fun cs ↦ { cs with rxBuf := rest, peerVersion := line }) 16
  have he : ∃ w₁ cookie, cookie.length = 16 ∧
      startKex P (w.modify fun cs ↦ { cs with rxBuf := rest, peerVersion := line }) =
        (sendPacket P w₁ (putKexinit cookie)).goto .kexinit ∧
      w₁.cs = { w.cs with
        rxBuf := rest, peerVersion := line, ourKexInit := putKexinit cookie } ∧
      w₁.tcpIn = w.tcpIn ∧ frames w₁.obs = frames w.obs ∧ openings w₁.obs = openings w.obs ∧
      notices w₁.obs = notices w.obs :=
    ⟨_, _, hcookie, rfl, rfl, rfl, (frames_append w.obs [_]).trans (List.append_nil _),
      (openings_append w.obs [_]).trans (List.append_nil _),
      (notices_append w.obs [_]).trans (List.append_nil _)⟩
  obtain ⟨w₁, cookie, hlen, hw₁, hcs, ht₁, hf₁, ho₁, hn₁⟩ := he
  rw [hw₁]
  obtain ⟨hf, ho, hn⟩ := sendPacket_adds (P := P) w₁ (putKexinit cookie)
  have ht := (Deaf.send P w₁ (putKexinit cookie)).tcpIn.trans ht₁
  have hs' := sendPacket_cs P w₁ (putKexinit cookie)
  have hfe : (sendFrame w₁ (putKexinit cookie)).enc = false := by
    change w₁.cs.encOut = false
    rw [hcs]
    exact henc
  have hfp : (sendFrame w₁ (putKexinit cookie)).payload = putKexinit cookie := rfl
  rw [hf₁] at hf
  rw [ho₁] at ho
  rw [hn₁] at hn
  rw [hcs] at hs'
  generalize sendFrame w₁ (putKexinit cookie) = f at hf hfe hfp
  generalize sendPacket P w₁ (putKexinit cookie) = v at hf ho hn hs' ht
  have hhead : (putKexinit cookie).head? = some msgKexinit := by
    simp [putKexinit, putU8, putU32, putNamelist, putCstring]
  refine ⟨none, ?_, fun _ ↦ ⟨⟨?_, ?_, ?_, ?_, ?_, ?_, ?_, ?_, ?_⟩, ?_⟩⟩
  · change Record P arrived (frames v.obs) (openings v.obs) (notices v.obs) v.cs.ourKexInit
      v.cs.ephPub v.cs.keys none
    rw [hf, ho, hn, hs']
    refine (hr.propose hsaid (putKexinit cookie)).say ?_ ?_ (fun _ ↦ ⟨hfp, cookie, hlen, hfp⟩) ?_
    · rw [hfe]
      exact iff_of_false Bool.false_ne_true hsilent
    · rw [hfe]
      exact fun hb ↦ absurd hb Bool.false_ne_true
    · rw [hfp, hhead]
      decide
  · change v.cs.encOut = true ↔ Switched (said (frames v.obs))
    rw [hs', hf, said_append]
    refine hst.speaks.trans (switched_snoc ?_).symm
    rw [hfp, hhead]
    decide
  · change v.cs.ourVersion = _
    rw [hs']
    exact hst.ourVersion
  · intro _
    change v.cs.encOut = false ∧ v.cs.encIn = false ∧ _
    rw [hs']
    exact ⟨henc, hin, .inr (.inl rfl)⟩
  · exact fun hx ↦ absurd rfl hx
  · exact fun hk ↦ absurd hk (Pc.not_keyed (.inr (.inl rfl)))
  · intro hv
    cases hv
  · intro _
    change (∃ mid, Skips arrived mid ∧ takeLine mid = some (v.cs.peerVersion,
      ((openings v.obs).map Opening.packet).flatten ++ (v.cs.rxBuf ++ v.tcpIn)) ∧
        v.cs.peerVersion.take 4 = ascii "SSH-") ∧
      v.cs.ourKexInit ∈ said (frames v.obs) ∧ v.cs.ourKexInit.head? = _
    rw [hs', hf, ho, ht, said_append, hopens]
    refine ⟨⟨_, hskips, takeLine_append hline _, hs⟩, ?_, hhead⟩
    exact List.mem_append_right _ (List.mem_singleton.mpr hfp.symm)
  · rintro - p hm
    change p ∈ said (frames v.obs) at hm
    rw [hf, said_append, List.mem_append] at hm
    obtain hm | hm := hm
    · exact hst.unshared (.inl hp) p hm
    · obtain rfl := List.mem_singleton.mp hm
      rw [hfp, hhead]
      decide
  · intro hv
    cases hv
  · change v.cs.encIn = true ↔ Switched (heard (openings v.obs))
    rw [hs', ho]
    exact hl

theorem Standing.skipLine (h : Standing P arrived w x) (hp : w.pc = .version) {line rest : Bytes}
    (hline : takeLine w.cs.rxBuf = some (line, rest)) (hs : line.take 4 ≠ ascii "SSH-") :
    Standing P arrived (w.modify fun cs ↦ { cs with rxBuf := rest }) x := by
  obtain ⟨hskips, hopens, hsaid⟩ := h.greeting hp
  refine ⟨h.speaks, h.ourVersion, h.early, h.late, h.listening, fun _ ↦ ⟨?_, hopens, hsaid⟩,
    fun hne ↦ absurd hp hne, h.unshared, fun hs ↦ ?_⟩
  · exact hskips.snoc (takeLine_append hline w.tcpIn) hs
  · cases hp.symm.trans hs

theorem Listens.unpacked (h : Listens w) {payload : Bytes} (hn : payload.head? ≠ some msgNewkeys)
    (packet rest : Bytes) : Listens (unpacked w packet payload rest) := by
  rw [Listens, heard_unpacked, switched_snoc hn]
  exact h

theorem Listens.received (h : Listens w) (pc : Pc) (t : ℤ) (pkt : Bytes) :
    Listens (w.note (.received pc t pkt)) := by
  have ho : openings (w.note (.received pc t pkt)).obs = openings w.obs :=
    (openings_append w.obs [_]).trans (List.append_nil _)
  rw [Listens, ho]
  exact h

/-- `recv_packet` returns no packet. -/
theorem Law.silent {t : ℤ} (hr : OnRecord P arrived w x) (hst : Standing P arrived w x)
    (hl : Listens w) (ht : t ≤ 0) (pc : Pc) (h : Takes P (w.note (.received pc t [])) t [] w') :
    Law P arrived w' := by
  refine .takes (hr.received pc t []) (hst.received pc t []) (fun he ↦ ?_)
    (fun _ ↦ hl.received pc t []) (fun b hb he ↦ ?_) h
  · rw [he] at ht
    exact absurd ht (by decide)
  · have hpos : 0 < b.toNat :=
      Nat.pos_of_ne_zero fun hz ↦ hb (UInt8.toNat_inj.mp (hz.trans UInt8.toNat_zero.symm))
    omega

theorem Law.packet {packet payload rest : Bytes} {b : UInt8} {body : Bytes}
    (hr : OnRecord P arrived w x) (hst : Standing P arrived w x) (hl : Listens w)
    (hp : w.pc ≠ .version) (hb : packet ++ rest = w.cs.rxBuf) (hpay : payload = b :: body) (pc : Pc)
    (h : Takes P ((unpacked w packet payload rest).note (.received pc b.toNat payload)) b.toNat
      payload w') : Law P arrived w' := by
  have ho : openings ((unpacked w packet payload rest).note (.received pc b.toNat payload)).obs =
      openings (unpacked w packet payload rest).obs :=
    (openings_append _ [_]).trans (List.append_nil _)
  have hhead : payload.head? = some b := by
    rw [hpay]
    rfl
  have hbyte {c : UInt8} (he : (b.toNat : ℤ) = c.toNat) : b = c :=
    UInt8.toNat_inj.mp (Int.ofNat_inj.mp he)
  refine .takes ((hr.unpacked hl packet payload rest).received pc b.toNat payload)
    ((hst.unpacked hp hb payload).received pc b.toNat payload) (fun ht ↦ ?_) (fun ht ↦ ?_)
    (fun c _ ht ↦ ?_) h
  · rw [ho, heard_unpacked, switched_append, switched_singleton, hhead, hbyte ht]
    exact .inr rfl
  · refine (hl.unpacked (fun hn ↦ ht ?_) packet rest).received pc b.toNat payload
    rw [Option.some.inj (hhead.symm.trans hn)]
  · rw [ho, heard_unpacked, hhead, hbyte ht]
    exact ⟨List.mem_append_right _ (List.mem_singleton_self _), rfl⟩

theorem Law.poll (h : Law P arrived w) (expired : Bool) : Law P arrived (poll P expired w) := by
  obtain ⟨x, hr, hs⟩ := h
  have hv {v : World} (hne : w.pc ≠ .finished) (hv : v = w ∨ v = (fillRx w).2) :
      OnRecord P arrived v x ∧ Standing P arrived v x ∧ Listens v := by
    obtain ⟨hst, hl⟩ := hs hne
    obtain rfl | rfl := hv
    · exact ⟨hr, hst, hl⟩
    · exact ⟨hr.fill, hst.fill, hl.fill⟩
  have hread := poll_reading (P := P) expired w
  generalize Client.poll P expired w = w' at hread ⊢
  cases hread with
  | stay hp => exact ⟨x, hr, hs⟩
  | fill hp => exact ⟨x, hr.fill, fun _ ↦ (hv hp (.inr rfl)).2⟩
  | atEnd hp hvw hc hf =>
    obtain ⟨hr', hst', -⟩ := hv (by rw [hp]; nofun) hvw
    exact ⟨x, (hr'.chats hst' hc (.inl hf)).1, fun hne ↦ absurd hf hne⟩
  | skipLine hp hline hs' =>
    obtain ⟨hst, hl⟩ := hs (by rw [hp]; nofun)
    exact ⟨x, hr, fun _ ↦ ⟨hst.skipLine hp hline hs', hl⟩⟩
  | @misfit rest msg hp =>
    obtain ⟨hst, hl⟩ := hs (by rw [hp]; nofun)
    obtain rfl := hst.unkeyed (.inl hp)
    have he : Ended w (giveUp (w.modify fun cs ↦ { cs with rxBuf := rest }) msg) :=
      .of_modify (.giveUp _ msg) rfl
    exact ⟨none, hr.ended he, fun hne ↦ absurd he.finished hne⟩
  | hello hp hline hs' =>
    obtain ⟨hst, hl⟩ := hs (by rw [hp]; nofun)
    exact .hello hr hst hl hp hline hs'
  | silence hp hvw ht hk =>
    obtain ⟨hr', hst', hl'⟩ := hv hp.2 hvw
    exact .silent hr' hst' hl' (by omega) _ hk
  | garbled hp _ hk =>
    obtain ⟨hst, hl⟩ := hs hp.2
    exact .silent hr hst hl (by decide) _ hk
  | hollow hp hw hk =>
    obtain ⟨hst, hl⟩ := hs hp.2
    obtain ⟨packet, rest, hb, -, -, rfl⟩ := tryParse_unpacked hw
    have hquiet : ([] : Bytes).head? ≠ some msgNewkeys := by simp
    exact .silent (hr.unpacked hl packet [] rest) (hst.unpacked hp.1 hb [])
      (hl.unpacked hquiet packet rest) (by decide) _ hk
  | @ignored w₁ b body hp hw hb' =>
    obtain ⟨hst, hl⟩ := hs hp.2
    obtain ⟨packet, rest, hb, -, -, rfl⟩ := tryParse_unpacked hw
    refine ⟨x, hr.unpacked hl packet _ rest,
      fun _ ↦ ⟨hst.unpacked hp.1 hb _, hl.unpacked (fun hn ↦ ?_) packet rest⟩⟩
    obtain rfl := Option.some.inj hn
    obtain he | he := hb' <;> cases he
  | packet hp hw hk =>
    obtain ⟨hst, hl⟩ := hs hp.2
    obtain ⟨packet, rest, hb, -, -, rfl⟩ := tryParse_unpacked hw
    exact .packet hr hst hl hp.1 hb rfl _ hk

theorem Law.step (h : Law P arrived w) {e : Event} (he : ∀ data, e ≠ .tcpArrive data) :
    Law P arrived (step P w e) := by
  cases e with
  | poll expired => exact h.poll expired
  | tcpArrive data => exact absurd rfl (he data)
  | _ =>
    obtain ⟨x, hr, hs⟩ := h
    refine ⟨x, hr, fun hne ↦ ?_⟩
    obtain ⟨hst, hl⟩ := hs hne
    exact ⟨hst.congr rfl rfl rfl rfl rfl, hl⟩

theorem Law.arrive (h : Law P arrived w) (data : Bytes) :
    Law P (arrived ++ data) { w with tcpIn := w.tcpIn ++ data } := by
  obtain ⟨x, hr, hs⟩ := h
  refine ⟨x, Record.arrive hr data, fun hne ↦ ?_⟩
  obtain ⟨hst, hl⟩ := hs hne
  refine ⟨⟨hst.speaks, hst.ourVersion, hst.early, hst.late, hst.listening, fun hp ↦ ?_, fun hp ↦ ?_,
    hst.unshared, hst.shared⟩, hl⟩
  · obtain ⟨hskips, hopens, hsaid⟩ := hst.greeting hp
    refine ⟨?_, hopens, hsaid⟩
    rw [← List.append_assoc]
    exact hskips.append data
  · obtain ⟨⟨mid, hskips, hline, hs⟩, hours⟩ := hst.greeted hp
    refine ⟨⟨_, hskips.append data, ?_, hs⟩, hours⟩
    rw [takeLine_append hline data, List.append_assoc, List.append_assoc w.cs.rxBuf]

end

/-- Nothing has been said yet. -/
theorem record_nil (ourKexInit ephPub : Bytes) (keys : Keys) :
    Record P [] [] [] [] ourKexInit ephPub keys none :=
  ⟨.nil, .nil, nofun, nofun, Nat.zero_le _, nofun, nofun, nofun, nofun⟩

/-- A client that was just started. -/
theorem law_runSession (env : Env) (job : SshJob) (store : List Bytes) :
    Law P [] (runSession env job store) := by
  by_cases h : 0 ≤ env.itsConnect
  · obtain ⟨took, hobs, hcs, hpc, -⟩ := runSession_connected h job store
    have htcp : (runSession env job store).tcpIn = [] := by
      unfold runSession
      simp only
      split
      · rfl
      · simp only [World.goto, sendRaw]
        split
        · rfl
        · rfl
    refine ⟨none, ?_, fun _ ↦ ⟨⟨?_, ?_, ?_, ?_, ?_, ?_, ?_, ?_, ?_⟩, ?_⟩⟩
    · rw [OnRecord, hobs]
      exact record_nil P _ _ _
    · rw [hcs, hobs]
      exact iff_of_false Bool.false_ne_true not_switched_nil
    · rw [hcs]
    · rw [hcs, hpc]
      exact fun _ ↦ ⟨rfl, rfl, .inl rfl⟩
    · exact fun hx ↦ absurd rfl hx
    · rw [hpc]
      exact fun hk ↦ absurd hk (Pc.not_keyed (.inl rfl))
    · rw [hcs, htcp, hobs]
      exact fun _ ↦ ⟨.none _, rfl, List.forall_mem_nil _⟩
    · exact fun hne ↦ absurd hpc hne
    · rw [hobs]
      exact fun _ ↦ List.forall_mem_nil _
    · rw [hpc]
      intro hk
      cases hk
    · rw [Listens, hcs, hobs]
      exact iff_of_false Bool.false_ne_true not_switched_nil
  · obtain ⟨hobs, hpc, -⟩ := runSession_refused (not_le.mp h) job store
    refine ⟨none, ?_, fun hne ↦ absurd hpc hne⟩
    rw [OnRecord, hobs]
    exact record_nil P _ _ _

end Sshd.Client
