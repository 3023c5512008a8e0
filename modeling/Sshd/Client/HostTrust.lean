import Sshd.Client.Steps

namespace Sshd.Client

open Lib.Octets Lib.Trace Wire Crypto Framing
open Server (standIn)

variable (P : Primitives)

/-! What a client has seen of a server before it speaks of its user. -/

/-- The server's version line in a stream: the first line that starts with
`SSH-`. -/
inductive ServerLine : Bytes → Bytes → Prop
  | here {stream line rest : Bytes} (hl : takeLine stream = some (line, rest))
      (hs : line.take 4 = ascii "SSH-") : ServerLine stream line
  | skip {stream line rest version : Bytes} (hl : takeLine stream = some (line, rest))
      (hs : line.take 4 ≠ ascii "SSH-") (hr : ServerLine rest version) :
      ServerLine stream version

/-- The bytes read from the connection. -/
def inbound (obs : List Obs) : Bytes :=
  (obs.filterMap fun o ↦ match o with
    | .itsRecv data => some data
    | _ => none).flatten

/-- The values of one key exchange. -/
structure Exchange where
  serverVersion : Bytes
  clientKexinit : Bytes
  serverKexinit : Bytes
  priv : Bytes
  qC : Bytes
  reply : Bytes
  kS : Bytes
  qS : Bytes
  sig : Bytes
  hpub : Bytes
  sig64 : Bytes
  k : Bytes

/-- The exchange hash over these values. -/
def Exchange.hash (x : Exchange) : Bytes :=
  sha256 P (lenPrefixed ourVersionStr ++ lenPrefixed x.serverVersion ++
    lenPrefixed x.clientKexinit ++ lenPrefixed x.serverKexinit ++ lenPrefixed x.kS ++
    lenPrefixed x.qC ++ lenPrefixed x.qS ++ mpintOctets x.k)

/-- The client's sending key that `K` and the exchange hash give. -/
def Exchange.key (x : Exchange) : Bytes :=
  deriveKey P { sharedK := x.k, sessionId := x.hash P } 67 64

/-- The exchange took place as recorded: the values are those that the two
sides sent, the host key verified the signature over their hash, and the known
hosts then accepted its fingerprint for `host`. -/
structure Exchange.On (x : Exchange) (host : Bytes) (obs : List Obs) : Prop where
  ourLine : ∃ took, .itsSend versionLine took ∈ obs
  serverLine : ServerLine (inbound obs) x.serverVersion
  sent : [x.clientKexinit, putString (putU8 [] msgKexEcdhInit) x.qC] <+:
    (frames obs).map Frame.payload
  serverKexinit : .received .kexinit msgKexinit.toNat x.serverKexinit ∈ obs
  priv : .random x.priv ∈ obs
  base : x25519Base P x.priv = some x.qC
  reply : .received .kexEcdhReply msgKexEcdhReply.toNat x.reply ∈ obs
  replied : kexEcdhReply x.reply = .ok (x.kS, x.qS, x.sig)
  hostKey : ed25519Blob x.kS 32 "host key not ssh-ed25519" "bad host pubkey" = .ok x.hpub
  hostSig : ed25519Blob x.sig 64 "host sig not ssh-ed25519" "bad host signature" = .ok x.sig64
  shared : x25519Scalar P x.priv x.qS = some x.k
  verified : ed25519Verify P x.hpub (x.hash P) x.sig64 = true
  accepted : [.verify x.hpub (x.hash P) x.sig64 true,
    .knownHosts host (hostkeyFingerprint P x.kS) true] <:+: obs

/-- The fingerprint in the first entry for a host. -/
def storedFp (store : List Bytes) (host : Bytes) : Option Bytes :=
  (store.find? fun e ↦ decide (32 ∈ e ∧ e.take (e.idxOf 32) = host)).map
    fun e ↦ e.drop (e.idxOf 32 + 1)

/-- `known` is `store` where the fingerprint of the host was already, or
`store` with an entry for a host that had none. -/
def Remembered (store known : List Bytes) (host fp : Bytes) : Prop :=
  storedFp store host = some fp ∧ known = store ∨
    storedFp store host = none ∧ known = store ++ [entry (host, fp)]

/-- A packet of user authentication comes after an exchange with a host that
is remembered by its key, and is sealed under the keys of that exchange. -/
def Justified (host : Bytes) (store known : List Bytes) (pre : List Obs) : Obs → Prop
  | .sealed f =>
    Userauth f.payload → ∃ x : Exchange, x.On P host pre ∧
      Remembered store known host (hostkeyFingerprint P x.kS) ∧ f.enc = true ∧ f.key = x.key P
  | _ => True

section
variable {P}

theorem ServerLine.append {stream version : Bytes} (h : ServerLine stream version) (more : Bytes) :
    ServerLine (stream ++ more) version := by
  induction h with
  | here hl hs => exact .here (takeLine_append hl more) hs
  | skip hl hs _ ih => exact .skip (takeLine_append hl more) hs ih

theorem inbound_append (obs os : List Obs) : inbound (obs ++ os) = inbound obs ++ inbound os := by
  rw [inbound, List.filterMap_append, List.flatten_append]
  rfl

theorem Exchange.On.append {x : Exchange} {host : Bytes} {obs : List Obs} (h : x.On P host obs)
    (os : List Obs) : x.On P host (obs ++ os) where
  ourLine := by
    obtain ⟨took, hm⟩ := h.ourLine
    exact ⟨took, List.mem_append_left os hm⟩
  serverLine := by
    rw [inbound_append]
    exact h.serverLine.append _
  sent := by
    rw [frames_append, List.map_append]
    exact h.sent.trans (List.prefix_append _ _)
  serverKexinit := List.mem_append_left os h.serverKexinit
  priv := List.mem_append_left os h.priv
  base := h.base
  reply := List.mem_append_left os h.reply
  replied := h.replied
  hostKey := h.hostKey
  hostSig := h.hostSig
  shared := h.shared
  verified := h.verified
  accepted := h.accepted.trans (List.prefix_append _ _).isInfix

/-- The scan compares with the stored fingerprint. -/
theorem scanKnownHosts_storedFp (store : List Bytes) (host fp : Bytes) (i : ℕ) :
    (scanKnownHosts host fp i store).map Prod.fst =
      (storedFp store host).map fun stored ↦ decide (stored = fp) := by
  induction store generalizing i with
  | nil => rfl
  | cons e store ih =>
    rw [scanKnownHosts]
    by_cases hsp : 32 ∈ e
    · by_cases hhost : e.take (e.idxOf 32) = host
      · by_cases hfp : e.drop (e.idxOf 32 + 1) = fp
        · simp [storedFp, hsp, hhost, hfp]
        · simp [storedFp, hsp, hhost, hfp]
      · rw [if_neg (not_not.mpr hsp)]
        simp only [hhost, ne_eq, not_false_eq_true, if_true]
        rw [ih (i + 1)]
        simp [storedFp, hsp, hhost]
    · rw [if_pos hsp, ih (i + 1)]
      simp [storedFp, hsp]

theorem knownHostsCheck_accepted {store known : List Bytes} {host fp note : Bytes}
    (h : knownHostsCheck store host fp = (true, note, known)) : Remembered store known host fp := by
  have hscan := scanKnownHosts_storedFp store host fp 0
  unfold knownHostsCheck at h
  cases hs : scanKnownHosts host fp 0 store with
  | none =>
    rw [hs] at hscan h
    obtain ⟨-, -, rfl⟩ := by simpa using h
    exact .inr ⟨Option.map_eq_none_iff.mp hscan.symm, by simp [entry]⟩
  | some r =>
    rw [hs] at hscan h
    obtain ⟨hr, -, rfl⟩ := by simpa using h
    obtain ⟨stored, hst, hd⟩ := Option.map_eq_some_iff.mp hscan.symm
    rw [hr, decide_eq_true_eq] at hd
    exact .inl ⟨by rw [hst, hd], rfl⟩

end

/-! The keys. -/

theorem deriveKeyLoop_congr {cs cs' : Csess} (hk : cs.sharedK = cs'.sharedK)
    (hs : cs.sessionId = cs'.sessionId) (letter : UInt8) (outLen fuel : ℕ) (first : Bool)
    (out : Bytes) :
    deriveKeyLoop P cs letter outLen fuel first out =
      deriveKeyLoop P cs' letter outLen fuel first out := by
  induction fuel generalizing first out with
  | zero => rfl
  | succ fuel ih => simp only [deriveKeyLoop, hk, hs, ih]

/-- A key depends on `K` and on the session identifier alone. -/
theorem deriveKey_congr {cs cs' : Csess} (hk : cs.sharedK = cs'.sharedK)
    (hs : cs.sessionId = cs'.sessionId) (letter : UInt8) (outLen : ℕ) :
    deriveKey P cs letter outLen = deriveKey P cs' letter outLen :=
  deriveKeyLoop_congr P hk hs letter outLen outLen true []

/-! The stages. -/

/-- No trust has been put in the server. -/
def Wary (store known : List Bytes) (obs : List Obs) : Prop :=
  (∀ f ∈ frames obs, ¬Userauth f.payload) ∧ known = store

/-- A session that has sent its version line. -/
structure Greeted (store : List Bytes) (cs : Csess) (known : List Bytes) (obs : List Obs) :
    Prop where
  wary : Wary store known obs
  ourVersion : cs.ourVersion = ourVersionStr
  ourLine : ∃ took, .itsSend versionLine took ∈ obs

/-- The receive buffer holds what is left of the stream in front of the
server's version line. -/
structure AtVersion (store : List Bytes) (cs : Csess) (known : List Bytes) (obs : List Obs) : Prop
    extends Greeted store cs known obs where
  lines : ∀ more version, ServerLine (cs.rxBuf ++ more) version →
    ServerLine (inbound obs ++ more) version
  payloads : frames obs = []

structure AtKexinit (store : List Bytes) (cs : Csess) (known : List Bytes) (obs : List Obs) : Prop
    extends Greeted store cs known obs where
  serverLine : ServerLine (inbound obs) cs.peerVersion
  payloads : (frames obs).map Frame.payload = [cs.ourKexInit]

structure AtReply (store : List Bytes) (cs : Csess) (known : List Bytes) (obs : List Obs) : Prop
    extends Greeted store cs known obs where
  serverLine : ServerLine (inbound obs) cs.peerVersion
  payloads : (frames obs).map Frame.payload =
    [cs.ourKexInit, putString (putU8 [] msgKexEcdhInit) cs.ephPub]
  serverKexinit : .received .kexinit msgKexinit.toNat cs.peerKexInit ∈ obs
  priv : .random cs.ephPriv ∈ obs
  base : x25519Base P cs.ephPriv = some cs.ephPub

/-- A session whose keys come from an exchange with a remembered host. -/
def Trusting (host : Bytes) (store : List Bytes) (cs : Csess) (known : List Bytes)
    (obs : List Obs) : Prop :=
  ∃ x : Exchange, x.On P host obs ∧ Remembered store known host (hostkeyFingerprint P x.kS) ∧
    cs.encOut = true ∧ cs.sendKey = x.key P

/-- What each stage has behind it. -/
def Reached (host : Bytes) (store : List Bytes) (stage : Stage) (cs : Csess) (known : List Bytes)
    (obs : List Obs) : Prop :=
  match stage with
  | .version => AtVersion store cs known obs
  | .kexinit => AtKexinit store cs known obs
  | .reply => AtReply P store cs known obs
  | .newkeys | .login | .channel => Trusting P host store cs known obs
  | .finished => True

/-- The invariant of a session that was started for `host` with `store`. -/
structure TrustInv (host : Bytes) (store : List Bytes) (w : World) : Prop where
  named : w.job.host = host
  reached : Reached P host store w.pc.stage w.cs w.knownHosts w.obs
  justified : EachAfter (Justified P host store w.knownHosts) w.obs
  settled : (∃ x : Exchange, x.On P host w.obs ∧
      Remembered store w.knownHosts host (hostkeyFingerprint P x.kS)) ∨
    Wary store w.knownHosts w.obs

section
variable {P} {host : Bytes} {store known : List Bytes} {cs cs' : Csess} {obs os : List Obs}

theorem mem_frames {f : Frame} {obs : List Obs} : f ∈ frames obs ↔ .sealed f ∈ obs := by
  rw [frames, List.mem_filterMap]
  constructor
  · rintro ⟨o, ho, hf⟩
    cases o <;> simp_all
  · intro hm
    exact ⟨_, hm, rfl⟩

/-- Without user authentication there is nothing to justify. -/
theorem justified_of_none (h : ∀ f ∈ frames obs, ¬Userauth f.payload) :
    EachAfter (Justified P host store known) obs := by
  refine EachAfter.of_forall fun o ho pre ↦ ?_
  cases o with
  | sealed f => exact fun ha ↦ absurd ha (h f (mem_frames.mpr ho))
  | _ => trivial

theorem Wary.append (h : Wary store known obs) (hos : ∀ f ∈ frames os, ¬Userauth f.payload) :
    Wary store known (obs ++ os) := by
  refine ⟨fun f hf ↦ ?_, h.2⟩
  rw [frames_append, List.mem_append] at hf
  rcases hf with hf | hf
  · exact h.1 f hf
  · exact hos f hf

theorem Greeted.append (h : Greeted store cs known obs) (hv : cs'.ourVersion = cs.ourVersion)
    (hos : ∀ f ∈ frames os, ¬Userauth f.payload) : Greeted store cs' known (obs ++ os) := by
  obtain ⟨took, hm⟩ := h.ourLine
  exact ⟨h.wary.append hos, hv.trans h.ourVersion, took, List.mem_append_left os hm⟩

theorem AtKexinit.append (h : AtKexinit store cs known obs) (hc : cs'.core = cs.core)
    (hos : frames os = []) : AtKexinit store cs' known (obs ++ os) where
  toGreeted := h.toGreeted.append (congrArg Core.ourVersion hc) (by simp [hos])
  serverLine := by
    have hv : cs'.peerVersion = cs.peerVersion := congrArg Core.peerVersion hc
    rw [inbound_append, hv]
    exact h.serverLine.append _
  payloads := by
    have hi : cs'.ourKexInit = cs.ourKexInit := congrArg Core.ourKexInit hc
    rw [frames_append, hos, List.append_nil, hi, h.payloads]

theorem AtReply.append (h : AtReply P store cs known obs) (hc : cs'.core = cs.core)
    (hos : frames os = []) : AtReply P store cs' known (obs ++ os) where
  toGreeted := h.toGreeted.append (congrArg Core.ourVersion hc) (by simp [hos])
  serverLine := by
    have hv : cs'.peerVersion = cs.peerVersion := congrArg Core.peerVersion hc
    rw [inbound_append, hv]
    exact h.serverLine.append _
  payloads := by
    have hi : cs'.ourKexInit = cs.ourKexInit := congrArg Core.ourKexInit hc
    have hp : cs'.ephPub = cs.ephPub := congrArg Core.ephPub hc
    rw [frames_append, hos, List.append_nil, hi, hp, h.payloads]
  serverKexinit := by
    have hi : cs'.peerKexInit = cs.peerKexInit := congrArg Core.peerKexInit hc
    rw [hi]
    exact List.mem_append_left os h.serverKexinit
  priv := by
    have hp : cs'.ephPriv = cs.ephPriv := congrArg Core.ephPriv hc
    rw [hp]
    exact List.mem_append_left os h.priv
  base := by
    have hp : cs'.ephPriv = cs.ephPriv := congrArg Core.ephPriv hc
    have hq : cs'.ephPub = cs.ephPub := congrArg Core.ephPub hc
    rw [hp, hq]
    exact h.base

theorem Trusting.append (h : Trusting P host store cs known obs) (henc : cs'.encOut = cs.encOut)
    (hkey : cs'.sendKey = cs.sendKey) : Trusting P host store cs' known (obs ++ os) := by
  obtain ⟨x, hx, hr, he, hk⟩ := h
  exact ⟨x, hx.append os, hr, henc.trans he, hkey.trans hk⟩

/-- The packets of a trusting session are justified. -/
theorem Trusting.justified (h : Trusting P host store cs known obs)
    (hmode : ∀ f ∈ frames os, f.enc = cs.encOut ∧ f.key = cs.sendKey)
    (hj : EachAfter (Justified P host store known) obs) :
    EachAfter (Justified P host store known) (obs ++ os) := by
  obtain ⟨x, hx, hr, he, hk⟩ := h
  refine eachAfter_append.mpr ⟨hj, EachAfter.of_forall fun o ho pre ↦ ?_⟩
  cases o with
  | sealed f =>
    intro _
    obtain ⟨henc, hkey⟩ := hmode f (mem_frames.mpr ho)
    exact ⟨x, hx.append pre, hr, henc.trans he, hkey.trans hk⟩
  | _ => trivial

end

theorem stage_version {pc : Pc} (h : pc.stage = .version) : pc = .version := by
  cases pc <;> first | rfl | cases h

theorem stage_finished {pc : Pc} (h : pc.stage = .finished) : pc = .finished := by
  cases pc <;> first | rfl | cases h

/-- Stages in which the keys are derived. -/
def Stage.Late (stage : Stage) : Prop := stage = .newkeys ∨ stage.Keyed

section
variable {P} {host : Bytes} {store : List Bytes} {w w' : World} {os : List Obs}

theorem reached_late {stage : Stage} (h : stage.Late) {cs : Csess} {known : List Bytes}
    {obs : List Obs} : Reached P host store stage cs known obs =
      Trusting P host store cs known obs := by
  obtain rfl | rfl | rfl := h <;> rfl

theorem TrustInv.of_trusting (hn : w.job.host = host) (hs : w.pc.stage.Late)
    (ht : Trusting P host store w.cs w.knownHosts w.obs)
    (hj : EachAfter (Justified P host store w.knownHosts) w.obs) : TrustInv P host store w := by
  refine ⟨hn, ?_, hj, .inl ?_⟩
  · rw [reached_late hs]
    exact ht
  · obtain ⟨x, hx, hr, -⟩ := ht
    exact ⟨x, hx, hr⟩

theorem TrustInv.of_wary (hn : w.job.host = host)
    (hr : Reached P host store w.pc.stage w.cs w.knownHosts w.obs)
    (hw : Wary store w.knownHosts w.obs) : TrustInv P host store w :=
  ⟨hn, hr, justified_of_none hw.1, .inr hw⟩

theorem TrustInv.trusting (h : TrustInv P host store w) (hs : w.pc.stage.Late) :
    Trusting P host store w.cs w.knownHosts w.obs := by
  have hr := h.reached
  rwa [reached_late hs] at hr

/-- A trusting session goes on under the same keys. -/
theorem TrustInv.goOn (h : TrustInv P host store w) (hs : w.pc.stage.Late)
    (hs' : w'.pc.stage.Late) (hobs : w'.obs = w.obs ++ os)
    (hmode : ∀ f ∈ frames os, f.enc = w.cs.encOut ∧ f.key = w.cs.sendKey)
    (henc : w'.cs.encOut = w.cs.encOut) (hkey : w'.cs.sendKey = w.cs.sendKey)
    (hk : w'.knownHosts = w.knownHosts) (hn : w'.job.host = w.job.host) :
    TrustInv P host store w' := by
  have ht := h.trusting hs
  refine .of_trusting (hn.trans h.named) hs' ?_ ?_
  · rw [hk, hobs]
    exact ht.append henc hkey
  · rw [hk, hobs]
    exact ht.justified hmode h.justified

theorem TrustInv.sendLate (h : TrustInv P host store w) (hs : w.pc.stage.Late) (payload : Bytes) :
    TrustInv P host store (sendPacket P w payload) := by
  refine h.goOn hs (by rwa [sendPacket_pc]) (sendPacket_obs P w payload)
    (sendPacket_emits P w payload).mode ?_ ?_ (sendPacket_knownHosts P w payload)
    (by rw [sendPacket_job])
  · rw [sendPacket_cs]
  · rw [sendPacket_cs]

/-- Before the keys are derived a quiet session sends nothing. -/
theorem Calm.unsent {stage : Stage} (hs : ¬stage.Keyed) (hos : ∀ o ∈ os, o.Calm stage) :
    frames os = [] := by
  refine List.filterMap_eq_nil_iff.mpr fun o ho ↦ ?_
  have hc := hos o ho
  cases o with
  | sealed f => exact absurd hc.2.2 hs
  | _ => rfl

theorem TrustInv.grow (h : TrustInv P host store w) (hp : w.pc ≠ .version ∧ w.pc ≠ .finished)
    (hobs : w'.obs = w.obs ++ os)
    (hmode : ∀ f ∈ frames os, f.enc = w.cs.encOut ∧ f.key = w.cs.sendKey)
    (hearly : ¬w.pc.stage.Late → frames os = []) (hcore : w'.cs.core = w.cs.core)
    (hstage : w'.pc.stage = w.pc.stage) (hk : w'.knownHosts = w.knownHosts)
    (hn : w'.job.host = w.job.host) : TrustInv P host store w' := by
  by_cases hlate : w.pc.stage.Late
  · exact h.goOn hlate (hstage ▸ hlate) hobs hmode (congrArg Core.encOut hcore)
      (congrArg Core.sendKey hcore) hk hn
  · have hr := h.reached
    cases hst : w.pc.stage with
    | version => exact absurd (stage_version hst) hp.1
    | finished => exact absurd (stage_finished hst) hp.2
    | kexinit =>
      rw [hst] at hr
      have hr' : AtKexinit store w'.cs w'.knownHosts w'.obs := by
        rw [hobs, hk]
        exact AtKexinit.append hr hcore (hearly hlate)
      refine .of_wary (hn.trans h.named) ?_ hr'.wary
      rw [hstage, hst]
      exact hr'
    | reply =>
      rw [hst] at hr
      have hr' : AtReply P store w'.cs w'.knownHosts w'.obs := by
        rw [hobs, hk]
        exact AtReply.append hr hcore (hearly hlate)
      refine .of_wary (hn.trans h.named) ?_ hr'.wary
      rw [hstage, hst]
      exact hr'
    | newkeys => exact absurd (.inl hst) hlate
    | login => exact absurd (.inr (.inl hst)) hlate
    | channel => exact absurd (.inr (.inr hst)) hlate

theorem TrustInv.quiet (h : TrustInv P host store w) (hp : w.pc ≠ .version ∧ w.pc ≠ .finished)
    (hq : Quiet P w w') : TrustInv P host store w' := by
  obtain ⟨os, hobs, hcalm, hemit⟩ := hq.obs
  refine h.grow hp hobs hemit.mode (fun hlate ↦ ?_) hq.core hq.stage hq.knownHosts
    (congrArg Given.host hq.given)
  exact Calm.unsent (fun hk ↦ hlate (.inr hk)) hcalm

theorem TrustInv.note (h : TrustInv P host store w) (hp : w.pc ≠ .version ∧ w.pc ≠ .finished)
    {o : Obs} (ho : o.Unsent) : TrustInv P host store (w.note o) := by
  have hos : frames [o] = [] := frames_unsent (by simpa using ho)
  exact h.grow hp rfl (by simp [hos]) (fun _ ↦ hos) rfl rfl rfl rfl

/-- Before the end nothing is open but the exchange, or the server is trusted. -/
theorem TrustInv.wary (h : TrustInv P host store w) (hs : ¬w.pc.stage.Late)
    (hf : w.pc ≠ .finished) : Wary store w.knownHosts w.obs := by
  have hr := h.reached
  cases hst : w.pc.stage with
  | version => rw [hst] at hr; exact (AtVersion.toGreeted hr).wary
  | kexinit => rw [hst] at hr; exact (AtKexinit.toGreeted hr).wary
  | reply => rw [hst] at hr; exact (AtReply.toGreeted hr).wary
  | finished => exact absurd (stage_finished hst) hf
  | newkeys => exact absurd (.inl hst) hs
  | login => exact absurd (.inr (.inl hst)) hs
  | channel => exact absurd (.inr (.inr hst)) hs

theorem Final.unsent {stage : Stage} (hs : ¬stage.Keyed) (hos : ∀ o ∈ os, o.Final stage) :
    frames os = [] := by
  refine List.filterMap_eq_nil_iff.mpr fun o ho ↦ ?_
  have hc := hos o ho
  cases o with
  | sealed f => exact absurd hc.2.2 hs
  | _ => rfl

theorem TrustInv.gaveUp (h : TrustInv P host store w) (hp : w.pc ≠ .finished) (ho : Over P w w') :
    TrustInv P host store w' := by
  obtain ⟨os, hobs, hfinal, hemit⟩ := ho.obs
  have hn : w'.job.host = host := (congrArg Given.host ho.given).trans h.named
  have hreached : Reached P host store w'.pc.stage w'.cs w'.knownHosts w'.obs := by
    rw [ho.pc]
    trivial
  by_cases hlate : w.pc.stage.Late
  · have ht := h.trusting hlate
    obtain ⟨x, hx, hr, -⟩ := ht
    refine ⟨hn, hreached, ?_, .inl ⟨x, ?_, ?_⟩⟩
    · rw [hobs, ho.knownHosts]
      exact (h.trusting hlate).justified hemit.mode h.justified
    · rw [hobs]
      exact hx.append os
    · rw [ho.knownHosts]
      exact hr
  · have hos := Final.unsent (fun hk ↦ hlate (.inr hk)) hfinal
    refine .of_wary hn hreached ?_
    rw [hobs, ho.knownHosts]
    exact (h.wary hlate hp).append (by simp [hos])

theorem Wary.send {payload : Bytes} (h : Wary store w.knownHosts w.obs) (hp : ¬Userauth payload) :
    Wary store (sendPacket P w payload).knownHosts (sendPacket P w payload).obs := by
  rw [sendPacket_knownHosts, sendPacket_obs]
  refine h.append fun f hf ↦ ?_
  rw [frames_sendObs, List.mem_singleton] at hf
  rw [hf]
  exact hp

theorem AtKexinit.ecdhInit {pkt priv pub : Bytes} (h : AtKexinit store w.cs w.knownHosts w.obs)
    (hm : .received .kexinit msgKexinit.toNat pkt ∈ w.obs) (hb : x25519Base P priv = some pub) :
    let w' := sendPacket P (ephemeral (w.modify fun cs ↦ { cs with peerKexInit := pkt }) priv pub)
      (putString (putU8 [] msgKexEcdhInit) pub)
    AtReply P store w'.cs w'.knownHosts w'.obs := by
  intro w'
  have hrandom : frames [Obs.random priv] = [] := frames_unsent (by simp [Obs.Unsent])
  have hobs : w'.obs = w.obs ++ ([.random priv] ++ sendObs P
      (ephemeral (w.modify fun cs ↦ { cs with peerKexInit := pkt }) priv pub)
      (putString (putU8 [] msgKexEcdhInit) pub)) := by
    rw [← List.append_assoc]
    exact sendPacket_obs P _ _
  have hcs : w'.cs = { w.cs with
      peerKexInit := pkt
      ephPriv := priv
      ephPub := pub
      seqOut := w.cs.seqOut + 1 } := sendPacket_cs P _ _
  have hwary : Wary store w'.knownHosts w'.obs := by
    refine Wary.send (w := ephemeral (w.modify fun cs ↦ { cs with peerKexInit := pkt }) priv pub)
      (h.wary.append (by simp [hrandom])) ?_
    simp [Userauth, putU8, msgKexEcdhInit, msgUserauthRequest, msgUserauthInfoResponse]
  obtain ⟨took, hline⟩ := h.ourLine
  refine ⟨⟨hwary, ?_, took, ?_⟩, ?_, ?_, ?_, ?_, ?_⟩
  · rw [hcs]
    exact h.ourVersion
  · rw [hobs]
    exact List.mem_append_left _ hline
  · rw [hobs, hcs, inbound_append]
    exact h.serverLine.append _
  · rw [hobs, hcs, frames_append, frames_append, hrandom, List.nil_append, frames_sendObs,
      List.map_append, h.payloads]
    rfl
  · rw [hobs, hcs]
    exact List.mem_append_left _ hm
  · rw [hobs, hcs]
    simp
  · rw [hcs]
    exact hb

theorem AtVersion.startKex {line rest c : Bytes}
    (h : AtVersion store w.cs w.knownHosts w.obs) (hl : takeLine w.cs.rxBuf = some (line, rest))
    (hs : line.take 4 = ascii "SSH-") :
    let w' := sendPacket P
      (proposed (w.modify fun cs ↦ { cs with rxBuf := rest, peerVersion := line }) c)
      (putKexinit c)
    AtKexinit store w'.cs w'.knownHosts w'.obs := by
  intro w'
  have hrandom : frames [Obs.random c] = [] := frames_unsent (by simp [Obs.Unsent])
  have hobs : w'.obs = w.obs ++ ([.random c] ++ sendObs P
      (proposed (w.modify fun cs ↦ { cs with rxBuf := rest, peerVersion := line }) c)
      (putKexinit c)) := by
    rw [← List.append_assoc]
    exact sendPacket_obs P _ _
  have hcs : w'.cs = { w.cs with
      rxBuf := rest
      peerVersion := line
      ourKexInit := putKexinit c
      seqOut := w.cs.seqOut + 1 } := sendPacket_cs P _ _
  have hwary : Wary store w'.knownHosts w'.obs := by
    refine Wary.send
      (w := proposed (w.modify fun cs ↦ { cs with rxBuf := rest, peerVersion := line }) c)
      (h.wary.append (by simp [hrandom])) ?_
    simp [Userauth, putKexinit, putU8, putU32, putNamelist, putCstring, msgKexinit,
      msgUserauthRequest, msgUserauthInfoResponse]
  have hline : ServerLine (inbound w.obs) line := by
    have hlines := h.lines [] line
    rw [List.append_nil, List.append_nil] at hlines
    exact hlines (.here hl hs)
  obtain ⟨took, hours⟩ := h.ourLine
  refine ⟨⟨hwary, ?_, took, ?_⟩, ?_, ?_⟩
  · rw [hcs]
    exact h.ourVersion
  · rw [hobs]
    exact List.mem_append_left _ hours
  · rw [hobs, hcs, inbound_append]
    exact hline.append _
  · rw [hobs, hcs, frames_append, frames_append, hrandom, h.payloads, frames_sendObs]
    rfl

/-- The hash over the session's own fields is the hash of the exchange. -/
theorem exchanged_sessionId {x : Exchange} (hv : w.cs.ourVersion = ourVersionStr)
    (hsv : x.serverVersion = w.cs.peerVersion) (hci : x.clientKexinit = w.cs.ourKexInit)
    (hsi : x.serverKexinit = w.cs.peerKexInit) (hqc : x.qC = w.cs.ephPub) :
    (exchanged P w x.kS x.qS x.k).cs.sessionId = x.hash P := by
  rw [Exchange.hash, hsv, hci, hsi, hqc]
  simp only [exchanged, modify_cs, computeExchangeHash, exchangeTranscript, hashString, hashK,
    putString_eq, hv, List.nil_append]

theorem AtReply.verified {pkt ks qs sig hpub sig64 k note : Bytes} {known : List Bytes}
    (h : AtReply P store w.cs w.knownHosts w.obs) (hn : w.job.host = host)
    (hm : .received .kexEcdhReply msgKexEcdhReply.toNat pkt ∈ w.obs)
    (hr : kexEcdhReply pkt = .ok (ks, qs, sig))
    (hh : ed25519Blob ks 32 "host key not ssh-ed25519" "bad host pubkey" = .ok hpub)
    (hs : ed25519Blob sig 64 "host sig not ssh-ed25519" "bad host signature" = .ok sig64)
    (hx : x25519Scalar P w.cs.ephPriv qs = some k)
    (hv : ed25519Verify P hpub (exchanged P w ks qs k).cs.sessionId sig64 = true)
    (hk : knownHostsCheck w.knownHosts w.job.host (hostkeyFingerprint P ks) =
      (true, note, known)) :
    TrustInv P host store
      (keyed P (sendPacket P (trusted P w ks qs k hpub sig64 known) (putU8 [] msgNewkeys))) := by
  let x : Exchange :=
    { serverVersion := w.cs.peerVersion
      clientKexinit := w.cs.ourKexInit
      serverKexinit := w.cs.peerKexInit
      priv := w.cs.ephPriv
      qC := w.cs.ephPub
      reply := pkt
      kS := ks
      qS := qs
      sig := sig
      hpub := hpub
      sig64 := sig64
      k := k }
  have hhash : (exchanged P w ks qs k).cs.sessionId = x.hash P :=
    exchanged_sessionId (x := x) h.ourVersion rfl rfl rfl rfl
  let notes : List Obs := [.verify hpub (x.hash P) sig64 true,
    .knownHosts host (hostkeyFingerprint P ks) true]
  have hobs : (trusted P w ks qs k hpub sig64 known).obs = w.obs ++ notes := by
    rw [trusted, hhash, hn]
    exact List.append_assoc ..
  have hnotes : frames notes = [] := frames_unsent (by simp [notes, Obs.Unsent])
  have hon : x.On P host (w.obs ++ notes) :=
    { ourLine := h.ourLine.imp fun _ hm ↦ List.mem_append_left notes hm
      serverLine := by
        rw [inbound_append]
        exact h.serverLine.append _
      sent := by
        rw [frames_append, List.map_append, h.payloads]
        exact List.prefix_append _ _
      serverKexinit := List.mem_append_left notes h.serverKexinit
      priv := List.mem_append_left notes h.priv
      base := h.base
      reply := List.mem_append_left notes hm
      replied := hr
      hostKey := hh
      hostSig := hs
      shared := hx
      verified := hhash ▸ hv
      accepted := (List.suffix_append w.obs notes).isInfix }
  have hwary : ∀ f ∈ frames (w.obs ++ notes ++ sendObs P (trusted P w ks qs k hpub sig64 known)
      (putU8 [] msgNewkeys)), ¬Userauth f.payload := by
    intro f hf
    rw [frames_append, frames_append, hnotes, List.append_nil, frames_sendObs,
      List.mem_append, List.mem_singleton] at hf
    obtain hf | rfl := hf
    · exact h.wary.1 f hf
    · simp [sendFrame, Userauth, putU8, msgNewkeys, msgUserauthRequest, msgUserauthInfoResponse]
  have hsent : (keyed P (sendPacket P (trusted P w ks qs k hpub sig64 known)
      (putU8 [] msgNewkeys))).obs =
        w.obs ++ notes ++ sendObs P (trusted P w ks qs k hpub sig64 known) (putU8 [] msgNewkeys) := by
    rw [keyed_obs, sendPacket_obs, hobs]
  have hknown : (keyed P (sendPacket P (trusted P w ks qs k hpub sig64 known)
      (putU8 [] msgNewkeys))).knownHosts = known := by
    rw [keyed_knownHosts, sendPacket_knownHosts]
    rfl
  have hcs : (sendPacket P (trusted P w ks qs k hpub sig64 known) (putU8 [] msgNewkeys)).cs =
      { (exchanged P w ks qs k).cs with seqOut := w.cs.seqOut + 1 } := sendPacket_cs P _ _
  refine .of_trusting ?_ (.inl (by rw [keyed_pc]; rfl)) ⟨x, ?_, ?_, ?_, ?_⟩ ?_
  · rw [keyed_job, sendPacket_job]
    exact hn
  · rw [hsent]
    exact hon.append _
  · rw [hknown, ← hn, ← h.wary.2]
    exact knownHostsCheck_accepted hk
  · rw [keyed_cs]
  · rw [keyed_cs]
    exact deriveKey_congr P (by rw [hcs]; rfl) (by rw [hcs]; exact hhash) 67 64
  · rw [hsent]
    exact justified_of_none hwary

/-- A late session changes fields that are none of its keys. -/
theorem TrustInv.same (h : TrustInv P host store w) (hs : w.pc.stage.Late)
    (hs' : w'.pc.stage.Late) (hobs : w'.obs = w.obs) (henc : w'.cs.encOut = w.cs.encOut)
    (hkey : w'.cs.sendKey = w.cs.sendKey) (hk : w'.knownHosts = w.knownHosts)
    (hn : w'.job.host = w.job.host) : TrustInv P host store w' :=
  h.goOn hs hs' (hobs.trans (List.append_nil _).symm) (by simp [frames]) henc hkey hk hn

theorem TrustInv.replenish (h : TrustInv P host store w) (hs : w.pc.stage.Late) (n : ℕ) :
    TrustInv P host store (replenish P w n) := by
  by_cases hu : usedWindow w.cs n < localWindowMax / 2
  · rw [replenish_adjust P hu]
    have hm : TrustInv P host store (w.modify fun cs ↦ { cs with localWindow := usedWindow cs n }) :=
      h.same hs hs rfl rfl rfl rfl rfl
    refine (hm.sendLate hs _).same ?_ ?_ rfl rfl rfl rfl rfl
    · rwa [sendPacket_pc]
    · rwa [modify_pc, sendPacket_pc]
  · rw [replenish_none P hu]
    exact h.same hs hs rfl rfl rfl rfl rfl

theorem TrustInv.outcome {t : ℤ} {pkt : Bytes} (h : TrustInv P host store w)
    (hp : w.pc ≠ .version ∧ w.pc ≠ .finished) (hm : .received w.pc t pkt ∈ w.obs)
    (ho : Outcome P w t pkt w') : TrustInv P host store w' := by
  cases ho with
  | quiet _ hq => exact h.quiet hp hq
  | gaveUp hover => exact h.gaveUp hp.2 hover
  | ecdhInit hpc ht hb =>
    have hr := h.reached
    rw [hpc] at hr
    rw [hpc, ht] at hm
    have hnext := AtKexinit.ecdhInit hr hm hb
    exact .of_wary (by rw [goto_job, sendPacket_job]; exact h.named) hnext hnext.wary
  | verified hpc ht hreply hh hs hx hv hk =>
    have hr := h.reached
    rw [hpc] at hr
    rw [hpc, ht] at hm
    exact AtReply.verified hr h.named hm hreply hh hs hx hv hk
  | newkeys hpc =>
    have hs : w.pc.stage.Late := .inl (by rw [hpc]; rfl)
    have hn : TrustInv P host store (w.modify fun cs ↦ { cs with encIn := true }) :=
      h.same hs hs rfl rfl rfl rfl rfl
    refine (hn.sendLate hs _).same ?_ (.inr (.inl rfl)) rfl rfl rfl rfl rfl
    rwa [sendPacket_pc]
  | confirm hpc _ hq =>
    have hs : w.pc.stage.Late := .inr (.inl (by rw [hpc]; rfl))
    have hc : TrustInv P host store ((confirmChannel w pkt).goto .ptyReq) :=
      h.same hs (.inr (.inr rfl)) rfl rfl rfl rfl rfl
    exact hc.quiet (by simp) hq
  | adjust hpc =>
    have hs : w.pc.stage.Late := .inr (onChannel_keyed hpc)
    exact h.same hs hs rfl rfl rfl rfl rfl
  | @data hpc _ d _ =>
    have hq : Quiet P w (outWrite w d) := outWrite_quiet P w d
    have hs : (outWrite w d).pc.stage.Late := by
      rw [hq.stage, hpc]
      exact .inr (.inr rfl)
    exact (h.quiet hp hq).replenish hs _

theorem AtVersion.same (h : AtVersion store w.cs w.knownHosts w.obs)
    (hobs : w'.obs = w.obs ++ os) (hos : frames os = []) (hk : w'.knownHosts = w.knownHosts)
    (hv : w'.cs.ourVersion = w.cs.ourVersion)
    (hl : ∀ more version, ServerLine (w'.cs.rxBuf ++ more) version →
      ServerLine (inbound (w.obs ++ os) ++ more) version) :
    AtVersion store w'.cs w'.knownHosts w'.obs := by
  rw [hobs, hk]
  refine ⟨h.toGreeted.append hv (by simp [hos]), hl, ?_⟩
  rw [frames_append, hos, h.payloads, List.append_nil]

theorem TrustInv.atVersion (h : TrustInv P host store w) (hp : w.pc = .version) :
    AtVersion store w.cs w.knownHosts w.obs := by
  have hr := h.reached
  rw [hp] at hr
  exact hr

theorem TrustInv.of_atVersion (hn : w.job.host = host) (hp : w.pc = .version)
    (h : AtVersion store w.cs w.knownHosts w.obs) : TrustInv P host store w := by
  refine .of_wary hn ?_ h.wary
  rw [hp]
  exact h

theorem TrustInv.fill (h : TrustInv P host store w) (hp : w.pc ≠ .finished) :
    TrustInv P host store (fillRx w).2 := by
  have hread : ∀ data, frames [Obs.itsRecv data] = [] := fun _ ↦ rfl
  have hone : ∀ data, inbound [.itsRecv data] = data := fun _ ↦ List.append_nil _
  by_cases hv : w.pc = .version
  · have hr := h.atVersion hv
    refine .of_atVersion h.named hv (hr.same rfl (hread _) rfl rfl fun more version hline ↦ ?_)
    rw [inbound_append, List.append_assoc, hone]
    exact hr.lines (_ ++ more) version (by rwa [← List.append_assoc])
  · exact h.grow ⟨hv, hp⟩ rfl (by simp [frames]) (fun _ ↦ hread _) rfl rfl rfl rfl

theorem TrustInv.step (h : TrustInv P host store w) (hm : Move P w w') :
    TrustInv P host store w' := by
  cases hm with
  | idle hi =>
    refine ⟨(congrArg Given.host hi.given).trans h.named, ?_, ?_, ?_⟩
    · rw [hi.pc, hi.cs, hi.knownHosts, hi.obs]
      exact h.reached
    · rw [hi.knownHosts, hi.obs]
      exact h.justified
    · rw [hi.knownHosts, hi.obs]
      exact h.settled
  | quiet hp hq => exact h.quiet hp hq
  | gaveUp hp ho => exact h.gaveUp hp ho
  | fill hp => exact h.fill hp
  | @skipLine hp line rest hl hs =>
    have hr := h.atVersion hp
    refine .of_atVersion h.named hp (hr.same (List.append_nil _).symm rfl rfl rfl
      fun more version hline ↦ ?_)
    rw [List.append_nil]
    exact hr.lines more version (.skip (takeLine_append hl more) hs hline)
  | @startKex hp _ _ hl hs cookie =>
    have hnext := AtVersion.startKex (P := P) (c := cookie) (h.atVersion hp) hl hs
    exact .of_wary (by rw [goto_job, sendPacket_job]; exact h.named) hnext hnext.wary
  | received hp _ ho =>
    refine (h.note hp (by trivial)).outcome hp ?_ ho
    rw [note_obs, note_pc]
    exact List.mem_append_right _ (List.mem_singleton_self _)
  | pumpRound hs _ =>
    have hlate : w.pc.stage.Late := .inr (.inr hs)
    have hn : TrustInv P host store
        ({ w with typed := w.typed.drop 256 }.note (.typed (w.typed.take 256))) :=
      h.goOn hlate hlate rfl (by simp [frames]) rfl rfl rfl rfl
    exact hn.sendLate hlate _

end

theorem runSession_trust (env : Env) (job : SshJob) (store : List Bytes) :
    TrustInv P job.host store (runSession env job store) := by
  rcases lt_or_ge env.itsConnect 0 with hneg | hpos
  · obtain ⟨hobs, hpc, hhost, hk⟩ := runSession_refused hneg job store
    refine .of_wary hhost ?_ ⟨?_, hk⟩
    · rw [hpc]
      trivial
    · simp [hobs, frames]
  · obtain ⟨took, hobs, hcs, hpc, hjob, hk⟩ := runSession_connected hpos job store
    refine .of_atVersion (by rw [hjob]) hpc ⟨⟨⟨?_, hk⟩, ?_, took, ?_⟩, ?_, ?_⟩
    · simp [hobs, frames]
    · rw [hcs]
    · simp [hobs]
    · rw [hobs, hcs]
      exact fun more version hl ↦ hl
    · simp [hobs, frames]

/-- Nothing of the user is said to a server before it has proved to own the
host key that is remembered for it, and then under the keys of that exchange
alone; a run without that proof leaves the known hosts as they were. -/
theorem userauth_after_trust (P : Primitives) (env : Env) (job : SshJob) (store : List Bytes)
    (events : List Event) :
    let w := runFrom P (runSession env job store) events
    EachAfter (Justified P job.host store w.knownHosts) w.obs ∧
      ((∀ pub msg sig, .verify pub msg sig true ∉ w.obs) ∨
        (∀ host fp, .knownHosts host fp true ∉ w.obs) →
          (∀ f, .sealed f ∈ w.obs → ¬Userauth f.payload) ∧ w.knownHosts = store) := by
  intro w
  have hrun : TrustInv P job.host store w :=
    run_induction P (runSession_trust P env job store) (fun _ _ hm h ↦ h.step hm) events
  refine ⟨hrun.justified, fun hfail ↦ ?_⟩
  obtain ⟨x, hx, -⟩ | hwary := hrun.settled
  · have hmem := hx.accepted.subset
    rcases hfail with hv | hk
    · exact absurd (hmem List.mem_cons_self) (hv _ _ _)
    · exact absurd (hmem (List.mem_cons_of_mem _ List.mem_cons_self)) (hk _ _)
  · exact ⟨fun f hf ↦ hwary.1 f (mem_frames.mpr hf), hwary.2⟩

theorem userauth_after_trust_login :
    (frames (sampleRun (serverBytes 8 8 []) [] 11).obs).any
        (fun f ↦ f.payload.head? = some msgUserauthRequest) ∧
      EachAfter (Justified standIn (ascii "host") []
        (sampleRun (serverBytes 8 8 []) [] 11).knownHosts)
        (sampleRun (serverBytes 8 8 []) [] 11).obs :=
  ⟨by decide +kernel, (userauth_after_trust standIn sampleEnv sampleJob [] _).1⟩

end Sshd.Client
