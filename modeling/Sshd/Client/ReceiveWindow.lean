import Sshd.Lib.Credit
import Sshd.Client.Steps

namespace Sshd.Client

open Lib.Octets Lib.Trace Lib.Credit Wire Crypto Framing
open Server (standIn)

variable {P : Primitives}

/-- What a CHANNEL_WINDOW_ADJUST that the client sends gives back, behind its
type and channel. -/
def adjustSent : Obs → ℕ
  | .sealed f =>
    if f.payload.head? = some msgChannelWindowAdjust then ofBe32 (f.payload.drop 5) else 0
  | _ => 0

def Kind.dataBytes : Kind → ℕ
  | .data n => n
  | _ => 0

def Kind.extendedBytes : Kind → ℕ
  | .extended n => n
  | _ => 0

def dataReceived : Obs → ℕ
  | .received pc t pkt => (kindOf pc t pkt).dataBytes
  | _ => 0

def extendedReceived : Obs → ℕ
  | .received pc t pkt => (kindOf pc t pkt).extendedBytes
  | _ => 0

/-- Both kinds of data use up the window. -/
def consumed (o : Obs) : ℕ := dataReceived o + extendedReceived o

/-- The server sends no more than it was given. -/
def Respects (obs : List Obs) : Prop := Within localWindowMax.toNat adjustSent consumed obs

instance (obs : List Obs) : Decidable (Respects obs) :=
  inferInstanceAs (Decidable (Within _ _ _ obs))

/-- What the server may still send. -/
def allowance (obs : List Obs) : ℤ :=
  localWindowMax.toNat + tally adjustSent obs - tally dataReceived obs - tally extendedReceived obs

/-- The counter is the server's allowance, and at least half of the window is
left of that. -/
def AccountsWindow (w : World) : Prop :=
  (w.cs.localWindow.toNat : ℤ) = allowance w.obs ∧
    (localWindowMax.toNat / 2 : ℕ) ≤ allowance w.obs

instance (w : World) : Decidable (AccountsWindow w) :=
  inferInstanceAs (Decidable (_ ∧ _))

/-- Calls that change nothing the counter counts. -/
def Obs.Uncounted (o : Obs) : Prop := adjustSent o = 0 ∧ dataReceived o = 0

/-- Until the channel is confirmed nothing is counted; then the counter is the
window less the data alone. -/
structure Counted (w : World) : Prop where
  early : w.pc.stage ≠ .channel → w.pc.stage ≠ .finished →
    tally adjustSent w.obs = 0 ∧ tally dataReceived w.obs = 0
  half : w.pc.stage = .channel → localWindowMax.toNat / 2 ≤ w.cs.localWindow.toNat
  exact : w.pc.stage = .channel → Respects w.obs →
    w.cs.localWindow.toNat + tally dataReceived w.obs =
      localWindowMax.toNat + tally adjustSent w.obs

theorem consumed_eq (obs : List Obs) :
    tally consumed obs = tally dataReceived obs + tally extendedReceived obs := by
  induction obs with
  | nil => rfl
  | cons o obs ih =>
    simp only [tally, consumed] at ih ⊢
    omega

theorem Respects.earlier {obs os : List Obs} (h : Respects (obs ++ os)) : Respects obs :=
  (eachAfter_append.mp h).1

theorem Obs.Calm.uncounted {stage : Stage} {o : Obs} (h : o.Calm stage) : o.Uncounted := by
  cases o with
  | sealed f => exact ⟨if_neg h.1.2, rfl⟩
  | received => exact h.elim
  | _ => exact ⟨rfl, rfl⟩

section
variable {w w' : World}

theorem Counted.grow (h : Counted w) (ha : Adds Obs.Uncounted w w')
    (hstage : w'.pc.stage = w.pc.stage) (hwin : w'.cs.localWindow = w.cs.localWindow) :
    Counted w' := by
  obtain ⟨os, hobs, hos⟩ := ha
  have hadj := tally_append_zero (l := w.obs) fun o ho ↦ (hos o ho).1
  have hdata := tally_append_zero (l := w.obs) fun o ho ↦ (hos o ho).2
  refine ⟨?_, ?_, ?_⟩
  · rw [hstage, hobs, hadj, hdata]
    exact h.early
  · rw [hstage, hwin]
    exact h.half
  · rw [hstage, hwin, hobs, hadj, hdata]
    exact fun hs hr ↦ h.exact hs hr.earlier

theorem Counted.pass (h : Counted w) (ha : Adds Obs.Uncounted w w')
    (hs : w.pc.stage ≠ .channel) (hf : w.pc.stage ≠ .finished) (hs' : w'.pc.stage ≠ .channel) :
    Counted w' := by
  obtain ⟨os, hobs, hos⟩ := ha
  have hadj := tally_append_zero (l := w.obs) fun o ho ↦ (hos o ho).1
  have hdata := tally_append_zero (l := w.obs) fun o ho ↦ (hos o ho).2
  refine ⟨fun _ _ ↦ ?_, fun hc ↦ absurd hc hs', fun hc ↦ absurd hc hs'⟩
  rw [hobs, hadj, hdata]
  exact h.early hs hf

theorem Counted.finished (hp : w.pc = .finished) : Counted w := by
  have hs : w.pc.stage = .finished := by
    rw [hp]
    rfl
  have hne : w.pc.stage ≠ .channel := by simp [hs]
  exact ⟨fun _ hf ↦ absurd hs hf, fun hc ↦ absurd hc hne, fun hc ↦ absurd hc hne⟩

theorem Counted.quiet (h : Counted w) (hq : Quiet P w w') : Counted w' :=
  h.grow (hq.adds fun _ ho ↦ ho.uncounted) hq.stage (congrArg Core.localWindow hq.core)

theorem tally_sendPacket {f : Obs → ℕ} (hr : ∀ bytes, f (.random bytes) = 0)
    (hs : ∀ data took, f (.itsSend data took) = 0) (w : World) (payload : Bytes) :
    tally f (sendPacket P w payload).obs = tally f w.obs + f (.sealed (sendFrame w payload)) := by
  obtain ⟨rest, hsend, hrest⟩ := sendObs_eq P w payload
  have hzero : ∀ o ∈ rest, f o = 0 := fun o ho ↦ by
    obtain ⟨_, _, rfl⟩ := hrest o ho
    exact hs _ _
  have hpad : ∀ o ∈ [Obs.random (sendFrame w payload).pad], f o = 0 := by
    simpa using hr _
  rw [sendPacket_obs, hsend, ← List.append_assoc, ← List.append_assoc, tally_append_zero hzero,
    tally_snoc, tally_append_zero hpad]

theorem adjustSent_sendFrame (w : World) (cs : Csess) (add : UInt32) :
    adjustSent (.sealed (sendFrame w (channelWindowAdjust cs add))) = add.toNat := by
  have hdrop : (channelWindowAdjust cs add).drop 5 = be32 add.toNat := by
    simp [channelWindowAdjust, putU8, putU32, be32]
  have hhead : (channelWindowAdjust cs add).head? = some msgChannelWindowAdjust := rfl
  rw [adjustSent, sendFrame, if_pos hhead, hdrop, ofBe32_be32, Nat.mod_eq_of_lt add.toNat_lt]

theorem usedWindow_toNat {cs : Csess} {n : ℕ} (h : n ≤ cs.localWindow.toNat) :
    (usedWindow cs n).toNat + n = cs.localWindow.toNat := by
  have hlt := cs.localWindow.toNat_lt
  unfold usedWindow
  split
  · have hn : (UInt32.ofNat n).toNat = n := by
      rw [UInt32.toNat_ofNat', Nat.mod_eq_of_lt (h.trans_lt hlt)]
    have hle : UInt32.ofNat n ≤ cs.localWindow := by
      rw [UInt32.le_iff_toNat_le, hn]
      exact h
    rw [UInt32.toNat_sub_of_le _ _ hle, hn]
    omega
  · have h0 : (0 : UInt32).toNat = 0 := rfl
    omega

theorem replenish_window (w : World) (n : ℕ) :
    localWindowMax.toNat / 2 ≤ (replenish P w n).cs.localWindow.toNat ∧
      (replenish P w n).cs.localWindow.toNat + tally adjustSent w.obs =
        (usedWindow w.cs n).toNat + tally adjustSent (replenish P w n).obs ∧
      tally dataReceived (replenish P w n).obs = tally dataReceived w.obs := by
  have hhalf : (localWindowMax / 2).toNat = localWindowMax.toNat / 2 := by decide
  by_cases hu : usedWindow w.cs n < localWindowMax / 2
  · have hle : usedWindow w.cs n ≤ localWindowMax := by
      have hmax : localWindowMax / 2 ≤ localWindowMax := by decide
      exact UInt32.le_trans (UInt32.le_of_lt hu) hmax
    have hsub := UInt32.toNat_sub_of_le _ _ hle
    have hnat := UInt32.le_iff_toNat_le.mp hle
    rw [replenish_adjust P hu, modify_obs, modify_cs]
    rw [tally_sendPacket (f := adjustSent) (fun _ ↦ rfl) fun _ _ ↦ rfl,
      tally_sendPacket (f := dataReceived) (fun _ ↦ rfl) fun _ _ ↦ rfl]
    refine ⟨Nat.div_le_self _ _, ?_, rfl⟩
    rw [adjustSent_sendFrame, hsub, modify_obs]
    generalize localWindowMax.toNat = max at hnat ⊢
    omega
  · rw [replenish_none P hu]
    refine ⟨?_, rfl, rfl⟩
    rw [← hhalf]
    exact UInt32.le_iff_toNat_le.mp (UInt32.not_lt.mp hu)

theorem Counted.data (h : Counted w) (hp : w.pc = .pump) {t : ℤ}
    (ht : t = msgChannelData.toNat) {pkt d : Bytes} (hd : dataOf pkt = some d) :
    Counted (replenish P (outWrite (w.note (.received w.pc t pkt)) d) d.length) := by
  have hs : w.pc.stage = .channel := by
    rw [hp]
    rfl
  have hkind : kindOf w.pc t pkt = .data d.length := by
    rw [hp, kindOf]
    simp [hd, ht, Pc.onChannel, msgChannelData, msgChannelWindowAdjust]
  have hsize : dataReceived (.received w.pc t pkt) = d.length ∧
      extendedReceived (.received w.pc t pkt) = 0 := by
    rw [dataReceived, extendedReceived, hkind]
    exact ⟨rfl, rfl⟩
  have hq : Quiet P (w.note (.received w.pc t pkt)) _ := outWrite_quiet P _ d
  obtain ⟨os, hobs, hos⟩ := hq.adds fun _ ho ↦ ho.uncounted
  have hwin : (outWrite (w.note (.received w.pc t pkt)) d).cs.localWindow = w.cs.localWindow :=
    congrArg Core.localWindow hq.core
  have hadj := tally_append_zero (l := (w.note (.received w.pc t pkt)).obs) fun o ho ↦ (hos o ho).1
  have hdata := tally_append_zero (l := (w.note (.received w.pc t pkt)).obs) fun o ho ↦ (hos o ho).2
  have hstage := hq.stage.trans hs
  obtain ⟨hhalf, hback, hkept⟩ :=
    replenish_window (P := P) (outWrite (w.note (.received w.pc t pkt)) d) d.length
  have hgrow : ∃ os, (replenish P (outWrite (w.note (.received w.pc t pkt)) d) d.length).obs =
      (w.obs ++ [.received w.pc t pkt]) ++ os := by
    have ha := hq.adds (p := fun _ ↦ True) fun _ _ ↦ trivial
    obtain ⟨os, hobs, -⟩ := ha.trans (replenish_adds P _ d.length (fun _ _ _ ↦ trivial)
      (fun _ ↦ trivial) fun _ _ ↦ trivial)
    exact ⟨os, hobs⟩
  rw [← replenish_pc P _ d.length] at hstage
  refine ⟨fun hne ↦ absurd hstage hne, fun _ ↦ hhalf, fun _ hr ↦ ?_⟩
  obtain ⟨os', hgrow⟩ := hgrow
  have hr' : Respects (w.obs ++ [.received w.pc t pkt]) := Respects.earlier (hgrow ▸ hr)
  obtain ⟨hr₀, hfits⟩ := within_snoc.mp hr'
  have hexact := h.exact hs hr₀
  rw [consumed_eq, consumed, hsize.1, hsize.2] at hfits
  have hle : d.length ≤ w.cs.localWindow.toNat := by
    rcases Nat.eq_zero_or_pos d.length with h0 | hpos
    · omega
    · have := hfits (by omega)
      omega
  have hused := usedWindow_toNat (hwin.symm ▸ hle)
  rw [hobs, hadj, note_obs, tally_snoc] at hback
  rw [hkept, hobs, hdata, note_obs, tally_snoc, hsize.1]
  rw [hwin] at hused
  have hzero : adjustSent (.received w.pc t pkt) = 0 := rfl
  omega

theorem Adds.uncounted (w : World) {payload : Bytes}
    (h : payload.head? ≠ some msgChannelWindowAdjust) :
    Adds Obs.Uncounted w (sendPacket P w payload) :=
  .send w (fun _ hf ↦ ⟨if_neg (hf ▸ h), rfl⟩) (fun _ ↦ ⟨rfl, rfl⟩) fun _ _ ↦ ⟨rfl, rfl⟩

theorem Counted.confirm (h : Counted w) (hp : w.pc = .channelOpen)
    (ha : Adds Obs.Uncounted w w') (hs : w'.pc.stage = .channel)
    (hwin : w'.cs.localWindow = localWindowMax) : Counted w' := by
  obtain ⟨os, hobs, hos⟩ := ha
  have hadj := tally_append_zero (l := w.obs) fun o ho ↦ (hos o ho).1
  have hdata := tally_append_zero (l := w.obs) fun o ho ↦ (hos o ho).2
  obtain ⟨h0, h0'⟩ := h.early (by simp [hp, Pc.stage]) (by simp [hp, Pc.stage])
  refine ⟨fun hne ↦ absurd hs hne, fun _ ↦ ?_, fun _ _ ↦ ?_⟩
  · rw [hwin]
    exact Nat.div_le_self _ _
  · rw [hwin, hobs, hadj, hdata, h0, h0']

theorem Counted.outcome {t : ℤ} {pkt : Bytes} (h : Counted w)
    (ho : Outcome P (w.note (.received w.pc t pkt)) t pkt w') : Counted w' := by
  have hnote : dataReceived (.received w.pc t pkt) = 0 →
      Adds Obs.Uncounted w (w.note (.received w.pc t pkt)) :=
    fun h0 ↦ .note w ⟨rfl, h0⟩
  have hlogin : w.pc.onChannel = false → dataReceived (.received w.pc t pkt) = 0 := fun hc ↦ by
    rw [dataReceived, kindOf_login hc]
    rfl
  cases ho with
  | quiet hk hq =>
    have h0 : dataReceived (.received w.pc t pkt) = 0 := by
      rw [note_pc] at hk
      rw [dataReceived]
      cases hkind : kindOf w.pc t pkt <;> first | rfl | (rw [hkind] at hk; exact hk.elim)
    exact (h.grow (hnote h0) rfl rfl).quiet hq
  | gaveUp hover => exact .finished hover.pc
  | @ecdhInit hpc _ priv pub _ =>
    rw [note_pc] at hpc
    have h0 := hlogin (by rw [hpc]; rfl)
    have he : Adds Obs.Uncounted (w.note (.received w.pc t pkt)) (ephemeral
        ((w.note (.received w.pc t pkt)).modify fun cs ↦ { cs with peerKexInit := pkt })
        priv pub) := .note _ ⟨rfl, rfl⟩
    refine h.pass (((hnote h0).trans he).trans (.uncounted _ ?_)) ?_ ?_ ?_
    · simp [putU8, msgKexEcdhInit, msgChannelWindowAdjust]
    · simp [hpc, Pc.stage]
    · simp [hpc, Pc.stage]
    · simp [Pc.stage]
  | @verified hpc _ ks qs sig hpub sig64 k note store =>
    rw [note_pc] at hpc
    have h0 := hlogin (by rw [hpc]; rfl)
    have ht : Adds Obs.Uncounted (w.note (.received w.pc t pkt))
        (trusted P (w.note (.received w.pc t pkt)) ks qs k hpub sig64 store) :=
      ⟨_, List.append_assoc .., by simp [Obs.Uncounted, adjustSent, dataReceived]⟩
    have hsend : Adds Obs.Uncounted w (sendPacket P
        (trusted P (w.note (.received w.pc t pkt)) ks qs k hpub sig64 store)
        (putU8 [] msgNewkeys)) :=
      ((hnote h0).trans ht).trans
        (.uncounted _ (by simp [putU8, msgNewkeys, msgChannelWindowAdjust]))
    refine h.pass (hsend.trans (.same (keyed_obs P _))) ?_ ?_ ?_
    · simp [hpc, Pc.stage]
    · simp [hpc, Pc.stage]
    · simp [keyed, Pc.stage]
  | newkeys hpc =>
    rw [note_pc] at hpc
    have h0 := hlogin (by rw [hpc]; rfl)
    have hn : Adds Obs.Uncounted (w.note (.received w.pc t pkt))
        ((w.note (.received w.pc t pkt)).modify fun cs ↦ { cs with encIn := true }) := .same rfl
    refine h.pass (((hnote h0).trans hn).trans (.uncounted _ ?_)) ?_ ?_ ?_
    · simp [putU8, putCstring, msgServiceRequest, msgChannelWindowAdjust]
    · simp [hpc, Pc.stage]
    · simp [hpc, Pc.stage]
    · simp [Pc.stage]
  | confirm hpc ht hq =>
    rw [note_pc] at hpc
    have h0 : dataReceived (.received w.pc t pkt) = 0 := by
      rw [dataReceived, hpc, kindOf, if_pos ⟨rfl, ht⟩]
      rfl
    have hc : Adds Obs.Uncounted (w.note (.received w.pc t pkt))
        ((confirmChannel (w.note (.received w.pc t pkt)) pkt).goto .ptyReq) := .same rfl
    exact h.confirm hpc (((hnote h0).trans hc).trans (hq.adds fun _ ho ↦ ho.uncounted)) hq.stage
      (congrArg Core.localWindow hq.core)
  | adjust hpc ht =>
    have h0 : dataReceived (.received w.pc t pkt) = 0 := by
      rw [dataReceived, kindOf, ht, if_neg (by simp [msgChannelWindowAdjust, msgChannelOpenConfirm]),
        if_pos ⟨hpc, rfl⟩]
      rfl
    exact h.grow ((hnote h0).trans (.same rfl)) rfl rfl
  | data hpc ht hd => exact h.data hpc ht hd

theorem Counted.step (h : Counted w) (hm : Move P w w') : Counted w' := by
  cases hm with
  | idle hi =>
    exact h.grow (.same hi.obs) (by rw [hi.pc]) (by rw [hi.cs])
  | quiet _ hq => exact h.quiet hq
  | gaveUp _ ho => exact .finished ho.pc
  | fill => exact h.grow ⟨_, rfl, by simp [Obs.Uncounted, adjustSent, dataReceived]⟩ rfl rfl
  | skipLine => exact h.grow (.same rfl) rfl rfl
  | @startKex hp line rest _ _ cookie =>
    have hprop : Adds Obs.Uncounted w (proposed
        (w.modify fun cs ↦ { cs with rxBuf := rest, peerVersion := line }) cookie) :=
      .note w ⟨rfl, rfl⟩
    refine h.pass (hprop.trans (.uncounted _ ?_)) ?_ ?_ ?_
    · simp [putKexinit, putU8, putU32, putNamelist, putCstring, msgKexinit, msgChannelWindowAdjust]
    · simp [hp, Pc.stage]
    · simp [hp, Pc.stage]
    · simp [Pc.stage]
  | received _ _ ho => exact h.outcome ho
  | pumpRound hs =>
    have ht : Adds Obs.Uncounted w
        ({ w with typed := w.typed.drop 256 }.note (.typed (w.typed.take 256))) :=
      .note w ⟨rfl, rfl⟩
    refine h.grow (ht.trans (.uncounted _ ?_)) (by rw [sendPacket_pc]; rfl)
      (by rw [sendPacket_cs]; rfl)
    simp [channelData, putU8, putU32, msgChannelData, msgChannelWindowAdjust]

end

theorem runSession_counted (env : Env) (job : SshJob) (store : List Bytes) :
    Counted (runSession env job store) := by
  rcases lt_or_ge env.itsConnect 0 with hneg | hpos
  · exact .finished (runSession_refused hneg job store).2.1
  · obtain ⟨took, hobs, -, hpc, -⟩ := runSession_connected hpos job store
    have hs : (runSession env job store).pc.stage ≠ .channel := by simp [hpc, Pc.stage]
    refine ⟨fun _ _ ↦ ?_, fun hc ↦ absurd hc hs, fun hc ↦ absurd hc hs⟩
    rw [hobs]
    exact ⟨rfl, rfl⟩

/-- In the pump, against a server that respects the window, the accounts are
right exactly as long as there was no extended data. -/
theorem accountsWindow_iff (P : Primitives) (env : Env) (job : SshJob) (store : List Bytes)
    (events : List Event)
    (hr : Respects (runFrom P (runSession env job store) events).obs)
    (hp : (runFrom P (runSession env job store) events).pc = .pump) :
    AccountsWindow (runFrom P (runSession env job store) events) ↔
      tally extendedReceived (runFrom P (runSession env job store) events).obs = 0 := by
  have hrun : Counted (runFrom P (runSession env job store) events) :=
    run_induction P (runSession_counted env job store) (fun _ _ hm h ↦ h.step hm) events
  generalize runFrom P (runSession env job store) events = w at hr hp hrun
  have hs : w.pc.stage = .channel := by
    rw [hp]
    rfl
  have hhalf := hrun.half hs
  have hexact := hrun.exact hs hr
  unfold AccountsWindow allowance
  constructor
  · rintro ⟨hcount, -⟩
    omega
  · intro h0
    constructor <;> omega

def serverData (data : Bytes) : Bytes :=
  putString (putU32 (putU8 [] msgChannelData) 0) data

def serverWindowAdjust (add : UInt32) : Bytes :=
  putU32 (putU32 (putU8 [] msgChannelWindowAdjust) 0) add

/-- A server that greets, widens the window of the client and writes on. -/
theorem accountsWindow_shell :
    let w := sampleRun (serverBytes 8 8
      [serverData (ascii "hello\n"), serverWindowAdjust 64, serverData (ascii "$ ")]) [] 14
    tally dataReceived w.obs = 8 ∧ AccountsWindow w := by
  refine ⟨by decide +kernel, (accountsWindow_iff standIn sampleEnv sampleJob []
    (.tcpArrive (serverBytes 8 8
      [serverData (ascii "hello\n"), serverWindowAdjust 64, serverData (ascii "$ ")]) ::
        .typed [] :: List.replicate 14 (.poll false)) ?_ ?_).mpr ?_⟩
  · decide +kernel
  · decide +kernel
  · decide +kernel

def serverExtendedData (data : Bytes) : Bytes :=
  putString (putU32 (putU32 (putU8 [] msgChannelExtendedData) 0) 1) data

/-- A server that writes three bytes to the standard error. -/
theorem stderr_unaccounted :
    let w := sampleRun (serverBytes 8 8 [serverExtendedData (ascii "oh\n")]) [] 12
    Respects w.obs ∧ w.pc = .pump ∧ ¬AccountsWindow w := by
  decide +kernel

end Sshd.Client
