import Sshd.Lib.Credit
import Sshd.Client.Steps

namespace Sshd.Client

open Lib.Octets Lib.Trace Lib.Credit Wire Crypto Framing

variable {P : Primitives}

/-! Send side. -/

/-- The bytes of a CHANNEL_DATA that the client sends, behind its type, channel
and length. -/
def dataSent : Obs → ℕ
  | .sealed f => if f.payload.head? = some msgChannelData then (f.payload.drop 9).length else 0
  | _ => 0

/-- The keystrokes taken from `job.in`. -/
def keystrokes : Obs → ℕ
  | .typed d => d.length
  | _ => 0

/-- What a packet lets the client send. -/
def Kind.grant : Kind → ℕ
  | .confirm window _ => window.toNat
  | .adjust amount => amount.toNat
  | _ => 0

def granted : Obs → ℕ
  | .received pc t pkt => (kindOf pc t pkt).grant
  | _ => 0

/-- Nothing is larger than a packet that the server confirmed. -/
def FitsPacket (obs : List Obs) (n : ℕ) : Prop :=
  ∀ pc t pkt window maxPacket, .received pc t pkt ∈ obs →
    kindOf pc t pkt = .confirm window maxPacket → n ≤ maxPacket.toNat

/-- What `size` counts stays, entry by entry, within the window and the
packet size that the server has granted. -/
structure FlowControlled (size : Obs → ℕ) (obs : List Obs) : Prop where
  window : Within 0 granted size obs
  packet : EachAfter (fun pre o ↦ FitsPacket pre (size o)) obs

section
variable {size : Obs → ℕ} {obs os : List Obs} {o : Obs}

/-- There is room for `n` more. -/
def Affords (size : Obs → ℕ) (obs : List Obs) (n : ℕ) : Prop :=
  (0 < n → tally size obs + n ≤ 0 + tally granted obs) ∧ FitsPacket obs n

theorem flowControlled_snoc : FlowControlled size (obs ++ [o]) ↔
    FlowControlled size obs ∧ Affords size obs (size o) := by
  have hpacket : EachAfter (fun pre o ↦ FitsPacket pre (size o)) (obs ++ [o]) ↔
      EachAfter (fun pre o ↦ FitsPacket pre (size o)) obs ∧ FitsPacket obs (size o) := by
    rw [eachAfter_append, eachAfter_singleton, List.append_nil]
  constructor
  · rintro ⟨hw, hp⟩
    obtain ⟨hw, hwo⟩ := within_snoc.mp hw
    obtain ⟨hp, hpo⟩ := hpacket.mp hp
    exact ⟨⟨hw, hp⟩, hwo, hpo⟩
  · rintro ⟨⟨hw, hp⟩, hwo, hpo⟩
    exact ⟨within_snoc.mpr ⟨hw, hwo⟩, hpacket.mpr ⟨hp, hpo⟩⟩

theorem fitsPacket_zero (obs : List Obs) : FitsPacket obs 0 := fun _ _ _ _ _ _ _ ↦ Nat.zero_le _

theorem flowControlled_append (h : ∀ o ∈ os, size o = 0) :
    FlowControlled size (obs ++ os) ↔ FlowControlled size obs := by
  have hpacket : EachAfter (fun pre o ↦ FitsPacket pre (size o)) (obs ++ os) ↔
      EachAfter (fun pre o ↦ FitsPacket pre (size o)) obs := by
    rw [eachAfter_append]
    refine and_iff_left (EachAfter.of_forall fun o ho pre ↦ ?_)
    rw [h o ho]
    exact fitsPacket_zero _
  constructor
  · rintro ⟨hw, hp⟩
    exact ⟨(within_append h).mp hw, hpacket.mp hp⟩
  · rintro ⟨hw, hp⟩
    exact ⟨(within_append h).mpr hw, hpacket.mpr hp⟩

/-- Calls that receive nothing. -/
def Obs.Unreceived : Obs → Prop
  | .received _ _ _ => False
  | _ => True

theorem affords_append (hr : ∀ o ∈ os, o.Unreceived) (hs : ∀ o ∈ os, size o = 0) (n : ℕ) :
    Affords size (obs ++ os) n ↔ Affords size obs n := by
  have hg : ∀ o ∈ os, granted o = 0 := by
    intro o ho
    have hu := hr o ho
    cases o with
    | received => exact hu.elim
    | _ => rfl
  have hmem : ∀ {pc t pkt}, .received pc t pkt ∈ obs ++ os ↔ .received pc t pkt ∈ obs := by
    intro pc t pkt
    rw [List.mem_append]
    exact or_iff_left fun hm ↦ (hr _ hm).elim
  simp only [Affords, FitsPacket, tally_append_zero hs, tally_append_zero hg, hmem]

end

/-- Calls that neither carry keystrokes nor bring any. -/
def Obs.Mute : Obs → Prop
  | .sealed f => f.payload.head? ≠ some msgChannelData
  | .typed _ => False
  | _ => True

theorem Obs.Mute.dataSent {o : Obs} (h : o.Mute) : dataSent o = 0 := by
  cases o with
  | sealed f => exact if_neg h
  | _ => rfl

theorem Obs.Mute.keystrokes {o : Obs} (h : o.Mute) : keystrokes o = 0 := by
  cases o with
  | typed => exact h.elim
  | _ => rfl

theorem Obs.Calm.mute {stage : Stage} {o : Obs} (h : o.Calm stage) : o.Mute := by
  cases o with
  | sealed f => exact h.1.1
  | typed => exact h.elim
  | _ => trivial

theorem Obs.Final.mute {stage : Stage} {o : Obs} (h : o.Final stage) : o.Mute := by
  cases o with
  | sealed f => exact h.1.1
  | typed => exact h.elim
  | _ => trivial

/-- `w'` has recorded nothing since `w` but mute calls. -/
def Muted (w w' : World) : Prop := Adds Obs.Mute w w'

section
variable {w w₁ w' : World}

theorem Muted.send (w : World) {payload : Bytes} (h : payload.head? ≠ some msgChannelData) :
    Muted w (sendPacket P w payload) :=
  Adds.send w (fun f hf ↦ by rwa [← hf] at h) (fun _ ↦ trivial) fun _ _ ↦ trivial

theorem Quiet.muted (h : Quiet P w w') : Muted w w' := h.adds fun _ ho ↦ ho.mute

theorem Over.muted (h : Over P w w') : Muted w w' := h.adds fun _ ho ↦ ho.mute

theorem replenish_muted (w : World) (n : ℕ) : Muted w (replenish P w n) := by
  refine replenish_adds P w n (fun f add hpay ↦ ?_) (fun _ ↦ trivial) fun _ _ ↦ trivial
  simp [Obs.Mute, hpay, channelWindowAdjust, putU8, putU32, msgChannelWindowAdjust, msgChannelData]

theorem Outcome.muted {t : ℤ} {pkt : Bytes} (h : Outcome P w t pkt w') : Muted w w' := by
  cases h with
  | quiet _ hq => exact hq.muted
  | gaveUp ho => exact ho.muted
  | @ecdhInit _ _ priv pub _ =>
    have he : Muted w (ephemeral (w.modify fun cs ↦ { cs with peerKexInit := pkt }) priv pub) :=
      Adds.note w (by trivial)
    exact he.trans (Muted.send _ (by simp [putU8, msgKexEcdhInit, msgChannelData]))
  | @verified _ _ ks qs sig hpub sig64 k note store =>
    have ht : Muted w (trusted P w ks qs k hpub sig64 store) :=
      ⟨_, List.append_assoc .., by simp [Obs.Mute]⟩
    have hsend : Muted w (sendPacket P (trusted P w ks qs k hpub sig64 store)
        (putU8 [] msgNewkeys)) :=
      ht.trans (Muted.send _ (by simp [putU8, msgNewkeys, msgChannelData]))
    exact hsend.trans (Adds.same (keyed_obs P _))
  | newkeys =>
    have hn : Muted w (w.modify fun cs ↦ { cs with encIn := true }) := Adds.same rfl
    exact hn.trans (Muted.send _ (by simp [putU8, putCstring, msgServiceRequest, msgChannelData]))
  | confirm _ _ hq =>
    have hc : Muted w ((confirmChannel w pkt).goto .ptyReq) := Adds.same rfl
    exact hc.trans hq.muted
  | adjust => exact Adds.same rfl
  | @data _ _ d _ =>
    have hq : Quiet P w (outWrite w d) := outWrite_quiet P w d
    exact hq.muted.trans (replenish_muted _ _)

theorem proposed_muted (w : World) (cookie : Bytes) :
    Muted w (sendPacket P (proposed w cookie) (putKexinit cookie)) := by
  have hp : Muted w (proposed w cookie) := ⟨[.random cookie], rfl, by simp [Obs.Mute]⟩
  have hhead : (putKexinit cookie).head? = some msgKexinit := by
    simp [putKexinit, putU8, putU32, putNamelist, putCstring]
  refine hp.trans (Muted.send _ ?_)
  rw [hhead]
  decide

/-- Only a round of `pump_input` takes keystrokes, and sends them. -/
theorem Move.muted (h : Move P w w') : Muted w w' ∨
    w'.obs = w.obs ++ .typed (w.typed.take 256) :: sendObs P
      ({ w with typed := w.typed.drop 256 }.note (.typed (w.typed.take 256)))
      (channelData w.cs (w.typed.take 256)) := by
  cases h with
  | idle hi => exact .inl (Adds.same hi.obs)
  | quiet _ hq => exact .inl hq.muted
  | gaveUp _ ho => exact .inl ho.muted
  | fill => exact .inl ⟨_, rfl, by simp [Obs.Mute]⟩
  | skipLine => exact .inl (Adds.same rfl)
  | @startKex _ line rest _ _ cookie =>
    have hline : Muted w (w.modify fun cs ↦ { cs with rxBuf := rest, peerVersion := line }) :=
      Adds.same rfl
    exact .inl (hline.trans (proposed_muted _ cookie))
  | @received _ _ t pkt _ ho =>
    have hn : Muted w (w.note (.received w.pc t pkt)) := Adds.note w (by trivial)
    exact .inl (hn.trans ho.muted)
  | pumpRound =>
    refine .inr ?_
    rw [sendPacket_obs, note_obs, List.append_assoc]
    rfl

end

/-- What is sent is what was typed. -/
structure Relayed (w : World) : Prop where
  total : tally dataSent w.obs = tally keystrokes w.obs
  controlled : FlowControlled dataSent w.obs ↔ FlowControlled keystrokes w.obs

theorem Relayed.mute {w w' : World} (h : Relayed w) (hm : Muted w w') : Relayed w' := by
  obtain ⟨os, hobs, hos⟩ := hm
  have hd : ∀ o ∈ os, dataSent o = 0 := fun o ho ↦ (hos o ho).dataSent
  have hk : ∀ o ∈ os, keystrokes o = 0 := fun o ho ↦ (hos o ho).keystrokes
  refine ⟨?_, ?_⟩
  · rw [hobs, tally_append_zero hd, tally_append_zero hk, h.total]
  · rw [hobs, flowControlled_append hd, flowControlled_append hk, h.controlled]

theorem channelData_carries (cs : Csess) (d : Bytes) :
    (channelData cs d).head? = some msgChannelData ∧ (channelData cs d).drop 9 = d := by
  simp [channelData, putU8, putU32, lenPrefixed, be32]

theorem Relayed.round {w w' : World} {ib : Bytes} {f : Frame} {pad : Bytes} {rest : List Obs}
    (h : Relayed w)
    (hobs : w'.obs = (w.obs ++ [.typed ib]) ++ ([.random pad] ++ [.sealed f] ++ rest))
    (hf : f.payload.head? = some msgChannelData ∧ f.payload.drop 9 = ib)
    (hrest : ∀ o ∈ rest, ∃ data took, o = .itsSend data took) : Relayed w' := by
  have hsize : dataSent (.sealed f) = ib.length := by rw [dataSent, if_pos hf.1, hf.2]
  have hdata : ∀ o ∈ rest, dataSent o = 0 := fun o ho ↦ by
    obtain ⟨_, _, rfl⟩ := hrest o ho
    rfl
  have hkeys : ∀ o ∈ [.random pad] ++ [.sealed f] ++ rest, keystrokes o = 0 := fun o ho ↦ by
    simp only [List.mem_append, List.mem_singleton] at ho
    obtain (rfl | rfl) | ho := ho
    · rfl
    · rfl
    · obtain ⟨_, _, rfl⟩ := hrest o ho
      rfl
  have hpre : ∀ o ∈ [Obs.typed ib] ++ [.random pad], o.Unreceived ∧ dataSent o = 0 := by
    simp [Obs.Unreceived, dataSent]
  have hobs' : w'.obs = (w.obs ++ ([.typed ib] ++ [.random pad])) ++ [.sealed f] ++ rest := by
    rw [hobs]
    simp only [List.append_assoc]
  have hafford : Affords dataSent w.obs ib.length ↔ Affords keystrokes w.obs ib.length := by
    rw [Affords, Affords, h.total]
  refine ⟨?_, ?_⟩
  · have hd : tally dataSent w'.obs = tally dataSent w.obs + ib.length := by
      rw [hobs', tally_append_zero hdata, tally_snoc, hsize,
        tally_append_zero fun o ho ↦ (hpre o ho).2]
    have hk : tally keystrokes w'.obs = tally keystrokes w.obs + ib.length := by
      rw [hobs, tally_append_zero hkeys, tally_snoc]
      rfl
    rw [hd, hk, h.total]
  · have hd : FlowControlled dataSent w'.obs ↔
        FlowControlled dataSent w.obs ∧ Affords dataSent w.obs ib.length := by
      rw [hobs', flowControlled_append hdata, flowControlled_snoc, hsize,
        flowControlled_append fun o ho ↦ (hpre o ho).2,
        affords_append (fun o ho ↦ (hpre o ho).1) fun o ho ↦ (hpre o ho).2]
    have hk : FlowControlled keystrokes w'.obs ↔
        FlowControlled keystrokes w.obs ∧ Affords keystrokes w.obs ib.length := by
      rw [hobs, flowControlled_append hkeys, flowControlled_snoc]
      rfl
    rw [hd, hk, h.controlled, hafford]

theorem Relayed.step {w w' : World} (h : Relayed w) (hm : Move P w w') : Relayed w' := by
  obtain hmute | hround := hm.muted
  · exact h.mute hmute
  · obtain ⟨rest, hsend, hrest⟩ := sendObs_eq P
      ({ w with typed := w.typed.drop 256 }.note (.typed (w.typed.take 256)))
      (channelData w.cs (w.typed.take 256))
    rw [hsend, List.append_cons] at hround
    exact h.round hround (channelData_carries w.cs _) hrest

theorem runSession_muted (env : Env) (job : SshJob) (store : List Bytes) :
    ∀ o ∈ (runSession env job store).obs, o.Mute := by
  rcases lt_or_ge env.itsConnect 0 with hneg | hpos
  · obtain ⟨hobs, -⟩ := runSession_refused hneg job store
    simp [hobs, Obs.Mute]
  · obtain ⟨took, hobs, -⟩ := runSession_connected hpos job store
    simp [hobs, Obs.Mute]

/-- The client keeps within the server's window and packet size exactly as
long as the keystrokes do. -/
theorem flowControlled_iff (P : Primitives) (env : Env) (job : SshJob) (store : List Bytes)
    (events : List Event) :
    FlowControlled dataSent (runFrom P (runSession env job store) events).obs ↔
      FlowControlled keystrokes (runFrom P (runSession env job store) events).obs := by
  have hinit : Relayed (runSession env job store) := by
    have hmute := runSession_muted env job store
    have hd : ∀ o ∈ (runSession env job store).obs, dataSent o = 0 := fun o ho ↦
      (hmute o ho).dataSent
    have hk : ∀ o ∈ (runSession env job store).obs, keystrokes o = 0 := fun o ho ↦
      (hmute o ho).keystrokes
    refine ⟨by rw [tally_eq_zero hd, tally_eq_zero hk], ?_⟩
    have hnil : ∀ size, FlowControlled size [] := fun size ↦ ⟨within_nil, eachAfter_nil _⟩
    rw [← List.nil_append (runSession env job store).obs, flowControlled_append hd,
      flowControlled_append hk]
    exact iff_of_true (hnil _) (hnil _)
  exact (run_induction P hinit (fun _ _ hm h ↦ h.step hm) events).controlled

/-- Three keystrokes, a window of two bytes. -/
theorem small_window_overrun :
    ¬FlowControlled dataSent (sampleRun (serverBytes 2 8 []) (ascii "ls\n") 11).obs :=
  fun h ↦ absurd h.window (by decide +kernel)

end Sshd.Client
