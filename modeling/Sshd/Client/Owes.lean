import Sshd.Client.Asking
import Sshd.Client.FlowControl
import Sshd.Server.Attended

namespace Sshd.Client

open Lib.Octets Wire Crypto Framing

/-! What a client is still owed. -/

/-- On the way from `w` to `w'` the call returns `pkt`, if that is anything; `ps` is
said and `d` is shown. -/
structure Deals (w : World) (pkt : Bytes) (ps : List Bytes) (d : Bytes) (w' : World) : Prop where
  replies : replies (heard (openings w'.obs)) = replies (heard (openings w.obs)) ++ replies [pkt]
  shown : (heard (openings w'.obs)).flatMap shown =
    (heard (openings w.obs)).flatMap shown ++ shown pkt
  said : said (frames w'.obs) = said (frames w.obs) ++ ps
  printed : printed w'.obs = printed w.obs ++ d
  given : w'.job.given = w.job.given

/-- A round of the loop that a worker waits in, as far as the dialogue goes. -/
inductive Progress (w : World) : World → Prop
  | quiet {w'} (h : Deals w [] [] [] w') (hpc : w'.pc = w.pc ∨ w.pc = .version ∧ w'.pc = .finished) :
      Progress w w'
  | hello {w' p} (hp : w.pc = .version) (hh : p.head? = some msgKexinit)
      (h : Deals w [] [p] [] w') (hpc : w'.pc = .kexinit) : Progress w w'
  | returned {v t pkt w'} (hp : w.pc ≠ .version ∧ w.pc ≠ .finished) (hv : Deals w pkt [] [] v)
      (hpc : v.pc = w.pc) (hr : Returns t pkt) (h : Proceeds v t pkt w') : Progress w w'

/-- The request for the command was the last one, and was granted. -/
structure Granted (w : World) : Prop where
  settled : answersTo .request (heard (openings w.obs)) = asked .request (said (frames w.obs))
  reply : lastReply (heard (openings w.obs)) = some msgChannelSuccess
  command : ∃ cs, lastRequest (said (frames w.obs)) = some (commandPayload w.job cs)

/-- A client that waits has asked and has no answer yet. It asks one thing after the
other, prints what it gets, and passes on what is typed once its command is
granted. -/
structure Owes (w : World) : Prop where
  waits : ∀ q, w.pc.waits = some q →
    answersTo q (heard (openings w.obs)) < asked q (said (frames w.obs))
  ahead : ∀ q ∈ w.pc.ahead, asked q (said (frames w.obs)) = 0
  unproposed : w.pc = .version ∨ w.pc = .kexinit → msgKexinit ∉ replies (heard (openings w.obs))
  unprobed : ∀ p ∈ said (frames w.obs), probes p = false
  silent : w.pc ≠ .pump → w.pc ≠ .finished → ∀ p ∈ said (frames w.obs),
    p.head? ≠ some msgChannelWindowAdjust ∧ p.head? ≠ some msgChannelData
  request : w.pc.waits = some .request →
    asked .request (said (frames w.obs)) = answersTo .request (heard (openings w.obs)) + 1
  command : w.pc = .channelRequest →
    ∃ cs, lastRequest (said (frames w.obs)) = some (commandPayload w.job cs)
  granted : w.pc = .pump ∨ (∃ p ∈ said (frames w.obs), p.head? = some msgChannelData) → Granted w
  order : (said (frames w.obs)).Pairwise fun p r ↦
    p.head? = some msgChannelData → r.head? ≠ some msgChannelRequest
  admitted : w.pc.onChannel = true → msgUserauthSuccess ∈ replies (heard (openings w.obs))
  requests : ∀ p ∈ said (frames w.obs), p.head? = some msgChannelRequest →
    (∃ cs size, p = ptyReqPayload cs size) ∨ ∃ cs, p = commandPayload w.job cs
  prints : printed w.obs <+: (heard (openings w.obs)).flatMap shown
  printsAll : w.pc ≠ .finished → printed w.obs = (heard (openings w.obs)).flatMap shown

/-- What the other side answers was asked for, and what it shows was let in. -/
structure Causal (w w' : World) : Prop where
  answered : ∀ q, answersTo q (heard (openings w'.obs)) ≤ asked q (said (frames w.obs))
  unfound : (∀ p ∈ said (frames w.obs), probes p = false) →
    msgUserauthInfoRequest ∉ replies (heard (openings w'.obs))
  unshown : (∀ p ∈ said (frames w.obs), p.head? ≠ some msgChannelOpen ∧
    p.head? ≠ some msgChannelWindowAdjust) → (heard (openings w'.obs)).flatMap shown = []
  short : ∀ p ∈ said (frames w'.obs), p.length < 2 ^ 32

section
variable {P : Primitives} {ps : List Bytes} {d pkt : Bytes} {w v w' : World} {t : ℤ}

theorem Deals.utters (h : Deals w pkt [] [] v) (hu : Utters ps d v w') : Deals w pkt ps d w' := by
  refine ⟨?_, ?_, ?_, ?_, hu.given.trans h.given⟩
  · rw [hu.openings, h.replies]
  · rw [hu.openings, h.shown]
  · rw [hu.said, h.said, List.append_nil]
  · rw [hu.printed, h.printed, List.append_nil]

theorem Deals.answersTo (h : Deals w pkt ps d w') (q : Query) :
    Sshd.answersTo q (heard (openings w'.obs)) = Sshd.answersTo q (heard (openings w.obs)) +
      Sshd.answersTo q [pkt] := by
  rw [Sshd.answersTo, h.replies, List.countP_append]
  rfl

theorem Deals.asked (h : Deals w pkt ps d w') (q : Query) :
    asked q (Framing.said (frames w'.obs)) =
      Sshd.asked q (Framing.said (frames w.obs)) + Sshd.asked q ps := by
  rw [h.said, asked_append]

theorem Deals.mem_said (h : Deals w pkt ps d w') {p : Bytes} (hp : p ∈ Framing.said (frames w'.obs)) :
    p ∈ Framing.said (frames w.obs) ∨ p ∈ ps := by
  rw [h.said] at hp
  exact List.mem_append.mp hp

/-- Messages of these types leave the requests alone. -/
theorem Granted.keep (h : Granted w) (hd : Deals w pkt ps d w')
    (hr : (replies [pkt]).filter (· ∈ Query.request.answers) = [])
    (hps : ∀ p ∈ ps, p.head? ≠ some msgChannelRequest) : Granted w' := by
  refine ⟨?_, ?_, ?_⟩
  · have hnone : answersTo .request [pkt] = 0 := by
      rw [answersTo, List.countP_eq_length_filter, hr]
      rfl
    rw [hd.answersTo, hd.asked, hnone, asked_request_eq_zero hps, h.settled]
  · rw [lastReply, hd.replies, List.filter_append, hr, List.append_nil]
    exact h.reply
  · obtain ⟨cs, hcs⟩ := h.command
    refine ⟨cs, ?_⟩
    rw [hd.said, lastRequest_append hps, hcs, commandPayload_given hd.given]

theorem Owes.order_append (h : Owes w) (hd : Deals w pkt ps d w')
    (hps : ∀ p ∈ ps, p.head? ≠ some msgChannelRequest) :
    (said (frames w'.obs)).Pairwise fun p r ↦
      p.head? = some msgChannelData → r.head? ≠ some msgChannelRequest := by
  rw [hd.said]
  exact List.pairwise_append.mpr ⟨h.order, List.pairwise_of_forall_mem_list fun _ _ r hr _ ↦ hps r hr,
    fun _ _ r hr _ ↦ hps r hr⟩

/-- The requests stay what they were. -/
theorem Owes.requests_append (h : Owes w) (hd : Deals w pkt ps d w')
    (hps : ∀ p ∈ ps, p.head? = some msgChannelRequest →
      (∃ cs size, p = ptyReqPayload cs size) ∨ ∃ cs, p = commandPayload w.job cs) :
    ∀ p ∈ said (frames w'.obs), p.head? = some msgChannelRequest →
      (∃ cs size, p = ptyReqPayload cs size) ∨ ∃ cs, p = commandPayload w'.job cs := by
  intro p hm hh
  have hold := (hd.mem_said hm).elim (fun hm ↦ h.requests p hm hh) fun hm ↦ hps p hm hh
  exact hold.imp_right fun ⟨cs, hcs⟩ ↦ ⟨cs, hcs.trans (commandPayload_given hd.given.symm cs)⟩

theorem Deals.mem_replies (h : Deals w pkt ps d w') {b : UInt8}
    (hb : b ∈ Sshd.replies (heard (openings w.obs))) : b ∈ Sshd.replies (heard (openings w'.obs)) := by
  rw [h.replies]
  exact List.mem_append_left _ hb

/-- The client gives up. -/
theorem Owes.gaveUp (h : Owes w) (hp : w.pc ≠ .pump ∧ w.pc ≠ .finished)
    (hd : Deals w pkt [] [] w') (hpc : w'.pc = .finished) : Owes w' := by
  have hsaid := hd.said
  have hprinted := hd.printed
  rw [List.append_nil] at hsaid hprinted
  have hdata : ¬∃ p ∈ said (frames w.obs), p.head? = some msgChannelData :=
    fun ⟨p, hm, hh⟩ ↦ (h.silent hp.1 hp.2 p hm).2 hh
  constructor
  · rw [hpc]
    nofun
  · rw [hpc]
    nofun
  · rw [hpc]
    nofun
  · rw [hsaid]
    exact h.unprobed
  · exact fun _ hn ↦ absurd hpc hn
  · rw [hpc]
    nofun
  · rw [hpc]
    nofun
  · rw [hpc, hsaid]
    rintro (hpump | hm)
    · cases hpump
    · exact absurd hm hdata
  · rw [hsaid]
    exact h.order
  · rw [hpc]
    nofun
  · exact h.requests_append hd (List.forall_mem_nil _)
  · rw [hprinted, hd.shown]
    exact h.prints.trans (List.prefix_append _ _)
  · exact fun hn ↦ absurd hpc hn

/-- Places that wait for the same answer. -/
def Beside (pc pc' : Pc) : Prop :=
  pc' = pc ∨ pc = .version ∧ pc' = .kexinit ∨ pc = .kexEcdhReply ∧ pc' = .newkeys

theorem Beside.same {pc pc' : Pc} (h : Beside pc pc') : pc'.waits = pc.waits ∧
    pc'.ahead = pc.ahead ∧ (pc' = .version ∨ pc' = .kexinit → pc = .version ∨ pc = .kexinit) ∧
      pc'.onChannel = pc.onChannel ∧
        ∀ x ∈ [Pc.channelRequest, .pump, .finished], pc' = x ↔ pc = x := by
  obtain rfl | ⟨rfl, rfl⟩ | ⟨rfl, rfl⟩ := h
  · exact ⟨rfl, rfl, id, rfl, fun _ _ ↦ Iff.rfl⟩
  · decide
  · decide

/-- The client goes on waiting for the same answer. -/
theorem Owes.stays (h : Owes w) (hd : Deals w pkt ps [] w') (hpc : Beside w.pc w'.pc)
    (hr : replies [pkt] = []) (hs : Client.shown pkt = [])
    (hps : ∀ p ∈ ps, ∃ b ∉ [30, 5, 50, 90, 98, 93, 94], p.head? = some b) : Owes w' := by
  obtain ⟨hwaits, hahead, hopening, hplace, hsame⟩ := hpc.same
  have hother {b : UInt8} (hb : b ∈ [30, 5, 50, 90, 98, 93, 94]) (p : Bytes) (hp : p ∈ ps) :
      p.head? ≠ some b := by
    obtain ⟨b', hb', hh⟩ := hps p hp
    rw [hh]
    exact fun he ↦ hb' (Option.some.inj he ▸ hb)
  have hanswers (q : Query) : answersTo q (heard (openings w'.obs)) =
      answersTo q (heard (openings w.obs)) := by
    rw [answersTo, hd.replies, hr, List.append_nil]
    rfl
  have hasked (q : Query) : asked q (said (frames w'.obs)) = asked q (said (frames w.obs)) := by
    have hnone : asked q ps = 0 := asked_eq_zero q fun p hp ↦ by
      obtain ⟨b, hb, hh⟩ := hps p hp
      exact ⟨b, fun hm ↦ hb (List.mem_append_left [93, 94] hm), hh⟩
    rw [hd.asked, hnone, Nat.add_zero]
  have hprinted := hd.printed
  rw [List.append_nil] at hprinted
  have hshown := hd.shown
  rw [hs, List.append_nil] at hshown
  constructor
  · intro q hq
    rw [hanswers, hasked]
    exact h.waits q (hwaits ▸ hq)
  · intro q hq
    rw [hasked]
    exact h.ahead q (hahead ▸ hq)
  · intro hv
    rw [hd.replies, hr, List.append_nil]
    exact h.unproposed (hopening hv)
  · intro p hp
    obtain hm | hm := hd.mem_said hp
    · exact h.unprobed p hm
    · obtain ⟨b, hb, hh⟩ := hps p hm
      exact probes_of_head hh fun he ↦ hb (by rw [he]; decide)
  · intro hn hf p hp
    obtain hm | hm := hd.mem_said hp
    · exact h.silent (mt (hsame _ (by decide)).mpr hn) (mt (hsame _ (by decide)).mpr hf) p hm
    · exact ⟨hother (by decide) p hm, hother (by decide) p hm⟩
  · intro hq
    rw [hanswers, hasked]
    exact h.request (hwaits ▸ hq)
  · intro hc
    obtain ⟨cs, hcs⟩ := h.command ((hsame _ (by decide)).mp hc)
    refine ⟨cs, ?_⟩
    rw [hd.said, lastRequest_append (hother (by decide)), hcs, commandPayload_given hd.given]
  · intro hg
    refine (h.granted ?_).keep hd (by rw [hr]; rfl) (hother (by decide))
    refine hg.imp (hsame _ (by decide)).mp ?_
    rintro ⟨p, hm, hh⟩
    obtain hm | hm := hd.mem_said hm
    · exact ⟨p, hm, hh⟩
    · exact absurd hh (hother (by decide) p hm)
  · exact h.order_append hd (hother (by decide))
  · exact fun ho ↦ hd.mem_replies (h.admitted (hplace ▸ ho))
  · exact h.requests_append hd fun p hm hh ↦ absurd hh (hother (by decide) p hm)
  · rw [hprinted, hshown]
    exact h.prints
  · intro hf
    rw [hprinted, hshown]
    exact h.printsAll (mt (hsame _ (by decide)).mpr hf)

theorem Pc.ahead_of_waits {pc : Pc} {q q' : Query} (h : pc.waits = some q) (h' : q' ∈ pc.ahead) :
    q' ≠ q := by
  rintro rfl
  revert h h'
  cases pc <;> cases q' <;> decide

/-- Behind the login a client waits for its channel. -/
theorem Pc.waits_onChannel {pc : Pc} {q : Query} (h : pc.waits = some q)
    (h' : pc.onChannel = true) : q = .channel ∨ q = .request := by
  revert h h'
  cases pc <;> cases q <;> decide

/-- The client asks the next thing. -/
theorem Owes.asks {q : Query} {p : Bytes} (h : Owes w) (hc : Causal w w')
    (hp : w.pc ≠ .version ∧ w.pc ≠ .finished) (hd : Deals w pkt [p] [] w')
    (hw : w'.pc.waits = some q) (ha : w'.pc.ahead ⊆ w.pc.ahead)
    (hq : q.asks p = true ∧ probes p = false) (hs : w.pc = .noneProbe ∨ Client.shown pkt = [])
    (hl : q = .channel → replies [pkt] = [msgUserauthSuccess])
    (hr : q = .request → w.pc = .channelOpen ∨ w.pc = .ptyReq ∧ answersTo .request [pkt] = 1)
    (hcmd : q = .request → w'.pc = .ptyReq ∧ (∃ cs size, p = ptyReqPayload cs size) ∨
      ∃ cs, p = commandPayload w.job cs) : Owes w' := by
  have hn : w.pc ≠ .pump := by
    intro hpump
    have hnil : w'.pc.ahead = [] := List.subset_nil.mp (by rwa [hpump] at ha)
    have hreq : q = .request := by
      revert hnil hw
      cases w'.pc <;> cases q <;> decide
    obtain hr | ⟨hr, -⟩ := hr hreq
    · cases hpump.symm.trans hr
    · cases hpump.symm.trans hr
  have hhead := Query.head_of_asks hq.1
  have hne {b : UInt8} (hb : b ∉ [30, 5, 50, 90, 98]) : p.head? ≠ some b := by
    rw [hhead]
    exact fun he ↦ hb (Option.some.inj he ▸ q.type_mem)
  have hasked : asked q [p] = 1 := by rw [asked, List.countP_singleton, if_pos hq.1]
  have hmute := h.silent hn hp.2
  have hsilent : ∀ r ∈ said (frames w'.obs),
      r.head? ≠ some msgChannelWindowAdjust ∧ r.head? ≠ some msgChannelData := by
    intro r hm
    obtain hm | hm := hd.mem_said hm
    · exact hmute r hm
    · rw [List.mem_singleton.mp hm]
      exact ⟨hne (by decide), hne (by decide)⟩
  have hprinted := hd.printed
  rw [List.append_nil] at hprinted
  have hall := h.printsAll hp.2
  have hnothing : Client.shown pkt = [] := by
    obtain hs | hs := hs
    · have hnone := hc.unshown fun r hm ↦ ⟨fun he ↦ ?_, (hmute r hm).1⟩
      · rw [hd.shown] at hnone
        exact (List.append_eq_nil_iff.mp hnone).2
      · have hz : asked .channel (said (frames w.obs)) = 0 := h.ahead .channel (by rw [hs]; decide)
        exact List.countP_eq_zero.mp hz r hm (decide_eq_true he)
    · exact hs
  have hshown := hd.shown
  rw [hnothing, List.append_nil] at hshown
  constructor
  · intro q' hq'
    obtain rfl := Option.some.inj (hw.symm.trans hq')
    rw [hd.asked, hasked]
    exact Nat.lt_succ_of_le (hc.answered _)
  · intro q' hq'
    have hother : asked q' [p] = 0 := by
      rw [asked, List.countP_singleton, if_neg]
      exact fun hq'' ↦ Pc.ahead_of_waits hw hq' (Query.asks_unique hq'' hq.1)
    rw [hd.asked, h.ahead q' (ha hq'), hother]
  · intro hv
    obtain hv | hv := hv <;>
      · rw [hv] at hw
        cases hw
  · intro r hm
    obtain hm | hm := hd.mem_said hm
    · exact h.unprobed r hm
    · rw [List.mem_singleton.mp hm]
      exact hq.2
  · exact fun _ _ ↦ hsilent
  · intro hq'
    obtain rfl := Option.some.inj (hw.symm.trans hq')
    have hle := hc.answered .request
    have hans := hd.answersTo .request
    rw [hd.asked, hasked]
    obtain hpc | ⟨hpc, hone⟩ := hr rfl
    · have hz := h.ahead .request (by rw [hpc]; decide)
      omega
    · have hlast := h.request (by rw [hpc]; rfl)
      omega
  · intro hpc
    obtain rfl : q = .request := by
      rw [hpc] at hw
      exact (Option.some.inj hw).symm
    obtain ⟨hpty, -⟩ | ⟨cs, rfl⟩ := hcmd rfl
    · cases hpc.symm.trans hpty
    refine ⟨cs, ?_⟩
    have hsome : (Server.wantReply (commandPayload w.job cs)).isSome := by
      have hany : (Server.wantReply (commandPayload w.job cs)).any (· ≠ 0) = true := hq.1
      revert hany
      cases Server.wantReply (commandPayload w.job cs) <;> simp
    rw [hd.said, lastRequest_snoc, if_pos hsome, commandPayload_given hd.given]
  · rintro (hpump | ⟨r, hm, hh⟩)
    · rw [hpump] at hw
      cases hw
    · exact absurd hh (hsilent r hm).2
  · exact List.pairwise_of_forall_mem_list fun r hm _ _ hh ↦ absurd hh (hsilent r hm).2
  · intro ho
    obtain rfl | rfl := Pc.waits_onChannel hw ho
    · rw [hd.replies, hl rfl]
      exact List.mem_append_right _ (List.mem_singleton_self _)
    · refine hd.mem_replies (h.admitted ?_)
      obtain hpc | ⟨hpc, -⟩ := hr rfl <;>
        · rw [hpc]
          rfl
  · refine h.requests_append hd fun r hm hh ↦ ?_
    obtain rfl := List.mem_singleton.mp hm
    have htype : q.type = Query.request.type := Option.some.inj (hhead.symm.trans hh)
    exact (hcmd (Query.type_injective htype)).imp_left And.right
  · rw [hprinted, hshown]
    exact h.prints
  · intro _
    rw [hprinted, hshown, hall]

theorem Pumped.head {b : UInt8} (h : Pumped ps) (hb : b ∉ pumpTypes) {p : Bytes} (hp : p ∈ ps) :
    p.head? ≠ some b := by
  obtain ⟨b', hb', hh⟩ := h p hp
  rw [hh]
  exact fun he ↦ hb (Option.some.inj he ▸ hb')

/-- The pump at work. -/
theorem Owes.pumps (h : Owes w) (hf : w.pc ≠ .finished) (hc : Causal w w')
    (hd : Deals w pkt ps (Client.shown pkt) w') (hpc : w'.pc = .pump ∨ w'.pc = .finished)
    (hps : Pumped ps) (hp : w.pc = .pump ∨
      w.pc = .channelRequest ∧ replies [pkt] = [msgChannelSuccess]) : Owes w' := by
  have hnew (p : Bytes) (hm : p ∈ ps) : p.head? ≠ some msgChannelRequest := hps.head (by decide) hm
  have hgranted : Granted w' := by
    obtain hp | ⟨hp, hsucc⟩ := hp
    · have hg := h.granted (.inl hp)
      refine hg.keep hd ?_ hnew
      have hle := hc.answered .request
      rw [hd.answersTo, hg.settled] at hle
      have hz : answersTo .request [pkt] = 0 := by omega
      rwa [answersTo, List.countP_eq_length_filter, List.length_eq_zero_iff] at hz
    · obtain ⟨cs, hcs⟩ := h.command hp
      refine ⟨?_, ?_, cs, ?_⟩
      · have hone : answersTo .request [pkt] = 1 := by
          rw [answersTo, hsucc]
          rfl
        rw [hd.answersTo, hd.asked, hone, asked_request_eq_zero hnew, h.request (by rw [hp]; rfl)]
      · rw [lastReply, hd.replies, hsucc, List.filter_append]
        exact List.getLast?_concat ..
      · rw [hd.said, lastRequest_append hnew, hcs, commandPayload_given hd.given]
  have hend {α : Type} (f : Pc → Option α) (hpump : f .pump = none) (hfin : f .finished = none) :
      f w'.pc = none := by
    obtain hpc | hpc := hpc
    · rw [hpc, hpump]
    · rw [hpc, hfin]
  have hall : printed w'.obs = (heard (openings w'.obs)).flatMap shown := by
    rw [hd.printed, hd.shown, h.printsAll hf]
  constructor
  · intro q hq
    cases (hend Pc.waits rfl rfl).symm.trans hq
  · intro q hq
    obtain hpc | hpc := hpc <;>
      · rw [hpc] at hq
        cases hq
  · intro hv
    obtain hpc | hpc := hpc <;>
      · rw [hpc] at hv
        simp at hv
  · intro p hm
    obtain hm | hm := hd.mem_said hm
    · exact h.unprobed p hm
    · obtain ⟨b, hb, hh⟩ := hps p hm
      exact probes_of_head hh (by rintro rfl; revert hb; decide)
  · exact fun hn hf ↦ (hpc.elim hn hf).elim
  · intro hq
    cases (hend Pc.waits rfl rfl).symm.trans hq
  · intro hq
    obtain hpc | hpc := hpc <;> cases hpc.symm.trans hq
  · exact fun _ ↦ hgranted
  · exact h.order_append hd hnew
  · refine fun _ ↦ hd.mem_replies (h.admitted ?_)
    obtain hp | ⟨hp, -⟩ := hp <;>
      · rw [hp]
        rfl
  · exact h.requests_append hd fun p hm hh ↦ absurd hh (hnew p hm)
  · exact hall ▸ List.prefix_rfl
  · exact fun _ ↦ hall

/-- What is returned is known by its type. -/
theorem Returns.head (h : Returns t pkt) {b : UInt8} (hb : b ≠ 0) (ht : t = b.toNat) :
    pkt.head? = some b := by
  cases h with
  | packet b' body =>
    have he : b' = b := UInt8.toNat_inj.mp (by exact_mod_cast ht)
    rw [he]
    rfl
  | nothing hn =>
    have hpos : 0 < b.toNat := Nat.pos_of_ne_zero fun he ↦ hb (UInt8.toNat_inj.mp he)
    omega

theorem Returns.shown (h : Returns t pkt) {b : UInt8}
    (hb : b ∉ [msgChannelData, msgChannelExtendedData]) (ht : t = b.toNat) : Client.shown pkt = [] := by
  cases h with
  | packet b' body =>
    have he : b' = b := UInt8.toNat_inj.mp (by exact_mod_cast ht)
    exact shown_of_head rfl (he ▸ hb)
  | nothing _ => rfl

theorem Owes.returned (h : Owes w) (hc : Causal w w') (hp : w.pc ≠ .version ∧ w.pc ≠ .finished)
    (hv : Deals w pkt [] [] v) (hpc : v.pc = w.pc) (hr : Returns t pkt) (hs : Proceeds v t pkt w') :
    Owes w' := by
  cases hs with
  | gaveUp hu hfin hn => exact h.gaveUp ⟨hpc ▸ hn, hp.2⟩ (hv.utters hu) hfin
  | stays hu hpc' ht hps =>
    have hd := hv.utters hu
    obtain ⟨b, hb, ht⟩ := ht
    have hb' : b ≠ 0 ∧ b ∉ [msgChannelData, msgChannelExtendedData] := by
      revert hb
      simp only [passingTypes, List.mem_cons, List.not_mem_nil, or_false]
      rintro (rfl | rfl | rfl | rfl) <;> decide
    have hhead := hr.head hb'.1 ht
    have hreplies : replies [pkt] = [] := by
      by_cases hi : b = msgUserauthInfoRequest
      · -- a key was never asked about
        refine absurd ?_ (hc.unfound h.unprobed)
        rw [hd.replies]
        have hone : replies [pkt] = [b] := replies_singleton hhead (by rw [hi]; decide)
        rw [hone, hi]
        exact List.mem_append_right _ (List.mem_singleton_self _)
      · refine replies_other fun b' hb' ↦ ?_
        rw [hhead]
        rintro ⟨⟩
        simp only [passingTypes, List.mem_cons, List.not_mem_nil, or_false] at hb
        obtain rfl | rfl | rfl | rfl := hb
        · revert hb'; decide
        · exact hi rfl
        · revert hb'; decide
        · revert hb'; decide
    refine h.stays hd (.inl (hpc'.trans hpc)) hreplies (shown_of_head hhead hb'.2) fun p hm ↦ ?_
    obtain ⟨b', hb', hh⟩ := hps p hm
    refine ⟨b', ?_, hh⟩
    revert hb'
    simp only [List.mem_cons, List.not_mem_nil, or_false]
    rintro (rfl | rfl) <;> decide
  | keyed hp' ht hh hu hpc' =>
    have hhead := hr.head (by decide) ht
    refine h.stays (hv.utters hu) (.inr (.inr ⟨hpc ▸ hp', hpc'⟩)) (replies_other fun b hb ↦ ?_)
      (shown_of_head hhead (by decide)) fun p hm ↦ ?_
    · rw [hhead]
      rintro ⟨⟩
      revert hb
      decide
    · rw [List.mem_singleton.mp hm]
      exact ⟨_, by decide, hh⟩
  | asks hu hw ha hq hs hl hreq hcmd =>
    have hd := hv.utters hu
    rw [hpc] at ha hs hreq
    have hone {b : UInt8} (ht : t = b.toNat) (hb : b = msgChannelSuccess ∨ b = msgChannelFailure) :
        answersTo .request [pkt] = 1 := by
      obtain rfl | rfl := hb
      · rw [answersTo, replies_singleton (hr.head (by decide) ht) (by decide)]
        rfl
      · rw [answersTo, replies_singleton (hr.head (by decide) ht) (by decide)]
        rfl
    refine h.asks hc hp hd hw ha (hq (hc.short _ ?_)) (hs.imp_right ?_) (fun he ↦ ?_) (fun he ↦ ?_)
      fun he ↦ ?_
    · rw [hd.said]
      exact List.mem_append_right _ (List.mem_singleton_self _)
    · rintro ⟨b, hb, ht⟩
      exact hr.shown hb ht
    · exact replies_singleton (hr.head (by decide) (hl he)) (by decide)
    · refine (hreq he).imp_right fun h ↦ ⟨h.1, ?_⟩
      exact h.2.elim (hone · (.inl rfl)) (hone · (.inr rfl))
    · refine (hcmd he).imp_right ?_
      rintro ⟨cs, hcs⟩
      exact ⟨cs, hcs.trans (commandPayload_given hv.given cs)⟩
  | pumps hu hpc' hp' hps =>
    have hd := hv.utters hu
    rw [hpc] at hp'
    obtain ⟨hp', rfl⟩ | ⟨hp', ht, rfl⟩ := hp'
    · exact h.pumps hp.2 hc hd hpc' hps (.inl hp')
    · have hhead := hr.head (by decide) ht
      have hnothing : Client.shown pkt = [] := shown_of_head hhead (by decide)
      exact h.pumps hp.2 hc (hnothing.symm ▸ hd) hpc' hps
        (.inr ⟨hp', replies_singleton hhead (by decide)⟩)

theorem Owes.progress (h : Owes w) (hc : Causal w w') (hs : Progress w w') : Owes w' := by
  cases hs with
  | quiet hd hpc =>
    obtain hpc | ⟨hpc, hfin⟩ := hpc
    · exact h.stays hd (.inl hpc) rfl rfl (List.forall_mem_nil _)
    · exact h.gaveUp (by rw [hpc]; decide) hd hfin
  | hello hp hh hd hpc =>
    refine h.stays hd (.inr (.inl ⟨hp, hpc⟩)) rfl rfl fun p hm ↦ ?_
    rw [List.mem_singleton.mp hm]
    exact ⟨_, by decide, hh⟩
  | returned hp hv hpc hr hs => exact h.returned hc hp hv hpc hr hs

/-! Rounds. -/

theorem Utters.deals (h : Utters ps d w w') : Deals w [] ps d w' := by
  refine ⟨?_, ?_, h.said, h.printed, h.given⟩
  · rw [h.openings]
    exact (List.append_nil _).symm
  · rw [h.openings]
    exact (List.append_nil _).symm

theorem Utters.fillRx (w : World) : Utters [] [] w (fillRx w).2 :=
  .grow [.itsRecv (w.tcpIn.take _)] rfl rfl rfl rfl

theorem Deals.unpacked (w : World) (packet payload rest : Bytes) :
    Deals w payload [] [] (unpacked w packet payload rest) := by
  refine ⟨?_, ?_, ?_, ?_, rfl⟩
  · rw [heard_unpacked, replies_append]
  · rw [heard_unpacked, List.flatMap_append, List.flatMap_singleton]
  · rw [frames_unpacked, List.append_nil]
  · exact printed_append w.obs [_]

/-- A message that is passed over. -/
theorem Deals.skip (h : Deals w pkt ps d w') {b : UInt8} (hp : pkt.head? = some b)
    (hb : b = msgIgnore ∨ b = msgDebug) : Deals w [] ps d w' := by
  have hnone : Sshd.replies [pkt] = [] := replies_other fun b' hb' ↦ by
    rw [hp]
    rintro ⟨⟩
    revert hb'
    obtain rfl | rfl := hb <;> decide
  have hshown : Client.shown pkt = [] := shown_of_head hp (by obtain rfl | rfl := hb <;> decide)
  refine ⟨?_, ?_, h.said, h.printed, h.given⟩
  · rw [h.replies, hnone]
    rfl
  · rw [h.shown, hshown]
    rfl

theorem Utters.startKex (w : World) : ∃ p, p.head? = some msgKexinit ∧
    Utters [p] [] w (startKex P w) := by
  refine ⟨putKexinit (randomBytes w 16).1, ?_, ?_⟩
  · simp [putKexinit, putU8, putU32, putNamelist, putCstring]
  · have hdraw : Utters [] [] w (randomBytes w 16).2 := .note w rfl rfl rfl
    exact (((Utters.say _ _ .kexinit).after (.modify _ _)).after hdraw)

theorem versionRound_progress (expired : Bool) (hp : w.pc = .version) :
    Progress w (versionRound P expired w) := by
  have hend {w₁ : World} (h : Utters [] [] w w₁) (msg : Bytes) : Progress w (giveUp w₁ msg) :=
    .quiet ((Utters.giveUp w₁ msg).after h).deals (.inr ⟨hp, rfl⟩)
  unfold versionRound
  split
  · rename_i line rest _
    have hset : Utters [] [] w (w.modify fun cs ↦ { cs with rxBuf := rest }) := .modify w _
    simp only
    split
    · split
      · exact hend hset _
      · obtain ⟨p, hh, hk⟩ := Utters.startKex (P := P)
          ((w.modify fun cs ↦ { cs with rxBuf := rest }).modify fun cs ↦ { cs with peerVersion := line })
        exact .hello hp hh ((hk.after (.modify _ _)).after hset).deals rfl
    · exact .quiet hset.deals (.inl rfl)
  · split
    · exact hend (.refl w) _
    simp only
    split
    · exact hend (.fillRx w) _
    · exact .quiet (Utters.fillRx w).deals (.inl rfl)

theorem poll_progress (expired : Bool) (w : World) : Progress w (poll P expired w) := by
  unfold poll
  split
  · exact .quiet (Utters.refl w).deals (.inl rfl)
  · rename_i hp
    exact versionRound_progress expired hp
  rename_i hfin hver
  have hp : w.pc ≠ .version ∧ w.pc ≠ .finished := ⟨hver, hfin⟩
  have hback {v : World} {t : ℤ} {pkt : Bytes} (hd : Deals w pkt [] [] v) (hpc : v.pc = w.pc)
      (hr : Returns t pkt) : Progress w (resume P (v.note (.received v.pc t pkt)) t pkt) := by
    have hnote : Utters [] [] v (v.note (.received v.pc t pkt)) := .note v rfl rfl rfl
    have hres := resume_proceeds (P := P) (w := v.note (.received v.pc t pkt)) (hpc ▸ hp) hr
    exact .returned hp (hd.utters hnote) hpc hr hres
  have hwait {v : World} (hv : v = w ∨ v = (fillRx w).2) : Deals w [] [] [] v ∧ v.pc = w.pc := by
    obtain rfl | rfl := hv
    · exact ⟨(Utters.refl _).deals, rfl⟩
    · exact ⟨(Utters.fillRx w).deals, rfl⟩
  unfold recvRound
  cases hr : tryParse P w with
  | needMore =>
    simp only
    split
    · rename_i w₁ he
      split at he
      · cases he
      split at he
      · cases he
      · cases he
        exact .quiet (hwait (.inr rfl)).1 (.inl rfl)
    · rename_i t pkt w₁ he
      split at he
      · cases he
        exact hback (hwait (.inl rfl)).1 rfl (.nothing (.inl rfl))
      split at he
      · cases he
        exact hback (hwait (.inr rfl)).1 rfl (.nothing (.inr (.inr rfl)))
      · cases he
  | bad => exact hback (hwait (.inl rfl)).1 rfl (.nothing (.inr (.inl rfl)))
  | got out w₁ =>
    obtain ⟨packet, rest, -, -, -, rfl⟩ := tryParse_unpacked hr
    have hd := Deals.unpacked w packet out rest
    cases out with
    | nil => exact hback hd rfl (.nothing (.inr (.inl rfl)))
    | cons b body =>
      simp only
      split
      · rename_i w₂ he
        split at he
        · rename_i hb
          cases he
          exact .quiet (hd.skip rfl hb) (.inl rfl)
        · cases he
      · rename_i t pkt w₂ he
        split at he
        · cases he
        · cases he
          exact hback hd rfl (.packet b body)

theorem Proceeds.given (h : Proceeds w t pkt w') : w'.job.given = w.job.given := by
  cases h with
  | gaveUp h | stays h | keyed _ _ _ h | asks h | pumps h => exact h.given

theorem Progress.given (h : Progress w w') : w'.job.given = w.job.given := by
  cases h with
  | quiet h => exact h.given
  | hello _ _ h => exact h.given
  | returned _ hv _ _ h => exact h.given.trans hv.given

/-- A job stays as it was given. -/
theorem given_run (w : World) (events : List Event) :
    (runFrom P w events).job.given = w.job.given := by
  induction events using List.reverseRecOn with
  | nil => rfl
  | append_singleton events e ih =>
    have hstep (v : World) : (Client.step P v e).job.given = v.job.given := by
      cases e with
      | poll expired => exact (poll_progress expired v).given
      | _ => rfl
    rw [runFrom, List.foldl_concat, ← runFrom, hstep, ih]

theorem Owes.step (h : Owes w) (e : Event) (hc : Causal w (step P w e)) : Owes (step P w e) := by
  cases e with
  | poll expired => exact h.progress hc (poll_progress expired w)
  | _ =>
    have hidle {w' : World} (hobs : w'.obs = w.obs) (hg : w'.job.given = w.job.given)
        (hpc : w'.pc = w.pc) : Owes w' :=
      h.stays (Utters.same hobs hg).deals (.inl hpc) rfl rfl (List.forall_mem_nil _)
    exact hidle rfl rfl rfl

theorem owes_runSession {env : Env} (hconn : 0 ≤ env.itsConnect) (job : SshJob) (store : List Bytes) :
    Owes (runSession env job store) := by
  obtain ⟨took, hobs, -, hpc, -⟩ := runSession_connected hconn job store
  have hframes : frames (runSession env job store).obs = [] := by
    rw [hobs]
    rfl
  have hopenings : openings (runSession env job store).obs = [] := by
    rw [hobs]
    rfl
  have hprinted : printed (runSession env job store).obs = [] := by
    rw [hobs]
    rfl
  constructor <;> simp only [hframes, hopenings, hprinted, hpc, said, heard, List.map_nil]
  · intro q hq
    cases hq
  · exact fun _ _ ↦ rfl
  · exact fun _ ↦ List.not_mem_nil
  · exact List.forall_mem_nil _
  · exact fun _ _ ↦ List.forall_mem_nil _
  · intro h
    cases h
  · intro h
    cases h
  · rintro (h | ⟨p, hp, -⟩)
    · cases h
    · cases hp
  · exact List.Pairwise.nil
  · intro h
    cases h
  · exact List.forall_mem_nil _
  · exact List.nil_prefix
  · exact fun _ ↦ rfl

/-! The requests as the server reads them. -/

/-- The request for the command is for a backend, and wants a reply. -/
theorem commandPayload_wants {job : SshJob} {cs : Csess}
    (hlen : (commandPayload job cs).length < 2 ^ 32) :
    wantsBackend (commandPayload job cs) = true ∧
      Server.wantReply (commandPayload job cs) = some 1 := by
  obtain ⟨type, more, htype, he⟩ := commandPayload_eq job cs
  rw [he] at hlen ⊢
  obtain ⟨body, v, hbody, hs, hw⟩ := request_read hlen
  rw [hbody]
  refine ⟨?_, ?_⟩
  · have hname : (decide (type = ascii "shell") || decide (type = ascii "exec") ||
        decide (type = ascii "subsystem")) = true := by
      simp only [List.mem_cons, List.not_mem_nil, or_false] at htype
      obtain rfl | rfl := htype
      · decide
      · decide
    simp only [wantsBackend, hs, msgChannelRequest, ne_eq, not_true_eq_false, if_false]
    exact hname
  · simp only [Server.wantReply, hs, hw, Server.msgChannelRequest, msgChannelRequest, ne_eq,
      not_true_eq_false, if_false]

/-- Without a command no line is run. -/
theorem request_interactive {job : SshJob} (hcmd : job.haveCmd = false) {p : Bytes}
    (hp : (∃ cs size, p = ptyReqPayload cs size) ∨ ∃ cs, p = commandPayload job cs)
    (hlen : p.length < 2 ^ 32) (line : Bytes) :
    Server.backendRequest p ≠ some (.cli, .line, line) := by
  obtain ⟨cs, type, more, htype, rfl⟩ : ∃ cs : Csess, ∃ type more, type ∈ [ascii "pty-req", ascii "shell"] ∧
      p = putU8 (putString (putU32 (putU8 [] msgChannelRequest) cs.peerChannel) type) 1 ++ more := by
    obtain ⟨cs, size, rfl⟩ | ⟨cs, rfl⟩ := hp
    · obtain ⟨more, he⟩ := ptyReqPayload_eq cs size
      exact ⟨cs, _, more, by decide, he⟩
    · refine ⟨cs, ascii "shell", [], by decide, ?_⟩
      rw [commandPayload, hcmd, List.append_nil]
      rfl
  obtain ⟨body, v, hbody, hs, -⟩ := request_read hlen
  rw [hbody]
  simp only [List.mem_cons, List.not_mem_nil, or_false] at htype
  obtain rfl | rfl := htype
  · have hpty : ascii "pty-req" ≠ ascii "shell" ∧ ascii "pty-req" ≠ ascii "exec" ∧
        ascii "pty-req" ≠ ascii "subsystem" := by decide
    simp [Server.backendRequest, Server.msgChannelRequest, msgChannelRequest, hs, hpty]
  · simp [Server.backendRequest, Server.msgChannelRequest, msgChannelRequest, hs]

/-! What is typed. -/

/-- What was taken of what the user types. -/
def entered (obs : List Obs) : Bytes :=
  obs.flatMap fun o ↦ match o with
    | .typed d => d
    | _ => []

theorem dataBytes_channelData (cs : Csess) {d : Bytes} (hd : d.length ≤ 256) :
    Server.dataBytes (channelData cs d) = d := by
  have he : channelData cs d = 94 :: (be32 cs.peerChannel.toNat ++ lenPrefixed d) := by
    simp [channelData, putU8, putU32, putString_eq, msgChannelData]
  have hshort : (be32 cs.peerChannel.toNat ++ lenPrefixed d).length < 2 ^ 32 := by
    simp only [List.length_append, be32_length, lenPrefixed_length]
    omega
  obtain ⟨v, hg, hv, hb, hr⟩ := getU32_of_rest (viewInit_ok _) rfl cs.peerChannel.toNat_lt
    (rest_viewInit hshort)
  obtain ⟨v', hs, -⟩ := getString_of_rest hv hb (by omega) (hr.trans (List.append_nil _).symm)
  have hread : Server.dataPayload (94 :: (be32 cs.peerChannel.toNat ++ lenPrefixed d)) = some d := by
    simp [Server.dataPayload, Server.msgChannelData, hg, hs]
  rw [he, Server.dataBytes, hread]
  rfl

/-- What is typed is said. -/
theorem Move.entered (hm : Move P w w')
    (h : (Framing.said (frames w.obs)).flatMap Server.dataBytes = Client.entered w.obs) :
    (Framing.said (frames w'.obs)).flatMap Server.dataBytes = Client.entered w'.obs := by
  have hgrow {os : List Obs} (hobs : w'.obs = w.obs ++ os)
      (hos : (Framing.said (frames os)).flatMap Server.dataBytes = Client.entered os) :
      (Framing.said (frames w'.obs)).flatMap Server.dataBytes = Client.entered w'.obs := by
    rw [hobs, frames_append, said_append, List.flatMap_append, h, hos]
    exact List.flatMap_append.symm
  obtain ⟨os, hobs, hos⟩ | hobs := hm.muted
  · refine hgrow hobs ?_
    have hnone : Client.entered os = [] := List.flatMap_eq_nil_iff.mpr fun o ho ↦ by
      have hmute := hos o ho
      cases o with
      | typed d => exact hmute.elim
      | _ => rfl
    rw [hnone]
    refine List.flatMap_eq_nil_iff.mpr fun p hp ↦ ?_
    obtain ⟨f, hf, rfl⟩ := List.mem_map.mp hp
    exact Server.dataBytes_of_head (hos _ (mem_frames.mp hf))
  · refine hgrow hobs ?_
    set v := { w with typed := w.typed.drop 256 }.note (.typed (w.typed.take 256)) with hv
    have hsent : frames (.typed (w.typed.take 256) ::
        sendObs P v (channelData w.cs (w.typed.take 256))) =
          [sendFrame v (channelData w.cs (w.typed.take 256))] := frames_sendObs P v _
    have hone : Client.entered (.typed (w.typed.take 256) ::
        sendObs P v (channelData w.cs (w.typed.take 256))) = w.typed.take 256 := by
      have hrest : Client.entered (sendObs P v (channelData w.cs (w.typed.take 256))) = [] :=
        List.flatMap_eq_nil_iff.mpr fun o ho ↦ by
          obtain ⟨_, rfl⟩ | ⟨_, rfl, _⟩ | ⟨_, _, rfl⟩ := mem_sendObs P v _ ho <;> rfl
      rw [Client.entered, List.flatMap_cons, ← Client.entered, hrest, List.append_nil]
    rw [hsent, hone]
    refine (List.flatMap_singleton _ _).trans ?_
    exact dataBytes_channelData w.cs (List.length_take_le ..)

theorem entered_run {env : Env} (hconn : 0 ≤ env.itsConnect) (job : SshJob) (store : List Bytes)
    (events : List Event) :
    (said (frames (runFrom P (runSession env job store) events).obs)).flatMap Server.dataBytes =
      entered (runFrom P (runSession env job store) events).obs := by
  obtain ⟨took, hobs, -⟩ := runSession_connected hconn job store
  have hinit : (said (frames (runSession env job store).obs)).flatMap Server.dataBytes =
      entered (runSession env job store).obs := by
    rw [hobs]
    rfl
  exact run_induction P hinit (fun _ _ hm h ↦ hm.entered h) events

/-! What the pipe to the command line takes. -/

/-- What the user is shown. -/
def displayed (obs : List Obs) : Bytes :=
  obs.flatMap fun o ↦ match o with
    | .output d took => d.take took.sum
    | _ => []

/-- No round of `out_write` came back with nothing taken. -/
def Obs.Flows : Obs → Prop
  | .output _ took => 0 ∉ took
  | _ => True

instance : DecidablePred Obs.Flows := fun o ↦ by
  unfold Obs.Flows
  split <;> infer_instance

/-- The pipe has never stalled. -/
def PipeFlows (obs : List Obs) : Prop := ∀ o ∈ obs, o.Flows

instance : DecidablePred PipeFlows := fun obs ↦ inferInstanceAs (Decidable (∀ o ∈ obs, o.Flows))

/-- What a call of `out_write` has got rid of, it got rid of in its loop. -/
def Obs.Pours : Obs → Prop
  | .output d took => Lib.Writes.Poured d took
  | _ => True

theorem Obs.Final.pours {stage : Stage} {o : Obs} (h : o.Final stage) : o.Pours := by
  cases o with
  | output => exact h
  | _ => trivial

theorem Quiet.pours (h : Quiet P w w') : Adds Obs.Pours w w' := h.adds fun _ ho ↦ ho.final.pours

theorem Adds.pours (w : World) (payload : Bytes) : Adds Obs.Pours w (sendPacket P w payload) :=
  .send w (fun _ _ ↦ trivial) (fun _ ↦ trivial) fun _ _ ↦ trivial

theorem Outcome.pours (h : Outcome P w t pkt w') : Adds Obs.Pours w w' := by
  cases h with
  | quiet _ hq => exact hq.pours
  | gaveUp ho => exact ho.adds fun _ ho ↦ ho.pours
  | @ecdhInit _ _ priv pub _ =>
    have he : Adds Obs.Pours w
        (ephemeral (w.modify fun cs ↦ { cs with peerKexInit := pkt }) priv pub) :=
      Adds.note w (by trivial)
    exact he.trans (.pours _ _)
  | @verified _ _ ks qs sig hpub sig64 k note store =>
    have ht : Adds Obs.Pours w (trusted P w ks qs k hpub sig64 store) :=
      ⟨_, List.append_assoc .., by simp [Obs.Pours]⟩
    exact (ht.trans (.pours _ _)).trans (.same (keyed_obs P _))
  | newkeys =>
    have hn : Adds Obs.Pours w (w.modify fun cs ↦ { cs with encIn := true }) := .same rfl
    exact hn.trans (.pours _ _)
  | confirm _ _ hq =>
    have hc : Adds Obs.Pours w ((confirmChannel w pkt).goto .ptyReq) := .same rfl
    exact hc.trans hq.pours
  | adjust => exact .same rfl
  | @data _ _ d _ =>
    exact (outWrite_quiet P w d).pours.trans
      (replenish_adds P _ _ (fun _ _ _ ↦ trivial) (fun _ ↦ trivial) fun _ _ ↦ trivial)

theorem Move.pours (h : Move P w w') : Adds Obs.Pours w w' := by
  cases h with
  | idle hi => exact .same hi.obs
  | quiet _ hq => exact hq.pours
  | gaveUp _ ho => exact ho.adds fun _ ho ↦ ho.pours
  | fill => exact ⟨_, rfl, by simp [Obs.Pours]⟩
  | skipLine => exact .same rfl
  | @startKex _ line rest _ _ cookie =>
    have hp : Adds Obs.Pours w
        (proposed (w.modify fun cs ↦ { cs with rxBuf := rest, peerVersion := line }) cookie) :=
      ⟨[.random cookie], rfl, by simp [Obs.Pours]⟩
    exact hp.trans (.pours _ _)
  | @received _ _ t pkt _ ho =>
    have hn : Adds Obs.Pours w (w.note (.received w.pc t pkt)) := .note w (by trivial)
    exact hn.trans ho.pours
  | pumpRound =>
    have ht : Adds Obs.Pours w
        ({ w with typed := w.typed.drop 256 }.note (.typed (w.typed.take 256))) :=
      ⟨_, rfl, by simp [Obs.Pours]⟩
    exact ht.trans (.pours _ _)

theorem pours_run {env : Env} (hconn : 0 ≤ env.itsConnect) (job : SshJob) (store : List Bytes)
    (events : List Event) :
    ∀ o ∈ (runFrom P (runSession env job store) events).obs, o.Pours := by
  obtain ⟨took, hobs, -⟩ := runSession_connected hconn job store
  refine run_induction P (motive := fun w ↦ ∀ o ∈ w.obs, o.Pours) ?_ (fun w w' hm h ↦ ?_) events
  · rw [hobs]
    simp [Obs.Pours]
  · obtain ⟨os, hobs, hos⟩ := hm.pours
    rw [hobs]
    exact fun o ho ↦ (List.mem_append.mp ho).elim (h o) (hos o)

/-- The user is shown what `out_write` is given, but for the tails that it drops. -/
theorem displayed_sublist (obs : List Obs) : (displayed obs).Sublist (printed obs) := by
  induction obs with
  | nil => exact .refl _
  | cons o obs ih =>
    rw [displayed, printed, List.flatMap_cons, List.flatMap_cons]
    refine List.Sublist.append ?_ ih
    cases o with
    | output d took => exact List.take_sublist _ _
    | _ => exact .refl _

/-- While the pipe flows, all of it. -/
theorem displayed_eq {obs : List Obs} (hp : ∀ o ∈ obs, o.Pours) (hflow : PipeFlows obs) :
    displayed obs = printed obs := by
  refine List.flatMap_congr fun o ho ↦ ?_
  cases o with
  | output d took =>
    have hpoured : Lib.Writes.Poured d took := hp _ ho
    exact List.take_of_length_le (hpoured.sum_eq (hflow _ ho)).ge
  | _ => rfl

end

end Sshd.Client
