import Sshd.Server.Answers

namespace Sshd.Server

open Lib.Octets Wire Crypto Framing

/-! Who is owed an answer. -/

/-- A session that is up owes no answer, and none was given unasked. A backend
that was asked for last, and granted, is there. -/
structure Ledger (w : World) : Prop where
  formed : ∀ p ∈ said (frames w.obs), Formed p
  up : w.s.phase ≠ .closed → CanSend w.s
  paid : w.s.phase ≠ .closed → ∀ q, answersTo q (said (frames w.obs)) = asked q (heard (openings w.obs))
  unasked : ∀ q, answersTo q (said (frames w.obs)) ≤ asked q (heard (openings w.obs))
  probed : (replies (said (frames w.obs))).count msgUserauthPkOk ≤
    (heard (openings w.obs)).countP probes
  proposed : w.s.phase ≠ .closed → w.s.phase ≠ .version →
    msgKexinit ∈ replies (said (frames w.obs))
  attached : w.s.phase ≠ .closed → ∀ r, lastRequest (heard (openings w.obs)) = some r →
    wantsBackend r = true → wantReply r ≠ some 0 →
    lastReply (said (frames w.obs)) = some msgChannelSuccess → 0 ≤ w.s.backendHandle

section
variable {payload : Bytes} {b b' : ℤ} {ks : List UInt8}

theorem wantReply_of_head {t : UInt8} (hp : payload.head? = some t) (ht : t ≠ msgChannelRequest) :
    wantReply payload = none := by
  cases h : wantReply payload with
  | none => rfl
  | some want => exact absurd (Option.some.inj (hp.symm.trans (wantReply_head h))) ht

theorem mem_requestAnswer {want : UInt8} {ok : Bool} {t : UInt8} (h : t ∈ requestAnswer want ok) :
    t = msgChannelSuccess ∨ t = msgChannelFailure := by
  unfold requestAnswer at h
  split at h
  · cases h
  · rw [List.mem_singleton.mp h]
    cases ok with
    | false => exact .inr rfl
    | true => exact .inl rfl

/-- What asks is answered once, and what does not is not. -/
theorem Reaction.counts (h : Reaction payload b ks b') (q : Query) :
    ks.countP (· ∈ q.answers) = if q.asks payload then 1 else 0 := by
  cases h with
  | idle h _ => rw [h q]; rfl
  | exchange ht => rw [q.asks_of_head ht (by decide)]; cases q <;> decide
  | service ht => rw [q.asks_of_head ht (by decide)]; cases q <;> decide
  | login ht t hv =>
    rw [q.asks_of_head ht (by decide)]
    obtain rfl | rfl | ⟨rfl, -⟩ := hv <;> cases q <;> decide
  | channel ht t hv =>
    rw [q.asks_of_head ht (by decide)]
    obtain rfl | rfl := hv <;> cases q <;> decide
  | @request want ht ok =>
    have hasks : q.asks payload = (q = .request ∧ want ≠ 0 : Bool) := by
      have hr := wantReply_head ht
      cases q <;> simp [Query.asks, ht, hr, msgChannelRequest]
    rw [hasks, requestAnswer]
    by_cases hw : want = 0
    · simp [hw]
    · cases ok <;> cases q <;> simp [hw] <;> decide

/-- Only a probe is answered by PK_OK. -/
theorem Reaction.probes (h : Reaction payload b ks b') :
    ks.count msgUserauthPkOk ≤ [payload].countP Sshd.probes := by
  cases h with
  | login _ t hv =>
    obtain rfl | rfl | ⟨rfl, hp⟩ := hv
    · exact Nat.zero_le _
    · exact Nat.zero_le _
    · rw [List.countP_singleton, if_pos hp]
      decide
  | channel _ t hv => obtain rfl | rfl := hv <;> exact Nat.zero_le _
  | request _ ok =>
    rw [List.count_eq_zero.mpr fun hm ↦ ?_]
    · exact Nat.zero_le _
    · obtain h | h := mem_requestAnswer hm <;> cases h
  | _ => exact Nat.zero_le _

/-- A packet that is no channel request leaves the backend alone, and the replies
to the requests. -/
theorem Reaction.request_cases (h : Reaction payload b ks b') :
    (wantReply payload = none ∧ ks.filter (· ∈ Query.request.answers) = [] ∧ b' = b) ∨
      ∃ want ok, wantReply payload = some want ∧ ks = requestAnswer want ok ∧
        (wantsBackend payload = true → ok = true → 0 ≤ b') := by
  cases h with
  | idle _ hn => exact .inl ⟨hn, rfl, rfl⟩
  | exchange ht => exact .inl ⟨wantReply_of_head ht (by decide), by decide, rfl⟩
  | service ht => exact .inl ⟨wantReply_of_head ht (by decide), by decide, rfl⟩
  | login ht t hv =>
    refine .inl ⟨wantReply_of_head ht (by decide), ?_, rfl⟩
    obtain rfl | rfl | ⟨rfl, -⟩ := hv <;> decide
  | channel ht t hv =>
    refine .inl ⟨wantReply_of_head ht (by decide), ?_, rfl⟩
    obtain rfl | rfl := hv <;> decide
  | request ht ok _ hb => exact .inr ⟨_, ok, ht, rfl, hb⟩

end

section
variable {w w' : World}

/-- A closed session has no accounts to keep. -/
theorem Ledger.closed (h : Ledger w) (hc : w'.s.phase = .closed)
    (hf : ∀ p ∈ said (frames w'.obs), p ∈ said (frames w.obs) ∨ Formed p)
    (ha : replies (said (frames w'.obs)) = replies (said (frames w.obs)))
    (ho : heard (openings w.obs) <+: heard (openings w'.obs)) : Ledger w' := by
  refine ⟨fun p hp ↦ (hf p hp).elim (h.formed p) id, fun hn ↦ absurd hc hn,
    fun hn ↦ absurd hc hn, fun q ↦ ?_, ?_, fun hn ↦ absurd hc hn, fun hn ↦ absurd hc hn⟩
  · rw [answersTo, ha]
    exact (h.unasked q).trans (asked_mono q ho)
  · rw [ha]
    exact h.probed.trans ho.sublist.countP_le

/-- Nothing is read or answered. -/
theorem Ledger.still (h : Ledger w) (ha : Answers [] w w')
    (hphase : w'.s.phase ≠ .closed → w.s.phase ≠ .closed ∧ CanSend w'.s ∧
      (w'.s.phase ≠ .version → w.s.phase ≠ .version))
    (hb : w'.s.backendHandle = w.s.backendHandle) : Ledger w' := by
  have hr := ha.replies
  rw [List.append_nil] at hr
  refine ⟨fun p hp ↦ (ha.formed p hp).elim (h.formed p) id, fun hn ↦ (hphase hn).2.1,
    fun hn q ↦ ?_, fun q ↦ ?_, ?_, fun hn hv ↦ ?_, fun hn ↦ ?_⟩
  · rw [answersTo, hr, ha.openings]
    exact h.paid (hphase hn).1 q
  · rw [answersTo, hr, ha.openings]
    exact h.unasked q
  · rw [hr, ha.openings]
    exact h.probed
  · rw [hr]
    exact h.proposed (hphase hn).1 ((hphase hn).2.2 hv)
  · rw [lastReply, hr, ha.openings, hb]
    exact h.attached (hphase hn).1

theorem Ledger.greeted (h : Ledger w) (hp : w.s.phase = .version)
    (ha : Answers [msgKexinit] w w') (hup : CanSend w'.s)
    (hb : w'.s.backendHandle = w.s.backendHandle) : Ledger w' := by
  have hn : w.s.phase ≠ .closed := by
    rw [hp]
    nofun
  have hsame (q : Query) : answersTo q (said (frames w'.obs)) = answersTo q (said (frames w.obs)) := by
    rw [answersTo, ha.replies, List.countP_append]
    cases q <;> rfl
  refine ⟨fun p hp ↦ (ha.formed p hp).elim (h.formed p) id, fun _ ↦ hup, fun _ q ↦ ?_,
    fun q ↦ ?_, ?_, fun _ _ ↦ ?_, fun _ ↦ ?_⟩
  · rw [hsame, ha.openings]
    exact h.paid hn q
  · rw [hsame, ha.openings]
    exact h.unasked q
  · rw [ha.replies, ha.openings, List.count_append]
    exact h.probed
  · rw [ha.replies]
    exact List.mem_append_right _ (List.mem_singleton_self _)
  · rw [lastReply, ha.replies, List.filter_append, ha.openings, hb]
    have hnone : [msgKexinit].filter (· ∈ Query.request.answers) = [] := by decide
    rw [hnone, List.append_nil]
    exact h.attached hn

theorem Ledger.packet (h : Ledger w) (hp : w.s.phase ≠ .closed ∧ w.s.phase ≠ .version)
    {packet payload rest : Bytes} {ks : List UInt8} (ha : Answers ks (unpacked w packet payload rest) w')
    (hup : CanSend w'.s) (hr : Reaction payload w.s.backendHandle ks w'.s.backendHandle) :
    Ledger w' := by
  have hopens : heard (openings w'.obs) = heard (openings w.obs) ++ [payload] := by
    rw [ha.openings, heard_unpacked]
  have hreplies := ha.replies
  rw [frames_unpacked] at hreplies
  have hcount (q : Query) : answersTo q (said (frames w'.obs)) =
      answersTo q (said (frames w.obs)) + if q.asks payload then 1 else 0 := by
    rw [answersTo, hreplies, List.countP_append, hr.counts]
    rfl
  have hasks (q : Query) : asked q (heard (openings w'.obs)) =
      asked q (heard (openings w.obs)) + if q.asks payload then 1 else 0 := by
    rw [hopens, asked_append, asked, asked, List.countP_singleton]
  have hformed := ha.formed
  rw [frames_unpacked] at hformed
  refine ⟨fun p hp ↦ (hformed p hp).elim (h.formed p) id, fun _ ↦ hup, fun _ q ↦ ?_, fun q ↦ ?_, ?_,
    fun _ _ ↦ ?_, fun _ r hl hbr hw hs ↦ ?_⟩
  · rw [hcount, hasks, h.paid hp.1]
  · rw [hcount, hasks]
    exact Nat.add_le_add_right (h.unasked q) _
  · rw [hreplies, hopens, List.count_append, List.countP_append]
    exact Nat.add_le_add h.probed hr.probes
  · rw [hreplies]
    exact List.mem_append_left _ (h.proposed hp.1 hp.2)
  · rw [hopens, lastRequest_snoc] at hl
    rw [lastReply, hreplies, List.filter_append] at hs
    obtain ⟨hn, hks, hb⟩ | ⟨want, ok, hwant, rfl, hb⟩ := hr.request_cases
    · rw [hn] at hl
      rw [hks, List.append_nil] at hs
      rw [hb]
      exact h.attached hp.1 r hl hbr hw hs
    · rw [hwant] at hl
      obtain rfl := Option.some.inj hl
      refine hb hbr ?_
      have hne : want ≠ 0 := fun he ↦ hw (he ▸ hwant)
      rw [requestAnswer, if_neg hne] at hs
      cases ok with
      | true => rfl
      | false =>
        rw [List.filter_singleton, show decide (_ ∈ Query.request.answers) = true from rfl] at hs
        cases (List.getLast?_concat ..).symm.trans hs

theorem Ledger.step (h : Ledger w) (hr : Replies w w') : Ledger w' := by
  cases hr with
  | hushed ha =>
    have hr := ha.replies
    rw [List.append_nil] at hr
    exact h.closed ha.closed ha.formed hr (ha.openings ▸ List.prefix_rfl)
  | utters ha =>
    have hphase : w'.s.phase = w.s.phase := congrArg Place.phase ha.place
    refine h.still ha.toAnswers (fun hn ↦ ?_) ha.backendHandle
    rw [hphase] at hn ⊢
    exact ⟨hn, ha.canSend (h.up hn), id⟩
  | greeted hp ha hup hb => exact h.greeted hp ha hup hb
  | @packet packet payload rest ks hp ha hr =>
    obtain ⟨hc, rfl⟩ | ⟨hup, -, -, hr⟩ := hr
    · have hr := ha.replies
      rw [frames_unpacked, List.append_nil] at hr
      have hformed := ha.formed
      rw [frames_unpacked] at hformed
      refine h.closed hc hformed hr ?_
      rw [ha.openings, heard_unpacked]
      exact List.prefix_append _ _
    · exact h.packet hp ha hup hr

end

theorem Utters.sendRawTcp (w : World) (data : Bytes) : Utters [] w (sendRawTcp w data) := by
  unfold Server.sendRawTcp
  split
  · exact .refl w
  · exact ⟨.one rfl rfl rfl trivial, rfl⟩

section
variable (P : Primitives) (i : ℤ) (env : Env)

/-- The session that a connection finds. -/
def fresh (tcp : ℤ) : World :=
  ⟨env, { reset with slot := i, tcp := tcp, ourVersion := ourVersionStr },
    Function.update (fun _ ↦ false) i true, [], fun _ ↦ [], [.accept tcp i]⟩

theorem fresh_accepted (tcp : ℤ) : Utters [] (fresh i env tcp) (accepted i env tcp) :=
  .sendRawTcp _ _

theorem ledger_fresh {tcp : ℤ} (ht : 0 ≤ tcp) : Ledger (fresh i env tcp) where
  formed := List.forall_mem_nil _
  up _ := ⟨Phase.noConfusion, ht⟩
  paid _ _ := rfl
  unasked _ := le_rfl
  probed := le_rfl
  proposed _ hv := absurd rfl hv
  attached _ _ hl := by cases hl

theorem ledger_run {tcp : ℤ} (ht : 0 ≤ tcp) (events : List Event) :
    Ledger (runFrom P i (accepted i env tcp) events) := by
  induction events using List.reverseRecOn with
  | nil => exact (ledger_fresh i env ht).step (.utters (fresh_accepted i env tcp))
  | append_singleton events e ih =>
    rw [runFrom_snoc]
    exact step_replies (fun _ h ↦ h.up) (fun _ _ h hr _ ↦ h.step hr) ih i e

end

end Sshd.Server
