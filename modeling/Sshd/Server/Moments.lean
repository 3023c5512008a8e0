import Sshd.Server.FirstExchange
import Sshd.Server.Outbound

namespace Sshd.Server

open Lib.Octets Lib.Trace Wire Crypto Framing

/-! The first exchange of a session. -/

/-- All that the client has sent. -/
def arrivals (events : List Event) : Bytes :=
  events.flatMap fun e ↦ match e with
    | .tcpArrive data => data
    | _ => []

/-- Before its first exchange a session has heard no share, and no proposal but
the one that it goes by. -/
structure Unkeyed (w : World) : Prop where
  phase : w.s.phase = .version ∨ w.s.phase = .kexWaitKexinit ∨ w.s.phase = .kexWaitEcdh
  share : ∀ p ∈ heard (openings w.obs), p.head? ≠ some msgKexEcdhInit
  proposal : ∀ p ∈ heard (openings w.obs), p.head? = some msgKexinit →
    w.s.phase = .kexWaitEcdh ∧ p = w.s.peerKexInit

def YetUnkeyed (w : World) : Prop := w.s.phase ≠ .closed → w.s.haveSessionId = false → Unkeyed w

section
variable {P : Primitives} {i : ℤ} {w w' : World}

theorem YetUnkeyed.congr (h : YetUnkeyed w) (hs : (w'.s.phase, w'.s.haveSessionId, w'.s.peerKexInit) =
    (w.s.phase, w.s.haveSessionId, w.s.peerKexInit)) (ho : openings w'.obs = openings w.obs) :
    YetUnkeyed w' := by
  simp only [Prod.mk.injEq] at hs
  obtain ⟨hp, hh, hk⟩ := hs
  intro hopen hfresh
  obtain ⟨hphase, hshare, hprop⟩ := h (hp ▸ hopen) (hh ▸ hfresh)
  refine ⟨?_, ?_, ?_⟩
  · rw [hp]
    exact hphase
  · rw [ho]
    exact hshare
  · rw [ho, hp, hk]
    exact hprop

theorem YetUnkeyed.chats (h : YetUnkeyed w) (hc : Chats w w') : YetUnkeyed w' := by
  have hh : w'.s.haveSessionId = w.s.haveSessionId := congrArg Kex.haveSessionId hc.kex
  have hk : w'.s.peerKexInit = w.s.peerKexInit := congrArg Kex.peerKexInit hc.kex
  rcases hc.phase with he | he | ⟨ha, -⟩
  · refine h.congr ?_ hc.openings
    rw [(Prod.mk.inj he).1, hh, hk]
  · exact fun hopen ↦ absurd he hopen
  · intro _ hfresh
    have hphase := (h (by rw [ha]; nofun) (hh ▸ hfresh)).phase
    rw [ha] at hphase
    simp at hphase

theorem greeted_haveSessionId (w : World) (line rest : Bytes) :
    (greeted P w line rest).s.haveSessionId = w.s.haveSessionId := by
  change (sendOurKexinit P _).s.haveSessionId = _
  unfold Server.sendOurKexinit
  simp only
  rw [sendPacket_s]
  rfl

theorem YetUnkeyed.hello (h : YetUnkeyed w) (hp : w.s.phase = .version) (line rest : Bytes) :
    YetUnkeyed (greeted P w line rest) := by
  have hh := greeted_haveSessionId (P := P) w line rest
  have ho : openings (greeted P w line rest).obs = openings w.obs :=
    (Deaf.sendOurKexinit P
      (w.modify fun s ↦ { s with peerVersion := line, rxBuf := rest })).openings
  intro _ hfresh
  obtain ⟨-, hshare, hprop⟩ := h (by rw [hp]; nofun) (hh ▸ hfresh)
  refine ⟨.inr (.inl rfl), by rwa [ho], fun p hm hhead ↦ ?_⟩
  rw [ho] at hm
  cases hp.symm.trans (hprop p hm hhead).1

/-- An exchange that comes off has given the session its identifier. -/
theorem handleKexEcdhInit_haveSessionId {body : Bytes}
    (h : handleKexEcdhInit P w body = (w', true)) : w'.s.haveSessionId = true := by
  obtain ⟨_, _, w₂, _, hostPub, sig, -, -, -, -, -, rfl⟩ := handleKexEcdhInit_true h
  exact (answered_s w₂ _ sig).2.2.2.2

theorem YetUnkeyed.packet (h : YetUnkeyed w) {packet payload rest : Bytes}
    (hopen : w.s.phase ≠ .closed)
    (ht : Takes P (unpacked w packet payload rest) payload w') : YetUnkeyed w' := by
  have hheard : heard (openings w'.obs) = heard (openings w.obs) ++ [payload] := by
    rw [ht.openings, heard_unpacked]
  intro hup hfresh
  cases ht with
  | chat hc hn =>
    have hh : w'.s.haveSessionId = w.s.haveSessionId := congrArg Kex.haveSessionId hc.kex
    have hk : w'.s.peerKexInit = w.s.peerKexInit := congrArg Kex.peerKexInit hc.kex
    obtain ⟨hphase, hshare, hprop⟩ := h hopen (hh ▸ hfresh)
    have hsame : w'.s.phase = w.s.phase := by
      rcases hc.phase with he | he | ⟨ha, -⟩
      · exact (Prod.mk.inj he).1
      · exact absurd he hup
      · change w.s.phase = .auth at ha
        rw [ha] at hphase
        simp at hphase
    refine ⟨hsame ▸ hphase, fun p hm ↦ ?_, fun p hm hhead ↦ ?_⟩
    · rw [hheard, List.mem_append] at hm
      obtain hm | hm := hm
      · exact hshare p hm
      · obtain rfl := List.mem_singleton.mp hm
        exact fun hhead ↦ hup (hn _ (by decide) hhead)
    · rw [hheard, List.mem_append] at hm
      obtain hm | hm := hm
      · rw [hsame, hk]
        exact hprop p hm hhead
      · obtain rfl := List.mem_singleton.mp hm
        exact absurd (hn _ (by decide) hhead) hup
  | ended he => exact absurd he.closed hup
  | kexinit alg ht _ hp =>
    obtain ⟨hphase, hshare, hprop⟩ := h hopen hfresh
    refine ⟨.inr (.inr rfl), fun p hm ↦ ?_, fun p hm hhead ↦ ⟨rfl, ?_⟩⟩
    · rw [hheard, List.mem_append] at hm
      obtain hm | hm := hm
      · exact hshare p hm
      · obtain rfl := List.mem_singleton.mp hm
        rw [ht]
        nofun
    · rw [hheard, List.mem_append] at hm
      obtain hm | hm := hm
      · -- a proposal that came before would be the one the session goes by
        have hwait := (hprop p hm hhead).1
        change w.s.phase = .kexWaitKexinit ∨ w.s.phase = .run at hp
        rw [hwait] at hp
        simp at hp
      · exact List.mem_singleton.mp hm
  | exchange _ _ he =>
    rw [handleKexEcdhInit_haveSessionId he] at hfresh
    cases hfresh
  | newkeys _ hp =>
    obtain ⟨hphase, -, -⟩ := h hopen hfresh
    change w.s.phase = .kexWaitNewkeys at hp
    rw [hp] at hphase
    simp at hphase

theorem YetUnkeyed.round (h : YetUnkeyed w)
    (hr : receiveRound P w = .ends w' ∨ receiveRound P w = .goesOn w') : YetUnkeyed w' := by
  cases receiveRound_reading hr with
  | atEnd hc _ => exact h.chats hc
  | ended he => exact fun hopen ↦ absurd he.closed hopen
  | hello hp _ => exact h.hello hp _ _
  | garbled => exact fun hopen ↦ absurd rfl hopen
  | packet hp hw ht =>
    obtain ⟨packet, rest, -, -, -, he⟩ := parsePacket_unpacked hw
    rw [he] at ht
    exact h.packet hp.1 ht

theorem YetUnkeyed.step (h : YetUnkeyed w) (e : Event) : YetUnkeyed (step P i w e) := by
  by_cases he : ∃ data, e = .tcpArrive data
  · obtain ⟨data, rfl⟩ := he
    exact h.congr rfl rfl
  · exact step_rule (fun _ _ h hc ↦ h.chats hc) (fun _ h ↦ h.congr rfl rfl)
      (fun _ _ h hr ↦ h.round hr) h i fun data hd ↦ he ⟨data, hd⟩

theorem Law.event {arrived : Bytes} (h : Law P arrived w) (e : Event) :
    Law P (arrived ++ arrivals [e]) (Server.step P i w e) := by
  by_cases he : ∃ data, e = .tcpArrive data
  · obtain ⟨data, rfl⟩ := he
    have ha : arrivals [.tcpArrive data] = data := List.append_nil _
    rw [ha]
    exact h.arrive data
  · have ha : arrivals [e] = [] := by
      cases e with
      | tcpArrive data => exact absurd ⟨data, rfl⟩ he
      | _ => rfl
    rw [ha, List.append_nil]
    exact h.step i fun data hd ↦ he ⟨data, hd⟩

/-- What holds between two events of a session. -/
theorem law_run (P : Primitives) (i : ℤ) (env : Env) (tcp : ℕ) (events : List Event) :
    Law P (arrivals events) (runFrom P i (accepted i env tcp) events) ∧
      YetUnkeyed (runFrom P i (accepted i env tcp) events) := by
  induction events using List.reverseRecOn with
  | nil =>
    have hopen : openings (accepted i env tcp).obs = [] := by
      rw [accepted_obs]
      rfl
    refine ⟨law_accepted P i env (Int.natCast_nonneg tcp), fun _ _ ↦ ⟨.inl rfl, ?_, ?_⟩⟩
    · change ∀ p ∈ heard (openings (accepted i env tcp).obs), _
      rw [hopen]
      nofun
    · change ∀ p ∈ heard (openings (accepted i env tcp).obs), _
      rw [hopen]
      nofun
  | append_singleton events e ih =>
    have ha : arrivals (events ++ [e]) = arrivals events ++ arrivals [e] := List.flatMap_append
    rw [runFrom_snoc, ha]
    exact ⟨ih.1.event e, ih.2.step e⟩

end

/-! Its completion. -/

variable (P : Primitives)

/-- The first message of a kind. -/
def firstOf (t : UInt8) (payloads : List Bytes) : Option Bytes :=
  payloads.find? fun p ↦ p.head? = some t

/-- A session that has completed the exchange `x`: the values of `x` are those
of the version lines and of the first messages of either side, the server has
signed its hash, and the keys are derived from it. -/
structure Completed (arrived : Bytes) (w : World) (x : Handshake) : Prop where
  clientVersion : ∃ rest, takeLine arrived = some (x.clientVersion, rest)
  serverVersion : takeLine versionLine = some (x.serverVersion, [])
  clientKexinit : firstOf msgKexinit (heard (openings w.obs)) = some x.clientKexinit
  serverKexinit : firstOf msgKexinit (said (frames w.obs)) = some x.serverKexinit
  qC : ∃ tail, firstOf msgKexEcdhInit (heard (openings w.obs)) =
    some (msgKexEcdhInit :: (lenPrefixed x.qC ++ tail))
  reply : ∃ p, firstOf msgKexEcdhReply (said (frames w.obs)) = some p ∧ Reply P x p
  agreed : ∃ alg, selectKexAlg x.clientKexinit = some alg ∧ Agreed P alg x
  keys : w.s.keys = ⟨x.hash P, true, x.key P 67, x.key P 68⟩

section
variable {P} {w w' : World} {arrived : Bytes}

theorem firstOf_unique {t : UInt8} {payloads : List Bytes} {p : Bytes} (hp : p ∈ payloads)
    (ht : p.head? = some t) (hu : ∀ q ∈ payloads, q.head? = some t → q = p) :
    firstOf t payloads = some p := by
  rw [firstOf]
  cases hf : payloads.find? fun p ↦ p.head? = some t with
  | none => simpa [ht] using List.find?_eq_none.mp hf p hp
  | some q =>
    have hq : q.head? = some t := by simpa using List.find?_some hf
    rw [hu q (List.mem_of_find?_eq_some hf) hq]

theorem firstOf_append {t : UInt8} {payloads : List Bytes}
    (hn : ∀ p ∈ payloads, p.head? ≠ some t) (more : List Bytes) :
    firstOf t (payloads ++ more) = firstOf t more := by
  have hnone : payloads.find? (fun p ↦ p.head? = some t) = none :=
    List.find?_eq_none.mpr fun p hp ↦ by simpa using hn p hp
  rw [firstOf, List.find?_append, hnone, Option.none_or]
  rfl

theorem completed_exchange (hlaw : Law P arrived w) (hawait : YetUnkeyed w)
    (hp : w.s.phase ≠ .closed ∧ w.s.phase ≠ .version) (hfresh : w.s.haveSessionId = false)
    {packet payload rest body : Bytes} (hb : packet ++ rest = w.s.rxBuf)
    (ht : payload = msgKexEcdhInit :: body)
    (hwait : (unpacked w packet payload rest).s.phase = .kexWaitEcdh)
    (he : handleKexEcdhInit P (unpacked w packet payload rest) body = (w', true)) :
    ∃ x, Completed P arrived w' x := by
  obtain ⟨-, hshare, hprop⟩ := hawait hp.1 hfresh
  have hnone : (heard (openings w.obs)).countP (fun p ↦ p.head? = some msgKexEcdhInit) = 0 :=
    List.countP_eq_zero.mpr fun p hm ↦ by simpa using hshare p hm
  obtain ⟨z, hr, hup⟩ := hlaw (hnone.le.trans (Nat.zero_le 1))
  obtain ⟨hst, -⟩ := hup hp.1
  obtain rfl : z = none := by
    cases z with
    | none => rfl
    | some y => cases hfresh.symm.trans (congrArg Keys.haveSessionId (hr.keyed y rfl))
  have hheard := heard_unpacked w packet payload rest
  have hsaid₂ := frames_unpacked w packet payload rest
  have hst₂ := hst.unpacked hp.2 hb payload
  have hfresh₂ : (unpacked w packet payload rest).s.haveSessionId = false := hfresh
  have hpeer : (unpacked w packet payload rest).s.peerKexInit = w.s.peerKexInit := rfl
  generalize unpacked w packet payload rest = w₂ at hheard hsaid₂ hst₂ hfresh₂ hpeer hwait he
  have hopen : ¬(w₂.s.phase = .closed ∨ w₂.s.tcp < 0) := by
    rintro (hc | hc)
    · cases hwait.symm.trans hc
    · exact not_lt.mpr hst₂.tcp hc
  obtain ⟨x, hx, hagreed, hqC, hvalues⟩ := handleKexEcdhInit_exchanged he hfresh₂ hopen
  have hmem : msgKexEcdhInit :: body ∈ heard (openings w₂.obs) := by
    rw [hheard, ht]
    exact List.mem_append_right _ (List.mem_singleton_self _)
  have hwire := hst₂.onWire hwait hmem hagreed hqC hvalues
  obtain ⟨f, g, hfg, hreply, hg, -⟩ := hx.sent
  have hhead : f.payload.head? = some msgKexEcdhReply := by
    obtain ⟨_, _, _, -, -, -, hpay⟩ := hreply
    rw [hpay]
    rfl
  have hsaid : said (frames w'.obs) = said (frames w.obs) ++ [f.payload, [msgNewkeys]] := by
    rw [hfg, hsaid₂, said_append, ← hg]
    rfl
  refine ⟨x, hwire.clientVersion, ?_, ?_, ?_, ?_, ⟨f.payload, ?_, hreply⟩, hwire.agreed, hx.keys⟩
  · rw [hwire.serverVersion]
    decide
  · rw [hx.openings]
    refine firstOf_unique hwire.clientKexinit.1 hwire.clientKexinit.2 fun q hq hqh ↦ ?_
    rw [hheard, List.mem_append] at hq
    have hours : x.clientKexinit = w.s.peerKexInit := by
      simp only [Prod.mk.injEq] at hvalues
      exact hvalues.2.2.1.trans hpeer
    obtain hq | hq := hq
    · exact (hprop q hq hqh).2.trans hours.symm
    · rw [List.mem_singleton.mp hq, ht] at hqh
      cases hqh
  · have hin := hwire.serverKexinit.1
    rw [hsaid₂] at hin
    rw [hsaid]
    refine firstOf_unique (List.mem_append_left _ hin) hwire.serverKexinit.2 fun q hq hqh ↦ ?_
    obtain hq | hq := List.mem_append.mp hq
    · exact (hr.proposal q hq hqh).trans (hr.proposal _ hin hwire.serverKexinit.2).symm
    · simp only [List.mem_cons, List.not_mem_nil, or_false] at hq
      obtain rfl | rfl := hq
      · cases hhead.symm.trans hqh
      · cases hqh
  · rcases hgs : getString (viewInit body) with ⟨blob, v⟩
    rw [hgs] at hqC
    obtain rfl : blob = some x.qC := hqC
    obtain ⟨-, hrest, -⟩ := getString_some (viewInit_ok _) hgs
    have hbody := rest_viewInit_append body
    rw [hrest, List.append_assoc] at hbody
    refine ⟨v.rest ++ body.drop (body.length % sizeMod), ?_⟩
    rw [hx.openings, hheard, firstOf_append hshare, ht, hbody]
    rfl
  · rw [hsaid, firstOf_append fun q hq hqh ↦ ?_]
    · simp [firstOf, hhead]
    · obtain ⟨_, hno, -⟩ := hr.reply q hq hqh
      cases hno

/-- The round that gives a session its identifier completes the exchange. -/
theorem completed_round (hlaw : Law P arrived w) (hawait : YetUnkeyed w)
    (hfresh : w.s.haveSessionId = false) (hdone : (nextRound P w).s.haveSessionId = true) :
    ∃ x, Completed P arrived (nextRound P w) x := by
  obtain he | hr := nextRound_cases (P := P) w
  · rw [he, hfresh] at hdone
    cases hdone
  generalize nextRound P w = w' at hr hdone ⊢
  have hkept (hk : w'.s.haveSessionId = w.s.haveSessionId) : ∃ x, Completed P arrived w' x := by
    rw [hk, hfresh] at hdone
    cases hdone
  cases receiveRound_reading hr with
  | atEnd hc _ => exact hkept (congrArg Kex.haveSessionId hc.kex)
  | ended he => exact hkept (congrArg Keys.haveSessionId he.keys)
  | @hello line rest hp _ => exact hkept (greeted_haveSessionId w line rest)
  | garbled =>
    refine hkept ?_
    change (sendPacket P w (disconnect 2 "framing error")).s.haveSessionId = _
    rw [sendPacket_s]
  | packet hp hw ht =>
    obtain ⟨packet, rest, hb, -, -, he⟩ := parsePacket_unpacked hw
    rw [he] at ht
    cases ht with
    | chat hc _ => exact hkept (congrArg Kex.haveSessionId hc.kex)
    | ended he => exact hkept (congrArg Keys.haveSessionId he.keys)
    | kexinit => exact hkept rfl
    | exchange ht hwait hx => exact completed_exchange hlaw hawait hp hfresh hb ht hwait hx
    | newkeys => exact hkept rfl

/-- A change along the rounds of a loop happens in one of them. -/
theorem exists_turn {p : World → Bool} {n : ℕ} (h₀ : p w = false)
    (hn : p ((nextRound P)^[n] w) = true) :
    ∃ k m, n = m + (k + 1) ∧ p ((nextRound P)^[k] w) = false ∧
      p ((nextRound P)^[k + 1] w) = true := by
  induction n with
  | zero => cases h₀.symm.trans hn
  | succ n ih =>
    cases hp : p ((nextRound P)^[n] w) with
    | false => exact ⟨n, 0, (Nat.zero_add _).symm, hp, hn⟩
    | true =>
      obtain ⟨k, m, rfl, hk⟩ := ih hp
      exact ⟨k, m + 1, by omega, hk⟩

/-- `mid` is a moment of the receive loop that ends up in `w'`. -/
def Passes (P : Primitives) (mid w' : World) : Prop :=
  ∃ m, w' = if ((nextRound P)^[m] mid).s.phase = .closed then sessionClose ((nextRound P)^[m] mid)
    else (nextRound P)^[m] mid

/-- The event that gives a session its identifier is a delivery, and some round
of it completes the exchange. -/
theorem completed_event (hlaw : Law P arrived w) (hawait : YetUnkeyed w) (i : ℤ)
    (hfresh : w.s.haveSessionId = false) {e : Event}
    (hdone : (step P i w e).s.haveSessionId = true) :
    ∃ mid x, Passes P mid (step P i w e) ∧ Completed P arrived mid x := by
  have hkept (hk : (step P i w e).s.haveSessionId = w.s.haveSessionId) :
      ∃ mid x, Passes P mid (step P i w e) ∧ Completed P arrived mid x := by
    rw [hk, hfresh] at hdone
    cases hdone
  by_cases ha : ∃ data, e = .tcpArrive data
  · obtain ⟨data, rfl⟩ := ha
    exact hkept rfl
  by_cases hr : e = .tcpRecv
  swap
  · exact hkept (congrArg Kex.haveSessionId
      (step_chats w i (fun data hd ↦ ha ⟨data, hd⟩) hr).kex)
  subst hr
  obtain hw | ⟨n, hw⟩ := onTcpRecv_rounds (P := P) w i
  · exact hkept (congrArg (fun v : World ↦ v.s.haveSessionId) hw)
  change (onTcpRecv P i w).s.haveSessionId = true at hdone
  have hend : ((nextRound P)^[n] (filled w)).s.haveSessionId = true := by
    rw [hw] at hdone
    split at hdone
    · have hclose : (sessionClose ((nextRound P)^[n] (filled w))).s.haveSessionId = _ :=
        congrArg Kex.haveSessionId (Chats.sessionClose ((nextRound P)^[n] (filled w))).kex
      exact hclose.symm.trans hdone
    · exact hdone
  have hfresh' : (filled w).s.haveSessionId = false := hfresh
  obtain ⟨k, m, rfl, hk, hk'⟩ := exists_turn (p := fun v ↦ v.s.haveSessionId) hfresh' hend
  have hfill : Law P arrived (filled w) := hlaw.fill
  have hwait : YetUnkeyed (filled w) := hawait.congr rfl rfl
  have hlaw' : Law P arrived ((nextRound P)^[k] (filled w)) :=
    rounds_rule (fun _ _ h hr ↦ h.round hr) hfill k
  have hawait' : YetUnkeyed ((nextRound P)^[k] (filled w)) :=
    rounds_rule (fun _ _ h hr ↦ h.round hr) hwait k
  rw [Function.iterate_succ_apply'] at hk'
  obtain ⟨x, hx⟩ := completed_round hlaw' hawait' hk hk'
  refine ⟨nextRound P ((nextRound P)^[k] (filled w)), x, ⟨m, ?_⟩, hx⟩
  rw [← Function.iterate_succ_apply' (nextRound P), ← Function.iterate_add_apply]
  exact hw

end

end Sshd.Server
