import Sshd.Client.Owes
import Sshd.KeyAgreement
import Sshd.Server.Attended

namespace Sshd

open Lib.Octets Lib.Trace Wire Crypto Framing
open Server (standIn)

/-! A client that asks and a server that answers. -/

section
variable {obs : List Server.Obs}

/-- What a data message carries is shown. -/
theorem shown_formed {payload : Bytes} (h : Formed payload) (hlen : payload.length < 2 ^ 32) :
    Client.shown payload =
      if payload.head? = some Server.msgChannelData then payload.drop 9 else [] := by
  obtain ⟨hext, hdata⟩ := h
  by_cases hd : payload.head? = some 94
  swap
  · have hnone : Client.shown payload = [] := (if_neg hd).trans (if_neg hext)
    rw [hnone]
    exact (if_neg hd).symm
  obtain ⟨ch, d, hlong, rfl⟩ := hdata hd
  have he : putString (putU32 (putU8 [] 94) ch) d = 94 :: (be32 ch.toNat ++ lenPrefixed d) := by
    simp [putU8, putU32, putString_eq]
  rw [he] at hlen ⊢
  obtain ⟨v, hg, hv, hb, hr⟩ := getU32_of_rest (viewInit_ok (be32 ch.toNat ++ lenPrefixed d)) rfl
    ch.toNat_lt (rest_viewInit (Nat.lt_of_succ_lt hlen))
  obtain ⟨v', hs, -⟩ := getString_of_rest hv hb hlong (hr.trans (List.append_nil _).symm)
  have hread : Client.dataOf (94 :: (be32 ch.toNat ++ lenPrefixed d)) = some d := by
    rw [Client.dataOf, List.drop_succ_cons, List.drop_zero, hg, hs]
  have hshown : Client.shown (94 :: (be32 ch.toNat ++ lenPrefixed d)) = d := by
    refine (if_pos rfl).trans ?_
    rw [hread]
    rfl
  rw [hshown]
  refine Eq.symm ((if_pos rfl).trans ?_)
  simp [be32, lenPrefixed]

/-- What is said is shown as it was sent. -/
theorem shown_said (hf : ∀ p ∈ said (Server.frames obs), Formed p)
    (hs : ∀ f ∈ Server.frames obs, f.payload.length < 2 ^ 32) :
    (said (Server.frames obs)).flatMap Client.shown = obs.flatMap Server.sentData := by
  induction obs using List.reverseRecOn with
  | nil => rfl
  | append_singleton obs o ih =>
    rw [Server.frames_append, said_append] at hf
    rw [Server.frames_append] at hs
    rw [Server.frames_append, said_append, List.flatMap_append, List.flatMap_append,
      ih (fun p hp ↦ hf p (List.mem_append_left _ hp)) fun f hm ↦ hs f (List.mem_append_left _ hm)]
    refine congrArg _ ?_
    cases o with
    | «sealed» f =>
      have hone : f.payload ∈ said (Server.frames obs) ++ said (Server.frames [.sealed f]) :=
        List.mem_append_right _ (List.mem_singleton_self _)
      have hm : f ∈ Server.frames obs ++ Server.frames [.sealed f] :=
        List.mem_append_right _ (List.mem_singleton_self _)
      have hshown := shown_formed (hf _ hone) (hs f hm)
      rw [List.flatMap_singleton, Server.sentData, ← hshown]
      exact List.flatMap_singleton _ _
    | _ => rfl

end

namespace Peers

variable (P : Primitives)

/-- The wire is empty, and both sides have read what they got. -/
structure Settled (l : Peers) : Prop where
  toServer : l.toServer = l.fromClient
  toClient : l.toClient = l.fromServer
  server : Server.Waits P l.server
  client : Client.Waits P l.client

/-- A server that keeps its accounts. -/
structure Serves (l : Peers) : Prop where
  attended : Server.Attended l.server
  sends : Server.SendInv l.server
  short : ∀ f ∈ l.serverFrames, f.payload.length < 2 ^ 32

section
variable {P} {l l' : Peers}

theorem Serves.shown (h : Serves l) :
    (said l.serverFrames).flatMap Client.shown = l.server.obs.flatMap Server.sentData :=
  shown_said h.attended.ledger.formed h.short

theorem serves_run (hP : Commutes P) (c : Call) (hslot : 0 ≤ c.slot) (events : List Event)
    (hfit : Fit (after P c events)) : Serves (after P c events) := by
  have hclean := (joined_run hP c events hfit).server.clean
  obtain ⟨-, es, hes⟩ := run_runs (P := P) (i := c.slot) (ofCall c) events
  have hserver : (after P c events).server =
      Server.runFrom P c.slot (Server.accepted c.slot c.env c.tcp) es := hes
  refine ⟨?_, ?_, fun f hf ↦ ?_⟩
  · rw [hserver]
    exact Server.attended_run P c.slot c.env (Int.natCast_nonneg c.tcp) es
  · rw [hserver, ← Int.toNat_of_nonneg hslot]
    exact Server.sendInv_run P c.env c.slot.toNat c.tcp es
  · have hlen : f.payload.length ≤ 34984 := (hclean f hf).2
    omega

/-- While the client reads on, the server's answers are to what it had said before. -/
theorem causal (hs : Serves l) (hin : InStep P l) (hin' : InStep P l') (hfit' : Fit l')
    (hserver : l'.server = l.server) : Client.Causal l.client l'.client := by
  have hgot : heard l'.clientOpenings <+: said l.serverFrames := by
    have hg := hin'.clientGot
    unfold serverFrames at hg
    rwa [hserver] at hg
  have hledger := hs.attended.ledger
  refine ⟨fun q ↦ ?_, fun hun hm ↦ ?_, fun hmute ↦ ?_, fun p hp ↦ ?_⟩
  · calc answersTo q (heard l'.clientOpenings)
      _ ≤ answersTo q (said l.serverFrames) := answersTo_mono q hgot
      _ ≤ asked q (heard l.serverOpenings) := hledger.unasked q
      _ ≤ asked q (said l.clientFrames) := asked_mono q hin.serverGot
  · have hnone : (heard l.serverOpenings).countP probes = 0 :=
      List.countP_eq_zero.mpr fun p hp ↦ by
        rw [hun p (hin.serverGot.subset hp)]
        exact Bool.false_ne_true
    have hle := hledger.probed
    rw [show (heard (Server.openings l.server.obs)).countP probes = 0 from hnone,
      Nat.le_zero, List.count_eq_zero] at hle
    exact hle ((replies_mono hgot).subset hm)
  · have hzero := Server.sentData_eq_nil hs.attended hs.sends fun p hp ↦
      hmute p (hin.serverGot.subset hp)
    rw [← hs.shown] at hzero
    exact List.flatMap_eq_nil_iff.mpr fun p hp ↦
      List.flatMap_eq_nil_iff.mp hzero p (hgot.subset hp)
  · obtain ⟨f, hf, rfl⟩ := List.mem_map.mp hp
    have hlen : packetLen f.enc f.payload.length ≤ 35000 := hfit'.short f hf
    unfold packetLen at hlen
    omega

theorem Moves.client_cases {i : ℤ} (h : Moves P i l l') :
    l'.client = l.client ∨ ∃ e, l'.client = Client.step P l.client e ∧ l'.server = l.server := by
  cases h with
  | client e _ => exact .inr ⟨e, rfl, rfl⟩
  | toClient n =>
    exact .inr ⟨.tcpArrive ((l.fromServer.drop l.toClient.length).take n), rfl, rfl⟩
  | _ => exact .inl rfl

theorem inStep_run (hP : Commutes P) (c : Call) (events : List Event)
    (hfit : Fit (after P c events)) : InStep P (after P c events) :=
  (joined_run hP c events hfit).inStep hP (wired_run c events) hfit

theorem owes_run (hP : Commutes P) (c : Call) (hslot : 0 ≤ c.slot) (events : List Event)
    (hfit : Fit (after P c events)) : Client.Owes (after P c events).client := by
  induction events using List.reverseRecOn with
  | nil => exact Client.owes_runSession c.connects c.job c.store
  | append_singleton events e ih =>
    have hin' := inStep_run hP c _ hfit
    rw [after_snoc] at hfit hin' ⊢
    have hm := step_moves (P := P) (i := c.slot) (after P c events) e
    have hfit₀ := hfit.of_grows hm.grows
    have howes := ih hfit₀
    obtain hsame | ⟨e', hclient, hserver⟩ := hm.client_cases
    · rw [hsame]
      exact howes
    · have hc := causal (serves_run hP c hslot events hfit₀) (inStep_run hP c events hfit₀) hin' hfit
        hserver
      rw [hclient] at hc ⊢
      exact howes.step e' hc

theorem Settled.heard (hP : Commutes P) {c : Call} {events : List Event}
    (h : Settled P (after P c events)) (hfit : Fit (after P c events)) :
    ((after P c events).server.s.phase ≠ .closed →
        heard (after P c events).serverOpenings = said (after P c events).clientFrames ∧
          (after P c events).server.s.phase ≠ .version) ∧
      ((after P c events).client.pc ≠ .finished →
        heard (after P c events).clientOpenings = said (after P c events).serverFrames ∧
          (after P c events).client.pc ≠ .version) := by
  have hj := joined_run hP c events hfit
  have hin := inStep_run hP c events hfit
  obtain ⟨zC, zS, hr⟩ := hj.recorded hfit
  obtain ⟨hfc, hfs⟩ := (wired_run (P := P) c events).streams hfit.toTaken
  refine ⟨fun hup ↦ ⟨hin.serverDone hup h.toServer h.server, ?_⟩,
    fun hopen ↦ ⟨hin.clientDone hopen h.toClient h.client, ?_⟩⟩
  · exact hj.server.greeted (hj.server.once hr.client) hup (h.toServer.trans hfc) h.server
  · exact hj.client.greeted hopen (h.toClient.trans hfs) h.client

/-- Two equally long lists of answers from the front of one stream are the same. -/
theorem replies_eq {ps qs l : List Bytes} (hp : ps <+: l) (hq : qs <+: l)
    (h : answersTo .request ps = answersTo .request qs) : lastReply ps = lastReply qs := by
  have hlen (l : List Bytes) : answersTo .request l =
      ((replies l).filter (· ∈ Query.request.answers)).length := List.countP_eq_length_filter
  rw [hlen, hlen] at h
  unfold lastReply
  obtain hpq | hqp := List.prefix_or_prefix_of_prefix hp hq
  · rw [((replies_mono hpq).filter _).eq_of_length h]
  · rw [((replies_mono hqp).filter _).eq_of_length h.symm]

theorem clientSaid_short (hfit : Fit l) {p : Bytes} (hp : p ∈ said l.clientFrames) :
    p.length < 2 ^ 32 := by
  obtain ⟨f, hf, rfl⟩ := List.mem_map.mp hp
  have hlen : packetLen f.enc f.payload.length ≤ 35000 := hfit.short f hf
  unfold packetLen at hlen
  omega

/-- A session that gets data has its backend. -/
theorem backend_attached (hs : Serves l) (ho : Client.Owes l.client) (hin : InStep P l) (hfit : Fit l)
    {s : Server.Session} {payload : Bytes} (hm : .dispatch s payload ∈ l.server.obs)
    (hd : payload.head? = some Server.msgChannelData) : 0 ≤ s.backendHandle := by
  obtain ⟨pre, post, hobs⟩ := List.append_of_mem hm
  obtain ⟨before, hheard, -, hpaid, hattached⟩ := hs.attended.each pre _ post hobs
  have hpre : pre <+: l.server.obs := ⟨_, hobs.symm⟩
  -- all the requests came in front of the data
  have hfront : before ++ [payload] <+: said l.clientFrames := by
    rw [← hheard]
    exact ((hpre.filterMap _).map _).trans hin.serverGot
  obtain ⟨rest, hrest⟩ := hfront
  have hsaid : said (Client.frames l.client.obs) = before ++ (payload :: rest) := by
    rw [List.append_assoc] at hrest
    exact hrest.symm
  have hlate : ∀ p ∈ payload :: rest, p.head? ≠ some 98 := by
    intro p hp
    have horder := ho.order
    rw [hsaid] at horder
    obtain rfl | hp := List.mem_cons.mp hp
    · rw [hd]
      decide
    · have htail := (List.pairwise_append.mp horder).2.1
      exact (List.pairwise_cons.mp htail).1 p hp hd
  have hsent : payload ∈ said (Client.frames l.client.obs) := by
    rw [hsaid]
    exact List.mem_append_right _ List.mem_cons_self
  have hgranted := ho.granted (.inr ⟨payload, hsent, hd⟩)
  obtain ⟨cs, hlast⟩ := hgranted.command
  rw [hsaid, lastRequest_append hlate] at hlast
  have hcommand : Client.commandPayload l.client.job cs ∈ said (Client.frames l.client.obs) := by
    rw [hsaid]
    exact List.mem_append_left _ (List.mem_of_mem_filter (List.mem_of_getLast? hlast))
  obtain ⟨hwants, hreply⟩ := Client.commandPayload_wants (clientSaid_short hfit hcommand)
  refine hattached _ hlast hwants (by rw [hreply]; decide) ?_
  -- and the replies to them are all that the client has
  have hcount : answersTo .request (said (Server.frames pre)) =
      answersTo .request (heard (Client.openings l.client.obs)) := by
    rw [hpaid, hgranted.settled, hsaid, asked_append, asked_request_eq_zero hlate, Nat.add_zero]
  have hsame := replies_eq (l := said l.serverFrames) ((hpre.filterMap _).map _) hin.clientGot hcount
  exact hsame.trans hgranted.reply

/-- What the backends are offered is what was typed. -/
theorem offered_typed (hs : Serves l) (ho : Client.Owes l.client) (hin : InStep P l) (hfit : Fit l)
    (hoffers : Server.Offers l.server)
    (hentered : (said l.clientFrames).flatMap Server.dataBytes = Client.entered l.client.obs)
    (hcmd : l.client.job.haveCmd = false) :
    (Server.offered l.server.obs).flatMap Prod.snd <+: Client.entered l.client.obs ∧
      (heard l.serverOpenings = said l.clientFrames → l.server.s.phase ≠ .closed →
        (Server.offered l.server.obs).flatMap Prod.snd = Client.entered l.client.obs) := by
  have hdispatched : Server.dispatched l.server.obs = heard l.serverOpenings := hs.attended.dispatched
  have hline (s : Server.Session) (payload : Bytes) (hm : .dispatch s payload ∈ l.server.obs)
      (line : Bytes) : Server.backendRequest payload ≠ some (.cli, .line, line) := by
    intro hr
    have hsaid : payload ∈ said l.clientFrames :=
      hin.serverGot.subset (hdispatched ▸ Server.mem_dispatched hm)
    have hhead := Server.backendRequest_head hr
    exact Client.request_interactive hcmd (ho.requests payload hsaid hhead)
      (clientSaid_short hfit hsaid) line hr
  have hattached (s : Server.Session) (payload : Bytes) (hm : .dispatch s payload ∈ l.server.obs)
      (_ : s.phase = .run) (hd : payload.head? = some Server.msgChannelData) : 0 ≤ s.backendHandle :=
    backend_attached hs ho hin hfit hm hd
  obtain ⟨-, hfed⟩ := Server.received_fed hattached hline
  have hoffered : (Server.offered l.server.obs).flatMap Prod.snd = Server.fed l.server.obs := by
    rw [← hoffers, hfed]
  rw [hoffered, ← hentered]
  refine ⟨?_, fun hall hup ↦ ?_⟩
  · refine (Server.fed_prefix hs.attended.each).trans ?_
    rw [hdispatched]
    obtain ⟨rest, hrest⟩ := hin.serverGot
    rw [← hrest, List.flatMap_append]
    exact List.prefix_append _ _
  · rw [Server.fed_inRun (hs.attended.inRun hup), hdispatched, hall]

end

/-- No answer comes unasked, and a client that waits is owed one. Where all is read,
a client and a server that are up have nothing left to ask or to answer. -/
structure Dialogue (l : Peers) : Prop where
  unasked : ∀ q, answersTo q (heard l.clientOpenings) ≤ asked q (said l.clientFrames)
  owed : ∀ q, l.client.pc.waits = some q →
    answersTo q (heard l.clientOpenings) < asked q (said l.clientFrames)
  rests : Settled P l → l.server.s.phase ≠ .closed → l.client.pc ≠ .finished →
    l.client.pc = .pump ∧ ∀ q, answersTo q (heard l.clientOpenings) = asked q (said l.clientFrames)

/-- `out_write` is given what the server reads from its backends, from its beginning
on and, where all is read, to its end. The user is shown that, but for the tails
that are dropped when the pipe to the command line stalls. -/
structure Outputs (l : Peers) : Prop where
  given : Client.printed l.client.obs <+: l.server.obs.flatMap Server.readData
  all : Settled P l → l.client.pc ≠ .finished →
    Client.printed l.client.obs = l.server.obs.flatMap Server.readData
  shown : (Client.displayed l.client.obs).Sublist (Client.printed l.client.obs)
  whole : Client.PipeFlows l.client.obs →
    Client.displayed l.client.obs = Client.printed l.client.obs

/-- The server has a login of the client's on record: a request that proves who it
is, sealed by the client for the session that both sides are in. The session is
that of the exchange whose host signature the client has found good. -/
def LoggedIn (env : Server.Env) (l : Peers) : Prop :=
  ∃ pre seq packet s payload post, l.server.obs =
      pre ++ .opened s.encInbound s.c2sKey seq packet payload :: .dispatch s payload :: post ∧
    s.phase = .auth ∧ s.sessionId = l.client.cs.sessionId ∧
    (∃ x hpub sig, Client.Answered l.clientOpenings x hpub sig ∧ s.sessionId = x.hash P ∧
      .verify hpub (x.hash P) sig true ∈ l.client.obs) ∧
    (∃ f ∈ l.clientFrames, f.enc = true ∧ f.key = s.c2sKey ∧ f.seq = seq ∧ f.bytes P = packet ∧
      f.payload = payload) ∧
    (Server.ByPublickey P env (pre ++ [.opened s.encInbound s.c2sKey seq packet payload,
        .dispatch s payload]) s payload ∨
      Server.ByPassword env (pre ++ [.opened s.encInbound s.c2sKey seq packet payload,
        .dispatch s payload]) payload)

end Peers

section
variable {P : Primitives} (hP : Commutes P) (c : Call) (hslot : 0 ≤ c.slot)
  (events : List Peers.Event) (hfit : (Peers.after P c events).Fit)

include hP hslot hfit

/-- A client and a server over reliable streams never wait for each other. -/
theorem dialogue_never_stalls : (Peers.after P c events).Dialogue P := by
  have hs := Peers.serves_run hP c hslot events hfit
  have ho := Peers.owes_run hP c hslot events hfit
  have hin := Peers.inStep_run hP c events hfit
  have hheard (h : (Peers.after P c events).Settled P) := h.heard hP hfit
  generalize Peers.after P c events = l at *
  refine ⟨fun q ↦ ?_, ho.waits, fun hset hup hopen ↦ ?_⟩
  · calc answersTo q (heard l.clientOpenings)
      _ ≤ answersTo q (said l.serverFrames) := answersTo_mono q hin.clientGot
      _ ≤ asked q (heard l.serverOpenings) := hs.attended.ledger.unasked q
      _ ≤ asked q (said l.clientFrames) := asked_mono q hin.serverGot
  obtain ⟨hserver, hclient⟩ := hheard hset
  obtain ⟨hheardS, hversion⟩ := hserver hup
  obtain ⟨hheardC, hgreeted⟩ := hclient hopen
  have hsettled (q : Query) : answersTo q (heard l.clientOpenings) = asked q (said l.clientFrames) := by
    rw [hheardC, ← hheardS]
    exact hs.attended.ledger.paid hup q
  refine ⟨?_, hsettled⟩
  have hnone : l.client.pc.waits = none := by
    cases hw : l.client.pc.waits with
    | none => rfl
    | some q => exact absurd (hsettled q) (ho.waits q hw).ne
  have hproposed : l.client.pc ≠ .kexinit := fun hk ↦ by
    refine ho.unproposed (.inr hk) ?_
    rw [show heard (Client.openings l.client.obs) = _ from hheardC]
    exact hs.attended.ledger.proposed hup hversion
  revert hnone hgreeted hproposed hopen
  cases l.client.pc <;> simp [Client.Pc.waits]

/-- The user sees what the backend has said. -/
theorem output_arrives : (Peers.after P c events).Outputs P := by
  obtain ⟨⟨cs, hcs⟩, -⟩ := Peers.run_runs (P := P) (i := c.slot) (Peers.ofCall c) events
  have hpours : ∀ o ∈ (Peers.after P c events).client.obs, o.Pours := by
    rw [Peers.after, hcs]
    exact Client.pours_run c.connects c.job c.store cs
  clear hcs
  have hs := Peers.serves_run hP c hslot events hfit
  have ho := Peers.owes_run hP c hslot events hfit
  have hin := Peers.inStep_run hP c events hfit
  have hheard (h : (Peers.after P c events).Settled P) := (h.heard hP hfit).2
  generalize Peers.after P c events = l at *
  refine ⟨?_, fun hset hopen ↦ ?_, Client.displayed_sublist _, Client.displayed_eq hpours⟩
  · rw [← hs.sends.inOrder, ← hs.shown]
    refine ho.prints.trans ?_
    obtain ⟨rest, hrest⟩ := hin.clientGot
    rw [← hrest, List.flatMap_append]
    exact List.prefix_append _ _
  · rw [← hs.sends.inOrder, ← hs.shown, ho.printsAll hopen]
    exact congrArg _ (hheard hset hopen).1

/-- What the user types is offered to the backend, from its beginning on. -/
theorem input_arrives (hcmd : c.job.haveCmd = false) :
    (Server.offered (Peers.after P c events).server.obs).flatMap Prod.snd <+:
        Client.entered (Peers.after P c events).client.obs ∧
      ((Peers.after P c events).Settled P → (Peers.after P c events).server.s.phase ≠ .closed →
        (Server.offered (Peers.after P c events).server.obs).flatMap Prod.snd =
          Client.entered (Peers.after P c events).client.obs) := by
  obtain ⟨⟨cs, hcs⟩, ss, hss⟩ := Peers.run_runs (P := P) (i := c.slot) (Peers.ofCall c) events
  have hclient : (Peers.after P c events).client =
      Client.runFrom P (Client.runSession c.cenv c.job c.store) cs := hcs
  have hserver : (Peers.after P c events).server =
      Server.runFrom P c.slot (Server.accepted c.slot c.env c.tcp) ss := hss
  have hoffers : Server.Offers (Peers.after P c events).server := by
    rw [hserver]
    exact Server.offers_run P c.slot c.env c.tcp ss
  have hentered : (said (Peers.after P c events).clientFrames).flatMap Server.dataBytes =
      Client.entered (Peers.after P c events).client.obs := by
    rw [Peers.clientFrames, hclient]
    exact Client.entered_run c.connects c.job c.store cs
  have hinteractive : (Peers.after P c events).client.job.haveCmd = false := by
    obtain ⟨-, -, -, -, hjob, -⟩ := Client.runSession_connected c.connects c.job c.store
    have hgiven := Client.given_run (P := P) (Client.runSession c.cenv c.job c.store) cs
    rw [hjob] at hgiven
    rw [hclient]
    exact (congrArg Client.Given.haveCmd hgiven).trans hcmd
  obtain ⟨hstart, hall⟩ := Peers.offered_typed (Peers.serves_run hP c hslot events hfit)
    (Peers.owes_run hP c hslot events hfit) (Peers.inStep_run hP c events hfit) hfit hoffers hentered
    hinteractive
  exact ⟨hstart, fun hset hup ↦ hall ((hset.heard hP hfit).1 hup).1 hup⟩

/-- A client that has got through was let in for what it has said itself. -/
theorem login_of_client (hv : VerifiesOwn P)
    (hpc : (Peers.after P c events).client.pc.onChannel = true) :
    (Peers.after P c events).LoggedIn P c.env := by
  have hj := Peers.joined_run hP c events hfit
  have hin := Peers.inStep_run hP c events hfit
  have ho := Peers.owes_run hP c hslot events hfit
  have hadmits : Server.Admits P c.env (Peers.after P c events).server := by
    obtain ⟨-, ss, hss⟩ := Peers.run_runs (P := P) (i := c.slot) (Peers.ofCall c) events
    rw [Peers.after, hss]
    exact Server.admits_run (Int.natCast_nonneg c.tcp) ss
  obtain ⟨zC, zS, hr⟩ := hj.recorded hfit
  have hkeys := (hj.agreed hP hv (Peers.wired_run c events) hfit.toTaken).2
  generalize Peers.after P c events = l at *
  have hopen : l.client.pc ≠ .finished := by
    intro hfin
    rw [hfin] at hpc
    cases hpc
  obtain ⟨pre, seq, packet, s, payload, post, hobs, hphase, henc, hhash, hproof⟩ :=
    hadmits.admitted ((replies_mono hin.clientGot).subset (ho.admitted hpc))
  have hm : ⟨s.encInbound, s.c2sKey, seq, packet, payload⟩ ∈ l.serverOpenings := by
    refine List.mem_filterMap.mpr ⟨.opened s.encInbound s.c2sKey seq packet payload, ?_, rfl⟩
    rw [hobs]
    simp
  obtain ⟨f, hf, hmatch⟩ := hin.serverRead.mem_matches hm
  have hsealed : f.enc = true := hmatch.enc.symm.trans henc
  -- the session that the request was for is the one both sides are in
  have hswitched : Switched (said (Client.frames l.client.obs)) := by
    obtain ⟨before, after, hsplit⟩ := List.append_of_mem hf
    obtain ⟨p, hp, hnew⟩ := (hr.clientSends.switches before f after hsplit).mp hsealed
    refine ⟨p, ?_, hnew⟩
    rw [show Client.frames l.client.obs = _ from hsplit, said_append]
    exact List.mem_append_left _ hp
  have hsame := hkeys hopen ((hr.clientUp hopen).1.speaks.mpr hswitched)
  have hfirst : Server.firstExchangeHash l.server.obs = some s.sessionId := by
    rw [hobs, Server.firstExchangeHash_append, hhash, Option.some_or]
  rw [hadmits.auth.hash, if_pos hsame.haveSessionId] at hfirst
  have hid : s.sessionId = l.client.cs.sessionId :=
    (Option.some.inj hfirst).symm.trans hsame.sessionId.symm
  obtain ⟨x, hpub, sig, hanswered, hx, -, hchecked⟩ := hsame.signed
  exact ⟨pre, seq, packet, s, payload, post, hobs, hphase, hid,
    ⟨x, hpub, sig, hanswered, hid.trans hx, hchecked⟩,
    ⟨f, hf, hsealed, (hmatch.key hsealed).symm, hmatch.seq.symm, hmatch.packet.symm,
      hmatch.payload.symm⟩, hproof⟩

end

/-! A shell in which `ls` is typed. -/

def sampleTalk : List Peers.Event :=
  (List.replicate 9 turn).flatten ++
    (.client (.typed (ascii "ls\n")) :: .client (.poll true) :: turn) ++
    [.server (.backendArrive 54 (ascii "ok")), .server .backendRecv] ++ turn

def sampleShell : Peers := Peers.after standIn sampleCall sampleTalk

theorem sampleShell_fit : sampleShell.Fit ∧ sampleShell.Settled standIn ∧
    (sampleShell.client.pc = .pump ∧ sampleShell.server.s.phase = .run) ∧
    Client.entered sampleShell.client.obs = ascii "ls\n" ∧
    sampleShell.server.obs.flatMap Server.readData = ascii "ok" ∧
    Client.PipeFlows sampleShell.client.obs := by
  have h : (Lib.Writes.Taken (Client.tcpWrites sampleShell.client.obs) ∧
      Lib.Writes.Taken (Server.tcpWrites sampleShell.server.obs) ∧
      ∀ f ∈ sampleShell.clientFrames, packetLen f.enc f.payload.length ≤ 35000) ∧
      (sampleShell.toServer = sampleShell.fromClient ∧ sampleShell.toClient = sampleShell.fromServer ∧
        (sampleShell.server.tcpIn ++ sampleShell.server.s.rxBuf = [] ∧
          sampleShell.client.tcpIn ++ sampleShell.client.cs.rxBuf = [])) ∧
      (sampleShell.client.pc = .pump ∧ sampleShell.server.s.phase = .run) ∧
      Client.entered sampleShell.client.obs = ascii "ls\n" ∧
      sampleShell.server.obs.flatMap Server.readData = ascii "ok" ∧
      Client.PipeFlows sampleShell.client.obs := by
    decide +kernel
  obtain ⟨⟨hclient, hserver, hshort⟩, ⟨hts, htc, hread, hread'⟩, ⟨hpc, hphase⟩, hdata⟩ := h
  obtain ⟨htcp, hbuf⟩ := List.append_eq_nil_iff.mp hread
  obtain ⟨htcp', hbuf'⟩ := List.append_eq_nil_iff.mp hread'
  have hempty (enc : Bool) (key : Bytes) (seq : ℕ) : unframe standIn enc key seq [] = .needMore := by
    cases enc <;> rfl
  refine ⟨⟨⟨hclient, hserver⟩, hshort⟩, ⟨hts, htc, ⟨htcp, ?_⟩, htcp', ?_⟩, ⟨hpc, hphase⟩, hdata⟩
  · rw [if_neg (by rw [hphase]; decide), Server.parsePacket, hbuf, hempty]
  · rw [if_neg (by rw [hpc]; decide), Client.tryParse, hbuf', hempty]

theorem dialogue_rests : sampleShell.client.pc = .pump ∧ ∀ q,
    answersTo q (heard sampleShell.clientOpenings) = asked q (said sampleShell.clientFrames) := by
  obtain ⟨hfit, hset, ⟨hpc, hphase⟩, -⟩ := sampleShell_fit
  exact (dialogue_never_stalls standIn_commutes sampleCall (by decide) sampleTalk hfit).rests hset
    (by rw [← sampleShell, hphase]; decide) (by rw [← sampleShell, hpc]; decide)

theorem output_arrives_ok : Client.displayed sampleShell.client.obs = ascii "ok" := by
  obtain ⟨hfit, hset, ⟨hpc, -⟩, -, hok, hflow⟩ := sampleShell_fit
  have h := output_arrives standIn_commutes sampleCall (by decide) sampleTalk hfit
  exact (h.whole hflow).trans ((h.all hset (by rw [← sampleShell, hpc]; decide)).trans hok)

theorem input_arrives_ls : (Server.offered sampleShell.server.obs).flatMap Prod.snd = ascii "ls\n" := by
  obtain ⟨hfit, hset, ⟨-, hphase⟩, hls, -⟩ := sampleShell_fit
  have h := input_arrives standIn_commutes sampleCall (by decide) sampleTalk hfit rfl
  exact (h.2 hset (by rw [← sampleShell, hphase]; decide)).trans hls

theorem login_of_shell : sampleShell.LoggedIn standIn Server.sampleEnv := by
  obtain ⟨hfit, -, ⟨hpc, -⟩, -⟩ := sampleShell_fit
  exact login_of_client standIn_commutes sampleCall (by decide) sampleTalk hfit standIn_verifiesOwn
    (by rw [← sampleShell, hpc]; rfl)

end Sshd
