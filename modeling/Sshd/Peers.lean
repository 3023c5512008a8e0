import Sshd.Client.FlowControl
import Sshd.Client.InStep
import Sshd.Lib.Writes
import Sshd.Server.InStep

namespace Sshd

open Lib Lib.Octets Lib.Trace Wire Crypto Framing

variable (P : Primitives) (i : ℤ)

/-- A client and a server, with what has been delivered to either. -/
structure Peers where
  client : Client.World
  server : Server.World
  toServer : Bytes
  toClient : Bytes

/-- A client that has got through to the server, with the slot that its session
gets there. -/
structure Call where
  slot : ℤ
  env : Server.Env
  tcp : ℕ
  cenv : Client.Env
  job : Client.SshJob
  store : List Bytes
  connects : 0 ≤ cenv.itsConnect

namespace Peers

/-- What can happen on either side, and the arrival of the next `n` bytes. -/
inductive Event
  | client (e : Client.Event)
  | server (e : Server.Event)
  | toServer (n : ℕ)
  | toClient (n : ℕ)

def fromClient (l : Peers) : Bytes := Writes.accepted (Client.tcpWrites l.client.obs)

def fromServer (l : Peers) : Bytes := Writes.accepted (Server.tcpWrites l.server.obs)

/-- Bytes come from the other side only. -/
def step (l : Peers) : Event → Peers
  | .client (.tcpArrive _) => l
  | .client e => { l with client := Client.step P l.client e }
  | .server (.tcpArrive _) => l
  | .server e => { l with server := Server.step P i l.server e }
  | .toServer n =>
    let data := (l.fromClient.drop l.toServer.length).take n
    { l with
      server := Server.step P i l.server (.tcpArrive data)
      toServer := l.toServer ++ data }
  | .toClient n =>
    let data := (l.fromServer.drop l.toClient.length).take n
    { l with
      client := Client.step P l.client (.tcpArrive data)
      toClient := l.toClient ++ data }

def run (l : Peers) (events : List Event) : Peers := events.foldl (step P i) l

def ofCall (c : Call) : Peers :=
  ⟨Client.runSession c.cenv c.job c.store, Server.accepted c.slot c.env c.tcp, [], []⟩

def clientFrames (l : Peers) : List Frame := Client.frames l.client.obs
def clientOpenings (l : Peers) : List Opening := Client.openings l.client.obs
def serverFrames (l : Peers) : List Frame := Server.frames l.server.obs
def serverOpenings (l : Peers) : List Opening := Server.openings l.server.obs

/-- The transport has taken all that was written. -/
structure Taken (l : Peers) : Prop where
  client : Writes.Taken (Client.tcpWrites l.client.obs)
  server : Writes.Taken (Server.tcpWrites l.server.obs)

/-- Besides, no packet of the client is too long for its reader. -/
structure Fit (l : Peers) : Prop extends Taken l where
  short : ∀ f ∈ l.clientFrames, packetLen f.enc f.payload.length ≤ 35000

/-- The peers of a call after some events. -/
def after (c : Call) (events : List Event) : Peers := run P c.slot (ofCall c) events

/-- The steps of two peers. -/
inductive Moves (l : Peers) : Peers → Prop
  | stay : Moves l l
  | client (e : Client.Event) (he : ∀ data, e ≠ .tcpArrive data) :
      Moves l { l with client := Client.step P l.client e }
  | server (e : Server.Event) (he : ∀ data, e ≠ .tcpArrive data) :
      Moves l { l with server := Server.step P i l.server e }
  | toServer (n : ℕ) : Moves l (step P i l (.toServer n))
  | toClient (n : ℕ) : Moves l (step P i l (.toClient n))

/-- Both sides write nothing but their packets, and nothing is delivered that was
not written. -/
structure Wired (l : Peers) : Prop where
  client : Client.Outbound P l.client
  server : Server.Outbound P l.server
  toServer : l.toServer <+: l.fromClient
  toClient : l.toClient <+: l.fromServer

/-- Either side has read nothing but what the other one sent. -/
structure Joined (l : Peers) : Prop where
  client : Client.Hears P l.toClient l.serverFrames l.serverOpenings l.client
  server : Server.Hears P l.toServer l.clientFrames l.clientOpenings l.server

/-- The records of the two exchanges. -/
structure OnRecord (l : Peers) (zC zS : Option Handshake) : Prop where
  client : Client.OnRecord P l.toClient l.client zC
  server : Server.Record P l.toServer l.serverFrames l.serverOpenings l.server.s.ourKexInit
    l.server.s.keys zS
  clientUp : l.client.pc ≠ .finished → Client.Standing P l.toClient l.client zC ∧
    Client.Listens l.client
  serverUp : l.server.s.phase ≠ .closed → Server.Standing l.toServer l.server zS ∧
    Server.Listens l.server
  clientSends : Sender l.clientFrames
  serverSends : Sender l.serverFrames

section
variable {P i} {l : Peers}

theorem run_append (l : Peers) (events more : List Event) :
    run P i l (events ++ more) = run P i (run P i l events) more := List.foldl_append ..

theorem run_snoc (l : Peers) (events : List Event) (e : Event) :
    run P i l (events ++ [e]) = step P i (run P i l events) e := List.foldl_concat ..

/-- A step is one of either side, or an arrival. -/
theorem step_moves (l : Peers) (e : Event) : Moves P i l (step P i l e) := by
  cases e with
  | client e =>
    cases e with
    | tcpArrive data => exact .stay
    | tcpClose => exact .client .tcpClose nofun
    | typed data => exact .client (.typed data) nofun
    | userClose => exact .client .userClose nofun
    | poll expired => exact .client (.poll expired) nofun
  | server e =>
    cases e with
    | tcpArrive data => exact .stay
    | tcpRecv => exact .server .tcpRecv nofun
    | tcpDisconnect => exact .server .tcpDisconnect nofun
    | backendArrive handle data => exact .server (.backendArrive handle data) nofun
    | backendRecv => exact .server .backendRecv nofun
    | backendDisconnect => exact .server .backendDisconnect nofun
    | reset => exact .server .reset nofun
  | toServer n => exact .toServer n
  | toClient n => exact .toClient n

theorem Moves.runs {l' : Peers} (h : Moves P i l l') :
    (∃ es, l'.client = Client.runFrom P l.client es) ∧
      ∃ es, l'.server = Server.runFrom P i l.server es := by
  cases h with
  | stay => exact ⟨⟨[], rfl⟩, [], rfl⟩
  | client e _ => exact ⟨⟨[e], rfl⟩, [], rfl⟩
  | server e _ => exact ⟨⟨[], rfl⟩, [e], rfl⟩
  | toServer n =>
    exact ⟨⟨[], rfl⟩, [.tcpArrive ((l.fromClient.drop l.toServer.length).take n)], rfl⟩
  | toClient n =>
    exact ⟨⟨[.tcpArrive ((l.fromServer.drop l.toClient.length).take n)], rfl⟩, [], rfl⟩

/-- Both sides are runs of their own. -/
theorem run_runs (l : Peers) (events : List Event) :
    (∃ es, (run P i l events).client = Client.runFrom P l.client es) ∧
      ∃ es, (run P i l events).server = Server.runFrom P i l.server es := by
  induction events using List.reverseRecOn with
  | nil => exact ⟨⟨[], rfl⟩, [], rfl⟩
  | append_singleton events e ih =>
    obtain ⟨⟨cs, hcs⟩, ss, hss⟩ := ih
    obtain ⟨⟨cs', hcs'⟩, ss', hss'⟩ := (step_moves (P := P) (i := i) (run P i l events) e).runs
    refine ⟨⟨cs ++ cs', ?_⟩, ss ++ ss', ?_⟩
    · rw [run_snoc, hcs', hcs, Client.runFrom, Client.runFrom, Client.runFrom, List.foldl_append]
    · rw [run_snoc, hss', hss, Server.runFrom, Server.runFrom, Server.runFrom, List.foldl_append]

theorem clientFrames_grow {l' : Peers} (h : l.client.obs <+: l'.client.obs) :
    l.clientFrames <+: l'.clientFrames := h.filterMap _

theorem serverFrames_grow {l' : Peers} (h : l.server.obs <+: l'.server.obs) :
    l.serverFrames <+: l'.serverFrames := h.filterMap _

theorem Moves.grows {l' : Peers} (h : Moves P i l l') :
    l.client.obs <+: l'.client.obs ∧ l.server.obs <+: l'.server.obs := by
  cases h with
  | stay => exact ⟨List.prefix_rfl, List.prefix_rfl⟩
  | client e _ => exact ⟨Client.step_grows l.client e, List.prefix_rfl⟩
  | server e _ => exact ⟨List.prefix_rfl, Server.step_grows l.server e⟩
  | toServer n => exact ⟨List.prefix_rfl, List.prefix_rfl⟩
  | toClient n => exact ⟨List.prefix_rfl, List.prefix_rfl⟩

theorem run_grows (l : Peers) (events : List Event) :
    l.client.obs <+: (run P i l events).client.obs ∧
      l.server.obs <+: (run P i l events).server.obs := by
  induction events using List.reverseRecOn with
  | nil => exact ⟨List.prefix_rfl, List.prefix_rfl⟩
  | append_singleton events e ih =>
    have hm := (step_moves (P := P) (i := i) (run P i l events) e).grows
    rw [run_snoc]
    exact ⟨ih.1.trans hm.1, ih.2.trans hm.2⟩

/-- Only in an exchange does the client check a signature. -/
theorem Moves.unjudged {l' : Peers} (h : Moves P i l l') (hp : ¬l.client.pc.Exchanging)
    {pub msg sig : Bytes} {ok : Bool} (hm : .verify pub msg sig ok ∈ l'.client.obs) :
    .verify pub msg sig ok ∈ l.client.obs := by
  cases h with
  | client e _ => exact (Client.step_further l.client e).verdicts hp _ _ _ _ hm
  | toClient n => exact hm
  | _ => exact hm

/-- What was written so far stays so. -/
theorem accepted_grow {ws ws' : List (Bytes × ℕ)} (h : ws <+: ws') :
    Writes.accepted ws <+: Writes.accepted ws' := by
  obtain ⟨more, rfl⟩ := h
  unfold Writes.accepted
  rw [List.map_append, List.flatten_append]
  exact List.prefix_append _ _

theorem Taken.of_grows {l' : Peers} (h : Taken l')
    (hg : l.client.obs <+: l'.client.obs ∧ l.server.obs <+: l'.server.obs) : Taken l :=
  ⟨fun a ha ↦ h.client a ((hg.1.filterMap _).subset ha),
    fun a ha ↦ h.server a ((hg.2.filterMap _).subset ha)⟩

theorem Fit.of_grows {l' : Peers} (h : Fit l')
    (hg : l.client.obs <+: l'.client.obs ∧ l.server.obs <+: l'.server.obs) : Fit l :=
  ⟨h.toTaken.of_grows hg, fun f hf ↦ h.short f ((clientFrames_grow hg.1).subset hf)⟩

/-- The server's own packets are never too long. -/
theorem orderly_short {f : Frame} (h : Server.Orderly f.payload) :
    packetLen f.enc f.payload.length ≤ 35000 := by
  have hpad := (padLen_bounds f.enc f.payload.length).2
  have hlen : f.payload.length ≤ 34984 := h.2
  unfold packetLen
  omega

/-- The next bytes of a stream. -/
theorem deliver_prefix {got stream : Bytes} (h : got <+: stream) (n : ℕ) :
    got ++ (stream.drop got.length).take n <+: stream := by
  obtain ⟨rest, rfl⟩ := h
  rw [List.drop_left, List.prefix_append_right_inj]
  exact List.take_prefix _ _

theorem Wired.step (h : Wired P l) {l' : Peers} (hm : Moves P i l l')
    (hc : Client.Outbound P l'.client) (hs : Server.Outbound P l'.server) : Wired P l' := by
  have hfrom : l.fromClient <+: l'.fromClient ∧ l.fromServer <+: l'.fromServer :=
    ⟨accepted_grow (hm.grows.1.filterMap _), accepted_grow (hm.grows.2.filterMap _)⟩
  cases hm with
  | stay => exact h
  | client e _ => exact ⟨hc, hs, h.toServer.trans hfrom.1, h.toClient⟩
  | server e _ => exact ⟨hc, hs, h.toServer, h.toClient.trans hfrom.2⟩
  | toServer n => exact ⟨hc, hs, deliver_prefix h.toServer n, h.toClient⟩
  | toClient n => exact ⟨hc, hs, h.toServer, deliver_prefix h.toClient n⟩

theorem after_snoc (c : Call) (events : List Event) (e : Event) :
    after P c (events ++ [e]) = step P c.slot (after P c events) e := run_snoc ..

theorem after_append (c : Call) (events more : List Event) :
    after P c (events ++ more) = run P c.slot (after P c events) more := run_append ..

theorem after_grows (c : Call) (events more : List Event) :
    (after P c events).client.obs <+: (after P c (events ++ more)).client.obs ∧
      (after P c events).server.obs <+: (after P c (events ++ more)).server.obs := by
  rw [after_append]
  exact run_grows _ _

theorem wired_run (c : Call) (events : List Event) : Wired P (after P c events) := by
  have hout (events : List Event) : Client.Outbound P (after P c events).client ∧
      Server.Outbound P (after P c events).server := by
    obtain ⟨⟨cs, hcs⟩, ss, hss⟩ := run_runs (P := P) (i := c.slot) (ofCall c) events
    rw [after, hcs, hss]
    exact ⟨Client.outbound_run P c.cenv c.job c.store cs c.connects,
      Server.outbound_run P c.slot c.env c.tcp ss⟩
  induction events using List.reverseRecOn with
  | nil => exact ⟨(hout []).1, (hout []).2, List.nil_prefix, List.nil_prefix⟩
  | append_singleton events e ih =>
    obtain ⟨hc, hs⟩ := hout (events ++ [e])
    rw [after_snoc] at hc hs ⊢
    exact ih.step (step_moves _ e) hc hs

/-- What one side has been delivered of what the other says. -/
theorem Wired.streams (h : Wired P l) (hall : Taken l) :
    l.fromClient = Client.versionLine ++ (l.clientFrames.map (Frame.bytes P)).flatten ∧
      l.fromServer = Server.versionLine ++ (l.serverFrames.map (Frame.bytes P)).flatten := by
  constructor
  · rw [fromClient, hall.client.accepted_eq, Writes.offered, h.client.writes, List.flatten_cons]
    rfl
  · rw [fromServer, hall.server.accepted_eq, Writes.offered, h.server.writes, List.flatten_cons]
    rfl

theorem Joined.recorded (h : Joined P l) (hfit : Fit l) : ∃ zC zS, OnRecord P l zC zS := by
  obtain ⟨zC, hrC, hupC⟩ := h.client.law
  obtain ⟨zS, hrS, hupS⟩ := h.server.law (h.server.once hrC)
  have hoc := h.client.order.sends
  have hos := h.server.order.sends
  exact ⟨zC, zS, hrC, hrS, hupC, hupS, ⟨hoc.numbered, hoc.padded, hfit.short, hrC.sends⟩,
    ⟨hos.numbered, hos.padded, fun f hf ↦ orderly_short (h.server.clean f hf), hrS.sends⟩⟩

theorem Joined.step (hP : Commutes P) (h : Joined P l) (hw : Wired P l) (hfit : Fit l) {l' : Peers}
    (hm : Moves P i l l') : Joined P l' := by
  obtain ⟨zC, zS, hr⟩ := h.recorded hfit
  obtain ⟨hfc, hfs⟩ := hw.streams hfit.toTaken
  have hts : l.toServer <+: Client.versionLine ++ (l.clientFrames.map (Frame.bytes P)).flatten :=
    hfc ▸ hw.toServer
  have htc : l.toClient <+: Server.versionLine ++ (l.serverFrames.map (Frame.bytes P)).flatten :=
    hfs ▸ hw.toClient
  cases hm with
  | stay => exact h
  | client e he =>
    have hgrow : l.clientFrames <+: Client.frames (Client.step P l.client e).obs :=
      (Client.step_grows l.client e).filterMap _
    have hc := h.client.step hP hr.server hr.serverSends htc hts he
    obtain ⟨fs, hfs⟩ := hgrow
    refine ⟨hc, h.server.law, h.server.order, ?_, hc.follows.payloads, h.server.clean⟩
    change Follows P (Client.frames (Client.step P l.client e).obs) _
    rw [← hfs]
    exact h.server.follows.append fs
  | server e he =>
    have hgrow : l.serverFrames <+: Server.frames (Server.step P i l.server e).obs :=
      (Server.step_grows l.server e).filterMap _
    have hs := h.server.step hP hr.client hr.clientSends hts htc i he
    obtain ⟨fs, hfs⟩ := hgrow
    refine ⟨⟨h.client.law, h.client.order, ?_, hs.follows.payloads, h.client.clean⟩, hs⟩
    change Follows P (Server.frames (Server.step P i l.server e).obs) _
    rw [← hfs]
    exact h.client.follows.append fs
  | toServer n =>
    exact ⟨h.client, h.server.law.arrive _, ⟨h.server.order.sends, h.server.order.receives⟩,
      h.server.follows, h.server.answered, h.server.clean⟩
  | toClient n =>
    exact ⟨⟨h.client.law.arrive _, ⟨h.client.order.sends, h.client.order.receives⟩,
      h.client.follows, h.client.heard, h.client.clean⟩, h.server⟩

theorem joined_run (hP : Commutes P) (c : Call) (events : List Event)
    (hfit : Fit (after P c events)) : Joined P (after P c events) := by
  induction events using List.reverseRecOn with
  | nil =>
    obtain ⟨took, hobs, -⟩ := Client.runSession_connected c.connects c.job c.store
    have hobs' := Server.accepted_obs c.slot c.env c.tcp
    have hclient : Client.openings (Client.runSession c.cenv c.job c.store).obs = [] := by
      rw [hobs]
      rfl
    have hserver : Server.openings (Server.accepted c.slot c.env c.tcp).obs = [] := by
      rw [hobs']
      rfl
    refine ⟨⟨Client.law_runSession P c.cenv c.job c.store,
        Client.inOrder_runSession P c.cenv c.job c.store, ?_, ?_, ?_⟩,
      Server.law_accepted P c.slot c.env (Int.natCast_nonneg c.tcp),
      Server.inOrder_accepted P c.slot c.env c.tcp, ?_, ?_, ?_⟩
    · change Follows P _ (Client.openings (Client.runSession c.cenv c.job c.store).obs)
      rw [hclient]
      exact .nil _
    · change heard (Server.openings (Server.accepted c.slot c.env c.tcp).obs) <+: _
      rw [hserver]
      exact List.nil_prefix
    · change Client.Clean (Client.runSession c.cenv c.job c.store).obs
      rw [hobs]
      simp [Client.Clean]
    · change Follows P _ (Server.openings (Server.accepted c.slot c.env c.tcp).obs)
      rw [hserver]
      exact .nil _
    · change heard (Client.openings (Client.runSession c.cenv c.job c.store).obs) <+: _
      rw [hclient]
      exact List.nil_prefix
    · change ∀ f ∈ Server.frames (Server.accepted c.slot c.env c.tcp).obs, _
      rw [hobs']
      exact List.forall_mem_nil _
  | append_singleton events e ih =>
    have hw := wired_run (P := P) c events
    rw [after_snoc] at hfit ⊢
    have hm := step_moves (P := P) (i := c.slot) (after P c events) e
    have hfit := hfit.of_grows hm.grows
    exact (ih hfit).step hP hw hfit hm

end

end Peers

end Sshd
