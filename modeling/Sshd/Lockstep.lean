import Sshd.Peers

namespace Sshd

open Lib.Octets Wire Crypto Framing
open Server (standIn)

namespace Peers

variable (P : Primitives)

/-- The bytes of the packets that were sent and not opened. -/
def unopened (sent : List Frame) (opened : List Opening) : Bytes :=
  ((sent.drop opened.length).map (Frame.bytes P)).flatten

/-- Either side has got the first of the bytes that the other one wrote, and has
read the first of the payloads, each of them as it was framed. Its buffer and what
TCP still holds for it are the packets that it has not read, framed as it will
read them, and nobody reports a framing error. -/
structure InStep (l : Peers) : Prop where
  serverCame : l.toServer <+: l.fromClient
  clientCame : l.toClient <+: l.fromServer
  serverGot : heard l.serverOpenings <+: said l.clientFrames
  clientGot : heard l.clientOpenings <+: said l.serverFrames
  serverRead : Follows P l.clientFrames l.serverOpenings
  clientRead : Follows P l.serverFrames l.clientOpenings
  toServer : l.server.s.phase ≠ .closed → InFlight l.clientFrames l.serverOpenings
    l.server.s.encInbound l.server.s.c2sKey l.server.s.seqIn
  toClient : l.client.pc ≠ .finished → InFlight l.serverFrames l.clientOpenings l.client.cs.encIn
    l.client.cs.recvKey l.client.cs.seqIn
  serverUnread : l.server.s.phase ≠ .closed →
    l.server.s.rxBuf ++ l.server.tcpIn ++ l.fromClient.drop l.toServer.length =
      (if l.server.s.phase = .version then Client.versionLine else []) ++
        unopened P l.clientFrames l.serverOpenings
  clientUnread : l.client.pc ≠ .finished →
    l.client.cs.rxBuf ++ l.client.tcpIn ++ l.fromServer.drop l.toClient.length =
      (if l.client.pc = .version then Server.versionLine else []) ++
        unopened P l.serverFrames l.clientOpenings
  serverDone : l.server.s.phase ≠ .closed → l.toServer = l.fromClient →
    Server.Waits P l.server → heard l.serverOpenings = said l.clientFrames
  clientDone : l.client.pc ≠ .finished → l.toClient = l.fromServer →
    Client.Waits P l.client → heard l.clientOpenings = said l.serverFrames
  serverClean : ∀ f ∈ l.serverFrames, f.payload ≠ Server.disconnect 2 "framing error"
  clientClean : Client.Clean l.client.obs

/-- What has been framed in `l` is opened as it was framed by the time of `l'`. -/
def Foreseen (l l' : Peers) : Prop :=
  (∀ (n : ℕ) f o, l.clientFrames[n]? = some f → l'.serverOpenings[n]? = some o → Matches P f o) ∧
    ∀ (n : ℕ) f o, l.serverFrames[n]? = some f → l'.clientOpenings[n]? = some o → Matches P f o

variable {P}

/-- What has come and what is under way make up what was written. -/
theorem prefix_append_drop {got stream : Bytes} (h : got <+: stream) :
    got ++ stream.drop got.length = stream := by
  obtain ⟨rest, rfl⟩ := h
  rw [List.drop_left]

/-- Behind the version line that both sides know the stream goes on. -/
theorem behindLine {line version arrived ahead stream rest : Bytes} {found : Bytes}
    (hline : takeLine line = some (version, [])) (hs : arrived ++ ahead = line ++ stream)
    (hf : takeLine arrived = some (found, rest)) : rest ++ ahead = stream := by
  have hlong := takeLine_append hf ahead
  rw [hs, takeLine_append hline stream, List.nil_append] at hlong
  exact (Prod.mk.inj (Option.some.inj hlong)).2.symm

theorem serverUnread_eq {l : Peers} {z : Option Handshake} (hst : Server.Standing l.toServer l.server z)
    (hf : Follows P l.clientFrames l.serverOpenings) (hcame : l.toServer <+: l.fromClient)
    (hs : l.fromClient = Client.versionLine ++ (l.clientFrames.map (Frame.bytes P)).flatten) :
    l.server.s.rxBuf ++ l.server.tcpIn ++ l.fromClient.drop l.toServer.length =
      (if l.server.s.phase = .version then Client.versionLine else []) ++
        unopened P l.clientFrames l.serverOpenings := by
  have hall := (prefix_append_drop hcame).trans hs
  by_cases hv : l.server.s.phase = .version
  · obtain ⟨harrived, hnone, -⟩ := hst.greeting hv
    rw [if_pos hv, ← harrived, hall, unopened, serverOpenings, hnone]
    rfl
  · have hrest := behindLine takeLine_client hall (hst.greeted hv).1
    rw [List.append_assoc] at hrest
    rw [if_neg hv, List.nil_append]
    exact hf.unopened hrest

theorem clientUnread_eq {l : Peers} {z : Option Handshake} (hst : Client.Standing P l.toClient l.client z)
    (hf : Follows P l.serverFrames l.clientOpenings) (hcame : l.toClient <+: l.fromServer)
    (hs : l.fromServer = Server.versionLine ++ (l.serverFrames.map (Frame.bytes P)).flatten) :
    l.client.cs.rxBuf ++ l.client.tcpIn ++ l.fromServer.drop l.toClient.length =
      (if l.client.pc = .version then Server.versionLine else []) ++
        unopened P l.serverFrames l.clientOpenings := by
  have hall := (prefix_append_drop hcame).trans hs
  have htc : l.toClient <+: Server.versionLine ++ (l.serverFrames.map (Frame.bytes P)).flatten :=
    hs ▸ hcame
  by_cases hv : l.client.pc = .version
  · obtain ⟨hskips, hnone, -⟩ := hst.greeting hv
    rw [if_pos hv, skips_server htc hskips, hall, unopened, clientOpenings, hnone]
    rfl
  · obtain ⟨mid, hskips, hline, -⟩ := (hst.greeted hv).1
    rw [skips_server htc hskips] at hline
    have hrest := behindLine takeLine_server hall hline
    rw [List.append_assoc] at hrest
    rw [if_neg hv, List.nil_append]
    exact hf.unopened hrest

theorem Joined.inStep (hP : Commutes P) {l : Peers} (h : Joined P l) (hw : Wired P l)
    (hfit : Fit l) : InStep P l := by
  obtain ⟨zC, zS, hr⟩ := h.recorded hfit
  obtain ⟨hfc, hfs⟩ := hw.streams hfit.toTaken
  have hts : l.toServer <+: Client.versionLine ++ (l.clientFrames.map (Frame.bytes P)).flatten :=
    hfc ▸ hw.toServer
  have htc : l.toClient <+: Server.versionLine ++ (l.serverFrames.map (Frame.bytes P)).flatten :=
    hfs ▸ hw.toClient
  have hkeys := keys_agree hP hr.client hr.server hts htc h.server.follows.payloads h.server.answered
  refine ⟨hw.toServer, hw.toClient, h.server.follows.payloads, h.client.follows.payloads,
    h.server.follows, h.client.follows, fun hp ↦ ?_, fun hp ↦ ?_,
    fun hp ↦ serverUnread_eq (hr.serverUp hp).1 h.server.follows hw.toServer hfc,
    fun hp ↦ clientUnread_eq (hr.clientUp hp).1 h.client.follows hw.toClient hfs,
    fun hp hall hwait ↦ ?_, fun hp hall hwait ↦ ?_,
    fun f hf ↦ (h.server.clean f hf).1, h.client.clean⟩
  · obtain ⟨-, hl⟩ := hr.serverUp hp
    exact h.server.follows.inFlight hr.clientSends hl (fun _ ↦ hkeys.1) h.server.order.receives.next
  · obtain ⟨hst, hl⟩ := hr.clientUp hp
    refine h.client.follows.inFlight hr.serverSends hl (fun he ↦ hkeys.2 fun hz ↦ ?_)
      h.client.order.receives.next
    have hearly := (hst.early hz).2.1
    rw [he] at hearly
    cases hearly
  · exact h.server.done hP hr.client hr.clientSends htc hp (hall.trans hfc) hwait
  · exact h.client.done hP hr.server hr.serverSends hts hp (hall.trans hfs) hwait

/-- A list that grows keeps its elements. -/
theorem still {fs fs' : List Frame} (h : fs <+: fs') {n : ℕ} {f : Frame} (hf : fs[n]? = some f) :
    fs'[n]? = some f := by
  obtain ⟨more, rfl⟩ := h
  obtain ⟨hlt, -⟩ := List.getElem?_eq_some_iff.mp hf
  rw [List.getElem?_append_left hlt, hf]

end Peers

/-- Over reliable streams client and server stay in step, whatever they do and
however the streams are cut. -/
theorem framing_in_step {P : Primitives} (hP : Commutes P) (c : Call)
    (events more : List Peers.Event) (hfit : (Peers.after P c (events ++ more)).Fit) :
    (Peers.after P c events).InStep P ∧ (Peers.after P c (events ++ more)).InStep P ∧
      Peers.Foreseen P (Peers.after P c events) (Peers.after P c (events ++ more)) := by
  have hin (es : List Peers.Event) (hf : (Peers.after P c es).Fit) :
      (Peers.after P c es).InStep P :=
    (Peers.joined_run hP c es hf).inStep hP (Peers.wired_run c es) hf
  have hlater := hin _ hfit
  have hgrow := Peers.after_grows (P := P) c events more
  refine ⟨hin _ (hfit.of_grows hgrow), hlater, fun n f o hf ho ↦ ?_, fun n f o hf ho ↦ ?_⟩
  · exact hlater.serverRead.matches (Peers.still (Peers.clientFrames_grow hgrow.1) hf) ho
  · exact hlater.clientRead.matches (Peers.still (Peers.serverFrames_grow hgrow.2) hf) ho

/-! A login, as far as the first question for a password. -/

/-- What stands in for X25519 adds scalar and point. -/
def blendKeys (scalar point : Bytes) : Bytes :=
  (List.range 32).map fun i ↦ scalar.getD i 0 ^^^ point.getD i 0

theorem standIn_scalar (scalar point : Bytes) : x25519Scalar standIn scalar point =
    if (blendKeys scalar point).all (· = 0) then none else some (blendKeys scalar point) := by
  by_cases h : (blendKeys scalar point).all (· = 0)
  · rw [if_pos h]
    exact congrArg (Option.map _) (if_pos h)
  · rw [if_neg h]
    refine (congrArg (Option.map _) (if_neg h)).trans ?_
    simp [blendKeys]

theorem standIn_base {scalar pub : Bytes} (h : x25519Base standIn scalar = some pub) :
    pub = blendKeys scalar (List.replicate 32 1) := by
  simp only [x25519Base, standIn, Option.getD_none] at h
  split at h
  · cases h
  · rw [← Option.some.inj h]
    simp [blendKeys]

theorem standIn_commutes : Commutes standIn := by
  intro a b pubA pubB hA hB
  have hsame : blendKeys a pubB = blendKeys b pubA := by
    rw [standIn_base hA, standIn_base hB]
    refine List.map_congr_left fun i hi ↦ ?_
    have hlt := List.mem_range.mp hi
    simp only [blendKeys, List.getD_eq_getElem?_getD, List.getElem?_map, List.getElem?_range hlt,
      Option.map_some, Option.getD_some]
    rw [← UInt8.xor_assoc, ← UInt8.xor_assoc, UInt8.xor_comm (a[i]?.getD 0)]
  rw [standIn_scalar, standIn_scalar, hsame]

/-- Either side gets what the other has written, and reads it. -/
def turn : List Peers.Event :=
  [.toServer 4000, .server .tcpRecv, .toClient 4000] ++ List.replicate 4 (.client (.poll false))

def sampleCall : Call :=
  ⟨0, Server.sampleEnv, 3, Client.sampleEnv, Client.sampleJob, [], by decide⟩

/-- Both sides have gone over to their new keys. -/
theorem sample_login : (Peers.after standIn sampleCall (turn ++ (turn ++ turn))).Fit ∧
    (Peers.after standIn sampleCall (turn ++ (turn ++ turn))).client.cs.encIn = true ∧
    (Peers.after standIn sampleCall (turn ++ (turn ++ turn))).server.s.encInbound = true :=
  ⟨⟨⟨by decide +kernel, by decide +kernel⟩, by decide +kernel⟩, by decide +kernel,
    by decide +kernel⟩

theorem login_in_step :
    (Peers.after standIn sampleCall (turn ++ (turn ++ turn))).client.cs.encIn = true ∧
      (Peers.after standIn sampleCall turn).InStep standIn ∧
      (Peers.after standIn sampleCall (turn ++ (turn ++ turn))).InStep standIn ∧
      Peers.Foreseen standIn (Peers.after standIn sampleCall turn)
        (Peers.after standIn sampleCall (turn ++ (turn ++ turn))) :=
  ⟨sample_login.2.1, framing_in_step standIn_commutes sampleCall turn (turn ++ turn) sample_login.1⟩

end Sshd
