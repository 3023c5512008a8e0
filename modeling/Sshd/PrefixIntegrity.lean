import Sshd.Client.InOrder
import Sshd.Server.InOrder
import Sshd.Server.Outbound

namespace Sshd

open Lib.Octets Wire Crypto Framing
open Server (standIn packets)

/-- With an honest peer and an ideal cipher, either end accepts behind NEWKEYS
an unbroken block of what the peer sealed behind its own. -/
theorem accepted_block (P : Primitives) {sent : List Frame} {enc : Bool} {next : ℕ}
    (hs : Sends sent enc next) :
    (∀ i env tcp events,
      Ideal P sent
        (Server.openings (Server.runFrom P i (Server.accepted i env tcp) events).obs) →
      Block sent
        (Server.openings (Server.runFrom P i (Server.accepted i env tcp) events).obs)) ∧
    ∀ env job store events,
      Ideal P sent
        (Client.openings (Client.runFrom P (Client.runSession env job store) events).obs) →
      Block sent
        (Client.openings (Client.runFrom P (Client.runSession env job store) events).obs) :=
  ⟨fun i env tcp events hi ↦ (Server.inOrder_run P i env tcp events).receives.block hs hi,
    fun env job store events hi ↦
      (Client.inOrder_run P env job store events).receives.block hs hi⟩

/-! A packet that is dropped unnoticed. -/

/-- A client that gets `chunks`, one after the other. -/
def clientRun (chunks : List Bytes) : Client.World :=
  Client.runFrom standIn (Client.runSession Client.sampleEnv Client.sampleJob [])
    (chunks.flatMap fun chunk ↦ .tcpArrive chunk :: List.replicate 3 (.poll false))

def serverRun (chunks : List Bytes) : Server.World :=
  Server.runFrom standIn 0 (Server.accepted 0 Server.sampleEnv 3)
    (chunks.flatMap fun chunk ↦ [.tcpArrive chunk, .tcpRecv])

def clientWrites (w : Client.World) : List Bytes := (Client.tcpWrites w.obs).map Prod.fst

def serverWrites (w : Server.World) : List Bytes := (Server.tcpWrites w.obs).map Prod.fst

/-- What the client writes up to its half of the exchange. -/
def clientHalf : Bytes :=
  (clientWrites (clientRun [Server.versionLine, packets false [] 0 [Client.serverKexinit]])).flatten

/-- Two unknown messages make the server answer under its new key. -/
def provoked : Server.World :=
  serverRun [clientHalf, packets false [] 0 [[200], [201], [Server.msgNewkeys]]]

/-- A message to ignore comes before the server's NEWKEYS, and the first of the
two answers never comes. -/
def misled : Client.World :=
  clientRun ((serverWrites provoked).take 3 ++ [packets false [] 0 [[Server.msgIgnore]]] ++
    ((serverWrites provoked).drop 3).take 1 ++ (serverWrites provoked).drop 5)

theorem misled_ideal :
    Ideal standIn (Server.frames provoked.obs) (Client.openings misled.obs) := by
  decide +kernel

theorem misled_block :
    slippedIn (Server.frames provoked.obs) (Client.openings misled.obs) = 1 ∧
      Block (Server.frames provoked.obs) (Client.openings misled.obs) := by
  have hsent := (Server.inOrder_run standIn 0 Server.sampleEnv 3
    ([clientHalf, packets false [] 0 [[200], [201], [Server.msgNewkeys]]].flatMap
      fun chunk ↦ [.tcpArrive chunk, .tcpRecv])).sends
  exact ⟨by decide +kernel, (accepted_block standIn hsent).2 _ _ _ _ misled_ideal⟩

theorem misled_by_ignored :
    Ideal standIn (Server.frames provoked.obs) (Client.openings misled.obs) ∧
      Ideal standIn (Client.frames misled.obs) (Server.openings provoked.obs) ∧
      misled.cs.encIn = true ∧ provoked.s.encInbound = true ∧
      misled.cs.sessionId = provoked.s.sessionId ∧
      ¬acceptedPayloads (Client.openings misled.obs) <+:
        sealedPayloads (Server.frames provoked.obs) := by
  exact ⟨misled_ideal, by decide +kernel⟩

end Sshd
