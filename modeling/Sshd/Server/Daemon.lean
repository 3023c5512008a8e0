import Sshd.Server.Dispatch

namespace Sshd.Server

open Lib.Octets Crypto

variable (P : Primitives)

/-- The whole server: its sessions and slot flags, and the bytes ITS holds on
the TCP connections and on the backend connections. -/
structure Daemon where
  env : Env
  sessions : ℤ → Session
  slotInUse : ℤ → Bool
  tcpIn : ℤ → Bytes
  backIn : ℤ → Bytes
  obs : List Obs

def boot (env : Env) : Daemon :=
  ⟨env, fun _ ↦ {}, fun _ ↦ false, fun _ ↦ [], fun _ ↦ [], []⟩

/-- A connection as ITS knows it: the callbacks get `ref` back, the value that
was given for it when the connection was made. -/
structure Conn where
  link : Link
  handle : ℤ
  ref : ℤ
  deriving DecidableEq

def connOf : Obs → Option Conn
  | .accept tcp slot => some ⟨.tcp, tcp, slot⟩
  | .itsConnect _ _ ref handle => some ⟨.backend, handle, ref⟩
  | _ => none

/-- The connections in the order they were made, failed attempts with their
negative handle. -/
def conns (obs : List Obs) : List Conn := obs.filterMap connOf

/-- The session in slot `i` with its surroundings. -/
def Daemon.world (d : Daemon) (i : ℤ) : World :=
  ⟨d.env, d.sessions i, d.slotInUse, d.tcpIn (d.sessions i).tcp, d.backIn, d.obs⟩

/-- A call into the session in slot `i`. -/
def Daemon.on (d : Daemon) (i : ℤ) (call : World → World) : Daemon :=
  let w := call (d.world i)
  { env := w.env
    sessions := Function.update d.sessions i w.s
    slotInUse := w.slotInUse
    tcpIn := Function.update d.tcpIn (d.sessions i).tcp w.tcpIn
    backIn := w.backIn
    obs := w.obs }

def findFreeSlot (d : Daemon) : Option ℤ :=
  if d.slotInUse 0 = false then some 0
  else if d.slotInUse 1 = false then some 1
  else none

/-- What can happen to the server. A connection is named by its number in
`conns`. -/
inductive DaemonEvent
  | tcpConnect (handle : ℕ)
  | arrive (link : Link) (handle : ℤ) (data : Bytes)
  | recv (conn : ℕ)
  | disconnect (conn : ℕ)
  | reset

/-- The callback for bytes on a connection. -/
def Daemon.recv (d : Daemon) (c : Conn) : Daemon :=
  match c.link with
  | .tcp => d.on c.ref (onTcpRecv P c.ref)
  | .backend => d.on c.ref (onBackendRecvCb P c.ref)

/-- The callback for a connection that the other end has closed. -/
def Daemon.disconnect (d : Daemon) (c : Conn) : Daemon :=
  match c.link with
  | .tcp => d.on c.ref (onTcpDisconnect c.ref)
  | .backend => d.on c.ref (onBackendDisconnectCb P c.ref)

/-- Nothing ever happens on an attempt that failed. -/
def Daemon.callback (d : Daemon) (conn : ℕ) (call : Conn → Daemon) : Daemon :=
  match (conns d.obs)[conn]? with
  | none => d
  | some c => if c.handle < 0 then d else call c

def Daemon.step (d : Daemon) : DaemonEvent → Daemon
  | .tcpConnect handle =>
    match findFreeSlot d with
    | none => d
    | some slot =>
      { d with tcpIn := Function.update d.tcpIn handle [] }.on slot
        fun w ↦ onTcpConnect slot w handle
  | .arrive .tcp handle data =>
    { d with tcpIn := Function.update d.tcpIn handle (d.tcpIn handle ++ data) }
  | .arrive .backend handle data =>
    { d with backIn := Function.update d.backIn handle (d.backIn handle ++ data) }
  | .recv conn => d.callback conn (d.recv P)
  | .disconnect conn => d.callback conn (d.disconnect P)
  | .reset => (d.on 0 (cmdSshdReset 0)).on 1 (cmdSshdReset 1)

def Daemon.run (d : Daemon) (events : List DaemonEvent) : Daemon :=
  events.foldl (Daemon.step P) d

theorem Daemon.run_append (d : Daemon) (es es' : List DaemonEvent) :
    d.run P (es ++ es') = (d.run P es).run P es' := List.foldl_append

theorem conns_append (obs os : List Obs) : conns (obs ++ os) = conns obs ++ conns os :=
  List.filterMap_append

@[simp] theorem on_sessions_self (d : Daemon) (i : ℤ) (call : World → World) :
    (d.on i call).sessions i = (call (d.world i)).s := Function.update_self ..

theorem on_sessions_ne (d : Daemon) {i j : ℤ} (h : j ≠ i) (call : World → World) :
    (d.on i call).sessions j = d.sessions j := Function.update_of_ne h ..

theorem on_eq_self {d : Daemon} {i : ℤ} {call : World → World}
    (h : call (d.world i) = d.world i) : d.on i call = d := by
  have hs : Function.update d.sessions i (d.world i).s = d.sessions := Function.update_eq_self ..
  have ht : Function.update d.tcpIn (d.sessions i).tcp (d.world i).tcpIn = d.tcpIn :=
    Function.update_eq_self ..
  simp only [Daemon.on, h, hs, ht]
  rfl

end Sshd.Server
