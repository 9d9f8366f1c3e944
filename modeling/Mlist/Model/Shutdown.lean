import Mlist.Lib.Run
import Mlist.Model.LongRun

/-!
# Shutting down

`Memberlist.Shutdown` and `NetTransport.Shutdown`, with the goroutines they are to end. For each
of its addresses a transport has one goroutine that reads packets (`udpListen`) and one that
accepts connections (`tcpListen`). They hand what they get over unbuffered channels to
`receivePacket` and `receiveTcpConn`. The latter starts a goroutine for each connection; the
former handles the packet itself, which is where it queues long-running messages (`LongRunSys`;
it is caller 0 there, and the only one).

`Shutdown` closes the sockets, waits until all the listeners have returned, and only then closes
`shutdownCh`, at which the receivers return. It holds `shutdownL` meanwhile.

A packet is the list of the long-running messages in it, in the order `handleUdpMsg` comes to
them; what is done with the other ones does not wait for anybody. Not modelled is how long
`tcpListen` sleeps after an error, and the mutex of the transport, which nobody else holds for
long.
-/

namespace Mlist

open Mlist.Lib

/-- Where the goroutine of a `udpListen` is. -/
inductive UdpPc where
  | reading
  /-- about to send the packet on `packetCh` -/
  | sending (packet : List LongRunMsg)
  | returned
  deriving DecidableEq, Repr

/-- Where the goroutine of a `tcpListen` is. -/
inductive TcpPc where
  | accepting
  /-- after an error -/
  | sleeping
  /-- about to send the connection on `tcpConnCh` -/
  | sending
  | returned
  deriving DecidableEq, Repr

/-- Where the goroutine of `receivePacket` is. -/
inductive ReceiverPc where
  | selecting
  /-- in `handlePacket`; these messages are still to be queued -/
  | handling (rest : List LongRunMsg)
  | returned
  deriving DecidableEq, Repr

/-- Where the goroutine of `receiveTcpConn` is. -/
inductive ConnReceiverPc where
  | selecting
  | returned
  deriving DecidableEq, Repr

/-- Where a goroutine is in `Memberlist.Shutdown`. -/
inductive ShutdownPc where
  | idle
  /-- about to lock `shutdownL` -/
  | locking
  /-- about to shut the transport down -/
  | stopping
  /-- closing one socket after the other -/
  | closing
  /-- waiting for the listeners -/
  | waiting
  /-- about to close `shutdownCh` -/
  | announcing
  | returned
  deriving DecidableEq, Repr

/-- A member and its transport, as far as shutting them down goes. `lr.shutdown` is whether
`shutdownCh` is closed, `closed` how many sockets are: first the listeners, then the UDP
connections. -/
structure ShutdownSys where
  lr : LongRunSys
  receiver : ReceiverPc
  connReceiver : ConnReceiverPc
  tcp : List TcpPc
  udp : List UdpPc
  closed : Nat
  transportShutdown : Bool
  shutdown : Bool
  shutdownL : Option Nat
  callers : Nat → ShutdownPc

/-- A member that has started, with a transport for `n` addresses. -/
def newShutdownSys (qDepth : Int) (n : Nat) : ShutdownSys where
  lr := newLongRunSys qDepth
  receiver := .selecting
  connReceiver := .selecting
  tcp := List.replicate n .accepting
  udp := List.replicate n .reading
  closed := 0
  transportShutdown := false
  shutdown := false
  shutdownL := none
  callers := fun _ => .idle

/-- A member whose `start` has failed, where `Build` shuts it down: the transport listens, and the
receivers and the handler have not been started. -/
def failedStart (qDepth : Int) (n : Nat) : ShutdownSys :=
  { newShutdownSys qDepth n with
    lr := { newLongRunSys qDepth with handler := .returned }
    receiver := .returned
    connReceiver := .returned }

/-- The steps of the goroutines. -/
inductive ShutdownAct where
  | read (i : Nat) (packet : List LongRunMsg)
  | readFails (i : Nat)
  | packet (i : Nat)
  | queue
  | longRun (a : LongRunAct)
  | handled
  | receiverQuits
  | accept (i : Nat)
  | acceptFails (i : Nat)
  | wake (i : Nat)
  | conn (i : Nat)
  | connReceiverQuits
  | call (g : Nat)
  | lock (g : Nat)
  | stop (g : Nat)
  | close (g : Nat)
  | wait (g : Nat)
  | announce (g : Nat)
  deriving DecidableEq, Repr

namespace ShutdownSys

def setCaller (g : Nat) (pc : ShutdownPc) (s : ShutdownSys) : ShutdownSys :=
  { s with callers := Function.update s.callers g pc }

/-- The number of sockets. -/
def sockets (s : ShutdownSys) : Nat := s.tcp.length + s.udp.length

/-- Listener `i` is closed. -/
def tcpClosed (i : Nat) (s : ShutdownSys) : Bool := i < s.closed

/-- UDP connection `i` is closed. -/
def udpClosed (i : Nat) (s : ShutdownSys) : Bool := s.tcp.length + i < s.closed

/-- The counter of the `WaitGroup` is zero. -/
def listenersDone (s : ShutdownSys) : Bool := s.tcp.all (· = .returned) && s.udp.all (· = .returned)

/-- One step, `none` if it cannot be taken. -/
def act : ShutdownAct → ShutdownSys → Option ShutdownSys
  | .read i packet, s =>
    if s.udp[i]? = some .reading ∧ s.udpClosed i = false then
      some { s with udp := s.udp.set i (.sending packet) }
    else none
  | .readFails i, s =>
    if s.udp[i]? = some .reading then
      -- after a shutdown, or because the connection is closed, the goroutine ends
      if s.transportShutdown ∨ s.udpClosed i then some { s with udp := s.udp.set i .returned }
      else some s
    else none
  | .packet i, s =>
    match s.udp[i]?, s.receiver with
    | some (.sending packet), .selecting =>
      some { s with udp := s.udp.set i .reading, receiver := .handling packet }
    | _, _ => none
  | .queue, s =>
    match s.receiver with
    | .handling (m :: rest) =>
      (s.lr.act (.call 0 m)).map fun lr => { s with lr, receiver := .handling rest }
    | _ => none
  | .longRun a, s =>
    match a with
    | .call _ _ => none
    | .shutdown => none
    | a => (s.lr.act a).map fun lr => { s with lr }
  | .handled, s =>
    if s.receiver = .handling [] ∧ s.lr.callers 0 = .idle then
      some { s with receiver := .selecting }
    else none
  | .receiverQuits, s =>
    if s.receiver = .selecting ∧ s.lr.shutdown then some { s with receiver := .returned } else none
  | .accept i, s =>
    if s.tcp[i]? = some .accepting ∧ s.tcpClosed i = false then
      some { s with tcp := s.tcp.set i .sending }
    else none
  | .acceptFails i, s =>
    if s.tcp[i]? = some .accepting then
      some { s with tcp := s.tcp.set i (if s.transportShutdown then .returned else .sleeping) }
    else none
  | .wake i, s =>
    if s.tcp[i]? = some .sleeping then some { s with tcp := s.tcp.set i .accepting } else none
  | .conn i, s =>
    if s.tcp[i]? = some .sending ∧ s.connReceiver = .selecting then
      some { s with tcp := s.tcp.set i .accepting }
    else none
  | .connReceiverQuits, s =>
    if s.connReceiver = .selecting ∧ s.lr.shutdown then some { s with connReceiver := .returned }
    else none
  | .call g, s => if s.callers g = .idle then some (s.setCaller g .locking) else none
  | .lock g, s =>
    if s.callers g = .locking ∧ s.shutdownL = none then
      if s.shutdown then some (s.setCaller g .returned)
      else some (setCaller g .stopping { s with shutdownL := some g, shutdown := true })
    else none
  | .stop g, s =>
    if s.callers g = .stopping then
      if s.transportShutdown then some (s.setCaller g .announcing)
      else some (setCaller g .closing { s with transportShutdown := true })
    else none
  | .close g, s =>
    if s.callers g = .closing then
      if s.closed < s.sockets then some { s with closed := s.closed + 1 }
      else some (s.setCaller g .waiting)
    else none
  | .wait g, s =>
    if s.callers g = .waiting ∧ s.listenersDone then some (s.setCaller g .announcing) else none
  | .announce g, s =>
    if s.callers g = .announcing then
      (s.lr.act .shutdown).map fun lr => setCaller g .returned { s with lr, shutdownL := none }
    else none

/-- A state that a member can be in. -/
def Reachable (s : ShutdownSys) : Prop :=
  ∃ qDepth n acts, run act acts (newShutdownSys qDepth n) = some s

end ShutdownSys

/-- The goroutines, the one that handles long-running messages included. Whoever calls `Shutdown`
does so when they like: that is `user`. -/
inductive Goroutine where
  | udpListen (i : Nat)
  | tcpListen (i : Nat)
  | receivePacket
  | receiveTcpConn
  | runLongRunMsgHandler
  | shutdown (g : Nat)
  | user
  deriving DecidableEq, Repr

/-- Whose step it is. What goes over a channel is a step of the one who receives. -/
def ShutdownAct.goroutine : ShutdownAct → Goroutine
  | .read i _ => .udpListen i
  | .readFails i => .udpListen i
  | .packet _ => .receivePacket
  | .queue => .receivePacket
  | .longRun (.push _) => .receivePacket
  | .longRun (.notify _) => .receivePacket
  | .longRun _ => .runLongRunMsgHandler
  | .handled => .receivePacket
  | .receiverQuits => .receivePacket
  | .accept i => .tcpListen i
  | .acceptFails i => .tcpListen i
  | .wake i => .tcpListen i
  | .conn _ => .receiveTcpConn
  | .connReceiverQuits => .receiveTcpConn
  | .call _ => .user
  | .lock g => .shutdown g
  | .stop g => .shutdown g
  | .close g => .shutdown g
  | .wait g => .shutdown g
  | .announce g => .shutdown g

end Mlist
