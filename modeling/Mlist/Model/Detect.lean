import Mathlib.Logic.Function.Basic
import Mlist.Model.LongRun
import Mlist.Model.Ping

/-!
# Pings, relays and acks between members

The failure detector of `ping.go` with the handlers of `net_handlers.go` at the other end of
the line. A member that pings (`Ping`) takes a number, registers a handler under it, sends
the number to its target and waits. The target sends the number back (`handlePing`,
`handleAck`). A member that gets no ack asks others to ping the target for it
(`IndirectPing`); each of them runs a `Ping` of its own with a number of its own and reports
under the first one's number what came of it (`handleIndirectPing`, `handleIndirectAck`).
Nothing but numbers says which ping an ack belongs to.

`Detect` is any number of members, the calls they have running, and the packets. As in
`Cluster` the network is the worst one: a packet stays in flight for ever and may arrive
late, again and again, or never. It does arrive at the member its address belongs to, which
is up to `Net`: `route` says who receives at an address, and `sock` from which address a
member's packets come.

`PingSys` of `Ping.lean` has the clock, the timers and the lock around one call. Here a
timeout may come at any moment, and so may the deletion of a handler by its timer. The
suspicion that a ping to a suspect carries along (`buddyPingMsg`) travels as a broadcast
does, and what `IndirectPing` counts of failed reports is in `Ping.lean`. A `TcpPing` takes a
number of the same counter and keeps it to its connection (`Exchange.lean`).

`answers` is history: what `handlePing` has answered.
-/

namespace Mlist

open Mlist.Lib

variable {ι : Type}

/-! ## Messages -/

/-- `ping`. -/
structure Ping where
  seqNo : UInt32
  id : String
  sourceIP : IP
  sourcePort : Nat
  deriving DecidableEq, Repr

/-- `ack`. -/
structure Ack where
  seqNo : UInt32
  payload : Bytes
  deriving DecidableEq, Repr

/-- `indirectPing`. -/
structure IndirectPing where
  seqNo : UInt32
  id : String
  ip : IP
  port : Nat
  sourceIP : IP
  sourcePort : Nat
  deriving DecidableEq, Repr

/-- `indirectAck`. -/
structure IndirectAck where
  seqNo : UInt32
  success : Bool
  deriving DecidableEq, Repr

inductive PingMsg where
  | ping (p : Ping)
  | ack (a : Ack)
  | indirectPing (p : IndirectPing)
  | indirectAck (a : IndirectAck)
  deriving DecidableEq, Repr

structure PingPacket where
  dst : UDPAddr
  src : UDPAddr
  msg : PingMsg
  deriving DecidableEq, Repr

/-- Where `handlePing` and `handleIndirectPing` send their answer: to the source the message
names, or else where it came from. -/
def replyAddr (sourceIP : IP) (sourcePort : Nat) (sender : UDPAddr) : UDPAddr :=
  if sourceIP.length > 0 ∧ sourcePort > 0 then ⟨sourceIP, sourcePort⟩ else sender

/-! ## Calls -/

/-- What a call of `Ping` or of `IndirectPing` has settled before it registers its handler.
`no` says how many numbers its member had taken when it took its own, 0 if it returned
without one. `source` is the address the member advertises, `dests` is where the call sends:
to the node, or to the peers it picked. A `Ping` that `handleIndirectPing` runs has in `relay`
whom it reports to and under which number. -/
structure CallInfo (ι : Type) where
  owner : ι
  kind : PingKind
  node : Node
  no : Nat
  source : UDPAddr
  dests : List UDPAddr
  relay : Option (UDPAddr × UInt32)
  deriving DecidableEq

namespace CallInfo

/-- The number of the call; the counter is 32 bits wide. -/
def seqNo (info : CallInfo ι) : UInt32 := UInt32.ofNat info.no

/-- The message of a `Ping`. -/
def ping (info : CallInfo ι) : Ping :=
  { seqNo := info.seqNo, id := info.node.id, sourceIP := info.source.ip
    sourcePort := info.source.port }

/-- The message of an `IndirectPing`. -/
def indirectPing (info : CallInfo ι) : IndirectPing :=
  { seqNo := info.seqNo, id := info.node.id, ip := info.node.ip, port := info.node.port
    sourceIP := info.source.ip, sourcePort := info.source.port }

def msg (info : CallInfo ι) : PingMsg :=
  match info.kind with
  | .direct => .ping info.ping
  | .indirect => .indirectPing info.indirectPing

end CallInfo

/-- How far a call has got. -/
inductive CallPc where
  /-- has its number -/
  | numbered
  /-- its handler is registered; these are the addresses it has still to send to -/
  | sending (left : List UDPAddr)
  /-- in its `select` -/
  | waiting
  /-- `payload` is what the ping delegate is handed at the end of a `Ping` that is answered -/
  | returned (success : Bool) (payload : Bytes)
  /-- its result has been reported -/
  | told
  deriving DecidableEq, Repr

structure DetectCall (ι : Type) where
  info : CallInfo ι
  pc : CallPc
  deriving DecidableEq

/-! ## Members and packets -/

/-- A member's `pingManager`, with the configuration `Ping` reads. `held` are the handlers
that `invokeAckHandler` has taken out of `ackHandlers` and not sent to yet, with what the ack
carried. -/
structure Pinger where
  config : Config
  /-- how often `AddUint32(&mng.seqNo, 1)` was called -/
  seqCalls : Nat
  handlers : AckHandlers
  held : List (Nat × Bytes)

/-- `newPingManager`. -/
def newPinger (config : Config) : Pinger :=
  { config, seqCalls := 0, handlers := fun _ _ => none, held := [] }

namespace Pinger

/-- `m.ID()`. -/
def id (p : Pinger) : String := p.config.id

/-- `GetAdvertiseAddr`. -/
def advertised (p : Pinger) : Option UDPAddr :=
  p.config.advertiseAddr.map fun ip => ⟨ip, p.config.advertisePort⟩

def setHandler (kind : PingKind) (seqNo : UInt32) (h : Option Nat) (p : Pinger) : Pinger :=
  { p with handlers := p.handlers.set kind seqNo h }

/-- `nextSeqNo`. -/
def nextSeqNo (p : Pinger) : Pinger := { p with seqCalls := p.seqCalls + 1 }

end Pinger

/-- A ping that `handlePing` has answered, where it came from, and what the ping delegate of
the member that answered gave it to send. -/
structure Answer (ι : Type) where
  answerer : ι
  ping : Ping
  sender : UDPAddr
  payload : Bytes

/-- Where the answer goes. -/
def Answer.dst (a : Answer ι) : UDPAddr := replyAddr a.ping.sourceIP a.ping.sourcePort a.sender

/-- Who receives at an address, and the address a member sends from. -/
structure Net (ι : Type) where
  route : UDPAddr → Option ι
  sock : ι → UDPAddr

structure Detect (ι : Type) where
  member : ι → Pinger
  calls : Nat → Option (DetectCall ι)
  packets : List PingPacket
  answers : List (Answer ι)

/-- One uninterrupted piece of what the goroutines of the members do. A new goroutine gets a
number nobody has. -/
inductive DetectAction (ι : Type) where
  /-- `Ping` as far as `nextSeqNo` -/
  | ping (i : ι) (c : Nat) (node : Node)
  /-- `IndirectPing` as far as `nextSeqNo`, for these peers -/
  | indirectPing (i : ι) (c : Nat) (node : Node) (peers : List UDPAddr)
  /-- `TcpPing` as far as `nextSeqNo`; the rest of it goes over a connection -/
  | tcpPing (i : ι)
  /-- `setAckHandler` or `setIndirectAckHandler` -/
  | register (c : Nat)
  | send (c : Nat) (ok : Bool)
  | select (c : Nat)
  | timeout (c : Nat)
  /-- the function the timer of a handler runs -/
  | expire (c : Nat)
  /-- a packet arrives; `c` is for the goroutine of `handleIndirectPing`, `payload` is what the
  ping delegate of the member returns -/
  | receive (pkt : PingPacket) (c : Nat) (payload : Bytes)
  /-- the end of `invokeAckHandler`, for a handler it took -/
  | deliver (i : ι) (h : Nat × Bytes)
  /-- the end of the goroutine of `handleIndirectPing` -/
  | tell (c : Nat)

namespace Detect

/-- Members that have just been built. -/
def start (configs : ι → Config) : Detect ι :=
  { member := fun i => newPinger (configs i), calls := fun _ => none, packets := [], answers := [] }

variable [DecidableEq ι]

def setMember (i : ι) (p : Pinger) (s : Detect ι) : Detect ι :=
  { s with member := Function.update s.member i p }

omit [DecidableEq ι] in
def setCall (c : Nat) (info : CallInfo ι) (pc : CallPc) (s : Detect ι) : Detect ι :=
  { s with calls := Function.update s.calls c (some ⟨info, pc⟩) }

omit [DecidableEq ι] in
def sendPacket (pkt : PingPacket) (s : Detect ι) : Detect ι :=
  { s with packets := s.packets ++ [pkt] }

/-- A call as far as `nextSeqNo`. It returns early without an address to advertise, or
without anybody to send to. -/
def startCall (i : ι) (c : Nat) (kind : PingKind) (node : Node) (dests : List UDPAddr)
    (relay : Option (UDPAddr × UInt32)) (s : Detect ι) : Option (Detect ι) :=
  if (s.calls c).isSome then none
  else
    let p := s.member i
    match p.advertised with
    | none =>
      some (s.setCall c
        { owner := i, kind, node, no := 0, source := ⟨[], 0⟩, dests, relay } (.returned false []))
    | some source =>
      if dests.length = 0 then
        some (s.setCall c { owner := i, kind, node, no := 0, source, dests, relay }
          (.returned false []))
      else
        let p := p.nextSeqNo
        some ((s.setMember i p).setCall c
          { owner := i, kind, node, no := p.seqCalls, source, dests, relay } .numbered)

omit [DecidableEq ι] in
/-- The send on the channel of a call: it is received by a call that is in its `select`. -/
def signal (c : Nat) (payload : Bytes) (s : Detect ι) : Detect ι :=
  match s.calls c with
  | some ⟨info, .waiting⟩ => s.setCall c info (.returned true payload)
  | _ => s

/-- `handlePing`. -/
def handlePing (i : ι) (p : Ping) (sender : UDPAddr) (sock : UDPAddr) (payload : Bytes)
    (s : Detect ι) : Detect ι :=
  if p.id ≠ "" ∧ p.id ≠ (s.member i).id then s
  else
    let a : Answer ι := { answerer := i, ping := p, sender, payload }
    sendPacket { dst := a.dst, src := sock, msg := .ack { seqNo := p.seqNo, payload } }
      { s with answers := s.answers ++ [a] }

/-- `handleAck`: `invokeAckHandler` as far as the `Unlock`. -/
def handleAck (i : ι) (a : Ack) (s : Detect ι) : Detect ι :=
  let p := s.member i
  match p.handlers .direct a.seqNo with
  | none => s
  | some h =>
    s.setMember i { p.setHandler .direct a.seqNo none with held := p.held ++ [(h, a.payload)] }

/-- `handleIndirectPing`, as far as the `nextSeqNo` of the `Ping` it runs. -/
def handleIndirectPing (i : ι) (c : Nat) (p : IndirectPing) (sender : UDPAddr) (s : Detect ι) :
    Option (Detect ι) :=
  s.startCall i c .direct { id := p.id, ip := p.ip, port := p.port, tags := [] } [⟨p.ip, p.port⟩]
    (some (replyAddr p.sourceIP p.sourcePort sender, p.seqNo))

/-- `handleIndirectAck`, that is `invokeIndirectAckHandler`. -/
def handleIndirectAck (i : ι) (a : IndirectAck) (s : Detect ι) : Detect ι :=
  let p := s.member i
  match p.handlers .indirect a.seqNo with
  | none => s
  | some h =>
    if a.success = false then s
    else (s.setMember i (p.setHandler .indirect a.seqNo none)).signal h []

/-- A packet is handled by the member it arrives at. -/
def handle (net : Net ι) (i : ι) (pkt : PingPacket) (c : Nat) (payload : Bytes) (s : Detect ι) :
    Option (Detect ι) :=
  match pkt.msg with
  | .ping p => some (s.handlePing i p pkt.src (net.sock i) payload)
  | .ack a => some (s.handleAck i a)
  | .indirectPing p => s.handleIndirectPing i c p pkt.src
  | .indirectAck a => some (s.handleIndirectAck i a)

/-- One action, `none` if it is not possible. -/
def act (net : Net ι) : DetectAction ι → Detect ι → Option (Detect ι)
  | .ping i c node, s => s.startCall i c .direct node [⟨node.ip, node.port⟩] none
  | .indirectPing i c node peers, s => s.startCall i c .indirect node peers none
  | .tcpPing i, s =>
    match (s.member i).advertised with
    | none => some s
    | some _ => some (s.setMember i (s.member i).nextSeqNo)
  | .register c, s =>
    match s.calls c with
    | some ⟨info, .numbered⟩ =>
      let p := (s.member info.owner).setHandler info.kind info.seqNo (some c)
      some ((s.setMember info.owner p).setCall c info (.sending info.dests))
    | _ => none
  | .send c ok, s =>
    match s.calls c with
    | some ⟨info, .sending (dst :: left)⟩ =>
      if ok then
        some ((s.sendPacket { dst, src := net.sock info.owner, msg := info.msg }).setCall c info
          (.sending left))
      -- the first error ends the call
      else some (s.setCall c info (.returned false []))
    | _ => none
  | .select c, s =>
    match s.calls c with
    | some ⟨info, .sending []⟩ => some (s.setCall c info .waiting)
    | _ => none
  | .timeout c, s =>
    match s.calls c with
    | some ⟨info, .waiting⟩ => some (s.setCall c info (.returned false []))
    | _ => none
  | .expire c, s =>
    match s.calls c with
    | some ⟨info, _⟩ =>
      -- a call that took no number has no timer
      if info.no = 0 then none
      else
        some (s.setMember info.owner ((s.member info.owner).setHandler info.kind info.seqNo none))
    | none => none
  | .receive pkt c payload, s =>
    if pkt ∈ s.packets then (net.route pkt.dst).bind fun i => s.handle net i pkt c payload else none
  | .deliver i h, s =>
    let p := s.member i
    if h ∈ p.held then
      some ((s.setMember i { p with held := p.held.erase h }).signal h.1 h.2)
    else none
  | .tell c, s =>
    match s.calls c with
    | some ⟨info, .returned success _⟩ =>
      -- only a `Ping` that was asked for reports
      info.relay.map fun (addr, seqNo) =>
        (s.sendPacket { dst := addr, src := net.sock info.owner
                        msg := .indirectAck { seqNo, success } }).setCall c info .told
    | _ => none

/-- The states that members with these addresses get to. -/
def Reachable (net : Net ι) (s : Detect ι) : Prop :=
  ∃ configs acts, run (act net) acts (start configs) = some s

end Detect

end Mlist
