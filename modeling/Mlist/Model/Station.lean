import Mathlib.Logic.Function.Basic
import Mlist.Model.Dispatch
import Mlist.Model.Exchange

/-!
# A cluster of bytes

A member with everything between its tables and its sockets: the broadcasts go out through
`gossip` and `encodeAndSendUdp`, what arrives comes in through `handlePacket`, the queues of
`longRunMsgManager` and `runLongRunMsgHandler`, and states are exchanged over streams. All
that passes between two members here is bytes.

A `WireAction` is what one goroutine of one member does next, and `Wire.act` does it. The
network keeps every datagram for ever, and may deliver it late, twice, out of order, to
anybody, or never. Of a stream any front may arrive.

Reading notes:

- The goroutine of `receivePacket` makes the calls of one packet one after the other
  (`calls`), and the handler of the queues may run in between. What `handlePing` and the
  others of its kind send is a `piggyback` of its own; `Detect.lean` says which.
- `probed` holds the records that `probeNode` has been called with. Each may be a stale copy
  by the time the ping to a suspect carries its suspicion along (`buddyPing`) or the probe
  has failed (`accuse`).
- The queue holds the message and not its encoding; a message that cannot be encoded is not
  sent. In the source it is not queued.
- The keys may be changed at any time (`rekey`).
- `usrMsgCh` says whether the application has given a channel for its messages. `said` and
  `usrMsgs` are history: the messages it has sent, and those that went into the channel.
-/

namespace Mlist

open Mlist.Lib

/-- The packages, with a codec for every message. -/
structure PacketPackages extends StreamPackages where
  indirectPing : Codec IndirectPing
  indirectAck : Codec IndirectAck
  alive : Codec Alive
  suspect : Codec Suspect
  dead : Codec Dead

namespace PacketPackages

variable (pk : PacketPackages)

/-- `encode`, of what is broadcast. -/
def encodeBroadcast : Msg → Except String Bytes
  | .alive a => encodeMsg .alive pk.alive a
  | .suspect s => encodeMsg .suspect pk.suspect s
  | .dead d => encodeMsg .dead pk.dead d

/-- `encode`, of what is sent to detect failures. -/
def encodePing : PingMsg → Except String Bytes
  | .ping p => encodeMsg .ping pk.ping p
  | .ack a => encodeMsg .ack pk.ack a
  | .indirectPing p => encodeMsg .indirectPing pk.indirectPing p
  | .indirectAck a => encodeMsg .indirectAck pk.indirectAck a

/-- `buddyPingMsg`. -/
def buddyPingMsg (p : Ping) (s : Suspect) : Except String Bytes := do
  let ping ← encodeMsg .ping pk.ping p
  let suspect ← encodeMsg .suspect pk.suspect s
  .ok (packCompoundMsg [ping, suspect])

end PacketPackages

/-- A member and its queues. -/
structure Station (H σ : Type) extends Peer H where
  mng : LongRunMsgManager
  calls : List UdpCall
  probed : List NodeState
  user : σ
  usrMsgCh : Bool
  said : List Bytes
  usrMsgs : List Bytes

variable {ι H σ : Type}

/-- What a failed probe of this record accuses it of. -/
def accusation (self : String) (r : NodeState) : Suspect :=
  { lives := r.lives, id := r.node.id, sender := self }

section Packing

variable (pk : PacketPackages)

/-- The datagrams that `sendUdp` makes of these messages; an error is logged and the next one
is sent. -/
def packEach (e : Endpoint) (nonce : Nat → Nonce) : Nat → List Bytes → Outcome (List Bytes)
  | _, [] => .ok []
  | k, msg :: msgs =>
    match e.packUdp pk.toPackages (nonce k) msg with
    | .crash why => .crash why
    | .error _ => packEach e nonce (k + 1) msgs
    | .ok d => do
      let ds ← packEach e nonce (k + 1) msgs
      .ok (d :: ds)

end Packing

namespace Station

variable (pk : PacketPackages)

/-! ## Sending -/

section Sending

variable [Encoded Msg] [Heap H (TransmitCapItem Msg)] (app : Option (UserBroadcasts σ))

/-- `getBroadcasts`. -/
def getBroadcasts (transLimit overhead limit : Int) (s : Station H σ) :
    List Bytes × Station H σ :=
  if limit ≤ overhead then ([], s)
  else
    let (msgs, q) := s.m.mbroadcasts.getMessages transLimit overhead limit
    let msgs := msgs.filterMap fun msg => (pk.encodeBroadcast msg).toOption
    let s := { s with m := { s.m with mbroadcasts := q } }
    match app with
    | none => (msgs, s)
    | some u =>
      let bytesUsed := wrapInt (msgs.map fun msg => (msg.length : Int) + overhead).sum
      let (umsgs, user) :=
        u.getBroadcasts s.user (wrapInt (overhead + userMsgOverhead)) (wrapInt (limit - bytesUsed))
      (msgs ++ umsgs.map (MsgType.user.code :: ·), { s with user, said := s.said ++ umsgs })

/-- What `gossip` sends to one member, as it is handed to `sendUdp`. -/
def gossipBatch (transLimit : Int) (s : Station H σ) : Outcome (List Bytes × Station H σ) := do
  let remainingBytes ← s.e.withoutOverhead (wrapInt (s.e.udpBufferSize - compoundHeaderOverhead))
  .ok (s.getBroadcasts pk app transLimit lenMsgOverhead remainingBytes)

/-- What `sendMsgPiggyback` adds to a message. -/
def piggyBatch (transLimit : Int) (msg : Bytes) (s : Station H σ) :
    Outcome (List Bytes × Station H σ) := do
  let bytesRemaining ←
    s.e.withoutOverhead (wrapInt (s.e.udpBufferSize - msg.length - compoundHeaderOverhead))
  .ok (s.getBroadcasts pk app transLimit lenMsgOverhead bytesRemaining)

/-- The payload of `sendMsgPiggyback`. -/
def piggyPayload (msg : Bytes) (piggy : List Bytes) : Bytes :=
  if piggy.length = 0 then msg else packCompoundMsg (msg :: piggy)

end Sending

/-! ## Receiving -/

/-- `handlePacket`, up to the calls it will make. An error is logged. -/
def handlePacket (d : Bytes) (sender : UDPAddr) (timestamp : Time) (s : Station H σ) :
    Option (Station H σ) :=
  match s.e.unpackPacket pk.toPackages d s.e.label with
  | .crash _ => none
  | .error _ => some s
  | .ok msg => some { s with calls := handleUdpMsg sender timestamp msg }

/-- The first of the calls. One that queues may find the mutex taken. -/
def makeCall (s : Station H σ) : Option (Station H σ) :=
  match s.calls with
  | [] => none
  | .queueLongRunMsg m :: calls =>
    (s.mng.queueLongRunMsg m).map fun r => { s with calls, mng := r.2 }
  | _ :: calls => some { s with calls }

section Handling

variable [Encoded Msg] [Heap H (TransmitCapItem Msg)]

/-- The operation a message in the queues calls for: `handleAlive`, `handleSuspect`,
`handleDead`. None if the sender is not allowed or the message cannot be decoded. -/
def handlerOp (env : Env) (m : LongRunMsg) (s : Station H σ) : Option Op :=
  match m.mType with
  | .alive =>
    if s.m.ipAllowed m.sender.ip then
      match pk.alive.decode (newReader m.msg) with
      | .error _ => none
      | .ok (a, _) => some (.alive env a none)
    else none
  | .suspect =>
    match pk.suspect.decode (newReader m.msg) with
    | .error _ => none
    | .ok (sus, _) => some (.suspect env sus)
  | .dead =>
    match pk.dead.decode (newReader m.msg) with
    | .error _ => none
    | .ok (d, _) => some (.dead env d none)
  | _ => none

/-- One round of the inner loop of `runLongRunMsgHandler`, with `handleUser`. -/
def handleNext (env : Env) (s : Station H σ) : Option (Station H σ) :=
  match s.mng.getNextMsg with
  | some (.ok m, mng) =>
    if m.mType = .user then
      some { s with mng, usrMsgs := if s.usrMsgCh then s.usrMsgs ++ [m.msg] else s.usrMsgs }
    else
      match s.handlerOp pk env m with
      | none => some { s with mng }
      | some op => (step op s.m).map fun m => { s with mng, m }
  | some (.error _, mng) => some { s with mng }
  | none => none

/-- What has arrived of a stream is read and, if it is the state of a member, merged. -/
def receiveState (env : Nat → Env) (conn : Reader) (s : Station H σ) : Option (Station H σ) :=
  match s.e.unpackStream pk.toPackages conn s.e.label with
  | .crash _ => none
  | .error _ => some s
  | .ok (mType, r) =>
    if mType = MsgType.pushPull.code then
      match readRemoteState pk.toPackages r with
      | .crash _ => none
      | .error _ => some s
      | .ok remote => (s.toPeer.merge env remote).map fun p => { s with toPeer := p }
    else some s

end Handling

end Station

/-! ## The cluster -/

/-- The members and what they have sent. -/
structure Wire (ι H σ : Type) where
  station : ι → Station H σ
  datagrams : List Bytes
  streams : List Bytes

/-- What can happen next; `i` is the member it happens at. -/
inductive WireAction (ι : Type) where
  | op (i : ι) (o : Op)
  | pick (i : ι) (id : String)
  | accuse (i : ι) (k : Nat) (env : Env)
  | buddyPing (i : ι) (k : Nat) (p : Ping) (nonce : Nonce)
  | gossip (i : ι) (transLimit : Int) (nonce : Nat → Nonce)
  | piggyback (i : ι) (transLimit : Int) (msg : PingMsg) (nonce : Nonce)
  | sendUserMsg (i : ι) (msg : Bytes) (nonce : Nonce)
  | receive (i : ι) (d : Bytes) (sender : UDPAddr) (timestamp : Time)
  | call (i : ι)
  | handle (i : ι) (env : Env)
  | rekey (i : ι) (e : Endpoint)
  | sendState (i : ι) (nonce : Nonce) (write : ConnWrite)
  | receiveState (i : ι) (b : Bytes) (stop : String) (env : Nat → Env)

/-- Operations of a member on its own, without a message of anybody else. -/
def Op.own : Op → Bool
  | .timer .. | .updateTags .. | .leave .. | .reap .. | .punish .. | .shutdown => true
  | _ => false

namespace Wire

variable [DecidableEq ι]

/-- One member has changed. -/
def set (s : Wire ι H σ) (i : ι) (st : Station H σ) : Wire ι H σ :=
  { s with station := Function.update s.station i st }

/-- Datagrams have been handed to the network. -/
def send (s : Wire ι H σ) (ds : List Bytes) : Wire ι H σ :=
  { s with datagrams := s.datagrams ++ ds }

variable [Encoded Msg] [Heap H (TransmitCapItem Msg)] (pk : PacketPackages)
  (app : Option (UserBroadcasts σ))

/-- One action, `none` if it cannot happen or is the end of its member. -/
def act : WireAction ι → Wire ι H σ → Option (Wire ι H σ)
  | .op i o, s =>
    if o.own then (step o (s.station i).m).map fun m => s.set i { s.station i with m } else none
  | .pick i id, s =>
    ((s.station i).m.nodeMap id).map fun p =>
      s.set i { s.station i with
        probed := (s.station i).probed ++ [(s.station i).m.records p] }
  | .accuse i k env, s =>
    ((s.station i).probed[k]?).bind fun r =>
      ((s.station i).m.suspectNode env (accusation (s.station i).m.id r)).map fun m =>
        s.set i { s.station i with m }
  | .buddyPing i k p nonce, s =>
    ((s.station i).probed[k]?).bind fun r =>
      match pk.buddyPingMsg p (accusation (s.station i).m.id r) with
      -- an error of `encode` is logged
      | .error _ => some s
      | .ok msg =>
        match packEach pk (s.station i).e (fun _ => nonce) 0 [msg] with
        | .ok ds => some (s.send ds)
        | _ => none
  | .gossip i transLimit nonce, s =>
    match (s.station i).gossipBatch pk app transLimit with
    | .ok (msgs, st) =>
      match packEach pk (s.station i).e nonce 0 (gossipPackets msgs) with
      | .ok ds => some ((s.set i st).send ds)
      | _ => none
    | _ => none
  | .piggyback i transLimit msg nonce, s =>
    match pk.encodePing msg with
    | .error _ => some s
    | .ok encoded =>
      match (s.station i).piggyBatch pk app transLimit encoded with
      | .ok (piggy, st) =>
        match packEach pk (s.station i).e (fun _ => nonce) 0
            [Station.piggyPayload encoded piggy] with
        | .ok ds => some ((s.set i st).send ds)
        | _ => none
      | _ => none
  | .sendUserMsg i msg nonce, s =>
    match packEach pk (s.station i).e (fun _ => nonce) 0 [MsgType.user.code :: msg] with
    | .ok ds =>
      some ((s.set i { s.station i with said := (s.station i).said ++ [msg] }).send ds)
    | _ => none
  | .receive i d sender timestamp, s =>
    -- one packet after the other
    if d ∈ s.datagrams ∧ (s.station i).calls = [] then
      ((s.station i).handlePacket pk d sender timestamp).map (s.set i)
    else none
  | .call i, s => (s.station i).makeCall.map (s.set i)
  | .handle i env, s => ((s.station i).handleNext pk env).map (s.set i)
  | .rekey i e, s => some (s.set i { s.station i with e })
  | .sendState i nonce write, s =>
    match (s.station i).sendLocalState pk.toStreamPackages nonce write with
    | .ok (written, _) => some { s with streams := s.streams ++ [written] }
    | _ => none
  | .receiveState i b stop env, s =>
    -- any front of a stream may arrive
    if s.streams.any (b.isPrefixOf ·) then
      ((s.station i).receiveState pk env ⟨b, stop⟩).map (s.set i)
    else none

/-- A cluster before anything is said. -/
structure Started (s : Wire ι H σ) : Prop where
  built : ∀ i, ∃ env config, Memberlist.build env config = .ok (s.station i).m
  ids : Function.Injective fun i => (s.station i).m.id
  queues : ∀ i, ∃ qDepth, (s.station i).mng = newLongRunMsgManager qDepth
  calls : ∀ i, (s.station i).calls = []
  probed : ∀ i, (s.station i).probed = []
  usrMsgs : ∀ i, (s.station i).usrMsgs = []
  datagrams : s.datagrams = []
  streams : s.streams = []

end Wire

end Mlist
