import Mlist.Model.Detect
import Mlist.Model.Member
import Mlist.Model.Resolve
import Mlist.Model.Wire
import Mlist.Race.PushPull

/-!
# Talking over a connection

What two members say to each other over TCP. One dials and sends its state
(`pushPullWithNode` of `pushpull.go`) or a ping (`TcpPing` of `ping.go`); the other answers
(`handleTcpConn`, `handlePushPull` and `handlePingTcp` of `net_handlers.go`). `Join`
(`memberlist.go`) does the first with every address it is given.

Reading notes:

- `Conn` is a connection as the member that dialled sees it. What the other end sends is a
  function of what it gets, `answer`; the other end may be anybody.
- The member that is dialled sees what arrives as a `Reader`, and what it does is a `Served`:
  the bytes it writes, and the state it merges before it closes the connection.
- A write may fail after some of the bytes.
- `Option` and `Outcome` are used as before: a crash is the panic of a goroutine, `none` a call
  that does not come back.
- `usrMerged` is history: what the user's delegate was given to merge.
-/

namespace Mlist

open Mlist.Lib
open Mlist.Lib.Outcome (ofExcept)

/-- The packages, with the codecs for what else goes over a stream; an `errResp` is its
text. -/
structure StreamPackages extends Packages where
  ping : Codec Ping
  ack : Codec Ack
  errResp : Codec String

/-- `encode`: the type byte and the value. -/
def encodeMsg {α : Type} (t : MsgType) (c : Codec α) (a : α) : Except String Bytes := do
  let b ← c.encode a
  .ok (t.code :: b)

/-- `conn.Write`: how many of the bytes are written, and the error. -/
abbrev ConnWrite := Bytes → Nat × Option String

/-- `sendTcp`, with the bytes it has written. -/
def sendTcp (pk : Packages) (e : Endpoint) (nonce : Nonce) (write : ConnWrite)
    (msg streamLabel : Bytes) : Outcome (Bytes × Except String Unit) :=
  match e.packTcp pk nonce msg streamLabel with
  | .crash why => .crash why
  | .error err => .ok ([], .error err)
  | .ok d =>
    match write d with
    | (n, some err) => .ok (d.take n, .error err)
    | (n, none) =>
      if n ≠ d.length then
        .ok (d.take n,
          .error ("only " ++ toString n ++ " of " ++ toString d.length ++ " bytes written"))
      else .ok (d, .ok ())

/-- A connection, to the member that dialled. -/
structure Conn where
  remoteAddr : String
  write : ConnWrite
  answer : Bytes → Reader

/-- What the member that is dialled does. -/
structure Served where
  reply : Bytes
  remote : Option (List StateToMerge × Bytes)
  deriving DecidableEq

/-- A member, as far as its connections go. `usrState` is what the user's delegate returns for
its `LocalState`, `none` for the nil interface. -/
structure Peer (H : Type) where
  m : Memberlist H
  e : Endpoint
  maxPushPulls : Int
  usrState : Option Bytes
  usrMerged : List Bytes

variable {H : Type}

namespace Peer

variable (pk : StreamPackages)

/-- `sendLocalState`. -/
def sendLocalState (nonce : Nonce) (write : ConnWrite) (p : Peer H) :
    Outcome (Bytes × Except String Unit) :=
  match encodePushPullMsg pk.toPackages p.m.localState (p.usrState.getD []) with
  | .error err => .ok ([], .error err)
  | .ok msg => sendTcp pk.toPackages p.e nonce write msg p.e.label

/-! ## The member that is dialled -/

/-- `handlePingTcp`. -/
def handlePingTcp (nonce : Nonce) (write : ConnWrite) (r : Reader) (p : Peer H) : Outcome Served :=
  match pk.ping.decode r with
  | .error _ => .ok ⟨[], none⟩
  | .ok (q, _) =>
    if q.id ≠ "" ∧ q.id ≠ p.m.id then .ok ⟨[], none⟩
    else
      match encodeMsg .ack pk.ack { seqNo := q.seqNo, payload := [] } with
      | .error _ => .ok ⟨[], none⟩
      | .ok out => do
        let (written, _) ← sendTcp pk.toPackages p.e nonce write out p.e.label
        .ok ⟨written, none⟩

/-- `handlePushPull`; `nPP` is what the increment of the counter returned. -/
def handlePushPull (nonce : Nonce) (write : ConnWrite) (nPP : UInt32) (r : Reader) (p : Peer H) :
    Outcome Served :=
  if nPP ≥ PushPullSys.limit p.maxPushPulls then .ok ⟨[], none⟩
  else
    match readRemoteState pk.toPackages r with
    | .crash why => .crash why
    | .error _ => .ok ⟨[], none⟩
    | .ok remote => do
      let (written, err) ← p.sendLocalState pk nonce write
      match err with
      | .error _ => .ok ⟨written, none⟩
      | .ok () => .ok ⟨written, some remote⟩

/-- The first half of `handleTcpConn`: a stream that cannot be unpacked is answered with the
error, unless there was nothing on it. -/
def refuse (nonce : Nonce) (write : ConnWrite) (err : String) (p : Peer H) : Outcome Served :=
  if err ≠ eof then
    match encodeMsg .err pk.errResp err with
    | .error _ => .ok ⟨[], none⟩
    | .ok respMsg => do
      let (written, _) ← sendTcp pk.toPackages p.e nonce write respMsg p.e.label
      .ok ⟨written, none⟩
  else .ok ⟨[], none⟩

/-- `handleTcpConn`. -/
def handleTcpConn (nonce : Nonce) (write : ConnWrite) (nPP : UInt32) (conn : Reader) (p : Peer H) :
    Outcome Served :=
  match p.e.unpackStream pk.toPackages conn p.e.label with
  | .crash why => .crash why
  | .error err => p.refuse pk nonce write err
  | .ok (mType, r) =>
    if mType = MsgType.pushPull.code then p.handlePushPull pk nonce write nPP r
    else if mType = MsgType.ping.code then p.handlePingTcp pk nonce write r
    else .ok ⟨[], none⟩

/-- A connection to `q`, as long as it works. `write` is the dialling end's; `stop` and `stop'`
are what the two ends get when there is nothing left to read. -/
def connTo (nonce : Nonce) (write' : ConnWrite) (nPP : UInt32) (stop stop' remoteAddr : String)
    (write : ConnWrite) (q : Peer H) : Conn where
  remoteAddr
  write
  answer := fun d =>
    match q.handleTcpConn pk nonce write' nPP ⟨d, stop⟩ with
    | .ok served => ⟨served.reply, stop'⟩
    | _ => ⟨[], stop'⟩

/-! ## The member that dials -/

/-- `sendAndReceiveState`. -/
def sendAndReceiveState (nonce : Nonce) (dial : Except String Conn) (p : Peer H) :
    Outcome (List StateToMerge × Bytes) := do
  let conn ← ofExcept dial
  let (written, err) ← p.sendLocalState pk nonce conn.write
  ofExcept err
  let (msgType, r) ← p.e.unpackStream pk.toPackages (conn.answer written) p.e.label
  if msgType = MsgType.err.code then do
    let (resp, _) ← ofExcept (pk.errResp.decode r)
    .error ("remote error: " ++ resp)
  else if msgType ≠ MsgType.pushPull.code then
    .error ("received invalid msgType (" ++ toString msgType.toNat ++
      "), expected pushPullMsg (7) from " ++ conn.remoteAddr)
  else readRemoteState pk.toPackages r

/-- The goroutine of `TcpPing`; `seqNo` is the number it takes. -/
def tcpPing (nonce : Nonce) (dial : Except String Conn) (seqNo : UInt32) (node : Node)
    (p : Peer H) : Outcome Bool :=
  match p.m.config.advertiseAddr, dial with
  | none, _ => .ok false
  | some _, .error _ => .ok false
  | some localIp, .ok conn =>
    let ping : Ping :=
      { seqNo, id := node.id, sourceIP := localIp, sourcePort := p.m.config.advertisePort }
    match encodeMsg .ping pk.ping ping with
    | .error _ => .ok false
    | .ok encoded => do
      let (written, err) ← sendTcp pk.toPackages p.e nonce conn.write encoded p.e.label
      match err with
      | .error _ => .ok false
      | .ok () =>
        match p.e.unpackStream pk.toPackages (conn.answer written) p.e.label with
        | .crash why => .crash why
        | .error _ => .ok false
        | .ok (msgType, r) =>
          if msgType ≠ MsgType.ack.code then .ok false
          else
            match pk.ack.decode r with
            | .error _ => .ok false
            | .ok (a, _) => .ok (a.seqNo == seqNo)

/-! ## Merging -/

section Merge

variable [Encoded Msg] [Heap H (TransmitCapItem Msg)]

/-- Every entry is merged at a time of its own. -/
def timed (env : Nat → Env) (remote : List StateToMerge) : List (Env × StateToMerge) :=
  remote.zipIdx.map fun x => (env x.2, x.1)

/-- `mergeState` and the delegate's `Merge`. -/
def merge (env : Nat → Env) (remote : List StateToMerge × Bytes) (p : Peer H) : Option (Peer H) :=
  (p.m.mergeState (timed env remote.1)).map fun m =>
    { p with m, usrMerged := p.usrMerged ++ if p.usrState.isSome then [remote.2] else [] }

/-- `pushPullWithNode`. -/
def pushPullWithNode (nonce : Nonce) (dial : Except String Conn) (env : Nat → Env) (p : Peer H) :
    Option (Except String (Peer H)) :=
  match p.sendAndReceiveState pk nonce dial with
  | .crash _ => none
  | .error err => some (.error err)
  | .ok remote => (p.merge env remote).map .ok

end Merge

end Peer

end Mlist
