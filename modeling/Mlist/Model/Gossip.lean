import Mlist.Model.Broadcast
import Mlist.Model.LongRun
import Mlist.Model.Wire

/-!
# Sending broadcasts

How queued broadcasts leave a member: `getBroadcasts` collects them, from the member's
own queue and from the application's, within a number of bytes; `gossip` sends a batch
to each of a few members, and `sendMsgPiggyback` adds a batch to a message that is sent
anyway. Several messages travel in one compound packet, and every packet goes through
`packUdp`.

Reading notes:

- The members `gossip` picks are an argument, each with the transmit limit in force when
  its turn comes (`transmitLimit` computes with floating-point logarithms).
- `UserBroadcasts` is the application's interface: a method with a state of its own.
- `Sender.sent` is what the transport was given, oldest first.
- `int` is `Int`, and what is computed with it is cut to its 64 bits by `wrapInt`.
-/

namespace Mlist

open Mlist.Lib
open Mlist.Lib.Outcome (ofExcept)

/-! ## Compound messages -/

/-- `binary.Write` of a `uint16` in big-endian order. -/
def putUint16 (n : Nat) : Bytes := [UInt8.ofNat (n / 2 ^ 8), UInt8.ofNat n]

/-- `packCompoundMsg`: how many, how long each, and the messages. The count is one byte
and a length is two, whatever is put into them. -/
def packCompoundMsg (msgs : List Bytes) : Bytes :=
  MsgType.compound.code :: UInt8.ofNat msgs.length ::
    (msgs.flatMap (fun m => putUint16 m.length) ++ msgs.flatten)

def maxMsgs : Nat := 255

/-- `splitToCompoundMsgs`. -/
def splitToCompoundMsgs (msgs : List Bytes) : List Bytes :=
  if msgs.length > maxMsgs then
    packCompoundMsg (msgs.take maxMsgs) :: splitToCompoundMsgs (msgs.drop maxMsgs)
  else if msgs.length > 0 then [packCompoundMsg msgs]
  else []
  termination_by msgs.length
  decreasing_by
    rw [List.length_drop]
    unfold maxMsgs at *
    omega

/-! ## Collecting -/

instance : Encoded Bytes := ⟨List.length⟩

def compoundHeaderOverhead : Int := 2

def lenMsgOverhead : Int := 2

def userMsgOverhead : Int := 1

/-- `UserBroadcasts`, over the application's state. -/
structure UserBroadcasts (σ : Type) where
  getBroadcasts : σ → Int → Int → List Bytes × σ

/-- What sending uses and does not change: the packages, the application's broadcasts
(`none` is the nil interface), the nonce of each packing, and what the transport answers
to each datagram. -/
structure Outbound (σ : Type) where
  pk : Packages
  ubroadcasts : Option (UserBroadcasts σ)
  nonces : Nat → Nonce
  transport : Nat → UDPAddr → Bytes → Option String

/-- What sending changes. -/
structure Sender (H σ : Type) where
  mbroadcasts : TransmitCapQueue H Bytes
  user : σ
  packed : Nat
  sent : List (UDPAddr × Bytes)

section Sending

variable {H σ : Type} [Heap H (TransmitCapItem Bytes)] (out : Outbound σ) (e : Endpoint)

/-- `getBroadcasts`. -/
def getBroadcasts (transLimit overhead limit : Int) (s : Sender H σ) : List Bytes × Sender H σ :=
  if limit ≤ overhead then ([], s)
  else
    let (msgs, q) := s.mbroadcasts.getMessages transLimit overhead limit
    let s := { s with mbroadcasts := q }
    match out.ubroadcasts with
    | none => (msgs, s)
    | some u =>
      let bytesUsed := wrapInt (msgs.map fun msg => (msg.length : Int) + overhead).sum
      let (umsgs, user) :=
        u.getBroadcasts s.user (wrapInt (overhead + userMsgOverhead)) (wrapInt (limit - bytesUsed))
      (msgs ++ umsgs.map (MsgType.user.code :: ·), { s with user })

/-! ## Sending -/

/-- `sendUdp`; the result is the error, if there is one. -/
def sendUdp (addr : UDPAddr) (msg : Bytes) (s : Sender H σ) :
    Outcome (Option String × Sender H σ) :=
  match e.packUdp out.pk (out.nonces s.packed) msg with
  | .ok d =>
    .ok (out.transport s.packed addr d,
      { s with packed := s.packed + 1, sent := s.sent ++ [(addr, d)] })
  | .error err => .ok (some err, { s with packed := s.packed + 1 })
  | .crash why => .crash why

/-- The bytes left for messages out of `n`. -/
def Endpoint.withoutOverhead (n : Int) : Outcome Int :=
  if e.encryptionEnabled then do
    let overhead ← encryptOverhead e.encryptionVersion
    .ok (wrapInt (n - overhead))
  else .ok n

/-- `sendMsgPiggyback`. -/
def sendMsgPiggyback (transLimit : Int) (addr : UDPAddr) (msg : Bytes) (s : Sender H σ) :
    Outcome (Option String × Sender H σ) := do
  let bytesRemaining ←
    e.withoutOverhead (wrapInt (e.udpBufferSize - msg.length - compoundHeaderOverhead))
  let (piggy, s) := getBroadcasts out transLimit lenMsgOverhead bytesRemaining s
  if piggy.length = 0 then sendUdp out e addr msg s
  else sendUdp out e addr (packCompoundMsg (msg :: piggy)) s

/-- The packets of a batch: one message goes as it is, several as compounds. -/
def gossipPackets (msgs : List Bytes) : List Bytes :=
  match msgs with
  | [msg] => [msg]
  | msgs => splitToCompoundMsgs msgs

/-- Send each packet; an error is logged and the next one sent. -/
def sendEach (addr : UDPAddr) : List Bytes → Sender H σ → Outcome (Sender H σ)
  | [], s => .ok s
  | msg :: msgs, s => do
    let (_, s) ← sendUdp out e addr msg s
    sendEach addr msgs s

/-- A member that `gossip` picked. -/
structure GossipTarget where
  addr : UDPAddr
  transLimit : Int

/-- The loop of `gossip`, which ends when there is nothing more to send. -/
def gossipTo (remainingBytes : Int) : List GossipTarget → Sender H σ → Outcome (Sender H σ)
  | [], s => .ok s
  | node :: nodes, s =>
    let (msgs, s) := getBroadcasts out node.transLimit lenMsgOverhead remainingBytes s
    if msgs.length = 0 then .ok s
    else do
      let s ← sendEach out e node.addr (gossipPackets msgs) s
      gossipTo remainingBytes nodes s

/-- `gossip`, to the members that were picked. -/
def gossip (nodes : List GossipTarget) (s : Sender H σ) : Outcome (Sender H σ) := do
  let remainingBytes ← e.withoutOverhead (wrapInt (e.udpBufferSize - compoundHeaderOverhead))
  gossipTo out e remainingBytes nodes s

end Sending

end Mlist
