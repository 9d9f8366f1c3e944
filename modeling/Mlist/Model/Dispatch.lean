import Mlist.Lib.Parts
import Mlist.Model.Gossip

/-!
# Receiving packets

What a member does with the payload of a packet: `handleUdpMsg` looks at the type byte and
queues the message or calls its handler. A compound is taken apart (`unpackCompoundMsg`) and
each of its parts goes through `handleUdpMsg` again, which may find another compound there.

The two functions only decide which calls are made. A `UdpCall` is such a call with its
arguments, and `handleUdpMsg` returns the calls in the order they are made in; what they do
is modelled elsewhere (`LongRun.lean`, `Ping.lean`). `sender` is `from`.
-/

namespace Mlist

open Mlist.Lib

/-! ## Compound messages -/

/-- `binary.BigEndian.Uint16`, of the first two bytes. -/
def uint16 : Bytes → Nat
  | a :: b :: _ => a.toNat * 2 ^ 8 + b.toNat
  | _ => 0

/-- The loop that decodes the lengths. -/
def readLengths (numParts : Nat) (msg : Bytes) : List Nat :=
  (List.range numParts).map fun i => uint16 (msg.drop (i * 2))

/-- `unpackCompoundMsg`: how many parts are missing, and the others. The last loop is
`carve`, where `numParts - idx` is the number of lengths that are left. -/
def unpackCompoundMsg (msg : Bytes) : Except String (Nat × List Bytes) :=
  match msg with
  | [] => .error "missing compound length byte"
  | b :: msg =>
    let numParts := b.toNat
    if msg.length < numParts * 2 then .error "truncated len slice"
    else .ok (carve (readLengths numParts msg) (msg.drop (numParts * 2)))

/-- What is unpacked are the count, the lengths and the parts, in this order. -/
theorem unpackCompoundMsg_ok {msg : Bytes} {trunc : Nat} {msgs : List Bytes}
    (h : unpackCompoundMsg msg = .ok (trunc, msgs)) :
    ∃ count lengths rest, msg = count :: (lengths ++ (msgs.flatten ++ rest)) ∧
      lengths.length = count.toNat * 2 ∧ trunc + msgs.length = count.toNat := by
  unfold unpackCompoundMsg at h
  split at h
  next => nomatch h
  next b body =>
    dsimp only at h
    split at h
    next => nomatch h
    next hlen =>
      obtain ⟨hcount, rest, hrest⟩ :=
        carve_spec (readLengths b.toNat body) (body.drop (b.toNat * 2))
      rw [Except.ok.inj h] at hcount hrest
      refine ⟨b, body.take (b.toNat * 2), rest, ?_, ?_, ?_⟩
      · rw [← hrest, List.take_append_drop]
      · rw [List.length_take]
        omega
      · simpa [readLengths] using hcount

/-- A part is shorter than the compound it is in. -/
theorem part_length_lt {msg part : Bytes} {trunc : Nat} {msgs : List Bytes}
    (h : unpackCompoundMsg msg = .ok (trunc, msgs)) (hpart : part ∈ msgs) :
    part.length < msg.length := by
  obtain ⟨count, lengths, rest, rfl, -, -⟩ := unpackCompoundMsg_ok h
  have hle : part.length ≤ msgs.flatten.length :=
    (List.sublist_flatten_of_mem hpart).length_le
  simp only [List.length_cons, List.length_append]
  omega

/-! ## Dispatching -/

/-- `msgType(msg[0])`, `none` for a byte that stands for no type. -/
def MsgType.ofCode : UInt8 → Option MsgType
  | 0 => some .ping
  | 1 => some .indirectPing
  | 2 => some .ack
  | 3 => some .indirectAck
  | 4 => some .alive
  | 5 => some .suspect
  | 6 => some .dead
  | 7 => some .pushPull
  | 8 => some .compound
  | 9 => some .user
  | 10 => some .compress
  | 11 => some .encrypt
  | 12 => some .hasCrc
  | 13 => some .err
  | _ => none

/-- `isLongRunMsg`. -/
def isLongRunMsg (t : MsgType) : Bool :=
  t == .alive || t == .suspect || t == .dead || t == .user

/-- The calls `handleUdpMsg` makes for a message that is not a compound. -/
inductive UdpCall where
  | queueLongRunMsg (m : LongRunMsg)
  | handlePing (msg : Bytes) (sender : UDPAddr)
  | handleAck (msg : Bytes) (sender : UDPAddr) (timestamp : Time)
  | handleIndirectPing (msg : Bytes) (sender : UDPAddr)
  | handleIndirectAck (msg : Bytes) (sender : UDPAddr)
  deriving DecidableEq, Repr

mutual

/-- `handleUdpMsg`. -/
def handleUdpMsg (sender : UDPAddr) (timestamp : Time) (msg : Bytes) : List UdpCall :=
  match msg with
  | [] => []
  | b :: msg =>
    match MsgType.ofCode b with
    | none => []
    | some mType =>
      if isLongRunMsg mType then [.queueLongRunMsg { mType, msg, sender }]
      else
        match mType with
        | .compound => handleCompound sender timestamp msg
        | .ping => [.handlePing msg sender]
        | .ack => [.handleAck msg sender timestamp]
        | .indirectPing => [.handleIndirectPing msg sender]
        | .indirectAck => [.handleIndirectAck msg sender]
        | _ => []
  termination_by msg.length

/-- `handleCompound`. -/
def handleCompound (sender : UDPAddr) (timestamp : Time) (msg : Bytes) : List UdpCall :=
  match _h : unpackCompoundMsg msg with
  | .error _ => []
  | .ok (_, msgs) => msgs.attach.flatMap fun part => handleUdpMsg sender timestamp part.val
  termination_by msg.length
  decreasing_by exact part_length_lt _h part.property

end

end Mlist
