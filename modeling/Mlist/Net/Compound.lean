import Mathlib.Data.List.Forall2
import Mlist.Model.Dispatch
import Mlist.Net.Budget

/-!
# Compound packets

A compound is a head — a byte that counts the messages, two bytes for the length of each —
and the messages behind it. `unpackCompoundMsg` reads the head of a compound and carves the
rest (`unpackCompoundMsg_head`), and everything about whole and truncated packets follows
from what carving does (`Parts.lean`).

The count is the weak spot: it is written modulo 256. `splitToCompoundMsgs` keeps below
that; `sendMsgPiggyback` packs whatever it was given, and what it packs can be unpacked
exactly as long as it was given fewer than 255 messages (`piggyback_unpacks_iff`).

The receiver takes compounds apart to any depth. The calls it makes stand for disjoint parts
of the packet, so that a packet never causes more of them than it has bytes
(`dispatch_bounded`).
-/

namespace Mlist

open Mlist.Lib
open TransmitCapQueue (cost cost_cons)

/-! ## The head -/

theorem uint16_putUint16 {n : Nat} (h : n ≤ 65535) (rest : Bytes) :
    uint16 (putUint16 n ++ rest) = n := by
  show (UInt8.ofNat (n / 2 ^ 8)).toNat * 2 ^ 8 + (UInt8.ofNat n).toNat = n
  simp only [UInt8.toNat_ofNat']
  omega

/-- The lengths of the messages, as the head has them. -/
def packLengths (msgs : List Bytes) : Bytes := msgs.flatMap fun m => putUint16 m.length

@[simp] theorem packLengths_length (msgs : List Bytes) :
    (packLengths msgs).length = msgs.length * 2 := by
  induction msgs with
  | nil => rfl
  | cons m msgs ih =>
    show (putUint16 m.length ++ packLengths msgs).length = _
    rw [List.length_append, ih, List.length_cons]
    show 2 + msgs.length * 2 = _
    omega

/-- The lengths are read back, if two bytes are enough for each. -/
theorem readLengths_packLengths : ∀ {msgs : List Bytes}, (∀ m ∈ msgs, m.length ≤ 65535) →
    ∀ rest, readLengths msgs.length (packLengths msgs ++ rest) = msgs.map List.length
  | [], _, _ => rfl
  | m :: msgs, hlen, rest => by
    have hm := hlen m List.mem_cons_self
    have ih := readLengths_packLengths (fun x hx => hlen x (List.mem_cons_of_mem m hx)) rest
    have hsplit : packLengths (m :: msgs) ++ rest =
        putUint16 m.length ++ (packLengths msgs ++ rest) := List.append_assoc ..
    have hdrop : ∀ i, (putUint16 m.length ++ (packLengths msgs ++ rest)).drop ((i + 1) * 2) =
        (packLengths msgs ++ rest).drop (i * 2) := by
      intro i
      rw [List.drop_append, List.drop_eq_nil_of_le (by show 2 ≤ _; omega), List.nil_append]
      congr 1
      show (i + 1) * 2 - 2 = i * 2
      omega
    unfold readLengths at ih ⊢
    rw [hsplit, List.length_cons, List.range_succ_eq_map, List.map_cons, List.map_map,
      List.map_cons,
      Nat.zero_mul, List.drop_zero, uint16_putUint16 hm, ← ih]
    refine congrArg _ (List.map_congr_left fun i _ => ?_)
    exact congrArg uint16 (hdrop i)

/-- A compound without its type byte is the head and the messages. -/
def packHead (msgs : List Bytes) : Bytes := UInt8.ofNat msgs.length :: packLengths msgs

theorem packCompoundMsg_eq (msgs : List Bytes) :
    packCompoundMsg msgs = MsgType.compound.code :: (packHead msgs ++ msgs.flatten) := rfl

@[simp] theorem packHead_length (msgs : List Bytes) :
    (packHead msgs).length = 1 + msgs.length * 2 := by
  unfold packHead
  rw [List.length_cons, packLengths_length]
  omega

/-- A byte is enough for 255. -/
theorem count_toNat {n : Nat} (h : n ≤ 255) : (UInt8.ofNat n).toNat = n := by
  rw [UInt8.toNat_ofNat']
  omega

/-- Behind a whole head, unpacking is carving. -/
theorem unpackCompoundMsg_head {msgs : List Bytes} (hcount : msgs.length ≤ 255)
    (hlen : ∀ m ∈ msgs, m.length ≤ 65535) (rest : Bytes) :
    unpackCompoundMsg (packHead msgs ++ rest) = .ok (carve (msgs.map List.length) rest) := by
  have hwhole : ¬ (packLengths msgs ++ rest).length < msgs.length * 2 := by
    rw [List.length_append, packLengths_length]
    omega
  unfold packHead
  rw [List.cons_append]
  dsimp only [unpackCompoundMsg]
  rw [count_toNat hcount, if_neg hwhole, readLengths_packLengths hlen,
    List.drop_left' (packLengths_length msgs)]

/-- An incomplete head is an error. -/
theorem unpackCompoundMsg_short {msgs : List Bytes} (hcount : msgs.length ≤ 255) {p : Bytes}
    (hp : p <+: packHead msgs) (hshort : p.length < (packHead msgs).length) :
    ∃ e, unpackCompoundMsg p = .error e := by
  cases p with
  | nil => exact ⟨_, rfl⟩
  | cons b p =>
    obtain ⟨rfl, -⟩ := List.cons_prefix_cons.mp hp
    refine ⟨"truncated len slice", if_pos ?_⟩
    rw [List.length_cons, packHead_length] at hshort
    rw [count_toNat hcount]
    omega

/-- A whole compound gives back what was packed. -/
theorem unpackCompoundMsg_pack {msgs : List Bytes} (hcount : msgs.length ≤ 255)
    (hlen : ∀ m ∈ msgs, m.length ≤ 65535) :
    unpackCompoundMsg (packHead msgs ++ msgs.flatten) = .ok (0, msgs) := by
  have hcarve := carve_flatten msgs []
  rw [List.append_nil] at hcarve
  rw [unpackCompoundMsg_head hcount hlen, hcarve]

/-! ## Truncated packets -/

/-- **Unpacking a packet that was cut short.** A prefix of a compound that holds the whole
head gives the messages that are still complete in it and the number of the others; a
shorter one is an error. And whatever bytes are unpacked, every message the count announces
is returned or reported missing, and those returned follow each other directly behind the
head. -/
theorem unpack_truncated :
    (∀ msgs : List Bytes, msgs.length ≤ 255 → (∀ m ∈ msgs, m.length ≤ 65535) →
      ∀ p, MsgType.compound.code :: p <+: packCompoundMsg msgs →
        (1 + msgs.length * 2 ≤ p.length →
          ∃ j, unpackCompoundMsg p = .ok (msgs.length - j, msgs.take j) ∧
            Longest msgs (p.length - (1 + msgs.length * 2)) j) ∧
        (p.length < 1 + msgs.length * 2 → ∃ e, unpackCompoundMsg p = .error e)) ∧
    ∀ b trunc parts, unpackCompoundMsg b = .ok (trunc, parts) →
      ∃ count lengths rest, b = count :: (lengths ++ (parts.flatten ++ rest)) ∧
        lengths.length = count.toNat * 2 ∧ trunc + parts.length = count.toNat := by
  refine ⟨fun msgs hcount hlen p hp => ?_, fun b trunc parts h => unpackCompoundMsg_ok h⟩
  rw [packCompoundMsg_eq, List.cons_prefix_cons] at hp
  have hp := hp.2
  refine ⟨fun hhead => ?_, fun hhead => ?_⟩
  · -- the prefix is the head and the front of the messages
    have hcut : p = packHead msgs ++ msgs.flatten.take (p.length - (1 + msgs.length * 2)) := by
      have htake := List.prefix_iff_eq_take.mp hp
      rw [List.take_append, packHead_length, List.take_of_length_le (by simpa using hhead)] at htake
      exact htake
    obtain ⟨j, hcarve, hj⟩ := carve_take msgs (p.length - (1 + msgs.length * 2))
    refine ⟨j, ?_, hj⟩
    rw [hcut, unpackCompoundMsg_head hcount hlen, hcarve]
  · have hshort : p.length < (packHead msgs).length := by
      rw [packHead_length]
      exact hhead
    refine unpackCompoundMsg_short hcount ?_ hshort
    exact List.prefix_of_prefix_length_le hp (List.prefix_append _ _) (Nat.le_of_lt hshort)

/-- Three messages, the second of them empty, and the last byte lost: two are complete. -/
theorem unpack_truncated_three :
    let msgs : List Bytes := [[7], [], [8, 9]]
    ∃ j, unpackCompoundMsg [3, 0, 1, 0, 0, 0, 2, 7, 8] = .ok (3 - j, msgs.take j) ∧
      Longest msgs 2 j :=
  (unpack_truncated.1 [[7], [], [8, 9]] (by decide) (by decide) [3, 0, 1, 0, 0, 0, 2, 7, 8]
    (by decide)).1 (by decide)

/-! ## Split batches -/

/-- The packet carries these messages, and they can be unpacked from it. -/
structure Unpacks (packet : Bytes) (part : List Bytes) : Prop where
  some : 1 ≤ part.length
  few : part.length ≤ 255
  type : packet.head? = MsgType.compound.code
  unpacks : unpackCompoundMsg packet.tail = .ok (0, part)

/-- What fits its header is unpacked to what was packed. -/
theorem unpacks_pack {part : List Bytes} (hsome : 1 ≤ part.length) (hfew : part.length ≤ 255)
    (hlen : ∀ m ∈ part, m.length ≤ 65535) : Unpacks (packCompoundMsg part) part :=
  ⟨hsome, hfew, rfl, unpackCompoundMsg_pack hfew hlen⟩

/-- **A split batch arrives whole.** Every packet of a batch carries between 1 and 255
messages, and unpacking the packets in order gives the messages of the batch. -/
theorem split_unpacks (msgs : List Bytes) (hlen : ∀ m ∈ msgs, m.length ≤ 65535) :
    ∃ parts, List.Forall₂ Unpacks (splitToCompoundMsgs msgs) parts ∧ parts.flatten = msgs := by
  fun_induction splitToCompoundMsgs msgs with
  | case1 msgs hmany ih =>
    obtain ⟨parts, hparts, hflat⟩ := ih fun m hm => hlen m (List.mem_of_mem_drop hm)
    have hfirst : (msgs.take maxMsgs).length = 255 := by
      rw [List.length_take]
      unfold maxMsgs at *
      omega
    refine ⟨msgs.take maxMsgs :: parts, .cons ?_ hparts, ?_⟩
    · exact unpacks_pack (by omega) (by omega) fun m hm => hlen m (List.mem_of_mem_take hm)
    · rw [List.flatten_cons, hflat, List.take_append_drop]
  | case2 msgs hfew hsome =>
    refine ⟨[msgs], .cons (unpacks_pack hsome (Nat.le_of_not_lt hfew) hlen) .nil, ?_⟩
    rw [List.flatten_singleton]
  | case3 msgs _ hnone =>
    refine ⟨[], .nil, ?_⟩
    exact (List.eq_nil_of_length_eq_zero (by omega)).symm

/-- A batch of 256 messages goes in two packets. -/
theorem split_unpacks_two :
    ∃ parts, List.Forall₂ Unpacks (splitToCompoundMsgs (List.replicate 256 [7])) parts ∧
      parts.flatten = List.replicate 256 [7] :=
  split_unpacks _ fun m hm => by
    rw [List.eq_of_mem_replicate hm]
    decide

/-! ## Piggybacking -/

section Piggyback

variable {H σ : Type} [Heap H (TransmitCapItem Bytes)]

/-- More messages than the count can say do not come back. -/
theorem unpackCompoundMsg_crowded {msgs : List Bytes} (h : 255 < msgs.length) (b : Bytes)
    (trunc : Nat) : unpackCompoundMsg b ≠ .ok (trunc, msgs) := by
  intro hok
  obtain ⟨count, -, -, -, -, hcount⟩ := unpackCompoundMsg_ok hok
  have hlt := count.toNat_lt
  omega

/-- With a broadcast to add, `sendMsgPiggyback` sends a compound. -/
theorem sendMsgPiggyback_compound {out : Outbound σ} {e : Endpoint} (transLimit : Int)
    (addr : UDPAddr) {msg : Bytes} {s s' : Sender H σ} {bytesRemaining : Int} {piggy : List Bytes}
    (hroom : e.withoutOverhead (wrapInt (e.udpBufferSize - msg.length - compoundHeaderOverhead)) =
      .ok bytesRemaining)
    (hgot : getBroadcasts out transLimit lenMsgOverhead bytesRemaining s = (piggy, s'))
    (hsome : piggy ≠ []) :
    sendMsgPiggyback out e transLimit addr msg s =
      sendUdp out e addr (packCompoundMsg (msg :: piggy)) s' := by
  have hlen : piggy.length ≠ 0 := fun h => hsome (List.eq_nil_of_length_eq_zero h)
  unfold sendMsgPiggyback
  rw [hroom, Outcome.ok_bind, hgot]
  exact if_neg hlen

/-- **When a piggybacked packet can be unpacked.** Whatever the queue, the application and
`UDPBufferSize` are: the compound that `sendMsgPiggyback` makes of its message and at least
one broadcast gives them back in order exactly if there are fewer than 255 broadcasts. -/
theorem piggyback_unpacks_iff (out : Outbound σ) (e : Endpoint) (transLimit : Int)
    (addr : UDPAddr) (msg : Bytes) (s s' : Sender H σ) (bytesRemaining : Int) (piggy : List Bytes)
    (hroom : e.withoutOverhead (wrapInt (e.udpBufferSize - msg.length - compoundHeaderOverhead)) =
      .ok bytesRemaining)
    (hgot : getBroadcasts out transLimit lenMsgOverhead bytesRemaining s = (piggy, s'))
    (hsome : piggy ≠ []) (hlen : ∀ m ∈ msg :: piggy, m.length < 65536) :
    ∃ body, sendMsgPiggyback out e transLimit addr msg s =
        sendUdp out e addr (MsgType.compound.code :: body) s' ∧
      (unpackCompoundMsg body = .ok (0, msg :: piggy) ↔ piggy.length < 255) := by
  refine ⟨packHead (msg :: piggy) ++ (msg :: piggy).flatten,
    sendMsgPiggyback_compound transLimit addr hroom hgot hsome, ?_⟩
  constructor
  · intro hok
    refine Nat.lt_of_not_le fun hmany => ?_
    refine unpackCompoundMsg_crowded ?_ _ _ hok
    rw [List.length_cons]
    omega
  · intro hfew
    refine unpackCompoundMsg_pack ?_ fun m hm => Nat.le_of_lt_succ (hlen m hm)
    rw [List.length_cons]
    omega

end Piggyback

/-- Two queued broadcasts and one of the application arrive with the message. -/
theorem piggyback_unpacks_iff_short :
    let out := sampleOutbound (some shortBroadcast)
    let got := getBroadcasts out 3 lenMsgOverhead 1395 twoQueued
    ∃ body, sendMsgPiggyback out (sizedEndpoint 1400) 3 sampleAddr [0, 1, 2] twoQueued =
        sendUdp out (sizedEndpoint 1400) sampleAddr (MsgType.compound.code :: body) got.2 ∧
      (unpackCompoundMsg body = .ok (0, [0, 1, 2] :: got.1) ↔ got.1.length < 255) :=
  piggyback_unpacks_iff _ _ _ _ _ _ _ 1395 _ rfl rfl (by decide +kernel) (by decide +kernel)

/-- An application with `n` empty messages, all or none. -/
def emptyBroadcasts (n : Nat) : UserBroadcasts Unit where
  getBroadcasts := fun st overhead limit =>
    (if n * overhead ≤ limit then List.replicate n [] else [], st)

theorem emptyBroadcasts_respects (n : Nat) : (emptyBroadcasts n).Respects := by
  intro st overhead limit hlimit
  dsimp only [emptyBroadcasts]
  have hcost : ∀ k : Nat, cost overhead (List.replicate k ([] : Bytes)) = k * overhead := by
    intro k
    induction k with
    | zero => exact (Int.zero_mul overhead).symm
    | succ k ih =>
      rw [List.replicate_succ, cost_cons, ih]
      show (0 : Int) + overhead + k * overhead = ((k + 1 : Nat) : Int) * overhead
      rw [Int.natCast_succ, Int.add_mul]
      omega
  split
  next h =>
    rw [hcost]
    exact h
  next => exact hlimit

/-- 255 empty messages of the application fit into the `UDPBufferSize` of `DefaultConfig`
with room to spare. With the message they are 256, the count of the compound is 0, and the
receiver finds nothing in it and reports nothing missing. -/
theorem crowded_packet_is_empty :
    let out := sampleOutbound (some (emptyBroadcasts 255))
    let s : Sender (List (TransmitCapItem Bytes)) Unit := ⟨TransmitCapQueue.new, (), 0, []⟩
    let got := getBroadcasts out 3 lenMsgOverhead 1397 s
    (emptyBroadcasts 255).Respects ∧
      sendMsgPiggyback out (sizedEndpoint 1400) 3 sampleAddr [0] s =
        sendUdp out (sizedEndpoint 1400) sampleAddr (packCompoundMsg ([0] :: got.1)) got.2 ∧
      got.1 = List.replicate 255 [MsgType.user.code] ∧
      unpackCompoundMsg (packCompoundMsg ([0] :: got.1)).tail = .ok (0, []) := by
  refine ⟨emptyBroadcasts_respects 255, ?_, by decide +kernel, by decide +kernel⟩
  exact sendMsgPiggyback_compound 3 sampleAddr rfl rfl (by decide +kernel)

/-! ## Dispatching -/

/-- The bytes a call was made for. -/
def UdpCall.bytes : UdpCall → Bytes
  | .queueLongRunMsg m => m.mType.code :: m.msg
  | .handlePing msg _ => MsgType.ping.code :: msg
  | .handleAck msg _ _ => MsgType.ack.code :: msg
  | .handleIndirectPing msg _ => MsgType.indirectPing.code :: msg
  | .handleIndirectAck msg _ => MsgType.indirectAck.code :: msg

theorem UdpCall.bytes_ne_nil (c : UdpCall) : c.bytes ≠ [] := by
  cases c <;> exact List.cons_ne_nil _ _

theorem MsgType.ofCode_eq_some {b : UInt8} {t : MsgType} (h : MsgType.ofCode b = some t) :
    t.code = b := by
  unfold MsgType.ofCode at h
  split at h <;> cases h <;> rfl

/-- Each part of a compound is handled like a packet, and a compound that cannot be unpacked is
dropped. -/
theorem handleCompound_eq (sender : UDPAddr) (timestamp : Time) (msg : Bytes) :
    handleCompound sender timestamp msg =
      match unpackCompoundMsg msg with
      | .error _ => []
      | .ok (_, msgs) => msgs.flatMap (handleUdpMsg sender timestamp) := by
  unfold handleCompound
  split
  next e he => rw [he]
  next trunc msgs he =>
    rw [he]
    dsimp only
    rw [← List.flatMap_map (f := Subtype.val), List.attach_map_subtype_val]

/-- The calls stand for parts of the message that do not overlap, at whatever depth they
were found. -/
theorem handleUdpMsg_within (sender : UDPAddr) (timestamp : Time) : ∀ msg : Bytes,
    Within ((handleUdpMsg sender timestamp msg).map UdpCall.bytes) msg
  | [] => by
    unfold handleUdpMsg
    exact .nil _
  | b :: body => by
    unfold handleUdpMsg
    split
    next => exact .nil _
    next mType htype =>
      obtain rfl := MsgType.ofCode_eq_some htype
      split
      next => exact .singleton _
      next =>
        split
        next =>
          rw [handleCompound_eq]
          split
          next => exact .nil _
          next trunc msgs hok =>
            -- the parts are shorter than the message
            have hparts : Within (msgs.flatMap fun part =>
                (handleUdpMsg sender timestamp part).map UdpCall.bytes) msgs.flatten :=
              Within.flatMap fun part hpart =>
                have := part_length_lt hok hpart
                handleUdpMsg_within sender timestamp part
            obtain ⟨count, lengths, rest, rfl, -, -⟩ := unpackCompoundMsg_ok hok
            have hwhole := (hparts.append (.nil rest)).behind
              (MsgType.compound.code :: count :: lengths)
            rwa [List.append_nil, ← List.map_flatMap] at hwhole
        next => exact .singleton _
        next => exact .singleton _
        next => exact .singleton _
        next => exact .singleton _
        next => exact .nil _
  termination_by msg => msg.length
  decreasing_by exact Nat.lt_succ_of_lt this

/-- **No amplification.** Whatever the bytes of a packet are, and however deep compounds are
nested in it, `handleUdpMsg` returns, and the handlers it calls and the messages it queues
are no more than the bytes: each stands for a part of the packet, and the parts do not
overlap. -/
theorem dispatch_bounded (sender : UDPAddr) (timestamp : Time) (msg : Bytes) :
    (handleUdpMsg sender timestamp msg).length ≤ msg.length ∧
      Within ((handleUdpMsg sender timestamp msg).map UdpCall.bytes) msg := by
  have hwithin := handleUdpMsg_within sender timestamp msg
  refine ⟨?_, hwithin⟩
  have hcount := hwithin.count_le fun p hp => by
    obtain ⟨c, -, rfl⟩ := List.mem_map.mp hp
    exact c.bytes_ne_nil
  rwa [List.length_map] at hcount

end Mlist
