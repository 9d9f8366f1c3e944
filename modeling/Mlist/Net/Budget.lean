import Mlist.Model.Concrete
import Mlist.Model.Gossip
import Mlist.Net.RoundTrip
import Mlist.Queue.Load

/-!
# The size of a datagram

`UDPBufferSize` is meant to be the size of the largest datagram. `gossip` and
`sendMsgPiggyback` each compute from it how many bytes of broadcasts there is room for,
subtracting what the packing will add: the head of a compound, two bytes for the length
of each message, the overhead of the encryption. `packUdp` adds one thing more, the five
bytes of the checksum header, and `sendMsgPiggyback` also packs the length of its own
message. Neither is subtracted.

`datagramSize` is the size of what `packUdp` makes of a payload. A run hands the transport
exactly one datagram of that size for each of its payloads, in order (`run_sizes`). The
collected messages keep to the budget whatever the queue holds and whatever an
application that respects its contract adds (`getBroadcasts_cost`), so a payload is over
by at most the bytes that were forgotten (`payloads_le`). When it is over is in `Room.lean`.
-/

namespace Mlist

open Mlist.Lib Mlist.Lib.Outcome
open TransmitCapQueue (cost cost_nil cost_cons cost_append cost_nonneg)

/-! ## Packing -/

namespace Endpoint

variable {pk : Packages} {e : Endpoint}

/-- The bytes encryption adds. -/
def overhead (e : Endpoint) : Nat :=
  if e.encryptionEnabled then versionSize + nonceSize + tagSize else 0

/-- The size of the datagram `packUdp` makes of a message, if it makes one. -/
def datagramSize (pk : Packages) (e : Endpoint) (msg : Bytes) : Option Nat :=
  match e.shrink pk msg with
  | .ok body => some (5 + body.length + e.overhead)
  | .error _ => none

/-- If the member encrypts, it does so with the version there is. -/
def Supported (e : Endpoint) : Prop :=
  e.encryptionEnabled = true → e.encryptionVersion ≤ maxEncryptionVersion

theorem getPrimaryKey_mem (h : e.encryptionEnabled = true) : e.getPrimaryKey ∈ e.getKeys := by
  unfold encryptionEnabled at h
  unfold getPrimaryKey
  cases hk : e.keyring with
  | none => simp [getKeys, hk] at h
  | some r =>
    unfold getKeys at h ⊢
    rw [hk] at h ⊢
    dsimp only at h ⊢
    unfold Keyring.getKeys Keyring.getPrimaryKey at *
    cases hp : r.val.primaryKey with
    | none => simp [hp] at h
    | some p => exact List.mem_cons_self

/-- `packUdp` fails with the compression, and otherwise makes a datagram of the expected
size. -/
theorem packUdp_spec (htag : pk.gcm.Tagged tagSize) (hsup : e.Supported) (nonce : Nonce)
    (msg : Bytes) :
    (∃ err, e.packUdp pk nonce msg = .error err ∧ e.datagramSize pk msg = none) ∨
      ∃ d, e.packUdp pk nonce msg = .ok d ∧ e.datagramSize pk msg = some d.length := by
  unfold packUdp datagramSize
  cases e.shrink pk msg with
  | error err => exact .inl ⟨err, rfl, rfl⟩
  | ok body =>
    refine .inr ?_
    rw [ofExcept_ok, ok_bind]
    dsimp only
    have hcrc : (addCrc body).length = 5 + body.length := by
      unfold addCrc
      rw [List.length_cons, List.length_append, putUint32_length]
      omega
    unfold overhead
    by_cases henc : e.encryptionEnabled = true
    · have hkey := getKeys_valid (getPrimaryKey_mem henc)
      rw [if_pos henc, if_pos henc]
      refine ⟨_, encrypt_eq (hsup henc) hkey, ?_⟩
      rw [sealedMsg_length htag, hcrc, Nat.add_comm]
    · rw [if_neg henc, if_neg henc]
      exact ⟨_, rfl, by rw [hcrc]; rfl⟩

/-- Compression never makes a message longer. -/
theorem datagramSize_le {msg : Bytes} {n : Nat} (h : e.datagramSize pk msg = some n) :
    n ≤ 5 + msg.length + e.overhead := by
  unfold datagramSize at h
  split at h
  next body hbody =>
    have hle : body.length ≤ msg.length := by
      unfold shrink at hbody
      split at hbody
      next =>
        cases hc : compress pk msg with
        | error err =>
          rw [hc] at hbody
          cases hbody
        | ok c =>
          rw [hc] at hbody
          obtain rfl := Except.ok.inj hbody
          split <;> omega
      next =>
        obtain rfl := Except.ok.inj hbody
        exact Nat.le_refl _
    obtain rfl := Option.some.inj h
    omega
  next => cases h

/-- Without compression a message is packed as it is. -/
theorem datagramSize_plain (h : e.enableCompression = false) (msg : Bytes) :
    e.datagramSize pk msg = some (5 + msg.length + e.overhead) := by
  unfold datagramSize shrink
  rw [h]
  rfl

/-- The bytes the encryption adds are subtracted, if the version is one there is. -/
theorem withoutOverhead_spec {n : Int} (hlo : -2 ^ 63 ≤ n - e.overhead) (hhi : n < 2 ^ 63) :
    e.Supported ∧ e.withoutOverhead n = .ok (n - e.overhead) ∨
      (e.encryptionEnabled = true ∧ e.encryptionVersion > maxEncryptionVersion) ∧
        e.withoutOverhead n = .crash "unsupported version" := by
  unfold withoutOverhead Supported encryptOverhead
  unfold overhead at hlo ⊢
  by_cases henc : e.encryptionEnabled = true
  · rw [if_pos henc, if_pos henc]
    by_cases hv : e.encryptionVersion = 0
    · rw [if_pos henc] at hlo
      rw [if_pos hv, ok_bind, hv]
      exact .inl ⟨fun _ => by decide, congrArg Outcome.ok (wrapInt_eq hlo (by omega))⟩
    · rw [if_neg hv, crash_bind]
      refine .inr ⟨⟨henc, ?_⟩, rfl⟩
      exact UInt8.lt_iff_toNat_lt.mpr (Nat.pos_of_ne_zero fun h => hv (UInt8.toNat_inj.mp h))
  · rw [if_neg henc, if_neg henc]
    exact .inl ⟨fun h => absurd h henc, by rw [Int.natCast_zero, Int.sub_zero]⟩

end Endpoint

/-! ## Collecting -/

/-- A compound takes up its head, and for each message its length and itself. -/
theorem packCompoundMsg_length (msgs : List Bytes) :
    ((packCompoundMsg msgs).length : Int) = compoundHeaderOverhead + cost lenMsgOverhead msgs := by
  have hbody : ((msgs.flatMap (fun m => putUint16 m.length) ++ msgs.flatten).length : Int) =
      cost lenMsgOverhead msgs := by
    rw [List.length_append]
    induction msgs with
    | nil => rfl
    | cons m msgs ih =>
      rw [List.flatMap_cons, List.flatten_cons, List.length_append, List.length_append, cost_cons,
        ← ih]
      show ((2 + _ + (_ + _) : Nat) : Int) = (m.length : Int) + 2 + _
      omega
  unfold packCompoundMsg
  rw [List.length_cons, List.length_cons, ← hbody]
  unfold compoundHeaderOverhead
  omega

theorem splitToCompoundMsgs_le (msgs : List Bytes) : ∀ p ∈ splitToCompoundMsgs msgs,
    (p.length : Int) ≤ compoundHeaderOverhead + cost lenMsgOverhead msgs := by
  fun_induction splitToCompoundMsgs msgs with
  | case1 msgs hlen ih =>
    intro p hp
    have hsplit := cost_append lenMsgOverhead (msgs.take maxMsgs) (msgs.drop maxMsgs)
    rw [List.take_append_drop] at hsplit
    rcases List.mem_cons.mp hp with rfl | hp
    · have hrest : 0 ≤ cost lenMsgOverhead (msgs.drop maxMsgs) := cost_nonneg (by decide) _
      rw [packCompoundMsg_length]
      omega
    · have hfirst : 0 ≤ cost lenMsgOverhead (msgs.take maxMsgs) := cost_nonneg (by decide) _
      have hle := ih p hp
      omega
  | case2 msgs =>
    intro p hp
    obtain rfl := List.mem_singleton.mp hp
    exact Int.le_of_eq (packCompoundMsg_length msgs)
  | case3 =>
    intro p hp
    cases hp

theorem gossipPackets_le (msgs : List Bytes) : ∀ p ∈ gossipPackets msgs,
    (p.length : Int) ≤ compoundHeaderOverhead + cost lenMsgOverhead msgs := by
  unfold gossipPackets
  split
  next msg =>
    intro p hp
    rw [List.mem_singleton.mp hp]
    show (msg.length : Int) ≤ 2 + (msg.length + 2 + 0)
    omega
  next => exact splitToCompoundMsgs_le msgs

/-- The application keeps to the limit it is given. -/
def UserBroadcasts.Respects {σ : Type} (u : UserBroadcasts σ) : Prop :=
  ∀ st overhead limit, 0 ≤ limit → cost overhead (u.getBroadcasts st overhead limit).1 ≤ limit

/-- The type byte in front of a user message is what the larger overhead pays for. -/
theorem cost_user (overhead : Int) (umsgs : List Bytes) :
    cost overhead (umsgs.map (MsgType.user.code :: ·)) =
      cost (overhead + userMsgOverhead) umsgs := by
  induction umsgs with
  | nil => rfl
  | cons m umsgs ih =>
    rw [List.map_cons, cost_cons, cost_cons, ih]
    show ((m.length + 1 : Nat) : Int) + _ + _ = (m.length : Int) + (_ + 1) + _
    omega

section Sending

variable {H σ : Type} [Heap H (TransmitCapItem Bytes)] {out : Outbound σ} {e : Endpoint}

/-- The queue is one that can have come about, and its messages are no more bytes than an `int`
can count. -/
structure Sender.Ready (s : Sender H σ) : Prop where
  inv : s.mbroadcasts.QueueInv
  countable : TransmitCapQueue.Countable lenMsgOverhead 0 s.mbroadcasts

theorem getBroadcasts_idle (out : Outbound σ) (transLimit : Int) {limit : Int}
    (h : limit ≤ lenMsgOverhead) (s : Sender H σ) :
    getBroadcasts out transLimit lenMsgOverhead limit s = ([], s) :=
  if_pos h

/-- Without an application only the queue is asked. -/
theorem getBroadcasts_alone (h : out.ubroadcasts = none) (transLimit : Int) {limit : Int}
    (hl : lenMsgOverhead < limit) (s : Sender H σ) :
    getBroadcasts out transLimit lenMsgOverhead limit s =
      ((s.mbroadcasts.getMessages transLimit lenMsgOverhead limit).1,
        { s with
          mbroadcasts := (s.mbroadcasts.getMessages transLimit lenMsgOverhead limit).2 }) := by
  unfold getBroadcasts
  rw [if_neg (by omega), h]

/-- What the queue hands out keeps to the limit. -/
theorem Sender.Ready.cost_le {s : Sender H σ} (hs : s.Ready) (transLimit : Int) {limit : Int}
    (hl : lenMsgOverhead < limit) :
    0 ≤ cost lenMsgOverhead (s.mbroadcasts.getMessages transLimit lenMsgOverhead limit).1 ∧
      cost lenMsgOverhead (s.mbroadcasts.getMessages transLimit lenMsgOverhead limit).1 ≤
        limit := by
  have ho : 0 ≤ lenMsgOverhead := by decide
  have hle := TransmitCapQueue.getMessages_cost ho hs.countable transLimit limit
  exact ⟨cost_nonneg ho _, by omega⟩

/-- The application is asked for what fits into the rest: none of the sums wraps around. -/
theorem getBroadcasts_joint {u : UserBroadcasts σ} (h : out.ubroadcasts = some u)
    (transLimit : Int) {limit : Int} (hl : lenMsgOverhead < limit) (hmax : limit < 2 ^ 63)
    {s : Sender H σ} (hs : s.Ready) {msgs : List Bytes} {q : TransmitCapQueue H Bytes}
    (hq : s.mbroadcasts.getMessages transLimit lenMsgOverhead limit = (msgs, q)) :
    getBroadcasts out transLimit lenMsgOverhead limit s =
      (msgs ++ (u.getBroadcasts s.user (lenMsgOverhead + userMsgOverhead)
          (limit - cost lenMsgOverhead msgs)).1.map (MsgType.user.code :: ·),
        { s with
          mbroadcasts := q
          user := (u.getBroadcasts s.user (lenMsgOverhead + userMsgOverhead)
            (limit - cost lenMsgOverhead msgs)).2 }) := by
  have hcost := hs.cost_le transLimit hl
  rw [hq] at hcost
  obtain ⟨hnonneg, hle⟩ : 0 ≤ cost lenMsgOverhead msgs ∧ cost lenMsgOverhead msgs ≤ limit := hcost
  have hl : 2 < limit := hl
  have hsum : wrapInt (msgs.map fun msg => (msg.length : Int) + lenMsgOverhead).sum =
      cost lenMsgOverhead msgs := by
    show wrapInt (cost lenMsgOverhead msgs) = _
    exact wrapInt_eq (by omega) (by omega)
  unfold getBroadcasts
  rw [if_neg (show ¬ limit ≤ lenMsgOverhead from not_le.mpr hl), hq, h]
  dsimp only
  rw [hsum, wrapInt_eq (x := limit - cost lenMsgOverhead msgs) (by omega) (by omega)]
  rfl

/-- What is collected costs no more than the limit, wherever it comes from. -/
theorem getBroadcasts_cost (hu : ∀ u, out.ubroadcasts = some u → u.Respects)
    (transLimit : Int) {limit : Int} (hmax : limit < 2 ^ 63) {s : Sender H σ} (hs : s.Ready)
    (hne : (getBroadcasts out transLimit lenMsgOverhead limit s).1 ≠ []) :
    cost lenMsgOverhead (getBroadcasts out transLimit lenMsgOverhead limit s).1 ≤ limit := by
  by_cases hl : limit ≤ lenMsgOverhead
  · rw [getBroadcasts_idle out transLimit hl] at hne
    exact absurd rfl hne
  · have hl : lenMsgOverhead < limit := by omega
    obtain ⟨-, hle⟩ := hs.cost_le transLimit hl
    cases happ : out.ubroadcasts with
    | none =>
      rw [getBroadcasts_alone happ transLimit hl]
      exact hle
    | some u =>
      obtain ⟨msgs, q, hq⟩ : ∃ msgs q,
          s.mbroadcasts.getMessages transLimit lenMsgOverhead limit = (msgs, q) := ⟨_, _, rfl⟩
      rw [hq] at hle
      rw [getBroadcasts_joint happ transLimit hl hmax hs hq, cost_append, cost_user]
      have hle : cost lenMsgOverhead msgs ≤ limit := hle
      have hrest := hu u happ s.user (lenMsgOverhead + userMsgOverhead)
        (limit - cost lenMsgOverhead msgs) (by omega)
      omega

/-- Collecting leaves the queue in order. -/
theorem getBroadcasts_ready (out : Outbound σ) (transLimit limit : Int) {s : Sender H σ}
    (hs : s.Ready) : (getBroadcasts out transLimit lenMsgOverhead limit s).2.Ready := by
  have hdrained : ∀ user packed sent, Sender.Ready
      { mbroadcasts := (s.mbroadcasts.getMessages transLimit lenMsgOverhead limit).2,
        user, packed, sent : Sender H σ } := by
    intro user packed sent
    refine ⟨TransmitCapQueue.getMessages_inv hs.inv transLimit lenMsgOverhead limit, ?_⟩
    have hle := TransmitCapQueue.getMessages_queued hs.inv (show 0 ≤ lenMsgOverhead by decide)
      transLimit limit
    have hc := hs.countable
    unfold TransmitCapQueue.Countable at hc ⊢
    dsimp only
    omega
  unfold getBroadcasts
  split
  next => exact hs
  next =>
    dsimp only
    split
    next => exact hdrained _ _ _
    next => exact hdrained _ _ _

/-! ## Sending -/

/-- `s'` is `s` after these payloads were handed to `packUdp`: the transport was given a
datagram for each one that could be packed, and nothing else changed. -/
structure Sends (out : Outbound σ) (e : Endpoint) (payloads : List Bytes) (s s' : Sender H σ) :
    Prop where
  sent : ∃ new, s'.sent = s.sent ++ new ∧
    new.map (·.2.length) = payloads.filterMap (e.datagramSize out.pk)
  mbroadcasts : s'.mbroadcasts = s.mbroadcasts
  user : s'.user = s.user

omit [Heap H (TransmitCapItem Bytes)] in
theorem Sends.append {p p' : List Bytes} {s s' s'' : Sender H σ} (h : Sends out e p s s')
    (h' : Sends out e p' s' s'') : Sends out e (p ++ p') s s'' := by
  obtain ⟨new, hsent, hsizes⟩ := h.sent
  obtain ⟨new', hsent', hsizes'⟩ := h'.sent
  refine ⟨⟨new ++ new', ?_, ?_⟩, h'.mbroadcasts.trans h.mbroadcasts, h'.user.trans h.user⟩
  · rw [hsent', hsent, List.append_assoc]
  · rw [List.map_append, hsizes, hsizes', List.filterMap_append]

omit [Heap H (TransmitCapItem Bytes)] in
theorem sendUdp_spec (htag : out.pk.gcm.Tagged tagSize) (hsup : e.Supported) (addr : UDPAddr)
    (msg : Bytes) (s : Sender H σ) :
    ∃ r s', sendUdp out e addr msg s = .ok (r, s') ∧ Sends out e [msg] s s' := by
  unfold sendUdp
  rcases Endpoint.packUdp_spec htag hsup (out.nonces s.packed) msg with
    ⟨err, hpack, hsize⟩ | ⟨d, hpack, hsize⟩
  · rw [hpack]
    refine ⟨_, _, rfl, ⟨[], (List.append_nil _).symm, ?_⟩, rfl, rfl⟩
    rw [List.filterMap_cons_none hsize]
    rfl
  · rw [hpack]
    refine ⟨_, _, rfl, ⟨[(addr, d)], rfl, ?_⟩, rfl, rfl⟩
    rw [List.filterMap_cons_some hsize]
    rfl

omit [Heap H (TransmitCapItem Bytes)] in
theorem sendEach_spec (htag : out.pk.gcm.Tagged tagSize) (hsup : e.Supported) (addr : UDPAddr) :
    ∀ (msgs : List Bytes) (s : Sender H σ),
      ∃ s', sendEach out e addr msgs s = .ok s' ∧ Sends out e msgs s s'
  | [], s => ⟨s, rfl, ⟨[], (List.append_nil _).symm, rfl⟩, rfl, rfl⟩
  | msg :: msgs, s => by
    obtain ⟨r, s₁, h₁, hs₁⟩ := sendUdp_spec htag hsup addr msg s
    obtain ⟨s₂, h₂, hs₂⟩ := sendEach_spec htag hsup addr msgs s₁
    refine ⟨s₂, ?_, hs₁.append hs₂⟩
    unfold sendEach
    rw [h₁, ok_bind]
    exact h₂

/-- Collecting gives nothing to the transport. -/
theorem getBroadcasts_sent (out : Outbound σ) (transLimit overhead limit : Int) (s : Sender H σ) :
    (getBroadcasts out transLimit overhead limit s).2.sent = s.sent := by
  unfold getBroadcasts
  split
  next => rfl
  next =>
    dsimp only
    split <;> rfl

/-- Collecting looks at the two sources only. -/
theorem getBroadcasts_congr (out : Outbound σ) (transLimit overhead limit : Int)
    {s s' : Sender H σ} (hq : s'.mbroadcasts = s.mbroadcasts) (hu : s'.user = s.user) :
    (getBroadcasts out transLimit overhead limit s').1 =
        (getBroadcasts out transLimit overhead limit s).1 ∧
      (getBroadcasts out transLimit overhead limit s').2.mbroadcasts =
        (getBroadcasts out transLimit overhead limit s).2.mbroadcasts ∧
      (getBroadcasts out transLimit overhead limit s').2.user =
        (getBroadcasts out transLimit overhead limit s).2.user := by
  unfold getBroadcasts
  rw [hq, hu]
  split
  next => exact ⟨rfl, hq, hu⟩
  next =>
    dsimp only
    split
    next => exact ⟨rfl, rfl, rfl⟩
    next => exact ⟨rfl, rfl, rfl⟩

/-- The payloads `gossip` hands to `packUdp` for these members. -/
def gossipPayloads (out : Outbound σ) (remainingBytes : Int) :
    List GossipTarget → Sender H σ → List Bytes
  | [], _ => []
  | node :: nodes, s =>
    let (msgs, s) := getBroadcasts out node.transLimit lenMsgOverhead remainingBytes s
    if msgs.length = 0 then [] else gossipPackets msgs ++ gossipPayloads out remainingBytes nodes s

theorem gossipPayloads_congr (remainingBytes : Int) : ∀ (nodes : List GossipTarget)
    {s s' : Sender H σ}, s'.mbroadcasts = s.mbroadcasts → s'.user = s.user →
      gossipPayloads out remainingBytes nodes s' = gossipPayloads out remainingBytes nodes s
  | [], _, _, _, _ => rfl
  | node :: nodes, s, s', hq, hu => by
    obtain ⟨hmsgs, hq', hu'⟩ :=
      getBroadcasts_congr out node.transLimit lenMsgOverhead remainingBytes hq hu
    unfold gossipPayloads
    dsimp only
    rw [hmsgs, gossipPayloads_congr remainingBytes nodes hq' hu']

/-- What the loop gives to the transport. -/
theorem gossipTo_spec (htag : out.pk.gcm.Tagged tagSize) (hsup : e.Supported)
    (remainingBytes : Int) : ∀ (nodes : List GossipTarget) (s : Sender H σ),
      ∃ s' new, gossipTo out e remainingBytes nodes s = .ok s' ∧ s'.sent = s.sent ++ new ∧
        new.map (·.2.length) =
          (gossipPayloads out remainingBytes nodes s).filterMap (e.datagramSize out.pk)
  | [], s => ⟨s, [], rfl, (List.append_nil _).symm, rfl⟩
  | node :: nodes, s => by
    unfold gossipTo gossipPayloads
    have hsent := getBroadcasts_sent out node.transLimit lenMsgOverhead remainingBytes s
    generalize getBroadcasts out node.transLimit lenMsgOverhead remainingBytes s = r at hsent ⊢
    obtain ⟨msgs, s₁⟩ := r
    dsimp only at hsent ⊢
    split
    next => exact ⟨s₁, [], rfl, by rw [hsent, List.append_nil], rfl⟩
    next =>
      obtain ⟨s₂, h₂, hs₂⟩ := sendEach_spec htag hsup node.addr (gossipPackets msgs) s₁
      obtain ⟨new₂, hsent₂, hsizes₂⟩ := hs₂.sent
      obtain ⟨s₃, new₃, h₃, hsent₃, hsizes₃⟩ := gossipTo_spec htag hsup remainingBytes nodes s₂
      refine ⟨s₃, new₂ ++ new₃, ?_, ?_, ?_⟩
      · rw [h₂, ok_bind, h₃]
      · rw [hsent₃, hsent₂, hsent, List.append_assoc]
      · rw [List.map_append, hsizes₂, hsizes₃, List.filterMap_append,
          gossipPayloads_congr remainingBytes nodes hs₂.mbroadcasts hs₂.user]

/-- Each of them keeps to the budget. -/
theorem gossipPayloads_le (hu : ∀ u, out.ubroadcasts = some u → u.Respects) {remainingBytes : Int}
    (hmax : remainingBytes < 2 ^ 63) :
    ∀ (nodes : List GossipTarget) {s : Sender H σ}, s.Ready →
      ∀ p ∈ gossipPayloads out remainingBytes nodes s,
        (p.length : Int) ≤ compoundHeaderOverhead + remainingBytes
  | [], _, _ => fun _ hp => by cases hp
  | node :: nodes, s, hs => by
    intro p hp
    unfold gossipPayloads at hp
    have hcost := getBroadcasts_cost hu node.transLimit hmax hs
    have hnext := getBroadcasts_ready out node.transLimit remainingBytes hs
    generalize getBroadcasts out node.transLimit lenMsgOverhead remainingBytes s = r
      at hcost hnext hp
    obtain ⟨msgs, s₁⟩ := r
    dsimp only at hcost hnext hp
    split at hp
    next => cases hp
    next hne =>
      rcases List.mem_append.mp hp with hp | hp
      · have hle := gossipPackets_le msgs p hp
        have hmsgs := hcost (fun hnil => hne (by rw [hnil]; rfl))
        omega
      · exact gossipPayloads_le hu hmax nodes hnext p hp

/-! ## Runs -/

/-- A call that sends broadcasts. -/
inductive SendOp where
  | gossip (nodes : List GossipTarget)
  | piggyback (transLimit : Int) (addr : UDPAddr) (msg : Bytes)

namespace SendOp

def run (out : Outbound σ) (e : Endpoint) : SendOp → Sender H σ → Outcome (Sender H σ)
  | .gossip nodes, s => Mlist.gossip out e nodes s
  | .piggyback transLimit addr msg, s => do
    let (_, s) ← sendMsgPiggyback out e transLimit addr msg s
    .ok s

/-- The budget of the call: what it collects broadcasts for. -/
def budget (e : Endpoint) : SendOp → Int
  | .gossip _ => e.udpBufferSize - compoundHeaderOverhead - e.overhead
  | .piggyback _ _ msg => e.udpBufferSize - msg.length - compoundHeaderOverhead - e.overhead

/-- What the call hands to `packUdp`, from this state. -/
def payloads (out : Outbound σ) (e : Endpoint) (op : SendOp) (s : Sender H σ) : List Bytes :=
  match op with
  | .gossip nodes => gossipPayloads out (op.budget e) nodes s
  | .piggyback transLimit _ msg =>
    let (piggy, _) := getBroadcasts out transLimit lenMsgOverhead (op.budget e) s
    [if piggy.length = 0 then msg else packCompoundMsg (msg :: piggy)]

/-- The message the call is made for. -/
def own : SendOp → List Bytes
  | .gossip _ => []
  | .piggyback _ _ msg => [msg]

/-- The bytes the budget of the call leaves out: the checksum header, and the length of
the message the call is made for. -/
def forgotten : SendOp → Int
  | .gossip _ => 5
  | .piggyback _ _ _ => 5 + lenMsgOverhead

theorem forgotten_nonneg (op : SendOp) : 0 ≤ op.forgotten := by
  cases op with
  | gossip nodes =>
    show (0 : Int) ≤ 5
    decide
  | piggyback transLimit addr msg =>
    show (0 : Int) ≤ 5 + lenMsgOverhead
    decide

/-- A call stops before it sends anything, or gives the transport one datagram for each
payload that can be packed. -/
theorem run_sizes (htag : out.pk.gcm.Tagged tagSize) {op : SendOp} (hlo : -2 ^ 63 ≤ op.budget e)
    (hhi : e.udpBufferSize < 2 ^ 63) (s : Sender H σ) :
    (∃ s' new, op.run out e s = .ok s' ∧ s'.sent = s.sent ++ new ∧
      new.map (·.2.length) = (op.payloads out e s).filterMap (e.datagramSize out.pk)) ∨
    (e.encryptionEnabled = true ∧ e.encryptionVersion > maxEncryptionVersion) ∧
      op.run out e s = .crash "unsupported version" := by
  cases op with
  | gossip nodes =>
    dsimp only [run, payloads, budget] at hlo ⊢
    have hsmall : e.udpBufferSize - compoundHeaderOverhead < 2 ^ 63 := by
      unfold compoundHeaderOverhead
      omega
    unfold Mlist.gossip
    rw [wrapInt_eq (by omega) hsmall]
    rcases e.withoutOverhead_spec hlo hsmall with
      ⟨hsup, hok⟩ | ⟨hver, hcrash⟩
    · rw [hok, ok_bind]
      exact .inl (gossipTo_spec htag hsup _ nodes s)
    · rw [hcrash, crash_bind]
      exact .inr ⟨hver, rfl⟩
  | piggyback transLimit addr msg =>
    dsimp only [run, payloads]
    have hsmall : e.udpBufferSize - msg.length - compoundHeaderOverhead < 2 ^ 63 := by
      unfold compoundHeaderOverhead
      omega
    unfold sendMsgPiggyback
    rw [wrapInt_eq (by dsimp only [budget] at hlo; omega) hsmall]
    rcases e.withoutOverhead_spec hlo hsmall with
      ⟨hsup, hok⟩ | ⟨hver, hcrash⟩
    · rw [show _ = Outcome.ok ((SendOp.piggyback transLimit addr msg).budget e) from hok, ok_bind]
      have hsent := getBroadcasts_sent out transLimit lenMsgOverhead
        ((SendOp.piggyback transLimit addr msg).budget e) s
      generalize getBroadcasts out transLimit lenMsgOverhead _ s = r at hsent ⊢
      obtain ⟨piggy, s₁⟩ := r
      dsimp only at hsent ⊢
      -- with or without broadcasts on board it is one datagram
      have hsend : ∀ payload, ∃ s' new,
          (sendUdp out e addr payload s₁ >>= fun r => Outcome.ok r.2) = .ok s' ∧
          s'.sent = s.sent ++ new ∧
          new.map (·.2.length) = [payload].filterMap (e.datagramSize out.pk) := by
        intro payload
        obtain ⟨_, s₂, h₂, hs₂⟩ := sendUdp_spec htag hsup addr payload s₁
        obtain ⟨new, hnew, hsizes⟩ := hs₂.sent
        exact ⟨s₂, new, by rw [h₂, ok_bind], by rw [hnew, hsent], hsizes⟩
      refine .inl ?_
      by_cases hp : piggy.length = 0
      · rw [if_pos hp, if_pos hp]
        exact hsend msg
      · rw [if_neg hp, if_neg hp]
        exact hsend (packCompoundMsg (msg :: piggy))
    · rw [hcrash, crash_bind, crash_bind]
      exact .inr ⟨hver, rfl⟩

/-- The budget is no more than the buffer. -/
theorem budget_le (op : SendOp) (e : Endpoint) : op.budget e ≤ e.udpBufferSize := by
  have hhead : 0 ≤ compoundHeaderOverhead := by decide
  cases op with
  | gossip nodes =>
    dsimp only [budget]
    omega
  | piggyback transLimit addr msg =>
    dsimp only [budget]
    omega

/-- A payload is the call's own message, or over the budget by what the budget leaves
out at most. -/
theorem payloads_le (hu : ∀ u, out.ubroadcasts = some u → u.Respects) (op : SendOp)
    (hhi : e.udpBufferSize < 2 ^ 63) {s : Sender H σ} (hs : s.Ready) :
    ∀ p ∈ op.payloads out e s,
      p ∈ op.own ∨ (p.length : Int) + 5 + e.overhead ≤ e.udpBufferSize + op.forgotten := by
  intro p hp
  have hmax : op.budget e < 2 ^ 63 := Int.lt_of_le_of_lt (op.budget_le e) hhi
  cases op with
  | gossip nodes =>
    dsimp only [payloads] at hp
    have hle := gossipPayloads_le hu hmax nodes hs p hp
    refine .inr ?_
    dsimp only [forgotten, budget] at hle ⊢
    omega
  | piggyback transLimit addr msg =>
    dsimp only [payloads] at hp
    have hcost := getBroadcasts_cost hu transLimit hmax hs
    generalize getBroadcasts out transLimit lenMsgOverhead _ s = r at hcost hp
    obtain ⟨piggy, s₁⟩ := r
    dsimp only at hcost hp
    split at hp
    next => exact .inl hp
    next hne =>
      refine .inr ?_
      have hpiggy := hcost (fun hnil => hne (by rw [hnil]; rfl))
      have hlen := packCompoundMsg_length (msg :: piggy)
      have hmsg : ((Encoded.len msg : Nat) : Int) = msg.length := rfl
      rw [cost_cons, hmsg] at hlen
      rw [List.mem_singleton.mp hp, hlen]
      dsimp only [forgotten, budget] at hpiggy ⊢
      omega

end SendOp

end Sending

/-! ## Concrete senders -/

/-- The heap that is its list of items, for a queue of encoded messages. -/
instance byteHeap : Heap (List (TransmitCapItem Bytes)) (TransmitCapItem Bytes) :=
  listHeap TransmitCapItem.less_asymm TransmitCapItem.less_trans_false

/-- An application with one message of two bytes. -/
def shortBroadcast : UserBroadcasts Unit where
  getBroadcasts := fun st overhead limit => (if 2 + overhead ≤ limit then [[0, 0]] else [], st)

theorem shortBroadcast_respects : shortBroadcast.Respects := by
  intro st overhead limit hlimit
  dsimp only [shortBroadcast]
  split
  next h =>
    show (2 : Int) + overhead + 0 ≤ limit
    omega
  next => exact hlimit

def sampleOutbound (ubroadcasts : Option (UserBroadcasts Unit)) : Outbound Unit where
  pk := samplePackages []
  ubroadcasts
  nonces := fun _ => sampleNonce
  transport := fun _ _ _ => none

/-- A member that neither compresses nor encrypts, for a given `UDPBufferSize`. -/
def sizedEndpoint (udpBufferSize : Int) : Endpoint where
  label := []
  enableCompression := false
  encryptionVersion := 0
  udpBufferSize
  keyring := none

/-- Two queued broadcasts, of 25 and of 20 bytes. -/
def twoQueued : Sender (List (TransmitCapItem Bytes)) Unit where
  mbroadcasts := (TransmitCapQueue.new.queueMsg "" (List.replicate 25 0) none).queueMsg ""
    (List.replicate 20 0) none
  user := ()
  packed := 0
  sent := []

theorem twoQueued_inv : twoQueued.mbroadcasts.QueueInv := by
  unfold twoQueued
  dsimp only
  exact TransmitCapQueue.queueMsg_inv
    (TransmitCapQueue.queueMsg_inv TransmitCapQueue.new_inv _ _ _) _ _ _

def sampleAddr : UDPAddr := ⟨[127, 0, 0, 1], 7946⟩

end Mlist
