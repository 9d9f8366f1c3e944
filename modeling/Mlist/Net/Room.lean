import Mlist.Net.Budget

/-!
# When a datagram fits

The budget of a call is short of the bytes it leaves out, so the datagrams are too large when a
batch comes close to the budget. Whether it does is a matter of lengths: of the message the call
is made for, of the queued ones and of those the application adds. `Load` is that much of a
sender. One batch of it is first fit from the queue, and then what the application makes of the
rest (`Load.batch`); `getBroadcasts` collects messages of just these sizes
(`getBroadcasts_batch`).

`SendOp.Fits` is the condition on the lengths. Batch by batch, it asks for 5 bytes to spare, 7 if
the call packs a message of its own; a single broadcast is sent as it is, so that only 1 is
needed. It is what makes all the datagrams fit, and without compression nothing less does.
-/

namespace Mlist

open Mlist.Lib Mlist.Lib.Outcome
open TransmitCapQueue (cost)

/-! ## The sizes of a batch -/

section Load

variable {σ : Type}

/-- What there is to broadcast, as far as sizes go. -/
structure Load (σ : Type) where
  ranks : List Rank
  user : σ

/-- What each of these messages takes up in a compound. -/
def costs (msgs : List Bytes) : List Int := msgs.map fun m => (m.length : Int) + lenMsgOverhead

/-- What the messages of one batch take up, and what there is to broadcast afterwards. -/
def Load.batch (u : Option (UserBroadcasts σ)) (transLimit budget : Int) (l : Load σ) :
    List Int × Load σ :=
  if budget ≤ lenMsgOverhead then ([], l)
  else
    let (taken, left) :=
      firstFit (Rank.need lenMsgOverhead) (Rank.cost lenMsgOverhead) budget 0 l.ranks
    let again := (taken.map Rank.bumped).filter fun r => decide ((r.transmits : Int) < transLimit)
    let queued := taken.map (Rank.cost lenMsgOverhead)
    match u with
    | none => (queued, { l with ranks := Rank.sort (again ++ left) })
    | some u =>
      let (umsgs, user) :=
        u.getBroadcasts l.user (lenMsgOverhead + userMsgOverhead) (budget - queued.sum)
      (queued ++ umsgs.map (fun m => (m.length : Int) + (lenMsgOverhead + userMsgOverhead)),
        { ranks := Rank.sort (again ++ left), user })

theorem Load.batch_idle (u : Option (UserBroadcasts σ)) (transLimit : Int) {budget : Int}
    (h : budget ≤ lenMsgOverhead) (l : Load σ) : l.batch u transLimit budget = ([], l) :=
  if_pos h

section Batch

variable {l : Load σ} {budget : Int} {taken left : List Rank} (transLimit : Int)
  (hl : lenMsgOverhead < budget)
  (hfit : firstFit (Rank.need lenMsgOverhead) (Rank.cost lenMsgOverhead) budget 0 l.ranks =
    (taken, left))

include hl hfit

theorem Load.batch_alone :
    l.batch none transLimit budget = (taken.map (Rank.cost lenMsgOverhead),
      { l with ranks := Rank.sort ((taken.map Rank.bumped).filter
          (fun r => decide ((r.transmits : Int) < transLimit)) ++ left) }) := by
  unfold Load.batch
  rw [if_neg (by omega), hfit]

theorem Load.batch_joint (u : UserBroadcasts σ) {umsgs : List Bytes} {user : σ}
    (happ : u.getBroadcasts l.user (lenMsgOverhead + userMsgOverhead)
      (budget - (taken.map (Rank.cost lenMsgOverhead)).sum) = (umsgs, user)) :
    l.batch (some u) transLimit budget = (taken.map (Rank.cost lenMsgOverhead) ++
        umsgs.map (fun m => (m.length : Int) + (lenMsgOverhead + userMsgOverhead)),
      { ranks := Rank.sort ((taken.map Rank.bumped).filter
          (fun r => decide ((r.transmits : Int) < transLimit)) ++ left), user }) := by
  unfold Load.batch
  rw [if_neg (by omega), hfit]
  simp only [happ]

end Batch

/-- A batch of `gossip` leaves 5 bytes of the budget to spare in each compound of 255 messages,
or 1 if it is a single message. -/
def BatchFits (budget : Int) : List Int → Prop
  | [] => True
  | [c] => c ≤ budget - 1
  | costs => ∀ k < (costs.length + 254) / 255,
      ((costs.drop (255 * k)).take 255).sum ≤ budget - 5

instance (budget : Int) (costs : List Int) : Decidable (BatchFits budget costs) := by
  unfold BatchFits
  split <;> infer_instance

/-- Every batch of `gossip` does, up to the first one with nothing in it. -/
def GossipFits (u : Option (UserBroadcasts σ)) (budget : Int) : List GossipTarget → Load σ → Prop
  | [], _ => True
  | node :: nodes, l =>
    let (costs, l) := l.batch u node.transLimit budget
    costs = [] ∨ BatchFits budget costs ∧ GossipFits u budget nodes l

/-- The lengths leave room for what the budget of the call does not count. -/
def SendOp.Fits (u : Option (UserBroadcasts σ)) (e : Endpoint) (op : SendOp) (l : Load σ) : Prop :=
  match op with
  | .gossip nodes => GossipFits u (op.budget e) nodes l
  | .piggyback transLimit _ _ =>
    let (costs, _) := l.batch u transLimit (op.budget e)
    costs = [] ∨ costs.sum ≤ op.budget e - 7

end Load

/-! ## The packets of a batch -/

theorem cost_eq_sum (msgs : List Bytes) : cost lenMsgOverhead msgs = (costs msgs).sum := rfl

/-- The compounds of a batch are its blocks of 255 messages. -/
theorem mem_splitToCompoundMsgs {msgs : List Bytes} {p : Bytes} :
    p ∈ splitToCompoundMsgs msgs ↔
      ∃ k, 255 * k < msgs.length ∧ p = packCompoundMsg ((msgs.drop (255 * k)).take 255) := by
  fun_induction splitToCompoundMsgs msgs with
  | case1 msgs hlen ih =>
    unfold maxMsgs at *
    -- block 0 is the first compound, block k + 1 of the list is block k of the rest
    rw [List.mem_cons, ih]
    constructor
    · rintro (rfl | ⟨k, hk, rfl⟩)
      · exact ⟨0, by omega, rfl⟩
      · rw [List.length_drop] at hk
        refine ⟨k + 1, by omega, ?_⟩
        rw [List.drop_drop, Nat.mul_succ, Nat.add_comm]
    · rintro ⟨k, hk, rfl⟩
      cases k with
      | zero => exact .inl rfl
      | succ k =>
        refine .inr ⟨k, ?_, ?_⟩
        · rw [List.length_drop]
          omega
        · rw [List.drop_drop, Nat.mul_succ, Nat.add_comm]
  | case2 msgs hshort hpos =>
    unfold maxMsgs at hshort
    rw [List.mem_singleton]
    constructor
    · rintro rfl
      refine ⟨0, by omega, ?_⟩
      rw [Nat.mul_zero, List.drop_zero, List.take_of_length_le (by omega)]
    · rintro ⟨k, hk, rfl⟩
      obtain rfl : k = 0 := by omega
      rw [Nat.mul_zero, List.drop_zero, List.take_of_length_le (by omega)]
  | case3 msgs hshort hnone =>
    refine ⟨fun hp => absurd hp List.not_mem_nil, ?_⟩
    rintro ⟨k, hk, -⟩
    omega

/-- The packets of a batch, with what `packUdp` adds to each, fit exactly if the batch does. -/
theorem gossipPackets_fit_iff {msgs : List Bytes} (hne : msgs ≠ []) (budget : Int) :
    (∀ p ∈ gossipPackets msgs, (p.length : Int) ≤ budget - 3) ↔ BatchFits budget (costs msgs) := by
  match msgs, hne with
  | [msg], _ =>
    show (∀ p ∈ [msg], (p.length : Int) ≤ budget - 3) ↔ (msg.length : Int) + 2 ≤ budget - 1
    rw [List.forall_mem_singleton]
    omega
  | msg :: msg' :: msgs, _ =>
    show (∀ p ∈ splitToCompoundMsgs (msg :: msg' :: msgs), (p.length : Int) ≤ budget - 3) ↔
      ∀ k < ((costs (msg :: msg' :: msgs)).length + 254) / 255,
        (((costs (msg :: msg' :: msgs)).drop (255 * k)).take 255).sum ≤ budget - 5
    generalize msg :: msg' :: msgs = batch
    have hblock : ∀ k, ((packCompoundMsg ((batch.drop (255 * k)).take 255)).length : Int) =
        2 + (((costs batch).drop (255 * k)).take 255).sum := by
      intro k
      rw [packCompoundMsg_length, cost_eq_sum]
      unfold costs compoundHeaderOverhead
      rw [List.map_take, List.map_drop]
    have hcount : (costs batch).length = batch.length := List.length_map _
    constructor
    · intro h k hk
      have hle := h _ (mem_splitToCompoundMsgs.mpr ⟨k, by omega, rfl⟩)
      rw [hblock] at hle
      omega
    · intro h p hp
      obtain ⟨k, hk, rfl⟩ := mem_splitToCompoundMsgs.mp hp
      have hle := h k (by omega)
      rw [hblock]
      omega

/-! ## Calls -/

section Sending

variable {H σ : Type} [Heap H (TransmitCapItem Bytes)] {out : Outbound σ} {e : Endpoint}

def Sender.load (s : Sender H σ) : Load σ := ⟨s.mbroadcasts.ranks, s.user⟩

/-- **`getBroadcasts` collects a batch**: messages of these sizes, leaving this behind. -/
theorem getBroadcasts_batch (transLimit : Int) {budget : Int} (hmax : budget < 2 ^ 63)
    {s s' : Sender H σ} (hs : s.Ready) {msgs : List Bytes}
    (h : getBroadcasts out transLimit lenMsgOverhead budget s = (msgs, s')) :
    s.load.batch out.ubroadcasts transLimit budget = (costs msgs, s'.load) := by
  by_cases hl : budget ≤ lenMsgOverhead
  · rw [getBroadcasts_idle out transLimit hl] at h
    obtain ⟨rfl, rfl⟩ := Prod.mk.inj h
    exact Load.batch_idle _ transLimit hl _
  · have hl : lenMsgOverhead < budget := by omega
    obtain ⟨own, q, hq⟩ : ∃ own q,
        s.mbroadcasts.getMessages transLimit lenMsgOverhead budget = (own, q) := ⟨_, _, rfl⟩
    obtain ⟨taken, left, hfit⟩ : ∃ taken left,
        firstFit (Rank.need lenMsgOverhead) (Rank.cost lenMsgOverhead) budget 0 s.load.ranks =
          (taken, left) := ⟨_, _, rfl⟩
    obtain ⟨hlens, hranks⟩ := TransmitCapQueue.getMessages_ranks hs.inv
      (show 0 ≤ lenMsgOverhead by decide) hs.countable transLimit hl hfit
    rw [hq] at hlens hranks
    have hcosts : taken.map (Rank.cost lenMsgOverhead) = costs own := by
      have hsame := congrArg (List.map fun n : Nat => (n : Int) + lenMsgOverhead) hlens
      rw [List.map_map, List.map_map] at hsame
      exact hsame.symm
    cases happ : out.ubroadcasts with
    | none =>
      rw [getBroadcasts_alone happ transLimit hl, hq] at h
      obtain ⟨rfl, rfl⟩ := Prod.mk.inj h
      rw [Load.batch_alone transLimit hl hfit, hcosts, ← hranks]
      rfl
    | some u =>
      obtain ⟨umsgs, user, hu⟩ : ∃ umsgs user,
          u.getBroadcasts s.user (lenMsgOverhead + userMsgOverhead)
            (budget - cost lenMsgOverhead own) = (umsgs, user) := ⟨_, _, rfl⟩
      rw [getBroadcasts_joint happ transLimit hl hmax hs hq, hu] at h
      obtain ⟨rfl, rfl⟩ := Prod.mk.inj h
      have hu' : u.getBroadcasts s.load.user (lenMsgOverhead + userMsgOverhead)
          (budget - (taken.map (Rank.cost lenMsgOverhead)).sum) = (umsgs, user) := by
        rw [hcosts]
        exact hu
      rw [Load.batch_joint transLimit hl hfit u hu', hcosts, ← hranks]
      -- the type byte in front of a user message is what the larger overhead pays for
      have huser : umsgs.map (fun m => (m.length : Int) + (lenMsgOverhead + userMsgOverhead)) =
          costs (umsgs.map (MsgType.user.code :: ·)) := by
        unfold costs
        rw [List.map_map]
        refine List.map_congr_left fun m _ => ?_
        show (m.length : Int) + (2 + 1) = ((m.length + 1 : Nat) : Int) + 2
        omega
      rw [huser]
      show (costs own ++ costs _, _) = (costs (own ++ _), _)
      unfold costs
      rw [List.map_append]
      rfl

/-- The payloads of a gossip fit exactly if its batches do. -/
theorem gossipPayloads_fit_iff {budget : Int} (hmax : budget < 2 ^ 63) :
    ∀ (nodes : List GossipTarget) {s : Sender H σ}, s.Ready →
      ((∀ p ∈ gossipPayloads out budget nodes s, (p.length : Int) ≤ budget - 3) ↔
        GossipFits out.ubroadcasts budget nodes s.load)
  | [], _, _ => ⟨fun _ => trivial, fun _ _ hp => absurd hp List.not_mem_nil⟩
  | node :: nodes, s, hs => by
    have hnext := getBroadcasts_ready out node.transLimit budget hs
    obtain ⟨msgs, s', hget⟩ : ∃ msgs s',
        getBroadcasts out node.transLimit lenMsgOverhead budget s = (msgs, s') := ⟨_, _, rfl⟩
    rw [hget] at hnext
    unfold gossipPayloads GossipFits
    rw [hget, getBroadcasts_batch node.transLimit hmax hs hget]
    dsimp only
    cases msgs with
    | nil => exact ⟨fun _ => .inl rfl, fun _ p hp => absurd hp List.not_mem_nil⟩
    | cons msg msgs =>
      rw [if_neg (show (msg :: msgs).length ≠ 0 from Nat.succ_ne_zero _), List.forall_mem_append,
        gossipPackets_fit_iff (List.cons_ne_nil msg msgs) budget,
        gossipPayloads_fit_iff hmax nodes hnext]
      exact ⟨.inr, fun h => h.resolve_left (List.cons_ne_nil _ _)⟩

namespace SendOp

/-- What `sendMsgPiggyback` makes of its message and a batch. -/
theorem packCompoundMsg_own (msg : Bytes) (piggy : List Bytes) :
    ((packCompoundMsg (msg :: piggy)).length : Int) = msg.length + 4 + (costs piggy).sum := by
  rw [packCompoundMsg_length, TransmitCapQueue.cost_cons, cost_eq_sum]
  show (2 : Int) + (msg.length + 2 + _) = _
  omega

/-- When the lengths leave room, a payload that is not the call's own message has it. -/
theorem payloads_of_fits {op : SendOp} (hhi : e.udpBufferSize < 2 ^ 63) {s : Sender H σ}
    (hs : s.Ready) (h : op.Fits out.ubroadcasts e s.load) :
    ∀ p ∈ op.payloads out e s,
      p ∈ op.own ∨ (p.length : Int) + 5 + e.overhead ≤ e.udpBufferSize := by
  have hmax : op.budget e < 2 ^ 63 := Int.lt_of_le_of_lt (op.budget_le e) hhi
  intro p hp
  cases op with
  | gossip nodes =>
    have hle := (gossipPayloads_fit_iff hmax nodes hs).mpr h p hp
    refine .inr ?_
    dsimp only [budget, compoundHeaderOverhead] at hle
    omega
  | piggyback transLimit addr msg =>
    obtain ⟨piggy, s', hget⟩ : ∃ piggy s', getBroadcasts out transLimit lenMsgOverhead
        ((SendOp.piggyback transLimit addr msg).budget e) s = (piggy, s') := ⟨_, _, rfl⟩
    dsimp only [Fits] at h
    dsimp only [payloads] at hp
    rw [getBroadcasts_batch transLimit hmax hs hget] at h
    rw [hget] at hp
    cases piggy with
    | nil => exact .inl hp
    | cons b piggy =>
      have hsum := h.resolve_left (List.cons_ne_nil _ _)
      have hp : p = packCompoundMsg (msg :: b :: piggy) := List.mem_singleton.mp hp
      dsimp only [budget, compoundHeaderOverhead] at hsum
      refine .inr ?_
      rw [hp, packCompoundMsg_own]
      omega

/-- When all the payloads have room, the lengths leave it. -/
theorem fits_of_payloads {op : SendOp} (hhi : e.udpBufferSize < 2 ^ 63) {s : Sender H σ}
    (hs : s.Ready)
    (h : ∀ p ∈ op.payloads out e s, (p.length : Int) + 5 + e.overhead ≤ e.udpBufferSize) :
    op.Fits out.ubroadcasts e s.load := by
  have hmax : op.budget e < 2 ^ 63 := Int.lt_of_le_of_lt (op.budget_le e) hhi
  cases op with
  | gossip nodes =>
    refine (gossipPayloads_fit_iff hmax nodes hs).mp fun p hp => ?_
    have hle := h p hp
    dsimp only [budget, compoundHeaderOverhead]
    omega
  | piggyback transLimit addr msg =>
    obtain ⟨piggy, s', hget⟩ : ∃ piggy s', getBroadcasts out transLimit lenMsgOverhead
        ((SendOp.piggyback transLimit addr msg).budget e) s = (piggy, s') := ⟨_, _, rfl⟩
    dsimp only [Fits]
    dsimp only [payloads] at h
    rw [getBroadcasts_batch transLimit hmax hs hget]
    rw [hget] at h
    cases piggy with
    | nil => exact .inl rfl
    | cons b piggy =>
      have hle := h (packCompoundMsg (msg :: b :: piggy)) List.mem_cons_self
      rw [packCompoundMsg_own] at hle
      refine .inr ?_
      dsimp only [budget, compoundHeaderOverhead]
      omega

/-- **Sizes.** Take a queue that can have come about and holds no more bytes than an `int` can
count, an application that respects its contract, and a budget whose subtractions do not wrap
around. If the lengths leave room, the datagrams of a call are no larger than `UDPBufferSize`;
without compression they are so only then. They are never over it by more than the bytes the
budget leaves out. An encryption version that does not exist stops the call before anything is
sent. -/
theorem datagrams_fit_iff (out : Outbound σ) (e : Endpoint) (op : SendOp) (s : Sender H σ)
    (htag : out.pk.gcm.Tagged tagSize) (hu : ∀ u, out.ubroadcasts = some u → u.Respects)
    (hq : s.mbroadcasts.QueueInv) (hmem : s.mbroadcasts.queued 2 + 22 < 2 ^ 63)
    (hlo : -2 ^ 63 ≤ op.budget e) (hhi : e.udpBufferSize < 2 ^ 63)
    (hown : ∀ msg ∈ op.own, ∀ n, e.datagramSize out.pk msg = some n → (n : Int) ≤ e.udpBufferSize) :
    (∃ s' new, op.run out e s = .ok s' ∧ s'.sent = s.sent ++ new ∧
      (op.Fits out.ubroadcasts e s.load → ∀ x ∈ new, (x.2.length : Int) ≤ e.udpBufferSize) ∧
      (e.enableCompression = false → (∀ x ∈ new, (x.2.length : Int) ≤ e.udpBufferSize) →
        op.Fits out.ubroadcasts e s.load) ∧
      ∀ x ∈ new, (x.2.length : Int) ≤ e.udpBufferSize + op.forgotten) ∨
    (e.encryptionEnabled = true ∧ e.encryptionVersion > maxEncryptionVersion) ∧
      op.run out e s = .crash "unsupported version" := by
  have hs : s.Ready := by
    refine ⟨hq, ?_⟩
    show 0 + s.mbroadcasts.queued 2 + 2 + 20 < 2 ^ 63
    omega
  rcases run_sizes htag hlo hhi s with ⟨s', new, hrun, hsent, hsizes⟩ | hcrash
  · have hpayload : ∀ x ∈ new, ∃ p ∈ op.payloads out e s,
        e.datagramSize out.pk p = some x.2.length := by
      intro x hx
      have hmem : x.2.length ∈ new.map (·.2.length) := List.mem_map_of_mem hx
      rw [hsizes] at hmem
      exact List.mem_filterMap.mp hmem
    refine .inl ⟨s', new, hrun, hsent, fun hfits x hx => ?_, fun hplain hall => ?_, fun x hx => ?_⟩
    · obtain ⟨p, hp, hn⟩ := hpayload x hx
      rcases payloads_of_fits hhi hs hfits p hp with hmine | hle
      · exact hown p hmine _ hn
      · have hsize := Endpoint.datagramSize_le hn
        omega
    · refine fits_of_payloads hhi hs fun p hp => ?_
      -- without compression the size of a datagram tells that of its payload
      have hmem : 5 + p.length + e.overhead ∈ new.map (·.2.length) := by
        rw [hsizes]
        exact List.mem_filterMap.mpr ⟨p, hp, Endpoint.datagramSize_plain hplain p⟩
      obtain ⟨x, hx, hlen⟩ := List.mem_map.mp hmem
      have hle := hall x hx
      omega
    · obtain ⟨p, hp, hn⟩ := hpayload x hx
      rcases payloads_le hu op hhi hs p hp with hmine | hle
      · have hfits := hown p hmine _ hn
        have hpos := op.forgotten_nonneg
        omega
      · have hsize := Endpoint.datagramSize_le hn
        omega
  · exact .inr hcrash

end SendOp

end Sending

/-! ## Two runs -/

/-- With an application's message and a message of its own, encrypted. -/
theorem SendOp.datagrams_fit_iff_piggyback :
    let op : SendOp := .piggyback 3 sampleAddr [0, 1, 2]
    let out := sampleOutbound (some shortBroadcast)
    (∃ s' new, op.run out sampleSender twoQueued = .ok s' ∧ s'.sent = twoQueued.sent ++ new ∧
      (op.Fits out.ubroadcasts sampleSender twoQueued.load →
        ∀ x ∈ new, (x.2.length : Int) ≤ sampleSender.udpBufferSize) ∧
      (sampleSender.enableCompression = false →
        (∀ x ∈ new, (x.2.length : Int) ≤ sampleSender.udpBufferSize) →
          op.Fits out.ubroadcasts sampleSender twoQueued.load) ∧
      ∀ x ∈ new, (x.2.length : Int) ≤ sampleSender.udpBufferSize + op.forgotten) ∨
    (sampleSender.encryptionEnabled = true ∧
        sampleSender.encryptionVersion > maxEncryptionVersion) ∧
      op.run out sampleSender twoQueued = .crash "unsupported version" := by
  refine SendOp.datagrams_fit_iff _ _ _ _ (oneKey_tagged _ _ _) (fun u h => ?_) twoQueued_inv
    (by decide +kernel) (by decide) (by decide) (fun msg h n hn => ?_)
  · obtain rfl := Option.some.inj h
    exact shortBroadcast_respects
  · have hle := Endpoint.datagramSize_le hn
    rw [List.mem_singleton.mp h] at hle
    exact Int.le_trans (Int.ofNat_le.mpr hle) (by decide)

/-- The two queued broadcasts just fill the budget of 51 bytes, and are sent in a
datagram of 56. -/
theorem gossip_exceeds_udpBufferSize :
    (SendOp.gossip [⟨sampleAddr, 3⟩]).run (sampleOutbound none) (sizedEndpoint 51) twoQueued >>=
        (fun s => Outcome.ok (s.sent.map (·.2.length))) = .ok [56] ∧
      (sizedEndpoint 51).udpBufferSize < 56 := by
  decide +kernel

end Mlist
