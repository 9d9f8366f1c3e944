import Mlist.Lib.Run
import Mlist.Queue.Drain

/-!
# The life of a queued message

Whatever is done to a queue — messages queued under any names, drains with any
limit and any size, cuts to any length — its two structures stay in step
(`queue_consistent`), and every message has one life: it is queued, it is handed
out some number of times, it leaves, and when it leaves, and only then, its
`Finish` is called (`items_accounted`).

To speak of one message through all of this it needs a name of its own. The
identifiers of the items will not do, they start again at 0 whenever a drain
empties the queue. But the queue is generic in its messages and only measures
them, so a message may as well carry the serial number of the `QueueMsg` call it
came from. `Journal` is a queue of such `Stamped` messages together with what its
drains have handed out so far.

The heart of it is that the items in the queue and the items finished are, between
them, every message ever queued exactly once (`Journal.Inv.account`): each way out
of the queue moves an item from one list to the other.
-/

namespace Mlist

open Mlist.Lib

variable {H μ : Type}

/-- What is done to a queue; `transLimit` is what `transmitLimit` makes of the
`NumNodes` of the moment. A `QueueMsg` whose message cannot be encoded does
nothing and is not listed. -/
inductive QueueOp (μ : Type) where
  | queueMsg (name : String) (msg : μ) (notify : Option Nat)
  | getMessages (transLimit overhead size : Int)
  | resize (size : Nat)

/-- How many of the operations queue a message. -/
def QueueOp.queues : List (QueueOp μ) → Nat
  | [] => 0
  | .queueMsg _ _ _ :: ops => QueueOp.queues ops + 1
  | _ :: ops => QueueOp.queues ops

namespace TransmitCapQueue

section Runs

variable [Encoded μ] [Heap H (TransmitCapItem μ)]

/-- One operation. -/
def step : QueueOp μ → TransmitCapQueue H μ → Option (TransmitCapQueue H μ)
  | .queueMsg name msg notify, q => some (q.queueMsg name msg notify)
  | .getMessages transLimit overhead size, q => some (q.getMessages transLimit overhead size).2
  | .resize size, q => q.resize size

/-- Every operation returns and keeps the queue's invariant. -/
theorem step_returns (op : QueueOp μ) (q : TransmitCapQueue H μ) (h : q.QueueInv) :
    ∃ q', step op q = some q' ∧ q'.QueueInv := by
  cases op with
  | queueMsg name msg notify => exact ⟨_, rfl, queueMsg_inv h name msg notify⟩
  | getMessages l o s => exact ⟨_, rfl, getMessages_inv h l o s⟩
  | resize size =>
    obtain ⟨q', _, hres, hspec⟩ := resize_spec size q
    exact ⟨q', hres, hspec.inv h⟩

/-- The counter of identifiers goes up by one for a message that is queued, and not
otherwise. -/
theorem step_idSeq {op : QueueOp μ} {q q' : TransmitCapQueue H μ} (h : q.QueueInv)
    (hstep : step op q = some q') : q'.idSeq ≤ q.idSeq + QueueOp.queues [op] := by
  cases op with
  | queueMsg name msg notify =>
    obtain rfl := Option.some.inj hstep
    exact Nat.le_of_eq (push_idSeq _ _)
  | getMessages l o s =>
    obtain rfl := Option.some.inj hstep
    obtain ⟨_, _, -, -, -, -, hle⟩ := getMessages_spec h l o s
    exact hle
  | resize size =>
    obtain ⟨q₁, _, hres, hspec⟩ := resize_spec size q
    obtain rfl := Option.some.inj (hres.symm.trans hstep)
    exact Nat.le_of_eq hspec.idSeq

/-- In a run that queues fewer than `2 ^ 64` messages the counter, a `uint64` in the
source, never wraps. -/
theorem run_idSeq : ∀ {ops : List (QueueOp μ)} {q q' : TransmitCapQueue H μ}, q.QueueInv →
    run step ops q = some q' → q'.idSeq ≤ q.idSeq + QueueOp.queues ops := by
  intro ops
  induction ops with
  | nil =>
    intro q q' _ hrun
    exact Nat.le_of_eq (congrArg idSeq (Option.some.inj hrun)).symm
  | cons op ops ih =>
    intro q q' h hrun
    obtain ⟨t, ht, hrun'⟩ := run_cons_some hrun
    obtain ⟨t', ht', hinv⟩ := step_returns op q h
    obtain rfl := Option.some.inj (ht.symm.trans ht')
    have hfirst := step_idSeq h ht
    have hrest := ih hinv hrun'
    have hsum : QueueOp.queues (op :: ops) = QueueOp.queues [op] + QueueOp.queues ops := by
      cases op <;> simp [QueueOp.queues, Nat.add_comm]
    omega

/-- A name other than the empty one has at most one item. -/
theorem QueueInv.one_of_name {q : TransmitCapQueue H μ} (h : q.QueueInv) {name : String}
    (hne : name ≠ "") : (q.items.filter fun it => decide (it.name = name)).length ≤ 1 := by
  have hall : ∀ it ∈ q.items.filter fun it => decide (it.name = name), it.name = name := by
    intro it hit
    exact of_decide_eq_true (List.mem_filter.mp hit).2
  have hapart : (q.items.filter fun it => decide (it.name = name)).Pairwise
      fun a b => a.name = b.name → a.name = "" :=
    (List.pairwise_map.mp h.namesApart).sublist List.filter_sublist
  generalize (q.items.filter fun it => decide (it.name = name)) = l at hall hapart
  match l with
  | [] => exact Nat.zero_le 1
  | [a] => exact Nat.le_refl 1
  | a :: b :: l =>
    have ha := hall a (List.mem_cons_self ..)
    have hb := hall b (List.mem_cons_of_mem _ (List.mem_cons_self ..))
    have hempty := (List.pairwise_cons.mp hapart).1 b (List.mem_cons_self ..) (ha.trans hb.symm)
    exact absurd (ha.symm.trans hempty) hne

/-- **The queue is consistent**, whatever is done to it: item identifiers are
pairwise distinct and below the next one, every non-empty name has at most one
item, the map knows exactly the non-empty names in the heap and their items, and a
message just queued under a non-empty name is the only one of that name. -/
theorem queue_consistent (ops : List (QueueOp μ)) :
    ∃ q : TransmitCapQueue H μ, run step ops new = some q ∧
      (q.items.map (·.id)).Nodup ∧
      (∀ it ∈ q.items, it.id < q.idSeq) ∧
      (∀ name, name ≠ "" → (q.items.filter fun it => decide (it.name = name)).length ≤ 1) ∧
      (∀ name it, q.existing name = some it ↔ name ≠ "" ∧ it ∈ q.items ∧ it.name = name) ∧
      ∀ name msg notify, name ≠ "" →
        (q.queueMsg name msg notify).items.filter (fun it => decide (it.name = name)) =
          [q.newItem name msg notify] := by
  obtain ⟨q, hrun, hinv⟩ := run_total step_returns ops (s := (new : TransmitCapQueue H μ)) new_inv
  refine ⟨q, hrun, hinv.ids, hinv.lt, fun name hne => hinv.one_of_name hne, hinv.existing, ?_⟩
  intro name msg notify hne
  exact filter_queueMsg_name hinv msg notify hne

end Runs

end TransmitCapQueue

/-! ## Stamped messages -/

/-- A message with the number of the `QueueMsg` call that queued it. -/
structure Stamped (μ : Type) where
  msg : μ
  stamp : Nat
  deriving DecidableEq, Repr

instance [Encoded μ] : Encoded (Stamped μ) := ⟨fun s => Encoded.len s.msg⟩

/-- What one `GetMessages` call returned, and with what limit. -/
structure Batch where
  limit : Int
  stamps : List Nat
  deriving DecidableEq, Repr

/-- A queue, the number of messages queued in it so far, and what its drains have
returned, the newest first. -/
structure Journal (H μ : Type) where
  q : TransmitCapQueue H (Stamped μ)
  stamps : Nat
  batches : List Batch

namespace Journal

/-- How often the message `k` was returned. -/
def returned (j : Journal H μ) (k : Nat) : Nat := (j.batches.flatMap (·.stamps)).count k

/-- The largest limit a drain was called with, and at least 1. -/
def largest (j : Journal H μ) : Int := (j.batches.map (·.limit)).foldr max 1

/-- How often `Finish` was called on the message `k`. -/
def finished (j : Journal H μ) (k : Nat) : Nat := (j.q.finished.map (·.msg.stamp)).count k

variable [Encoded μ] [Heap H (TransmitCapItem (Stamped μ))]

/-- How often the message `k` is in the queue. -/
def queued (j : Journal H μ) (k : Nat) : Nat := (j.q.items.map (·.msg.stamp)).count k

/-- A fresh queue. -/
def new : Journal H μ := { q := TransmitCapQueue.new, stamps := 0, batches := [] }

/-- One operation on the queue, entered in the journal. -/
def step : QueueOp μ → Journal H μ → Option (Journal H μ)
  | .queueMsg name msg notify, j =>
    some { j with q := j.q.queueMsg name ⟨msg, j.stamps⟩ notify, stamps := j.stamps + 1 }
  | .getMessages transLimit overhead size, j =>
    let (msgs, q) := j.q.getMessages transLimit overhead size
    some { j with q, batches := ⟨transLimit, msgs.map (·.stamp)⟩ :: j.batches }
  | .resize size, j => (j.q.resize size).map fun q => { j with q }

/-- The invariant of the journal. -/
structure Inv (j : Journal H μ) : Prop where
  queue : j.q.QueueInv
  /-- every message is in the queue or was finished, once -/
  account : ((j.q.finished ++ j.q.items).map (·.msg.stamp)).Perm (List.range j.stamps)
  /-- the transmit count of an item is how often it was returned -/
  transmits : ∀ it ∈ j.q.finished ++ j.q.items, it.transmits = j.returned it.msg.stamp
  below : ∀ it ∈ j.q.items, (it.transmits : Int) < j.largest
  capped : ∀ it ∈ j.q.finished, (it.transmits : Int) ≤ j.largest
  once : ∀ b ∈ j.batches, b.stamps.Nodup
  known : ∀ b ∈ j.batches, ∀ k ∈ b.stamps, k < j.stamps

omit [Encoded μ] [Heap H (TransmitCapItem (Stamped μ))] in
theorem one_le_largest (j : Journal H μ) : 1 ≤ j.largest := by
  unfold largest
  induction j.batches with
  | nil => exact Int.le_refl 1
  | cons b bs ih => exact Int.le_trans ih (Int.le_max_right ..)

omit [Encoded μ] [Heap H (TransmitCapItem (Stamped μ))] in
/-- What no drain has returned. -/
theorem returned_eq_zero {j : Journal H μ} {k : Nat} (h : ∀ b ∈ j.batches, k ∉ b.stamps) :
    j.returned k = 0 := by
  refine List.count_eq_zero.mpr fun hk => ?_
  obtain ⟨b, hb, hkb⟩ := List.mem_flatMap.mp hk
  exact h b hb hkb

theorem new_inv : Inv (new : Journal H μ) := by
  have hnil : (TransmitCapQueue.new : TransmitCapQueue H (Stamped μ)).items = [] := Heap.items_empty
  have hfin : (TransmitCapQueue.new : TransmitCapQueue H (Stamped μ)).finished = [] := rfl
  refine ⟨TransmitCapQueue.new_inv, ?_, ?_, ?_, ?_, ?_, ?_⟩ <;> simp [new, hnil, hfin]

namespace Inv

variable {j : Journal H μ}

/-- No two items, queued or finished, are of one message. -/
theorem nodup (h : Inv j) : ((j.q.finished ++ j.q.items).map (·.msg.stamp)).Nodup :=
  h.account.nodup_iff.mpr List.nodup_range

/-- The items move about between the queue and the finished ones, and nothing else
happens. -/
theorem moved (h : Inv j) {q' : TransmitCapQueue H (Stamped μ)} (hq : q'.QueueInv)
    {dropped : List (TransmitCapItem (Stamped μ))} (hitems : j.q.items.Perm (dropped ++ q'.items))
    (hfinished : q'.finished = j.q.finished ++ dropped) : Inv { j with q := q' } := by
  have hperm : (q'.finished ++ q'.items).Perm (j.q.finished ++ j.q.items) := by
    rw [hfinished, List.append_assoc]
    exact hitems.symm.append_left _
  refine ⟨hq, (hperm.map _).trans h.account, ?_, ?_, ?_, h.once, h.known⟩
  · intro it hit
    exact h.transmits it (hperm.mem_iff.mp hit)
  · intro it hit
    exact h.below it (hitems.mem_iff.mpr (List.mem_append_right _ hit))
  · intro it hit
    rw [hfinished] at hit
    rcases List.mem_append.mp hit with hit | hit
    · exact h.capped it hit
    · exact Int.le_of_lt (h.below it (hitems.mem_iff.mpr (List.mem_append_left _ hit)))

theorem queueMsg (h : Inv j) (name : String) (msg : μ) (notify : Option Nat) :
    Inv { j with q := j.q.queueMsg name ⟨msg, j.stamps⟩ notify, stamps := j.stamps + 1 } := by
  obtain ⟨dropped, kept, hsplit, hitems, hfinished⟩ :=
    TransmitCapQueue.queueMsg_spec h.queue name ⟨msg, j.stamps⟩ notify
  have hmem : ∀ it, it ∈ (j.q.queueMsg name ⟨msg, j.stamps⟩ notify).items ↔
      it = j.q.newItem name ⟨msg, j.stamps⟩ notify ∨ it ∈ kept := by
    intro it
    exact hitems.mem_iff.trans List.mem_cons
  have hold : ∀ it, it ∈ dropped ∨ it ∈ kept → it ∈ j.q.items := by
    intro it hit
    exact hsplit.mem_iff.mpr (List.mem_append.mpr hit)
  have hnew : j.returned j.stamps = 0 :=
    returned_eq_zero fun b hb hk => Nat.lt_irrefl _ (h.known b hb _ hk)
  refine ⟨TransmitCapQueue.queueMsg_inv h.queue _ _ _, ?_, ?_, ?_, ?_, h.once, ?_⟩
  · -- the new message is the last stamp, and nobody else has moved out of sight
    have hall : ((j.q.queueMsg name ⟨msg, j.stamps⟩ notify).finished ++
        (j.q.queueMsg name ⟨msg, j.stamps⟩ notify).items).Perm
        (j.q.newItem name ⟨msg, j.stamps⟩ notify :: (j.q.finished ++ j.q.items)) := by
      refine ((hitems.append_left _).trans List.perm_middle).trans (List.Perm.cons _ ?_)
      rw [hfinished, List.append_assoc]
      exact hsplit.symm.append_left _
    refine (hall.map _).trans ?_
    rw [List.map_cons, List.range_succ]
    exact (h.account.cons _).trans (List.perm_append_singleton _ _).symm
  · intro it hit
    rcases List.mem_append.mp hit with hit | hit
    · have hit' : it ∈ j.q.finished ++ dropped := hfinished ▸ hit
      rcases List.mem_append.mp hit' with hit' | hit'
      · exact h.transmits it (List.mem_append_left _ hit')
      · exact h.transmits it (List.mem_append_right _ (hold it (Or.inl hit')))
    · rcases (hmem it).mp hit with rfl | hit
      · exact hnew.symm
      · exact h.transmits it (List.mem_append_right _ (hold it (Or.inr hit)))
  · intro it hit
    rcases (hmem it).mp hit with rfl | hit
    · exact Int.lt_of_lt_of_le Int.zero_lt_one j.one_le_largest
    · exact h.below it (hold it (Or.inr hit))
  · intro it hit
    have hit' : it ∈ j.q.finished ++ dropped := hfinished ▸ hit
    rcases List.mem_append.mp hit' with hit' | hit'
    · exact h.capped it hit'
    · exact Int.le_of_lt (h.below it (hold it (Or.inl hit')))
  · intro b hb k hk
    exact Nat.lt_succ_of_lt (h.known b hb k hk)

/-- Of all the items, queued or finished, a drain returns the picked ones, once. -/
theorem picked_once (h : Inv j) {picked rest : List (TransmitCapItem (Stamped μ))}
    (hsplit : j.q.items.Perm (picked ++ rest)) :
    (picked.map (·.msg.stamp)).Nodup ∧
      (∀ it ∈ picked, (picked.map (·.msg.stamp)).count it.msg.stamp = 1) ∧
      ∀ it ∈ j.q.finished ++ rest, (picked.map (·.msg.stamp)).count it.msg.stamp = 0 := by
  have hnodup := h.nodup
  rw [((hsplit.append_left j.q.finished).map _).nodup_iff, List.map_append,
    List.map_append] at hnodup
  obtain ⟨-, hqueued, hfinished⟩ := List.nodup_append.mp hnodup
  obtain ⟨hpicked, -, hrest⟩ := List.nodup_append.mp hqueued
  refine ⟨hpicked, fun it hit => ?_, fun it hit => List.count_eq_zero.mpr fun hc => ?_⟩
  · exact List.count_eq_one_of_mem hpicked (List.mem_map_of_mem hit)
  · rcases List.mem_append.mp hit with hit | hit
    · exact hfinished _ (List.mem_map_of_mem hit) _ (List.mem_append_left _ hc) rfl
    · exact hrest _ hc _ (List.mem_map_of_mem hit) rfl

theorem getMessages (h : Inv j) (transLimit overhead size : Int) :
    Inv { j with
      q := (j.q.getMessages transLimit overhead size).2
      batches := ⟨transLimit, (j.q.getMessages transLimit overhead size).1.map (·.stamp)⟩ ::
        j.batches } := by
  obtain ⟨picked, rest, hsplit, hmsgs, hitems, hfinished, -⟩ :=
    TransmitCapQueue.getMessages_spec h.queue transLimit overhead size
  have hstamps : (j.q.getMessages transLimit overhead size).1.map (·.stamp) =
      picked.map (·.msg.stamp) := by
    rw [hmsgs, List.map_map]
    rfl
  have hbumped : (picked.map TransmitCapQueue.bumped).map (·.msg.stamp) =
      picked.map (·.msg.stamp) := by
    rw [List.map_map]
    rfl
  have hinv := TransmitCapQueue.getMessages_inv h.queue transLimit overhead size
  rw [hstamps]
  generalize (j.q.getMessages transLimit overhead size).2 = q' at hitems hfinished hinv
  -- the picked items are finished or back, one transmit up; the others are where they were
  have hall : (q'.finished ++ q'.items).Perm
      (j.q.finished ++ (picked.map TransmitCapQueue.bumped ++ rest)) := by
    rw [hfinished, List.append_assoc]
    refine List.Perm.append_left _ ((hitems.append_left _).trans ?_)
    rw [← List.append_assoc]
    exact (List.filter_append_perm _ _).append_right _
  obtain ⟨hpicked, hone, hzero⟩ := h.picked_once hsplit
  have hold : ∀ it ∈ picked ++ rest, it ∈ j.q.items := fun it hit => hsplit.mem_iff.mpr hit
  have hreturned : ∀ k, Journal.returned
      { j with q := q', batches := ⟨transLimit, picked.map (·.msg.stamp)⟩ :: j.batches } k =
        (picked.map (·.msg.stamp)).count k + j.returned k := by
    intro k
    exact List.count_append
  have hlargest : j.largest ≤ Journal.largest
      { j with q := q', batches := ⟨transLimit, picked.map (·.msg.stamp)⟩ :: j.batches } :=
    Int.le_max_right ..
  refine ⟨hinv, ?_, ?_, ?_, ?_, ?_, ?_⟩
  · refine (hall.map _).trans ?_
    rw [List.map_append, List.map_append, hbumped, ← List.map_append, ← List.map_append]
    exact ((hsplit.symm.append_left _).map _).trans h.account
  · intro it hit
    rw [hreturned]
    rcases List.mem_append.mp (hall.mem_iff.mp hit) with hit | hit
    · -- finished before, so not picked
      rw [hzero it (List.mem_append_left _ hit), Nat.zero_add]
      exact h.transmits it (List.mem_append_left _ hit)
    · rcases List.mem_append.mp hit with hit | hit
      · obtain ⟨o, ho, rfl⟩ := List.mem_map.mp hit
        have ht := h.transmits o (List.mem_append_right _ (hold o (List.mem_append_left _ ho)))
        show o.transmits + 1 = (picked.map (·.msg.stamp)).count o.msg.stamp + j.returned o.msg.stamp
        rw [hone o ho, ht, Nat.add_comm]
      · rw [hzero it (List.mem_append_right _ hit), Nat.zero_add]
        exact h.transmits it (List.mem_append_right _ (hold it (List.mem_append_right _ hit)))
  · intro it hit
    rcases List.mem_append.mp (hitems.mem_iff.mp hit) with hit | hit
    · -- it came back because it was below the limit of this call
      have hlow := (List.mem_filter.mp hit).2
      rw [Bool.not_eq_true', TransmitCapQueue.reached, decide_eq_false_iff_not, ge_iff_le,
        Int.not_le] at hlow
      exact Int.lt_of_lt_of_le hlow (Int.le_max_left ..)
    · exact Int.lt_of_lt_of_le (h.below it (hold it (List.mem_append_right _ hit))) hlargest
  · intro it hit
    rw [hfinished] at hit
    rcases List.mem_append.mp hit with hit | hit
    · exact Int.le_trans (h.capped it hit) hlargest
    · obtain ⟨o, ho, rfl⟩ := List.mem_map.mp (List.mem_filter.mp hit).1
      have hb := h.below o (hold o (List.mem_append_left _ ho))
      exact Int.le_trans (Int.add_one_le_of_lt hb) hlargest
  · intro b hb
    rcases List.mem_cons.mp hb with rfl | hb
    · exact hpicked
    · exact h.once b hb
  · intro b hb k hk
    rcases List.mem_cons.mp hb with rfl | hb
    · obtain ⟨o, ho, rfl⟩ := List.mem_map.mp hk
      refine List.mem_range.mp (h.account.mem_iff.mp (List.mem_map_of_mem ?_))
      exact List.mem_append_right _ (hold o (List.mem_append_left _ ho))
    · exact h.known b hb k hk

/-- A message is in the queue or finished, and once. -/
theorem finished_add_queued (h : Inv j) {k : Nat} (hk : k < j.stamps) :
    j.finished k + j.queued k = 1 := by
  have hcount := h.account.count_eq k
  rw [List.map_append, List.count_append,
    List.count_eq_one_of_mem List.nodup_range (List.mem_range.mpr hk)] at hcount
  exact hcount

theorem returned_le_largest (h : Inv j) (k : Nat) : (j.returned k : Int) ≤ j.largest := by
  by_cases hk : k < j.stamps
  · obtain ⟨it, hit, rfl⟩ := List.mem_map.mp (h.account.mem_iff.mpr (List.mem_range.mpr hk))
    rw [← h.transmits it hit]
    rcases List.mem_append.mp hit with hit | hit
    · exact h.capped it hit
    · exact Int.le_of_lt (h.below it hit)
  · rw [returned_eq_zero fun b hb hc => hk (h.known b hb k hc)]
    exact Int.le_trans (by decide) j.one_le_largest

/-- A returned message leaves the queue when its count has reached the limit of
the call, and otherwise stays. -/
theorem leaves_iff (h : Inv j) {transLimit overhead size : Int} {j' : Journal H μ}
    (hstep : Journal.step (.getMessages transLimit overhead size) j = some j') {k : Nat}
    (hk : k ∈ (j.q.getMessages transLimit overhead size).1.map (·.stamp)) :
    j'.queued k = 0 ↔ transLimit ≤ j'.returned k := by
  have hinv := h.getMessages transLimit overhead size
  obtain ⟨picked, rest, -, hmsgs, hitems, hfinished, -⟩ :=
    TransmitCapQueue.getMessages_spec h.queue transLimit overhead size
  obtain rfl := (Option.some.inj hstep).symm
  rw [hmsgs, List.map_map] at hk
  obtain ⟨o, ho, rfl⟩ := List.mem_map.mp hk
  have hbumped : TransmitCapQueue.bumped o ∈ picked.map TransmitCapQueue.bumped :=
    List.mem_map_of_mem ho
  cases hreach : TransmitCapQueue.reached transLimit (TransmitCapQueue.bumped o) with
  | true =>
    -- finished by this call, so no longer queued
    have hfin :
        TransmitCapQueue.bumped o ∈ (j.q.getMessages transLimit overhead size).2.finished := by
      rw [hfinished]
      exact List.mem_append_right _ (List.mem_filter.mpr ⟨hbumped, hreach⟩)
    have hcount := hinv.transmits _ (List.mem_append_left _ hfin)
    refine iff_of_true (List.count_eq_zero.mpr fun hq => ?_) (hcount ▸ of_decide_eq_true hreach)
    have hnodup := hinv.nodup
    rw [List.map_append] at hnodup
    exact (List.nodup_append.mp hnodup).2.2 _ (List.mem_map_of_mem hfin) _ hq rfl
  | false =>
    have hin : TransmitCapQueue.bumped o ∈ (j.q.getMessages transLimit overhead size).2.items := by
      refine hitems.mem_iff.mpr (List.mem_append_left _ (List.mem_filter.mpr ⟨hbumped, ?_⟩))
      rw [hreach]
      rfl
    have hcount := hinv.transmits _ (List.mem_append_right _ hin)
    have hstamp := List.mem_map_of_mem (f := fun it => it.msg.stamp) hin
    exact iff_of_false (fun hq => List.count_eq_zero.mp hq hstamp)
      (hcount ▸ of_decide_eq_false hreach)

end Inv

/-- Every operation returns and keeps the journal right. -/
theorem step_returns (op : QueueOp μ) (j : Journal H μ) (h : Inv j) :
    ∃ j', step op j = some j' ∧ Inv j' := by
  cases op with
  | queueMsg name msg notify => exact ⟨_, rfl, h.queueMsg name msg notify⟩
  | getMessages l o s => exact ⟨_, rfl, h.getMessages l o s⟩
  | resize size =>
    obtain ⟨q', dropped, hres, hspec⟩ := TransmitCapQueue.resize_spec size j.q
    refine ⟨{ j with q := q' }, ?_, h.moved (hspec.inv h.queue) hspec.items hspec.finished⟩
    show (j.q.resize size).map (fun q => { j with q }) = _
    rw [hres, Option.map_some]

/-- **Every message has one life**, whatever is done to the queue. A drain returns
it at most once; all drains together return it at most as often as the largest limit
used, or once; returned, it leaves the queue exactly when its count has reached the
limit of that call; and it is either still queued and unfinished, or out of the
queue with `Finish` called once. -/
theorem items_accounted (ops : List (QueueOp μ)) :
    ∃ j : Journal H μ, run step ops new = some j ∧
      (∀ b ∈ j.batches, b.stamps.Nodup) ∧
      (∀ k, (j.returned k : Int) ≤ j.largest) ∧
      (∀ k < j.stamps, j.queued k = 1 ∧ j.finished k = 0 ∨ j.queued k = 0 ∧ j.finished k = 1) ∧
      ∀ transLimit overhead size j', step (.getMessages transLimit overhead size) j = some j' →
        ∀ k ∈ (j.q.getMessages transLimit overhead size).1.map (·.stamp),
          (j'.queued k = 0 ↔ transLimit ≤ j'.returned k) := by
  obtain ⟨j, hrun, hinv⟩ := run_total step_returns ops (s := (new : Journal H μ)) new_inv
  refine ⟨j, hrun, hinv.once, hinv.returned_le_largest, ?_, ?_⟩
  · intro k hk
    have hone := hinv.finished_add_queued hk
    omega
  · intro transLimit overhead size j' hstep k hk
    exact hinv.leaves_iff hstep hk

end Journal

end Mlist
