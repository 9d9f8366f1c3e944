import Mathlib.Logic.Function.Basic
import Mlist.Lib.Heap
import Mlist.Model.Types

/-!
# The broadcast queue

`TransmitCapQueue` of `broadcast.go`: messages waiting to be piggybacked, each
handed out a limited number of times, and at most one for each non-empty name —
a new message of a name invalidates the one already queued.

The heap it stores its items in is the package `github.com/mbver/heap`, which is
not part of the repository, so the queue is generic over a type `H` with the
`Heap` laws. The messages are generic too: the queue only measures them
(`len(item.msg)`), and `Encoded.len` is the number of bytes `encode` makes of
one. `transmitLimit` computes with floating-point logarithms; `getMessages`
takes its result as an argument.

`Finish` sends on the item's `notify` channel if somebody is waiting there. The
queue's `finished` is the list of the items it was called on, oldest first.
-/

namespace Mlist

open Mlist.Lib

/-- Messages of a known encoded length. -/
class Encoded (μ : Type) where
  len : μ → Nat

variable {H μ : Type}

/-- `TransmitCapItem`; `notify` names the channel, `none` is the nil channel. -/
structure TransmitCapItem (μ : Type) where
  name : String
  id : Nat
  transmits : Nat
  msg : μ
  notify : Option Nat
  deriving DecidableEq, Repr

/-- `TransmitCapItem.Less`: fewer transmits first, then the longer message,
then the newer one. -/
def TransmitCapItem.less [Encoded μ] (i other : TransmitCapItem μ) : Bool :=
  if i.transmits = other.transmits then
    if Encoded.len i.msg = Encoded.len other.msg then decide (i.id > other.id)
    else decide (Encoded.len i.msg > Encoded.len other.msg)
  else decide (i.transmits < other.transmits)

/-- `Less` compares transmits, then lengths, then IDs. -/
theorem TransmitCapItem.less_eq_true_iff [Encoded μ] (x y : TransmitCapItem μ) :
    x.less y = true ↔ x.transmits < y.transmits ∨ x.transmits = y.transmits ∧
      (Encoded.len y.msg < Encoded.len x.msg ∨
        Encoded.len x.msg = Encoded.len y.msg ∧ y.id < x.id) := by
  unfold TransmitCapItem.less
  split
  next ht =>
    split
    next hl =>
      rw [decide_eq_true_eq]
      omega
    next hl =>
      rw [decide_eq_true_eq]
      omega
  next ht =>
    rw [decide_eq_true_eq]
    omega

theorem TransmitCapItem.less_asymm [Encoded μ] (x y : TransmitCapItem μ) (h : x.less y = true) :
    y.less x = false := by
  rw [Bool.eq_false_iff, ne_eq, TransmitCapItem.less_eq_true_iff]
  rw [TransmitCapItem.less_eq_true_iff] at h
  omega

theorem TransmitCapItem.less_trans_false [Encoded μ] (x y z : TransmitCapItem μ)
    (hxy : x.less y = false) (hyz : y.less z = false) : x.less z = false := by
  rw [Bool.eq_false_iff, ne_eq, TransmitCapItem.less_eq_true_iff] at hxy hyz ⊢
  omega

/-- Of two items with different IDs one comes first. -/
theorem TransmitCapItem.less_of_ne [Encoded μ] {x y : TransmitCapItem μ} (h : y.less x = false)
    (hid : x.id ≠ y.id) : x.less y = true := by
  rw [Bool.eq_false_iff, ne_eq, TransmitCapItem.less_eq_true_iff] at h
  rw [TransmitCapItem.less_eq_true_iff]
  omega

instance [Encoded μ] : HeapItem (TransmitCapItem μ) where
  ident := TransmitCapItem.id
  less := TransmitCapItem.less

/-- `TransmitCapQueue`; `existing` is its map `exists`. -/
structure TransmitCapQueue (H μ : Type) where
  queue : H
  existing : String → Option (TransmitCapItem μ)
  idSeq : Nat
  finished : List (TransmitCapItem μ)

namespace TransmitCapQueue

variable [Encoded μ] [Heap H (TransmitCapItem μ)]

/-- `NewBroadcastQueue`. -/
def new : TransmitCapQueue H μ :=
  { queue := Heap.empty, existing := fun _ => none, idSeq := 0, finished := [] }

/-- `TransmitCapItem.Finish`. -/
def finish (item : TransmitCapItem μ) (q : TransmitCapQueue H μ) : TransmitCapQueue H μ :=
  { q with finished := q.finished ++ [item] }

/-- The invalidating half of `Push`: finish and take out the queued item of
this name. -/
def invalidate (name : String) (q : TransmitCapQueue H μ) : TransmitCapQueue H μ :=
  match q.existing name with
  | some old => { q.finish old with queue := Heap.remove q.queue old.id }
  | none => q

/-- `TransmitCapQueue.Push`. -/
def push (item : TransmitCapItem μ) (q : TransmitCapQueue H μ) : TransmitCapQueue H μ :=
  if item.name = "" then { q with queue := Heap.push q.queue item }
  else
    { q.invalidate item.name with
      queue := Heap.push (q.invalidate item.name).queue item
      existing := Function.update q.existing item.name (some item) }

/-- `TransmitCapQueue.Pop`. -/
def pop (q : TransmitCapQueue H μ) : Option (TransmitCapItem μ × TransmitCapQueue H μ) :=
  match Heap.pop q.queue with
  | none => none
  | some (item, rest) =>
    some (item, { q with queue := rest, existing := Function.update q.existing item.name none })

/-- `TransmitCapQueue.QueueMsg`. -/
def queueMsg (name : String) (msg : μ) (notify : Option Nat) (q : TransmitCapQueue H μ) :
    TransmitCapQueue H μ :=
  push { name, id := q.idSeq, transmits := 0, msg, notify } { q with idSeq := q.idSeq + 1 }

theorem pop_case {q q' : TransmitCapQueue H μ} {item : TransmitCapItem μ}
    (h : q.pop = some (item, q')) : ∃ rest, Heap.pop q.queue = some (item, rest) ∧
      q' = { q with queue := rest, existing := Function.update q.existing item.name none } := by
  unfold pop at h
  split at h
  next => cases h
  next it rest hp =>
    obtain ⟨rfl, rfl⟩ := Prod.mk.inj (Option.some.inj h)
    exact ⟨rest, hp, rfl⟩

/-- A pop that succeeds leaves one item fewer. -/
theorem pop_length {q q' : TransmitCapQueue H μ} {item : TransmitCapItem μ}
    (h : q.pop = some (item, q')) :
    (Heap.items q'.queue).length < (Heap.items q.queue).length := by
  obtain ⟨rest, hp, rfl⟩ := pop_case h
  rw [items_pop_length hp]
  exact Nat.lt_succ_self _

/-- The first loop of `GetMessages`: pop until the budget or the queue is used
up, keeping what fits apart from what does not. Every sum is an `int`. -/
def pick (overhead size bytesUsed : Int) (picked notPicked : List (TransmitCapItem μ))
    (q : TransmitCapQueue H μ) :
    List (TransmitCapItem μ) × List (TransmitCapItem μ) × TransmitCapQueue H μ :=
  if wrapInt (bytesUsed + 20 + overhead) > size then (picked, notPicked, q)
  else
    match _h : q.pop with
    | none => (picked, notPicked, q)
    | some (item, q') =>
      if wrapInt (bytesUsed + Encoded.len item.msg + overhead) > size then
        pick overhead size bytesUsed picked (notPicked ++ [item]) q'
      else
        pick overhead size (wrapInt (bytesUsed + (Encoded.len item.msg + overhead)))
          (picked ++ [item]) notPicked q'
  termination_by (Heap.items q.queue).length
  decreasing_by all_goals exact pop_length _h

/-- One picked item is handed out: its count goes up, and it goes back into the
queue unless the count has reached the limit. -/
def serve (transLimit : Int) (q : TransmitCapQueue H μ) (item : TransmitCapItem μ) :
    TransmitCapQueue H μ :=
  let item := { item with transmits := item.transmits + 1 }
  if (item.transmits : Int) ≥ transLimit then q.finish item else q.push item

/-- `TransmitCapQueue.GetMessages`, with the `transmitLimit` of the moment. -/
def getMessages (transLimit overhead size : Int) (q : TransmitCapQueue H μ) :
    List μ × TransmitCapQueue H μ :=
  if size ≤ overhead ∨ Heap.len q.queue = 0 then ([], q)
  else
    let (picked, notPicked, q) := pick overhead size 0 [] [] q
    let q := notPicked.foldl (fun q item => q.push item) q
    let q := picked.foldl (serve transLimit) q
    let q := if Heap.len q.queue = 0 then { q with idSeq := 0 } else q
    (picked.map (·.msg), q)

/-- `TransmitCapQueue.Len`. -/
def len (q : TransmitCapQueue H μ) : Nat := Heap.len q.queue

/-- `TransmitCapQueue.Resize`. The loop pops an empty queue when `size` is
negative; the `Finish` of a nil item is then a crash, `none`. -/
def resize (size : Int) (q : TransmitCapQueue H μ) : Option (TransmitCapQueue H μ) :=
  if (q.len : Int) > size then
    match _h : q.pop with
    | none => none
    | some (item, q') => resize size (q'.finish item)
  else some q
  termination_by (Heap.items q.queue).length
  decreasing_by
    have hlt := pop_length _h
    exact hlt

end TransmitCapQueue

end Mlist
