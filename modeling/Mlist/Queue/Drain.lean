import Mathlib.Algebra.BigOperators.Group.List.Basic
import Mathlib.Algebra.Order.Ring.Int
import Mlist.Queue.Inv

/-!
# What a drain does to the queue

`getMessages` pops items, puts back those that did not fit and hands out the
rest, each one back into the queue or finished for good. Every item passes
through `push` again, and `push` invalidates: an item that came back while another
of its name was queued would finish it. That never happens here, since all the
items involved were in the queue together (`Out.names`), so a drain can be
described without mentioning names at all (`getMessages_spec`): the queue is the
picked items and the rest; the rest stays, the picked ones come back with one more
transmit, except those that have reached the limit, and those are finished.

`getMessages_cost` says that what is handed out fits into the bytes asked for.
`resize_spec` is `getMessages_spec` for `Resize`: what is dropped is finished, in order.
-/

namespace Mlist

open Mlist.Lib

variable {H μ : Type} [Encoded μ] [Heap H (TransmitCapItem μ)]

namespace TransmitCapQueue

/-- No two of these items share a name other than the empty one. -/
def NamesApart (l : List (TransmitCapItem μ)) : Prop :=
  (l.map (·.name)).Pairwise fun a b => a = b → a = ""

omit [Encoded μ] in
/-- Whether names differ is not a matter of order. -/
theorem NamesApart.perm {l l' : List (TransmitCapItem μ)} (h : NamesApart l) (hp : l.Perm l') :
    NamesApart l' := by
  refine (hp.map _).pairwise h ?_
  intro a b hab he
  exact he.trans (hab he.symm)

/-- A queue has one broadcast for each name. -/
theorem QueueInv.namesApart {q : TransmitCapQueue H μ} (h : q.QueueInv) : NamesApart q.items := by
  have hnodup : q.items.Nodup := List.Nodup.of_map _ h.ids
  refine List.pairwise_map.mpr (List.Pairwise.imp_of_mem ?_ hnodup)
  intro a b ha hb hab he
  by_cases hempty : b.name = ""
  · exact he.trans hempty
  · exact absurd (h.eq_of_name ha hb he hempty) hab

/-- Nothing that stays comes before what is popped. -/
theorem pop_least {q q' : TransmitCapQueue H μ} {item : TransmitCapItem μ}
    (hp : q.pop = some (item, q')) : ∀ it ∈ q'.items, it.less item = false := by
  obtain ⟨rest, hpop, rfl⟩ := pop_case hp
  exact Heap.pop_least hpop

/-- Removing by identifier takes out the one item. -/
theorem remove_perm {q : TransmitCapQueue H μ} (h : q.QueueInv) {old : TransmitCapItem μ}
    (hold : old ∈ q.items) : q.items.Perm (old :: Heap.items (Heap.remove q.queue old.id)) := by
  have hone : q.items.filter (fun it => decide (it.id = old.id)) = [old] := by
    have hnodup : q.items.Nodup := List.Nodup.of_map _ h.ids
    refine List.perm_singleton.mp
      ((List.perm_ext_iff_of_nodup (hnodup.filter _) (List.nodup_singleton _)).mpr ?_)
    intro it
    rw [List.mem_filter, decide_eq_true_eq, List.mem_singleton]
    constructor
    · intro hand
      exact h.eq_of_id hand.1 hold hand.2
    · intro he
      rw [he]
      exact ⟨hold, rfl⟩
  have hrest : (Heap.items (Heap.remove q.queue old.id)).Perm
      (q.items.filter fun it => !decide (it.id = old.id)) := by
    have hremove := Heap.items_remove q.queue old.id h.ids
    simp only [decide_not] at hremove
    exact hremove
  have hsplit := List.filter_append_perm (fun it => decide (it.id = old.id)) q.items
  rw [hone] at hsplit
  exact hsplit.symm.trans (hrest.symm.cons old)

/-- A push finishes the item of the same name, if there is one, and adds the new
one. -/
theorem push_spec {q : TransmitCapQueue H μ} (h : q.QueueInv) (item : TransmitCapItem μ) :
    ∃ dropped kept, q.items.Perm (dropped ++ kept) ∧ (q.push item).items.Perm (item :: kept) ∧
      (q.push item).finished = q.finished ++ dropped ∧
      ∀ it ∈ dropped, it.name = item.name ∧ item.name ≠ "" := by
  unfold TransmitCapQueue.push
  split
  next =>
    exact ⟨[], q.items, List.Perm.refl _, Heap.items_push q.queue item,
      (List.append_nil _).symm, fun _ hit => absurd hit List.not_mem_nil⟩
  next hne =>
    unfold TransmitCapQueue.invalidate
    cases hold : q.existing item.name with
    | none =>
      exact ⟨[], q.items, List.Perm.refl _, Heap.items_push q.queue item,
        (List.append_nil _).symm, fun _ hit => absurd hit List.not_mem_nil⟩
    | some old =>
      obtain ⟨-, hmem, hname⟩ := (h.existing item.name old).mp hold
      refine ⟨[old], Heap.items (Heap.remove q.queue old.id), remove_perm h hmem,
        Heap.items_push _ item, rfl, ?_⟩
      intro it hit
      rw [List.mem_singleton.mp hit]
      exact ⟨hname, hne⟩

/-- A push of a name the queue does not hold finishes nothing. -/
theorem push_parts {q : TransmitCapQueue H μ} (h : q.QueueInv) (item : TransmitCapItem μ)
    (hname : item.name = "" ∨ ∀ it ∈ q.items, it.name ≠ item.name) :
    (q.push item).items.Perm (item :: q.items) ∧ (q.push item).finished = q.finished := by
  obtain ⟨dropped, kept, hsplit, hitems, hfinished, hdropped⟩ := push_spec h item
  have hnil : dropped = [] := by
    refine List.eq_nil_iff_forall_not_mem.mpr fun it hit => ?_
    obtain ⟨hn, hne⟩ := hdropped it hit
    exact hname.resolve_left hne it (hsplit.mem_iff.mpr (List.mem_append_left _ hit)) hn
  rw [hnil] at hsplit hfinished
  exact ⟨hitems.trans (hsplit.symm.cons item), hfinished.trans (List.append_nil _)⟩

/-- The same for a message that is queued. -/
theorem queueMsg_spec {q : TransmitCapQueue H μ} (h : q.QueueInv) (name : String) (msg : μ)
    (notify : Option Nat) :
    ∃ dropped kept, q.items.Perm (dropped ++ kept) ∧
      (q.queueMsg name msg notify).items.Perm (q.newItem name msg notify :: kept) ∧
      (q.queueMsg name msg notify).finished = q.finished ++ dropped := by
  obtain ⟨dropped, kept, hsplit, hitems, hfinished, -⟩ :=
    push_spec (bump_inv h) (q.newItem name msg notify)
  exact ⟨dropped, kept, hsplit, hitems, hfinished⟩

/-- `Held`, and all the items in or out of the queue have names of their own. -/
structure Out (S : List (TransmitCapItem μ)) (q : TransmitCapQueue H μ)
    (l : List (TransmitCapItem μ)) : Prop where
  held : Held S q l
  names : NamesApart (l ++ q.items)

/-- The order in which they were taken out does not matter. -/
theorem Out.perm {S : List (TransmitCapItem μ)} {q : TransmitCapQueue H μ}
    {l l' : List (TransmitCapItem μ)} (h : Out S q l) (hp : l.Perm l') : Out S q l' :=
  ⟨h.held.perm hp, h.names.perm (hp.append_right _)⟩

/-- Taking out one more. -/
theorem Out.pop {S : List (TransmitCapItem μ)} {q q' : TransmitCapQueue H μ}
    {l : List (TransmitCapItem μ)} {item : TransmitCapItem μ} (h : Out S q l)
    (hp : q.pop = some (item, q')) : Out S q' (item :: l) := by
  refine ⟨h.held.pop hp, h.names.perm ?_⟩
  exact ((pop_parts hp).1.append_left l).trans List.perm_middle

/-- An item that is out finds no other of its name in the queue. -/
theorem Out.fresh {S : List (TransmitCapItem μ)} {q : TransmitCapQueue H μ}
    {l : List (TransmitCapItem μ)} {item : TransmitCapItem μ} (h : Out S q (item :: l)) :
    item.name = "" ∨ ∀ it ∈ q.items, it.name ≠ item.name := by
  by_cases hempty : item.name = ""
  · exact Or.inl hempty
  · right
    intro it hit he
    have hhead := (List.pairwise_cons.mp h.names).1
    exact hempty (hhead it.name
      (List.mem_map_of_mem (List.mem_append_right _ hit)) he.symm)

/-- It goes back, its transmit count changed or not. -/
theorem Out.push {S : List (TransmitCapItem μ)} {q : TransmitCapQueue H μ}
    {l : List (TransmitCapItem μ)} {item : TransmitCapItem μ} (h : Out S q (item :: l))
    (item' : TransmitCapItem μ) (hid : item'.id = item.id) (hname : item'.name = item.name)
    (hmsg : item'.msg = item.msg) :
    Out S (q.push item') l ∧ (q.push item').items.Perm (item' :: q.items) ∧
      (q.push item').finished = q.finished := by
  have hparts := push_parts h.held.inv item' (hname ▸ h.fresh)
  refine ⟨⟨h.held.push hid hname hmsg, ?_⟩, hparts⟩
  have hback : NamesApart (item' :: (l ++ q.items)) := by
    unfold NamesApart
    rw [List.map_cons, hname, ← List.map_cons (f := fun x : TransmitCapItem μ => x.name)]
    exact h.names
  exact hback.perm (List.perm_middle.symm.trans (hparts.1.symm.append_left l))

/-- A broadcast that is finished is out for good. -/
theorem Out.finish {S : List (TransmitCapItem μ)} {q : TransmitCapQueue H μ}
    {l : List (TransmitCapItem μ)} {item : TransmitCapItem μ} (h : Out S q (item :: l))
    (item' : TransmitCapItem μ) : Out S (q.finish item') l :=
  ⟨h.held.finish item', (List.pairwise_cons.mp h.names).2⟩

/-! ## The loops of `GetMessages` -/

/-- An item handed out once more. -/
def bumped (item : TransmitCapItem μ) : TransmitCapItem μ :=
  { item with transmits := item.transmits + 1 }

/-- The item's count has reached the limit. -/
def reached (transLimit : Int) (item : TransmitCapItem μ) : Bool :=
  decide ((item.transmits : Int) ≥ transLimit)

/-- The first loop moves items out and loses none. -/
theorem pick_spec {S : List (TransmitCapItem μ)} (overhead size : Int) :
    ∀ (bytesUsed : Int) (picked notPicked : List (TransmitCapItem μ)) (q : TransmitCapQueue H μ),
      Out S q (notPicked ++ picked) →
      ∀ r, TransmitCapQueue.pick overhead size bytesUsed picked notPicked q = r →
        Out S r.2.2 (r.2.1 ++ r.1) ∧
          (notPicked ++ picked ++ q.items).Perm (r.2.1 ++ r.1 ++ r.2.2.items) ∧
          r.2.2.finished = q.finished ∧ r.2.2.idSeq = q.idSeq
  | bytesUsed, picked, notPicked, q, h, r, hr => by
    unfold TransmitCapQueue.pick at hr
    split at hr
    next => exact hr ▸ ⟨h, List.Perm.refl _, rfl, rfl⟩
    next =>
      split at hr
      next => exact hr ▸ ⟨h, List.Perm.refl _, rfl, rfl⟩
      next item q' hp =>
        obtain ⟨hpop, hfin, hseq⟩ := pop_parts hp
        -- wherever the item is put, the items out of the queue are one more
        have hmove : ∀ l, (item :: (notPicked ++ picked)).Perm l →
            (notPicked ++ picked ++ q.items).Perm (l ++ q'.items) := by
          intro l hl
          refine ((hpop.append_left _).trans List.perm_middle).trans ?_
          exact hl.append_right _
        split at hr
        next =>
          have hl : (item :: (notPicked ++ picked)).Perm (notPicked ++ [item] ++ picked) := by
            rw [List.append_assoc]
            exact List.perm_middle.symm
          obtain ⟨ho, hperm, hf, hs⟩ :=
            pick_spec overhead size bytesUsed picked (notPicked ++ [item]) q'
            ((h.pop hp).perm hl) r hr
          exact ⟨ho, (hmove _ hl).trans hperm, hf.trans hfin, hs.trans hseq⟩
        next =>
          have hl : (item :: (notPicked ++ picked)).Perm (notPicked ++ (picked ++ [item])) := by
            rw [← List.append_assoc]
            exact (List.perm_append_singleton item _).symm
          obtain ⟨ho, hperm, hf, hs⟩ := pick_spec overhead size _ (picked ++ [item]) notPicked q'
            ((h.pop hp).perm hl) r hr
          exact ⟨ho, (hmove _ hl).trans hperm, hf.trans hfin, hs.trans hseq⟩
  termination_by _ _ _ q => q.items.length
  decreasing_by all_goals exact pop_length (by assumption)

/-- The second loop puts back what did not fit. -/
theorem pushAll_spec {S : List (TransmitCapItem μ)} {q : TransmitCapQueue H μ}
    {l l' : List (TransmitCapItem μ)} (h : Out S q (l ++ l')) :
    Out S (l.foldl (fun q item => q.push item) q) l' ∧
      (l.foldl (fun q item => q.push item) q).items.Perm (l ++ q.items) ∧
      (l.foldl (fun q item => q.push item) q).finished = q.finished ∧
      (l.foldl (fun q item => q.push item) q).idSeq = q.idSeq := by
  induction l generalizing q with
  | nil => exact ⟨h, List.Perm.refl _, rfl, rfl⟩
  | cons it l ih =>
    rw [List.foldl_cons]
    obtain ⟨ho, hperm, hf⟩ := h.push it rfl rfl rfl
    obtain ⟨ho', hperm', hf', hs'⟩ := ih ho
    refine ⟨ho', hperm'.trans ?_, hf'.trans hf, hs'.trans (push_idSeq q it)⟩
    exact (hperm.append_left l).trans List.perm_middle

/-- The third loop hands the picked items out: those that have reached the limit
are finished in order, the others go back. -/
theorem serveAll_spec {S : List (TransmitCapItem μ)} (transLimit : Int)
    {q : TransmitCapQueue H μ} {l : List (TransmitCapItem μ)} (h : Out S q l) :
    Out S (l.foldl (serve transLimit) q) [] ∧
      (l.foldl (serve transLimit) q).items.Perm
        ((l.map bumped).filter (fun it => !reached transLimit it) ++ q.items) ∧
      (l.foldl (serve transLimit) q).finished =
        q.finished ++ (l.map bumped).filter (reached transLimit) ∧
      (l.foldl (serve transLimit) q).idSeq = q.idSeq := by
  induction l generalizing q with
  | nil => exact ⟨h, List.Perm.refl _, (List.append_nil _).symm, rfl⟩
  | cons it l ih =>
    rw [List.foldl_cons, List.map_cons]
    by_cases hreach : reached transLimit (bumped it) = true
    · have hserve : serve transLimit q it = q.finish (bumped it) :=
        if_pos (of_decide_eq_true hreach)
      obtain ⟨ho, hperm, hf, hs⟩ := ih (hserve ▸ h.finish (bumped it))
      rw [List.filter_cons_of_pos hreach, List.filter_cons_of_neg (by simp [hreach])]
      refine ⟨ho, ?_, ?_, ?_⟩
      · rw [hserve] at hperm ⊢
        exact hperm
      · rw [hf, hserve]
        exact List.append_assoc ..
      · rw [hs, hserve]
        rfl
    · have hserve : serve transLimit q it = q.push (bumped it) :=
        if_neg fun hc => hreach (decide_eq_true hc)
      obtain ⟨ho, hperm, hf⟩ := h.push (bumped it) rfl rfl rfl
      rw [← hserve] at ho hperm hf
      obtain ⟨ho', hperm', hf', hs'⟩ := ih ho
      rw [List.filter_cons_of_neg hreach, List.filter_cons_of_pos (by simp [hreach])]
      refine ⟨ho', hperm'.trans ?_, by rw [hf', hf], by rw [hs', hserve, push_idSeq]⟩
      exact (hperm.append_left _).trans List.perm_middle

/-- The queue `q` was the picked items and the rest; the picked ones have been handed out as
`msgs`, and `q'` has them back with one more transmit, except those that have reached the
limit, which are finished. -/
structure Drained (transLimit : Int) (picked rest : List (TransmitCapItem μ))
    (q q' : TransmitCapQueue H μ) (msgs : List μ) : Prop where
  split : q.items.Perm (picked ++ rest)
  msgs : msgs = picked.map (·.msg)
  items : q'.items.Perm ((picked.map bumped).filter (fun it => !reached transLimit it) ++ rest)
  finished : q'.finished = q.finished ++ (picked.map bumped).filter (reached transLimit)
  idSeq : q'.idSeq = q.idSeq ∨ q'.items = [] ∧ q'.idSeq = 0

/-- What is picked and what is not, when the loop is entered. -/
theorem getMessages_drained {q : TransmitCapQueue H μ} (h : q.QueueInv)
    (transLimit overhead size : Int) (hgo : ¬ (size ≤ overhead ∨ Heap.len q.queue = 0)) :
    Drained transLimit (pick overhead size 0 [] [] q).1
      ((pick overhead size 0 [] [] q).2.1 ++ (pick overhead size 0 [] [] q).2.2.items) q
      (q.getMessages transLimit overhead size).2 (q.getMessages transLimit overhead size).1 := by
  have hstart : Out q.items q ([] ++ []) := ⟨held_start h, h.namesApart⟩
  obtain ⟨ho, hperm, hf, hs⟩ := pick_spec overhead size 0 [] [] q hstart _ rfl
  obtain ⟨ho', hperm', hf', hs'⟩ := pushAll_spec ho
  obtain ⟨-, hitems, hfinished, hs''⟩ := serveAll_spec transLimit ho'
  have hitems := hitems.trans (hperm'.append_left _)
  rw [hf', hf] at hfinished
  unfold getMessages
  rw [if_neg hgo]
  refine ⟨?_, rfl, ?_, ?_, ?_⟩
  · refine hperm.trans ?_
    rw [← List.append_assoc]
    exact List.perm_append_comm.append_right _
  · dsimp only
    split
    next => exact hitems
    next => exact hitems
  · dsimp only
    split
    next => exact hfinished
    next => exact hfinished
  · dsimp only
    split
    next hempty =>
      -- an empty queue starts to count from 0 again
      refine .inr ⟨List.eq_nil_of_length_eq_zero ?_, rfl⟩
      rw [Heap.len_eq] at hempty
      exact hempty
    next => exact .inl (hs''.trans (hs'.trans hs))

/-- A drain that does not enter the loop. -/
theorem getMessages_idle {q : TransmitCapQueue H μ} {transLimit overhead size : Int}
    (h : size ≤ overhead ∨ Heap.len q.queue = 0) :
    q.getMessages transLimit overhead size = ([], q) :=
  if_pos h

/-- Nothing is taken out of the queue and nothing put back. -/
theorem Drained.idle (transLimit : Int) (q : TransmitCapQueue H μ) :
    Drained transLimit [] q.items q q [] :=
  ⟨List.Perm.refl _, rfl, List.Perm.refl _, (List.append_nil _).symm, .inl rfl⟩

/-- **What a drain does.** The queue was the picked items and the rest; the picked
ones are handed out, each once, and come back with one more transmit unless that
has reached the limit, in which case they are finished. -/
theorem getMessages_spec {q : TransmitCapQueue H μ} (h : q.QueueInv)
    (transLimit overhead size : Int) :
    ∃ picked rest, q.items.Perm (picked ++ rest) ∧
      (q.getMessages transLimit overhead size).1 = picked.map (·.msg) ∧
      (q.getMessages transLimit overhead size).2.items.Perm
        ((picked.map bumped).filter (fun it => !reached transLimit it) ++ rest) ∧
      (q.getMessages transLimit overhead size).2.finished =
        q.finished ++ (picked.map bumped).filter (reached transLimit) ∧
      (q.getMessages transLimit overhead size).2.idSeq ≤ q.idSeq := by
  have hseq : ∀ {q' : TransmitCapQueue H μ},
      q'.idSeq = q.idSeq ∨ q'.items = [] ∧ q'.idSeq = 0 → q'.idSeq ≤ q.idSeq := by
    intro q' hor
    omega
  by_cases hgo : size ≤ overhead ∨ Heap.len q.queue = 0
  · rw [getMessages_idle hgo]
    have hd := Drained.idle transLimit q
    exact ⟨[], q.items, hd.split, hd.msgs, hd.items, hd.finished, hseq hd.idSeq⟩
  · have hd := getMessages_drained h transLimit overhead size hgo
    exact ⟨_, _, hd.split, hd.msgs, hd.items, hd.finished, hseq hd.idSeq⟩

/-! ## The byte budget -/

/-- What these messages take up, with the overhead of each. -/
def cost (overhead : Int) (msgs : List μ) : Int :=
  (msgs.map fun m => (Encoded.len m : Int) + overhead).sum

@[simp] theorem cost_nil (overhead : Int) : cost overhead ([] : List μ) = 0 := rfl

@[simp] theorem cost_cons (overhead : Int) (m : μ) (msgs : List μ) :
    cost overhead (m :: msgs) = Encoded.len m + overhead + cost overhead msgs := rfl

/-- Costs add up. -/
@[simp] theorem cost_append (overhead : Int) (msgs msgs' : List μ) :
    cost overhead (msgs ++ msgs') = cost overhead msgs + cost overhead msgs' := by
  unfold cost
  rw [List.map_append, List.sum_append]

theorem cost_nonneg {overhead : Int} (h : 0 ≤ overhead) (msgs : List μ) :
    0 ≤ cost overhead msgs := by
  induction msgs with
  | nil => exact Int.le_refl 0
  | cons m msgs ih =>
    rw [cost_cons]
    omega

/-- They do not depend on the order. -/
theorem cost_perm {overhead : Int} {msgs msgs' : List μ} (h : msgs.Perm msgs') :
    cost overhead msgs = cost overhead msgs' :=
  (h.map _).sum_eq

/-- What all that is queued takes up. -/
def queued (overhead : Int) (q : TransmitCapQueue H μ) : Int := cost overhead (q.items.map (·.msg))

theorem queued_nonneg {overhead : Int} (h : 0 ≤ overhead) (q : TransmitCapQueue H μ) :
    0 ≤ q.queued overhead :=
  cost_nonneg h _

/-- What is popped was part of what was queued. -/
theorem queued_pop {q q' : TransmitCapQueue H μ} {item : TransmitCapItem μ}
    (hp : q.pop = some (item, q')) (overhead : Int) :
    q.queued overhead = Encoded.len item.msg + overhead + q'.queued overhead := by
  unfold queued
  rw [cost_perm ((pop_parts hp).1.map _), List.map_cons, cost_cons]

/-- The loop of `GetMessages` does not come to a sum that an `int` cannot hold: what it has
picked, what is still queued and the least message there is make one it can. -/
def Countable (overhead bytesUsed : Int) (q : TransmitCapQueue H μ) : Prop :=
  bytesUsed + q.queued overhead + overhead + 20 < 2 ^ 63

/-- The sums of one round are then what they are without a limit. -/
theorem Countable.wrap {overhead bytesUsed : Int} {q q' : TransmitCapQueue H μ}
    {item : TransmitCapItem μ} (h : Countable overhead bytesUsed q) (ho : 0 ≤ overhead)
    (hb : 0 ≤ bytesUsed) (hp : q.pop = some (item, q')) :
    wrapInt (bytesUsed + Encoded.len item.msg + overhead) =
        bytesUsed + Encoded.len item.msg + overhead ∧
      wrapInt (bytesUsed + (Encoded.len item.msg + overhead)) =
        bytesUsed + (Encoded.len item.msg + overhead) := by
  unfold Countable at h
  rw [queued_pop hp] at h
  have hrest := queued_nonneg ho q'
  exact ⟨wrapInt_eq (by omega) (by omega), wrapInt_eq (by omega) (by omega)⟩

/-- The sum that the loop compares with the limit is the real one. -/
theorem Countable.wrap_least {overhead bytesUsed : Int} {q : TransmitCapQueue H μ}
    (h : Countable overhead bytesUsed q) (ho : 0 ≤ overhead) (hb : 0 ≤ bytesUsed) :
    wrapInt (bytesUsed + 20 + overhead) = bytesUsed + 20 + overhead := by
  unfold Countable at h
  have hrest := queued_nonneg ho q
  exact wrapInt_eq (by omega) (by omega)

/-- A broadcast that is passed over is out of the way. -/
theorem Countable.pass {overhead bytesUsed : Int} {q q' : TransmitCapQueue H μ}
    {item : TransmitCapItem μ} (h : Countable overhead bytesUsed q) (ho : 0 ≤ overhead)
    (hp : q.pop = some (item, q')) : Countable overhead bytesUsed q' := by
  unfold Countable at h ⊢
  rw [queued_pop hp] at h
  omega

/-- One that is taken counts as used. -/
theorem Countable.take {overhead bytesUsed : Int} {q q' : TransmitCapQueue H μ}
    {item : TransmitCapItem μ} (h : Countable overhead bytesUsed q)
    (hp : q.pop = some (item, q')) :
    Countable overhead (bytesUsed + (Encoded.len item.msg + overhead)) q' := by
  unfold Countable at h ⊢
  rw [queued_pop hp] at h
  omega

/-- `bytesUsed` is the cost of what has been picked, and stays within the size. -/
theorem pick_cost {overhead size : Int} (ho : 0 ≤ overhead) :
    ∀ (bytesUsed : Int) (picked notPicked : List (TransmitCapItem μ)) (q : TransmitCapQueue H μ),
      cost overhead (picked.map (·.msg)) = bytesUsed → Countable overhead bytesUsed q →
        bytesUsed ≤ size →
        cost overhead ((pick overhead size bytesUsed picked notPicked q).1.map (·.msg)) ≤ size
  | bytesUsed, picked, notPicked, q, hcost, hc, hle => by
    have hb : 0 ≤ bytesUsed := hcost ▸ cost_nonneg ho _
    unfold pick
    split
    next => exact hcost ▸ hle
    next =>
      split
      next => exact hcost ▸ hle
      next item q' hp =>
        obtain ⟨hsum, hnext⟩ := hc.wrap ho hb hp
        rw [hsum, hnext]
        split
        next =>
          exact pick_cost ho bytesUsed picked (notPicked ++ [item]) q' hcost (hc.pass ho hp) hle
        next hfits =>
          refine pick_cost ho _ (picked ++ [item]) notPicked q' ?_ (hc.take hp) (by omega)
          rw [List.map_append, cost_append, hcost, List.map_singleton, cost_cons, cost_nil,
            Int.add_zero]
  termination_by _ _ _ q => q.items.length
  decreasing_by all_goals exact pop_length (by assumption)

/-- What is handed out fits into the size, or is nothing. -/
theorem getMessages_cost {q : TransmitCapQueue H μ} {overhead : Int} (ho : 0 ≤ overhead)
    (hc : Countable overhead 0 q) (transLimit size : Int) :
    cost overhead (q.getMessages transLimit overhead size).1 ≤ max size 0 := by
  unfold getMessages
  split
  next => exact le_max_right size 0
  next hgo =>
    have hsize : 0 ≤ size := by omega
    exact (pick_cost ho 0 [] [] q rfl hc hsize).trans (le_max_left size 0)

/-! ## `Resize` -/

theorem len_eq (q : TransmitCapQueue H μ) : q.len = q.items.length := Heap.len_eq q.queue

/-- A pop of a queue that holds something succeeds. -/
theorem pop_isSome {q : TransmitCapQueue H μ} (h : q.items ≠ []) :
    ∃ item q', q.pop = some (item, q') := by
  unfold TransmitCapQueue.pop
  cases hp : Heap.pop q.queue with
  | none => exact absurd ((Heap.pop_none q.queue).mp hp) h
  | some r => exact ⟨r.1, _, rfl⟩

/-- Only an empty queue has nothing to pop. -/
theorem pop_eq_none {q : TransmitCapQueue H μ} (h : q.pop = none) : q.items = [] := by
  by_cases hitems : q.items = []
  · exact hitems
  · obtain ⟨item, q', hp⟩ := pop_isSome hitems
    rw [h] at hp
    nomatch hp

/-- To finish a broadcast that is out of the queue does not concern the queue. -/
theorem finish_inv {q : TransmitCapQueue H μ} (h : q.QueueInv) (item : TransmitCapItem μ) :
    (q.finish item).QueueInv :=
  ⟨h.ids, h.lt, h.existing⟩

/-- `Resize` has dropped some items, in the order in which the queue pops them, and kept
the others. -/
structure Resized (size : Nat) (q q' : TransmitCapQueue H μ) (dropped : List (TransmitCapItem μ)) :
    Prop where
  items : q.items.Perm (dropped ++ q'.items)
  finished : q'.finished = q.finished ++ dropped
  idSeq : q'.idSeq = q.idSeq
  inv : q.QueueInv → q'.QueueInv
  length : q'.items.length = min size q.items.length
  popped : ∀ d ∈ dropped, ∀ it ∈ q'.items, it.less d = false

theorem resized_refl {size : Nat} {q : TransmitCapQueue H μ} (h : q.items.length ≤ size) :
    Resized size q q [] :=
  ⟨List.Perm.refl _, (List.append_nil _).symm, rfl, id, (Nat.min_eq_right h).symm,
    fun _ hd => (nomatch hd)⟩

/-- One round of the loop of `Resize`, and the rounds that follow. -/
theorem Resized.pop {size : Nat} {q q₁ q' : TransmitCapQueue H μ} {item : TransmitCapItem μ}
    {dropped : List (TransmitCapItem μ)} (hlong : size < q.items.length)
    (hp : q.pop = some (item, q₁)) (h : Resized size (q₁.finish item) q' dropped) :
    Resized size q q' (item :: dropped) := by
  obtain ⟨hperm, hfin, hseq⟩ := pop_parts hp
  have hcount : q.items.length = q₁.items.length + 1 := hperm.length_eq
  have hkept : q₁.items.Perm (dropped ++ q'.items) := h.items
  refine ⟨hperm.trans (hkept.cons item), ?_, h.idSeq.trans hseq,
    fun hinv => h.inv (finish_inv (pop_inv hinv hp) item), ?_, ?_⟩
  · rw [h.finished, ← hfin]
    exact List.append_assoc ..
  · have hlen : q'.items.length = min size q₁.items.length := h.length
    omega
  · intro d hd it hit
    rcases List.mem_cons.mp hd with rfl | hd
    · exact pop_least hp it (hkept.mem_iff.mpr (List.mem_append_right _ hit))
    · exact h.popped d hd it hit

/-- **What `Resize` does**, for a size that is not negative: it returns, some items
are dropped and finished, and the rest stays. -/
theorem resize_spec (size : Nat) : ∀ q : TransmitCapQueue H μ,
    ∃ q' dropped, q.resize size = some q' ∧ Resized size q q' dropped
  | q => by
    unfold resize
    rw [len_eq]
    split
    next hlong =>
      split
      next hnone =>
        -- the queue is longer than `size`, so there is something to pop
        obtain ⟨item, q₁, hp⟩ := pop_isSome (q := q) fun hnil => by
          rw [hnil, List.length_nil] at hlong
          omega
        rw [hnone] at hp
        cases hp
      next item q₁ hp =>
        have hlt : q₁.items.length < q.items.length := pop_length hp
        obtain ⟨q', dropped, hres, hspec⟩ := resize_spec size (q₁.finish item)
        exact ⟨q', item :: dropped, hres, hspec.pop (by omega) hp⟩
    next hshort => exact ⟨q, [], rfl, resized_refl (by omega)⟩
  termination_by q => q.items.length
  decreasing_by exact hlt

end TransmitCapQueue

end Mlist
