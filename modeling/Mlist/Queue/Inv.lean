import Mathlib.Data.List.Nodup
import Mlist.Model.Broadcast

/-!
# The broadcast queue invariant

Two structures in step: the heap, and the map `existing` from names to heap
items. `QueueInv` says the identifiers in the heap are pairwise distinct and below
the next one, and that `existing` maps exactly the non-empty names in the heap to
the item of that name — so there is at most one.

`getMessages` takes items out of the heap and puts some of them back. While they
are out, `Held` carries what putting them back needs: their identifiers are still
theirs alone. The item that comes back is the one that went out up to its transmit
count, so a drain never invents a name or a message (`mem_getMessages`).
-/

namespace Mlist

open Mlist.Lib

variable {H μ : Type} [Encoded μ] [Heap H (TransmitCapItem μ)]

namespace TransmitCapQueue

/-- What the queue holds. -/
def items (q : TransmitCapQueue H μ) : List (TransmitCapItem μ) := Heap.items q.queue

/-- The invariant of the queue. -/
structure QueueInv (q : TransmitCapQueue H μ) : Prop where
  ids : (q.items.map (·.id)).Nodup
  lt : ∀ it ∈ q.items, it.id < q.idSeq
  existing : ∀ name it, q.existing name = some it ↔ name ≠ "" ∧ it ∈ q.items ∧ it.name = name

theorem new_inv : QueueInv (new : TransmitCapQueue H μ) := by
  have hnil : (new : TransmitCapQueue H μ).items = [] := Heap.items_empty
  refine ⟨?_, ?_, ?_⟩
  · rw [hnil]
    exact List.nodup_nil
  · intro it hit
    rw [hnil] at hit
    cases hit
  · intro name it
    constructor
    · intro h
      cases h
    · intro hand
      obtain ⟨_, hit, _⟩ := hand
      rw [hnil] at hit
      cases hit

/-- Two items of one identifier are one item. -/
theorem QueueInv.eq_of_id {q : TransmitCapQueue H μ} (h : q.QueueInv)
    {a b : TransmitCapItem μ} (ha : a ∈ q.items) (hb : b ∈ q.items) (hab : a.id = b.id) :
    a = b :=
  List.inj_on_of_nodup_map h.ids ha hb hab

/-- Two items of one non-empty name are one item. -/
theorem QueueInv.eq_of_name {q : TransmitCapQueue H μ} (h : q.QueueInv)
    {a b : TransmitCapItem μ} (ha : a ∈ q.items) (hb : b ∈ q.items) (hab : a.name = b.name)
    (hne : b.name ≠ "") : a = b := by
  have h1 := (h.existing b.name a).mpr ⟨hne, ha, hab⟩
  have h2 := (h.existing b.name b).mpr ⟨hne, hb, rfl⟩
  rw [h1] at h2
  exact Option.some.inj h2

/-! ## Invalidating -/

/-- Only the broadcast of this name goes. -/
theorem mem_items_invalidate {q : TransmitCapQueue H μ} (h : q.QueueInv) {name : String}
    (hne : name ≠ "") {it : TransmitCapItem μ} :
    it ∈ (q.invalidate name).items ↔ it ∈ q.items ∧ it.name ≠ name := by
  unfold invalidate
  split
  next old hold =>
    obtain ⟨_, hmem, hname⟩ := (h.existing name old).mp hold
    have hrem : it ∈ Heap.items (Heap.remove q.queue old.id) ↔ it ∈ q.items ∧ it.id ≠ old.id :=
      mem_items_remove h.ids
    show it ∈ Heap.items (Heap.remove q.queue old.id) ↔ _
    rw [hrem]
    constructor
    · intro hand
      obtain ⟨hit, hid⟩ := hand
      refine ⟨hit, fun hn => hid ?_⟩
      rw [h.eq_of_name hit hmem (hn.trans hname.symm) (hname ▸ hne)]
    · intro hand
      obtain ⟨hit, hn⟩ := hand
      refine ⟨hit, fun hid => hn ?_⟩
      rw [h.eq_of_id hit hmem hid]
      exact hname
  next hnone =>
    constructor
    · intro hit
      refine ⟨hit, fun hn => ?_⟩
      have := (h.existing name it).mpr ⟨hne, hit, hn⟩
      rw [hnone] at this
      cases this
    · exact And.left

theorem nodup_invalidate {q : TransmitCapQueue H μ} (h : q.QueueInv) (name : String) :
    ((q.invalidate name).items.map (·.id)).Nodup := by
  unfold invalidate
  split
  next old hold =>
    have hperm : (Heap.items (Heap.remove q.queue old.id)).Perm _ :=
      Heap.items_remove q.queue old.id h.ids
    show ((Heap.items (Heap.remove q.queue old.id)).map (·.id)).Nodup
    rw [(hperm.map _).nodup_iff]
    exact h.ids.sublist ((List.filter_sublist).map _)
  next => exact h.ids

@[simp] theorem invalidate_idSeq (q : TransmitCapQueue H μ) (name : String) :
    (q.invalidate name).idSeq = q.idSeq := by
  unfold invalidate
  split
  next => rfl
  next => rfl

/-! ## Pushing -/

/-- After a push: the new item, and of the old ones those it does not
invalidate. -/
theorem mem_items_push' {q : TransmitCapQueue H μ} (h : q.QueueInv)
    {item it : TransmitCapItem μ} :
    it ∈ (q.push item).items ↔
      it = item ∨ (it ∈ q.items ∧ (item.name = "" ∨ it.name ≠ item.name)) := by
  unfold push
  split
  next hname =>
    show it ∈ Heap.items (Heap.push q.queue item) ↔ _
    rw [mem_items_push]
    constructor
    · intro hor
      rcases hor with rfl | hit
      · exact Or.inl rfl
      · exact Or.inr ⟨hit, Or.inl hname⟩
    · intro hor
      rcases hor with rfl | ⟨hit, _⟩
      · exact Or.inl rfl
      · exact Or.inr hit
  next hname =>
    show it ∈ Heap.items (Heap.push (q.invalidate item.name).queue item) ↔ _
    rw [mem_items_push]
    have hinv : it ∈ Heap.items (q.invalidate item.name).queue ↔
        it ∈ q.items ∧ it.name ≠ item.name :=
      mem_items_invalidate h hname
    rw [hinv]
    constructor
    · intro hor
      rcases hor with rfl | ⟨hit, hn⟩
      · exact Or.inl rfl
      · exact Or.inr ⟨hit, Or.inr hn⟩
    · intro hor
      rcases hor with rfl | ⟨hit, he | hn⟩
      · exact Or.inl rfl
      · exact absurd he hname
      · exact Or.inr ⟨hit, hn⟩

@[simp] theorem push_idSeq (q : TransmitCapQueue H μ) (item : TransmitCapItem μ) :
    (q.push item).idSeq = q.idSeq := by
  unfold push
  split
  next => rfl
  next => exact invalidate_idSeq q item.name

/-- The name leads to what was pushed last. -/
theorem push_existing (q : TransmitCapQueue H μ) (item : TransmitCapItem μ) (name : String) :
    (q.push item).existing name =
      if item.name ≠ "" ∧ name = item.name then some item else q.existing name := by
  unfold push
  split
  next hname => rw [if_neg (fun hc => hc.1 hname)]
  next hname =>
    show Function.update q.existing item.name (some item) name = _
    by_cases hn : name = item.name
    · rw [if_pos ⟨hname, hn⟩, hn, Function.update_self]
    · rw [if_neg (fun hc => hn hc.2), Function.update_of_ne hn]

/-- Pushing an item whose identifier is its own and below the next one. -/
theorem push_inv {q : TransmitCapQueue H μ} (h : q.QueueInv) {item : TransmitCapItem μ}
    (hlt : item.id < q.idSeq) (hfresh : ∀ it ∈ q.items, it.id ≠ item.id) :
    (q.push item).QueueInv := by
  refine ⟨?_, ?_, ?_⟩
  · -- identifiers stay different
    have hcons : ∀ l : List (TransmitCapItem μ), (l.map (·.id)).Nodup →
        (∀ it ∈ l, it ∈ q.items) → ((item :: l).map (·.id)).Nodup := by
      intro l hl hsub
      rw [List.map_cons, List.nodup_cons]
      refine ⟨fun hmem => ?_, hl⟩
      obtain ⟨it, hit, hid⟩ := List.mem_map.mp hmem
      exact hfresh it (hsub it hit) hid
    unfold push
    split
    next hname =>
      show ((Heap.items (Heap.push q.queue item)).map (·.id)).Nodup
      rw [((Heap.items_push q.queue item).map _).nodup_iff]
      exact hcons _ h.ids (fun _ hit => hit)
    next hname =>
      show ((Heap.items (Heap.push (q.invalidate item.name).queue item)).map (·.id)).Nodup
      rw [((Heap.items_push _ item).map _).nodup_iff]
      exact hcons _ (nodup_invalidate h item.name)
        (fun it hit => ((mem_items_invalidate h hname).mp hit).1)
  · -- and below the next one
    intro it hit
    rw [push_idSeq]
    rcases (mem_items_push' h).mp hit with rfl | ⟨hit', _⟩
    · exact hlt
    · exact h.lt it hit'
  · -- `exists` holds the items that have a name, each under its own
    intro name it
    rw [push_existing, mem_items_push' h]
    by_cases hc : item.name ≠ "" ∧ name = item.name
    · rw [if_pos hc]
      obtain ⟨hne, rfl⟩ := hc
      constructor
      · intro he
        obtain rfl := Option.some.inj he
        exact ⟨hne, Or.inl rfl, rfl⟩
      · intro hand
        rcases hand with ⟨_, rfl | ⟨_, he | hn⟩, hname⟩
        · rfl
        · exact absurd he hne
        · exact absurd hname hn
    · rw [if_neg hc, h.existing name it]
      constructor
      · intro hand
        obtain ⟨hne, hit, hname⟩ := hand
        refine ⟨hne, Or.inr ⟨hit, ?_⟩, hname⟩
        by_cases hempty : item.name = ""
        · exact Or.inl hempty
        · exact Or.inr (fun he => hc ⟨hempty, hname.symm.trans he⟩)
      · intro hand
        rcases hand with ⟨hne, rfl | ⟨hit, _⟩, hname⟩
        · exact absurd ⟨hname ▸ hne, hname.symm⟩ hc
        · exact ⟨hne, hit, hname⟩

/-! ## Queueing a message -/

/-- The item `queueMsg` makes. -/
def newItem (name : String) (msg : μ) (notify : Option Nat) (q : TransmitCapQueue H μ) :
    TransmitCapItem μ :=
  { name, id := q.idSeq, transmits := 0, msg, notify }

theorem bump_inv {q : TransmitCapQueue H μ} (h : q.QueueInv) :
    QueueInv { q with idSeq := q.idSeq + 1 } :=
  ⟨h.ids, fun it hit => Nat.lt_succ_of_lt (h.lt it hit), h.existing⟩

/-- Queueing keeps the invariant. -/
theorem queueMsg_inv {q : TransmitCapQueue H μ} (h : q.QueueInv) (name : String) (msg : μ)
    (notify : Option Nat) : (q.queueMsg name msg notify).QueueInv := by
  refine push_inv (bump_inv h) (Nat.lt_succ_self _) ?_
  intro it hit
  exact Nat.ne_of_lt (h.lt it hit)

/-- The new broadcast is in the queue, and so is every one that it does not replace. -/
theorem mem_queueMsg {q : TransmitCapQueue H μ} (h : q.QueueInv) {name : String} {msg : μ}
    {notify : Option Nat} {it : TransmitCapItem μ} :
    it ∈ (q.queueMsg name msg notify).items ↔
      it = q.newItem name msg notify ∨ (it ∈ q.items ∧ (name = "" ∨ it.name ≠ name)) :=
  mem_items_push' (bump_inv h)

/-- After a message of a non-empty name is queued, it is the only one of that
name. -/
theorem mem_queueMsg_name {q : TransmitCapQueue H μ} (h : q.QueueInv) {name : String} {msg : μ}
    {notify : Option Nat} (hne : name ≠ "") {it : TransmitCapItem μ} :
    it ∈ (q.queueMsg name msg notify).items ∧ it.name = name ↔ it = q.newItem name msg notify := by
  rw [mem_queueMsg h]
  constructor
  · intro hand
    rcases hand with ⟨rfl | ⟨_, he | hn⟩, hname⟩
    · rfl
    · exact absurd he hne
    · exact absurd hname hn
  · intro he
    subst he
    exact ⟨Or.inl rfl, rfl⟩

/-- The items of a name right after a message of that name is queued. -/
theorem filter_queueMsg_name {q : TransmitCapQueue H μ} (h : q.QueueInv) {name : String} (msg : μ)
    (notify : Option Nat) (hne : name ≠ "") :
    (q.queueMsg name msg notify).items.filter (fun it => decide (it.name = name)) =
      [q.newItem name msg notify] := by
  have hnodup : (q.queueMsg name msg notify).items.Nodup :=
    List.Nodup.of_map _ (queueMsg_inv h name msg notify).ids
  refine List.perm_singleton.mp
    ((List.perm_ext_iff_of_nodup (hnodup.filter _) (List.nodup_singleton _)).mpr ?_)
  intro it
  rw [List.mem_filter, decide_eq_true_eq, List.mem_singleton]
  exact mem_queueMsg_name h hne

/-- The items of the other names stay. -/
theorem mem_queueMsg_of_ne {q : TransmitCapQueue H μ} (h : q.QueueInv) {name : String} {msg : μ}
    {notify : Option Nat} {it : TransmitCapItem μ} (hn : it.name ≠ name) :
    it ∈ (q.queueMsg name msg notify).items ↔ it ∈ q.items := by
  rw [mem_queueMsg h]
  constructor
  · intro hor
    rcases hor with rfl | ⟨hit, _⟩
    · exact absurd rfl hn
    · exact hit
  · intro hit
    exact Or.inr ⟨hit, Or.inr hn⟩

/-! ## Popping -/

/-- A pop takes one item out and touches nothing else. -/
theorem pop_parts {q q' : TransmitCapQueue H μ} {item : TransmitCapItem μ}
    (hp : q.pop = some (item, q')) :
    q.items.Perm (item :: q'.items) ∧ q'.finished = q.finished ∧ q'.idSeq = q.idSeq := by
  obtain ⟨rest, hpop, rfl⟩ := pop_case hp
  exact ⟨Heap.items_pop hpop, rfl, rfl⟩

/-- What is popped is gone. -/
theorem pop_id_ne {q q' : TransmitCapQueue H μ} {item : TransmitCapItem μ} (h : q.QueueInv)
    (hp : q.pop = some (item, q')) : ∀ it ∈ q'.items, it.id ≠ item.id := by
  have hnodup : ((item :: q'.items).map (·.id)).Nodup :=
    (((pop_parts hp).1.map _).nodup_iff).mp h.ids
  rw [List.map_cons, List.nodup_cons] at hnodup
  intro it hit he
  exact hnodup.1 (he ▸ List.mem_map_of_mem hit)

/-- Popping keeps the invariant. -/
theorem pop_inv {q q' : TransmitCapQueue H μ} {item : TransmitCapItem μ} (h : q.QueueInv)
    (hp : q.pop = some (item, q')) : q'.QueueInv := by
  have hperm := (pop_parts hp).1
  have hne := pop_id_ne h hp
  have hold : ∀ it ∈ q'.items, it ∈ q.items := fun it hit =>
    hperm.mem_iff.mpr (List.mem_cons_of_mem _ hit)
  obtain ⟨rest, -, rfl⟩ := pop_case hp
  refine ⟨(((hperm.map _).nodup_iff).mp h.ids).of_cons, fun it hit => h.lt it (hold it hit), ?_⟩
  -- the popped name leaves `existing`, every other one stays
  intro name it
  show Function.update q.existing item.name none name = some it ↔ _
  by_cases hn : name = item.name
  · subst hn
    rw [Function.update_self]
    refine iff_of_false (fun hc => by cases hc) ?_
    intro hand
    obtain ⟨hempty, hit, hname⟩ := hand
    have hsame := h.eq_of_name (hold it hit) (hperm.mem_iff.mpr List.mem_cons_self) hname hempty
    exact absurd (congrArg (·.id) hsame) (hne it hit)
  · rw [Function.update_of_ne hn, h.existing name it, hperm.mem_iff, List.mem_cons]
    constructor
    · intro hand
      rcases hand with ⟨hempty, rfl | hit, hname⟩
      · exact absurd hname.symm hn
      · exact ⟨hempty, hit, hname⟩
    · intro hand
      obtain ⟨hempty, hit, hname⟩ := hand
      exact ⟨hempty, Or.inr hit, hname⟩

/-! ## Draining -/

/-- The items `l` are out of the queue `q`, and can go back. `S` is what the
queue held at first. -/
structure Held (S : List (TransmitCapItem μ)) (q : TransmitCapQueue H μ)
    (l : List (TransmitCapItem μ)) : Prop where
  inv : q.QueueInv
  nodup : (l.map (·.id)).Nodup
  lt : ∀ it ∈ l, it.id < q.idSeq
  apart : ∀ it ∈ l, ∀ jt ∈ q.items, jt.id ≠ it.id
  orig : ∀ it, it ∈ l ∨ it ∈ q.items → ∃ o ∈ S, o.name = it.name ∧ o.msg = it.msg

theorem Held.perm {S : List (TransmitCapItem μ)} {q : TransmitCapQueue H μ}
    {l l' : List (TransmitCapItem μ)} (h : Held S q l) (hp : l.Perm l') : Held S q l' := by
  refine ⟨h.inv, ((hp.map _).nodup_iff).mp h.nodup, ?_, ?_, ?_⟩
  · intro it hit
    exact h.lt it (hp.mem_iff.mpr hit)
  · intro it hit
    exact h.apart it (hp.mem_iff.mpr hit)
  · intro it hor
    rcases hor with hit | hit
    · exact h.orig it (Or.inl (hp.mem_iff.mpr hit))
    · exact h.orig it (Or.inr hit)

/-- A popped item joins the held ones. -/
theorem Held.pop {S : List (TransmitCapItem μ)} {q q' : TransmitCapQueue H μ}
    {l : List (TransmitCapItem μ)} {item : TransmitCapItem μ} (h : Held S q l)
    (hp : q.pop = some (item, q')) : Held S q' (item :: l) := by
  obtain ⟨hperm, -, hseq⟩ := pop_parts hp
  have hitem : item ∈ q.items := hperm.mem_iff.mpr List.mem_cons_self
  have hold : ∀ jt ∈ q'.items, jt ∈ q.items := fun jt hjt =>
    hperm.mem_iff.mpr (List.mem_cons_of_mem _ hjt)
  refine ⟨pop_inv h.inv hp, ?_, ?_, ?_, ?_⟩
  · rw [List.map_cons, List.nodup_cons]
    refine ⟨fun hc => ?_, h.nodup⟩
    obtain ⟨jt, hjt, hid⟩ := List.mem_map.mp hc
    exact h.apart jt hjt item hitem hid.symm
  · intro jt hjt
    rw [hseq]
    rcases List.mem_cons.mp hjt with rfl | hjt
    · exact h.inv.lt jt hitem
    · exact h.lt jt hjt
  · intro jt hjt kt hkt
    rcases List.mem_cons.mp hjt with rfl | hjt
    · exact pop_id_ne h.inv hp kt hkt
    · exact h.apart jt hjt kt (hold kt hkt)
  · intro jt hor
    rcases hor with hjt | hjt
    · rcases List.mem_cons.mp hjt with rfl | hjt
      · exact h.orig jt (Or.inr hitem)
      · exact h.orig jt (Or.inl hjt)
    · exact h.orig jt (Or.inr (hold jt hjt))

/-- A held item goes back, its transmit count changed or not. -/
theorem Held.push {S : List (TransmitCapItem μ)} {q : TransmitCapQueue H μ}
    {l : List (TransmitCapItem μ)} {item item' : TransmitCapItem μ} (h : Held S q (item :: l))
    (hid : item'.id = item.id) (hname : item'.name = item.name) (hmsg : item'.msg = item.msg) :
    Held S (q.push item') l := by
  have hnd := h.nodup
  rw [List.map_cons, List.nodup_cons] at hnd
  have hself : item ∈ item :: l := List.mem_cons_self ..
  refine ⟨push_inv h.inv ?_ ?_, hnd.2, ?_, ?_, ?_⟩
  · rw [hid]
    exact h.lt item hself
  · intro it hit
    rw [hid]
    exact h.apart item hself it hit
  · intro it hit
    rw [push_idSeq]
    exact h.lt it (List.mem_cons_of_mem _ hit)
  · intro it hit jt hjt
    rcases (mem_items_push' h.inv).mp hjt with rfl | ⟨hjt', _⟩
    · rw [hid]
      intro he
      exact hnd.1 (he ▸ List.mem_map_of_mem hit)
    · exact h.apart it (List.mem_cons_of_mem _ hit) jt hjt'
  · intro it hor
    rcases hor with hit | hit
    · exact h.orig it (Or.inl (List.mem_cons_of_mem _ hit))
    · rcases (mem_items_push' h.inv).mp hit with rfl | ⟨hit', _⟩
      · rw [hname, hmsg]
        exact h.orig item (Or.inl hself)
      · exact h.orig it (Or.inr hit')

/-- A held item is dropped for good. -/
theorem Held.finish {S : List (TransmitCapItem μ)} {q : TransmitCapQueue H μ}
    {l : List (TransmitCapItem μ)} {item : TransmitCapItem μ} (h : Held S q (item :: l))
    (item' : TransmitCapItem μ) : Held S (q.finish item') l := by
  have hnd := h.nodup
  rw [List.map_cons, List.nodup_cons] at hnd
  exact ⟨⟨h.inv.ids, h.inv.lt, h.inv.existing⟩, hnd.2,
    fun it hit => h.lt it (List.mem_cons_of_mem _ hit),
    fun it hit => h.apart it (List.mem_cons_of_mem _ hit),
    fun it hit => h.orig it (hit.imp_left (List.mem_cons_of_mem _))⟩

/-- The loop that picks loses nothing: each item is in the queue, picked or set aside. -/
theorem Held.pick {S : List (TransmitCapItem μ)} (overhead size : Int) :
    ∀ (bytesUsed : Int) (picked notPicked : List (TransmitCapItem μ)) (q : TransmitCapQueue H μ),
      Held S q (notPicked ++ picked) →
      ∀ r, TransmitCapQueue.pick overhead size bytesUsed picked notPicked q = r →
        Held S r.2.2 (r.2.1 ++ r.1)
  | bytesUsed, picked, notPicked, q, h, r, hr => by
    unfold TransmitCapQueue.pick at hr
    split at hr
    next => exact hr ▸ h
    next =>
      split at hr
      next => exact hr ▸ h
      next item q' hp =>
        split at hr
        next =>
          refine Held.pick overhead size bytesUsed picked (notPicked ++ [item]) q' ?_ r hr
          refine (h.pop hp).perm ?_
          rw [List.append_assoc]
          exact List.perm_middle.symm
        next =>
          refine Held.pick overhead size _ (picked ++ [item]) notPicked q' ?_ r hr
          refine (h.pop hp).perm ?_
          rw [← List.append_assoc]
          exact (List.perm_append_singleton item _).symm
  termination_by _ _ _ q => q.items.length
  decreasing_by all_goals exact pop_length (by assumption)

/-- What was set aside is put back. -/
theorem Held.pushAll {S : List (TransmitCapItem μ)} {q : TransmitCapQueue H μ}
    {l l' : List (TransmitCapItem μ)} (h : Held S q (l ++ l')) :
    Held S (l.foldl (fun q item => q.push item) q) l' := by
  induction l generalizing q with
  | nil => exact h
  | cons it l ih =>
    rw [List.foldl_cons]
    exact ih (Held.push h rfl rfl rfl)

/-- What was picked is put back, or finished. -/
theorem Held.serveAll {S : List (TransmitCapItem μ)} (transLimit : Int)
    {q : TransmitCapQueue H μ} {l : List (TransmitCapItem μ)} (h : Held S q l) :
    Held S (l.foldl (serve transLimit) q) [] := by
  induction l generalizing q with
  | nil => exact h
  | cons it l ih =>
    rw [List.foldl_cons]
    refine ih ?_
    unfold serve
    dsimp only
    split
    next => exact h.finish _
    next => exact h.push rfl rfl rfl

/-- Before the first pop nothing is out. -/
theorem held_start {q : TransmitCapQueue H μ} (h : q.QueueInv) :
    Held q.items q ([] ++ []) :=
  ⟨h, List.nodup_nil, fun _ hit => absurd hit (by simp), fun _ hit => absurd hit (by simp),
    fun it hit => ⟨it, hit.resolve_left (by simp), rfl, rfl⟩⟩

/-- A drain that does anything: what it leaves behind. -/
theorem getMessages_held {q : TransmitCapQueue H μ} (h : q.QueueInv)
    (transLimit overhead size : Int) :
    Held q.items (q.getMessages transLimit overhead size).2 [] := by
  have hstart := held_start h
  unfold getMessages
  split
  next => exact hstart
  next =>
    have hend := ((Held.pick overhead size 0 [] [] q hstart _ rfl).pushAll).serveAll transLimit
    dsimp only
    split
    next hlen =>
      -- the queue ran empty, so restarting the identifiers at 0 clashes with nothing
      rw [Heap.len_eq] at hlen
      have hnil : ∀ it, it ∉ Heap.items
          ((pick overhead size 0 [] [] q).1.foldl (serve transLimit)
            ((pick overhead size 0 [] [] q).2.1.foldl (fun q item => q.push item)
              (pick overhead size 0 [] [] q).2.2)).queue := by
        intro it hit
        rw [List.eq_nil_of_length_eq_zero hlen] at hit
        cases hit
      exact ⟨⟨hend.inv.ids, fun it hit => absurd hit (hnil it), hend.inv.existing⟩,
        hend.nodup, fun _ hit => absurd hit (by simp), hend.apart, hend.orig⟩
    next => exact hend

/-- **The queue invariant survives a drain.** -/
theorem getMessages_inv {q : TransmitCapQueue H μ} (h : q.QueueInv)
    (transLimit overhead size : Int) : (q.getMessages transLimit overhead size).2.QueueInv :=
  (getMessages_held h transLimit overhead size).inv

/-- What a drain leaves in the queue was there before, under the same name. -/
theorem mem_getMessages {q : TransmitCapQueue H μ} (h : q.QueueInv)
    {transLimit overhead size : Int} {it : TransmitCapItem μ}
    (hit : it ∈ (q.getMessages transLimit overhead size).2.items) :
    ∃ o ∈ q.items, o.name = it.name ∧ o.msg = it.msg :=
  (getMessages_held h transLimit overhead size).orig it (Or.inr hit)

/-- What a drain hands out was in the queue. -/
theorem getMessages_sent {q : TransmitCapQueue H μ} (h : q.QueueInv)
    {transLimit overhead size : Int} {msg : μ}
    (hmsg : msg ∈ (q.getMessages transLimit overhead size).1) : ∃ it ∈ q.items, it.msg = msg := by
  have hstart := held_start h
  have hpick := Held.pick overhead size 0 [] [] q hstart _ rfl
  unfold getMessages at hmsg
  split at hmsg
  next => cases hmsg
  next =>
    obtain ⟨it, hit, rfl⟩ := List.mem_map.mp hmsg
    obtain ⟨o, ho, -, hmsg'⟩ := hpick.orig it (Or.inl (List.mem_append_right _ hit))
    exact ⟨o, ho, hmsg'⟩

end TransmitCapQueue

end Mlist
