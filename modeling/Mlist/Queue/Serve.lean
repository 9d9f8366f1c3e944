import Mlist.Model.Concrete
import Mlist.Queue.Drain

/-!
# Whom the queue serves

`getMessages` promises three things at once: what it hands out fits into the bytes it was
given, it is handed out in the order of the queue, and nothing that would still have fitted
is held back — except that the loop gives up when not even the smallest dead message, of 20
bytes, would fit.

`Drain.lean` says where every item ends up. Here is which items the first loop picks. It has
two invariants. `Picking`: the picked items are sorted and come before everything that is still
queued. `Filling`: what was passed over is too long for the bytes that are left, which only
become fewer, as no message takes up a negative number of bytes.

The bytes are summed up in an `int`. `Filling` needs the sums to stay below 2^63; an overhead
close to that makes `getMessages` hand out what does not fit (`getMessages_overfull`).
-/

namespace Mlist

open Mlist.Lib

variable {H μ : Type} [Encoded μ] [Heap H (TransmitCapItem μ)]

namespace TransmitCapQueue

/-- What is popped comes before everything that stays. -/
theorem pop_first {q q' : TransmitCapQueue H μ} {item : TransmitCapItem μ} (h : q.QueueInv)
    (hp : q.pop = some (item, q')) : ∀ it ∈ q'.items, item.less it = true := by
  intro it hit
  have hids : ((item :: q'.items).map (·.id)).Nodup :=
    (((pop_parts hp).1.map _).nodup_iff).mp h.ids
  have hne : item.id ≠ it.id := by
    intro he
    rw [List.map_cons, List.nodup_cons] at hids
    exact hids.1 (he ▸ List.mem_map_of_mem hit)
  exact TransmitCapItem.less_of_ne (pop_least hp it hit) hne

/-- The first loop of `GetMessages`, on its way. -/
structure Picking (picked : List (TransmitCapItem μ)) (q : TransmitCapQueue H μ) : Prop where
  inv : q.QueueInv
  sorted : picked.Pairwise fun a b => a.less b = true
  first : ∀ a ∈ picked, ∀ b ∈ q.items, a.less b = true

/-- An item that does not fit is put aside. -/
theorem Picking.pass {picked : List (TransmitCapItem μ)} {q q' : TransmitCapQueue H μ}
    {item : TransmitCapItem μ} (h : Picking picked q) (hp : q.pop = some (item, q')) :
    Picking picked q' := by
  refine ⟨pop_inv h.inv hp, h.sorted, ?_⟩
  intro a ha b hb
  exact h.first a ha b ((pop_parts hp).1.mem_iff.mpr (List.mem_cons_of_mem item hb))

/-- An item that fits is picked. -/
theorem Picking.take {picked : List (TransmitCapItem μ)} {q q' : TransmitCapQueue H μ}
    {item : TransmitCapItem μ} (h : Picking picked q) (hp : q.pop = some (item, q')) :
    Picking (picked ++ [item]) q' := by
  have hmem : ∀ b, b = item ∨ b ∈ q'.items → b ∈ q.items := fun b hb =>
    (pop_parts hp).1.mem_iff.mpr (List.mem_cons.mpr hb)
  refine ⟨pop_inv h.inv hp, ?_, ?_⟩
  · refine List.pairwise_append.mpr ⟨h.sorted, List.pairwise_singleton _ _, ?_⟩
    intro a ha b hb
    exact h.first a ha b (hmem b (.inl (List.mem_singleton.mp hb)))
  · intro a ha b hb
    rcases List.mem_append.mp ha with ha | ha
    · exact h.first a ha b (hmem b (.inr hb))
    · rw [List.mem_singleton.mp ha]
      exact pop_first h.inv hp b hb

/-- What is picked is sorted, however the sums come out. -/
theorem pick_sorted (overhead size : Int) :
    ∀ (bytesUsed : Int) (picked notPicked : List (TransmitCapItem μ)) (q : TransmitCapQueue H μ),
      Picking picked q → ∀ r, pick overhead size bytesUsed picked notPicked q = r →
        r.1.Pairwise fun a b => a.less b = true
  | bytesUsed, picked, notPicked, q, h, r, hr => by
    unfold pick at hr
    split at hr
    next => exact hr ▸ h.sorted
    next =>
      split at hr
      next => exact hr ▸ h.sorted
      next item q' hp =>
        split at hr
        next => exact pick_sorted overhead size _ picked (notPicked ++ [item]) q' (h.pass hp) r hr
        next => exact pick_sorted overhead size _ (picked ++ [item]) notPicked q' (h.take hp) r hr
  termination_by _ _ _ q => q.items.length
  decreasing_by all_goals exact pop_length (by assumption)

/-- The item does not fit into the bytes left over, or so few are left over that the loop
gives up. -/
def LeftOut (overhead left : Int) (it : TransmitCapItem μ) : Prop :=
  left < Encoded.len it.msg + overhead ∨ left < overhead + 20

/-- The bytes, on the way: what has been passed over is too long for what is left, and what is
left only becomes less. -/
structure Filling (overhead size bytesUsed : Int) (picked notPicked : List (TransmitCapItem μ))
    (q : TransmitCapQueue H μ) : Prop where
  used : cost overhead (picked.map (·.msg)) = bytesUsed
  countable : Countable overhead bytesUsed q
  long : ∀ it ∈ notPicked, size < bytesUsed + Encoded.len it.msg + overhead

theorem Filling.pass {overhead size bytesUsed : Int} {picked notPicked : List (TransmitCapItem μ)}
    {q q' : TransmitCapQueue H μ} {item : TransmitCapItem μ} (ho : 0 ≤ overhead)
    (h : Filling overhead size bytesUsed picked notPicked q) (hp : q.pop = some (item, q'))
    (hlong : bytesUsed + Encoded.len item.msg + overhead > size) :
    Filling overhead size bytesUsed picked (notPicked ++ [item]) q' := by
  refine ⟨h.used, h.countable.pass ho hp, ?_⟩
  intro it hit
  rcases List.mem_append.mp hit with hit | hit
  · exact h.long it hit
  · rw [List.mem_singleton.mp hit]
    exact hlong

theorem Filling.take {overhead size bytesUsed : Int} {picked notPicked : List (TransmitCapItem μ)}
    {q q' : TransmitCapQueue H μ} {item : TransmitCapItem μ} (ho : 0 ≤ overhead)
    (h : Filling overhead size bytesUsed picked notPicked q) (hp : q.pop = some (item, q')) :
    Filling overhead size (bytesUsed + (Encoded.len item.msg + overhead)) (picked ++ [item])
      notPicked q' := by
  refine ⟨?_, h.countable.take hp, ?_⟩
  · have hused := h.used
    simp only [List.map_append, List.map_cons, List.map_nil, cost_append, cost_cons, cost_nil]
    omega
  · intro it hit
    have hlong := h.long it hit
    omega

/-- Everything that is not picked is left out for a reason. -/
theorem pick_leftOut {overhead : Int} (ho : 0 ≤ overhead) (size : Int) :
    ∀ (bytesUsed : Int) (picked notPicked : List (TransmitCapItem μ)) (q : TransmitCapQueue H μ),
      Filling overhead size bytesUsed picked notPicked q →
      ∀ r, pick overhead size bytesUsed picked notPicked q = r →
        ∀ it ∈ r.2.1 ++ r.2.2.items,
          LeftOut overhead (size - cost overhead (r.1.map (·.msg))) it
  | bytesUsed, picked, notPicked, q, h, r, hr => by
    have hused := h.used
    have hb : 0 ≤ bytesUsed := hused ▸ cost_nonneg ho _
    unfold pick at hr
    rw [h.countable.wrap_least ho hb] at hr
    split at hr
    next hfull =>
      -- full: nothing more fits
      obtain rfl := hr
      intro it _
      refine .inr ?_
      dsimp only
      omega
    next =>
      split at hr
      next hnone =>
        -- at the end: what was passed by was too long then, and there is less room now
        obtain rfl := hr
        intro it hit
        refine .inl ?_
        dsimp only at hit ⊢
        rw [pop_eq_none hnone, List.append_nil] at hit
        have hlong := h.long it hit
        omega
      next item q' hp =>
        obtain ⟨hsum, hnext⟩ := h.countable.wrap ho hb hp
        rw [hsum, hnext] at hr
        split at hr
        next hlong =>
          exact pick_leftOut ho size bytesUsed picked (notPicked ++ [item]) q'
            (h.pass ho hp hlong) r hr
        next =>
          exact pick_leftOut ho size _ (picked ++ [item]) notPicked q' (h.take ho hp) r hr
  termination_by _ _ _ q => q.items.length
  decreasing_by all_goals exact pop_length (by assumption)

/-- **What `GetMessages` serves.** Whatever the queue holds, and for every overhead that is
not negative and every size, the call returns; what it returns are the messages of some items
of the queue, in the strict order of `Less`, and nothing if the size is not above the overhead.
The queue keeps every item, the returned ones with one more transmit, except that those of them
that have reached the limit are finished and gone. And when the sums stay below 2^63, the
messages take up at most the size, and an item that was not returned does not fit into the bytes
left over, or fewer than `overhead + 20` are left over. -/
theorem getMessages_serves {q : TransmitCapQueue H μ} (h : q.QueueInv) (transLimit : Int)
    {overhead : Int} (ho : 0 ≤ overhead) (size : Int) :
    ∃ msgs q' picked rest, q.getMessages transLimit overhead size = (msgs, q') ∧
      (picked.Pairwise fun a b => a.less b = true) ∧ (size ≤ overhead → msgs = []) ∧
      q'.QueueInv ∧ Drained transLimit picked rest q q' msgs ∧
      (q.queued overhead + overhead + 20 < 2 ^ 63 → cost overhead msgs ≤ max size 0 ∧
        ∀ it ∈ rest, LeftOut overhead (size - cost overhead msgs) it) := by
  have hcountable : q.queued overhead + overhead + 20 < 2 ^ 63 → Countable overhead 0 q := by
    intro hc
    unfold Countable
    omega
  by_cases hgo : size ≤ overhead ∨ Heap.len q.queue = 0
  · refine ⟨[], q, [], q.items, getMessages_idle hgo, List.Pairwise.nil, fun _ => rfl, h,
      Drained.idle transLimit q, fun _ => ⟨le_max_right size 0, fun it hit => .inr ?_⟩⟩
    have hsize : size ≤ overhead := by
      refine hgo.resolve_right fun hlen => ?_
      rw [Heap.len_eq] at hlen
      exact List.ne_nil_of_mem hit (List.eq_nil_of_length_eq_zero hlen)
    rw [cost_nil]
    omega
  · have hsorted := pick_sorted overhead size 0 [] [] q
      ⟨h, List.Pairwise.nil, fun a ha => (nomatch ha)⟩ _ rfl
    have hd := getMessages_drained h transLimit overhead size hgo
    refine ⟨(q.getMessages transLimit overhead size).1, (q.getMessages transLimit overhead size).2,
      _, _, rfl, hsorted, fun hs => absurd (.inl hs) hgo,
      getMessages_inv h transLimit overhead size,
      hd, fun hc => ⟨getMessages_cost ho (hcountable hc) transLimit size, ?_⟩⟩
    have hleft := pick_leftOut ho size 0 [] [] q
      ⟨rfl, hcountable hc, fun it hit => (nomatch hit)⟩ _ rfl
    rw [← hd.msgs] at hleft
    exact hleft

end TransmitCapQueue

namespace Concrete

/-- Two dead messages. -/
def twoDead : TransmitCapQueue (List (TransmitCapItem Msg)) Msg :=
  (TransmitCapQueue.new.queueMsg "a" (.dead ⟨1, "a", false⟩) none).queueMsg "b"
    (.dead ⟨1, "b", false⟩) none

theorem twoDead_inv : twoDead.QueueInv :=
  TransmitCapQueue.queueMsg_inv (TransmitCapQueue.queueMsg_inv TransmitCapQueue.new_inv _ _ _) _ _ _

end Concrete

open Concrete in
/-- There is room for one of two messages of 32 bytes. -/
theorem getMessages_serves_one :
    ∃ msgs q' picked rest, twoDead.getMessages 3 2 40 = (msgs, q') ∧
      (picked.Pairwise fun a b => a.less b = true) ∧ ((40 : Int) ≤ 2 → msgs = []) ∧
      q'.QueueInv ∧ TransmitCapQueue.Drained 3 picked rest twoDead q' msgs ∧
      (twoDead.queued 2 + 2 + 20 < 2 ^ 63 → TransmitCapQueue.cost 2 msgs ≤ max 40 0 ∧
        ∀ it ∈ rest, TransmitCapQueue.LeftOut 2 (40 - TransmitCapQueue.cost 2 msgs) it) :=
  TransmitCapQueue.getMessages_serves twoDead_inv 3 (by decide) 40

open Concrete in
/-- Two sizes that what is handed out does not keep to: a negative one, which not even nothing
does, and one so large that the sums wrap around, where a message of 32 bytes is handed out
though 5 are left beside the overhead. -/
theorem getMessages_overfull :
    twoDead.QueueInv ∧
      ((-1 : Int) < TransmitCapQueue.cost 2 (twoDead.getMessages 3 2 (-1)).1) ∧
      (0 : Int) ≤ 2 ^ 63 - 11 ∧
      (2 ^ 63 - 6 : Int) <
        TransmitCapQueue.cost (2 ^ 63 - 11) (twoDead.getMessages 3 (2 ^ 63 - 11) (2 ^ 63 - 6)).1 :=
  ⟨twoDead_inv, by decide +kernel, by decide, by decide +kernel⟩

end Mlist
