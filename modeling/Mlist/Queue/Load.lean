import Mathlib.Algebra.Order.BigOperators.Group.List
import Mlist.Lib.FirstFit
import Mlist.Queue.Drain

/-!
# What a drain takes, by the sizes

Which messages `getMessages` hands out depends on their lengths and on how often each has been
handed out, and on nothing else: IDs only decide between items of the same length and count.
`Rank` is that much of an item. A drain takes from the ranks, in the order of `Less`, what fits
first (`getMessages_ranks`): an item needs at least 20 bytes free, since the loop gives up with
fewer.
-/

namespace Mlist

open Mlist.Lib

/-- What `Less` looks at before the ID. -/
structure Rank where
  transmits : Nat
  len : Nat
  deriving DecidableEq, Repr

namespace Rank

/-- Fewer transmits first, then the longer message. -/
def le (a b : Rank) : Bool :=
  decide (a.transmits < b.transmits ∨ a.transmits = b.transmits ∧ b.len ≤ a.len)

theorem le_iff {a b : Rank} :
    a.le b = true ↔ a.transmits < b.transmits ∨ a.transmits = b.transmits ∧ b.len ≤ a.len :=
  decide_eq_true_iff

theorem le_trans (a b c : Rank) (hab : a.le b = true) (hbc : b.le c = true) : a.le c = true := by
  rw [le_iff] at *
  omega

theorem le_total (a b : Rank) : (a.le b || b.le a) = true := by
  rw [Bool.or_eq_true, le_iff, le_iff]
  omega

/-- Ranks that are equally good are the same rank, though the broadcasts may differ. -/
theorem le_antisymm {a b : Rank} (hab : a.le b = true) (hba : b.le a = true) : a = b := by
  obtain ⟨t, n⟩ := a
  obtain ⟨t', n'⟩ := b
  rw [le_iff] at hab hba
  dsimp only at hab hba
  obtain rfl : t = t' := by omega
  obtain rfl : n = n' := by omega
  rfl

/-- In the order in which they are popped. -/
def sort (l : List Rank) : List Rank := l.mergeSort le

@[simp] theorem sort_nil : sort [] = [] := List.mergeSort_nil

theorem sort_perm (l : List Rank) : (sort l).Perm l := List.mergeSort_perm l le

theorem sort_pairwise (l : List Rank) : (sort l).Pairwise fun a b => a.le b = true :=
  List.pairwise_mergeSort le_trans le_total l

/-- There is one such order. -/
theorem eq_sort {l l' : List Rank} (hp : l'.Perm l) (hs : l'.Pairwise fun a b => a.le b = true) :
    l' = sort l :=
  List.Perm.eq_of_pairwise (fun _ _ _ _ => le_antisymm) hs (sort_pairwise l)
    (hp.trans (sort_perm l).symm)

/-- So the sorted ranks depend only on which broadcasts there are. -/
theorem sort_congr {l l' : List Rank} (h : l.Perm l') : sort l = sort l' :=
  eq_sort ((sort_perm l).trans h) (sort_pairwise l)

/-- The first one comes first. -/
theorem sort_cons {x : Rank} {l : List Rank} (h : ∀ y ∈ l, x.le y = true) :
    sort (x :: l) = x :: sort l := by
  refine (eq_sort ((sort_perm l).cons x) (List.pairwise_cons.mpr ⟨?_, sort_pairwise l⟩)).symm
  intro y hy
  exact h y ((sort_perm l).mem_iff.mp hy)

/-- Handed out once more. -/
def bumped (r : Rank) : Rank := { r with transmits := r.transmits + 1 }

/-- The bytes it takes up. -/
def cost (overhead : Int) (r : Rank) : Int := r.len + overhead

/-- The bytes that have to be free for it: no fewer than the least dead message takes up. -/
def need (overhead : Int) (r : Rank) : Int := (max r.len 20 : Nat) + overhead

end Rank

variable {H μ : Type} [Encoded μ] [Heap H (TransmitCapItem μ)]

/-- The rank of an item. -/
def TransmitCapItem.rank (item : TransmitCapItem μ) : Rank := ⟨item.transmits, Encoded.len item.msg⟩

/-- The order of the heap is the order of ranks, but for the IDs. -/
theorem TransmitCapItem.rank_le {x y : TransmitCapItem μ} (h : y.less x = false) :
    x.rank.le y.rank = true := by
  rw [Bool.eq_false_iff, ne_eq, TransmitCapItem.less_eq_true_iff] at h
  rw [Rank.le_iff]
  show x.transmits < y.transmits ∨ x.transmits = y.transmits ∧ Encoded.len y.msg ≤ Encoded.len x.msg
  omega

namespace TransmitCapQueue

/-- The ranks of what is queued, in the order in which it is popped. -/
def ranks (q : TransmitCapQueue H μ) : List Rank := Rank.sort (q.items.map (·.rank))

theorem ranks_nil {q : TransmitCapQueue H μ} (h : q.items = []) : q.ranks = [] := by
  unfold ranks
  rw [h, List.map_nil, Rank.sort_nil]

/-- The ranks are those of the broadcasts. -/
theorem ranks_perm (q : TransmitCapQueue H μ) : q.ranks.Perm (q.items.map (·.rank)) :=
  Rank.sort_perm _

/-- What is popped has the first rank. -/
theorem ranks_pop {q q' : TransmitCapQueue H μ} {item : TransmitCapItem μ}
    (hp : q.pop = some (item, q')) : q.ranks = item.rank :: q'.ranks := by
  have hperm := (pop_parts hp).1.map (·.rank)
  unfold ranks
  rw [Rank.sort_congr hperm, List.map_cons, Rank.sort_cons]
  intro y hy
  obtain ⟨it, hit, rfl⟩ := List.mem_map.mp hy
  exact TransmitCapItem.rank_le (pop_least hp it hit)

/-- What the loop has picked and passed over, in ranks, is what first fit takes and leaves. -/
structure Fits (overhead size bytesUsed : Int) (picked notPicked : List (TransmitCapItem μ))
    (q : TransmitCapQueue H μ)
    (r : List (TransmitCapItem μ) × List (TransmitCapItem μ) × TransmitCapQueue H μ) : Prop where
  taken : r.1.map (·.rank) = picked.map (·.rank) ++
    (firstFit (Rank.need overhead) (Rank.cost overhead) size bytesUsed q.ranks).1
  left : ((r.2.1 ++ r.2.2.items).map (·.rank)).Perm (notPicked.map (·.rank) ++
    (firstFit (Rank.need overhead) (Rank.cost overhead) size bytesUsed q.ranks).2)

/-- A broadcast there is no room for is passed over by both. -/
theorem Fits.pass {overhead size bytesUsed : Int} {picked notPicked : List (TransmitCapItem μ)}
    {q q' : TransmitCapQueue H μ} {item : TransmitCapItem μ} (hp : q.pop = some (item, q'))
    {r : List (TransmitCapItem μ) × List (TransmitCapItem μ) × TransmitCapQueue H μ}
    (hlong : size < bytesUsed + Encoded.len item.msg + overhead)
    (h : Fits overhead size bytesUsed picked (notPicked ++ [item]) q' r) :
    Fits overhead size bytesUsed picked notPicked q r := by
  have hneed : ¬ bytesUsed + item.rank.need overhead ≤ size := by
    show ¬ bytesUsed + ((max (Encoded.len item.msg) 20 : Nat) + overhead) ≤ size
    omega
  refine ⟨?_, ?_⟩
  · rw [ranks_pop hp, firstFit_pass hneed]
    exact h.taken
  · rw [ranks_pop hp, firstFit_pass hneed]
    refine h.left.trans (List.Perm.of_eq ?_)
    rw [List.map_append, List.map_singleton, List.append_assoc, List.singleton_append]

/-- One there is room for is taken by both. -/
theorem Fits.take {overhead size bytesUsed : Int} {picked notPicked : List (TransmitCapItem μ)}
    {q q' : TransmitCapQueue H μ} {item : TransmitCapItem μ} (hp : q.pop = some (item, q'))
    {r : List (TransmitCapItem μ) × List (TransmitCapItem μ) × TransmitCapQueue H μ}
    (hleast : bytesUsed + 20 + overhead ≤ size)
    (hfits : bytesUsed + Encoded.len item.msg + overhead ≤ size)
    (h : Fits overhead size (bytesUsed + (Encoded.len item.msg + overhead)) (picked ++ [item])
      notPicked q' r) :
    Fits overhead size bytesUsed picked notPicked q r := by
  have hneed : bytesUsed + item.rank.need overhead ≤ size := by
    show bytesUsed + ((max (Encoded.len item.msg) 20 : Nat) + overhead) ≤ size
    omega
  refine ⟨?_, ?_⟩
  · rw [ranks_pop hp, firstFit_take hneed]
    refine h.taken.trans ?_
    rw [List.map_append, List.map_singleton, List.append_assoc, List.singleton_append]
    rfl
  · rw [ranks_pop hp, firstFit_take hneed]
    exact h.left

/-- **The first loop of `GetMessages` is first fit.** -/
theorem pick_fits {overhead : Int} (ho : 0 ≤ overhead) (size : Int) :
    ∀ (bytesUsed : Int) (picked notPicked : List (TransmitCapItem μ)) (q : TransmitCapQueue H μ),
      0 ≤ bytesUsed → Countable overhead bytesUsed q →
      ∀ r, pick overhead size bytesUsed picked notPicked q = r →
        Fits overhead size bytesUsed picked notPicked q r
  | bytesUsed, picked, notPicked, q, hb, hc, r, hr => by
    unfold pick at hr
    rw [hc.wrap_least ho hb] at hr
    split at hr
    next hfull =>
      -- nothing that is still queued would be taken either
      have hnone : firstFit (Rank.need overhead) (Rank.cost overhead) size bytesUsed q.ranks =
          ([], q.ranks) := by
        refine firstFit_full fun x _ => ?_
        show ¬ bytesUsed + ((max x.len 20 : Nat) + overhead) ≤ size
        omega
      obtain rfl := hr
      refine ⟨?_, ?_⟩
      · rw [hnone, List.append_nil]
      · rw [hnone, List.map_append]
        exact (ranks_perm q).symm.append_left _
    next hleast =>
      split at hr
      next hnone =>
        have hranks := ranks_nil (pop_eq_none hnone)
        obtain rfl := hr
        refine ⟨?_, ?_⟩
        · rw [hranks, firstFit_nil, List.append_nil]
        · dsimp only
          rw [hranks, firstFit_nil, List.append_nil, pop_eq_none hnone, List.append_nil]
      next item q' hp =>
        obtain ⟨hsum, hnext⟩ := hc.wrap ho hb hp
        rw [hsum, hnext] at hr
        split at hr
        next hlong =>
          exact (pick_fits ho size bytesUsed picked (notPicked ++ [item]) q' hb (hc.pass ho hp) r
            hr).pass hp hlong
        next hfits =>
          exact (pick_fits ho size _ (picked ++ [item]) notPicked q' (by omega) (hc.take hp) r
            hr).take hp (by omega) (by omega)
  termination_by _ _ _ q => q.items.length
  decreasing_by all_goals exact pop_length (by assumption)

/-- **A drain, by the sizes**: what is handed out is as long as what first fit takes from the
ranks, and the ranks afterwards are those left and those taken, which have been handed out once
more and are gone when they have reached the limit. -/
theorem getMessages_ranks {q : TransmitCapQueue H μ} (h : q.QueueInv) {overhead : Int}
    (ho : 0 ≤ overhead) (hc : Countable overhead 0 q) (transLimit : Int) {size : Int}
    (hsize : overhead < size) {taken left : List Rank}
    (hfit : firstFit (Rank.need overhead) (Rank.cost overhead) size 0 q.ranks = (taken, left)) :
    (q.getMessages transLimit overhead size).1.map Encoded.len = taken.map (·.len) ∧
      (q.getMessages transLimit overhead size).2.ranks = Rank.sort
        ((taken.map Rank.bumped).filter (fun r => decide ((r.transmits : Int) < transLimit)) ++
          left) := by
  by_cases hgo : size ≤ overhead ∨ Heap.len q.queue = 0
  · -- the queue is empty
    have hnil : q.items = [] := by
      have hlen := hgo.resolve_left (by omega)
      rw [Heap.len_eq] at hlen
      exact List.eq_nil_of_length_eq_zero hlen
    have hranks := ranks_nil hnil
    rw [hranks, firstFit_nil] at hfit
    obtain ⟨rfl, rfl⟩ := Prod.mk.inj hfit
    rw [getMessages_idle hgo]
    exact ⟨rfl, hranks.trans Rank.sort_nil.symm⟩
  · have hd := getMessages_drained h transLimit overhead size hgo
    have hf := pick_fits ho size 0 [] [] q (Int.le_refl 0) hc _ rfl
    generalize pick overhead size 0 [] [] q = r at hd hf
    have htaken : r.1.map (·.rank) = taken := by
      have ht := hf.taken
      rw [hfit] at ht
      exact ht
    have hleft : ((r.2.1 ++ r.2.2.items).map (·.rank)).Perm left := by
      have hl := hf.left
      rw [hfit] at hl
      exact hl
    refine ⟨?_, Rank.sort_congr ((hd.items.map _).trans ?_)⟩
    · rw [hd.msgs, ← htaken, List.map_map, List.map_map]
      rfl
    · rw [List.map_append]
      refine List.Perm.append (List.Perm.of_eq ?_) hleft
      rw [← htaken, List.map_map, List.filter_map, List.filter_map, List.map_map]
      congr 1
      -- kept is what has not reached the limit
      refine List.filter_congr fun it _ => ?_
      show (!decide (((it.transmits + 1 : Nat) : Int) ≥ transLimit)) =
        decide (((it.transmits + 1 : Nat) : Int) < transLimit)
      rw [← decide_not, decide_eq_decide]
      omega

/-- A drain leaves no more behind than there was. -/
theorem getMessages_queued {q : TransmitCapQueue H μ} (h : q.QueueInv) {overhead : Int}
    (ho : 0 ≤ overhead) (transLimit size : Int) :
    (q.getMessages transLimit overhead size).2.queued overhead ≤ q.queued overhead := by
  by_cases hgo : size ≤ overhead ∨ Heap.len q.queue = 0
  · rw [getMessages_idle hgo]
  · have hd := getMessages_drained h transLimit overhead size hgo
    generalize pick overhead size 0 [] [] q = r at hd
    have hback : cost overhead (((r.1.map bumped).filter fun it => !reached transLimit it).map
        (·.msg)) ≤ cost overhead (r.1.map (·.msg)) := by
      have hsub := ((List.filter_sublist (p := fun it => !reached transLimit it)
        (l := r.1.map bumped)).map (·.msg)).map fun m => (Encoded.len m : Int) + overhead
      have hsame : (r.1.map bumped).map (·.msg) = r.1.map (·.msg) := by
        rw [List.map_map]
        rfl
      rw [hsame] at hsub
      refine hsub.sum_le_sum fun x hx => ?_
      obtain ⟨m, -, rfl⟩ := List.mem_map.mp hx
      omega
    unfold queued
    rw [cost_perm (hd.items.map _), cost_perm (hd.split.map _)]
    simp only [List.map_append, cost_append]
    omega

end TransmitCapQueue

end Mlist
