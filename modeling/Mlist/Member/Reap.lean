import Mlist.Member.Registry

/-!
# What `reap` keeps

`swapExpiredToEnd` goes through the slice with an index that a swap steps back and a bound
that a swap lowers. The model has it as `sweep`, which counts what is left to look at;
`swapExpiredLoop` is the loop with the two variables it is written with, and
`swapExpiredLoop_eq` says that it ends, reads within the slice, and does what `sweep` does.

`reap` then trusts the index it gets: it deregisters from there on, cuts the slice there,
stores it as the number of nodes and shuffles what is left.
-/

namespace Mlist

open Mlist.Lib

variable {H : Type}

/-- The loop of `swapExpiredToEnd`. `none` is an index out of range, or a loop that has not
ended after this many tests of `i < expiredIdx`. -/
def swapExpiredLoop (records : Nat → NodeState) (now timeout : Time) :
    Nat → Nat → Nat → Array Nat → Option (Nat × Array Nat)
  | 0, _, _, _ => none
  | fuel + 1, i, expiredIdx, nodes =>
    if i < expiredIdx then
      match nodes[i]? with
      | none => none
      | some p =>
        if !(records p).deadOrLeft then
          swapExpiredLoop records now timeout fuel (i + 1) expiredIdx nodes
        else if now - (records p).stateChange ≤ timeout then
          swapExpiredLoop records now timeout fuel (i + 1) expiredIdx nodes
        else
          -- back by one, and on by one
          swapExpiredLoop records now timeout fuel i (expiredIdx - 1)
            (nodes.swapIfInBounds i (expiredIdx - 1))
    else some (expiredIdx, nodes)

theorem expired_eq_false {now timeout : Time} {r : NodeState} :
    Memberlist.expired now timeout r = false ↔
      r.deadOrLeft = false ∨ now - r.stateChange ≤ timeout := by
  unfold Memberlist.expired
  rw [Bool.and_eq_false_iff, decide_eq_false_iff_not, gt_iff_lt, Int.not_lt]

/-- The distance between the two variables goes down by one in every round, whichever of them
moves. -/
theorem swapExpiredLoop_eq (records : Nat → NodeState) (now timeout : Time) :
    ∀ (k i : Nat) (nodes : Array Nat), i + k ≤ nodes.size →
      swapExpiredLoop records now timeout (k + 1) i (i + k) nodes =
        some (sweep (fun p => Memberlist.expired now timeout (records p)) k i nodes) := by
  intro k
  induction k with
  | zero =>
    intro i nodes _
    unfold swapExpiredLoop
    rw [Nat.add_zero, if_neg (Nat.lt_irrefl i)]
    rfl
  | succ k ih =>
    intro i nodes hle
    have hi : i < nodes.size := by omega
    unfold swapExpiredLoop sweep
    rw [if_pos (by omega), Array.getElem?_eq_getElem hi]
    dsimp only
    -- one that stays: the index goes on
    have hon : swapExpiredLoop records now timeout (k + 1) (i + 1) (i + (k + 1)) nodes =
        some (sweep (fun p => Memberlist.expired now timeout (records p)) k (i + 1) nodes) := by
      rw [show i + (k + 1) = i + 1 + k by omega]
      exact ih (i + 1) nodes (by omega)
    by_cases hgone : (records nodes[i]).deadOrLeft = true
    · rw [if_neg (by rw [hgone]; exact Bool.false_ne_true)]
      by_cases hrecent : now - (records nodes[i]).stateChange ≤ timeout
      · have hexp := expired_eq_false.mpr (.inr hrecent)
        rw [if_pos hrecent, if_neg (ne_true_of_eq_false hexp)]
        exact hon
      · rw [if_neg hrecent, if_pos]
        · -- one that goes: the end comes nearer, and the index stays for the one swapped in
          rw [show i + (k + 1) - 1 = i + k by omega]
          refine ih i _ ?_
          rw [Array.size_swapIfInBounds]
          omega
        · unfold Memberlist.expired
          rw [hgone, Bool.true_and, decide_eq_true_eq]
          exact Int.not_le.mp hrecent
    · have hstays := Bool.eq_false_iff.mpr hgone
      rw [if_pos (by rw [hstays]; rfl),
        if_neg (by rw [expired_eq_false.mpr (.inl hstays)]; exact Bool.false_ne_true)]
      exact hon

/-- **`swapExpiredToEnd` partitions the slice**: the loop ends for every slice, and what it
returns is a permutation of it with the expired nodes from the returned index on. -/
theorem swapExpiredLoop_partitions (records : Nat → NodeState) (now timeout : Time)
    (nodes : Array Nat) :
    ∃ expiredIdx nodes',
      swapExpiredLoop records now timeout (nodes.size + 1) 0 nodes.size nodes =
        some (expiredIdx, nodes') ∧
      nodes'.toList.Perm nodes.toList ∧ expiredIdx ≤ nodes'.size ∧
      (∀ j p, j < expiredIdx → nodes'[j]? = some p →
        Memberlist.expired now timeout (records p) = false) ∧
      ∀ j p, expiredIdx ≤ j → nodes'[j]? = some p →
        Memberlist.expired now timeout (records p) = true := by
  have hloop := swapExpiredLoop_eq records now timeout nodes.size 0 nodes (by omega)
  rw [Nat.zero_add] at hloop
  have hswept := sweepAll_swept (fun p => Memberlist.expired now timeout (records p)) nodes
  exact ⟨_, _, hloop, sweepAll_perm _ nodes, hswept.le, hswept.good, hswept.bad⟩

section Runs

variable [Encoded Msg] [Heap H (TransmitCapItem Msg)]

/-- **`reap` removes the expired nodes and nobody else.** In every reachable state and at
every time: the nodes kept are those that have not been dead or left for longer than
`DeadNodeExpiredTimeout`, each of them once and with the record it had; an ID stays in the
map, with the same record, exactly if its node is kept; and the rest of the member, the
length of the slice in `numNodes` apart, is as before. The loop it runs ends for every slice
and returns the index that parts it. -/
theorem reap_removes_expired {m : Memberlist H} (h : Reachable m) (env : Env) :
    (m.reap env).nodes.toList.Perm (m.nodes.toList.filter fun p =>
      !Memberlist.expired env.now m.config.deadNodeExpiredTimeout (m.records p)) ∧
    (m.reap env).nodes.toList.Nodup ∧
    (∀ id p, (m.reap env).nodeMap id = some p ↔ m.nodeMap id = some p ∧
      Memberlist.expired env.now m.config.deadNodeExpiredTimeout (m.records p) = false) ∧
    m.reap env = { m with
      nodes := (m.reap env).nodes
      nodeMap := (m.reap env).nodeMap
      numNodes := Int32.ofNat (m.reap env).nodes.size } ∧
    swapExpiredLoop m.records env.now m.config.deadNodeExpiredTimeout (m.nodes.size + 1) 0
      m.nodes.size m.nodes = some (m.swapExpiredToEnd env.now) ∧
    ∀ (records : Nat → NodeState) (now timeout : Time) (nodes : Array Nat),
      ∃ expiredIdx nodes',
        swapExpiredLoop records now timeout (nodes.size + 1) 0 nodes.size nodes =
          some (expiredIdx, nodes') ∧
        nodes'.toList.Perm nodes.toList ∧ expiredIdx ≤ nodes'.size ∧
        (∀ j p, j < expiredIdx → nodes'[j]? = some p →
          Memberlist.expired now timeout (records p) = false) ∧
        ∀ j p, expiredIdx ≤ j → nodes'[j]? = some p →
          Memberlist.expired now timeout (records p) = true := by
  have hr := reachable_registry h
  have hperm := (Registry.reap_nodes_perm m env).trans
    (sweepAll_take_perm (Registry.expiredAt env.now m) m.nodes)
  refine ⟨hperm, ?_, hr.reap_map env, ?_, ?_, swapExpiredLoop_partitions⟩
  · exact hperm.nodup_iff.mpr (List.Nodup.of_map _ hr.ids |>.filter _)
  · rw [← (hr.reap env).count]
    rfl
  · have hloop := swapExpiredLoop_eq m.records env.now m.config.deadNodeExpiredTimeout
      m.nodes.size 0 m.nodes (by omega)
    rwa [Nat.zero_add] at hloop

end Runs

open Concrete in
/-- Of two dead nodes one has expired. -/
theorem reap_removes_expired_one :
    let other : Alive :=
      { lives := 1, id := "other", ip := [127, 0, 0, 3], port := 7946, tags := [] }
    let ops : List Op := [.alive {} (aliveMsg 1) none, .alive {} other none,
      .dead { now := 10 } ⟨1, "peer", false⟩ none, .dead { now := 90 } ⟨1, "other", false⟩ none]
    let m := state ops (by decide)
    m.nodes = #[2, 0, 1] ∧ (m.reap { now := 100 }).nodes.toList.Perm [2, 0] ∧
      (m.reap { now := 100 }).nodeMap "other" = some 2 ∧
      (m.reap { now := 100 }).nodeMap "peer" ≠ some 1 := by
  intro other ops m
  have hm : Reachable m := reachable_state ops (by decide)
  obtain ⟨hperm, -, hmap, -⟩ := reap_removes_expired hm { now := 100 }
  have hkept : (m.nodes.toList.filter fun p =>
      !Memberlist.expired 100 m.config.deadNodeExpiredTimeout (m.records p)) = [2, 0] := by decide
  rw [hkept] at hperm
  refine ⟨by decide, hperm, ?_, fun hpeer => ?_⟩
  · refine (hmap "other" 2).mpr ⟨?_, ?_⟩
    · decide +kernel
    · decide
  · have hexp := ((hmap "peer" 1).mp hpeer).2
    revert hexp
    decide

end Mlist
