import Mlist.Model.Concrete
import Mlist.Model.Pick

/-!
# What a random pick comes to

Whatever is drawn, `pickRandomNodes` gives at most as many nodes as it is asked for, no two
of them with the same ID, and each of them a node of the list that its caller accepts:
`Picked` holds at every round of the loop. That is all for lists a process can usually hold.

There are two ways not to get that far. `make` does not accept every capacity, and it is
asked for `numNodes` however short the list is. And `randIntN` is careful not to divide by
a length of 0, but divides by the length as a `uint32`, which is 0 for every multiple of
2^32. `pickRandomNodes_iff` says that these are the only ways.
-/

namespace Mlist

open Mlist.Lib

/-! ## One draw -/

/-- What is drawn is a position of the list, unless the length is 0 as a `uint32`. -/
theorem randIntN_lt {n : Nat} (h : n % 2 ^ 32 ≠ 0) (r : UInt32) :
    ∃ idx, randIntN r n = .ok idx ∧ idx < n := by
  have hn : n ≠ 0 := by
    intro hn
    rw [hn] at h
    exact h rfl
  refine ⟨r.toNat % (n % 2 ^ 32), ?_, ?_⟩
  · unfold randIntN
    rw [if_neg hn, if_neg h]
  · calc r.toNat % (n % 2 ^ 32) < n % 2 ^ 32 := Nat.mod_lt _ (Nat.pos_of_ne_zero h)
      _ ≤ n := Nat.mod_le n _

/-- A number of nodes that is a multiple of 2^32 becomes zero, by which the remainder is taken. -/
theorem randIntN_crash {n : Nat} (hn : n ≠ 0) (h : n % 2 ^ 32 = 0) (r : UInt32) :
    randIntN r n = .crash "integer divide by zero" := by
  unfold randIntN
  rw [if_neg hn, if_pos h]

/-! ## The loop -/

/-- What has been picked: no node twice, none that is not in the list or not accepted, and not
more than asked for. -/
structure Picked (nodes : List NodeState) (numNodes : Int) (acceptFn : Option (NodeState → Bool))
    (picked : List NodeState) : Prop where
  ids : (picked.map (·.node.id)).Nodup
  listed : ∀ node ∈ picked, node ∈ nodes
  accepted : ∀ accept, acceptFn = some accept → ∀ node ∈ picked, accept node = true
  len : (picked.length : Int) ≤ numNodes

section Loop

variable {nodes picked : List NodeState} {numNodes : Int} {acceptFn : Option (NodeState → Bool)}

theorem picked_nil (h : 0 ≤ numNodes) : Picked nodes numNodes acceptFn [] where
  ids := List.nodup_nil
  listed := fun _ hnode => by cases hnode
  accepted := fun _ _ _ hnode => by cases hnode
  len := h

/-- **A round that picks a node.** -/
theorem Picked.append {node : NodeState} (h : Picked nodes numNodes acceptFn picked)
    (hroom : (picked.length : Int) < numNodes) (hlisted : node ∈ nodes)
    (haccepted : refuses acceptFn node = false)
    (hnew : (picked.any fun p => node.node.id == p.node.id) = false) :
    Picked nodes numNodes acceptFn (picked ++ [node]) where
  ids := by
    rw [List.map_append, List.map_singleton]
    refine List.nodup_append.mpr ⟨h.ids, List.nodup_singleton _, ?_⟩
    intro id hid id' hid' he
    obtain ⟨p, hp, rfl⟩ := List.mem_map.mp hid
    rw [List.mem_singleton.mp hid'] at he
    have hne := List.any_eq_false.mp hnew p hp
    exact hne (beq_iff_eq.mpr he.symm)
  listed := by
    intro p hp
    rcases List.mem_append.mp hp with hp | hp
    · exact h.listed p hp
    · rw [List.mem_singleton.mp hp]
      exact hlisted
  accepted := by
    intro accept haccept p hp
    rcases List.mem_append.mp hp with hp | hp
    · exact h.accepted accept haccept p hp
    · rw [List.mem_singleton.mp hp]
      subst haccept
      simpa [refuses] using haccepted
  len := by
    rw [List.length_append, List.length_singleton]
    omega

/-- **The loop picks well, whatever is drawn.** The induction is on the rounds that are left. -/
theorem pickLoop_picks (hn : nodes.length % 2 ^ 32 ≠ 0) (rand : Nat → UInt32) :
    ∀ (left i : Nat) {picked : List NodeState}, Picked nodes numNodes acceptFn picked →
      ∃ result, pickLoop nodes numNodes acceptFn rand left i picked = .ok result ∧
        Picked nodes numNodes acceptFn result := by
  intro left
  induction left with
  | zero =>
    intro i picked h
    exact ⟨picked, rfl, h⟩
  | succ left ih =>
    intro i picked h
    unfold pickLoop
    by_cases hroom : (picked.length : Int) < numNodes
    · obtain ⟨idx, hidx, hlt⟩ := randIntN_lt hn (rand i)
      obtain ⟨node, hnode⟩ := Outcome.index_of_lt hlt
      rw [if_pos hroom, hidx, Outcome.ok_bind, hnode, Outcome.ok_bind]
      cases hrefused : refuses acceptFn node with
      | true => exact ih (i + 1) h
      | false =>
        cases hpicked : picked.any fun p => node.node.id == p.node.id with
        | true => exact ih (i + 1) h
        | false =>
          exact ih (i + 1) (h.append hroom (Outcome.mem_of_index hnode) hrefused hpicked)
    · rw [if_neg hroom]
      exact ⟨picked, rfl, h⟩

/-- Once enough have been picked the loop ends. -/
theorem pickLoop_full (rand : Nat → UInt32) (left i : Nat) (h : numNodes ≤ picked.length) :
    pickLoop nodes numNodes acceptFn rand left i picked = .ok picked := by
  cases left with
  | zero => rfl
  | succ left =>
    unfold pickLoop
    rw [if_neg (by omega)]

/-- A list so long makes the loop panic at its first draw. -/
theorem pickLoop_crash (rand : Nat → UInt32) (i : Nat) (hne : nodes ≠ [])
    (hn : nodes.length % 2 ^ 32 = 0) (h : (picked.length : Int) < numNodes) :
    pickLoop nodes numNodes acceptFn rand (3 * nodes.length) i picked =
      .crash "integer divide by zero" := by
  have hlen : 0 < nodes.length := List.length_pos_iff.mpr hne
  obtain ⟨left, hleft⟩ : ∃ left, 3 * nodes.length = left + 1 := ⟨3 * nodes.length - 1, by omega⟩
  rw [hleft]
  unfold pickLoop
  rw [if_pos h, randIntN_crash (by omega) hn, Outcome.crash_bind]

end Loop

/-! ## The call -/

/-- **When a random pick comes to something.** For every member and every list of nodes in
it, every number asked for, every predicate and every sequence of draws: the call returns,
with no more nodes than asked for, no two of the same ID, each in the list and accepted,
exactly if `make` accepts the number, and the list is empty, nothing was asked for, or the
length of the list is not a multiple of 2^32. -/
theorem pickRandomNodes_iff {H : Type} (m : Memberlist H) (maxCap : Nat) {numNodes : Int}
    (h : 0 ≤ numNodes) (acceptFn : Option (NodeState → Bool)) (rand : Nat → UInt32) :
    (∃ picked, m.pickRandomNodes maxCap numNodes acceptFn rand = .ok picked ∧
        Picked (m.nodes.toList.map m.records) numNodes acceptFn picked) ↔
      numNodes ≤ maxCap ∧
        (m.nodes.size = 0 ∨ numNodes = 0 ∨ m.nodes.size % 2 ^ 32 ≠ 0) := by
  have hlen : (m.nodes.toList.map m.records).length = m.nodes.size := by
    rw [List.length_map, Array.length_toList]
  unfold Memberlist.pickRandomNodes Outcome.makeCap
  dsimp only
  generalize m.nodes.toList.map m.records = nodes at hlen ⊢
  rw [← hlen]
  -- `make` comes first
  by_cases hcap : numNodes ≤ maxCap
  · rw [if_pos ⟨h, hcap⟩, Outcome.ok_bind, and_iff_right hcap]
    constructor
    · intro hpicks
      obtain ⟨picked, hpicked, -⟩ := hpicks
      by_cases hempty : nodes = []
      · exact Or.inl (List.length_eq_zero_iff.mpr hempty)
      · by_cases hzero : numNodes = 0
        · exact Or.inr (Or.inl hzero)
        · refine Or.inr (Or.inr fun hn => ?_)
          -- there is a draw, and it divides by zero
          have hroom : (([] : List NodeState).length : Int) < numNodes := by
            rw [List.length_nil]
            omega
          rw [pickLoop_crash rand 0 hempty hn hroom] at hpicked
          cases hpicked
    · intro hcases
      rcases hcases with hempty | hzero | hn
      · refine ⟨[], ?_, picked_nil h⟩
        rw [hempty]
        rfl
      · refine ⟨[], pickLoop_full rand _ 0 ?_, picked_nil h⟩
        rw [hzero]
        exact Int.le_refl 0
      · exact pickLoop_picks hn rand _ 0 (picked_nil h)
  · refine iff_of_false ?_ fun hcases => hcap hcases.1
    intro hpicks
    obtain ⟨picked, hpicked, -⟩ := hpicks
    rw [if_neg fun hboth => hcap hboth.2] at hpicked
    cases hpicked

namespace Concrete

/-- A member whose list has `n` nodes, with the IDs `0`, `1`, `2`, … -/
def crowd (n : Nat) : Member :=
  { built "me" me_ne with
    nodes := (List.range n).toArray
    records := fun p =>
      { node := ⟨Nat.repr p, [], 0, []⟩, lives := 1, state := .alive, stateChange := 0 } }

theorem crowd_ids_nodup (n : Nat) :
    ((crowd n).nodes.toList.map fun p => ((crowd n).records p).node.id).Nodup := by
  show ((List.range n).map Nat.repr).Nodup
  refine List.Nodup.map ?_ List.nodup_range
  intro p q h
  rw [Nat.repr_eq_ofList_toDigits, Nat.repr_eq_ofList_toDigits] at h
  have hdigits : Nat.toDigits 10 p = Nat.toDigits 10 q := String.ofList_injective h
  rw [← Nat.ofDigitChars_ten_toDigits (n := p), hdigits, Nat.ofDigitChars_ten_toDigits]

theorem crowd_size (n : Nat) : (crowd n).nodes.size = n := by
  show (List.range n).toArray.size = n
  rw [List.size_toArray, List.length_range]

end Concrete

open Concrete

/-- Two of three nodes. -/
theorem pickRandomNodes_iff_three :
    ∃ picked, (crowd 3).pickRandomNodes (2 ^ 45) 2 none (fun i => UInt32.ofNat i) = .ok picked ∧
      Picked ((crowd 3).nodes.toList.map (crowd 3).records) 2 none picked :=
  (pickRandomNodes_iff (crowd 3) (2 ^ 45) (by decide) none _).mpr
    ⟨by decide, Or.inr (Or.inr (by rw [crowd_size]; decide))⟩

/-- One node of 2^32: a division by zero. And 2^62 nodes of none at all: more than `make`
accepts. -/
theorem pick_crashes :
    ((crowd (2 ^ 32)).nodes.toList.map fun p => ((crowd (2 ^ 32)).records p).node.id).Nodup ∧
      (crowd (2 ^ 32)).pickRandomNodes (2 ^ 45) 1 none (fun _ => 0) =
        .crash "integer divide by zero" ∧
      (crowd 0).pickRandomNodes (2 ^ 45) (2 ^ 62) none (fun _ => 0) =
        .crash "makeslice: cap out of range" := by
  refine ⟨crowd_ids_nodup _, ?_, rfl⟩
  have hlen : ((crowd (2 ^ 32)).nodes.toList.map (crowd (2 ^ 32)).records).length = 2 ^ 32 := by
    rw [List.length_map, Array.length_toList, crowd_size]
  have hcap : Outcome.makeCap (2 ^ 45) 1 = .ok () := rfl
  unfold Memberlist.pickRandomNodes
  rw [hcap, Outcome.ok_bind]
  refine pickLoop_crash _ 0 ?_ ?_ (by decide)
  · exact List.ne_nil_of_length_pos (by rw [hlen]; decide)
  · rw [hlen, Nat.mod_self]

end Mlist
