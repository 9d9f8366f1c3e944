import Mathlib.Data.Finset.Dedup
import Mathlib.Data.List.Nodup
import Mathlib.Data.Set.Finite.Basic
import Mlist.Member.Atom
import Mlist.Model.Concrete

/-!
# Three views of the membership

A member keeps its nodes three times: in the slice `m.nodes`, in the map
`m.nodeMap`, and as the number `m.numNodes`. Inserting appends to the slice and
swaps, reaping swaps to the end, truncates and shuffles, the map is written entry
by entry, and the number is added to in one place and stored in another.
`Registry` says the three agree — the map sends an ID to exactly the slice's
record of that ID — and `atom_registry` that no change breaks it.

With the map and the slice in agreement the pointers can be forgotten: the
`lookup_…` lemmas say what each change does to the record of each ID, and the
files after this one speak of `lookup` only.
-/

namespace Mlist

open Mlist.Lib

variable {H : Type}

/-- The slice, the map and the counter agree. -/
structure Registry (m : Memberlist H) : Prop where
  ids : (m.nodes.toList.map fun p => (m.records p).node.id).Nodup
  map : ∀ id p, m.nodeMap id = some p ↔ p ∈ m.nodes.toList ∧ (m.records p).node.id = id
  count : m.numNodes = Int32.ofNat m.nodes.size
  alloc : ∀ p ∈ m.nodes.toList, p < m.numRecords

namespace Registry

variable {m : Memberlist H}

theorem map_id (h : Registry m) {id : String} {p : Nat} (hp : m.nodeMap id = some p) :
    (m.records p).node.id = id := ((h.map id p).mp hp).2

/-- Different IDs have different records. -/
theorem map_inj (h : Registry m) {id id' : String} {p : Nat} (hp : m.nodeMap id = some p)
    (hp' : m.nodeMap id' = some p) : id = id' :=
  (h.map_id hp).symm.trans (h.map_id hp')

theorem lookup_id (h : Registry m) {id : String} {r : NodeState} (hr : m.lookup id = some r) :
    r.node.id = id := by
  obtain ⟨p, hp, rfl⟩ := Memberlist.lookup_eq_some.mp hr
  exact h.map_id hp

/-! ## Writing a record -/

/-- Writing a record through its pointer changes the record of one ID. -/
theorem lookup_setRecord (h : Registry m) {id : String} {p : Nat} (hp : m.nodeMap id = some p)
    (r : NodeState) (id' : String) :
    (m.setRecord p r).lookup id' = if id' = id then some r else m.lookup id' := by
  show (m.nodeMap id').map (Function.update m.records p r) = _
  by_cases hid : id' = id
  · rw [if_pos hid, hid, hp, Option.map_some, Function.update_self]
  · rw [if_neg hid]
    cases hp' : m.nodeMap id' with
    | none => simp [Memberlist.lookup, hp']
    | some q =>
      have hq : q ≠ p := fun he => hid (h.map_inj hp' (he ▸ hp))
      rw [Option.map_some, Function.update_of_ne hq, Memberlist.lookup_of_map hp']

/-- Whatever else is changed, where one record was written the lookups say so. -/
theorem lookup_of_records (h : Registry m) {m' : Memberlist H} {id : String} {p : Nat}
    {r : NodeState} (hp : m.nodeMap id = some p) (hmap : m'.nodeMap = m.nodeMap)
    (hrecords : m'.records = Function.update m.records p r) (id' : String) :
    m'.lookup id' = if id' = id then some r else m.lookup id' := by
  rw [← h.lookup_setRecord hp r id', Memberlist.lookup, hmap, hrecords]
  rfl

/-- A record may be overwritten by one of the same node. -/
theorem setRecord (h : Registry m) {p : Nat} {r : NodeState}
    (hid : r.node.id = (m.records p).node.id) : Registry (m.setRecord p r) := by
  have hrec : ∀ q, ((m.setRecord p r).records q).node.id = (m.records q).node.id := by
    intro q
    show (Function.update m.records p r q).node.id = _
    by_cases hq : q = p
    · rw [hq, Function.update_self, hid]
    · rw [Function.update_of_ne hq]
  refine ⟨?_, ?_, h.count, h.alloc⟩
  · have hfun : (fun q => ((m.setRecord p r).records q).node.id) =
        fun q => (m.records q).node.id := funext hrec
    show (m.nodes.toList.map fun q => ((m.setRecord p r).records q).node.id).Nodup
    rw [hfun]
    exact h.ids
  · intro id q
    rw [hrec q]
    exact h.map id q

/-! ## Inserting a node -/

/-- The new record is in the slice, wherever the draw has put it. -/
theorem insert_nodes_perm (m : Memberlist H) (env : Env) (r : NodeState) :
    (m.insertNode env r).nodes.toList.Perm (m.numRecords :: m.nodes.toList) := by
  refine (swapIfInBounds_perm _ _ _).trans ?_
  rw [Array.toList_push]
  exact List.perm_append_singleton _ _

/-- Old pointers are not the one about to be allocated. -/
theorem map_ne_fresh (h : Registry m) {id : String} {p : Nat} (hp : m.nodeMap id = some p) :
    p ≠ m.numRecords :=
  Nat.ne_of_lt (h.alloc p ((h.map id p).mp hp).1)

/-- It is found under its name, and nobody else is disturbed. -/
theorem lookup_insertNode (h : Registry m) (env : Env) (r : NodeState) (id : String) :
    (m.insertNode env r).lookup id = if id = r.node.id then some r else m.lookup id := by
  show (Function.update m.nodeMap r.node.id (some m.numRecords) id).map
    (Function.update m.records m.numRecords r) = _
  by_cases hid : id = r.node.id
  · rw [if_pos hid, hid, Function.update_self, Option.map_some, Function.update_self]
  · rw [if_neg hid, Function.update_of_ne hid]
    cases hp : m.nodeMap id with
    | none => simp [Memberlist.lookup, hp]
    | some q =>
      rw [Option.map_some, Function.update_of_ne (h.map_ne_fresh hp), Memberlist.lookup_of_map hp]

/-- A new node may be inserted. -/
theorem insertNode (h : Registry m) (env : Env) {r : NodeState}
    (habs : m.nodeMap r.node.id = none) : Registry (m.insertNode env r) := by
  have hperm := insert_nodes_perm m env r
  have hrec : ∀ q ∈ m.nodes.toList, (m.insertNode env r).records q = m.records q := by
    intro q hq
    exact Function.update_of_ne (Nat.ne_of_lt (h.alloc q hq)) _ _
  have hnew : (m.insertNode env r).records m.numRecords = r := Function.update_self _ _ _
  -- nobody in the slice has the new ID
  have hother : ∀ q ∈ m.nodes.toList, (m.records q).node.id ≠ r.node.id := by
    intro q hq he
    have := (h.map r.node.id q).mpr ⟨hq, he⟩
    rw [habs] at this
    cases this
  refine ⟨?_, ?_, ?_, ?_⟩
  · rw [(hperm.map _).nodup_iff, List.map_cons, List.nodup_cons, hnew]
    have hsame : (m.nodes.toList.map fun q => ((m.insertNode env r).records q).node.id) =
        m.nodes.toList.map fun q => (m.records q).node.id :=
      List.map_congr_left fun q hq => by rw [hrec q hq]
    rw [hsame]
    refine ⟨fun hmem => ?_, h.ids⟩
    obtain ⟨q, hq, hid⟩ := List.mem_map.mp hmem
    exact hother q hq hid
  · intro id q
    rw [hperm.mem_iff, List.mem_cons]
    show Function.update m.nodeMap r.node.id (some m.numRecords) id = some q ↔ _
    by_cases hid : id = r.node.id
    · rw [hid, Function.update_self]
      constructor
      · intro he
        obtain rfl := Option.some.inj he
        exact ⟨Or.inl rfl, by rw [hnew]⟩
      · intro hand
        rcases hand with ⟨rfl | hq, hq'⟩
        · rfl
        · rw [hrec q hq] at hq'
          exact absurd hq' (hother q hq)
    · rw [Function.update_of_ne hid, h.map id q]
      constructor
      · intro hand
        obtain ⟨hq, hq'⟩ := hand
        exact ⟨Or.inr hq, by rw [hrec q hq]; exact hq'⟩
      · intro hand
        rcases hand with ⟨rfl | hq, hq'⟩
        · rw [hnew] at hq'
          exact absurd hq'.symm hid
        · exact ⟨hq, by rw [← hrec q hq]; exact hq'⟩
  · have hsize : (m.insertNode env r).nodes.size = m.nodes.size + 1 := by
      have := hperm.length_eq
      simpa using this
    show m.numNodes + 1 = _
    rw [hsize, h.count, Int32.ofNat_add]
    rfl
  · intro q hq
    show q < m.numRecords + 1
    rcases List.mem_cons.mp (hperm.mem_iff.mp hq) with rfl | hq
    · exact Nat.lt_succ_self _
    · exact Nat.lt_succ_of_lt (h.alloc q hq)

end Registry

/-! ## Reaping -/

/-- The names of the nodes that go are removed, and no others. -/
theorem deregister_eq (records : Nat → NodeState) :
    ∀ (gone : List Nat) (nodeMap : String → Option Nat) (id : String),
      Memberlist.deregister records nodeMap gone id =
        if ∃ p ∈ gone, (records p).node.id = id then none else nodeMap id := by
  intro gone
  induction gone with
  | nil =>
    intro nodeMap id
    rw [if_neg (by simp)]
    rfl
  | cons q gone ih =>
    intro nodeMap id
    show Memberlist.deregister records
      (Function.update nodeMap (records q).node.id none) gone id = _
    rw [ih]
    by_cases hgone : ∃ p ∈ gone, (records p).node.id = id
    · obtain ⟨p, hp, hid⟩ := hgone
      rw [if_pos ⟨p, hp, hid⟩, if_pos ⟨p, List.mem_cons_of_mem _ hp, hid⟩]
    · rw [if_neg hgone]
      by_cases hq : (records q).node.id = id
      · rw [if_pos ⟨q, List.mem_cons_self .., hq⟩, hq, Function.update_self]
      · rw [Function.update_of_ne (fun he => hq he.symm), if_neg]
        intro hand
        obtain ⟨p, hp, hid⟩ := hand
        rcases List.mem_cons.mp hp with rfl | hp
        · exact hq hid
        · exact hgone ⟨p, hp, hid⟩

namespace Registry

variable {m : Memberlist H}

/-- The test `reap` puts to the record at `p`. -/
def expiredAt (now : Time) (m : Memberlist H) (p : Nat) : Bool :=
  Memberlist.expired now m.config.deadNodeExpiredTimeout (m.records p)

theorem reap_nodes_perm (m : Memberlist H) (env : Env) :
    (m.reap env).nodes.toList.Perm
      ((m.swapExpiredToEnd env.now).2.toList.take (m.swapExpiredToEnd env.now).1) :=
  shuffle_perm _ _ _

/-- Who stays in the slice has not expired. -/
theorem mem_reap_nodes {env : Env} {p : Nat} :
    p ∈ (m.reap env).nodes.toList ↔ p ∈ m.nodes.toList ∧ expiredAt env.now m p = false := by
  rw [(reap_nodes_perm m env).mem_iff]
  exact mem_sweepAll_take

/-- And who stays in the map has not. -/
theorem reap_map (h : Registry m) (env : Env) (id : String) (p : Nat) :
    (m.reap env).nodeMap id = some p ↔ m.nodeMap id = some p ∧ expiredAt env.now m p = false := by
  show Memberlist.deregister m.records m.nodeMap
    ((m.swapExpiredToEnd env.now).2.toList.drop (m.swapExpiredToEnd env.now).1) id = some p ↔ _
  rw [deregister_eq]
  have hgone : ∀ q, q ∈ (m.swapExpiredToEnd env.now).2.toList.drop (m.swapExpiredToEnd env.now).1 ↔
      q ∈ m.nodes.toList ∧ expiredAt env.now m q = true := fun q => mem_sweepAll_drop
  split
  next hex =>
    obtain ⟨q, hq, hid⟩ := hex
    obtain ⟨hmem, hexp⟩ := (hgone q).mp hq
    have hqp := (h.map id q).mpr ⟨hmem, hid⟩
    constructor
    · intro he
      cases he
    · intro hand
      obtain ⟨hp, hnot⟩ := hand
      rw [hqp] at hp
      rw [← Option.some.inj hp, hexp] at hnot
      cases hnot
  next hex =>
    constructor
    · intro hp
      refine ⟨hp, ?_⟩
      obtain ⟨hmem, hid⟩ := (h.map id p).mp hp
      cases hexp : expiredAt env.now m p with
      | false => rfl
      | true => exact absurd ⟨p, (hgone p).mpr ⟨hmem, hexp⟩, hid⟩ hex
    · exact And.left

/-- Reaping keeps the records that have not expired, and only those. -/
theorem lookup_reap (h : Registry m) (env : Env) (id : String) :
    (m.reap env).lookup id = (m.lookup id).filter fun r =>
      !Memberlist.expired env.now m.config.deadNodeExpiredTimeout r := by
  show ((m.reap env).nodeMap id).map m.records = _
  cases hp : m.nodeMap id with
  | none =>
    have hnone : (m.reap env).nodeMap id = none := by
      cases hp' : (m.reap env).nodeMap id with
      | none => rfl
      | some q =>
        have := ((h.reap_map env id q).mp hp').1
        rw [hp] at this
        cases this
    rw [hnone, Memberlist.lookup, hp]
    rfl
  | some p =>
    rw [Memberlist.lookup_of_map hp]
    cases hexp : expiredAt env.now m p with
    | false =>
      have hsome := (h.reap_map env id p).mpr ⟨hp, hexp⟩
      have hf : Memberlist.expired env.now m.config.deadNodeExpiredTimeout (m.records p) =
          false := hexp
      rw [hsome, Option.map_some, Option.filter_some, hf]
      rfl
    | true =>
      have hnone : (m.reap env).nodeMap id = none := by
        cases hp' : (m.reap env).nodeMap id with
        | none => rfl
        | some q =>
          obtain ⟨hq, hnot⟩ := (h.reap_map env id q).mp hp'
          rw [hp] at hq
          rw [← Option.some.inj hq, hexp] at hnot
          cases hnot
      have ht : Memberlist.expired env.now m.config.deadNodeExpiredTimeout (m.records p) =
          true := hexp
      rw [hnone, Option.filter_some, ht]
      rfl

/-- After reaping, map and slice agree again. -/
theorem reap (h : Registry m) (env : Env) : Registry (m.reap env) := by
  refine ⟨?_, ?_, ?_, ?_⟩
  · rw [((reap_nodes_perm m env).map _).nodup_iff]
    have hp := (sweepAll_perm (expiredAt env.now m) m.nodes).map fun p => (m.records p).node.id
    exact (hp.nodup_iff.mpr h.ids).sublist ((List.take_sublist _ _).map _)
  · intro id p
    rw [h.reap_map, mem_reap_nodes, h.map id p]
    constructor
    · intro hand
      obtain ⟨⟨hp, hid⟩, hexp⟩ := hand
      exact ⟨⟨hp, hexp⟩, hid⟩
    · intro hand
      obtain ⟨⟨hp, hexp⟩, hid⟩ := hand
      exact ⟨⟨hp, hid⟩, hexp⟩
  · have hle : (m.swapExpiredToEnd env.now).1 ≤ (m.swapExpiredToEnd env.now).2.size :=
      (sweepAll_swept (expiredAt env.now m) m.nodes).le
    have hsize : (m.reap env).nodes.size = (m.swapExpiredToEnd env.now).1 := by
      have := (reap_nodes_perm m env).length_eq
      rw [List.length_take, Array.length_toList, Array.length_toList] at this
      omega
    show Int32.ofNat (m.swapExpiredToEnd env.now).1 = _
    rw [hsize]
  · intro p hp
    exact h.alloc p (mem_reap_nodes.mp hp).1

end Registry

/-! ## Every change -/

theorem SameCore.registry {m m' : Memberlist H} (h : SameCore m m') (hr : Registry m) :
    Registry m' := by
  refine ⟨?_, ?_, ?_, ?_⟩
  · rw [h.nodes, h.records]
    exact hr.ids
  · rw [h.nodeMap, h.nodes, h.records]
    exact hr.map
  · rw [h.numNodes, h.nodes]
    exact hr.count
  · rw [h.nodes, h.numRecords]
    exact hr.alloc

theorem registry_new [Encoded Msg] [Heap H (TransmitCapItem Msg)] (config : Config) :
    Registry (Memberlist.new config : Memberlist H) :=
  ⟨List.nodup_nil, fun _ _ => by simp [Memberlist.new], rfl,
    fun _ hp => absurd hp (by simp [Memberlist.new])⟩

theorem registry_disarm {m : Memberlist H} (k : Nat) (h : Registry m) : Registry (m.disarm k) :=
  ⟨h.ids, h.map, h.count, h.alloc⟩

section Runs

variable [Encoded Msg] [Heap H (TransmitCapItem Msg)]

/-- **The three views stay in agreement**, whatever the member does. -/
theorem atom_registry {ok : Msg → Prop} (m m' : Memberlist H) (h : Registry m)
    (ha : Atom ok m m') : Registry m' := by
  cases ha with
  | quiet hq => exact hq.same.registry h
  | insert env a _ habs => exact h.insertNode env habs
  | revive env a p _ hmap _ =>
    have hd : Registry (m.dropSuspicion a.id) := ⟨h.ids, h.map, h.count, h.alloc⟩
    exact hd.setRecord rfl
  | confirm s p k _ _ _ => exact ⟨h.ids, h.map, h.count, h.alloc⟩
  | refute msg p calls _ _ _ _ _ _ =>
    have hd : Registry { m with
        liveCalls := calls
        issued := m.issued ++ [Memberlist.refuteMsg (m.records p) (calls % livesSize)] } :=
      ⟨h.ids, h.map, h.count, h.alloc⟩
    exact hd.setRecord rfl
  | suspect env s p _ _ _ _ _ _ =>
    have hd : Registry (m.setRecord p
        { m.records p with lives := s.lives, state := .suspect, stateChange := env.now }) :=
      h.setRecord rfl
    exact ⟨hd.ids, hd.map, hd.count, hd.alloc⟩
  | kill env d p _ _ _ _ _ =>
    have hd : Registry (m.dropSuspicion d.id) := ⟨h.ids, h.map, h.count, h.alloc⟩
    exact hd.setRecord rfl

/-- They agree in every reachable state. -/
theorem reachable_registry {m : Memberlist H} (h : Reachable m) : Registry m :=
  reachable_inv registry_new atom_registry (fun _ env hr => hr.reap env)
    (fun _ k => registry_disarm k) h

theorem step_registry {m m' : Memberlist H} {op : Op} (hm : Registry m)
    (h : step op m = some m') : Registry m' :=
  step_inv atom_registry (fun _ env hr => hr.reap env) (fun _ k => registry_disarm k)
    (opOk_true m op) h hm

/-- **Membership is kept consistently.** In every reachable state the IDs in
`m.nodes` are pairwise distinct, the keys of `m.nodeMap` are those IDs, the map
points to the very record the slice holds for that ID, and `m.numNodes` is the
length of the slice as an `int32` — the length itself while that fits. -/
theorem membership_views_agree {m : Memberlist H} (h : Reachable m) :
    (m.nodes.toList.map fun p => (m.records p).node.id).Nodup ∧
    (∀ id, (m.nodeMap id).isSome ↔ id ∈ m.nodes.toList.map fun p => (m.records p).node.id) ∧
    (∀ id p, m.nodeMap id = some p ↔ p ∈ m.nodes.toList ∧ (m.records p).node.id = id) ∧
    m.numNodes = Int32.ofNat m.nodes.size ∧
    (m.nodes.size < 2 ^ 31 → m.numNodes.toInt = m.nodes.size) := by
  have hr := reachable_registry h
  refine ⟨hr.ids, ?_, hr.map, hr.count, ?_⟩
  · intro id
    rw [Option.isSome_iff_exists, List.mem_map]
    exact exists_congr (hr.map id)
  · intro hlt
    rw [hr.count]
    exact Int32.toInt_ofNat_of_lt hlt

end Runs

open Concrete in
/-- After a join, a death, a reap and a second join: two nodes in every view. -/
theorem membership_views_agree_rejoined :
    let m := state [.alive {} (aliveMsg 3) none, .dead {} ⟨3, "peer", false⟩ none,
      .reap { now := 100 }, .alive {} (aliveMsg 1) none] (by decide)
    m.nodes.size = 2 ∧ m.numNodes.toInt = 2 := by
  refine ⟨by decide, ?_⟩
  obtain ⟨-, -, -, -, hcount⟩ := membership_views_agree (reachable_state
    [.alive {} (aliveMsg 3) none, .dead {} ⟨3, "peer", false⟩ none,
      .reap { now := 100 }, .alive {} (aliveMsg 1) none] (by decide))
  exact hcount (by decide)

/-! ## More nodes than an `int32` counts -/

section Crowd

variable [Encoded Msg] [Heap H (TransmitCapItem Msg)]

/-- A node we did not know makes the slice longer by one. -/
theorem aliveNode_grows {m : Memberlist H} {a : Alive} (habs : m.nodeMap a.id = none)
    (hc : m.aliveChecks a = true) (env : Env) (notify : Option Nat) :
    (m.aliveNode env a notify).nodes.size = m.nodes.size + 1 ∧
      (m.aliveNode env a notify).config = m.config := by
  unfold Memberlist.aliveNode
  rw [if_pos hc]
  have hcase := aliveLocked_case m env a notify
  dsimp only
  generalize m.aliveLocked env a notify = res at hcase
  obtain ⟨_, _, _, he⟩ := alivePublish_case res.1 res.2
  rw [he]
  cases hcase with
  | joined _ =>
    refine ⟨?_, rfl⟩
    show ((m.nodes.push m.numRecords).swapIfInBounds _ _).size = _
    rw [Array.size_swapIfInBounds, Array.size_push]
  | stale p hmap _ => exact absurd (habs.symm.trans hmap) (by simp)
  | news p hmap _ => exact absurd (habs.symm.trans hmap) (by simp)

end Crowd

open Concrete in
/-- There is always an ID that nobody has yet, so there may be any number of nodes. -/
theorem exists_nodes_size (n : Nat) :
    ∃ m : Member, Reachable m ∧ m.left = false ∧ m.config.cidrsAllowed = [] ∧
      m.nodes.size = n + 1 := by
  induction n with
  | zero => exact ⟨built "me" me_ne, ⟨{}, config, _, [], build_built _ _, rfl⟩, rfl, rfl, rfl⟩
  | succ n ih =>
    obtain ⟨m, ⟨env, cfg, m₀, ops, hb, hrun⟩, hleft, hopen, hsize⟩ := ih
    have hreg : Registry m := reachable_registry ⟨env, cfg, m₀, ops, hb, hrun⟩
    obtain ⟨id, hid⟩ := Infinite.exists_notMem_finset
      (m.nodes.toList.map fun p => (m.records p).node.id).toFinset
    let a : Alive := { lives := 1, id, ip := [127, 0, 0, 2], port := 7946, tags := [] }
    have habs : m.nodeMap a.id = none := by
      refine Option.eq_none_iff_forall_ne_some.mpr fun p hp => hid ?_
      obtain ⟨hmem, hrec⟩ := (hreg.map a.id p).mp hp
      exact List.mem_toFinset.mpr (List.mem_map.mpr ⟨p, hmem, hrec⟩)
    have hc : m.aliveChecks a = true := by
      unfold Memberlist.aliveChecks Memberlist.ipAllowed
      rw [hleft, hopen]
      rfl
    obtain ⟨hgrown, hconfig⟩ := aliveNode_grows habs hc {} none
    refine ⟨m.aliveNode {} a none, ⟨env, cfg, m₀, ops ++ [.alive {} a none], hb, ?_⟩, ?_, ?_, ?_⟩
    · rw [run_append, hrun]
      rfl
    · rw [(aliveNode_frame m {} a none).2, hleft]
    · rw [hconfig, hopen]
    · rw [hgrown, hsize]

open Concrete in
/-- With 2^31 nodes the number is negative. -/
theorem numNodes_wraps :
    ∃ m : Member, Reachable m ∧ m.nodes.size = 2 ^ 31 ∧ m.numNodes.toInt = -2 ^ 31 := by
  obtain ⟨m, hm, -, -, hsize⟩ := exists_nodes_size (2 ^ 31 - 1)
  have hsize : m.nodes.size = 2 ^ 31 := hsize
  refine ⟨m, hm, hsize, ?_⟩
  rw [(reachable_registry hm).count, hsize]
  decide

end Mlist
