import Mlist.Member.Order

/-!
# What a consumer of the events knows

A member tells its application about the cluster by events only: a join, an
update of the tags, a leave. The application that keeps a map — set on join and
update, delete on leave — has, after every operation, exactly the nodes
`ActiveNodes` would return, with the same address and tags.

`replay` is that map. For one node, `Followed` says that the replayed entry is
right and that the events of the node so far are in turn: a join when it was
absent, an update or a leave when it was present. An event of another node leaves
`Followed` alone, and the three kinds of event each move it one turn. The events
come from different branches of `aliveNode` and from `deadNode`, while `reap`,
suspicions and refutations change records without a word; so the invariant
`Announced` is not kept atom by atom, only by a handler as a whole, and
`step_whole` is the induction rule for that.
-/

namespace Mlist

open Mlist.Lib

/-! ## Replaying -/

/-- What an event says about its node: gone after a leave, otherwise as it is
in the event. -/
def NodeEvent.tells (e : NodeEvent) : Option Node :=
  match e.type with
  | .join => some e.node
  | .update => some e.node
  | .leave => none

/-- The map of a consumer after one more event. -/
def applyEvent (view : String → Option Node) (e : NodeEvent) : String → Option Node :=
  Function.update view e.node.id e.tells

/-- The map of a consumer who has seen these events. -/
def replay (events : List NodeEvent) : String → Option Node :=
  events.foldl applyEvent fun _ => none

/-- One more event is applied last. -/
theorem replay_append (events : List NodeEvent) (e : NodeEvent) :
    replay (events ++ [e]) = applyEvent (replay events) e := by
  unfold replay
  rw [List.foldl_append]
  rfl

/-- Whether a node is joined after an event, given whether it was before; `none`
for an event out of turn. -/
def NodeEventType.next : NodeEventType → Bool → Option Bool
  | .join, false => some true
  | .update, true => some true
  | .leave, true => some false
  | _, _ => none

/-- The kinds of the events about one node, oldest first. -/
def eventsOf (id : String) (events : List NodeEvent) : List NodeEventType :=
  (events.filter fun e => decide (e.node.id = id)).map (·.type)

/-- The events about one node are in turn: joins and leaves alternate, a join
first, and updates come only between a join and the next leave. -/
def InTurn (id : String) (events : List NodeEvent) : Prop :=
  (run NodeEventType.next (eventsOf id events) false).isSome

instance (id : String) (events : List NodeEvent) : Decidable (InTurn id events) :=
  inferInstanceAs (Decidable (_ = true))

theorem eventsOf_append_self (events : List NodeEvent) (e : NodeEvent) :
    eventsOf e.node.id (events ++ [e]) = eventsOf e.node.id events ++ [e.type] := by
  simp [eventsOf, List.filter_append]

theorem eventsOf_append_of_ne {id : String} {events : List NodeEvent} {e : NodeEvent}
    (h : e.node.id ≠ id) : eventsOf id (events ++ [e]) = eventsOf id events := by
  simp [eventsOf, List.filter_append, h]

/-! ## One node -/

/-- The consumer's entry of node `id` is `n`, and the node's events are in turn. -/
structure Followed (events : List NodeEvent) (id : String) (n : Option Node) : Prop where
  view : replay events id = n
  turns : run NodeEventType.next (eventsOf id events) false = some n.isSome

namespace Followed

variable {events : List NodeEvent} {id : String} {n : Option Node}

/-- Whoever follows the events of a node has seen them in turn. -/
theorem inTurn (h : Followed events id n) : InTurn id events := by
  unfold InTurn
  rw [h.turns]
  rfl

/-- An event of another node. -/
theorem other (h : Followed events id n) {e : NodeEvent} (hne : e.node.id ≠ id) :
    Followed (events ++ [e]) id n := by
  refine ⟨?_, ?_⟩
  · rw [replay_append, applyEvent, Function.update_of_ne hne.symm, h.view]
  · rw [eventsOf_append_of_ne hne, h.turns]

/-- Events of other nodes do not matter. -/
theorem others (h : Followed events id n) : ∀ {es : List NodeEvent},
    (∀ e ∈ es, e.node.id ≠ id) → Followed (events ++ es) id n := by
  intro es
  induction es generalizing events with
  | nil =>
    intro _
    rw [List.append_nil]
    exact h
  | cons e es ih =>
    intro hes
    rw [List.append_cons]
    exact ih (h.other (hes e (List.mem_cons_self ..))) fun e' he' =>
      hes e' (List.mem_cons_of_mem _ he')

/-- An event of the node itself, when it is its turn. -/
theorem own {e : NodeEvent} (h : Followed events e.node.id n)
    (hturn : e.type.next n.isSome = some e.tells.isSome) :
    Followed (events ++ [e]) e.node.id e.tells := by
  refine ⟨?_, ?_⟩
  · rw [replay_append, applyEvent, Function.update_self]
  · rw [eventsOf_append_self, run_append, h.turns, Option.bind_some, run_singleton, hturn]

/-- A node that is not there may join. -/
theorem join (node : Node) (h : Followed events node.id none) :
    Followed (events ++ [⟨.join, node⟩]) node.id (some node) :=
  own h rfl

/-- One that is there may be updated. -/
theorem update (node : Node) {old : Node} (h : Followed events node.id (some old)) :
    Followed (events ++ [⟨.update, node⟩]) node.id (some node) :=
  own h rfl

/-- And it may leave. -/
theorem leave (node : Node) {old : Node} (h : Followed events node.id (some old)) :
    Followed (events ++ [⟨.leave, node⟩]) node.id none :=
  own h rfl

end Followed

/-! ## Every node -/

variable {H : Type}

/-- What a record amounts to for a consumer: its node, unless it is dead or left. -/
def NodeState.active (r : NodeState) : Option Node := if r.deadOrLeft then none else some r.node

theorem NodeState.active_of_dead {r : NodeState} (h : r.deadOrLeft = true) : r.active = none :=
  if_pos h

theorem NodeState.active_of_not_dead {r : NodeState} (h : r.deadOrLeft = false) :
    r.active = some r.node :=
  if_neg (Bool.eq_false_iff.mp h)

/-- The consumer of the events has every node right. -/
structure Announced (m : Memberlist H) : Prop where
  registry : Registry m
  followed : ∀ id, Followed m.events id ((m.lookup id).bind (·.active))

namespace Announced

variable {m m' : Memberlist H}

/-- Where no record changes and nothing is announced, what was announced is still right. -/
theorem quiet (h : Announced m) (hs : SameNodes m m') : Announced m' := by
  refine ⟨?_, fun id => ?_⟩
  · refine ⟨?_, ?_, ?_, ?_⟩
    · rw [hs.nodes, hs.records]
      exact h.registry.ids
    · rw [hs.nodeMap, hs.nodes, hs.records]
      exact h.registry.map
    · rw [hs.numNodes, hs.nodes]
      exact h.registry.count
    · rw [hs.nodes, hs.numRecords]
      exact h.registry.alloc
  · rw [hs.events, hs.lookup]
    exact h.followed id

/-- One record is written and some events about its node are sent: it is enough
to follow that node. -/
theorem write (h : Announced m) (hr : Registry m') {x : String} {r : NodeState}
    (es : List NodeEvent)
    (hlookup : ∀ id, m'.lookup id = if id = x then some r else m.lookup id)
    (hevents : m'.events = m.events ++ es) (hes : ∀ e ∈ es, e.node.id = x)
    (hx : Followed (m.events ++ es) x r.active) : Announced m' := by
  refine ⟨hr, fun id => ?_⟩
  rw [hlookup, hevents]
  by_cases hid : id = x
  · rw [if_pos hid, hid]
    exact hx
  · rw [if_neg hid]
    exact (h.followed id).others fun e he hc => hid (hc.symm.trans (hes e he))

/-- The consumer knows of a record what is to be known. -/
theorem at_map (h : Announced m) {id : String} {p : Nat} (hp : m.nodeMap id = some p) :
    Followed m.events id (m.records p).active := by
  have hf := h.followed id
  rw [Memberlist.lookup_of_map hp] at hf
  exact hf

/-- Who is not known is not there for the consumer of the events either. -/
theorem at_none (h : Announced m) {id : String} (hp : m.nodeMap id = none) :
    Followed m.events id none := by
  have hf := h.followed id
  rw [Memberlist.lookup_of_none hp] at hf
  exact hf

/-- A record is written that looks the same to a consumer. -/
theorem rewrite (h : Announced m) (hr : Registry m') {x : String} {p : Nat} {r : NodeState}
    (hp : m.nodeMap x = some p) (hactive : r.active = (m.records p).active)
    (hlookup : ∀ id, m'.lookup id = if id = x then some r else m.lookup id)
    (hevents : m'.events = m.events) : Announced m' := by
  refine h.write hr [] hlookup (by rw [hevents, List.append_nil]) (by simp) ?_
  rw [List.append_nil, hactive]
  exact h.at_map hp

end Announced

/-! ## The handlers -/

/-- The nodes that are reaped have left before. -/
theorem announced_reap {m : Memberlist H} (env : Env) (h : Announced m) :
    Announced (m.reap env) := by
  refine ⟨h.registry.reap env, fun id => ?_⟩
  -- what is reaped was dead or left, so the consumer has dropped it already
  have hsame : ((m.reap env).lookup id).bind (·.active) = (m.lookup id).bind (·.active) := by
    rw [h.registry.lookup_reap]
    cases m.lookup id with
    | none => rfl
    | some r =>
      rw [Option.filter_some]
      split
      next => rfl
      next hexp =>
        have hdead : r.deadOrLeft = true := by
          simp only [Memberlist.expired, Bool.not_eq_true', Bool.not_eq_false,
            Bool.and_eq_true] at hexp
          exact hexp.1
        exact (NodeState.active_of_dead hdead).symm
  rw [hsame]
  exact h.followed id

/-- The revived record of a node with the tags of the message is of that node. -/
theorem revivedRecord_node {env : Env} {a : Alive} {node : NodeState}
    (htags : node.node.tags = a.tags) :
    (Memberlist.revivedRecord env a node).node = node.node := by
  show { node.node with tags := if node.node.tags ≠ a.tags then a.tags else node.node.tags } =
    node.node
  rw [if_neg (not_not.mpr htags)]

/-- The events of a revival are the ones the consumer is missing. -/
theorem followed_revived {events : List NodeEvent} (env : Env) {a : Alive} {node : NodeState}
    (h : Followed events node.node.id node.active) :
    Followed (events ++
        ((if node.deadOrLeft then [⟨.join, (Memberlist.revivedRecord env a node).node⟩] else []) ++
          if decide (node.node.tags ≠ a.tags)
          then [⟨.update, (Memberlist.revivedRecord env a node).node⟩] else []))
      node.node.id (Memberlist.revivedRecord env a node).active := by
  have hnew : (Memberlist.revivedRecord env a node).active =
      some (Memberlist.revivedRecord env a node).node :=
    NodeState.active_of_not_dead (NodeState.deadOrLeft_of_alive rfl)
  -- after the join, if there is one, the node is present, perhaps with old tags
  have hjoined : Followed (events ++
      if node.deadOrLeft then [⟨.join, (Memberlist.revivedRecord env a node).node⟩] else [])
      node.node.id
      (some (if node.deadOrLeft then (Memberlist.revivedRecord env a node).node
        else node.node)) := by
    cases hdead : node.deadOrLeft with
    | true =>
      rw [NodeState.active_of_dead hdead] at h
      exact Followed.join (Memberlist.revivedRecord env a node).node h
    | false =>
      rw [NodeState.active_of_not_dead hdead] at h
      simpa using h
  rw [hnew, ← List.append_assoc]
  by_cases htags : node.node.tags = a.tags
  · rw [revivedRecord_node htags, ite_self] at hjoined
    simpa [htags, revivedRecord_node htags] using hjoined
  · rw [if_pos (decide_eq_true htags)]
    exact Followed.update (Memberlist.revivedRecord env a node).node hjoined

section Handlers

variable [Encoded Msg] [Heap H (TransmitCapItem Msg)]

/-- `aliveNode` announces a join or an update, as the record says. -/
theorem announced_aliveNode (m : Memberlist H) (env : Env) (a : Alive) (notify : Option Nat)
    (h : Announced m) : Announced (m.aliveNode env a notify) := by
  have hatoms : Atoms (fun _ => True) m (m.aliveNode env a notify) :=
    aliveNode_atoms env notify fun _ => Or.inl trivial
  have hreg := hatoms.inv atom_registry h.registry
  unfold Memberlist.aliveNode at hreg ⊢
  split
  next hchecks =>
    rw [if_pos hchecks] at hreg
    dsimp only at hreg ⊢
    have hcase := aliveLocked_case m env a notify
    generalize m.aliveLocked env a notify = res at hcase hreg ⊢
    -- what is published follows from what was done under the lock
    have hevents := alivePublish_events res.1 res.2
    have hlookup := lookup_alivePublish res.1 res.2
    cases hcase with
    | joined habs =>
      refine h.write hreg _ (x := a.id) (r := Memberlist.freshRecord env a) ?_ hevents ?_ ?_
      · intro id
        rw [hlookup]
        exact h.registry.lookup_insertNode env (Memberlist.freshRecord env a) id
      · intro e he
        rw [AlivePost.events_node he]
        rfl
      · exact Followed.join (Memberlist.freshRecord env a).node (h.at_none habs)
    | stale p hmap hold => exact h
    | news p hmap hnew =>
      have hid := h.registry.map_id hmap
      refine h.write hreg _ (x := a.id) (r := Memberlist.revivedRecord env a (m.records p)) ?_
        hevents ?_ ?_
      · intro id
        rw [hlookup]
        exact h.registry.lookup_setRecord hmap _ id
      · intro e he
        rw [AlivePost.events_node he]
        exact hid
      · have hf := h.at_map hmap
        rw [← hid] at hf ⊢
        exact followed_revived env hf
  next => exact h

/-- A refutation writes a record that looks the same to a consumer. -/
theorem announced_refute {m m' : Memberlist H} {x : String} {p lives : Nat} (h : Announced m)
    (hreg : Registry m') (hmap : m.nodeMap x = some p) (href : m.refute p lives = some m') :
    Announced m' := by
  obtain ⟨calls, -, rfl⟩ := refute_case href
  refine h.rewrite hreg hmap (r := { m.records p with lives := calls % livesSize }) rfl ?_ rfl
  intro id
  exact h.registry.lookup_setRecord hmap _ id

/-- A suspected node is still there, and nothing is announced. -/
theorem announced_suspectNode (m m' : Memberlist H) (env : Env) (s : Suspect) (h : Announced m)
    (hs : m.suspectNode env s = some m') : Announced m' := by
  have hatoms : Atoms (fun _ => True) m m' := suspectNode_atoms env trivial hs
  have hreg := hatoms.inv atom_registry h.registry
  cases suspectNode_case hs with
  | confirmed p k _ _ _ _ => exact h.quiet ⟨rfl, rfl, rfl, rfl, rfl, rfl⟩
  | heard p k _ _ _ _ => exact h.quiet ⟨rfl, rfl, rfl, rfl, rfl, rfl⟩
  | refuted p _ hmap _ _ _ _ href => exact announced_refute h hreg hmap href
  | raised p hmap _ _ hstate _ =>
    -- a suspect is as active as it was
    refine h.rewrite hreg hmap (r := { m.records p with
      lives := s.lives, state := .suspect, stateChange := env.now }) ?_ ?_ rfl
    · rw [NodeState.active_of_not_dead (NodeState.deadOrLeft_of_alive hstate)]
      rfl
    · intro id
      exact h.registry.lookup_setRecord hmap _ id
  | _ => exact h

/-- `deadNode` announces that a node has left which was there. -/
theorem announced_deadNode (m m' : Memberlist H) (env : Env) (d : Dead) (notify : Option Nat)
    (h : Announced m) (hd : m.deadNode env d notify = some m') : Announced m' := by
  have hatoms : Atoms (fun _ => True) m m' := deadNode_atoms env notify trivial hd
  have hreg := hatoms.inv atom_registry h.registry
  cases deadNode_case hd with
  | refuted p _ hmap _ _ _ _ href => exact announced_refute h hreg hmap href
  | killed p hmap _ hdead _ =>
    have hid := h.registry.map_id hmap
    have hk := killed_fields env d notify p m
    refine h.write hreg [⟨.leave, (Memberlist.deadRecord env d (m.records p)).node⟩] (x := d.id)
      (r := Memberlist.deadRecord env d (m.records p)) ?_ hk.events ?_ ?_
    · exact h.registry.lookup_of_records hmap hk.nodeMap hk.records
    · intro e he
      rw [List.mem_singleton.mp he]
      exact hid
    · rw [NodeState.active_of_dead (Memberlist.deadRecord_deadOrLeft env d (m.records p))]
      have hf := h.at_map hmap
      rw [NodeState.active_of_not_dead hdead, ← hid] at hf
      rw [← hid]
      exact Followed.leave (Memberlist.deadRecord env d (m.records p)).node hf
  | _ => exact h

/-- **The consumer of the events has every node right**, whatever the member has
been through. -/
theorem reachable_announced {m : Memberlist H} (h : Reachable m) : Announced m :=
  reachable_whole (fun config => ⟨registry_new config, fun _ => ⟨rfl, rfl⟩⟩)
    (fun m env a notify hm => announced_aliveNode m env a notify hm)
    announced_suspectNode announced_deadNode (fun _ env hm => announced_reap env hm)
    (fun _ _ hs _ hm => hm.quiet hs) h

end Handlers

/-! ## `ActiveNodes` -/

/-- A node is active when its record, through the map, is neither dead nor left. -/
theorem mem_activeNodes {m : Memberlist H} (h : Registry m) {r : NodeState} :
    r ∈ m.activeNodes ↔ m.lookup r.node.id = some r ∧ r.deadOrLeft = false := by
  unfold Memberlist.activeNodes
  rw [List.mem_filter, List.mem_map, Memberlist.lookup_eq_some, Bool.not_eq_true']
  constructor
  · intro hand
    obtain ⟨⟨p, hp, rfl⟩, hdead⟩ := hand
    exact ⟨⟨p, (h.map _ p).mpr ⟨hp, rfl⟩, rfl⟩, hdead⟩
  · intro hand
    obtain ⟨⟨p, hp, rfl⟩, hdead⟩ := hand
    exact ⟨⟨p, ((h.map _ p).mp hp).1, rfl⟩, hdead⟩

/-- **Replaying the events gives the active nodes.** In every reachable state, a
consumer that sets its entry on join and update and deletes it on leave has an
entry for exactly the nodes of `ActiveNodes()`, one each, and it is that node with
its ID, address and tags. For each ID the events are in turn. -/
theorem replay_active [Encoded Msg] [Heap H (TransmitCapItem Msg)] {m : Memberlist H}
    (h : Reachable m) :
    (∀ id n, replay m.events id = some n ↔ n ∈ m.activeNodes.map (·.node) ∧ n.id = id) ∧
    (m.activeNodes.map (·.node.id)).Nodup ∧
    ∀ id, InTurn id m.events := by
  have ha := reachable_announced h
  refine ⟨?_, ?_, fun id => (ha.followed id).inTurn⟩
  · intro id n
    rw [(ha.followed id).view, List.mem_map]
    constructor
    · intro hn
      obtain ⟨r, hr, hactive⟩ := Option.bind_eq_some_iff.mp hn
      have hid := ha.registry.lookup_id hr
      cases hdead : r.deadOrLeft with
      | true =>
        rw [NodeState.active_of_dead hdead] at hactive
        cases hactive
      | false =>
        rw [NodeState.active_of_not_dead hdead] at hactive
        obtain rfl := Option.some.inj hactive
        exact ⟨⟨r, (mem_activeNodes ha.registry).mpr ⟨hid.symm ▸ hr, hdead⟩, rfl⟩, hid⟩
    · intro hand
      obtain ⟨⟨r, hr, rfl⟩, rfl⟩ := hand
      obtain ⟨hlookup, hdead⟩ := (mem_activeNodes ha.registry).mp hr
      rw [hlookup, Option.bind_some, NodeState.active_of_not_dead hdead]
  · have hids := ha.registry.ids
    rw [← Function.comp_def (fun r : NodeState => r.node.id) m.records, ← List.map_map] at hids
    exact hids.sublist ((List.filter_sublist).map _)

open Concrete in
/-- A node that left and came back with new tags. -/
theorem replay_active_rejoined :
    let m := state [.alive {} (aliveMsg 3) none, .dead {} ⟨3, "peer", true⟩ none,
      .alive {} (aliveMsg 4 [1]) none] (by decide)
    eventsOf "peer" m.events = [.join, .leave, .join, .update] ∧ InTurn "peer" m.events :=
  ⟨by decide, (replay_active (reachable_state _ (by decide))).2.2 "peer"⟩

end Mlist
