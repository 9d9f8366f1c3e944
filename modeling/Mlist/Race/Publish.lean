import Mlist.Member.Timers
import Mlist.Race.Sys

/-!
# What a member tells about a node, against what it knows

A member tells its peers about a node through the one queue item of the node's name,
and its owner through `Join` and `Leave` events. When nothing is under way the two
should say what the record says: an item of the type of the recorded state, a last
`Join`/`Leave` event that is a `Join` for the nodes alive or suspect (`Published`).

`suspectNode` and `deadNode` tell while they hold the lock. `aliveNode` does it after
the unlock, so a node can be suspected or declared dead in between: the alive message
then replaces the suspect or dead one in the queue, and the `Join` comes after the
`Leave` (`join_after_leave`).

That is the only way. An `aliveNode` that is past its unlock *owes* a broadcast, or a
`Join`, or both. `Told` is the invariant of one node: whoever owes a broadcast finds
the record alive, whoever owes a `Join` does not find it dead or left, and what nobody
owes has been told correctly. It survives every action but a suspicion raised while a
broadcast is owed and a death while anything is (`Undisturbed`).
-/

namespace Mlist

open Mlist.Lib

/-! ## Telling -/

/-- A message of the type that goes with a state. -/
def Msg.agrees : Msg → StateType → Bool
  | .alive _, .alive => true
  | .suspect _, .suspect => true
  | .dead _, .dead => true
  | .dead _, .left => true
  | _, _ => false

/-- A dead message agrees with a record of the dead or left. -/
theorem Msg.agrees_dead {r : NodeState} (h : r.deadOrLeft = true) (d : Dead) :
    (Msg.dead d).agrees r.state = true := by
  rcases NodeState.deadOrLeft_eq_true.mp h with hs | hs
  · rw [hs]
    rfl
  · rw [hs]
    rfl

/-- The type of the last `Join` or `Leave` event about a node. -/
def lastJoinLeave (events : List NodeEvent) (id : String) : Option NodeEventType :=
  (events.filter fun e => decide (e.node.id = id) && e.type != .update).getLast?.map (·.type)

theorem lastJoinLeave_append (events : List NodeEvent) (type : NodeEventType) (n : Node)
    (id : String) :
    lastJoinLeave (events ++ [⟨type, n⟩]) id =
      if n.id = id ∧ type ≠ .update then some type else lastJoinLeave events id := by
  unfold lastJoinLeave
  rw [List.filter_append]
  by_cases h : n.id = id ∧ type ≠ .update
  · have hkeep : (decide (n.id = id) && type != .update) = true := by simp [h.1, h.2]
    rw [if_pos h, List.filter_singleton, hkeep]
    simp
  · have hdrop : (decide (n.id = id) && type != .update) = false := by
      by_cases hid : n.id = id
      · have htype : type = .update := Decidable.not_not.mp fun hn => h ⟨hid, hn⟩
        simp [htype]
      · simp [hid]
    rw [if_neg h, List.filter_singleton, hdrop]
    simp

/-! ## Owing -/

/-- What the deferred function of `aliveNode` still has to tell. -/
inductive Duty where
  | broadcast
  | join
  deriving DecidableEq, Repr

def Duty.due : Duty → Memberlist.AlivePost → Bool
  | .broadcast, post => post.rebroadcast
  | .join, post => post.notifyJoin

/-- This call owes it about node `id`. -/
def Task.owes (duty : Duty) (id : String) (t : Option Task) : Prop :=
  ∃ post, t = some (.deferred post) ∧ post.newNode.id = id ∧ duty.due post = true

/-- Some call does. -/
def Owes (duty : Duty) (tasks : Nat → Option Task) (id : String) : Prop :=
  ∃ k, Task.owes duty id (tasks k)

section Owing

variable {duty : Duty} {tasks : Nat → Option Task} {id : String} {k : Nat} {t : Option Task}

theorem owes_update (h : Task.owes duty id t) : Owes duty (Function.update tasks k t) id :=
  ⟨k, by rw [Function.update_self]; exact h⟩

/-- A goroutine that owes no more than before adds nothing. -/
theorem owes_of_update (h : Task.owes duty id t → Task.owes duty id (tasks k))
    (ho : Owes duty (Function.update tasks k t) id) : Owes duty tasks id := by
  obtain ⟨j, hj⟩ := ho
  by_cases hjk : j = k
  · rw [hjk, Function.update_self] at hj
    exact ⟨k, h hj⟩
  · rw [Function.update_of_ne hjk] at hj
    exact ⟨j, hj⟩

/-- A goroutine that owes no less than before takes nothing away. -/
theorem owes_update_of (h : Task.owes duty id (tasks k) → Task.owes duty id t)
    (ho : Owes duty tasks id) : Owes duty (Function.update tasks k t) id := by
  obtain ⟨j, hj⟩ := ho
  by_cases hjk : j = k
  · exact owes_update (h (hjk ▸ hj))
  · exact ⟨j, by rw [Function.update_of_ne hjk]; exact hj⟩

theorem owes_update_iff (h : Task.owes duty id t ↔ Task.owes duty id (tasks k)) :
    Owes duty (Function.update tasks k t) id ↔ Owes duty tasks id :=
  ⟨owes_of_update h.mp, owes_update_of h.mpr⟩

theorem not_owes_of_not_deferred (h : ∀ post, t ≠ some (.deferred post)) :
    ¬ Task.owes duty id t := by
  intro ho
  obtain ⟨post, ht, -⟩ := ho
  exact h post ht

theorem owes_deferred {post : Memberlist.AlivePost} :
    Task.owes duty id (some (.deferred post)) ↔ post.newNode.id = id ∧ duty.due post = true := by
  constructor
  · intro h
    obtain ⟨q, hq, h⟩ := h
    cases hq
    exact h
  · intro h
    exact ⟨post, rfl, h⟩

end Owing

/-! ## One node -/

section Telling

variable {H : Type} [Encoded Msg] [Heap H (TransmitCapItem Msg)]
  {m m' : Memberlist H} {tasks tasks' : Nat → Option Task} {id x : String}

/-- What is told about a node with record `r` is what the record says. -/
structure Published (m : Memberlist H) (id : String) (r : NodeState) : Prop where
  queue : ∀ it ∈ m.mbroadcasts.items, it.name = id → it.msg.agrees r.state = true
  events : lastJoinLeave m.events id = some .join ↔ r.state = .alive ∨ r.state = .suspect

/-- The invariant of one node. -/
structure Told (m : Memberlist H) (tasks : Nat → Option Task) (id : String) : Prop where
  known : ∀ duty, Owes duty tasks id → ∃ r, m.lookup id = some r
  alive : ∀ r, m.lookup id = some r → Owes .broadcast tasks id → r.state = .alive
  present : ∀ r, m.lookup id = some r → Owes .join tasks id → r.deadOrLeft = false
  queue : id ≠ "" → ∀ r, m.lookup id = some r → Owes .broadcast tasks id ∨
    ∀ it ∈ m.mbroadcasts.items, it.name = id → it.msg.agrees r.state = true
  events : ∀ r, m.lookup id = some r → Owes .join tasks id ∨
    (lastJoinLeave m.events id = some .join ↔ r.deadOrLeft = false)

/-- Nothing that `Told` reads of node `id` has changed, unless the queue has lost an
item. -/
structure Unmoved (m : Memberlist H) (tasks : Nat → Option Task) (m' : Memberlist H)
    (tasks' : Nat → Option Task) (id : String) : Prop where
  lookup : m'.lookup id = m.lookup id
  owes : ∀ duty, Owes duty tasks' id ↔ Owes duty tasks id
  queue : ∀ it ∈ m'.mbroadcasts.items, it.name = id →
    ∃ o ∈ m.mbroadcasts.items, o.name = id ∧ o.msg = it.msg
  events : lastJoinLeave m'.events id = lastJoinLeave m.events id

theorem Told.unmoved (h : Told m tasks id) (hu : Unmoved m tasks m' tasks' id) :
    Told m' tasks' id := by
  refine ⟨?_, ?_, ?_, ?_, ?_⟩
  · intro duty ho
    rw [hu.lookup]
    exact h.known duty ((hu.owes duty).mp ho)
  · intro r hr ho
    exact h.alive r (hu.lookup ▸ hr) ((hu.owes _).mp ho)
  · intro r hr ho
    exact h.present r (hu.lookup ▸ hr) ((hu.owes _).mp ho)
  · intro hid r hr
    rcases h.queue hid r (hu.lookup ▸ hr) with ho | hq
    · exact Or.inl ((hu.owes _).mpr ho)
    · refine Or.inr ?_
      intro it hit hname
      obtain ⟨o, ho, hon, hom⟩ := hu.queue it hit hname
      rw [← hom]
      exact hq o ho hon
  · intro r hr
    rw [hu.events]
    exact (h.events r (hu.lookup ▸ hr)).imp_left (hu.owes _).mpr

/-- With no call under way, `Told` is what is wanted. -/
theorem Told.published (h : Told m tasks id) (hidle : ∀ k, tasks k = none) (hid : id ≠ "")
    {r : NodeState} (hr : m.lookup id = some r) : Published m id r := by
  have hnone : ∀ duty, ¬ Owes duty tasks id := by
    intro duty ho
    obtain ⟨k, post, hk, -⟩ := ho
    rw [hidle k] at hk
    cases hk
  refine ⟨(h.queue hid r hr).resolve_left (hnone _), ?_⟩
  rw [← NodeState.deadOrLeft_eq_false]
  exact (h.events r hr).resolve_left (hnone _)

omit [Encoded Msg] [Heap H (TransmitCapItem Msg)] in
theorem lastJoinLeave_notifyEvent (m : Memberlist H) (type : NodeEventType) (n : Node)
    (id : String) :
    lastJoinLeave (m.notifyEvent type n).events id =
      if n.id = id ∧ type ≠ .update then some type else lastJoinLeave m.events id :=
  lastJoinLeave_append m.events type n id

/-- A node whose record is known. -/
theorem told_known {r : NodeState} (hr : m.lookup id = some r)
    (halive : Owes .broadcast tasks id → r.state = .alive)
    (hpresent : Owes .join tasks id → r.deadOrLeft = false)
    (hqueue : id ≠ "" → Owes .broadcast tasks id ∨
      ∀ it ∈ m.mbroadcasts.items, it.name = id → it.msg.agrees r.state = true)
    (hlast : Owes .join tasks id ∨
      (lastJoinLeave m.events id = some .join ↔ r.deadOrLeft = false)) : Told m tasks id := by
  have heq : ∀ r', m.lookup id = some r' → r' = r := by
    intro r' hr'
    rw [hr] at hr'
    exact (Option.some.inj hr').symm
  refine ⟨fun _ _ => ⟨r, hr⟩, ?_, ?_, ?_, ?_⟩
  · intro r' hr' ho
    rw [heq r' hr']
    exact halive ho
  · intro r' hr' ho
    rw [heq r' hr']
    exact hpresent ho
  · intro hid r' hr'
    rw [heq r' hr']
    exact hqueue hid
  · intro r' hr'
    rw [heq r' hr']
    exact hlast

/-- A change that leaves the queue and the goroutines alone. -/
theorem unmoved_of_same (hlookup : m'.lookup id = m.lookup id)
    (hqueue : m'.mbroadcasts = m.mbroadcasts)
    (hevents : lastJoinLeave m'.events id = lastJoinLeave m.events id) :
    Unmoved m tasks m' tasks id := by
  refine ⟨hlookup, fun _ => Iff.rfl, ?_, hevents⟩
  intro it hit hname
  rw [hqueue] at hit
  exact ⟨it, hit, hname, rfl⟩

/-- A change about node `x` is judged by what it does there. -/
theorem told_all (h : ∀ id, Told m tasks id) (hx : Told m' tasks' x)
    (hu : ∀ id, id ≠ x → Unmoved m tasks m' tasks' id) : ∀ id, Told m' tasks' id := by
  intro id
  by_cases hid : id = x
  · rw [hid]
    exact hx
  · exact (h id).unmoved (hu id hid)

/-- Node `x` has a new record, and a message about it is queued that agrees. -/
theorem told_write (h : ∀ id, Told m tasks id) (hq : m.mbroadcasts.QueueInv)
    {r : NodeState} {msg : Msg} {notify : Option Nat}
    (hlookup : ∀ id, m'.lookup id = if id = x then some r else m.lookup id)
    (hqueue : m'.mbroadcasts = m.mbroadcasts.queueMsg x msg notify)
    (hagrees : msg.agrees r.state = true)
    (howes : ∀ id, id ≠ x → ∀ duty, Owes duty tasks' id ↔ Owes duty tasks id)
    (hother : ∀ id, id ≠ x → lastJoinLeave m'.events id = lastJoinLeave m.events id)
    (halive : Owes .broadcast tasks' x → r.state = .alive)
    (hpresent : Owes .join tasks' x → r.deadOrLeft = false)
    (hlast : Owes .join tasks' x ∨
      (lastJoinLeave m'.events x = some .join ↔ r.deadOrLeft = false)) :
    ∀ id, Told m' tasks' id := by
  refine told_all (x := x) h ?_ ?_
  · have hr : m'.lookup x = some r := by rw [hlookup, if_pos rfl]
    refine told_known hr halive hpresent ?_ hlast
    -- what is queued under the name now is this message
    intro hx
    refine Or.inr ?_
    intro it hit hname
    rw [hqueue] at hit
    rw [(TransmitCapQueue.mem_queueMsg_name hq hx).mp ⟨hit, hname⟩]
    exact hagrees
  · intro id hid
    refine ⟨?_, howes id hid, ?_, hother id hid⟩
    · rw [hlookup, if_neg hid]
    · intro it hit hname
      rw [hqueue] at hit
      exact ⟨it, (TransmitCapQueue.mem_queueMsg_of_ne hq (hname.symm ▸ hid)).mp hit, hname, rfl⟩

/-! ## The locked handlers -/

/-- A record present before and after, and no event. -/
private theorem last_kept (h : ∀ id, Told m tasks id) {r : NodeState}
    (hr : m.lookup x = some r) (hr' : r.deadOrLeft = false) {r' : NodeState}
    (hpresent : r'.deadOrLeft = false) :
    Owes .join tasks x ∨ (lastJoinLeave m.events x = some .join ↔ r'.deadOrLeft = false) := by
  have hlast := (h x).events r hr
  rw [hr'] at hlast
  rw [hpresent]
  exact hlast

theorem refute_told (hm : Defended m) (h : ∀ id, Told m tasks id) {p lives : Nat}
    (hmap : m.nodeMap m.id = some p) (hstate : (m.records p).state = .alive)
    (href : m.refute p lives = some m') : ∀ id, Told m' tasks id := by
  obtain ⟨calls, -, rfl⟩ := refute_case href
  have hid : (m.records p).node.id = m.id := hm.sound.registry.map_id hmap
  have hpresent : (m.records p).deadOrLeft = false := NodeState.deadOrLeft_of_alive hstate
  rw [hid]
  refine told_write (x := m.id) (r := { m.records p with lives := calls % livesSize }) h hm.queue
    (hm.sound.registry.lookup_setRecord hmap _) rfl ?_ (fun _ _ _ => Iff.rfl) (fun _ _ => rfl)
    (fun _ => hstate) (fun _ => hpresent)
    (last_kept h (Memberlist.lookup_of_map hmap) hpresent hpresent)
  show Msg.agrees (.alive _) (m.records p).state = true
  rw [hstate]
  rfl

/-- Suspicions are told as they are raised, if nobody owes an alive message. -/
theorem suspectNode_told (hm : Defended m) (h : ∀ id, Told m tasks id) {env : Env}
    {sus : Suspect} (hc : m.raises sus → ¬ Owes .broadcast tasks sus.id)
    (hs : m.suspectNode env sus = some m') : ∀ id, Told m' tasks id := by
  cases suspectNode_case hs with
  | unknown habs => exact h
  | stale p hmap hold => exact h
  | confirmed p k hmap hlives hsusp hfresh =>
    -- there is a suspicion, so the record is suspect and nobody owes an alive message
    obtain ⟨r, hr, hstate, -⟩ := hm.sound.suspects.entry _ _ hsusp
    have hpresent : r.deadOrLeft = false := NodeState.deadOrLeft_eq_false.mpr (Or.inr hstate)
    refine told_write (x := sus.id) (r := r) h hm.queue ?_ rfl (by rw [hstate]; rfl)
      (fun _ _ _ => Iff.rfl) (fun _ _ => rfl) ((h _).alive r hr)
      (fun _ => hpresent) (last_kept h hr hpresent hpresent)
    intro id
    show m.lookup id = _
    split
    next hid => rw [hid, hr]
    next => rfl
  | heard p k hmap hlives hsusp hfresh =>
    intro id
    exact (h id).unmoved (unmoved_of_same rfl rfl rfl)
  | notAlive p hmap hlives hsusp hstate => exact h
  | refuted p _ hmap hlives hsusp hstate hself href =>
    exact refute_told hm h (hself ▸ hmap) hstate href
  | raised p hmap hlives hsusp hstate hself =>
    have hr := Memberlist.lookup_of_map hmap
    have hnot : ¬ Owes .broadcast tasks sus.id := hc ⟨_, hr, hlives, hstate, hsusp, hself⟩
    have hpresent : (m.records p).deadOrLeft = false := NodeState.deadOrLeft_of_alive hstate
    exact told_write (x := sus.id)
      (r := { m.records p with lives := sus.lives, state := .suspect, stateChange := env.now })
      h hm.queue (hm.sound.registry.lookup_setRecord hmap _) rfl rfl (fun _ _ _ => Iff.rfl)
      (fun _ _ => rfl) (fun ho => absurd ho hnot) (fun _ => rfl)
      (last_kept h hr hpresent rfl)

/-- Deaths are told as they are declared, if nobody owes anything. -/
theorem deadNode_told (hm : Defended m) (h : ∀ id, Told m tasks id) {env : Env}
    {d : Dead} {notify : Option Nat} (hc : m.kills d → ∀ duty, ¬ Owes duty tasks d.id)
    (hd : m.deadNode env d notify = some m') : ∀ id, Told m' tasks id := by
  cases deadNode_case hd with
  | unknown habs => exact h
  | stale p hmap hold => exact h
  | already p hmap hdead => exact h
  | refuted p _ hmap hlives hdead hself hleft href =>
    rw [hself] at hmap
    exact refute_told hm h hmap (hm.alive hleft _ (Memberlist.lookup_of_map hmap)) href
  | killed p hmap hlives hdead hself =>
    have hnot := hc ⟨_, Memberlist.lookup_of_map hmap, hlives, hdead, hself⟩
    have hgone := Memberlist.deadRecord_deadOrLeft env d (m.records p)
    have hid : (Memberlist.deadRecord env d (m.records p)).node.id = d.id :=
      hm.sound.registry.map_id hmap
    have hk := killed_fields env d notify p m
    refine told_write (x := d.id) (r := Memberlist.deadRecord env d (m.records p)) h hm.queue
      (hm.sound.registry.lookup_of_records hmap hk.nodeMap hk.records) hk.mbroadcasts
      (Msg.agrees_dead hgone d) (fun _ _ _ => Iff.rfl) ?_
      (fun ho => absurd ho (hnot _)) (fun ho => absurd ho (hnot _)) ?_
    · intro id hne
      rw [hk.events, lastJoinLeave_append, if_neg fun hc => hne (hc.1.symm.trans hid)]
    · refine Or.inr ?_
      rw [hk.events, lastJoinLeave_append, if_pos ⟨hid, by simp⟩, hgone]
      simp

/-! ## `aliveNode` -/

/-- The record says alive from now on, and the call that made it so owes the
broadcast; and the `Join`, if the node was not there. -/
private theorem told_hear {k : Nat} (h : ∀ id, Told m tasks id)
    (hnot : ∀ post, tasks k ≠ some (.deferred post)) {post : Memberlist.AlivePost}
    (hx : post.newNode.id = x) (hb : post.rebroadcast = true) {r : NodeState}
    (hlookup : ∀ id, m'.lookup id = if id = x then some r else m.lookup id)
    (hstate : r.state = .alive) (hqueue : m'.mbroadcasts = m.mbroadcasts)
    (hevents : m'.events = m.events)
    (hjoin : post.notifyJoin = false → ∃ r₀, m.lookup x = some r₀ ∧ r₀.deadOrLeft = false) :
    ∀ id, Told m' (Function.update tasks k (some (.deferred post))) id := by
  have hr : m'.lookup x = some r := by rw [hlookup, if_pos rfl]
  have hpresent := NodeState.deadOrLeft_of_alive hstate
  refine told_all (x := x) h (told_known hr (fun _ => hstate) (fun _ => hpresent) ?_ ?_) ?_
  · intro _
    exact Or.inl (owes_update (owes_deferred.mpr ⟨hx, hb⟩))
  · rw [hevents, hpresent]
    cases hj : post.notifyJoin with
    | true => exact Or.inl (owes_update (owes_deferred.mpr ⟨hx, hj⟩))
    | false =>
      obtain ⟨r₀, hr₀, hpresent₀⟩ := hjoin hj
      have hlast := (h x).events r₀ hr₀
      rw [hpresent₀] at hlast
      refine hlast.imp_left (owes_update_of ?_)
      exact fun ho => absurd ho (not_owes_of_not_deferred hnot)
  · intro id hid
    refine ⟨?_, ?_, ?_, by rw [hevents]⟩
    · rw [hlookup, if_neg hid]
    · intro duty
      refine owes_update_iff (iff_of_false ?_ (not_owes_of_not_deferred hnot))
      intro ho
      exact hid ((owes_deferred.mp ho).1.symm.trans hx)
    · intro it hit hname
      rw [hqueue] at hit
      exact ⟨it, hit, hname, rfl⟩

/-- Moving a goroutine from one place where it owes nothing to another. -/
theorem told_task {k : Nat} {t : Option Task} (h : ∀ id, Told m tasks id)
    (hold : ∀ duty id, ¬ Task.owes duty id (tasks k)) (hnew : ∀ duty id, ¬ Task.owes duty id t) :
    ∀ id, Told m (Function.update tasks k t) id := by
  intro id
  exact (h id).unmoved ⟨rfl,
    fun duty => owes_update_iff (iff_of_false (hnew duty id) (hold duty id)),
    fun it hit hn => ⟨it, hit, hn, rfl⟩, rfl⟩

theorem aliveLocked_told (hm : Defended m) (h : ∀ id, Told m tasks id) {k : Nat} {a : Alive}
    {notify : Option Nat} (htask : tasks k = some (.entered a notify)) (env : Env) :
    ∀ id, Told (m.aliveLocked env a notify).1
      (Function.update tasks k (some (.deferred (m.aliveLocked env a notify).2))) id := by
  have hnot : ∀ post, tasks k ≠ some (.deferred post) := by
    intro post hk
    rw [htask] at hk
    cases hk
  have hcase := aliveLocked_case m env a notify
  generalize m.aliveLocked env a notify = res at hcase
  cases hcase with
  | joined habs =>
    exact told_hear (x := a.id) h hnot rfl rfl (hm.sound.registry.lookup_insertNode env _) rfl rfl
      rfl (fun hj => absurd hj (by simp))
  | stale p hmap hold =>
    refine told_task h (fun _ _ => not_owes_of_not_deferred hnot) ?_
    intro duty id ho
    have hdue := (owes_deferred.mp ho).2
    cases duty <;> cases hdue
  | news p hmap hnew =>
    refine told_hear (x := a.id) h hnot ?_ rfl (hm.sound.registry.lookup_setRecord hmap _) rfl rfl
      rfl (fun hj => ⟨_, Memberlist.lookup_of_map hmap, hj⟩)
    exact hm.sound.registry.map_id hmap

/-- The deferred function queues the alive message. -/
theorem broadcast_told (hm : Defended m) (h : ∀ id, Told m tasks id) {k : Nat}
    {post : Memberlist.AlivePost} (htask : tasks k = some (.deferred post))
    (hb : post.rebroadcast = true) :
    ∀ id, Told (m.broadcast post.newNode.id (.alive post.msg) post.notify)
      (Function.update tasks k (some (.deferred { post with rebroadcast := false }))) id := by
  have howe : Owes .broadcast tasks post.newNode.id := ⟨k, post, htask, rfl, hb⟩
  obtain ⟨r, hr⟩ := (h _).known .broadcast howe
  have hstate := (h _).alive r hr howe
  have hpresent := NodeState.deadOrLeft_of_alive hstate
  -- the other duty stays, about this node and no other
  have hless : ∀ duty id, Task.owes duty id
      (some (.deferred { post with rebroadcast := false })) → Task.owes duty id (tasks k) := by
    intro duty id ho
    obtain ⟨hid, hdue⟩ := owes_deferred.mp ho
    rw [htask]
    refine owes_deferred.mpr ⟨hid, ?_⟩
    cases duty with
    | broadcast => exact hb
    | join => exact hdue
  refine told_write (x := post.newNode.id) (r := r) h hm.queue ?_ rfl (by rw [hstate]; rfl) ?_
    (fun _ _ => rfl) (fun _ => hstate) (fun _ => hpresent) ?_
  · intro id
    show m.lookup id = _
    split
    next hid => rw [hid, hr]
    next => rfl
  · intro id hid duty
    refine owes_update_iff ⟨hless duty id, ?_⟩
    intro ho
    rw [htask] at ho
    exact absurd (owes_deferred.mp ho).1.symm hid
  · refine ((h _).events r hr).imp_left (owes_update_of ?_)
    intro ho
    rw [htask] at ho
    have hpost := owes_deferred.mp ho
    exact owes_deferred.mpr hpost

/-- The deferred function sends the `Join`. -/
theorem join_told (h : ∀ id, Told m tasks id) {k : Nat} {post : Memberlist.AlivePost}
    (htask : tasks k = some (.deferred post)) (hb : post.rebroadcast = false)
    (hj : post.notifyJoin = true) :
    ∀ id, Told (m.notifyEvent .join post.newNode)
      (Function.update tasks k (some (.deferred { post with notifyJoin := false }))) id := by
  have howe : Owes .join tasks post.newNode.id := ⟨k, post, htask, rfl, hj⟩
  -- with the `Join` sent nothing is owed any more
  have hnone : ∀ duty id, ¬ Task.owes duty id
      (some (.deferred { post with notifyJoin := false })) := by
    intro duty id ho
    have hdue := (owes_deferred.mp ho).2
    cases duty with
    | broadcast => exact absurd (hb.symm.trans hdue) (by simp)
    | join => cases hdue
  have hsame : ∀ id, Owes .broadcast
      (Function.update tasks k (some (.deferred { post with notifyJoin := false }))) id ↔
        Owes .broadcast tasks id := by
    intro id
    refine owes_update_iff (iff_of_false (hnone _ _) ?_)
    intro ho
    rw [htask] at ho
    exact absurd (hb.symm.trans (owes_deferred.mp ho).2) (by simp)
  have hback : ∀ id, Owes .join
      (Function.update tasks k (some (.deferred { post with notifyJoin := false }))) id →
        Owes .join tasks id :=
    fun id => owes_of_update fun ho => absurd ho (hnone _ _)
  -- for the node itself one by one; for the others nothing has changed
  refine told_all (x := post.newNode.id) h ⟨?_, ?_, ?_, ?_, ?_⟩ ?_
  · intro duty _
    exact (h _).known .join howe
  · intro r hr ho
    exact (h _).alive r hr ((hsame _).mp ho)
  · intro r hr ho
    exact (h _).present r hr (hback _ ho)
  · intro hx r hr
    exact ((h _).queue hx r hr).imp_left (hsame _).mpr
  · intro r hr
    refine Or.inr ?_
    rw [lastJoinLeave_notifyEvent, if_pos ⟨rfl, by simp⟩, (h _).present r hr howe]
    simp
  · intro id hid
    refine ⟨rfl, ?_, fun it hit hn => ⟨it, hit, hn, rfl⟩, ?_⟩
    · intro duty
      refine owes_update_iff (iff_of_false (hnone _ _) ?_)
      intro ho
      rw [htask] at ho
      exact hid (owes_deferred.mp ho).1.symm
    · rw [lastJoinLeave_notifyEvent, if_neg fun hc => hid hc.1.symm]

/-! ## The rest -/

/-- Only the dead are reaped, and about them nothing is owed. -/
theorem reap_told (hm : Defended m) (h : ∀ id, Told m tasks id) (env : Env) :
    ∀ id, Told (m.reap env) tasks id := by
  intro id
  have hback : ∀ r, (m.reap env).lookup id = some r → m.lookup id = some r := by
    intro r hr
    rw [hm.sound.registry.lookup_reap] at hr
    exact (Option.filter_eq_some_iff.mp hr).1
  refine ⟨?_, ?_, ?_, ?_, ?_⟩
  · intro duty ho
    obtain ⟨r, hr⟩ := (h id).known duty ho
    have hpresent : r.deadOrLeft = false := by
      cases duty with
      | broadcast => exact NodeState.deadOrLeft_of_alive ((h id).alive r hr ho)
      | join => exact (h id).present r hr ho
    refine ⟨r, ?_⟩
    rw [hm.sound.registry.lookup_reap]
    refine Option.filter_eq_some_iff.mpr ⟨hr, ?_⟩
    simp [Memberlist.expired, hpresent]
  · intro r hr
    exact (h id).alive r (hback r hr)
  · intro r hr
    exact (h id).present r (hback r hr)
  · intro hid r hr
    exact (h id).queue hid r (hback r hr)
  · intro r hr
    exact (h id).events r (hback r hr)

/-- A drain loses items and counts transmissions. -/
theorem drain_told (hm : Defended m) (h : ∀ id, Told m tasks id) (l o z : Int) :
    ∀ id, Told { m with mbroadcasts := (m.mbroadcasts.getMessages l o z).2 } tasks id := by
  intro id
  refine (h id).unmoved ⟨rfl, fun _ => Iff.rfl, ?_, rfl⟩
  intro it hit hname
  obtain ⟨i, hi, hin, him⟩ := TransmitCapQueue.mem_getMessages hm.queue hit
  exact ⟨i, hi, hin.trans hname, him⟩

/-! ## Every interleaving -/

/-- Nothing is declared about a node in between an `aliveNode`'s unlock and its
telling: no suspicion while the alive message is to be queued, no death while that or
the `Join` is to come. -/
def Undisturbed (s : Sys H) : Action → Prop
  | .suspectNode _ sus => s.m.raises sus → ¬ Owes .broadcast s.tasks sus.id
  | .deadNode _ d _ => s.m.kills d → ∀ duty, ¬ Owes duty s.tasks d.id
  | .leaveDead _ _ => ∀ d, s.leave = .read d → s.m.kills d → ∀ duty, ¬ Owes duty s.tasks d.id
  | _ => True

/-- The invariant. -/
structure Orderly (s : Sys H) : Prop where
  defended : Defended s.m
  told : ∀ id, Told s.m s.tasks id

/-- **One action.** -/
theorem acts_orderly {s s' : Sys H} {a : Action} (h : Orderly s) (hc : Undisturbed s a)
    (ha : Sys.Acts s a s') : Orderly s' := by
  refine ⟨Sys.acts_defended h.defended ha, ?_⟩
  have hm := h.defended
  have ht := h.told
  -- before its lock and after its last duty an `aliveNode` owes nothing
  have hfree : ∀ {k : Nat} {t : Option Task}, s.tasks k = t → (∀ post, t ≠ some (.deferred post)) →
      ∀ duty id, ¬ Task.owes duty id (s.tasks k) := by
    intro k t hk hnot duty id
    rw [hk]
    exact not_owes_of_not_deferred hnot
  have hpaid : ∀ {post : Memberlist.AlivePost}, post.rebroadcast = false →
      post.notifyJoin = false → ∀ duty id, ¬ Task.owes duty id (some (.deferred post)) := by
    intro post hb hj duty id ho
    have hdue := (owes_deferred.mp ho).2
    cases duty with
    | broadcast => exact absurd (hb.symm.trans hdue) (by simp)
    | join => exact absurd (hj.symm.trans hdue) (by simp)
  cases ha with
  | called k a notify hk =>
    exact told_task ht (hfree hk (by simp)) fun _ _ => not_owes_of_not_deferred (by simp)
  | refused k tags notify => exact ht
  | tagged k tags notify p hk hmap =>
    refine told_task ?_ (hfree hk (by simp)) fun _ _ => not_owes_of_not_deferred (by simp)
    exact fun id => (ht id).unmoved (unmoved_of_same rfl rfl rfl)
  | passed k a notify hk _ =>
    exact told_task ht (hfree hk (by simp)) fun _ _ => not_owes_of_not_deferred (by simp)
  | turnedAway k a notify hk _ =>
    exact told_task ht (hfree hk (by simp)) fun _ _ => not_owes_of_not_deferred (by simp)
  | locked k env a notify hk => exact aliveLocked_told hm ht hk env
  | broadcast k post hk hb => exact broadcast_told hm ht hk hb
  | join k post hk hb hj => exact join_told ht hk hb hj
  | update k post hk hb hj hu =>
    refine told_task ?_ (hk ▸ hpaid hb hj) (hpaid hb hj)
    intro id
    refine (ht id).unmoved (unmoved_of_same rfl rfl ?_)
    show lastJoinLeave (s.m.notifyEvent .update post.newNode).events id = _
    rw [lastJoinLeave_notifyEvent, if_neg fun hc => hc.2 rfl]
  | returned k post hk hb hj hu =>
    exact told_task ht (hk ▸ hpaid hb hj) fun _ _ => not_owes_of_not_deferred (by simp)
  | suspected env sus m' hs => exact suspectNode_told hm ht hc hs
  | died env d notify m' hd => exact deadNode_told hm ht hc hd
  | flagged hpc hleft =>
    exact fun id => (ht id).unmoved (unmoved_of_same rfl rfl rfl)
  | found p hpc hmap => exact ht
  | missing hpc habs => exact ht
  | read p hpc => exact ht
  | left env notify d m' hpc hd => exact deadNode_told hm ht (hc d hpc) hd
  | drained l o z => exact drain_told hm ht l o z
  | reaped env => exact reap_told hm ht env

/-- **Every run of undisturbed actions.** -/
theorem run_orderly {as : List Action} {s s' : Sys H} (h : Orderly s)
    (hc : Each Sys.act Undisturbed as s) (hrun : run Sys.act as s = some s') : Orderly s' :=
  run_inv_each (fun _ _ _ hs hca ha => acts_orderly hs hca (Sys.act_case ha)) h hc hrun

/-- A member that was built has told what it knows: `setAlive` is an `aliveNode` like
any other. -/
theorem orderly_build {env : Env} {config : Config} {m₀ : Memberlist H}
    (hb : Memberlist.build env config = .ok m₀) : Orderly (Sys.start m₀) := by
  obtain ⟨addr, -, rfl⟩ := build_case hb
  have hnew : Orderly (Sys.start
      ((Memberlist.new config : Memberlist H).issueAlive addr config.advertisePort
        config.tags).2) := by
    have hissue : Atom (fun _ => True) (Memberlist.new config : Memberlist H)
        ((Memberlist.new config).issueAlive addr config.advertisePort config.tags).2 :=
      .quiet (.issue _ _ _ _)
    refine ⟨atom_defended _ _ (defended_new config) hissue, ?_⟩
    intro id
    refine ⟨?_, ?_, ?_, ?_, ?_⟩
    · intro duty ho
      obtain ⟨k, post, hk, -⟩ := ho
      cases hk
    · intro r hr
      cases hr
    · intro r hr
      cases hr
    · intro _ r hr
      cases hr
    · intro r hr
      cases hr
  refine run_orderly hnew ?_ (Sys.aliveNode_acts (k := 0) rfl env _ none)
  refine each_of_forall ?_
  intro a ha s
  rcases Sys.mem_aliveActs ha with rfl | rfl | rfl | rfl <;> exact trivial

/-- **What is told is what is known.** Start from a built member and take any actions
of any number of goroutines, such that no suspicion is raised about a node whose alive
message an `aliveNode` has yet to queue, and no death declared of one about which it has
yet to queue the message or send the `Join`. In every state so reached with no
`aliveNode` under way, and for every node with a non-empty ID in the map: the item the
broadcast queue holds under its name is of the type of the recorded state, and the last
`Join` or `Leave` event about it is a `Join` exactly if the record is alive or suspect. -/
theorem published_when_undisturbed {env : Env} {config : Config} {m₀ : Memberlist H}
    {as : List Action} {s : Sys H} (hb : Memberlist.build env config = .ok m₀)
    (hc : Each Sys.act Undisturbed as (Sys.start m₀))
    (hrun : run Sys.act as (Sys.start m₀) = some s) (hidle : ∀ k, s.tasks k = none) :
    ∀ id r, id ≠ "" → s.m.lookup id = some r → Published s.m id r := by
  intro id r hid hr
  exact ((run_orderly (orderly_build hb) hc hrun).told id).published hidle hid hr

end Telling

namespace Concrete

/-- A member that hears of `"peer"`, the goroutine told to go on as far as its unlock. -/
def hearPeer : List Action := [.aliveNode 0 (aliveMsg 1) none, .check 0, .lock 0 {}]

/-- The rest of that goroutine. -/
def tellPeer : List Action := [.publish 0, .publish 0, .publish 0]

/-- `"peer"` is declared dead. -/
def killPeer : Action := .deadNode {} ⟨1, "peer", false⟩ none

end Concrete

open Concrete in
/-- The peer dies after everything about it has been told. -/
theorem published_when_undisturbed_dead :
    ∃ s r, raced (hearPeer ++ tellPeer ++ [killPeer]) = some s ∧ s.m.lookup "peer" = some r ∧
      r.state = .dead ∧ Published s.m "peer" r := by
  have hrun := raced_eq (hearPeer ++ tellPeer ++ [killPeer]) (by decide)
  refine ⟨_, _, hrun, rfl, rfl, ?_⟩
  refine published_when_undisturbed (build_built "me" (by decide)) ?_ hrun ?_ "peer" _
    (by decide) rfl
  · refine each_cons rfl trivial (each_cons rfl trivial (each_cons rfl trivial
      (each_cons rfl trivial (each_cons rfl trivial (each_cons rfl trivial
        (each_cons rfl ?_ trivial))))))
    intro _ duty ho
    obtain ⟨k, post, hk, -⟩ := ho
    rcases k with _ | k <;> cases hk
  · intro k
    rcases k with _ | k <;> rfl

open Concrete in
/-- The peer dies between the unlock and the telling: nothing is under way any more, the
record says dead, and the queue holds the alive message, with a `Join` for the last
event. -/
theorem join_after_leave :
    ∃ s r, raced (hearPeer ++ [killPeer] ++ tellPeer) = some s ∧ (∀ k, s.tasks k = none) ∧
      s.m.lookup "peer" = some r ∧ r.state = .dead ∧
      (∃ it ∈ s.m.mbroadcasts.items, it.name = "peer" ∧ it.msg = .alive (aliveMsg 1)) ∧
      (∀ it ∈ s.m.mbroadcasts.items, it.name = "peer" → it.msg.agrees r.state = false) ∧
      lastJoinLeave s.m.events "peer" = some .join := by
  refine ⟨_, _, raced_eq _ (by decide), ?_, rfl, rfl, ?_, ?_, ?_⟩
  · intro k
    rcases k with _ | k <;> rfl
  · decide
  · decide
  · decide

end Mlist
