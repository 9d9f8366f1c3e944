import Mlist.Model.Member

/-!
# What each handler does, case by case

The handlers of `state.go` are chains of guards with an early return at each.
This file writes each chain down once as a list of named cases — which guards led
there, and the state that case leaves — and proves that every call is one of
them. Proofs about a handler split on its cases by name and never unfold it.

`lookup` is the record of an ID as a reader of `m.nodeMap` sees it. The loop of
`refute` ends within one turn of the counter for every accusation below
`2 ^ 32 - 1` (`refuteLoop_returns`), at a number above it (`refuteLoop_gt`).
-/

namespace Mlist

open Mlist.Lib

variable {H : Type}

namespace Memberlist

/-! ## Records by ID -/

/-- The record of a node, through the map. -/
def lookup (m : Memberlist H) (id : String) : Option NodeState := (m.nodeMap id).map m.records

theorem lookup_eq_some {m : Memberlist H} {id : String} {r : NodeState} :
    m.lookup id = some r ↔ ∃ p, m.nodeMap id = some p ∧ m.records p = r :=
  Option.map_eq_some_iff

theorem lookup_of_map {m : Memberlist H} {id : String} {p : Nat} (h : m.nodeMap id = some p) :
    m.lookup id = some (m.records p) := by
  rw [lookup, h, Option.map_some]

/-- The map leads to the record. -/
theorem records_of_lookup {m : Memberlist H} {id : String} {p : Nat} {r : NodeState}
    (hr : m.lookup id = some r) (hp : m.nodeMap id = some p) : m.records p = r := by
  rw [lookup_of_map hp] at hr
  exact Option.some.inj hr

theorem lookup_of_none {m : Memberlist H} {id : String} (h : m.nodeMap id = none) :
    m.lookup id = none := by
  rw [lookup, h, Option.map_none]

/-- A node with a record is not one the map does not know. -/
theorem ne_of_lookup {m : Memberlist H} {id x : String} {r : NodeState}
    (hr : m.lookup id = some r) (hx : m.nodeMap x = none) : id ≠ x := by
  intro he
  rw [he, lookup_of_none hx] at hr
  cases hr

theorem lookup_isSome {m : Memberlist H} {id : String} :
    (m.lookup id).isSome = (m.nodeMap id).isSome := by
  rw [lookup, Option.isSome_map]

/-! ## The records the handlers write -/

/-- The tags of a revived record are the message's, copied or equal already. -/
theorem revivedRecord_tags (env : Env) (a : Alive) (node : NodeState) :
    (revivedRecord env a node).node.tags = a.tags := by
  show (if node.node.tags ≠ a.tags then a.tags else node.node.tags) = a.tags
  split
  next => rfl
  next heq => exact Decidable.not_not.mp heq

/-- What a dead message leaves behind is dead or left. -/
theorem deadRecord_deadOrLeft (env : Env) (d : Dead) (node : NodeState) :
    (deadRecord env d node).deadOrLeft = true := by
  unfold deadRecord NodeState.deadOrLeft
  cases d.left <;> rfl

end Memberlist

open Memberlist

/-! ## `aliveNode` under its lock -/

/-- The ways through the locked part of `aliveNode`, with what the deferred
function will find. -/
inductive AliveCase (env : Env) (a : Alive) (notify : Option Nat) (m : Memberlist H) :
    Memberlist H × AlivePost → Prop where
  /-- a node we did not know -/
  | joined (habs : m.nodeMap a.id = none) :
    AliveCase env a notify m (m.insertNode env (freshRecord env a),
      { msg := a, notify, rebroadcast := true, notifyJoin := true,
        newNode := (freshRecord env a).node })
  /-- nothing new -/
  | stale (p : Nat) (hmap : m.nodeMap a.id = some p) (hold : a.lives ≤ (m.records p).lives) :
    AliveCase env a notify m (m, { msg := a, notify })
  /-- a node we knew, with a higher number -/
  | news (p : Nat) (hmap : m.nodeMap a.id = some p) (hnew : (m.records p).lives < a.lives) :
    AliveCase env a notify m
      ((m.dropSuspicion a.id).setRecord p (revivedRecord env a (m.records p)),
        { msg := a, notify, rebroadcast := true
          notifyJoin := (m.records p).deadOrLeft
          notifyUpdate := decide ((m.records p).node.tags ≠ a.tags)
          newNode := (revivedRecord env a (m.records p)).node })

/-- The three ways through the locked part of `aliveNode`. -/
theorem aliveLocked_case (m : Memberlist H) (env : Env) (a : Alive) (notify : Option Nat) :
    AliveCase env a notify m (m.aliveLocked env a notify) := by
  unfold Memberlist.aliveLocked
  split
  next habs => exact .joined habs
  next p hmap =>
    dsimp only
    split
    next hold => exact .stale p hmap hold
    next hnew => exact .news p hmap (Nat.lt_of_not_le hnew)

/-- The deferred function gets the message `aliveNode` was called with. -/
theorem AliveCase.msg {env : Env} {a : Alive} {notify : Option Nat} {m : Memberlist H}
    {r : Memberlist H × AlivePost} (h : AliveCase env a notify m r) : r.2.msg = a := by
  cases h <;> rfl

theorem AliveCase.issued {env : Env} {a : Alive} {notify : Option Nat} {m : Memberlist H}
    {r : Memberlist H × AlivePost} (h : AliveCase env a notify m r) : r.1.issued = m.issued := by
  cases h <;> rfl

theorem AliveCase.left {env : Env} {a : Alive} {notify : Option Nat} {m : Memberlist H}
    {r : Memberlist H × AlivePost} (h : AliveCase env a notify m r) : r.1.left = m.left := by
  cases h <;> rfl

/-! ## The loop of `refute` -/

/-- The loop ends at a number above the accusation. -/
theorem refuteLoop_gt {lives : Nat} : ∀ {fuel calls calls' : Nat},
    refuteLoop lives fuel calls = some calls' → lives < calls' % livesSize ∧ calls < calls' := by
  intro fuel
  induction fuel with
  | zero =>
    intro calls calls' h
    cases h
  | succ fuel ih =>
    intro calls calls' h
    unfold refuteLoop at h
    split at h
    next =>
      obtain ⟨hgt, hlt⟩ := ih h
      exact ⟨hgt, Nat.lt_of_succ_lt hlt⟩
    next hgt =>
      obtain rfl := Option.some.inj h
      exact ⟨Nat.lt_of_not_le hgt, Nat.lt_succ_self _⟩

/-- Where the counter is already at the accusation or above, once is enough. -/
theorem refuteLoop_once {lives fuel calls : Nat} (h : lives < (calls + 1) % livesSize) :
    refuteLoop lives (fuel + 1) calls = some (calls + 1) := by
  unfold refuteLoop
  rw [if_neg (Nat.not_le.mpr h)]

/-- Where the next number is above the accusation, one round is enough. -/
theorem refuteLoop_first {lives calls : Nat} (h : lives < (calls + 1) % livesSize) :
    refuteLoop lives livesSize calls = some (calls + 1) := by
  have hsize : livesSize = (livesSize - 1) + 1 := rfl
  rw [hsize]
  exact refuteLoop_once h

/-- A number above the accusation is met within `d` more rounds, if there is one
there. -/
private theorem refuteLoop_within {lives : Nat} : ∀ {d fuel calls : Nat}, d < fuel →
    lives < (calls + 1 + d) % livesSize → ∃ calls', refuteLoop lives fuel calls = some calls' := by
  intro d
  induction d with
  | zero =>
    intro fuel calls hfuel h
    obtain ⟨f, rfl⟩ := Nat.exists_eq_succ_of_ne_zero (Nat.ne_of_gt hfuel)
    exact ⟨_, refuteLoop_once h⟩
  | succ d ih =>
    intro fuel calls hfuel h
    obtain ⟨f, rfl⟩ :=
      Nat.exists_eq_succ_of_ne_zero (Nat.ne_of_gt (Nat.lt_of_le_of_lt (Nat.zero_le _) hfuel))
    unfold refuteLoop
    split
    next =>
      refine ih (by omega) ?_
      rw [show calls + 1 + 1 + d = calls + 1 + (d + 1) by omega]
      exact h
    next => exact ⟨_, rfl⟩

/-- **The loop ends** for every accusation but the highest number there is: one
turn of the counter passes `2 ^ 32 - 1`. -/
theorem refuteLoop_returns {lives : Nat} (h : lives < livesSize - 1) (calls : Nat) :
    ∃ calls', refuteLoop lives livesSize calls = some calls' := by
  have hpos : 0 < livesSize := by decide
  have hr : (calls + 1) % livesSize < livesSize := Nat.mod_lt _ hpos
  -- the rounds left until the counter reads its highest number
  refine refuteLoop_within (d := livesSize - 1 - (calls + 1) % livesSize) (by omega) ?_
  have hmod : (calls + 1 + (livesSize - 1 - (calls + 1) % livesSize)) % livesSize =
      livesSize - 1 := by
    rw [Nat.add_mod, Nat.mod_eq_of_lt (a := livesSize - 1 - (calls + 1) % livesSize) (by omega)]
    rw [Nat.mod_eq_of_lt (by omega)]
    omega
  rw [hmod]
  exact h

/-- For the highest number there is the loop goes on for ever: no number of rounds is
enough. -/
theorem refuteLoop_stuck {lives : Nat} (h : livesSize - 1 ≤ lives) :
    ∀ fuel calls, refuteLoop lives fuel calls = none := by
  intro fuel
  induction fuel with
  | zero => intro calls; rfl
  | succ fuel ih =>
    intro calls
    have hpos : 0 < livesSize := by decide
    have hr : (calls + 1) % livesSize < livesSize := Nat.mod_lt _ hpos
    unfold refuteLoop
    rw [if_pos (by omega)]
    exact ih (calls + 1)

variable [Encoded Msg] [Heap H (TransmitCapItem Msg)]

/-! ## `aliveNode` after its lock -/

/-- The deferred function touches the queue and the events. -/
theorem alivePublish_case (m : Memberlist H) (post : AlivePost) :
    ∃ mbroadcasts events queued,
      m.alivePublish post = { m with mbroadcasts, events, queued } := by
  unfold Memberlist.alivePublish
  dsimp only
  split <;> split <;> split <;> exact ⟨_, _, _, rfl⟩

/-- `aliveNode` neither issues messages of our own nor touches the flag. -/
theorem aliveNode_frame (m : Memberlist H) (env : Env) (a : Alive) (notify : Option Nat) :
    (m.aliveNode env a notify).issued = m.issued ∧ (m.aliveNode env a notify).left = m.left := by
  unfold Memberlist.aliveNode
  split
  next =>
    have hcase := aliveLocked_case m env a notify
    dsimp only
    obtain ⟨_, _, _, he⟩ :=
      alivePublish_case (m.aliveLocked env a notify).1 (m.aliveLocked env a notify).2
    rw [he]
    exact ⟨hcase.issued, hcase.left⟩
  next => exact ⟨rfl, rfl⟩

/-- The events of the deferred function: the join, then the update. -/
def Memberlist.AlivePost.events (post : AlivePost) : List NodeEvent :=
  (if post.notifyJoin then [⟨.join, post.newNode⟩] else []) ++
    if post.notifyUpdate then [⟨.update, post.newNode⟩] else []

omit [Encoded Msg] in
/-- What is announced is the node as it then is. -/
theorem AlivePost.events_node {post : AlivePost} {e : NodeEvent} (h : e ∈ post.events) :
    e.node = post.newNode := by
  unfold AlivePost.events at h
  rcases List.mem_append.mp h with he | he
  · split at he
    next => rw [List.mem_singleton.mp he]
    next => cases he
  · split at he
    next => rw [List.mem_singleton.mp he]
    next => cases he

/-- The events of an alive message come after all the earlier ones. -/
theorem alivePublish_events (m : Memberlist H) (post : AlivePost) :
    (m.alivePublish post).events = m.events ++ post.events := by
  unfold Memberlist.alivePublish AlivePost.events
  dsimp only
  split <;> split <;> split <;>
    simp [Memberlist.broadcast, Memberlist.notifyEvent]

/-! ## `refute` -/

/-- What a refutation that returns leaves: the record has taken the number of the
call that ended the loop, and the alive message with that number is queued. -/
theorem refute_case {m m' : Memberlist H} {p lives : Nat} (h : m.refute p lives = some m') :
    ∃ calls, refuteLoop lives livesSize m.liveCalls = some calls ∧
      m' = Memberlist.broadcast (m.records p).node.id
        (.alive (refuteMsg (m.records p) (calls % livesSize))) none
        { m.raiseLives p calls with awr := m.awr.punish 1 } := by
  unfold Memberlist.refute at h
  split at h
  next => cases h
  next calls hloop => exact ⟨calls, hloop, (Option.some.inj h).symm⟩

/-- A refutation of anything but the highest number returns. -/
theorem refute_returns (m : Memberlist H) (p : Nat) {lives : Nat} (h : lives < livesSize - 1) :
    ∃ m', m.refute p lives = some m' := by
  obtain ⟨calls, hloop⟩ := refuteLoop_returns h m.liveCalls
  unfold Memberlist.refute
  rw [hloop]
  exact ⟨_, rfl⟩

/-! ## `suspectNode` -/

/-- The ways through `suspectNode`. -/
inductive SuspectCase (env : Env) (s : Suspect) (m : Memberlist H) : Memberlist H → Prop where
  | unknown (habs : m.nodeMap s.id = none) : SuspectCase env s m m
  | stale (p : Nat) (hmap : m.nodeMap s.id = some p) (hold : s.lives < (m.records p).lives) :
    SuspectCase env s m m
  /-- suspected before, and this sender had not been heard -/
  | confirmed (p k : Nat) (hmap : m.nodeMap s.id = some p)
    (hlives : (m.records p).lives ≤ s.lives) (hsusp : m.suspicions s.id = some k)
    (hfresh : ((m.suspObjs k).confirm s.sender).1 = true) :
    SuspectCase env s m (Memberlist.broadcast s.id (.suspect s) none { m with
      suspObjs := Function.update m.suspObjs k ((m.suspObjs k).confirm s.sender).2 })
  /-- suspected before, and nothing is gained by this sender -/
  | heard (p k : Nat) (hmap : m.nodeMap s.id = some p)
    (hlives : (m.records p).lives ≤ s.lives) (hsusp : m.suspicions s.id = some k)
    (hfresh : ((m.suspObjs k).confirm s.sender).1 = false) :
    SuspectCase env s m { m with
      suspObjs := Function.update m.suspObjs k ((m.suspObjs k).confirm s.sender).2 }
  | notAlive (p : Nat) (hmap : m.nodeMap s.id = some p)
    (hlives : (m.records p).lives ≤ s.lives) (hsusp : m.suspicions s.id = none)
    (hstate : (m.records p).state ≠ .alive) : SuspectCase env s m m
  | refuted (p : Nat) (m' : Memberlist H) (hmap : m.nodeMap s.id = some p)
    (hlives : (m.records p).lives ≤ s.lives) (hsusp : m.suspicions s.id = none)
    (hstate : (m.records p).state = .alive) (hself : s.id = m.id)
    (href : m.refute p s.lives = some m') : SuspectCase env s m m'
  /-- a suspicion is raised -/
  | raised (p : Nat) (hmap : m.nodeMap s.id = some p)
    (hlives : (m.records p).lives ≤ s.lives) (hsusp : m.suspicions s.id = none)
    (hstate : (m.records p).state = .alive) (hself : s.id ≠ m.id) :
    SuspectCase env s m (((m.broadcast s.id (.suspect s) none).setRecord p
        { m.records p with
          lives := s.lives, state := .suspect, stateChange := env.now }).addSuspicion
      s.id (newSuspicion m.confirmCap s.sender s.id s.lives))

/-- The ways through `suspectNode`. -/
theorem suspectNode_case {m m' : Memberlist H} {env : Env} {s : Suspect}
    (h : m.suspectNode env s = some m') : SuspectCase env s m m' := by
  unfold Memberlist.suspectNode at h
  split at h
  next habs => exact Option.some.inj h ▸ .unknown habs
  next p hmap =>
    dsimp only at h
    split at h
    next hold => exact Option.some.inj h ▸ .stale p hmap hold
    next hlives =>
      have hlives := Nat.le_of_not_lt hlives
      split at h
      next k hsusp =>
        split at h
        next hfresh => exact Option.some.inj h ▸ .confirmed p k hmap hlives hsusp hfresh
        next hfresh =>
          exact Option.some.inj h ▸ .heard p k hmap hlives hsusp (Bool.eq_false_iff.mpr hfresh)
      next hsusp =>
        split at h
        next hstate => exact Option.some.inj h ▸ .notAlive p hmap hlives hsusp hstate
        next hstate =>
          have hstate : (m.records p).state = .alive := Decidable.not_not.mp hstate
          split at h
          next hself => exact .refuted p m' hmap hlives hsusp hstate hself h
          next hself => exact Option.some.inj h ▸ .raised p hmap hlives hsusp hstate hself

/-- The fields of a member that has just raised a suspicion. -/
structure Raised (env : Env) (s : Suspect) (p : Nat) (m m' : Memberlist H) : Prop where
  config : m'.config = m.config
  left : m'.left = m.left
  liveCalls : m'.liveCalls = m.liveCalls
  awr : m'.awr = m.awr
  nodeMap : m'.nodeMap = m.nodeMap
  records : m'.records = Function.update m.records p
    { m.records p with lives := s.lives, state := .suspect, stateChange := env.now }
  suspicions : m'.suspicions = Function.update m.suspicions s.id (some m.numSusps)
  suspObjs : m'.suspObjs = Function.update m.suspObjs m.numSusps
    (newSuspicion m.confirmCap s.sender s.id s.lives)
  mbroadcasts : m'.mbroadcasts = m.mbroadcasts.queueMsg s.id (.suspect s) none
  queued : m'.queued = m.queued ++ [(s.id, .suspect s)]

theorem raised_fields (env : Env) (s : Suspect) (p : Nat) (m : Memberlist H) :
    Raised env s p m (((m.broadcast s.id (.suspect s) none).setRecord p
        { m.records p with
          lives := s.lives, state := .suspect, stateChange := env.now }).addSuspicion
      s.id (newSuspicion m.confirmCap s.sender s.id s.lives)) := by
  constructor <;>
    simp only [Memberlist.addSuspicion, Memberlist.setRecord, Memberlist.broadcast]

/-- A suspicion returns, unless it is of the member itself with the highest number. -/
theorem suspectNode_ends (m : Memberlist H) (env : Env) {s : Suspect}
    (h : s.id = m.id → s.lives < livesSize - 1) : ∃ m', m.suspectNode env s = some m' := by
  unfold Memberlist.suspectNode
  split
  next => exact ⟨_, rfl⟩
  next p _ =>
    dsimp only
    split
    next => exact ⟨_, rfl⟩
    next =>
      split
      next => split <;> exact ⟨_, rfl⟩
      next =>
        split
        next => exact ⟨_, rfl⟩
        next =>
          split
          next hself => exact refute_returns m p (h hself)
          next => exact ⟨_, rfl⟩

/-- A suspicion of somebody else always returns. -/
theorem suspectNode_returns (m : Memberlist H) (env : Env) {s : Suspect} (hself : s.id ≠ m.id) :
    ∃ m', m.suspectNode env s = some m' :=
  suspectNode_ends m env fun he => absurd he hself

/-! ## `deadNode` -/

/-- The ways through `deadNode`. -/
inductive DeadCase (env : Env) (d : Dead) (notify : Option Nat) (m : Memberlist H) :
    Memberlist H → Prop where
  | unknown (habs : m.nodeMap d.id = none) : DeadCase env d notify m m
  | stale (p : Nat) (hmap : m.nodeMap d.id = some p) (hold : d.lives < (m.records p).lives) :
    DeadCase env d notify m m
  | already (p : Nat) (hmap : m.nodeMap d.id = some p)
    (hdead : (m.records p).deadOrLeft = true) : DeadCase env d notify m m
  | refuted (p : Nat) (m' : Memberlist H) (hmap : m.nodeMap d.id = some p)
    (hlives : (m.records p).lives ≤ d.lives) (hdead : (m.records p).deadOrLeft = false)
    (hself : d.id = m.id) (hleft : m.left = false)
    (href : m.refute p d.lives = some m') : DeadCase env d notify m m'
  /-- declared dead, or left -/
  | killed (p : Nat) (hmap : m.nodeMap d.id = some p)
    (hlives : (m.records p).lives ≤ d.lives) (hdead : (m.records p).deadOrLeft = false)
    (hself : d.id = m.id → m.left = true) :
    DeadCase env d notify m ((((m.dropSuspicion d.id).broadcast d.id (.dead d) notify).setRecord p
      (deadRecord env d (m.records p))).notifyEvent .leave (deadRecord env d (m.records p)).node)

/-- The ways through `deadNode`. -/
theorem deadNode_case {m m' : Memberlist H} {env : Env} {d : Dead} {notify : Option Nat}
    (h : m.deadNode env d notify = some m') : DeadCase env d notify m m' := by
  unfold Memberlist.deadNode at h
  split at h
  next habs => exact Option.some.inj h ▸ .unknown habs
  next p hmap =>
    dsimp only at h
    split at h
    next hcond =>
      rcases hcond with hold | hdead
      · exact Option.some.inj h ▸ .stale p hmap hold
      · exact Option.some.inj h ▸ .already p hmap hdead
    next hcond =>
      obtain ⟨hlives, hdead⟩ := not_or.mp hcond
      have hlives := Nat.le_of_not_lt hlives
      have hdead := Bool.eq_false_iff.mpr hdead
      split at h
      next hself => exact .refuted p m' hmap hlives hdead hself.1 hself.2 h
      next hself =>
        have hleft : d.id = m.id → m.left = true := by
          intro hid
          cases hl : m.left with
          | true => rfl
          | false => exact absurd ⟨hid, hl⟩ hself
        exact Option.some.inj h ▸ .killed p hmap hlives hdead hleft

/-- The fields of a member that has just declared a node dead, or left. -/
structure Killed (env : Env) (d : Dead) (notify : Option Nat) (p : Nat) (m m' : Memberlist H) :
    Prop where
  config : m'.config = m.config
  left : m'.left = m.left
  nodeMap : m'.nodeMap = m.nodeMap
  records : m'.records = Function.update m.records p (deadRecord env d (m.records p))
  suspicions : m'.suspicions = Function.update m.suspicions d.id none
  suspObjs : m'.suspObjs = m.suspObjs
  mbroadcasts : m'.mbroadcasts = m.mbroadcasts.queueMsg d.id (.dead d) notify
  queued : m'.queued = m.queued ++ [(d.id, .dead d)]
  events : m'.events = m.events ++ [⟨.leave, (deadRecord env d (m.records p)).node⟩]

theorem killed_fields (env : Env) (d : Dead) (notify : Option Nat) (p : Nat) (m : Memberlist H) :
    Killed env d notify p m
      ((((m.dropSuspicion d.id).broadcast d.id (.dead d) notify).setRecord p
        (deadRecord env d (m.records p))).notifyEvent .leave
          (deadRecord env d (m.records p)).node) := by
  constructor <;>
    simp only [Memberlist.notifyEvent, Memberlist.setRecord, Memberlist.broadcast,
      Memberlist.dropSuspicion]

theorem Killed.id {env : Env} {d : Dead} {notify : Option Nat} {p : Nat} {m m' : Memberlist H}
    (h : Killed env d notify p m m') : m'.id = m.id := congrArg Config.id h.config

/-- A death returns, unless it is the member's own with the highest number. -/
theorem deadNode_ends (m : Memberlist H) (env : Env) {d : Dead} (notify : Option Nat)
    (h : d.id = m.id → d.lives < livesSize - 1) : ∃ m', m.deadNode env d notify = some m' := by
  unfold Memberlist.deadNode
  split
  next => exact ⟨_, rfl⟩
  next p _ =>
    dsimp only
    split
    next => exact ⟨_, rfl⟩
    next =>
      split
      next hself => exact refute_returns m p (h hself.1)
      next => exact ⟨_, rfl⟩

/-- A death of somebody else always returns. -/
theorem deadNode_returns (m : Memberlist H) (env : Env) {d : Dead} (notify : Option Nat)
    (hself : d.id ≠ m.id) : ∃ m', m.deadNode env d notify = some m' :=
  deadNode_ends m env notify fun he => absurd he hself

/-! ## The callers -/

/-- A member that was built has announced itself with number one. -/
theorem build_case {m : Memberlist H} {env : Env} {config : Config}
    (h : Memberlist.build env config = .ok m) :
    ∃ addr, config.advertiseAddr = some addr ∧
      m = ((new config).issueAlive addr config.advertisePort config.tags).2.aliveNode env
        ((new config : Memberlist H).issueAlive addr config.advertisePort config.tags).1 none := by
  unfold Memberlist.build Memberlist.setAlive at h
  split at h
  next => cases h
  next =>
    split at h
    next => cases h
    next addr haddr => exact ⟨addr, haddr, (Except.ok.inj h).symm⟩

/-- A timer that goes off does nothing, or declares the suspect dead. -/
theorem timeoutFn_case {m m' : Memberlist H} {env : Env} {k : Nat}
    (h : m.timeoutFn env k = some m') :
    m.timerGuard k = false ∧ m' = m ∨
    ∃ p, m.nodeMap (m.suspObjs k).id = some p ∧ m.timerGuard k = true ∧
      m.deadNode env { lives := (m.records p).lives, id := (m.records p).node.id, left := false }
        none = some m' := by
  unfold Memberlist.timeoutFn at h
  split at h
  next habs =>
    left
    refine ⟨?_, (Option.some.inj h).symm⟩
    unfold Memberlist.timerGuard
    rw [habs]
  next p hmap =>
    dsimp only at h
    split at h
    next hguard => exact Or.inr ⟨p, hmap, hguard, h⟩
    next hguard => exact Or.inl ⟨Bool.eq_false_iff.mpr hguard, (Option.some.inj h).symm⟩

/-- `UpdateTags` refuses, or has `aliveNode` act on a message of its own. -/
theorem updateTags_case {m : Memberlist H} {env : Env} {tags : Bytes} {notify : Nat}
    {res : Except String Unit × Memberlist H} (h : m.updateTags env tags notify = some res) :
    res.2 = m ∨ ∃ p, m.nodeMap m.id = some p ∧
      res.2 = (m.issueAlive (m.records p).node.ip (m.records p).node.port tags).2.aliveNode env
        (m.issueAlive (m.records p).node.ip (m.records p).node.port tags).1 (some notify) := by
  unfold Memberlist.updateTags at h
  split at h
  next => exact Or.inl (Option.some.inj h ▸ rfl)
  next =>
    split at h
    next => cases h
    next p hmap => exact Or.inr ⟨p, hmap, Option.some.inj h ▸ rfl⟩

/-- `Leave` does nothing, or sets the flag and has `deadNode` act on our own
record. -/
theorem leave_case {m : Memberlist H} {env : Env} {notify : Nat}
    {res : Except String Unit × Memberlist H} (h : m.leave env notify = some res) :
    res.2 = m ∨ m.nodeMap m.id = none ∧ res.2 = { m with left := true } ∨
    ∃ p, m.nodeMap m.id = some p ∧
      Memberlist.deadNode env
        { lives := (m.records p).lives, id := (m.records p).node.id, left := true } (some notify)
        { m with left := true } = some res.2 := by
  unfold Memberlist.leave at h
  split at h
  next => cases h
  next =>
    split at h
    next => exact Or.inl (Option.some.inj h ▸ rfl)
    next =>
      dsimp only at h
      split at h
      next habs => exact Or.inr (Or.inl ⟨habs, Option.some.inj h ▸ rfl⟩)
      next p hmap =>
        obtain ⟨m', hd, rfl⟩ := Option.map_eq_some_iff.mp h
        exact Or.inr (Or.inr ⟨p, hmap, hd⟩)

/-! ## Whole handlers -/

/-- The fields that hold the membership, and the events about it. -/
structure SameNodes (m m' : Memberlist H) : Prop where
  records : m'.records = m.records
  numRecords : m'.numRecords = m.numRecords
  nodes : m'.nodes = m.nodes
  nodeMap : m'.nodeMap = m.nodeMap
  numNodes : m'.numNodes = m.numNodes
  events : m'.events = m.events

omit [Encoded Msg] [Heap H (TransmitCapItem Msg)] in
/-- With the same records under the same names, a lookup gives the same. -/
theorem SameNodes.lookup {m m' : Memberlist H} (h : SameNodes m m') (id : String) :
    m'.lookup id = m.lookup id := by
  unfold Memberlist.lookup
  rw [h.nodeMap, h.records]

/-- **Invariant rule for whole handlers.** What each of the three handlers and
`reap` keep, and what only reads the membership, its events and the configuration,
every operation keeps. -/
theorem step_whole {P : Memberlist H → Prop}
    (halive : ∀ m env a notify, P m → P (m.aliveNode env a notify))
    (hsuspect : ∀ m m' env s, P m → m.suspectNode env s = some m' → P m')
    (hdead : ∀ m m' env d notify, P m → m.deadNode env d notify = some m' → P m')
    (hreap : ∀ m env, P m → P (m.reap env))
    (hquiet : ∀ m m', SameNodes m m' → m'.config = m.config → P m → P m')
    {m m' : Memberlist H} {op : Op} (h : step op m = some m') (hP : P m) : P m' := by
  cases op with
  | alive env a notify => exact Option.some.inj h ▸ halive m env a notify hP
  | suspect env s => exact hsuspect m m' env s hP h
  | dead env d notify => exact hdead m m' env d notify hP h
  | timer env k =>
    unfold step Memberlist.fireTimer at h
    dsimp only at h
    split at h
    next =>
      have hspent := hquiet m { m with
        suspObjs := Function.update m.suspObjs k { m.suspObjs k with pending := false } }
        ⟨rfl, rfl, rfl, rfl, rfl, rfl⟩ rfl hP
      rcases timeoutFn_case h with ⟨-, rfl⟩ | ⟨p, -, -, hd⟩
      · exact hspent
      · exact hdead _ _ _ _ _ hspent hd
    next => exact Option.some.inj h ▸ hP
  | merge remote =>
    refine run_inv (P := P) ?_ hP h
    intro er s t hs ht
    unfold Memberlist.mergeOne at ht
    split at ht
    next => exact Option.some.inj ht ▸ halive _ _ _ _ hs
    next => exact hdead _ _ _ _ _ hs ht
    next => exact hsuspect _ _ _ _ hs ht
    next => exact hsuspect _ _ _ _ hs ht
    next => exact Option.some.inj ht ▸ hs
  | updateTags env tags notify =>
    obtain ⟨res, hres, rfl⟩ := Option.map_eq_some_iff.mp h
    rcases updateTags_case hres with he | ⟨p, -, he⟩
    · exact he.symm ▸ hP
    · rw [he]
      exact halive _ _ _ _ (hquiet m _ ⟨rfl, rfl, rfl, rfl, rfl, rfl⟩ rfl hP)
  | leave env notify =>
    obtain ⟨res, hres, rfl⟩ := Option.map_eq_some_iff.mp h
    have hset := hquiet m { m with left := true } ⟨rfl, rfl, rfl, rfl, rfl, rfl⟩ rfl hP
    rcases leave_case hres with he | ⟨-, he⟩ | ⟨p, -, hd⟩
    · exact he.symm ▸ hP
    · exact he.symm ▸ hset
    · exact hdead _ _ _ _ _ hset hd
  | reap env => exact Option.some.inj h ▸ hreap m env hP
  | getMessages l o s =>
    exact hquiet m m' (Option.some.inj h ▸ ⟨rfl, rfl, rfl, rfl, rfl, rfl⟩)
      (Option.some.inj h ▸ rfl) hP
  | punish delta =>
    exact hquiet m m' (Option.some.inj h ▸ ⟨rfl, rfl, rfl, rfl, rfl, rfl⟩)
      (Option.some.inj h ▸ rfl) hP
  | shutdown =>
    exact hquiet m m' (Option.some.inj h ▸ ⟨rfl, rfl, rfl, rfl, rfl, rfl⟩)
      (Option.some.inj h ▸ rfl) hP

/-- The same for every state a member can be in. -/
theorem reachable_whole {P : Memberlist H → Prop} (hnew : ∀ config, P (new config))
    (halive : ∀ m env a notify, P m → P (m.aliveNode env a notify))
    (hsuspect : ∀ m m' env s, P m → m.suspectNode env s = some m' → P m')
    (hdead : ∀ m m' env d notify, P m → m.deadNode env d notify = some m' → P m')
    (hreap : ∀ m env, P m → P (m.reap env))
    (hquiet : ∀ m m', SameNodes m m' → m'.config = m.config → P m → P m')
    {m : Memberlist H} (h : Reachable m) : P m := by
  obtain ⟨env, config, m₀, ops, hb, hrun⟩ := h
  obtain ⟨addr, -, rfl⟩ := build_case hb
  refine run_inv (P := P) ?_ ?_ hrun
  · intro op s t hs ht
    exact step_whole halive hsuspect hdead hreap hquiet ht hs
  · exact halive _ _ _ _ (hquiet (new config) _ ⟨rfl, rfl, rfl, rfl, rfl, rfl⟩ rfl (hnew config))

end Mlist
