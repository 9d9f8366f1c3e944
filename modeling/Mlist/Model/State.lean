import Mlist.Model.Broadcast

/-!
# The state handlers

`aliveNode`, `suspectNode`, `refute` and `deadNode` of `state.go`, over the part
of `Memberlist` they read and write.

The source keeps `*nodeState` pointers in two places, the slice `m.nodes` and the
map `m.nodeMap`, and updates a record through either. So that "the same record"
means something here, records live in a store: a pointer is a number, `records`
dereferences it, and `numRecords` is the next one to allocate. Suspicions are
objects for the same reason — one that has been dropped from `m.suspicions` keeps
its running timer — and live in `suspObjs`.

`aliveNode` is cut where the source unlocks `nodeL`: `aliveChecks` is what it
tests before it takes the lock, `aliveLocked` what it does under it, and
`alivePublish` the deferred function that runs after the unlock. `suspectNode`
and `deadNode` hold the lock from beginning to end.

A handler returns `none` when the call never returns: `refute` counts `m.lives`
up until it passes the accusation, and no 32-bit number passes `2 ^ 32 - 1`.

Three fields are history, written and never read: `events` is every event handed
to `EventManager.send`, `queued` every message put into the broadcast queue with
its name, and `issued` every alive message the member made about itself with a
number of its own counter.
-/

namespace Mlist

open Mlist.Lib

/-- The values of a `uint32`. -/
def livesSize : Nat := 2 ^ 32

/-- `Memberlist`. -/
structure Memberlist (H : Type) where
  config : Config
  /-- how often `AddUint32(&m.lives, 1)` was called; the counter itself is
  `Memberlist.lives` -/
  liveCalls : Nat
  awr : Awareness
  shutdown : Bool
  left : Bool
  mbroadcasts : TransmitCapQueue H Msg
  events : List NodeEvent
  records : Nat → NodeState
  numRecords : Nat
  nodes : Array Nat
  nodeMap : String → Option Nat
  numNodes : Int32
  suspObjs : Nat → Suspicion
  numSusps : Nat
  suspicions : String → Option Nat
  queued : List (String × Msg)
  issued : List Alive

variable {H : Type}

namespace Memberlist

/-- `m.ID()`. -/
def id (m : Memberlist H) : String := m.config.id

/-- The 32-bit counter `m.lives`. -/
def lives (m : Memberlist H) : Nat := m.liveCalls % livesSize

/-- `nextLiveNo`: the number and the counter after it. -/
def nextLiveNo (m : Memberlist H) : Nat × Memberlist H :=
  let m := { m with liveCalls := m.liveCalls + 1 }
  (m.lives, m)

/-- `m.IPAllowed`. -/
def ipAllowed (m : Memberlist H) (ip : IP) : Bool := Mlist.ipAllowed m.config.cidrsAllowed ip

/-- `m.GetNumNodes`. -/
def getNumNodes (m : Memberlist H) : Int := m.numNodes.toInt

/-- `*p = r` for a record pointer. -/
def setRecord (p : Nat) (r : NodeState) (m : Memberlist H) : Memberlist H :=
  { m with records := Function.update m.records p r }

/-- `eventMng.NotifyJoin`, `NotifyLeave` and `NotifyUpdate`. -/
def notifyEvent (type : NodeEventType) (n : Node) (m : Memberlist H) : Memberlist H :=
  { m with events := m.events ++ [⟨type, n⟩] }

/-- `delete(m.suspicions, id)`. -/
def dropSuspicion (sid : String) (m : Memberlist H) : Memberlist H :=
  { m with suspicions := Function.update m.suspicions sid none }

/-- `m.suspicions[id] = newSuspicion(…)`. -/
def addSuspicion (sid : String) (sc : Suspicion) (m : Memberlist H) : Memberlist H :=
  { m with
    suspObjs := Function.update m.suspObjs m.numSusps sc
    suspicions := Function.update m.suspicions sid (some m.numSusps)
    numSusps := m.numSusps + 1 }

variable [Encoded Msg] [Heap H (TransmitCapItem Msg)]

/-- `m.broadcast`. -/
def broadcast (name : String) (msg : Msg) (notify : Option Nat) (m : Memberlist H) :
    Memberlist H :=
  { m with
    mbroadcasts := m.mbroadcasts.queueMsg name msg notify
    queued := m.queued ++ [(name, msg)] }

/-! ## `aliveNode` -/

/-- The checks before the lock: not about us once we have left, and from an
allowed address. -/
def aliveChecks (a : Alive) (m : Memberlist H) : Bool :=
  !(m.left && a.id == m.id) && m.ipAllowed a.ip

/-- The variables the deferred function of `aliveNode` captures, as the locked
part leaves them. `newNode` is only read when a flag is set. -/
structure AlivePost where
  msg : Alive
  notify : Option Nat
  rebroadcast : Bool := false
  notifyJoin : Bool := false
  notifyUpdate : Bool := false
  newNode : Node := default
  deriving DecidableEq, Repr

/-- The record of a node heard of for the first time. -/
def freshRecord (env : Env) (a : Alive) : NodeState :=
  { node := { id := a.id, ip := a.ip, port := a.port, tags := a.tags }
    lives := a.lives
    state := .alive
    stateChange := env.now }

/-- The record of a known node after an alive message newer than it. `IP` and
`Port` stay what they were. -/
def revivedRecord (env : Env) (a : Alive) (node : NodeState) : NodeState :=
  { node with
    node := { node.node with tags := if node.node.tags ≠ a.tags then a.tags else node.node.tags }
    lives := a.lives
    state := .alive
    stateChange := if node.state ≠ .alive then env.now else node.stateChange }

/-- Allocate a record, put it into the map and at a random place of the slice. With a multiple of
2^32 nodes in the slice `randIntN` crashes and the program is over; the record then stays at the
end of it here. -/
def insertNode (env : Env) (r : NodeState) (m : Memberlist H) : Memberlist H :=
  let n := m.nodes.size
  { m with
    records := Function.update m.records m.numRecords r
    numRecords := m.numRecords + 1
    nodeMap := Function.update m.nodeMap r.node.id (some m.numRecords)
    nodes := (m.nodes.push m.numRecords).swapIfInBounds ((randIntN env.rand n).getD n) n
    numNodes := m.numNodes + 1 }

/-- `aliveNode` between `Lock` and `Unlock`. -/
def aliveLocked (env : Env) (a : Alive) (notify : Option Nat) (m : Memberlist H) :
    Memberlist H × AlivePost :=
  match m.nodeMap a.id with
  | none =>
    let r := freshRecord env a
    (m.insertNode env r,
      { msg := a, notify, rebroadcast := true, notifyJoin := true, newNode := r.node })
  | some p =>
    let node := m.records p
    if a.lives ≤ node.lives then (m, { msg := a, notify })
    else
      let r := revivedRecord env a node
      ((m.dropSuspicion a.id).setRecord p r,
        { msg := a, notify
          rebroadcast := true
          notifyJoin := node.deadOrLeft
          notifyUpdate := decide (node.node.tags ≠ a.tags)
          newNode := r.node })

/-- The deferred function of `aliveNode`. -/
def alivePublish (post : AlivePost) (m : Memberlist H) : Memberlist H :=
  let m := if post.rebroadcast then m.broadcast post.newNode.id (.alive post.msg) post.notify else m
  let m := if post.notifyJoin then m.notifyEvent .join post.newNode else m
  if post.notifyUpdate then m.notifyEvent .update post.newNode else m

/-- `aliveNode`, run from beginning to end. -/
def aliveNode (env : Env) (a : Alive) (notify : Option Nat) (m : Memberlist H) : Memberlist H :=
  if m.aliveChecks a then
    let (m, post) := m.aliveLocked env a notify
    m.alivePublish post
  else m

/-! ## `refute` -/

/-- The loop of `refute`: call `nextLiveNo` until the number is above `lives`,
and return how often it has been called by then. After a whole turn of the
counter every number has been tried, so a loop that has not ended in `2 ^ 32`
rounds never does. -/
def refuteLoop (lives : Nat) : Nat → Nat → Option Nat
  | 0, _ => none
  | fuel + 1, calls =>
    if (calls + 1) % livesSize ≤ lives then refuteLoop lives fuel (calls + 1)
    else some (calls + 1)

/-- The alive message a refutation with number `l` sends. -/
def refuteMsg (node : NodeState) (l : Nat) : Alive :=
  { lives := l, id := node.node.id, ip := node.node.ip, port := node.node.port,
    tags := node.node.tags }

/-- The record at `p` takes the number that `calls` calls of `nextLiveNo` have
brought the counter to. -/
def raiseLives (p calls : Nat) (m : Memberlist H) : Memberlist H :=
  let l := calls % livesSize
  let node := m.records p
  setRecord p { node with lives := l }
    { m with liveCalls := calls, issued := m.issued ++ [refuteMsg node l] }

/-- `refute`, of the record at `p`. -/
def refute (p : Nat) (lives : Nat) (m : Memberlist H) : Option (Memberlist H) :=
  match refuteLoop lives livesSize m.liveCalls with
  | none => none
  | some calls =>
    let a := refuteMsg (m.records p) (calls % livesSize)
    let m := m.raiseLives p calls
    let m := { m with awr := m.awr.punish 1 }
    some (m.broadcast a.id (.alive a) none)

/-! ## `suspectNode` -/

/-- The confirmations a suspicion waits for: one less than `SuspicionMult`, or a
single one in a cluster too small for that. -/
def confirmCap (m : Memberlist H) : Int :=
  let cap := m.config.suspicionMult - 1
  if m.getNumNodes - 1 < cap then 1 else cap

/-- `suspectNode`. -/
def suspectNode (env : Env) (s : Suspect) (m : Memberlist H) : Option (Memberlist H) :=
  match m.nodeMap s.id with
  | none => some m
  | some p =>
    let node := m.records p
    if s.lives < node.lives then some m
    else
      match m.suspicions s.id with
      | some k =>
        let (fresh, sc) := (m.suspObjs k).confirm s.sender
        let m := { m with suspObjs := Function.update m.suspObjs k sc }
        if fresh then some (m.broadcast s.id (.suspect s) none) else some m
      | none =>
        if node.state ≠ .alive then some m
        else if s.id = m.id then m.refute p s.lives
        else
          let m := m.broadcast s.id (.suspect s) none
          let m := m.setRecord p
            { node with lives := s.lives, state := .suspect, stateChange := env.now }
          some (m.addSuspicion s.id (newSuspicion m.confirmCap s.sender s.id s.lives))

/-! ## `deadNode` -/

/-- The record of a node declared dead, or left. -/
def deadRecord (env : Env) (d : Dead) (node : NodeState) : NodeState :=
  { node with
    lives := d.lives
    state := if d.left then .left else .dead
    stateChange := env.now }

/-- `deadNode`. -/
def deadNode (env : Env) (d : Dead) (notify : Option Nat) (m : Memberlist H) :
    Option (Memberlist H) :=
  match m.nodeMap d.id with
  | none => some m
  | some p =>
    let node := m.records p
    if d.lives < node.lives ∨ node.deadOrLeft then some m
    else if d.id = m.id ∧ m.left = false then m.refute p d.lives
    else
      let m := m.dropSuspicion d.id
      let m := m.broadcast d.id (.dead d) notify
      let r := deadRecord env d node
      let m := m.setRecord p r
      some (m.notifyEvent .leave r.node)

end Memberlist

end Mlist
