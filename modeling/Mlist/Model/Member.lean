import Mlist.Lib.Run
import Mlist.Lib.Swap
import Mlist.Model.State

/-!
# A member and everything it can do

The callers of the state handlers: the suspicion timer (`state.go`), `setAlive`,
`UpdateTags` and `Leave` (`memberlist.go`), `localState` and `mergeState`
(`pushpull.go`), `reap` (`maintenance.go`) and the building of a `Memberlist`.

`Op` lists what a running member does, one constructor for each, and `step` does
it from beginning to end. The messages in an `Op` are arbitrary: who sent them,
and whether anybody did, is the business of `Cluster`. Where two goroutines run
into each other inside one of these operations is the business of `Race`.

An operation returns `none` when it never returns to its caller: the loop of
`refute` that does not end, the `panic` of `Leave` after `Shutdown`, the missing
record `UpdateTags` dereferences.
-/

namespace Mlist

open Mlist.Lib

variable {H : Type} [Encoded Msg] [Heap H (TransmitCapItem Msg)]

namespace Memberlist

/-! ## Building -/

/-- The `&Memberlist{…}` of `Build`. -/
def new (config : Config) : Memberlist H :=
  { config
    liveCalls := 0
    awr := newAwareness config.maxAwarenessHealth
    shutdown := false
    left := false
    mbroadcasts := TransmitCapQueue.new
    events := []
    records := fun _ => default
    numRecords := 0
    nodes := #[]
    nodeMap := fun _ => none
    numNodes := 0
    suspObjs := fun _ => default
    numSusps := 0
    suspicions := fun _ => none
    queued := []
    issued := [] }

/-- `ErrMaxTagSizeExceed`. -/
def errMaxTagSizeExceed : String := "max tag size exceeds"

/-- The error of `GetAdvertiseAddr`. -/
def errAdvertiseAddr : String := "failed to parse advertise address"

/-- An alive message about ourselves with the next number of our counter. -/
def issueAlive (ip : IP) (port : Nat) (tags : Bytes) (m : Memberlist H) :
    Alive × Memberlist H :=
  let (no, m) := m.nextLiveNo
  let a : Alive := { lives := no, id := m.id, ip, port, tags }
  (a, { m with issued := m.issued ++ [a] })

/-- `setAlive`. -/
def setAlive (env : Env) (m : Memberlist H) : Except String (Memberlist H) :=
  if m.config.tags.length > tagMaxSize then .error errMaxTagSizeExceed
  else
    match m.config.advertiseAddr with
    | none => .error errAdvertiseAddr
    | some addr =>
      let (a, m) := m.issueAlive addr m.config.advertisePort m.config.tags
      .ok (m.aliveNode env a none)

/-- `Build`, as far as the membership goes: `start` calls `setAlive` before any
goroutine runs. -/
def build (env : Env) (config : Config) : Except String (Memberlist H) :=
  (new config).setAlive env

/-! ## The suspicion timer -/

/-- The guard of `timeoutFn`: the node is still there, still suspect, and at the
`lives` the suspicion was raised with. -/
def timerGuard (k : Nat) (m : Memberlist H) : Bool :=
  match m.nodeMap (m.suspObjs k).id with
  | none => false
  | some p =>
    decide ((m.records p).state = .suspect) && decide ((m.records p).lives = (m.suspObjs k).lives)

/-- `timeoutFn`. -/
def timeoutFn (env : Env) (k : Nat) (m : Memberlist H) : Option (Memberlist H) :=
  match m.nodeMap (m.suspObjs k).id with
  | none => some m
  | some p =>
    let node := m.records p
    if m.timerGuard k then
      m.deadNode env { lives := node.lives, id := node.node.id, left := false } none
    else some m

/-- The timer of suspicion `k` fires, if it is pending. -/
def fireTimer (env : Env) (k : Nat) (m : Memberlist H) : Option (Memberlist H) :=
  if k < m.numSusps ∧ (m.suspObjs k).pending then
    let m := { m with
      suspObjs := Function.update m.suspObjs k { m.suspObjs k with pending := false } }
    m.timeoutFn env k
  else some m

/-! ## Push/pull -/

/-- `localState`. -/
def localState (m : Memberlist H) : List StateToMerge :=
  m.nodes.toList.map fun p =>
    let n := m.records p
    { lives := n.lives, id := n.node.id, ip := n.node.ip, port := n.node.port,
      tags := n.node.tags, state := n.state.code }

/-- One round of the loop of `mergeState`. A dead node is only suspected. -/
def mergeOne (env : Env) (r : StateToMerge) (m : Memberlist H) : Option (Memberlist H) :=
  match StateType.ofCode r.state with
  | some .alive =>
    some (m.aliveNode env
      { lives := r.lives, id := r.id, ip := r.ip, port := r.port, tags := r.tags } none)
  | some .left => m.deadNode env { lives := r.lives, id := r.id, left := true } none
  | some .dead => m.suspectNode env { lives := r.lives, id := r.id, sender := m.id }
  | some .suspect => m.suspectNode env { lives := r.lives, id := r.id, sender := m.id }
  | none => some m

/-- `mergeState`; every round has its own clock and randomness. -/
def mergeState (remote : List (Env × StateToMerge)) (m : Memberlist H) : Option (Memberlist H) :=
  run (fun r m => mergeOne r.1 r.2 m) remote m

/-! ## `UpdateTags` and `Leave` -/

/-- `hasActivePeers`. -/
def hasActivePeers (m : Memberlist H) : Bool :=
  m.nodes.toList.any fun p => !(m.records p).deadOrLeft && (m.records p).node.id != m.id

/-- `ActiveNodes`. -/
def activeNodes (m : Memberlist H) : List NodeState :=
  (m.nodes.toList.map m.records).filter fun n => !n.deadOrLeft

/-- The end of `UpdateTags` and `Leave`: wait for the notification or for the
timeout, unless there is nobody to tell or no time to wait. -/
def awaitBroadcast (env : Env) (timeoutErr : String) (m : Memberlist H) : Except String Unit :=
  if !m.hasActivePeers || m.config.broadcastWaitTimeout = 0 then .ok ()
  else if env.notified then .ok () else .error timeoutErr

/-- `UpdateTags`, with `notify` for its channel. -/
def updateTags (env : Env) (tags : Bytes) (notify : Nat) (m : Memberlist H) :
    Option (Except String Unit × Memberlist H) :=
  if tags.length > tagMaxSize then some (.error errMaxTagSizeExceed, m)
  else
    match m.nodeMap m.id with
    | none => none
    | some p =>
      let node := m.records p
      let (a, m) := m.issueAlive node.node.ip node.node.port tags
      let m := m.aliveNode env a (some notify)
      some (m.awaitBroadcast env "timeout waiting for update broadcast", m)

/-- `Leave`, with `notify` for its channel. -/
def leave (env : Env) (notify : Nat) (m : Memberlist H) :
    Option (Except String Unit × Memberlist H) :=
  if m.shutdown then none
  else if m.left then some (.ok (), m)
  else
    let m := { m with left := true }
    match m.nodeMap m.id with
    | none => some (.ok (), m)
    | some p =>
      let node := m.records p
      let d : Dead := { lives := node.lives, id := node.node.id, left := true }
      (m.deadNode env d (some notify)).map fun m =>
        (m.awaitBroadcast env "timeout waiting for leave broadcast", m)

/-! ## `reap` -/

/-- Dead or left for longer than `timeout`. -/
def expired (now timeout : Time) (n : NodeState) : Bool :=
  n.deadOrLeft && decide (now - n.stateChange > timeout)

/-- `swapExpiredToEnd`, on `m.nodes`. -/
def swapExpiredToEnd (now : Time) (m : Memberlist H) : Nat × Array Nat :=
  sweepAll (fun p => expired now m.config.deadNodeExpiredTimeout (m.records p)) m.nodes

/-- `shuffleNodes`. -/
def shuffleNodes (draw : Nat → Nat) (nodes : Array Nat) : Array Nat :=
  shuffle draw (nodes.size - 1) nodes

/-- `delete(m.nodeMap, …)` for the ID of each of these records. -/
def deregister (records : Nat → NodeState) (nodeMap : String → Option Nat) (gone : List Nat) :
    String → Option Nat :=
  gone.foldl (fun mp p => Function.update mp (records p).node.id none) nodeMap

/-- `reap`. -/
def reap (env : Env) (m : Memberlist H) : Memberlist H :=
  let (expiredIdx, nodes) := m.swapExpiredToEnd env.now
  { m with
    nodeMap := deregister m.records m.nodeMap (nodes.toList.drop expiredIdx)
    nodes := shuffleNodes env.draw (nodes.toList.take expiredIdx).toArray
    numNodes := Int32.ofNat expiredIdx }

end Memberlist

/-! ## Operations -/

/-- What a running member does, with the messages, times and random numbers of
the moment. `getMessages` is the drain of the broadcast queue by `gossip` and by
piggybacking, `punish` what probing does to the health score. -/
inductive Op where
  | alive (env : Env) (a : Alive) (notify : Option Nat)
  | suspect (env : Env) (s : Suspect)
  | dead (env : Env) (d : Dead) (notify : Option Nat)
  | timer (env : Env) (k : Nat)
  | merge (remote : List (Env × StateToMerge))
  | updateTags (env : Env) (tags : Bytes) (notify : Nat)
  | leave (env : Env) (notify : Nat)
  | reap (env : Env)
  | getMessages (transLimit overhead size : Int)
  | punish (delta : Int)
  | shutdown

/-- One operation, from beginning to end. -/
def step : Op → Memberlist H → Option (Memberlist H)
  | .alive env a notify, m => some (m.aliveNode env a notify)
  | .suspect env s, m => m.suspectNode env s
  | .dead env d notify, m => m.deadNode env d notify
  | .timer env k, m => m.fireTimer env k
  | .merge remote, m => m.mergeState remote
  | .updateTags env tags notify, m => (m.updateTags env tags notify).map Prod.snd
  | .leave env notify, m => (m.leave env notify).map Prod.snd
  | .reap env, m => some (m.reap env)
  | .getMessages transLimit overhead size, m =>
    some { m with mbroadcasts := (m.mbroadcasts.getMessages transLimit overhead size).2 }
  | .punish delta, m => some { m with awr := m.awr.punish delta }
  | .shutdown, m => some { m with shutdown := true }

/-- The states a member can be in: what `Build` made, and then any run. -/
def Reachable (m : Memberlist H) : Prop :=
  ∃ env config m₀ ops, Memberlist.build env config = .ok m₀ ∧ run step ops m₀ = some m

end Mlist
