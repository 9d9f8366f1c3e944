import Mlist.Lib.Cursor
import Mlist.Model.Member
import Mlist.Model.Ping

/-!
# Probing

`nextProbeNode` of `maintenance.go`: the failure detector goes through `m.nodes` with the
index `m.probeIdx`, passing over the member itself and whoever is dead or has left, and
starts again at the front when it gets to the end. `probeNode` is what it does with the node
it finds: a `Ping`, then an `IndirectPing` and a `TcpPing` at once, and a suspicion when none
of them is answered.

`Prober` is a member with that index. Its `calls` are history: what each call of
`nextProbeNode` did, whether it set the index back to 0 among them. The node a call returns
is a clone of the record; `found` remembers which record it was.
-/

namespace Mlist

open Mlist.Lib

variable {H : Type}

namespace Memberlist

/-- The nodes `nextProbeNode` passes over. -/
def probeSkips (m : Memberlist H) (p : Nat) : Bool :=
  (m.records p).node.id == m.id || (m.records p).deadOrLeft

/-- One round of the outer loop of `nextProbeNode`: `wrapAround`, where the index has got
to, and the record found there. -/
def probeTurn (m : Memberlist H) (probeIdx : Nat) : Bool × Nat × Option Nat :=
  let (probeIdx, wrapAround) :=
    if probeIdx ≥ m.nodes.size then (0, true) else (probeIdx, false)
  let (probeIdx, found) := seek m.probeSkips m.nodes (m.nodes.size - probeIdx) probeIdx
  (wrapAround, probeIdx, found)

end Memberlist

/-- A call of `nextProbeNode`. -/
structure ProbeCall where
  wrapAround : Bool
  found : Option Nat
  result : Except String NodeState

/-- A member and its `probeIdx`. -/
structure Prober (H : Type) where
  m : Memberlist H
  probeIdx : Int
  calls : List ProbeCall

namespace Prober

/-- Nobody has been probed yet. `Build` sets `probeIdx` to -1. -/
def start (m : Memberlist H) (probeIdx : Int) : Prober H := { m, probeIdx, calls := [] }

/-- `nextProbeNode`. The second round, if there is one, begins at the end of `m.nodes` and so
wraps around. An index below 0 is a crash, `none`; `m.probeIdx++` makes one of the largest `int`,
too. -/
def nextProbeNode (s : Prober H) : Option (Except String NodeState × Prober H) :=
  if s.probeIdx + 1 < 0 ∨ 2 ^ 63 ≤ s.probeIdx + 1 then none
  else
    let (wrapAround, probeIdx, found) := s.m.probeTurn (s.probeIdx + 1).toNat
    let (wrapAround, probeIdx, found) :=
      if found.isNone && !wrapAround then s.m.probeTurn probeIdx
      else (wrapAround, probeIdx, found)
    let result := match found with
      | some p => .ok (s.m.records p)
      | none => .error "no node to probe"
    some (result, { s with probeIdx, calls := s.calls ++ [{ wrapAround, found, result }] })

end Prober

/-- What happens between two rounds of the failure detector. -/
inductive ProbeAction where
  | nextProbeNode
  | op (op : Op)

namespace Prober

variable [Encoded Msg] [Heap H (TransmitCapItem Msg)]

def act : ProbeAction → Prober H → Option (Prober H)
  | .nextProbeNode, s => s.nextProbeNode.map Prod.snd
  | .op op, s => (step op s.m).map fun m => { s with m }

end Prober

/-! ## `probeNode` -/

/-- What the `select` of `probeNode` receives, from `indirectCh` and from `tcpCh`. -/
inductive WaitEvent where
  | indirect (res : PingResult)
  | tcp (res : Bool)
  deriving DecidableEq, Repr

/-- The loop `WAIT`: `success`, and the `indirectRes` it leaves behind. `waitTimeout` is the
end of the list. -/
def probeWait : List WaitEvent → PingResult → Bool × PingResult
  | [], indirectRes => (false, indirectRes)
  | .indirect res :: events, _ => if res.success then (true, res) else probeWait events res
  | .tcp res :: events, indirectRes =>
    if res then (true, indirectRes) else probeWait events indirectRes

/-- `nNacks` as the result has it: the replies were counted in an `int32`. -/
def PingResult.nackCount (res : PingResult) : Int := (Int32.ofNat res.nNacks).toInt

/-- `missedNacks`. -/
def PingResult.missedNacks (res : PingResult) : Int := res.numNode - res.nackCount

/-- `probeNode`: what its `Ping` returned, and what came in afterwards. `m` is the member when
all that is over. -/
def Memberlist.probeNode [Encoded Msg] [Heap H (TransmitCapItem Msg)] (env : Env)
    (node : NodeState) (success : Bool) (events : List WaitEvent) (m : Memberlist H) :
    Option (Memberlist H) :=
  if success then some { m with awr := m.awr.punish (-1) }
  else
    let (success, indirectRes) := probeWait events ⟨false, 0, 0⟩
    if success then some { m with awr := m.awr.punish (-1) }
    else
      let m := { m with awr := m.awr.punish indirectRes.missedNacks }
      m.suspectNode env { lives := node.lives, id := node.node.id, sender := m.id }

end Mlist
