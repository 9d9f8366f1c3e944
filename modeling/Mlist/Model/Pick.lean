import Mlist.Lib.Outcome
import Mlist.Model.State

/-!
# Picking nodes at random

`pickRandomNodes` of `maintenance.go`, which gossip, push-pull and indirect pings choose
their peers with. It draws with replacement, three times as often as there are nodes at
most, and passes over the nodes its caller does not accept and those it has picked before.

What `rand.Uint32` gives is a parameter, one number for each draw.
-/

namespace Mlist

open Mlist.Lib

/-- `acceptFn != nil && !acceptFn(node)`. -/
def refuses (acceptFn : Option (NodeState → Bool)) (node : NodeState) : Bool :=
  match acceptFn with
  | none => false
  | some accept => !accept node

/-- The loop `PICKNODE`, with `left` rounds to go, from round `i` on. -/
def pickLoop (nodes : List NodeState) (numNodes : Int) (acceptFn : Option (NodeState → Bool))
    (rand : Nat → UInt32) : (left i : Nat) → List NodeState → Outcome (List NodeState)
  | 0, _, picked => .ok picked
  | left + 1, i, picked =>
    if (picked.length : Int) < numNodes then do
      let idx ← randIntN (rand i) nodes.length
      let node ← Outcome.index nodes idx
      if refuses acceptFn node then pickLoop nodes numNodes acceptFn rand left (i + 1) picked
      else if picked.any fun p => node.node.id == p.node.id then
        pickLoop nodes numNodes acceptFn rand left (i + 1) picked
      else pickLoop nodes numNodes acceptFn rand left (i + 1) (picked ++ [node])
    else .ok picked

/-- `pickRandomNodes`; `maxCap` is the largest capacity `make` accepts. -/
def Memberlist.pickRandomNodes {H : Type} (m : Memberlist H) (maxCap : Nat) (numNodes : Int)
    (acceptFn : Option (NodeState → Bool)) (rand : Nat → UInt32) : Outcome (List NodeState) := do
  let nodes := m.nodes.toList.map m.records
  Outcome.makeCap maxCap numNodes
  pickLoop nodes numNodes acceptFn rand (3 * nodes.length) 0 []

end Mlist
