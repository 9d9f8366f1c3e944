import Mlist.Model.Probe

/-!
# The failure detector at work

`probe` of `maintenance.go`, which `scheduleFunc` calls again and again from one goroutine. A call
takes a node with `nextProbeNode` and is then in `probeNode` for as long as that takes. Everything
else goes on meanwhile: messages are handled, and the timers of suspicions go off. A timer does so
once it runs out, which is left to it; but it does so only if it is still running.
-/

namespace Mlist

open Mlist.Lib

variable {H : Type}

/-- A member and the goroutine of `probe`. `probing` is the clone that `probeNode` has been
given. -/
structure ProbeLoop (H : Type) where
  prober : Prober H
  probing : Option NodeState

/-- What can happen. -/
inductive ProbeLoopAct where
  /-- `probe` is called, up to where it has a node -/
  | next
  /-- `probeNode` returns: what its `Ping` returned, and what came in afterwards -/
  | probed (env : Env) (success : Bool) (events : List WaitEvent)
  | timer (env : Env) (k : Nat)
  /-- what other goroutines do -/
  | op (op : Op)

namespace ProbeLoop

abbrev m (w : ProbeLoop H) : Memberlist H := w.prober.m

def setMember (w : ProbeLoop H) (m : Memberlist H) : ProbeLoop H :=
  { w with prober := { w.prober with m } }

/-- Before the first call. `Build` sets `probeIdx` to -1. -/
def start (m : Memberlist H) : ProbeLoop H := { prober := Prober.start m (-1), probing := none }

variable [Encoded Msg] [Heap H (TransmitCapItem Msg)]

/-- One step, `none` if it cannot be taken. -/
def act : ProbeLoopAct → ProbeLoop H → Option (ProbeLoop H)
  | .next, w =>
    match w.probing with
    | some _ => none
    -- an error of `nextProbeNode` ends the call
    | none => w.prober.nextProbeNode.map fun r => { prober := r.2, probing := r.1.toOption }
  | .probed env success events, w =>
    match w.probing with
    | none => none
    | some node =>
      (w.m.probeNode env node success events).map fun m => { w.setMember m with probing := none }
  | .timer env k, w =>
    if k < w.m.numSusps ∧ (w.m.suspObjs k).pending then
      (step (.timer env k) w.m).map w.setMember
    else none
  | .op op, w =>
    match op with
    | .timer _ _ => none
    | op => (step op w.m).map w.setMember

/-- What can happen to a member that `Build` has made. -/
def Reachable (w : ProbeLoop H) : Prop :=
  ∃ env config m₀ acts, Memberlist.build env config = .ok m₀ ∧ run act acts (start m₀) = some w

end ProbeLoop

/-- Who does it. -/
inductive ProbeProc where
  | probe
  | timer (k : Nat)
  | other
  deriving DecidableEq, Repr

def ProbeLoopAct.proc : ProbeLoopAct → ProbeProc
  | .next => .probe
  | .probed _ _ _ => .probe
  | .timer _ k => .timer k
  | .op _ => .other

end Mlist
