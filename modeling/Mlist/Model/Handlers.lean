import Mlist.Model.Ping

/-!
# Setting and removing ack handlers

`setAckHandler` and `setIndirectAckHandler` of `ping.go` start a timer with
`time.AfterFunc` and then put the handler into its table under the lock; the function
of the timer deletes the entry under the lock. Both have one body up to the table, so
here they are one call with a `PingKind`.

`HandlerSys` is any number of such calls, each cut between the timer and the lock,
together with the timers and the receivers of acks. A handler is known by the number of
the call that sets it. A timer of no or a negative duration is due at once.
-/

namespace Mlist

/-- Where a call that sets a handler is. -/
inductive SetPc where
  | idle
  /-- its timer is started, its handler is not in the table yet -/
  | armed
  | returned
  deriving DecidableEq, Repr

/-- A call of `setAckHandler` or `setIndirectAckHandler`. `timer` says that the function of
the timer is still to delete the entry: the timer has not been stopped in time, and the
function has not been in the lock. -/
structure SetCall where
  kind : PingKind
  seqNo : UInt32
  deadline : Time
  timer : Bool
  pc : SetPc
  deriving DecidableEq, Repr

/-- The tables, the calls, and the handlers that `invokeAckHandler` has taken out and whose
timers it has not stopped yet. -/
structure HandlerSys where
  now : Time
  mng : PingManager
  calls : Nat → SetCall
  held : List Nat

/-- One uninterrupted piece. -/
inductive HandlerAction where
  | tick (d : Nat)
  /-- `time.AfterFunc` -/
  | arm (i : Nat) (kind : PingKind) (seqNo : UInt32) (timeout : Time)
  /-- the rest of the call, under the lock -/
  | insert (i : Nat)
  /-- the function of the timer -/
  | expire (i : Nat)
  /-- `invokeAckHandler` as far as the `Unlock` -/
  | ack (seqNo : UInt32)
  /-- its `timer.Stop`; `late` if the function of the timer is already on its way -/
  | stop (i : Nat) (late : Bool)
  /-- `invokeIndirectAckHandler` -/
  | indirectAck (seqNo : UInt32) (success : Bool) (late : Bool)
  deriving DecidableEq, Repr

namespace HandlerSys

/-- `newPingManager`, and no call yet. -/
def new (now : Time) : HandlerSys :=
  { now
    mng := { seqNo := 0, handlers := fun _ _ => none }
    calls := fun _ => { kind := .direct, seqNo := 0, deadline := 0, timer := false, pc := .idle }
    held := [] }

def setCall (i : Nat) (c : SetCall) (s : HandlerSys) : HandlerSys :=
  { s with calls := Function.update s.calls i c }

/-- `timer.Stop`: it does not stop a function that is already on its way, and only that of a
timer that is due can be. -/
def stopTimer (i : Nat) (late : Bool) (s : HandlerSys) : HandlerSys :=
  if late = true ∧ (s.calls i).deadline ≤ s.now then s
  else s.setCall i { s.calls i with timer := false }

/-- One action, `none` if it is not possible. -/
def act : HandlerAction → HandlerSys → Option HandlerSys
  | .tick d, s => some { s with now := s.now + d }
  | .arm i kind seqNo timeout, s =>
    if (s.calls i).pc = .idle then
      some (s.setCall i { kind, seqNo, deadline := s.now + timeout, timer := true, pc := .armed })
    else none
  | .insert i, s =>
    if (s.calls i).pc = .armed then
      some (setCall i { s.calls i with pc := .returned } { s with
        mng := s.mng.setHandler (s.calls i).kind (s.calls i).seqNo (some i) })
    else none
  | .expire i, s =>
    if (s.calls i).timer = true ∧ (s.calls i).deadline ≤ s.now then
      some (setCall i { s.calls i with timer := false } { s with
        mng := s.mng.setHandler (s.calls i).kind (s.calls i).seqNo none })
    else none
  | .ack seqNo, s =>
    match s.mng.handlers .direct seqNo with
    | none => some s
    | some i => some { s with mng := s.mng.setHandler .direct seqNo none, held := i :: s.held }
  | .stop i late, s =>
    if i ∈ s.held then some (stopTimer i late { s with held := s.held.erase i }) else none
  | .indirectAck seqNo success late, s =>
    match s.mng.handlers .indirect seqNo with
    | none => some s
    | some i =>
      if success = false then some s
      else some (stopTimer i late { s with mng := s.mng.setHandler .indirect seqNo none })

end HandlerSys

end Mlist
