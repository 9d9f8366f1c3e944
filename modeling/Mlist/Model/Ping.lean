import Mathlib.Logic.Function.Basic
import Mlist.Lib.Notify
import Mlist.Model.LongRun

/-!
# A ping and its ack

`Ping` and `IndirectPing` of `ping.go`. The call registers a handler under its sequence
number, sends its messages and waits for the ack. The receiver of an ack takes the handler
out of its table and sends on the handler's channel, which is unbuffered, without blocking:
`invokeAckHandler` under the lock only as far as the table goes, `invokeIndirectAckHandler`
from beginning to end.

`PingSys` is one such call and all that can come in between: the receivers of acks with any
number, each of which may be interrupted, the timers, and whatever other calls do to the
tables at other numbers. A handler is known by the number of the call it belongs to.
-/

namespace Mlist

open Mlist.Lib

/-- The two kinds of ping, each with a table of its own. -/
inductive PingKind where
  | direct
  | indirect
  deriving DecidableEq, Repr

/-- The tables `ackHandlers` and `indirectAckHandlers`. -/
abbrev AckHandlers := PingKind → UInt32 → Option Nat

/-- A handler is put into its table, or deleted. -/
def AckHandlers.set (kind : PingKind) (seqNo : UInt32) (h : Option Nat) (handlers : AckHandlers) :
    AckHandlers :=
  Function.update handlers kind (Function.update (handlers kind) seqNo h)

/-- The other places stay as they are. -/
theorem AckHandlers.set_apply (handlers : AckHandlers) (k k' : PingKind) (n n' : UInt32)
    (h : Option Nat) :
    handlers.set k n h k' n' = if k' = k ∧ n' = n then h else handlers k' n' := by
  unfold AckHandlers.set
  by_cases hk : k' = k
  · subst hk
    by_cases hn : n' = n
    · simp [hn]
    · simp [hn]
  · simp [hk]

/-- `pingManager`. -/
structure PingManager where
  seqNo : UInt32
  handlers : AckHandlers

namespace PingManager

/-- `nextSeqNo`. -/
def nextSeqNo (mng : PingManager) : UInt32 × PingManager :=
  let mng := { mng with seqNo := mng.seqNo + 1 }
  (mng.seqNo, mng)

def setHandler (kind : PingKind) (seqNo : UInt32) (h : Option Nat) (mng : PingManager) :
    PingManager :=
  { mng with handlers := mng.handlers.set kind seqNo h }

end PingManager

/-- `indirectPingResult`. What `Ping` returns is its `success`. -/
structure PingResult where
  success : Bool
  nNacks : Nat
  numNode : Nat
  deriving DecidableEq, Repr

/-- Where a call is that does not yet wait. -/
inductive PingPc where
  | starting
  /-- has its sequence number -/
  | numbered
  /-- has started the timer of its handler -/
  | armed
  /-- its handler is in the table; so many messages are still to be sent -/
  | sending (left : Nat)
  deriving DecidableEq, Repr

/-- A call. `numSends` is 1 for a `Ping` and the number of peers for an `IndirectPing`;
`deadline` is when the timer of the handler goes off. -/
structure PingCall where
  handler : Nat
  kind : PingKind
  timeout : Time
  seqNo : UInt32
  numSends : Nat
  deadline : Time
  timer : Bool
  nNacks : Nat
  pc : Caller PingPc PingResult
  deriving DecidableEq, Repr

/-- A call, the tables, and the handlers that receivers of acks have taken out of
`ackHandlers` and not sent to yet. `registered` and `acked` are history: the handler has been
put into its table; and since then, before its deadline, an ack with the number of the call
has been dealt with to the end. -/
structure PingSys where
  now : Time
  mng : PingManager
  call : PingCall
  held : List Nat
  registered : Bool
  acked : Bool

/-- One uninterrupted piece. -/
inductive PingAction where
  | tick (d : Nat)
  /-- the call as far as `nextSeqNo`: whether there is an address to advertise, and which peers
  were picked -/
  | start (addr : Bool) (peers : List UDPAddr)
  /-- `time.AfterFunc` -/
  | arm
  | register
  | send (ok : Bool)
  | select
  | timeout
  /-- the function the timer of the handler runs -/
  | expire
  /-- `invokeAckHandler` as far as the `Unlock` -/
  | ack (seqNo : UInt32)
  /-- the rest of it, for the handler it took -/
  | deliver (h : Nat)
  /-- `invokeIndirectAckHandler`, for a reply of this sender, which it does not look at -/
  | indirectAck (sender : UDPAddr) (seqNo : UInt32) (success : Bool)
  /-- another call takes a number -/
  | otherSeqNo
  /-- the handler of another call is registered, or deleted -/
  | other (kind : PingKind) (seqNo : UInt32) (h : Option Nat)
  deriving DecidableEq, Repr

namespace PingSys

/-- Before the call. -/
def start (now : Time) (mng : PingManager) (held : List Nat) (handler : Nat) (kind : PingKind)
    (timeout : Time) : PingSys :=
  { now, mng, held, registered := false, acked := false
    call := { handler, kind, timeout, seqNo := 0, numSends := 0, deadline := 0, timer := false
              nNacks := 0, pc := .running .starting } }

def setPc (pc : Caller PingPc PingResult) (s : PingSys) : PingSys :=
  { s with call := { s.call with pc } }

/-- This is the place of the call's own handler. -/
def owns (kind : PingKind) (seqNo : UInt32) (s : PingSys) : Bool :=
  s.call.pc != .running .starting && kind == s.call.kind && seqNo == s.call.seqNo

/-- The deadline of the handler is still to come. -/
def inTime (s : PingSys) : Bool := s.registered && decide (s.now < s.call.deadline)

/-- An ack that finds no handler has been dealt with. -/
def unhandled (kind : PingKind) (seqNo : UInt32) (s : PingSys) : PingSys :=
  { s with acked := s.acked || (s.owns kind seqNo && s.inTime) }

/-- `timer.Stop` and the send on the channel of the handler `h`. -/
def sendAck (h : Nat) (s : PingSys) : PingSys :=
  if h = s.call.handler then
    { s with
      acked := s.acked || s.inTime
      call := { s.call with timer := false, pc := s.call.pc.signal ⟨true, 0, 0⟩ } }
  else s

/-- What the call returns when nothing was heard in time. -/
def timeoutResult (s : PingSys) : PingResult :=
  match s.call.kind with
  | .direct => ⟨false, 0, 0⟩
  | .indirect => ⟨false, s.call.nNacks, s.call.numSends⟩

/-- One action, `none` if it is not possible. -/
def act : PingAction → PingSys → Option PingSys
  | .tick d, s => some { s with now := s.now + d }
  | .start addr peers, s =>
    match s.call.pc with
    | .running .starting =>
      -- without an address to advertise, or without peers, it takes no number
      if addr = false then some (s.setPc (.returned ⟨false, 0, 0⟩))
      else if s.call.kind = .indirect ∧ peers.length = 0 then
        some (s.setPc (.returned ⟨false, 0, 0⟩))
      else
        let (seqNo, mng) := s.mng.nextSeqNo
        let numSends := match s.call.kind with
          | .direct => 1
          | .indirect => peers.length
        some { s with mng, call := { s.call with seqNo, numSends, pc := .running .numbered } }
    | _ => none
  | .arm, s =>
    match s.call.pc with
    | .running .numbered =>
      some { s with call := { s.call with
        deadline := s.now + s.call.timeout
        timer := true
        pc := .running .armed } }
    | _ => none
  | .register, s =>
    match s.call.pc with
    | .running .armed =>
      some { s with
        mng := s.mng.setHandler s.call.kind s.call.seqNo (some s.call.handler)
        registered := true
        call := { s.call with pc := .running (.sending s.call.numSends) } }
    | _ => none
  | .send ok, s =>
    match s.call.pc with
    | .running (.sending (left + 1)) =>
      if ok then some (s.setPc (.running (.sending left)))
      -- the first error ends the call, with its handler still registered
      else some (s.setPc (.returned ⟨false, 0, 0⟩))
    | _ => none
  | .select, s =>
    match s.call.pc with
    | .running (.sending 0) => some (s.setPc (.waiting (s.now + s.call.timeout)))
    | _ => none
  | .timeout, s => (s.call.pc.expire s.now s.timeoutResult).map fun pc => s.setPc pc
  | .expire, s =>
    if s.call.timer = true ∧ s.call.deadline ≤ s.now then
      some { s with
        mng := s.mng.setHandler s.call.kind s.call.seqNo none
        call := { s.call with timer := false } }
    else none
  | .ack seqNo, s =>
    match s.mng.handlers .direct seqNo with
    | none => some (s.unhandled .direct seqNo)
    | some h => some { s with mng := s.mng.setHandler .direct seqNo none, held := h :: s.held }
  | .deliver h, s => if h ∈ s.held then some ({ s with held := s.held.erase h }.sendAck h) else none
  | .indirectAck _ seqNo success, s =>
    match s.mng.handlers .indirect seqNo with
    | none => if success then some (s.unhandled .indirect seqNo) else some s
    | some h =>
      -- a nack is counted and leaves the handler where it is
      if success = false then
        if h = s.call.handler then
          some { s with call := { s.call with nNacks := s.call.nNacks + 1 } }
        else some s
      else some ({ s with mng := s.mng.setHandler .indirect seqNo none }.sendAck h)
  | .otherSeqNo, s => some { s with mng := s.mng.nextSeqNo.2 }
  | .other kind seqNo h, s =>
    -- what another call does to the table is not about this one
    if s.owns kind seqNo = true ∨ h = some s.call.handler then none
    else some { s with mng := s.mng.setHandler kind seqNo h }

end PingSys

end Mlist
