import Mathlib.Logic.Function.Basic
import Mlist.Lib.Run
import Mlist.Model.Types

/-!
# The queues of long-running messages

`longRunMsgManager` of `net_handlers.go`. The packet handler does not act on alive,
suspect, dead and user messages itself; it puts them into one of two queues
(`queueLongRunMsg`) and the goroutine `runLongRunMsgHandler` takes them out again
(`getNextMsg`).

Both calls are made under the mutex `l`, so a call is blocked while it is held:
`none`. What a call does under the mutex nobody else sees halfway, and it is one
step. `LongRunSys` is any number of goroutines that queue, together with the one
that handles; a call is cut where it lets go of the mutex, before it tells the
handler.
-/

namespace Mlist

open Mlist.Lib

/-- `net.UDPAddr`. -/
structure UDPAddr where
  ip : IP
  port : Nat
  deriving DecidableEq, Repr

/-- `longRunMsg`; `sender` is its `from`. -/
structure LongRunMsg where
  mType : MsgType
  msg : Bytes
  sender : UDPAddr
  deriving DecidableEq, Repr

/-- `longRunMsgManager`. The back of a queue is the end of the list; `locked` is
the state of the mutex `l`. -/
structure LongRunMsgManager where
  highPriorQueue : List LongRunMsg
  lowPriorQueue : List LongRunMsg
  maxQueueDepth : Int
  locked : Bool
  deriving DecidableEq, Repr

/-- `newLongRunMsgManager`. -/
def newLongRunMsgManager (qDepth : Int) : LongRunMsgManager :=
  { highPriorQueue := [], lowPriorQueue := [], maxQueueDepth := qDepth, locked := false }

namespace LongRunMsgManager

def errQueueFull : String := "queue is full"

def errNoLongRunMsg : String := "no long-run msg"

/-- `mng.l.Lock()`. -/
def lock (mng : LongRunMsgManager) : Option LongRunMsgManager :=
  if mng.locked then none else some { mng with locked := true }

/-- `mng.l.Unlock()`. -/
def unlock (mng : LongRunMsgManager) : LongRunMsgManager := { mng with locked := false }

/-- The queue for messages of this type: alive messages have their own. -/
def queueFor (t : MsgType) (mng : LongRunMsgManager) : List LongRunMsg :=
  if t = .alive then mng.highPriorQueue else mng.lowPriorQueue

/-- `queue.PushBack`. -/
def pushBack (m : LongRunMsg) (mng : LongRunMsgManager) : LongRunMsgManager :=
  if m.mType = .alive then { mng with highPriorQueue := mng.highPriorQueue ++ [m] }
  else { mng with lowPriorQueue := mng.lowPriorQueue ++ [m] }

/-- `queueLongRunMsg`, up to where it tells the handler. The early return on a full
queue skips the `Unlock`. -/
def queueLongRunMsg (m : LongRunMsg) (mng : LongRunMsgManager) :
    Option (Except String Unit × LongRunMsgManager) :=
  mng.lock.map fun mng =>
    if ((mng.queueFor m.mType).length : Int) ≥ mng.maxQueueDepth then (.error errQueueFull, mng)
    else (.ok (), (mng.pushBack m).unlock)

/-- `getNextMsg`; its `Unlock` is deferred. -/
def getNextMsg (mng : LongRunMsgManager) : Option (Except String LongRunMsg × LongRunMsgManager) :=
  mng.lock.map fun mng =>
    match mng.highPriorQueue.getLast? with
    | some m => (.ok m, unlock { mng with highPriorQueue := mng.highPriorQueue.dropLast })
    | none =>
      match mng.lowPriorQueue.getLast? with
      | some m => (.ok m, unlock { mng with lowPriorQueue := mng.lowPriorQueue.dropLast })
      | none => (.error errNoLongRunMsg, mng.unlock)

end LongRunMsgManager

/-! ## Calls one after the other -/

/-- A call of one of the two functions. -/
inductive LongRunCall where
  | queueLongRunMsg (m : LongRunMsg)
  | getNextMsg
  deriving DecidableEq, Repr

/-- What a call returns and leaves, `none` if it is blocked. -/
def LongRunCall.exec : LongRunCall → LongRunMsgManager →
    Option (Except String (Option LongRunMsg) × LongRunMsgManager)
  | .queueLongRunMsg m, mng =>
    (mng.queueLongRunMsg m).map fun r => (r.1.map fun _ => none, r.2)
  | .getNextMsg, mng => mng.getNextMsg.map fun r => (r.1.map some, r.2)

/-- The manager after a call. -/
def LongRunCall.step (c : LongRunCall) (mng : LongRunMsgManager) : Option LongRunMsgManager :=
  (c.exec mng).map Prod.snd

/-! ## Calls interleaved -/

/-- Where a goroutine is in `queueLongRunMsg`. -/
inductive CallerPc where
  | idle
  /-- about to lock and push -/
  | locking (m : LongRunMsg)
  /-- unlocked, about to tell the handler -/
  | notifying
  deriving DecidableEq, Repr

/-- Where the goroutine of `runLongRunMsgHandler` is. -/
inductive HandlerPc where
  /-- before its `select`: it has just started, or found the queues empty -/
  | selecting
  /-- in its `select` -/
  | parked
  /-- about to call `getNextMsg` -/
  | popping
  | handling (m : LongRunMsg)
  | returned
  deriving DecidableEq, Repr

/-- The manager, the goroutines that queue, and the one that handles. -/
structure LongRunSys where
  mng : LongRunMsgManager
  callers : Nat → CallerPc
  handler : HandlerPc
  shutdown : Bool

/-- Before any goroutine has done anything. -/
def newLongRunSys (qDepth : Int) : LongRunSys :=
  { mng := newLongRunMsgManager qDepth, callers := fun _ => .idle, handler := .selecting,
    shutdown := false }

/-- The steps of the goroutines. -/
inductive LongRunAct where
  | call (g : Nat) (m : LongRunMsg)
  | push (g : Nat)
  | notify (g : Nat)
  | park
  | pop
  | handled
  | shutdown
  | quit
  deriving DecidableEq, Repr

namespace LongRunSys

def setCaller (g : Nat) (pc : CallerPc) (s : LongRunSys) : LongRunSys :=
  { s with callers := Function.update s.callers g pc }

/-- The non-blocking send on the unbuffered `gotMsgCh`: it is received by a handler
that is in its `select`, and dropped otherwise. -/
def send (s : LongRunSys) : LongRunSys :=
  if s.handler = .parked then { s with handler := .popping } else s

/-- One step, `none` if it cannot be taken. -/
def act : LongRunAct → LongRunSys → Option LongRunSys
  | .call g m, s =>
    match s.callers g with
    | .idle => some (s.setCaller g (.locking m))
    | _ => none
  | .push g, s =>
    match s.callers g with
    | .locking m =>
      match s.mng.queueLongRunMsg m with
      -- the mutex is taken
      | none => none
      | some (.ok _, mng) => some (setCaller g .notifying { s with mng })
      -- the error returns without the notification
      | some (.error _, mng) => some (setCaller g .idle { s with mng })
    | _ => none
  | .notify g, s =>
    match s.callers g with
    | .notifying => some (s.send.setCaller g .idle)
    | _ => none
  | .park, s => if s.handler = .selecting then some { s with handler := .parked } else none
  | .pop, s =>
    if s.handler = .popping then
      match s.mng.getNextMsg with
      | none => none
      | some (.ok m, mng) => some { s with mng, handler := .handling m }
      -- an empty queue ends the inner loop
      | some (.error _, mng) => some { s with mng, handler := .selecting }
    else none
  | .handled, s =>
    match s.handler with
    | .handling _ => some { s with handler := .popping }
    | _ => none
  | .shutdown, s => some { s with shutdown := true }
  | .quit, s =>
    if s.handler = .parked ∧ s.shutdown then some { s with handler := .returned } else none

end LongRunSys

end Mlist
