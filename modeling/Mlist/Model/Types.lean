import Mathlib.Algebra.Ring.Int.Defs
import Mathlib.Algebra.Ring.Nat
import Mathlib.Data.List.Basic
import Mlist.Lib.Outcome

/-!
# The data of the membership protocol

The record types of `state.go`, `pushpull.go`, `suspicion.go`, `awareness.go`,
`node_events.go` and `net_handlers.go`, with the small functions that live beside
them.

Reading notes:

- `Lives` is a `uint32` in the source. It is a `Nat` here: every statement is
  about all values, and the one place where the width matters is the counter
  `m.lives`, whose `AddUint32` wraps (`liveNo` in `State.lean`).
- Byte slices are lists of bytes. The source never writes into one after it has
  stored it (`copyBytes` hands back its argument), so values are enough.
- IDs are strings and only ever compared.
- A time is a number of nanoseconds.
- `stateToMerge.State` comes off the wire as any integer, so it is an `Int`
  there; a record's own `State` is always one of the four constants.
-/

namespace Mlist

open Mlist.Lib

abbrev Bytes := List UInt8

/-- `net.IP`: 4 or 16 bytes, or whatever else a message carried. -/
abbrev IP := List UInt8

/-- `time.Time` and `time.Duration`, in nanoseconds. -/
abbrev Time := Int

/-! ## Nodes -/

/-- `StateType`, with `iota` as its code. -/
inductive StateType where
  | alive
  | suspect
  | dead
  | left
  deriving DecidableEq, Repr

/-- The integer the constant stands for. -/
def StateType.code : StateType → Int
  | .alive => 0
  | .suspect => 1
  | .dead => 2
  | .left => 3

/-- The constant an integer stands for; no `case` of a `switch` matches the
others. -/
def StateType.ofCode (n : Int) : Option StateType :=
  if n = 0 then some .alive
  else if n = 1 then some .suspect
  else if n = 2 then some .dead
  else if n = 3 then some .left
  else none

@[simp] theorem StateType.ofCode_code (t : StateType) : StateType.ofCode t.code = some t := by
  cases t <;> rfl

/-- `Node`. -/
structure Node where
  id : String
  ip : IP
  port : Nat
  tags : Bytes
  deriving DecidableEq, Repr, Inhabited

/-- `nodeState`. -/
structure NodeState where
  node : Node
  lives : Nat
  state : StateType
  stateChange : Time
  deriving DecidableEq, Repr

instance : Inhabited NodeState := ⟨⟨default, 0, .alive, 0⟩⟩

/-- `nodeState.DeadOrLeft`. -/
def NodeState.deadOrLeft (n : NodeState) : Bool := n.state == .dead || n.state == .left

theorem NodeState.deadOrLeft_eq_true {n : NodeState} :
    n.deadOrLeft = true ↔ n.state = .dead ∨ n.state = .left := by
  simp [NodeState.deadOrLeft]

theorem NodeState.deadOrLeft_eq_false {n : NodeState} :
    n.deadOrLeft = false ↔ n.state = .alive ∨ n.state = .suspect := by
  unfold NodeState.deadOrLeft
  cases n.state <;> decide

theorem NodeState.deadOrLeft_of_alive {n : NodeState} (h : n.state = .alive) :
    n.deadOrLeft = false := by
  simp [NodeState.deadOrLeft, h]

/-! ## Messages -/

/-- `msgType`. -/
inductive MsgType where
  | ping
  | indirectPing
  | ack
  | indirectAck
  | alive
  | suspect
  | dead
  | pushPull
  | compound
  | user
  | compress
  | encrypt
  | hasCrc
  | err
  deriving DecidableEq, Repr

/-- The byte that stands for the type on the wire: its `iota`. -/
def MsgType.code : MsgType → UInt8
  | .ping => 0
  | .indirectPing => 1
  | .ack => 2
  | .indirectAck => 3
  | .alive => 4
  | .suspect => 5
  | .dead => 6
  | .pushPull => 7
  | .compound => 8
  | .user => 9
  | .compress => 10
  | .encrypt => 11
  | .hasCrc => 12
  | .err => 13

/-- The `alive` message. -/
structure Alive where
  lives : Nat
  id : String
  ip : IP
  port : Nat
  tags : Bytes
  deriving DecidableEq, Repr

/-- The `suspect` message; `sender` is its `From`. -/
structure Suspect where
  lives : Nat
  id : String
  sender : String
  deriving DecidableEq, Repr

/-- The `dead` message. -/
structure Dead where
  lives : Nat
  id : String
  left : Bool
  deriving DecidableEq, Repr

/-- What a member broadcasts: a message with its type (`aliveMsg`, `suspectMsg`
or `deadMsg`). -/
inductive Msg where
  | alive (a : Alive)
  | suspect (s : Suspect)
  | dead (d : Dead)
  deriving DecidableEq, Repr

/-- The member a message is about. -/
def Msg.id : Msg → String
  | .alive a => a.id
  | .suspect s => s.id
  | .dead d => d.id

def Msg.lives : Msg → Nat
  | .alive a => a.lives
  | .suspect s => s.lives
  | .dead d => d.lives

/-- `stateToMerge`: one node of a push/pull exchange. -/
structure StateToMerge where
  lives : Nat
  id : String
  ip : IP
  port : Nat
  tags : Bytes
  state : Int
  deriving DecidableEq, Repr

/-! ## Events -/

/-- `NodeEventType`. -/
inductive NodeEventType where
  | join
  | leave
  | update
  deriving DecidableEq, Repr

/-- `NodeEvent`. -/
structure NodeEvent where
  type : NodeEventType
  node : Node
  deriving DecidableEq, Repr

/-! ## Allowed addresses -/

/-- `net.IPNet`. -/
structure IPNet where
  ip : IP
  mask : Bytes
  deriving DecidableEq, Repr

/-- `IP.To4`: the four-byte form, when there is one. -/
def to4 (ip : IP) : Option IP :=
  if ip.length = 4 then some ip
  else if ip.length = 16 ∧ ip.take 10 = List.replicate 10 0 ∧ (ip.drop 10).take 2 = [255, 255] then
    some (ip.drop 12)
  else none

/-- `networkNumberAndMask` of the `net` package; `([], [])` is its `nil, nil`. -/
def IPNet.networkNumberAndMask (n : IPNet) : IP × Bytes :=
  match to4 n.ip with
  | some ip =>
    if n.mask.length = 4 then (ip, n.mask)
    else if n.mask.length = 16 then (ip, n.mask.drop 12)
    else ([], [])
  | none => if n.ip.length = 16 ∧ n.mask.length = 16 then (n.ip, n.mask) else ([], [])

/-- `IPNet.Contains`. -/
def IPNet.contains (n : IPNet) (ip : IP) : Bool :=
  let (nn, m) := n.networkNumberAndMask
  let ip := (to4 ip).getD ip
  ip.length == nn.length &&
    (List.zipWith (· &&& ·) nn m == List.zipWith (· &&& ·) ip m)

/-- `Memberlist.IPAllowed`, over `config.CIDRsAllowed`. -/
def ipAllowed (cidrsAllowed : List IPNet) (ip : IP) : Bool :=
  cidrsAllowed.isEmpty || cidrsAllowed.any (·.contains ip)

/-! ## Configuration -/

/-- What the modelled functions read of `Config`. `Build` overwrites the ID with
`UniqueID()`, which is never empty; `advertiseAddr` is `none` when
`net.ParseIP` rejects `AdvertiseAddr`. -/
structure Config where
  id : String
  id_ne : id ≠ ""
  advertiseAddr : Option IP
  advertisePort : Nat
  cidrsAllowed : List IPNet
  deadNodeExpiredTimeout : Time
  broadcastWaitTimeout : Time
  maxAwarenessHealth : Int
  suspicionMult : Int
  tags : Bytes

/-- `TagMaxSize`. -/
def tagMaxSize : Nat := 512

/-! ## Health -/

/-- `awareness`. -/
structure Awareness where
  health : Int
  max : Int
  deriving DecidableEq, Repr

/-- `newAwareness`. -/
def newAwareness (max : Int) : Awareness := ⟨0, max⟩

/-- `awareness.Punish`. -/
def Awareness.punish (a : Awareness) (delta : Int) : Awareness :=
  if a.health + delta < 0 then { a with health := 0 }
  else if a.health + delta > a.max - 1 then { a with health := a.max - 1 }
  else { a with health := a.health + delta }

/-! ## Suspicions -/

/-- `suspicion`. `id` and `lives` are what the closure `timeoutFn` captured in
`suspectNode`; `pending` says the timer has not fired yet. When it fires is up
to the clock, so the durations are left out and any pending timer may fire at
any moment. -/
structure Suspicion where
  confirmCap : Int
  confirmMap : List String
  id : String
  lives : Nat
  pending : Bool
  deriving DecidableEq, Repr, Inhabited

/-- `newSuspicion`: the first confirmation is the one that raised it, and the
timer is started. -/
def newSuspicion (confirmCap : Int) (sender : String) (id : String) (lives : Nat) : Suspicion :=
  { confirmCap, confirmMap := [sender], id, lives, pending := true }

/-- `suspicion.Confirm`: whether the confirmation is new. Resetting the timer
leaves it pending. -/
def Suspicion.confirm (s : Suspicion) (sender : String) : Bool × Suspicion :=
  if (s.confirmMap.length : Int) ≥ s.confirmCap then (false, s)
  else if s.confirmMap.contains sender then (false, s)
  else (true, { s with confirmMap := sender :: s.confirmMap })

/-- A confirmation leaves the timer and what it captured alone. -/
theorem Suspicion.confirm_frame (s : Suspicion) (sender : String) :
    (s.confirm sender).2.id = s.id ∧ (s.confirm sender).2.lives = s.lives ∧
      (s.confirm sender).2.pending = s.pending := by
  unfold Suspicion.confirm
  split
  · exact ⟨rfl, rfl, rfl⟩
  · split
    · exact ⟨rfl, rfl, rfl⟩
    · exact ⟨rfl, rfl, rfl⟩

/-! ## What the environment decides -/

/-- The answers of the clock, of `math/rand` and of a wait on a notification
that one step of the program gets. -/
structure Env where
  /-- `time.Now()` -/
  now : Time := 0
  /-- `rand.Uint32()` -/
  rand : UInt32 := 0
  /-- the positions `rand.Shuffle` draws -/
  draw : Nat → Nat := fun _ => 0
  /-- whether a wait ends by the notification rather than by the timeout -/
  notified : Bool := true

/-- `randIntN`, with what `rand.Uint32` gives. The length is converted to a `uint32` before it
is divided by. -/
def randIntN (r : UInt32) (n : Nat) : Outcome Nat :=
  if n = 0 then .ok 0
  else if n % 2 ^ 32 = 0 then .crash "integer divide by zero"
  else .ok (r.toNat % (n % 2 ^ 32))

/-! ## Machine integers -/

/-- What an `int` holds when `x` is the value of an expression: 64 bits of it. -/
def wrapInt (x : Int) : Int := x.bmod (2 ^ 64)

/-- Nothing is lost of a value that an `int` can hold. -/
theorem wrapInt_eq {x : Int} (hlo : -2 ^ 63 ≤ x) (hhi : x < 2 ^ 63) : wrapInt x = x := by
  unfold wrapInt
  rw [Int.bmod_eq_of_le] <;> omega

end Mlist
