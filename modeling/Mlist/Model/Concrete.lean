import Mlist.Model.Member

/-!
# A member that can be run

The model leaves open which heap the broadcast queue is built on and how long an
encoded message is. Here both are chosen — the heap that is its list of items,
and one length for all messages — so that the operations compute. `after` is the
state of a member named `"me"` after a list of operations; general statements are
tried out on it.
-/

namespace Mlist

open Mlist.Lib

namespace Concrete

/-- All messages are of one length. -/
scoped instance : Encoded Msg := ⟨fun _ => 32⟩

scoped instance : Heap (List (TransmitCapItem Msg)) (TransmitCapItem Msg) :=
  listHeap TransmitCapItem.less_asymm TransmitCapItem.less_trans_false

/-- A member over the list heap. -/
abbrev Member := Memberlist (List (TransmitCapItem Msg))

def configOf (id : String) (id_ne : id ≠ "") : Config :=
  { id
    id_ne
    advertiseAddr := some [127, 0, 0, 1]
    advertisePort := 7946
    cidrsAllowed := []
    deadNodeExpiredTimeout := 60
    broadcastWaitTimeout := 0
    maxAwarenessHealth := 8
    suspicionMult := 4
    tags := [] }

theorem me_ne : "me" ≠ "" := by decide

theorem a_ne : "a" ≠ "" := by decide

theorem b_ne : "b" ≠ "" := by decide

theorem c_ne : "c" ≠ "" := by decide

def config : Config := configOf "me" me_ne

/-- A member that has just been built. -/
def built (id : String) (id_ne : id ≠ "") : Member :=
  match Memberlist.build {} (configOf id id_ne) with
  | .ok m => m
  | .error _ => Memberlist.new (configOf id id_ne)

theorem build_built (id : String) (id_ne : id ≠ "") :
    Memberlist.build {} (configOf id id_ne) = .ok (built id id_ne) := rfl

/-- The member after these operations. -/
def after (ops : List Op) : Option Member :=
  (Memberlist.build {} config).toOption.bind (run step ops)

/-- An alive message about `"peer"`. -/
def aliveMsg (lives : Nat) (tags : Bytes := []) : Alive :=
  { lives, id := "peer", ip := [127, 0, 0, 2], port := 7946, tags }

theorem reachable_after {ops : List Op} {m : Member} (h : after ops = some m) : Reachable m := by
  obtain ⟨m₀, hb, hrun⟩ := Option.bind_eq_some_iff.mp h
  refine ⟨{}, config, m₀, ops, ?_, hrun⟩
  cases hm : (Memberlist.build {} config : Except String Member) with
  | error e => rw [hm] at hb; cases hb
  | ok m₁ =>
    rw [hm] at hb
    exact congrArg Except.ok (Option.some.inj hb)

/-- The member after operations that all return. -/
def state (ops : List Op) (h : (after ops).isSome = true) : Member := (after ops).get h

theorem reachable_state (ops : List Op) (h : (after ops).isSome = true) :
    Reachable (state ops h) :=
  reachable_after (Option.some_get h).symm

end Concrete

end Mlist
