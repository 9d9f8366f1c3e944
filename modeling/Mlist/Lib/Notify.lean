/-!
# A caller that waits on an unbuffered channel

A call runs for a while, waits in a `select` for a message on its channel or for a deadline,
and returns. The sender does not block: what it sends is taken if the call is in its `select`
at that moment, and is gone otherwise (`signal`).
-/

namespace Mlist.Lib

variable {α ρ : Type}

/-- How far a call has got; `α` are its program points up to the `select`, `ρ` is what it
returns. -/
inductive Caller (α ρ : Type) where
  | running (pc : α)
  | waiting (deadline : Int)
  | returned (r : ρ)
  deriving DecidableEq, Repr

namespace Caller

/-- The call is in its `select`. -/
def isWaiting : Caller α ρ → Bool
  | waiting _ => true
  | _ => false

def isReturned : Caller α ρ → Bool
  | returned _ => true
  | _ => false

/-- A send on the channel, for which the call would return `r`. -/
def signal (r : ρ) : Caller α ρ → Caller α ρ
  | waiting _ => returned r
  | c => c

/-- The deadline passes, and the call returns `r`. -/
def expire (now : Int) (r : ρ) : Caller α ρ → Option (Caller α ρ)
  | waiting deadline => if deadline ≤ now then some (returned r) else none
  | _ => none

theorem signal_of_waiting {c : Caller α ρ} (r : ρ) (h : c.isWaiting = true) :
    c.signal r = returned r := by
  cases c with
  | waiting d => rfl
  | running pc => nomatch h
  | returned r => nomatch h

/-- A message that comes when nobody waits is gone. -/
theorem signal_of_not_waiting {c : Caller α ρ} (r : ρ) (h : c.isWaiting = false) :
    c.signal r = c := by
  cases c with
  | waiting d => nomatch h
  | running pc => rfl
  | returned r => rfl

/-- A deadline that passes ends a call that waits, and no other one. -/
theorem expire_case {now : Int} {r : ρ} {c c' : Caller α ρ} (h : c.expire now r = some c') :
    ∃ d, c = waiting d ∧ d ≤ now ∧ c' = returned r := by
  cases c with
  | waiting d =>
    dsimp only [expire] at h
    split at h
    next hd => exact ⟨d, rfl, hd, (Option.some.inj h).symm⟩
    next => nomatch h
  | running pc => nomatch h
  | returned r => nomatch h

end Caller

end Mlist.Lib
