import Mathlib.Data.List.Basic

/-!
# Calls that can crash

A function of a language with slices ends in one of three ways: with a value, with
an error its caller can act on, or in a crash — an index out of range, a slice of
negative length — that nobody recovers from. `Outcome` is such an end, and a monad:
an error or a crash ends the function. `Returns` says that a call does not crash,
and `returns_bind` reduces a chain of calls to its links: the chain returns exactly
when each call returns on what the ones before it produce.

`index`, `slice`, `sliceFrom`, `makeLen` and `makeCap` are the primitive operations that
can crash, each with its condition.
-/

namespace Mlist.Lib

/-- How a call ends. -/
inductive Outcome (α : Type) where
  | ok (a : α)
  | error (e : String)
  | crash (why : String)
  deriving DecidableEq, Repr

namespace Outcome

variable {α β : Type}

/-- Go on with the value, if there is one. -/
protected def bind : Outcome α → (α → Outcome β) → Outcome β
  | .ok a, f => f a
  | .error e, _ => .error e
  | .crash why, _ => .crash why

instance : Monad Outcome where
  pure := .ok
  bind := Outcome.bind

@[simp] theorem ok_bind (a : α) (f : α → Outcome β) : (Outcome.ok a >>= f) = f a := rfl

@[simp] theorem error_bind (e : String) (f : α → Outcome β) :
    ((Outcome.error e : Outcome α) >>= f) = .error e := rfl

@[simp] theorem crash_bind (why : String) (f : α → Outcome β) :
    ((Outcome.crash why : Outcome α) >>= f) = .crash why := rfl

/-- The value, or another one if there is none. -/
def getD : Outcome α → α → α
  | .ok a, _ => a
  | _, a => a

/-- A function that has no way to crash. -/
def ofExcept : Except String α → Outcome α
  | .ok a => .ok a
  | .error e => .error e

/-- Something is returned if both parts return something. -/
theorem bind_eq_ok {x : Outcome α} {f : α → Outcome β} {b : β} :
    (x >>= f) = .ok b ↔ ∃ a, x = .ok a ∧ f a = .ok b := by
  cases x with
  | ok a => simp
  | error e => simp
  | crash why => simp

@[simp] theorem ofExcept_ok (a : α) : ofExcept (.ok a) = .ok a := rfl

@[simp] theorem ofExcept_eq_ok {x : Except String α} {a : α} :
    ofExcept x = .ok a ↔ x = .ok a := by
  cases x with
  | ok b => simp [ofExcept]
  | error e => simp [ofExcept]

/-- The call comes back, with a value or with an error. -/
def Returns (x : Outcome α) : Prop := ∀ why, x ≠ .crash why

@[simp] theorem returns_ok (a : α) : (Outcome.ok a).Returns := by
  intro why h
  cases h

@[simp] theorem returns_error (e : String) : (Outcome.error e : Outcome α).Returns := by
  intro why h
  cases h

@[simp] theorem not_returns_crash (why : String) : ¬(Outcome.crash why : Outcome α).Returns :=
  fun h => h why rfl

@[simp] theorem returns_ofExcept (x : Except String α) : (ofExcept x).Returns := by
  cases x with
  | ok a => exact returns_ok a
  | error e => exact returns_error e

/-- A chain of calls returns exactly when each of them does. -/
theorem returns_bind {x : Outcome α} {f : α → Outcome β} :
    (x >>= f).Returns ↔ x.Returns ∧ ∀ a, x = .ok a → (f a).Returns := by
  cases x with
  | ok a => simp
  | error e => simp
  | crash why => simp

/-- What can fail but not crash is followed by something that must not crash. -/
theorem returns_ofExcept_bind {x : Except String α} {f : α → Outcome β} :
    (ofExcept x >>= f).Returns ↔ ∀ a, x = .ok a → (f a).Returns := by
  simp [returns_bind]

/-! ## The operations that crash -/

/-- `b[i]` -/
def index (b : List α) (i : Nat) : Outcome α :=
  match b[i]? with
  | some x => .ok x
  | none => .crash "index out of range"

/-- `b[lo:hi]` -/
def slice (b : List α) (lo hi : Nat) : Outcome (List α) :=
  if lo ≤ hi ∧ hi ≤ b.length then .ok ((b.take hi).drop lo) else .crash "slice bounds out of range"

/-- `b[lo:]` -/
def sliceFrom (b : List α) (lo : Nat) : Outcome (List α) :=
  if lo ≤ b.length then .ok (b.drop lo) else .crash "slice bounds out of range"

/-- The length of `make([]T, n)`, where the runtime has room for `max` elements. -/
def makeLen (max : Nat) (n : Int) : Outcome Nat :=
  if 0 ≤ n ∧ n ≤ max then .ok n.toNat else .crash "makeslice: len out of range"

/-- `make([]T, 0, n)`, where the runtime has room for `max` elements. -/
def makeCap (max : Nat) (n : Int) : Outcome Unit :=
  if 0 ≤ n ∧ n ≤ max then .ok () else .crash "makeslice: cap out of range"

@[simp] theorem index_cons_zero (x : α) (b : List α) : index (x :: b) 0 = .ok x := rfl

@[simp] theorem sliceFrom_cons_one (x : α) (b : List α) : sliceFrom (x :: b) 1 = .ok b := by
  unfold sliceFrom
  rw [if_pos (by simp)]
  rfl

/-- An index within bounds. -/
theorem index_of_lt {b : List α} {i : Nat} (h : i < b.length) : ∃ x, index b i = .ok x := by
  unfold index
  rw [List.getElem?_eq_getElem h]
  exact ⟨_, rfl⟩

/-- What is read at an index is in the list. -/
theorem mem_of_index {b : List α} {i : Nat} {x : α} (h : index b i = .ok x) : x ∈ b := by
  unfold index at h
  split at h
  next y hy =>
    obtain rfl : y = x := by cases h; rfl
    exact List.mem_of_getElem? hy
  next => cases h

/-- A slice expression within bounds. -/
theorem slice_of_le {b : List α} {lo hi : Nat} (h : lo ≤ hi) (hb : hi ≤ b.length) :
    slice b lo hi = .ok ((b.take hi).drop lo) :=
  if_pos ⟨h, hb⟩

theorem sliceFrom_of_le {b : List α} {lo : Nat} (h : lo ≤ b.length) :
    sliceFrom b lo = .ok (b.drop lo) :=
  if_pos h

/-- `make` panics exactly on lengths it cannot have. -/
theorem returns_makeLen {max : Nat} {n : Int} : (makeLen max n).Returns ↔ 0 ≤ n ∧ n ≤ max := by
  unfold makeLen
  split
  next h => exact iff_of_true (returns_ok _) h
  next h => exact iff_of_false (not_returns_crash _) h

end Outcome

end Mlist.Lib
