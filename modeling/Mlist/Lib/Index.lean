import Mathlib.Data.List.Basic

/-!
# Positions in a list

The first and the last position of an element, as Go's `strings` and `bytealg` packages
give them: counted from 0, and -1 where there is none.
-/

namespace Mlist.Lib

variable {α : Type} [DecidableEq α] {c : α} {xs ys : List α}

/-- The first position of `c`. -/
def firstIndex (c : α) (xs : List α) : Int := if c ∈ xs then (xs.idxOf c : Int) else -1

/-- The last position of `c`. -/
def lastIndex (c : α) (xs : List α) : Int :=
  if c ∈ xs then (xs.length : Int) - 1 - (xs.reverse.idxOf c : Int) else -1

theorem lastIndex_of_not_mem (h : c ∉ xs) : lastIndex c xs = -1 := if_neg h

/-- The first one is where nothing before it is. -/
theorem firstIndex_append (h : c ∉ xs) : firstIndex c (xs ++ c :: ys) = xs.length := by
  have hmem : c ∈ xs ++ c :: ys := List.mem_append_right _ List.mem_cons_self
  unfold firstIndex
  rw [if_pos hmem, List.idxOf_append_of_notMem h, List.idxOf_cons_self, Nat.add_zero]

/-- The last one is where nothing behind it is. -/
theorem lastIndex_append (h : c ∉ ys) : lastIndex c (xs ++ c :: ys) = xs.length := by
  have hmem : c ∈ xs ++ c :: ys := List.mem_append_right _ List.mem_cons_self
  have hlast : (xs ++ c :: ys).reverse.idxOf c = ys.length := by
    rw [List.reverse_append, List.reverse_cons, List.append_assoc,
      List.idxOf_append_of_notMem (mt List.mem_reverse.mp h), List.singleton_append,
      List.idxOf_cons_self, List.length_reverse, Nat.add_zero]
  unfold lastIndex
  rw [if_pos hmem, hlast, List.length_append, List.length_cons]
  omega

theorem lastIndex_cons_self (h : c ∉ ys) : lastIndex c (c :: ys) = 0 := by
  show lastIndex c ([] ++ c :: ys) = 0
  rw [lastIndex_append h]
  rfl

theorem lastIndex_append_of_not_mem (h : c ∉ ys) : lastIndex c (xs ++ ys) = lastIndex c xs := by
  unfold lastIndex
  by_cases hmem : c ∈ xs
  · rw [if_pos hmem, if_pos (List.mem_append_left _ hmem), List.reverse_append,
      List.idxOf_append_of_notMem (mt List.mem_reverse.mp h), List.length_append,
      List.length_reverse]
    omega
  · have hnot : c ∉ xs ++ ys := by
      rw [List.mem_append]
      exact fun hc => hc.elim hmem h
    rw [if_neg hmem, if_neg hnot]

/-- An index is within the list, and -1 is below it. -/
theorem lastIndex_lt (c : α) (xs : List α) : lastIndex c xs < xs.length := by
  unfold lastIndex
  split <;> omega

end Mlist.Lib
