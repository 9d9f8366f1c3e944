import Mathlib.Data.List.Basic

/-!
# First fit

Filling a room of a given size from a list: an item is taken if what it needs is still free
after those taken before it. What it needs may be more than what it then takes up, as when a
loop gives up for lack of a minimum of room.
-/

namespace Mlist.Lib

variable {α : Type} {need cost : α → Int} {size used : Int}

/-- What is taken of the list and what is left, when `used` is taken up already. -/
def firstFit (need cost : α → Int) (size : Int) : Int → List α → List α × List α
  | _, [] => ([], [])
  | used, x :: l =>
    if used + need x ≤ size then
      let (taken, left) := firstFit need cost size (used + cost x) l
      (x :: taken, left)
    else
      let (taken, left) := firstFit need cost size used l
      (taken, x :: left)

@[simp] theorem firstFit_nil : firstFit need cost size used [] = ([], []) := rfl

/-- What there is room for is taken. -/
theorem firstFit_take {x : α} (h : used + need x ≤ size) (l : List α) :
    firstFit need cost size used (x :: l) =
      (x :: (firstFit need cost size (used + cost x) l).1,
        (firstFit need cost size (used + cost x) l).2) :=
  if_pos h

/-- What there is no room for is passed over, and the rest is still looked at. -/
theorem firstFit_pass {x : α} (h : ¬ used + need x ≤ size) (l : List α) :
    firstFit need cost size used (x :: l) =
      ((firstFit need cost size used l).1, x :: (firstFit need cost size used l).2) :=
  if_neg h

/-- Nothing is taken when there is no room for anything. -/
theorem firstFit_full : ∀ {l : List α}, (∀ x ∈ l, ¬ used + need x ≤ size) →
    firstFit need cost size used l = ([], l)
  | [], _ => rfl
  | x :: l, h => by
    rw [firstFit_pass (h x List.mem_cons_self),
      firstFit_full fun y hy => h y (List.mem_cons_of_mem x hy)]

end Mlist.Lib
