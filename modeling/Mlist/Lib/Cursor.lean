import Mathlib.Data.List.Rotate
import Mlist.Lib.Swap

/-!
# A cursor over an array that grows

A loop that takes the next element of an array again and again keeps an index into it,
`seek`s from there to the first element that is not to be skipped, and starts again at the
front when there is none. Between two calls the array may have grown: a new element is
pushed and then swapped with one at a random place, so that the order of the elements keeps
changing.

Still no element that the cursor has yet to come to is lost. Growing moves an element to the
end or nowhere (`pushSwap_forward`), and `seek` does not pass over an element that is not to
be skipped (`seek_stops`).

While the array stays as it is, the elements take turns. The cursor sees the array rotated to
where it stands, takes the first element that is not to be skipped (`seek_first`), and sees
that one last from then on, together with what it has passed over (`rotate_past`).
-/

namespace Mlist.Lib

variable {α : Type}

/-- From position `i` on, with `k` elements left: the first position whose element is not
skipped, and that element; or the end. -/
def seek (skip : α → Bool) (xs : Array α) : Nat → Nat → Nat × Option α
  | 0, i => (i, none)
  | k + 1, i =>
    match xs[i]? with
    | none => (i, none)
    | some x => if skip x then seek skip xs k (i + 1) else (i, some x)

/-- `seek` stops at an element that is not to be skipped, or at one before it. -/
theorem seek_stops {skip : α → Bool} {xs : Array α} {x : α} {j : Nat} (hx : xs[j]? = some x)
    (hskip : skip x = false) : ∀ (k : Nat) {i : Nat}, i ≤ j → j < i + k →
      ∃ i' y, seek skip xs k i = (i', some y) ∧ i ≤ i' ∧ i' ≤ j ∧ (i' = j → y = x) := by
  intro k
  induction k with
  | zero =>
    intro i hij hjk
    omega
  | succ k ih =>
    intro i hij hjk
    obtain ⟨hj, -⟩ := Array.getElem?_eq_some_iff.mp hx
    unfold seek
    rw [Array.getElem?_eq_getElem (show i < xs.size by omega)]
    dsimp only
    by_cases hi : i = j
    · -- the element itself
      subst hi
      rw [Array.getElem?_eq_getElem hj] at hx
      rw [Option.some.inj hx, if_neg (by rw [hskip]; exact Bool.false_ne_true)]
      exact ⟨i, x, rfl, Nat.le_refl _, Nat.le_refl _, fun _ => rfl⟩
    · split
      next =>
        obtain ⟨i', y, hseek, hlo, hhi, heq⟩ := ih (i := i + 1) (by omega) (by omega)
        exact ⟨i', y, hseek, by omega, hhi, heq⟩
      next => exact ⟨i, _, rfl, Nat.le_refl _, hij, fun he => absurd he hi⟩

/-- `seek` goes to the end of the array if everything on the way is to be skipped, and
otherwise to the first element that is not. -/
theorem seek_first (skip : α → Bool) (xs : Array α) : ∀ (k : Nat) {i : Nat}, i + k = xs.size →
    (∀ y ∈ xs.toList.drop i, skip y = true) ∧ seek skip xs k i = (xs.size, none) ∨
    ∃ front x back, xs.toList.drop i = front ++ x :: back ∧ (∀ y ∈ front, skip y = true) ∧
      skip x = false ∧ seek skip xs k i = (i + front.length, some x) := by
  intro k
  induction k with
  | zero =>
    intro i hi
    left
    have hnil : xs.toList.drop i = [] := by
      rw [List.drop_eq_nil_iff, Array.length_toList]
      omega
    rw [hnil]
    refine ⟨fun y hy => (nomatch hy), ?_⟩
    unfold seek
    rw [← hi, Nat.add_zero]
  | succ k ih =>
    intro i hi
    have hlt : i < xs.size := by omega
    have hdrop : xs.toList.drop i = xs[i] :: xs.toList.drop (i + 1) := by
      rw [List.drop_eq_getElem_cons (by simpa using hlt), Array.getElem_toList]
    unfold seek
    rw [Array.getElem?_eq_getElem hlt, hdrop]
    dsimp only
    -- one that is skipped goes to the front of what the rest finds
    cases hskip : skip xs[i] with
    | true =>
      rw [if_pos rfl]
      rcases ih (i := i + 1) (by omega) with
        ⟨hall, hseek⟩ | ⟨front, x, back, hsplit, hfront, hx, hseek⟩
      · refine .inl ⟨fun y hy => ?_, hseek⟩
        rcases List.mem_cons.mp hy with rfl | hy
        · exact hskip
        · exact hall y hy
      · refine .inr ⟨xs[i] :: front, x, back, by rw [hsplit]; rfl, fun y hy => ?_, hx, ?_⟩
        · rcases List.mem_cons.mp hy with rfl | hy
          · exact hskip
          · exact hfront y hy
        · rw [hseek, List.length_cons]
          congr 1
          omega
    | false =>
      rw [if_neg Bool.false_ne_true]
      exact .inr ⟨[], xs[i], xs.toList.drop (i + 1), rfl, fun y hy => (nomatch hy), hskip, rfl⟩

/-- Rotated to behind one of its elements, a list has that element last, and in front of it
what was in front of it before. -/
theorem rotate_past {l front back : List α} {b : Nat} {x : α}
    (h : l.rotate b = front ++ x :: back) :
    l.rotate (b + (front.length + 1)) = back ++ (front ++ [x]) := by
  have hsplit : front ++ x :: back = (front ++ [x]) ++ back := by
    rw [List.append_assoc, List.singleton_append]
  have hlen : (front ++ [x]).length = front.length + 1 := by
    rw [List.length_append, List.length_singleton]
  rw [← List.rotate_rotate, h, hsplit, ← hlen, List.rotate_append_length_eq]

/-- Pushing an element and swapping it with any other moves an element to the end, or leaves
it where it is. -/
theorem pushSwap_forward {xs : Array α} {x : α} {j : Nat} (hx : xs[j]? = some x) (y : α) {i : Nat}
    (hi : i ≤ xs.size) :
    ∃ j', j ≤ j' ∧ ((xs.push y).swapIfInBounds i xs.size)[j']? = some x := by
  obtain ⟨hj, -⟩ := Array.getElem?_eq_some_iff.mp hx
  have hsize : (xs.push y).size = xs.size + 1 := Array.size_push ..
  have hpush : (xs.push y)[j]? = some x := by
    rw [Array.getElem?_push_lt hj, ← hx, Array.getElem?_eq_getElem hj]
  by_cases hij : j = i
  · -- the new element takes its place
    refine ⟨xs.size, Nat.le_of_lt hj, ?_⟩
    rw [getElem?_swapIfInBounds (by omega) (by omega), if_pos rfl, ← hij]
    exact hpush
  · refine ⟨j, Nat.le_refl _, ?_⟩
    rw [getElem?_swapIfInBounds (by omega) (by omega), if_neg (Nat.ne_of_lt hj), if_neg hij]
    exact hpush

end Mlist.Lib
