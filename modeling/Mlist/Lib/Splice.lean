import Mathlib.Data.List.Nodup
import Mlist.Lib.Run

/-!
# Removing from a slice while ranging over it

`for i, y := range s { if y == x { s = append(s[:i], s[i+1:]...) } }` looks as if it took
every `x` out of `s`. The loop ranges over the slice header it started with, and `append`
moves the elements behind `i` forward inside the array both headers share: after the first
removal the loop looks at an array that has changed under it, through a header that is one
longer than `s` is by then.

`Slice` is such an array with the length `s` has come to. A loop over a slice without
repetitions does what it looks like (`removeAll_eq`); one over a slice with repetitions
leaves some of them, or crashes.
-/

namespace Mlist.Lib

variable {α : Type}

/-- The array under the header the loop ranges over, and the length of the slice by now. -/
structure Slice (α : Type) where
  backing : List α
  len : Nat
  deriving DecidableEq, Repr

namespace Slice

/-- The slice itself. -/
def toList (s : Slice α) : List α := s.backing.take s.len

/-- `s = append(s[:i], s[i+1:]...)`: what is behind `i` moves forward by one, and the place
of the last element keeps what it had. `none` is a slice bound out of range. -/
def cut (i : Nat) (s : Slice α) : Option (Slice α) :=
  if i + 1 ≤ s.len then
    some { backing := s.backing.take i ++ s.toList.drop (i + 1) ++ s.backing.drop (s.len - 1)
           len := s.len - 1 }
  else none

/-- One round of the loop, with whether it has removed anything yet. -/
def removeRound [DecidableEq α] (x : α) (i : Nat) (s : Slice α × Bool) : Option (Slice α × Bool) :=
  match s.1.backing[i]? with
  | none => none
  | some y => if x = y then (s.1.cut i).map fun t => (t, true) else some s

/-- The loop. -/
def removeAll [DecidableEq α] (x : α) (l : List α) : Option (Slice α × Bool) :=
  run (removeRound x) (List.range l.length) ({ backing := l, len := l.length }, false)

/-- Rounds that meet other elements change nothing. -/
theorem removeRound_skip [DecidableEq α] {x : α} {s : Slice α × Bool} :
    ∀ {is : List Nat}, (∀ i ∈ is, ∃ y, s.1.backing[i]? = some y ∧ x ≠ y) →
      run (removeRound x) is s = some s := by
  intro is
  induction is with
  | nil => intro _; rfl
  | cons i is ih =>
    intro h
    obtain ⟨y, hy, hne⟩ := h i (List.mem_cons_self ..)
    have hround : removeRound x i s = some s := by
      unfold removeRound
      rw [hy]
      exact if_neg hne
    rw [run_cons, hround]
    exact ih fun j hj => h j (List.mem_cons_of_mem _ hj)

/-- Cutting the element between `pre` and `post` out. -/
theorem cut_middle (pre post : List α) (x : α) :
    cut pre.length { backing := pre ++ x :: post, len := (pre ++ x :: post).length } =
      some { backing := pre ++ post ++ (x :: post).drop post.length
             len := (pre ++ post).length } := by
  have hlen : (pre ++ x :: post).length = pre.length + post.length + 1 := by
    simp only [List.length_append, List.length_cons]
    omega
  have hback : (pre ++ x :: post).drop (pre.length + post.length) =
      (x :: post).drop post.length := by
    rw [List.drop_append, List.drop_of_length_le (by omega), List.nil_append]
    congr 1
    omega
  have hfront : (pre ++ x :: post).take pre.length = pre := List.take_left' rfl
  have hrest : (pre ++ x :: post).drop (pre.length + 1) = post := by
    rw [← List.drop_drop, List.drop_left' rfl]
    rfl
  unfold cut toList
  dsimp only
  rw [if_pos (by omega), List.take_length, hfront, hrest, hlen, Nat.add_sub_cancel, hback,
    List.length_append]

/-- Behind the place of the removed element there is no other. -/
theorem ne_behind {pre post : List α} {x : α} (hpost : x ∉ post) {i : Nat}
    (hlo : pre.length < i) (hhi : i < (pre ++ x :: post).length) :
    ∃ y, (pre ++ post ++ (x :: post).drop post.length)[i]? = some y ∧ x ≠ y := by
  -- there is a round behind `x` only if there was an element behind it, and the last one is doubled
  obtain ⟨front, last, rfl⟩ : ∃ front last, post = front ++ [last] := by
    have hne : post ≠ [] := by
      intro he
      rw [he, List.length_append, List.length_singleton] at hhi
      omega
    exact ⟨post.dropLast, post.getLast hne, (List.dropLast_append_getLast hne).symm⟩
  have hdrop : (x :: (front ++ [last])).drop (front ++ [last]).length = [last] := by
    rw [← List.cons_append]
    exact List.drop_left' (by simp)
  have hmem : ∀ y ∈ (front ++ [last]) ++ [last], x ≠ y := by
    intro y hy he
    rw [← he] at hy
    rcases List.mem_append.mp hy with hx | hx
    · exact hpost hx
    · exact hpost (List.mem_append_right _ hx)
  have hi : i - pre.length < ((front ++ [last]) ++ [last]).length := by
    simp only [List.length_append, List.length_cons, List.length_nil] at hhi ⊢
    omega
  refine ⟨((front ++ [last]) ++ [last])[i - pre.length], ?_, hmem _ (List.getElem_mem hi)⟩
  rw [hdrop, List.append_assoc, List.getElem?_append_right (Nat.le_of_lt hlo)]
  exact List.getElem?_eq_getElem hi

/-- A loop that meets no `x` changes nothing. -/
theorem removeAll_of_not_mem [DecidableEq α] {l : List α} {x : α} (hx : x ∉ l) :
    removeAll x l = some ({ backing := l, len := l.length }, false) := by
  refine removeRound_skip fun i hi => ?_
  have hlt := List.mem_range.mp hi
  refine ⟨l[i], List.getElem?_eq_getElem hlt, fun he => hx ?_⟩
  rw [he]
  exact List.getElem_mem hlt

/-- A loop that meets one `x` takes it out. -/
theorem removeAll_of_once [DecidableEq α] {pre post : List α} {x : α} (hpre : x ∉ pre)
    (hpost : x ∉ post) :
    removeAll x (pre ++ x :: post) = some ({ backing := pre ++ post ++ (x :: post).drop post.length
                                             len := (pre ++ post).length }, true) := by
  have hrange : List.range (pre ++ x :: post).length =
      List.range pre.length ++ pre.length :: List.range' (pre.length + 1) post.length := by
    rw [List.length_append, List.length_cons, List.range_eq_range', List.range_eq_range',
      ← List.range'_append_1, Nat.zero_add, List.range'_succ]
  have hbefore : run (removeRound x) (List.range pre.length)
      ({ backing := pre ++ x :: post, len := (pre ++ x :: post).length }, false) =
        some ({ backing := pre ++ x :: post, len := (pre ++ x :: post).length }, false) := by
    refine removeRound_skip fun i hi => ?_
    have hlt := List.mem_range.mp hi
    refine ⟨pre[i], ?_, fun he => hpre ?_⟩
    · rw [List.getElem?_append_left hlt]
      exact List.getElem?_eq_getElem hlt
    · rw [he]
      exact List.getElem_mem hlt
  have hround : removeRound x pre.length
      ({ backing := pre ++ x :: post, len := (pre ++ x :: post).length }, false) =
        some ({ backing := pre ++ post ++ (x :: post).drop post.length
                len := (pre ++ post).length }, true) := by
    unfold removeRound
    dsimp only
    rw [List.getElem?_append_right (Nat.le_refl _), Nat.sub_self, List.getElem?_cons_zero]
    dsimp only
    rw [if_pos rfl, cut_middle]
    rfl
  -- the rounds before `x`, the round of `x`, the rounds behind it
  unfold removeAll
  rw [hrange, run_append, hbefore, Option.bind_some, run_cons, hround, Option.bind_some]
  refine removeRound_skip fun i hi => ?_
  obtain ⟨hlo, hhi⟩ := List.mem_range'_1.mp hi
  refine ne_behind hpost (by omega) ?_
  rw [List.length_append, List.length_cons]
  omega

/-- **Without repetitions the loop removes the element**, keeps the order of the rest, and
knows whether there was one. -/
theorem removeAll_eq [DecidableEq α] {l : List α} (h : l.Nodup) (x : α) :
    ∃ s found, removeAll x l = some (s, found) ∧ (found = true ↔ x ∈ l) ∧
      s.toList = l.filter fun y => decide (y ≠ x) := by
  have hkeep : ∀ l' : List α, x ∉ l' → (l'.filter fun y => decide (y ≠ x)) = l' := by
    intro l' hl'
    refine List.filter_eq_self.mpr fun y hy => decide_eq_true ?_
    intro he
    exact hl' (he ▸ hy)
  by_cases hx : x ∈ l
  · obtain ⟨pre, post, rfl⟩ := List.append_of_mem hx
    obtain ⟨-, hcons, hdisj⟩ := List.nodup_append.mp h
    have hpost : x ∉ post := (List.nodup_cons.mp hcons).1
    have hpre : x ∉ pre := fun hmem => hdisj x hmem x (List.mem_cons_self ..) rfl
    refine ⟨_, true, removeAll_of_once hpre hpost, iff_of_true rfl hx, ?_⟩
    rw [List.filter_append, List.filter_cons_of_neg (by simp), hkeep pre hpre, hkeep post hpost]
    exact List.take_left' rfl
  · refine ⟨_, false, removeAll_of_not_mem hx, iff_of_false Bool.false_ne_true hx, ?_⟩
    rw [hkeep l hx]
    exact List.take_length

-- with repetitions: one of two neighbours stays, and at the end of the slice it crashes
example : (removeAll 1 [1, 1, 2]).map (fun r => r.1.toList) = some [1, 2] := by decide
example : removeAll 1 [2, 1, 1] = none := by decide

end Slice

end Mlist.Lib
