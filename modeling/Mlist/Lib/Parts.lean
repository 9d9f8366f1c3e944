import Mathlib.Algebra.Ring.Nat

/-!
# Parts of a list

A format that announces the lengths of its parts before the parts themselves is read by
carving: `carve` cuts off one piece for each length and stops at the first that is not
there as a whole.

* What was put together is taken apart again (`carve_flatten`).
* Of a list that was cut short, carving gives the pieces that are still complete, however
  the cut falls (`carve_take`).
* Whatever is carved, the pieces are the front of the list and every length is accounted
  for (`carve_spec`).

`Within ps l` says that the lists `ps` stand in `l` one after the other without overlapping.
It is what a recursive parser keeps from level to level (`Within.flatMap`), and it bounds
how much the parser can make of its input (`Within.length_le`).
-/

namespace Mlist.Lib

variable {α : Type}

/-! ## Carving -/

/-- Pieces of these lengths off the front, as long as they are there as a whole; and for how
many lengths they are not. -/
def carve : List Nat → List α → Nat × List (List α)
  | [], _ => (0, [])
  | n :: ns, l =>
    if l.length < n then (ns.length + 1, [])
    else
      let (trunc, pieces) := carve ns (l.drop n)
      (trunc, l.take n :: pieces)

theorem carve_cons_short {n : Nat} {ns : List Nat} {l : List α} (h : l.length < n) :
    carve (n :: ns) l = (ns.length + 1, []) := by
  simp only [carve, if_pos h]

/-- A piece that is there comes off, and carving goes on behind it. -/
theorem carve_cons_append (p : List α) (ns : List Nat) (l : List α) :
    carve (p.length :: ns) (p ++ l) = ((carve ns l).1, p :: (carve ns l).2) := by
  have hfits : ¬ (p ++ l).length < p.length := by
    rw [List.length_append]
    omega
  simp only [carve, if_neg hfits, List.drop_left, List.take_left]

/-- What was put together is taken apart again, whatever follows it. -/
theorem carve_flatten (ps : List (List α)) (rest : List α) :
    carve (ps.map List.length) (ps.flatten ++ rest) = (0, ps) := by
  induction ps with
  | nil => rfl
  | cons p ps ih =>
    rw [List.map_cons, List.flatten_cons, List.append_assoc, carve_cons_append, ih]

/-- The first `j` of these pieces are the longest segment that fits into `k` elements. -/
structure Longest (ps : List (List α)) (k j : Nat) : Prop where
  le : j ≤ ps.length
  fits : (ps.take j).flatten.length ≤ k
  longest : ∀ i ≤ ps.length, (ps.take i).flatten.length ≤ k → i ≤ j

/-- A piece in front of all the others moves everything back by one. -/
theorem Longest.cons {p : List α} {ps : List (List α)} {k j : Nat} (h : Longest ps k j) :
    Longest (p :: ps) (p.length + k) (j + 1) := by
  refine ⟨?_, ?_, ?_⟩
  · have hle := h.le
    simp only [List.length_cons]
    omega
  · have hfits := h.fits
    simp only [List.take_succ_cons, List.flatten_cons, List.length_append]
    omega
  · intro i hi hfits
    cases i with
    | zero => omega
    | succ i =>
      simp only [List.take_succ_cons, List.flatten_cons, List.length_append,
        List.length_cons] at hi hfits
      have := h.longest i (by omega) (by omega)
      omega

/-- The pieces that are complete in the first `k` elements, and no other. -/
theorem carve_take (ps : List (List α)) (k : Nat) :
    ∃ j, carve (ps.map List.length) (ps.flatten.take k) = (ps.length - j, ps.take j) ∧
      Longest ps k j := by
  induction ps generalizing k with
  | nil =>
    refine ⟨0, rfl, ⟨Nat.le_refl 0, Nat.zero_le k, ?_⟩⟩
    intro i hi _
    exact hi
  | cons p ps ih =>
    rw [List.map_cons, List.flatten_cons]
    by_cases hp : p.length ≤ k
    · obtain ⟨j, hcarve, hj⟩ := ih (k - p.length)
      have hk : p.length + (k - p.length) = k := by omega
      refine ⟨j + 1, ?_, hk ▸ hj.cons⟩
      rw [List.take_append, List.take_of_length_le hp, carve_cons_append, hcarve,
        List.take_succ_cons, List.length_cons, Nat.add_sub_add_right]
    · -- the cut falls into this piece: nothing is complete
      have hshort : ((p ++ ps.flatten).take k).length < p.length := by
        rw [List.length_take]
        omega
      refine ⟨0, ?_, ⟨Nat.zero_le _, Nat.zero_le k, ?_⟩⟩
      · rw [carve_cons_short hshort, List.length_map, List.length_cons, Nat.sub_zero,
          List.take_zero]
      · intro i _ hfits
        cases i with
        | zero => omega
        | succ i =>
          simp only [List.take_succ_cons, List.flatten_cons, List.length_append] at hfits
          omega

/-- Whatever is carved: every length is accounted for, and the pieces are the front of the
list. -/
theorem carve_spec : ∀ (ns : List Nat) (l : List α),
    (carve ns l).1 + (carve ns l).2.length = ns.length ∧
      ∃ rest, l = (carve ns l).2.flatten ++ rest
  | [], l => ⟨rfl, l, rfl⟩
  | n :: ns, l => by
    obtain ⟨hcount, rest, hrest⟩ := carve_spec ns (l.drop n)
    unfold carve
    split
    next => exact ⟨rfl, l, rfl⟩
    next =>
      refine ⟨?_, rest, ?_⟩
      · simp only [List.length_cons]
        omega
      · rw [List.flatten_cons, List.append_assoc, ← hrest, List.take_append_drop]

/-! ## Disjoint parts -/

/-- The lists stand in `l` one after the other, with anything between them. -/
inductive Within : List (List α) → List α → Prop where
  | nil (l : List α) : Within [] l
  | cons (gap p : List α) {ps : List (List α)} {l : List α} (h : Within ps l) :
    Within (p :: ps) (gap ++ (p ++ l))

namespace Within

theorem singleton (p : List α) : Within [p] p := by
  have h := Within.cons [] p (Within.nil [])
  rwa [List.append_nil] at h

/-- More elements in front. -/
theorem behind {ps : List (List α)} {l : List α} (h : Within ps l) (front : List α) :
    Within ps (front ++ l) := by
  cases h with
  | nil => exact .nil _
  | cons gap p h =>
    rw [← List.append_assoc]
    exact .cons (front ++ gap) p h

/-- More parts behind. -/
theorem append {ps qs : List (List α)} {l r : List α} (h : Within ps l) (h' : Within qs r) :
    Within (ps ++ qs) (l ++ r) := by
  induction h with
  | nil l => exact h'.behind l
  | cons gap p h ih =>
    rw [List.cons_append, List.append_assoc, List.append_assoc]
    exact .cons gap p ih

/-- The parts of parts are parts. -/
theorem flatMap {f : List α → List (List α)} {ps : List (List α)}
    (h : ∀ p ∈ ps, Within (f p) p) : Within (ps.flatMap f) ps.flatten := by
  induction ps with
  | nil => exact .nil _
  | cons p ps ih =>
    rw [List.flatMap_cons, List.flatten_cons]
    exact (h p List.mem_cons_self).append (ih fun q hq => h q (List.mem_cons_of_mem p hq))

/-- Parts that do not overlap are no longer than the whole. -/
theorem length_le {ps : List (List α)} {l : List α} (h : Within ps l) :
    (ps.map List.length).sum ≤ l.length := by
  induction h with
  | nil l => exact Nat.zero_le _
  | cons gap p h ih =>
    simp only [List.map_cons, List.sum_cons, List.length_append]
    omega

/-- So there are no more parts than elements, if no part is empty. -/
theorem count_le {ps : List (List α)} {l : List α} (h : Within ps l) (hne : ∀ p ∈ ps, p ≠ []) :
    ps.length ≤ l.length := by
  have hsum := h.length_le
  have hone : ps.length ≤ (ps.map List.length).sum := by
    clear h hsum
    induction ps with
    | nil => exact Nat.le_refl 0
    | cons p ps ih =>
      have hp := List.length_pos_iff.mpr (hne p List.mem_cons_self)
      have hps := ih fun q hq => hne q (List.mem_cons_of_mem p hq)
      simp only [List.map_cons, List.sum_cons, List.length_cons]
      omega
  omega

end Within

end Mlist.Lib
