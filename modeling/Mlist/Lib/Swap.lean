/-!
# In-place reorderings of an array

Two loops that only ever swap elements, as programs over slices have them:

* `sweep` — one pass that moves the elements a test condemns to the end and
  returns where they begin. Each iteration looks at one element and either
  steps over it or swaps it with the last unexamined one, so with `k` elements
  left the pass takes exactly `k` iterations and the recursion is structural.
* `shuffle` — the Fisher–Yates pass: position `i`, from the last down to `1`,
  is swapped with a drawn position `≤ i`.

Both return a permutation of their input (`sweep_perm`, `shuffle_perm`); `sweep_swept` says
what stands on either side of the index `sweep` returns.
-/

namespace Mlist.Lib

variable {α : Type}

theorem swapIfInBounds_perm (xs : Array α) (i j : Nat) :
    (xs.swapIfInBounds i j).toList.Perm xs.toList := by
  rw [Array.swapIfInBounds_def]
  split
  next hi =>
    split
    next hj => exact Array.perm_iff_toList_perm.mp (Array.swap_perm hi hj)
    next => exact List.Perm.refl _
  next => exact List.Perm.refl _

/-- Reading through an in-range swap. -/
theorem getElem?_swapIfInBounds {xs : Array α} {i j : Nat} (hi : i < xs.size)
    (hj : j < xs.size) (k : Nat) :
    (xs.swapIfInBounds i j)[k]? =
      if k = j then xs[i]? else if k = i then xs[j]? else xs[k]? := by
  rw [Array.swapIfInBounds_def, dif_pos hi, dif_pos hj, Array.getElem?_swap]
  by_cases hkj : k = j
  · rw [if_pos hkj, if_pos hkj.symm, Array.getElem?_eq_getElem hi]
  · rw [if_neg hkj, if_neg (show ¬j = k from fun h => hkj h.symm)]
    by_cases hki : k = i
    · rw [if_pos hki, if_pos hki.symm, Array.getElem?_eq_getElem hj]
    · rw [if_neg hki, if_neg (show ¬i = k from fun h => hki h.symm)]

/-! ## The condemning pass -/

/-- With `k` unexamined elements from position `i` on: step over a good one,
swap a bad one with the last unexamined one. Returns the index from which on
the bad ones stand. -/
def sweep (bad : α → Bool) : Nat → Nat → Array α → Nat × Array α
  | 0, i, xs => (i, xs)
  | k + 1, i, xs =>
    match xs[i]? with
    | none => (i, xs)
    | some x =>
      if bad x then sweep bad k i (xs.swapIfInBounds i (i + k))
      else sweep bad k (i + 1) xs

theorem sweep_perm (bad : α → Bool) :
    ∀ (k i : Nat) (xs : Array α), (sweep bad k i xs).2.toList.Perm xs.toList := by
  intro k
  induction k with
  | zero => intro i xs; exact List.Perm.refl _
  | succ k ih =>
    intro i xs
    unfold sweep
    split
    next => exact List.Perm.refl _
    next x hx =>
      split
      next => exact (ih i _).trans (swapIfInBounds_perm xs i (i + k))
      next => exact ih (i + 1) xs

/-- The pass mid-way: nothing bad before `i`, only bad from `i + k` on. -/
structure Swept (bad : α → Bool) (k i : Nat) (xs : Array α) : Prop where
  le : i + k ≤ xs.size
  good : ∀ j x, j < i → xs[j]? = some x → bad x = false
  bad : ∀ j x, i + k ≤ j → xs[j]? = some x → bad x = true

theorem sweep_swept {bad : α → Bool} :
    ∀ {k i : Nat} {xs : Array α}, Swept bad k i xs →
      Swept bad 0 (sweep bad k i xs).1 (sweep bad k i xs).2 := by
  intro k
  induction k with
  | zero => intro i xs h; exact h
  | succ k ih =>
    intro i xs h
    have hle := h.le
    have hi : i < xs.size := by omega
    have hik : i + k < xs.size := by omega
    unfold sweep
    split
    next hnone =>
      rw [Array.getElem?_eq_getElem hi] at hnone
      cases hnone
    next x hx =>
      split
      next hbad =>
        -- `x` goes to `i + k`; the element that comes back is unexamined
        refine ih ⟨?_, ?_, ?_⟩
        · rw [Array.size_swapIfInBounds]
          omega
        · intro j y hj hy
          rw [getElem?_swapIfInBounds hi hik, if_neg (by omega), if_neg (by omega)] at hy
          exact h.good j y hj hy
        · intro j y hj hy
          rw [getElem?_swapIfInBounds hi hik] at hy
          by_cases hjk : j = i + k
          · rw [if_pos hjk, hx] at hy
            exact Option.some.inj hy ▸ hbad
          · rw [if_neg hjk, if_neg (by omega)] at hy
            exact h.bad j y (by omega) hy
      next hgood =>
        refine ih ⟨by omega, ?_, ?_⟩
        · intro j y hj hy
          by_cases hji : j = i
          · subst hji
            rw [hx] at hy
            rw [← Option.some.inj hy]
            exact Bool.eq_false_iff.mpr hgood
          · exact h.good j y (by omega) hy
        · intro j y hj hy
          exact h.bad j y (by omega) hy

/-- The whole pass over `xs`. -/
def sweepAll (bad : α → Bool) (xs : Array α) : Nat × Array α := sweep bad xs.size 0 xs

theorem sweepAll_perm (bad : α → Bool) (xs : Array α) :
    (sweepAll bad xs).2.toList.Perm xs.toList := sweep_perm bad xs.size 0 xs

theorem sweepAll_swept (bad : α → Bool) (xs : Array α) :
    Swept bad 0 (sweepAll bad xs).1 (sweepAll bad xs).2 := by
  refine sweep_swept ⟨by omega, fun j x hj _ => absurd hj (by omega), ?_⟩
  intro j x hj hx
  rw [Array.getElem?_eq_none (by omega)] at hx
  cases hx

/-- Before the returned index stand only good elements, and all of them. -/
theorem mem_sweepAll_take {bad : α → Bool} {xs : Array α} {x : α} :
    x ∈ (sweepAll bad xs).2.toList.take (sweepAll bad xs).1 ↔ x ∈ xs.toList ∧ bad x = false := by
  have hs := sweepAll_swept bad xs
  have hp := sweepAll_perm bad xs
  constructor
  · intro hx
    refine ⟨hp.mem_iff.mp (List.mem_of_mem_take hx), ?_⟩
    obtain ⟨j, hj⟩ := List.mem_iff_getElem?.mp hx
    rw [List.getElem?_take] at hj
    split at hj
    next hlt => exact hs.good j x hlt (by rw [← Array.getElem?_toList]; exact hj)
    next => cases hj
  · intro hand
    obtain ⟨hx, hgood⟩ := hand
    obtain ⟨j, hj⟩ := List.mem_iff_getElem?.mp (hp.mem_iff.mpr hx)
    refine List.mem_iff_getElem?.mpr ⟨j, ?_⟩
    rw [List.getElem?_take]
    split
    next => exact hj
    next hge =>
      have := hs.bad j x (by omega) (by rw [← Array.getElem?_toList]; exact hj)
      rw [hgood] at this
      cases this

/-- From the returned index on stand only bad elements, and all of them. -/
theorem mem_sweepAll_drop {bad : α → Bool} {xs : Array α} {x : α} :
    x ∈ (sweepAll bad xs).2.toList.drop (sweepAll bad xs).1 ↔ x ∈ xs.toList ∧ bad x = true := by
  have hs := sweepAll_swept bad xs
  have hp := sweepAll_perm bad xs
  constructor
  · intro hx
    refine ⟨hp.mem_iff.mp (List.mem_of_mem_drop hx), ?_⟩
    obtain ⟨j, hj⟩ := List.mem_iff_getElem?.mp hx
    rw [List.getElem?_drop] at hj
    exact hs.bad ((sweepAll bad xs).1 + j) x (by omega)
      (by rw [← Array.getElem?_toList]; exact hj)
  · intro hand
    obtain ⟨hx, hbad⟩ := hand
    obtain ⟨j, hj⟩ := List.mem_iff_getElem?.mp (hp.mem_iff.mpr hx)
    have hge : (sweepAll bad xs).1 ≤ j := by
      rcases Nat.lt_or_ge j (sweepAll bad xs).1 with hlt | hge
      · have := hs.good j x hlt (by rw [← Array.getElem?_toList]; exact hj)
        rw [hbad] at this
        cases this
      · exact hge
    refine List.mem_iff_getElem?.mpr ⟨j - (sweepAll bad xs).1, ?_⟩
    rw [List.getElem?_drop, Nat.add_sub_cancel' hge]
    exact hj

/-- What stands before the returned index are the good elements, none of them lost or
doubled. -/
theorem sweepAll_take_perm (bad : α → Bool) (xs : Array α) :
    ((sweepAll bad xs).2.toList.take (sweepAll bad xs).1).Perm
      (xs.toList.filter fun x => !bad x) := by
  have hperm := (sweepAll_perm bad xs).filter fun x => !bad x
  rw [← List.take_append_drop (sweepAll bad xs).1 (sweepAll bad xs).2.toList,
    List.filter_append] at hperm
  have hgood : ((sweepAll bad xs).2.toList.take (sweepAll bad xs).1).filter (fun x => !bad x) =
      (sweepAll bad xs).2.toList.take (sweepAll bad xs).1 := by
    refine List.filter_eq_self.mpr fun x hx => ?_
    rw [(mem_sweepAll_take.mp hx).2]
    rfl
  have hbad :
      ((sweepAll bad xs).2.toList.drop (sweepAll bad xs).1).filter (fun x => !bad x) = [] := by
    refine List.filter_eq_nil_iff.mpr fun x hx => ?_
    rw [(mem_sweepAll_drop.mp hx).2]
    exact Bool.false_ne_true
  rwa [hgood, hbad, List.append_nil] at hperm

/-! ## Shuffling -/

/-- Positions `i`, `i - 1`, …, `1`, each swapped with the position `draw`
gives it. -/
def shuffle (draw : Nat → Nat) : Nat → Array α → Array α
  | 0, xs => xs
  | i + 1, xs => shuffle draw i (xs.swapIfInBounds (i + 1) (draw (i + 1) % (i + 2)))

theorem shuffle_perm (draw : Nat → Nat) :
    ∀ (i : Nat) (xs : Array α), (shuffle draw i xs).toList.Perm xs.toList := by
  intro i
  induction i with
  | zero => intro xs; exact List.Perm.refl _
  | succ i ih => intro xs; exact (ih _).trans (swapIfInBounds_perm xs _ _)

end Mlist.Lib
