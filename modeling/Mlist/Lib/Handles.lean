import Mathlib.Logic.Function.Basic

/-!
# Handles given out and released

A supplier of handles: `next` is the one it will give out next, `isOpen` says which of those
it has given out are open, whoever holds them.

`Accounted base held now` is the invariant of code that acquires handles and records them:
since `base`, exactly the handles in `held` have been opened. Releasing them leads back to
`base` (`Accounted.releaseAll_isOpen`); with one more handle acquired and not recorded it
does not (`Accounted.releaseAll_lost`).
-/

namespace Mlist.Lib

/-- The supply. What has not been given out is not open. -/
structure Handles where
  next : Nat
  isOpen : Nat → Bool
  fresh : ∀ h, next ≤ h → isOpen h = false

namespace Handles

/-- Give out a handle. -/
def acquire (s : Handles) : Nat × Handles :=
  (s.next,
    { next := s.next + 1
      isOpen := Function.update s.isOpen s.next true
      fresh := by
        intro h hle
        rw [Function.update_of_ne (Nat.ne_of_gt hle)]
        exact s.fresh h (Nat.le_of_succ_le hle) })

/-- Closes one of them. -/
def release (h : Nat) (s : Handles) : Handles :=
  { s with
    isOpen := Function.update s.isOpen h false
    fresh := by
      intro k hle
      by_cases hk : k = h
      · rw [hk, Function.update_self]
      · rw [Function.update_of_ne hk]
        exact s.fresh k hle }

def releaseAll (hs : List Nat) (s : Handles) : Handles := hs.foldl (fun s h => s.release h) s

theorem acquire_isOpen (s : Handles) (h : Nat) :
    s.acquire.2.isOpen h = true ↔ s.isOpen h = true ∨ h = s.next := by
  show Function.update s.isOpen s.next true h = true ↔ _
  by_cases hn : h = s.next
  · rw [hn, Function.update_self]
    exact iff_of_true rfl (.inr rfl)
  · rw [Function.update_of_ne hn]
    simp [hn]

theorem release_isOpen (s : Handles) (k h : Nat) :
    (s.release k).isOpen h = true ↔ s.isOpen h = true ∧ h ≠ k := by
  show Function.update s.isOpen k false h = true ↔ _
  by_cases hk : h = k
  · rw [hk, Function.update_self]
    simp
  · rw [Function.update_of_ne hk]
    simp [hk]

theorem releaseAll_isOpen (hs : List Nat) (s : Handles) (h : Nat) :
    (s.releaseAll hs).isOpen h = true ↔ s.isOpen h = true ∧ h ∉ hs := by
  induction hs generalizing s with
  | nil => simp [releaseAll]
  | cons k hs ih =>
    show ((s.release k).releaseAll hs).isOpen h = true ↔ _
    rw [ih, release_isOpen, List.mem_cons, not_or, and_assoc]

theorem releaseAll_append (hs ks : List Nat) (s : Handles) :
    s.releaseAll (hs ++ ks) = (s.releaseAll hs).releaseAll ks := List.foldl_append

/-- A handle is open only if it has been given out. -/
theorem lt_next {s : Handles} {h : Nat} (ho : s.isOpen h = true) : h < s.next := by
  rcases Nat.lt_or_ge h s.next with hlt | hge
  · exact hlt
  · rw [s.fresh h hge] at ho
    nomatch ho

end Handles

open Handles

/-- Since `base`, exactly the handles in `held` have been opened. -/
structure Accounted (base : Handles) (held : List Nat) (now : Handles) : Prop where
  next_le : base.next ≤ now.next
  fresh : ∀ h ∈ held, base.next ≤ h
  isOpen : ∀ h, now.isOpen h = true ↔ base.isOpen h = true ∨ h ∈ held

namespace Accounted

variable {base now : Handles} {held held' : List Nat}

theorem refl (s : Handles) : Accounted s [] s where
  next_le := Nat.le_refl _
  fresh := fun _ h => nomatch h
  isOpen := fun h => by simp

/-- A handle is acquired and recorded. -/
theorem acquire (hacc : Accounted base held now)
    (hheld : ∀ h, h ∈ held' ↔ h ∈ held ∨ h = now.next) :
    Accounted base held' now.acquire.2 where
  next_le := Nat.le_succ_of_le hacc.next_le
  fresh := by
    intro h hmem
    rcases (hheld h).mp hmem with hold | hnew
    · exact hacc.fresh h hold
    · rw [hnew]
      exact hacc.next_le
  isOpen := by
    intro h
    rw [acquire_isOpen, hacc.isOpen, hheld, or_assoc]

/-- With all that is recorded released, nothing is left open. -/
theorem releaseAll_isOpen (hacc : Accounted base held now) :
    (now.releaseAll held).isOpen = base.isOpen := by
  funext h
  rw [Bool.eq_iff_iff, Handles.releaseAll_isOpen, hacc.isOpen]
  refine ⟨fun ⟨hor, hno⟩ => hor.resolve_right hno, fun ho => ⟨.inl ho, fun hmem => ?_⟩⟩
  have := hacc.fresh h hmem
  have := lt_next ho
  omega

/-- A handle that is acquired and not recorded stays open. -/
theorem releaseAll_lost (hacc : Accounted base held now) :
    ((now.acquire.2).releaseAll held).isOpen ≠ base.isOpen := by
  intro heq
  have hnew : now.next ∉ held := fun hmem => by
    have := lt_next ((hacc.isOpen _).mpr (.inr hmem))
    omega
  have hopen : ((now.acquire.2).releaseAll held).isOpen now.next = true :=
    (Handles.releaseAll_isOpen ..).mpr ⟨(acquire_isOpen ..).mpr (.inr rfl), hnew⟩
  rw [heq, base.fresh _ hacc.next_le] at hopen
  nomatch hopen

end Accounted

end Mlist.Lib
