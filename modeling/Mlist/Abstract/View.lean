import Mathlib.Data.List.Basic
import Mathlib.Data.List.Perm.Basic

/-!
# What a member thinks of another, and the order of the news

Stripped of addresses, tags and times, a member's record of another node is a
`View`: a number and whether the node is alive, suspected or dead. A message is a
piece of `News` with a number, and `hear` is the rule by which news changes a view:

* *alive* with a higher number is believed;
* *suspect* with at least the number is believed of an alive node;
* *dead* with at least the number is believed of a node that is not dead.

Gossip arrives in any order. The rules do not make the order irrelevant: they
ignore suspect and dead news with a higher number in some standings, and the
number it carried is lost with it. This file finds out when the order does not
matter. Let `top` be the highest number anyone vouched for — the view's own or that
of an alive message. What is below `top` is overtaken; what decides is the suspect
and dead news from `top` on (`SuspectAt`, `DeadAt`). `OrderFree` is the condition
on it, and `hearAll_perm_iff` says it is exact: all orders lead to the same view if
and only if it holds.

Two members that tell each other what they think of a node each hear one piece of news.
`hear_agree` is what comes of it.
-/

namespace Mlist

/-- How a node stands. -/
inductive Standing where
  | alive
  | suspect
  | dead
  deriving DecidableEq, Repr

/-- A record without its data. -/
structure View where
  lives : Nat
  standing : Standing
  deriving DecidableEq, Repr

/-- A message without its data. -/
inductive News where
  | alive (n : Nat)
  | suspect (n : Nat)
  | dead (n : Nat)
  deriving DecidableEq, Repr

namespace View

/-- The view after a piece of news. -/
def hear (v : View) : News → View
  | .alive n => if v.lives < n then ⟨n, .alive⟩ else v
  | .suspect n => if v.lives ≤ n ∧ v.standing = .alive then ⟨n, .suspect⟩ else v
  | .dead n => if v.lives ≤ n ∧ v.standing ≠ .dead then ⟨n, .dead⟩ else v

/-- The view after news in this order. -/
def hearAll (v : View) (ns : List News) : View := ns.foldl hear v

@[simp] theorem hearAll_nil (v : View) : v.hearAll [] = v := rfl

@[simp] theorem hearAll_cons (v : View) (x : News) (ns : List News) :
    v.hearAll (x :: ns) = (v.hear x).hearAll ns := rfl

/-- News heard in two parts. -/
theorem hearAll_append (v : View) (ns ns' : List News) :
    v.hearAll (ns ++ ns') = (v.hearAll ns).hearAll ns' := List.foldl_append

/-- No news takes `Lives` back. -/
theorem hear_lives (v : View) (x : News) : v.lives ≤ (v.hear x).lives := by
  cases x with
  | alive n =>
    simp only [hear]
    split
    next h => exact Nat.le_of_lt h
    next => exact Nat.le_refl _
  | suspect n =>
    simp only [hear]
    split
    next h => exact h.1
    next => exact Nat.le_refl _
  | dead n =>
    simp only [hear]
    split
    next h => exact h.1
    next => exact Nat.le_refl _

/-- However much is heard, `Lives` do not go back. -/
theorem hearAll_lives (ns : List News) : ∀ v : View, v.lives ≤ (v.hearAll ns).lives := by
  induction ns with
  | nil =>
    intro v
    exact Nat.le_refl _
  | cons x ns ih =>
    intro v
    exact Nat.le_trans (hear_lives v x) (ih (v.hear x))

/-- Where no news says anything new. -/
theorem hearAll_of_deaf {v : View} {ns : List News} (h : ∀ x ∈ ns, v.hear x = v) :
    v.hearAll ns = v := by
  induction ns with
  | nil => rfl
  | cons x ns ih =>
    rw [hearAll_cons, h x (List.mem_cons_self ..)]
    exact ih (fun y hy => h y (List.mem_cons_of_mem _ hy))

/-! ## The top -/

/-- The highest number the node itself is behind: the view's, or an alive
message's. -/
def top (v : View) : List News → Nat
  | [] => v.lives
  | .alive n :: ns => max n (top v ns)
  | _ :: ns => top v ns

theorem lives_le_top (v : View) (ns : List News) : v.lives ≤ v.top ns := by
  induction ns with
  | nil => exact Nat.le_refl _
  | cons x ns ih =>
    cases x with
    | alive n => exact Nat.le_trans ih (Nat.le_max_right _ _)
    | suspect n => exact ih
    | dead n => exact ih

/-- The top is a bound for all the alive messages. -/
theorem alive_le_top {v : View} {ns : List News} {n : Nat} (h : .alive n ∈ ns) :
    n ≤ v.top ns := by
  induction ns with
  | nil => cases h
  | cons x ns ih =>
    rcases List.mem_cons.mp h with rfl | h
    · exact Nat.le_max_left _ _
    · have hle := ih h
      cases x with
      | alive k => exact Nat.le_trans hle (Nat.le_max_right _ _)
      | suspect k => exact hle
      | dead k => exact hle

/-- The top is attained. -/
theorem top_mem (v : View) (ns : List News) : v.top ns = v.lives ∨ .alive (v.top ns) ∈ ns := by
  induction ns with
  | nil => exact Or.inl rfl
  | cons x ns ih =>
    have hkeep : v.top ns = v.lives ∨ .alive (v.top ns) ∈ x :: ns := by
      rcases ih with h | h
      · exact Or.inl h
      · exact Or.inr (List.mem_cons_of_mem _ h)
    cases x with
    | suspect n => exact hkeep
    | dead n => exact hkeep
    | alive n =>
      show max n (v.top ns) = v.lives ∨ .alive (max n (v.top ns)) ∈ .alive n :: ns
      rcases Nat.le_total n (v.top ns) with h | h
      · rw [Nat.max_eq_right h]
        exact hkeep
      · rw [Nat.max_eq_left h]
        exact Or.inr (List.mem_cons_self ..)

/-- A top above the `Lives` one begins with is some alive message's. -/
theorem alive_top_mem {v : View} {ns : List News} (h : v.lives < v.top ns) :
    .alive (v.top ns) ∈ ns := by
  rcases top_mem v ns with he | hm
  · omega
  · exact hm

/-- The top does not depend on the order. -/
theorem top_perm (v : View) {ns ns' : List News} (h : ns.Perm ns') : v.top ns = v.top ns' := by
  have hle : ∀ {l l' : List News}, l.Perm l' → v.top l ≤ v.top l' := by
    intro l l' hp
    rcases top_mem v l with he | hm
    · rw [he]
      exact lives_le_top v l'
    · exact alive_le_top (hp.mem_iff.mp hm)
  exact Nat.le_antisymm (hle h) (hle h.symm)

/-! ## The condition -/

/-- Dead news from the top on, of a node that can still die. -/
def DeadAt (v : View) (ns : List News) (d : Nat) : Prop :=
  .dead d ∈ ns ∧ v.top ns ≤ d ∧ (v.lives < v.top ns ∨ v.standing ≠ .dead)

/-- Suspect news from the top on, of a node that can still come under suspicion. -/
def SuspectAt (v : View) (ns : List News) (s : Nat) : Prop :=
  .suspect s ∈ ns ∧ v.top ns ≤ s ∧ (v.lives < v.top ns ∨ v.standing = .alive)

/-- The order of the news does not matter. Of the dead news from the top on there is
one number, and no suspect news exceeds it; without dead news, there is one number
of suspect news. And if the top is above the view's own number, nothing of lower
number can hide that news: a node that is, or is told, dead before it is alive again
does not hear that it died once more, and one that is not alive does not hear that
it is suspected. -/
structure OrderFree (v : View) (ns : List News) : Prop where
  deads : ∀ d d', v.DeadAt ns d → v.DeadAt ns d' → d = d'
  below : ∀ s d, v.SuspectAt ns s → v.DeadAt ns d → s ≤ d
  suspects : (∀ d, ¬ v.DeadAt ns d) → ∀ s s', v.SuspectAt ns s → v.SuspectAt ns s' → s = s'
  undead : ∀ d, v.DeadAt ns d → v.lives < v.top ns →
    v.standing ≠ .dead ∧ ∀ d', .dead d' ∈ ns → v.lives ≤ d' → v.top ns ≤ d'
  unsuspected : (∀ d, ¬ v.DeadAt ns d) → ∀ s, v.SuspectAt ns s → v.lives < v.top ns →
    v.standing = .alive ∧
      ∀ n, .suspect n ∈ ns ∨ .dead n ∈ ns → v.lives ≤ n → v.top ns ≤ n

/-- Neither does which death counts. -/
theorem deadAt_perm {v : View} {ns ns' : List News} (h : ns.Perm ns') {d : Nat} :
    v.DeadAt ns d ↔ v.DeadAt ns' d := by
  unfold DeadAt
  rw [top_perm v h, h.mem_iff]

/-- Neither does which suspicion counts. -/
theorem suspectAt_perm {v : View} {ns ns' : List News} (h : ns.Perm ns') {s : Nat} :
    v.SuspectAt ns s ↔ v.SuspectAt ns' s := by
  unfold SuspectAt
  rw [top_perm v h, h.mem_iff]

/-- So the condition holds of all orders or of none. -/
theorem OrderFree.perm {v : View} {ns ns' : List News} (h : ns.Perm ns')
    (hf : v.OrderFree ns) : v.OrderFree ns' := by
  have hd : ∀ d, v.DeadAt ns' d ↔ v.DeadAt ns d := fun d => (deadAt_perm h).symm
  have hs : ∀ s, v.SuspectAt ns' s ↔ v.SuspectAt ns s := fun s => (suspectAt_perm h).symm
  refine ⟨?_, ?_, ?_, ?_, ?_⟩
  · intro d d' h₁ h₂
    exact hf.deads d d' ((hd d).mp h₁) ((hd d').mp h₂)
  · intro s d h₁ h₂
    exact hf.below s d ((hs s).mp h₁) ((hd d).mp h₂)
  · intro hno s s' h₁ h₂
    exact hf.suspects (fun d hd' => hno d ((hd d).mpr hd')) s s' ((hs s).mp h₁) ((hs s').mp h₂)
  · intro d h₁ hlt
    rw [← top_perm v h] at hlt ⊢
    obtain ⟨hst, hlow⟩ := hf.undead d ((hd d).mp h₁) hlt
    exact ⟨hst, fun d' hd' => hlow d' (h.mem_iff.mpr hd')⟩
  · intro hno s h₁ hlt
    rw [← top_perm v h] at hlt ⊢
    obtain ⟨hst, hlow⟩ := hf.unsuspected (fun d hd' => hno d ((hd d).mpr hd')) s ((hs s).mp h₁) hlt
    refine ⟨hst, ?_⟩
    intro n hn
    rw [← h.mem_iff, ← h.mem_iff] at hn
    exact hlow n hn

/-! ## Where the news leads -/

/-- The dead stay dead until somebody vouches for a higher number. -/
theorem hearAll_dead {d : Nat} {ns : List News} (h : ∀ n, .alive n ∈ ns → n ≤ d) :
    hearAll ⟨d, .dead⟩ ns = ⟨d, .dead⟩ := by
  refine hearAll_of_deaf ?_
  intro x hx
  cases x with
  | alive n =>
    have hle := h n hx
    simp only [hear, if_neg (Nat.not_lt.mpr hle)]
  | suspect n => simp [hear]
  | dead n => simp [hear]

/-- Once suspected, a node stays so while nothing is heard of a later life and no death at this
one. -/
theorem hearAll_suspect {s : Nat} {ns : List News} (h : ∀ n, .alive n ∈ ns → n ≤ s)
    (hd : ∀ d, .dead d ∈ ns → d < s) : hearAll ⟨s, .suspect⟩ ns = ⟨s, .suspect⟩ := by
  refine hearAll_of_deaf ?_
  intro x hx
  cases x with
  | alive n =>
    have hle := h n hx
    simp only [hear, if_neg (Nat.not_lt.mpr hle)]
  | suspect n => simp [hear]
  | dead n =>
    have hlt := hd n hx
    have hno : ¬ (s ≤ n ∧ Standing.suspect ≠ Standing.dead) := fun hc => by omega
    simp only [hear, if_neg hno]

/-- The first dead news that counts decides, if it is the only one and nothing takes
the number past it before. -/
theorem hearAll_dies {d : Nat} {ns : List News} : ∀ {v : View},
    (∀ n, .alive n ∈ ns → n ≤ d) → (∀ d', .dead d' ∈ ns → v.lives ≤ d' → d' = d) →
    ((∀ s, .suspect s ∈ ns → s ≤ d) ∨
      v.standing = .suspect ∧ ∀ n, .alive n ∈ ns → n ≤ v.lives) →
    v.standing ≠ .dead → v.lives ≤ d → .dead d ∈ ns → v.hearAll ns = ⟨d, .dead⟩ := by
  induction ns with
  | nil =>
    intro v _ _ _ _ _ hmem
    cases hmem
  | cons x ns ih =>
    intro v halive hdead hsusp hst hle hmem
    have halive' : ∀ n, .alive n ∈ ns → n ≤ d := fun n hn => halive n (List.mem_cons_of_mem _ hn)
    have hsusp' : (∀ s, .suspect s ∈ x :: ns → s ≤ d) → ∀ s, .suspect s ∈ ns → s ≤ d :=
      fun h s hs => h s (List.mem_cons_of_mem _ hs)
    -- news that changes nothing leaves the rest to decide
    have hskip : .dead d ∈ ns → v.hear x = v → v.hearAll (x :: ns) = ⟨d, .dead⟩ := by
      intro hmem' hsame
      rw [hearAll_cons, hsame]
      refine ih halive' (fun d' hd' => hdead d' (List.mem_cons_of_mem _ hd')) ?_ hst hle hmem'
      rcases hsusp with h | ⟨h, hn⟩
      · exact Or.inl (hsusp' h)
      · exact Or.inr ⟨h, fun n hn' => hn n (List.mem_cons_of_mem _ hn')⟩
    cases x with
    | alive n =>
      have hmem' : .dead d ∈ ns := by simpa using hmem
      by_cases hlt : v.lives < n
      · rcases hsusp with h | ⟨-, hn⟩
        · rw [hearAll_cons, show v.hear (.alive n) = ⟨n, .alive⟩ from if_pos hlt]
          have hnd : n ≤ d := halive n (List.mem_cons_self ..)
          refine ih halive' ?_ (Or.inl (hsusp' h)) (by simp) hnd hmem'
          intro d' hd' hle'
          exact hdead d' (List.mem_cons_of_mem _ hd') (Nat.le_trans (Nat.le_of_lt hlt) hle')
        · exact absurd (hn n (List.mem_cons_self ..)) (Nat.not_le.mpr hlt)
      · exact hskip hmem' (if_neg hlt)
    | suspect n =>
      have hmem' : .dead d ∈ ns := by simpa using hmem
      by_cases hcond : v.lives ≤ n ∧ v.standing = .alive
      · rcases hsusp with h | ⟨hs, -⟩
        · rw [hearAll_cons, show v.hear (.suspect n) = ⟨n, .suspect⟩ from if_pos hcond]
          have hnd : n ≤ d := h n (List.mem_cons_self ..)
          refine ih halive' ?_ (Or.inl (hsusp' h)) (by simp) hnd hmem'
          intro d' hd' hle'
          exact hdead d' (List.mem_cons_of_mem _ hd') (Nat.le_trans hcond.1 hle')
        · rw [hs] at hcond
          exact absurd hcond.2 (by simp)
      · exact hskip hmem' (if_neg hcond)
    | dead d' =>
      by_cases hd' : d' = d
      · rw [hd', hearAll_cons, show v.hear (.dead d) = ⟨d, .dead⟩ from if_pos ⟨hle, hst⟩]
        exact hearAll_dead halive'
      · -- another number is too low to count
        have hno : ¬ (v.lives ≤ d' ∧ v.standing ≠ .dead) :=
          fun hc => hd' (hdead d' (List.mem_cons_self ..) hc.1)
        have hmem' : .dead d ∈ ns := by
          rcases List.mem_cons.mp hmem with he | h
          · exact absurd (News.dead.inj he).symm hd'
          · exact h
        exact hskip hmem' (if_neg hno)

/-- Likewise for the first suspect news, where no dead news counts. -/
theorem hearAll_suspected {s : Nat} {ns : List News} : ∀ {v : View},
    (∀ n, .alive n ∈ ns → n ≤ s) → (∀ d, .dead d ∈ ns → d < v.lives) →
    (∀ s', .suspect s' ∈ ns → v.lives ≤ s' → s' = s) → v.standing = .alive → v.lives ≤ s →
    .suspect s ∈ ns → v.hearAll ns = ⟨s, .suspect⟩ := by
  induction ns with
  | nil =>
    intro v _ _ _ _ _ hmem
    cases hmem
  | cons x ns ih =>
    intro v halive hdead hsusp hst hle hmem
    have halive' : ∀ n, .alive n ∈ ns → n ≤ s := fun n hn => halive n (List.mem_cons_of_mem _ hn)
    have hdead' : ∀ d, .dead d ∈ ns → d < v.lives := fun d hd => hdead d (List.mem_cons_of_mem _ hd)
    -- news that changes nothing can be left out
    have hskip : .suspect s ∈ ns → v.hear x = v → v.hearAll (x :: ns) = ⟨s, .suspect⟩ := by
      intro hmem' hsame
      rw [hearAll_cons, hsame]
      exact ih halive' hdead' (fun s' hs' => hsusp s' (List.mem_cons_of_mem _ hs')) hst hle hmem'
    cases x with
    | alive n =>
      have hmem' : .suspect s ∈ ns := by simpa using hmem
      by_cases hlt : v.lives < n
      · rw [hearAll_cons, show v.hear (.alive n) = ⟨n, .alive⟩ from if_pos hlt]
        -- a higher number, still not above `s`: the same from there
        refine ih halive' ?_ ?_ rfl (halive n (List.mem_cons_self ..)) hmem'
        · intro d hd
          exact Nat.lt_trans (hdead' d hd) hlt
        · intro s' hs' hle'
          exact hsusp s' (List.mem_cons_of_mem _ hs') (Nat.le_trans (Nat.le_of_lt hlt) hle')
      · exact hskip hmem' (if_neg hlt)
    | suspect s' =>
      by_cases hs' : s' = s
      · rw [hs', hearAll_cons, show v.hear (.suspect s) = ⟨s, .suspect⟩ from if_pos ⟨hle, hst⟩]
        exact hearAll_suspect halive' (fun d hd => Nat.lt_of_lt_of_le (hdead' d hd) hle)
      · have hno : ¬ (v.lives ≤ s' ∧ v.standing = .alive) :=
          fun hc => hs' (hsusp s' (List.mem_cons_self ..) hc.1)
        have hmem' : .suspect s ∈ ns := by
          rcases List.mem_cons.mp hmem with he | h
          · exact absurd (News.suspect.inj he).symm hs'
          · exact h
        exact hskip hmem' (if_neg hno)
    | dead d =>
      have hmem' : .suspect s ∈ ns := by simpa using hmem
      have hno : ¬ (v.lives ≤ d ∧ v.standing ≠ .dead) :=
        fun hc => absurd (hdead d (List.mem_cons_self ..)) (Nat.not_lt.mpr hc.1)
      exact hskip hmem' (if_neg hno)

/-- News below a number that the view is below. -/
theorem hear_lives_lt {v : View} {t : Nat} {x : News} (hv : v.lives < t)
    (hx : ∀ n, x = .alive n ∨ x = .suspect n ∨ x = .dead n → n < t) : (v.hear x).lives < t := by
  cases x with
  | alive n =>
    simp only [hear]
    split
    next => exact hx n (Or.inl rfl)
    next => exact hv
  | suspect n =>
    simp only [hear]
    split
    next => exact hx n (Or.inr (Or.inl rfl))
    next => exact hv
  | dead n =>
    simp only [hear]
    split
    next => exact hx n (Or.inr (Or.inr rfl))
    next => exact hv

/-- A view at the highest alive number, with all other news below it, stays there. -/
theorem hearAll_stays {t : Nat} {ns : List News} (halive : ∀ n, .alive n ∈ ns → n ≤ t)
    (hlow : ∀ n, .suspect n ∈ ns ∨ .dead n ∈ ns → n < t) :
    hearAll ⟨t, .alive⟩ ns = ⟨t, .alive⟩ := by
  refine hearAll_of_deaf ?_
  intro x hx
  cases x with
  | alive n => exact if_neg (Nat.not_lt.mpr (halive n hx))
  | suspect n => exact if_neg (fun hc => absurd (hlow n (Or.inl hx)) (Nat.not_lt.mpr hc.1))
  | dead n => exact if_neg (fun hc => absurd (hlow n (Or.inr hx)) (Nat.not_lt.mpr hc.1))

/-- A view below the highest alive number gets there. -/
theorem hearAll_gets {t : Nat} {ns : List News} : ∀ {v : View},
    (∀ n, .alive n ∈ ns → n ≤ t) → (∀ n, .suspect n ∈ ns ∨ .dead n ∈ ns → n < t) →
    v.lives < t → .alive t ∈ ns → v.hearAll ns = ⟨t, .alive⟩ := by
  induction ns with
  | nil =>
    intro v _ _ _ hmem
    cases hmem
  | cons x ns ih =>
    intro v halive hlow hlt hmem
    have halive' : ∀ n, .alive n ∈ ns → n ≤ t := fun n hn => halive n (List.mem_cons_of_mem _ hn)
    have hlow' : ∀ n, .suspect n ∈ ns ∨ .dead n ∈ ns → n < t := by
      intro n hn
      exact hlow n (hn.imp (List.mem_cons_of_mem _) (List.mem_cons_of_mem _))
    rw [hearAll_cons]
    by_cases hx : x = .alive t
    · rw [hx, show v.hear (.alive t) = ⟨t, .alive⟩ from if_pos hlt]
      exact hearAll_stays halive' hlow'
    · have hmem' : .alive t ∈ ns := (List.mem_cons.mp hmem).resolve_left fun he => hx he.symm
      refine ih halive' hlow' (hear_lives_lt hlt ?_) hmem'
      intro n hn
      rcases hn with rfl | rfl | rfl
      · exact Nat.lt_of_le_of_ne (halive n List.mem_cons_self) fun he => hx (he ▸ rfl)
      · exact hlow n (Or.inl List.mem_cons_self)
      · exact hlow n (Or.inr List.mem_cons_self)

/-- Where all other news is below the highest alive number, that is where it ends. -/
theorem hearAll_rises {t : Nat} {ns : List News} {v : View}
    (halive : ∀ n, .alive n ∈ ns → n ≤ t) (hlow : ∀ n, .suspect n ∈ ns ∨ .dead n ∈ ns → n < t)
    (h : v.lives < t ∧ .alive t ∈ ns ∨ v = ⟨t, .alive⟩) : v.hearAll ns = ⟨t, .alive⟩ := by
  rcases h with ⟨hlt, hmem⟩ | rfl
  · exact hearAll_gets halive hlow hlt hmem
  · exact hearAll_stays halive hlow

/-! ## The condition is enough -/

section Sufficient

variable {v : View} {ns : List News}

/-- A death that counts is the verdict. -/
theorem OrderFree.verdict_dead (h : v.OrderFree ns) {d : Nat} (hd : v.DeadAt ns d) :
    v.hearAll ns = ⟨d, .dead⟩ := by
  obtain ⟨hmem, htop, hst⟩ := hd
  have hlives := lives_le_top v ns
  have halive : ∀ n, .alive n ∈ ns → n ≤ d := fun n hn => Nat.le_trans (alive_le_top hn) htop
  -- three things are left: no other death, no later suspicion, not dead before
  refine hearAll_dies halive ?_ ?_ ?_ (Nat.le_trans hlives htop) hmem
  · intro d' hd' hle
    by_cases htop' : v.top ns ≤ d'
    · exact h.deads d' d ⟨hd', htop', hst⟩ ⟨hmem, htop, hst⟩
    · exact absurd ((h.undead d ⟨hmem, htop, hst⟩ (by omega)).2 d' hd' hle) htop'
  · by_cases hrel : v.lives < v.top ns ∨ v.standing = .alive
    · left
      intro s hs
      by_cases htop' : v.top ns ≤ s
      · exact h.below s d ⟨hs, htop', hrel⟩ ⟨hmem, htop, hst⟩
      · omega
    · -- under suspicion from the start, and nobody vouches for a higher number
      obtain ⟨hnr, hna⟩ := not_or.mp hrel
      have hnd : v.standing ≠ .dead := by
        rcases hst with hlt | hnd
        · exact absurd hlt hnr
        · exact hnd
      right
      refine ⟨?_, ?_⟩
      · cases hs : v.standing with
        | alive => exact absurd hs hna
        | suspect => rfl
        | dead => exact absurd hs hnd
      · intro n hn
        have := alive_le_top (v := v) hn
        omega
  · by_cases hlt : v.lives < v.top ns
    · exact (h.undead d ⟨hmem, htop, hst⟩ hlt).1
    · rcases hst with hlt' | hnd
      · exact absurd hlt' hlt
      · exact hnd

/-- Without one, a suspicion that counts is. -/
theorem OrderFree.verdict_suspect (h : v.OrderFree ns) (hno : ∀ d, ¬ v.DeadAt ns d) {s : Nat}
    (hs : v.SuspectAt ns s) : v.hearAll ns = ⟨s, .suspect⟩ := by
  obtain ⟨hmem, htop, hrel⟩ := hs
  have hlives := lives_le_top v ns
  have hrel' : v.lives < v.top ns ∨ v.standing ≠ .dead := by
    rcases hrel with hlt | hst
    · exact Or.inl hlt
    · exact Or.inr (by rw [hst]; simp)
  -- no suspect or dead news of a number in between
  have hlow : ∀ n, .suspect n ∈ ns ∨ .dead n ∈ ns → v.lives ≤ n → v.top ns ≤ n := by
    intro n hn hle
    by_cases hlt : v.lives < v.top ns
    · exact (h.unsuspected hno s ⟨hmem, htop, hrel⟩ hlt).2 n hn hle
    · omega
  refine hearAll_suspected (fun n hn => Nat.le_trans (alive_le_top hn) htop) ?_ ?_ ?_
    (Nat.le_trans hlives htop) hmem
  · intro d hd
    by_cases hle : v.lives ≤ d
    · exact absurd ⟨hd, hlow d (Or.inr hd) hle, hrel'⟩ (hno d)
    · omega
  · intro s' hs' hle
    exact h.suspects hno s' s ⟨hs', hlow s' (Or.inl hs') hle, hrel⟩ ⟨hmem, htop, hrel⟩
  · rcases hrel with hlt | hst
    · exact (h.unsuspected hno s ⟨hmem, htop, Or.inl hlt⟩ hlt).1
    · exact hst

/-- Without either, the latest life is. -/
theorem verdict_rises (hd : ∀ d, ¬ v.DeadAt ns d) (hs : ∀ s, ¬ v.SuspectAt ns s)
    (hlt : v.lives < v.top ns) : v.hearAll ns = ⟨v.top ns, .alive⟩ := by
  refine hearAll_rises (fun n hn => alive_le_top hn) ?_ (Or.inl ⟨hlt, alive_top_mem hlt⟩)
  intro n hn
  rcases Nat.lt_or_ge n (v.top ns) with h | h
  · exact h
  · rcases hn with hn | hn
    · exact absurd ⟨hn, h, Or.inl hlt⟩ (hs n)
    · exact absurd ⟨hn, h, Or.inl hlt⟩ (hd n)

/-- With no later life, everything stays as it was. -/
theorem verdict_stays (hd : ∀ d, ¬ v.DeadAt ns d) (hs : ∀ s, ¬ v.SuspectAt ns s)
    (hlt : ¬ v.lives < v.top ns) : v.hearAll ns = v := by
  have htop : v.top ns = v.lives := Nat.le_antisymm (Nat.not_lt.mp hlt) (lives_le_top v ns)
  refine hearAll_of_deaf ?_
  intro x hx
  cases x with
  | alive n =>
    have hle := alive_le_top (v := v) hx
    exact if_neg (by omega)
  | suspect n =>
    refine if_neg ?_
    intro hc
    exact hs n ⟨hx, htop ▸ hc.1, Or.inr hc.2⟩
  | dead n =>
    refine if_neg ?_
    intro hc
    exact hd n ⟨hx, htop ▸ hc.1, Or.inr hc.2⟩

/-- Under the condition the order does not matter. -/
theorem OrderFree.hearAll_eq (h : v.OrderFree ns) {ns' : List News} (hp : ns.Perm ns') :
    v.hearAll ns = v.hearAll ns' := by
  have h' := h.perm hp
  by_cases hd : ∃ d, v.DeadAt ns d
  · obtain ⟨d, hd⟩ := hd
    rw [h.verdict_dead hd, h'.verdict_dead ((deadAt_perm hp).mp hd)]
  · have hno : ∀ d, ¬ v.DeadAt ns d := fun d hd' => hd ⟨d, hd'⟩
    have hno' : ∀ d, ¬ v.DeadAt ns' d := fun d hd' => hno d ((deadAt_perm hp).mpr hd')
    by_cases hs : ∃ s, v.SuspectAt ns s
    · obtain ⟨s, hs⟩ := hs
      rw [h.verdict_suspect hno hs, h'.verdict_suspect hno' ((suspectAt_perm hp).mp hs)]
    · have hns : ∀ s, ¬ v.SuspectAt ns s := fun s hs' => hs ⟨s, hs'⟩
      have hns' : ∀ s, ¬ v.SuspectAt ns' s := fun s hs' => hns s ((suspectAt_perm hp).mpr hs')
      by_cases hlt : v.lives < v.top ns
      · rw [verdict_rises hno hns hlt, verdict_rises hno' hns' (top_perm v hp ▸ hlt),
          top_perm v hp]
      · rw [verdict_stays hno hns hlt, verdict_stays hno' hns' (top_perm v hp ▸ hlt)]

end Sufficient

/-! ## The condition is needed -/

section Necessary

variable {v : View} {ns : List News}

/-- The view at the top: alive there if somebody else vouched for the number. -/
def settled (v : View) (ns : List News) : View :=
  if v.lives < v.top ns then ⟨v.top ns, .alive⟩ else v

theorem settled_lives (v : View) (ns : List News) : (v.settled ns).lives = v.top ns := by
  unfold settled
  split
  next => rfl
  next h => exact Nat.le_antisymm (lives_le_top v ns) (Nat.not_lt.mp h)

/-- Some order brings the view to the top first and then delivers any given suspect
or dead news. -/
theorem exists_order_at_top {x : News} (hx : x ∈ ns) (hna : ∀ n, x ≠ .alive n) :
    ∃ rest, (∀ y ∈ rest, y ∈ ns) ∧ ∃ ns', ns.Perm ns' ∧
      v.hearAll ns' = ((v.settled ns).hear x).hearAll rest := by
  unfold settled
  split
  next hlt =>
    have hmem := alive_top_mem hlt
    have hx' : x ∈ ns.erase (.alive (v.top ns)) := (List.mem_erase_of_ne (hna _)).mpr hx
    refine ⟨(ns.erase (.alive (v.top ns))).erase x, ?_, _,
      (List.perm_cons_erase hmem).trans ((List.perm_cons_erase hx').cons _), ?_⟩
    · intro y hy
      exact List.mem_of_mem_erase (List.mem_of_mem_erase hy)
    · rw [hearAll_cons, hearAll_cons, show v.hear (.alive (v.top ns)) = ⟨v.top ns, .alive⟩ from
        if_pos hlt]
  next =>
    exact ⟨ns.erase x, fun y hy => List.mem_of_mem_erase hy, _, List.perm_cons_erase hx, rfl⟩

/-- News of a death that counts can be what decides. -/
theorem exists_order_dead {d : Nat} (h : v.DeadAt ns d) :
    ∃ ns', ns.Perm ns' ∧ v.hearAll ns' = ⟨d, .dead⟩ := by
  obtain ⟨hmem, htop, hst⟩ := h
  obtain ⟨rest, hrest, ns', hp, heq⟩ :=
    exists_order_at_top (v := v) hmem (fun n => by simp)
  refine ⟨ns', hp, ?_⟩
  have hhear : (v.settled ns).hear (.dead d) = ⟨d, .dead⟩ := by
    refine if_pos ⟨by rw [settled_lives]; exact htop, ?_⟩
    unfold settled
    split
    next => simp
    next hlt =>
      rcases hst with hlt' | hnd
      · exact absurd hlt' hlt
      · exact hnd
  rw [heq, hhear]
  exact hearAll_dead (fun n hn => Nat.le_trans (alive_le_top (hrest _ hn)) htop)

/-- A suspicion that counts can be heard first at the top. -/
theorem exists_order_suspect {s : Nat} (h : v.SuspectAt ns s) :
    ∃ rest, (∀ y ∈ rest, y ∈ ns) ∧ ∃ ns', ns.Perm ns' ∧
      v.hearAll ns' = hearAll ⟨s, .suspect⟩ rest := by
  obtain ⟨hmem, htop, hst⟩ := h
  obtain ⟨rest, hrest, ns', hp, heq⟩ :=
    exists_order_at_top (v := v) hmem (fun n => by simp)
  refine ⟨rest, hrest, ns', hp, ?_⟩
  have hhear : (v.settled ns).hear (.suspect s) = ⟨s, .suspect⟩ := by
    refine if_pos ⟨by rw [settled_lives]; exact htop, ?_⟩
    unfold settled
    split
    next => rfl
    next hlt =>
      rcases hst with hlt' | hal
      · exact absurd hlt' hlt
      · exact hal
  rw [heq, hhear]

/-- Below `t` and not alive, a view stays so while only suspect and dead news comes
in: none of it is of `t` or more, or the node is dead already. -/
theorem hearAll_held {t : Nat} {ns : List News} : ∀ {w : View}, w.lives < t →
    w.standing ≠ .alive → (w.standing = .dead ∨ ∀ d, .dead d ∈ ns → d < t) →
    (∀ n, .alive n ∉ ns) → (w.hearAll ns).lives < t := by
  induction ns with
  | nil =>
    intro w hlt _ _ _
    exact hlt
  | cons x ns ih =>
    intro w hlt hst hd hna
    rw [hearAll_cons]
    have hna' : ∀ n, .alive n ∉ ns := fun n hn => hna n (List.mem_cons_of_mem _ hn)
    have hsame : w.hear x = w → ((w.hear x).hearAll ns).lives < t := by
      intro he
      rw [he]
      refine ih hlt hst ?_ hna'
      rcases hd with hd | hd
      · exact Or.inl hd
      · exact Or.inr (fun d hd' => hd d (List.mem_cons_of_mem _ hd'))
    cases x with
    | alive n => exact absurd (List.mem_cons_self ..) (hna n)
    | suspect n => exact hsame (if_neg (fun hc => hst hc.2))
    | dead n =>
      by_cases hcond : w.lives ≤ n ∧ w.standing ≠ .dead
      · rcases hd with hd | hd
        · exact absurd hd hcond.2
        · rw [show w.hear (.dead n) = ⟨n, .dead⟩ from if_pos hcond]
          exact ih (hd n (List.mem_cons_self ..)) (by simp) (Or.inl rfl) hna'
      · exact hsame (if_neg hcond)

/-- A node that is not alive at a number below the highest alive news may miss all
the rest: suspect and dead news first, alive news last. -/
theorem exists_order_revived {t : Nat} {w : View} {ns : List News} (hlt : w.lives < t)
    (hst : w.standing ≠ .alive) (hd : w.standing = .dead ∨ ∀ d, .dead d ∈ ns → d < t)
    (hmem : .alive t ∈ ns) (hmax : ∀ n, .alive n ∈ ns → n ≤ t) :
    ∃ ns', ns.Perm ns' ∧ w.hearAll ns' = ⟨t, .alive⟩ := by
  let p : News → Bool := fun x => match x with | .alive _ => false | _ => true
  refine ⟨ns.filter p ++ ns.filter (fun x => !p x), (List.filter_append_perm p ns).symm, ?_⟩
  rw [hearAll_append]
  have hheld : (w.hearAll (ns.filter p)).lives < t := by
    refine hearAll_held hlt hst ?_ ?_
    · rcases hd with hd | hd
      · exact Or.inl hd
      · exact Or.inr (fun d hd' => hd d (List.mem_of_mem_filter hd'))
    · intro n hn
      have := (List.mem_filter.mp hn).2
      cases this
  refine hearAll_rises ?_ ?_ (Or.inl ⟨hheld, List.mem_filter.mpr ⟨hmem, rfl⟩⟩)
  · intro n hn
    exact hmax n (List.mem_of_mem_filter hn)
  · intro n hn
    rcases hn with hn | hn
    · have := (List.mem_filter.mp hn).2
      cases this
    · have := (List.mem_filter.mp hn).2
      cases this

/-- The same, where one piece of news comes before. -/
theorem exists_order_revived_after {t : Nat} {x : News} {n : Nat} (hx : x ∈ ns)
    (hna : ∀ k, x ≠ .alive k)
    (hlt : n < t) (hhear : v.hear x = ⟨n, .dead⟩ ∨
      v.hear x = ⟨n, .suspect⟩ ∧ ∀ d, .dead d ∈ ns → d < t)
    (hmem : .alive t ∈ ns) (hmax : ∀ k, .alive k ∈ ns → k ≤ t) :
    ∃ ns', ns.Perm ns' ∧ v.hearAll ns' = ⟨t, .alive⟩ := by
  have hmem' : .alive t ∈ ns.erase x := (List.mem_erase_of_ne (hna t).symm).mpr hmem
  have hmax' : ∀ k, .alive k ∈ ns.erase x → k ≤ t := fun k hk => hmax k (List.mem_of_mem_erase hk)
  have hfirst : ∃ ns', (ns.erase x).Perm ns' ∧ (v.hear x).hearAll ns' = ⟨t, .alive⟩ := by
    rcases hhear with h | ⟨h, hd⟩
    · rw [h]
      exact exists_order_revived hlt (by simp) (Or.inl rfl) hmem' hmax'
    · rw [h]
      exact exists_order_revived hlt (by simp)
        (Or.inr (fun d hd' => hd d (List.mem_of_mem_erase hd'))) hmem' hmax'
  obtain ⟨ns', hp, heq⟩ := hfirst
  exact ⟨x :: ns', (List.perm_cons_erase hx).trans (hp.cons x), heq⟩

/-- If the order does not matter, the condition holds. -/
theorem orderFree_of_eq (h : ∀ ns', ns.Perm ns' → v.hearAll ns' = v.hearAll ns) :
    v.OrderFree ns := by
  have hmax : ∀ n, .alive n ∈ ns → n ≤ v.top ns := fun n hn => alive_le_top hn
  -- what the final view is, as soon as some order leads there
  have hfinal : ∀ {w : View}, (∃ ns', ns.Perm ns' ∧ v.hearAll ns' = w) → v.hearAll ns = w := by
    intro w hw
    obtain ⟨ns', hp, heq⟩ := hw
    rw [← h ns' hp, heq]
  have hdead : ∀ d, v.DeadAt ns d → v.hearAll ns = ⟨d, .dead⟩ :=
    fun d hd => hfinal (exists_order_dead hd)
  have hsusp : (∀ d, ¬ v.DeadAt ns d) → ∀ s, v.SuspectAt ns s → v.hearAll ns = ⟨s, .suspect⟩ := by
    intro hno s hs
    obtain ⟨rest, hrest, ns', hp, heq⟩ := exists_order_suspect hs
    refine hfinal ⟨ns', hp, ?_⟩
    rw [heq]
    obtain ⟨-, htop, hrel⟩ := hs
    refine hearAll_suspect (fun n hn => Nat.le_trans (hmax n (hrest _ hn)) htop) ?_
    intro d hd
    have hrel' : v.lives < v.top ns ∨ v.standing ≠ .dead := by
      rcases hrel with hlt | hst
      · exact Or.inl hlt
      · exact Or.inr (by rw [hst]; simp)
    rcases Nat.lt_or_ge d (v.top ns) with hlt | hge
    · exact Nat.lt_of_lt_of_le hlt htop
    · exact absurd ⟨hrest _ hd, hge, hrel'⟩ (hno d)
  refine ⟨?_, ?_, ?_, ?_, ?_⟩
  · intro d d' hd hd'
    have he := (hdead d hd).symm.trans (hdead d' hd')
    exact congrArg View.lives he
  · intro s d hs hd
    obtain ⟨rest, -, ns', hp, heq⟩ := exists_order_suspect hs
    have hle := hearAll_lives rest ⟨s, .suspect⟩
    rw [← heq, h ns' hp, hdead d hd] at hle
    exact hle
  · intro hno s s' hs hs'
    have he := (hsusp hno s hs).symm.trans (hsusp hno s' hs')
    exact congrArg View.lives he
  · intro d hd hlt
    -- otherwise some order ends alive at the top
    have hnot : ¬ ∃ ns', ns.Perm ns' ∧ v.hearAll ns' = ⟨v.top ns, .alive⟩ := by
      intro hex
      have he := (hfinal hex).symm.trans (hdead d hd)
      cases congrArg View.standing he
    have hst : v.standing ≠ .dead := by
      intro hst
      exact hnot (exists_order_revived hlt (by rw [hst]; simp) (Or.inl hst) (alive_top_mem hlt)
        hmax)
    refine ⟨hst, ?_⟩
    intro d' hd' hle
    by_contra hlow
    exact hnot (exists_order_revived_after hd' (fun k => by simp) (Nat.not_le.mp hlow)
      (Or.inl (if_pos ⟨hle, hst⟩)) (alive_top_mem hlt) hmax)
  · intro hno s hs hlt
    have hnot : ¬ ∃ ns', ns.Perm ns' ∧ v.hearAll ns' = ⟨v.top ns, .alive⟩ := by
      intro hex
      have he := (hfinal hex).symm.trans (hsusp hno s hs)
      cases congrArg View.standing he
    have hlow : ∀ d, .dead d ∈ ns → d < v.top ns := by
      intro d hd
      by_contra hge
      exact hno d ⟨hd, Nat.not_lt.mp hge, Or.inl hlt⟩
    have hst : v.standing = .alive := by
      by_contra hst
      exact hnot (exists_order_revived hlt hst (Or.inr hlow) (alive_top_mem hlt) hmax)
    refine ⟨hst, ?_⟩
    intro n hn hle
    by_contra hnt
    have hnt := Nat.not_le.mp hnt
    rcases hn with hn | hn
    · exact hnot (exists_order_revived_after hn (fun k => by simp) hnt
        (Or.inr ⟨if_pos ⟨hle, hst⟩, hlow⟩) (alive_top_mem hlt) hmax)
    · exact hnot (exists_order_revived_after hn (fun k => by simp) hnt
        (Or.inl (if_pos ⟨hle, by rw [hst]; simp⟩)) (alive_top_mem hlt) hmax)

end Necessary

/-- **When the order of the news does not matter.** -/
theorem hearAll_perm_iff (v : View) (ns : List News) :
    (∀ ns', ns.Perm ns' → v.hearAll ns' = v.hearAll ns) ↔ v.OrderFree ns :=
  ⟨orderFree_of_eq, fun h _ hp => (h.hearAll_eq hp).symm⟩

/-! ## Two views meet -/

/-- `n` is news from somebody who holds this view: it has the number, and says that the node is
alive if that is what the view says. -/
def Tells (v : View) : News → Prop
  | .alive n => n = v.lives ∧ v.standing = .alive
  | .suspect n => n = v.lives ∧ v.standing ≠ .alive
  | .dead n => n = v.lives ∧ v.standing ≠ .alive

/-- Whoever has heard of a life is at it or later. -/
theorem lives_le_hear_alive (v : View) (n : Nat) : n ≤ (v.hear (.alive n)).lives := by
  simp only [hear]
  split
  next => exact Nat.le_refl n
  next h => exact Nat.not_lt.mp h

/-- **Two who tell each other agree afterwards**, if one of them thought that the node is alive:
on the number, and on whether it is. -/
theorem hear_agree {v w : View} {n : News} (hn : v.Tells n) (hw : w.standing = .alive) :
    (v.hear (.alive w.lives)).lives = (w.hear n).lives ∧
      ((v.hear (.alive w.lives)).standing = .alive ↔ (w.hear n).standing = .alive) := by
  rcases Nat.lt_or_ge v.lives w.lives with hlt | hge
  · -- the news is old, and the alive message is not
    have hold : w.hear n = w := by
      cases n with
      | alive k => exact if_neg (by have := hn.1; omega)
      | suspect k => exact if_neg (by have := hn.1; omega)
      | dead k => exact if_neg (by have := hn.1; omega)
    have hnew : v.hear (.alive w.lives) = ⟨w.lives, .alive⟩ := if_pos hlt
    rw [hold, hnew, hw]
    exact ⟨rfl, Iff.rfl⟩
  · have hstay : v.hear (.alive w.lives) = v := if_neg (Nat.not_lt.mpr hge)
    rw [hstay]
    cases n with
    | alive k =>
      obtain ⟨rfl, halive⟩ := hn
      simp only [hear]
      split
      next => exact ⟨rfl, by simp only [halive]⟩
      next hle => exact ⟨Nat.le_antisymm (Nat.not_lt.mp hle) hge, by rw [halive, hw]⟩
    | suspect k =>
      obtain ⟨rfl, hnot⟩ := hn
      simp only [hear, if_pos (And.intro hge hw), hnot, reduceCtorEq, and_self]
    | dead k =>
      obtain ⟨rfl, hnot⟩ := hn
      have hnews : w.lives ≤ v.lives ∧ w.standing ≠ .dead := ⟨hge, by rw [hw]; decide⟩
      simp only [hear, if_pos hnews, hnot, reduceCtorEq, and_self]

end View

end Mlist
