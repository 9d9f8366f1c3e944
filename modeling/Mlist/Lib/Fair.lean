import Mathlib.Algebra.BigOperators.Group.List.Basic
import Mathlib.Algebra.Ring.Nat
import Mathlib.Data.Nat.Init
import Mlist.Lib.Run

/-!
# Executions that go on, and fairness

A finite run cannot tell a program that has not got there yet from one that never will. An
`Execution` of a partial step function goes on for ever: at each moment an action is taken, or
nothing happens. The actions belong to processes, and `Fair` is weak fairness to one of them: it
is not left waiting for ever while it can always do something.

* `Execution.stable` — what every step keeps, holds from then on;
* `Execution.eventually` — something comes about, if until then some process can do something,
  stays the one as long as a measure does not change, and decreases the measure when it moves;
* `Execution.eventually_zero` — a measure that gets to zero that way;
* `Execution.ensures` — a process that can always do something which gets there, gets there;
* `Execution.ofRun` — a finite run after which nothing happens, fair to those who cannot do
  anything in its last state;
* `sum_map_set` — what one process does to a measure made up of those of several.
-/

namespace Mlist.Lib

variable {σ α κ : Type}

/-- An execution that goes on for ever. -/
structure Execution (step : α → σ → Option σ) where
  state : Nat → σ
  act : Nat → Option α
  next : ∀ n, ((act n).elim (some (state n)) fun a => step a (state n)) = some (state (n + 1))

/-- Process `c` can do something. -/
def Enabled (step : α → σ → Option σ) (proc : α → κ) (c : κ) (s : σ) : Prop :=
  ∃ a, proc a = c ∧ (step a s).isSome = true

namespace Execution

variable {step : α → σ → Option σ}

/-- Process `c` does not wait for ever while it can always do something. -/
def Fair (proc : α → κ) (e : Execution step) (c : κ) : Prop :=
  ∀ n, (∀ k, n ≤ k → Enabled step proc c (e.state k)) →
    ∃ k a, n ≤ k ∧ e.act k = some a ∧ proc a = c

variable {e : Execution step} {proc : α → κ} {n : Nat}

theorem next_of_act {a : α} (h : e.act n = some a) :
    step a (e.state n) = some (e.state (n + 1)) := by
  have hnext := e.next n
  rw [h] at hnext
  exact hnext

theorem next_of_none (h : e.act n = none) : e.state (n + 1) = e.state n := by
  have hnext := e.next n
  rw [h] at hnext
  exact (Option.some.inj hnext).symm

/-- At each moment nothing happens, or an action is taken. -/
theorem stays_or_steps (e : Execution step) (n : Nat) : e.state (n + 1) = e.state n ∨
    ∃ a, e.act n = some a ∧ step a (e.state n) = some (e.state (n + 1)) := by
  cases h : e.act n with
  | none => exact .inl (next_of_none h)
  | some a => exact .inr ⟨a, rfl, next_of_act h⟩

/-- **Invariant rule.** What every step keeps, holds from then on. -/
theorem stable {P : σ → Prop} (hstep : ∀ a s t, P s → step a s = some t → P t)
    (h : P (e.state n)) : ∀ k, n ≤ k → P (e.state k) := by
  intro k hk
  induction k, hk using Nat.le_induction with
  | base => exact h
  | succ k _ ih =>
    rcases e.stays_or_steps k with hstay | ⟨a, -, hnext⟩
    · rw [hstay]
      exact ih
    · exact hstep a _ _ ih hnext

/-- **Measure rule.** `help s` is the process that is to move next. What is known of every state
of the execution, and of every action that is taken in it, may be used on the way. -/
theorem eventually {I Q : σ → Prop} {C : σ → α → Prop} (μ : σ → Nat) (help : σ → κ)
    (hfair : ∀ s, I s → ¬Q s → e.Fair proc (help s))
    (henabled : ∀ s, I s → ¬Q s → Enabled step proc (help s) s)
    (hstep : ∀ a s t, I s → I t → C s a → ¬Q s → step a s = some t →
      Q t ∨ μ t < μ s ∨ proc a ≠ help s ∧ μ t = μ s ∧ help t = help s)
    (hI : ∀ k, n ≤ k → I (e.state k)) (hC : ∀ k a, n ≤ k → e.act k = some a → C (e.state k) a) :
    ∃ k, n ≤ k ∧ Q (e.state k) := by
  generalize hm : μ (e.state n) = m
  induction m using Nat.strongRecOn generalizing n with
  | ind m ih =>
    by_contra hnever
    have hnot : ∀ k, n ≤ k → ¬Q (e.state k) := fun k hk hQ => hnever ⟨k, hk, hQ⟩
    have hlower : ∀ k, n ≤ k → ¬μ (e.state k) < m := by
      intro k hk hlt
      obtain ⟨j, hj, hQ⟩ := ih _ hlt (fun i hi => hI i (Nat.le_trans hk hi))
        (fun i a hi => hC i a (Nat.le_trans hk hi)) rfl
      exact hnot j (Nat.le_trans hk hj) hQ
    have hmoves : ∀ k a, n ≤ k → e.act k = some a → μ (e.state k) = m →
        proc a ≠ help (e.state k) ∧ μ (e.state (k + 1)) = m ∧
          help (e.state (k + 1)) = help (e.state k) := by
      intro k a hk hact hμ
      rcases hstep a _ _ (hI k hk) (hI (k + 1) (Nat.le_succ_of_le hk)) (hC k a hk hact) (hnot k hk)
        (next_of_act hact) with hQ | hlt | ⟨hother, hμ', hhelp⟩
      · exact absurd hQ (hnot (k + 1) (Nat.le_succ_of_le hk))
      · exact absurd (hμ ▸ hlt) (hlower (k + 1) (Nat.le_succ_of_le hk))
      · exact ⟨hother, hμ'.trans hμ, hhelp⟩
    -- so the measure stays, and so does the process that is to move
    have hsame : ∀ k, n ≤ k → μ (e.state k) = m ∧ help (e.state k) = help (e.state n) := by
      intro k hk
      induction k, hk using Nat.le_induction with
      | base => exact ⟨hm, rfl⟩
      | succ k hk ih' =>
        obtain ⟨hμ, hhelp⟩ := ih'
        cases hact : e.act k with
        | none =>
          rw [next_of_none hact]
          exact ⟨hμ, hhelp⟩
        | some a =>
          obtain ⟨-, hμ', hhelp'⟩ := hmoves k a hk hact hμ
          exact ⟨hμ', hhelp'.trans hhelp⟩
    have hen : ∀ k, n ≤ k → Enabled step proc (help (e.state n)) (e.state k) := by
      intro k hk
      rw [← (hsame k hk).2]
      exact henabled _ (hI k hk) (hnot k hk)
    obtain ⟨k, a, hk, hact, hproc⟩ := hfair _ (hI n (Nat.le_refl n)) (hnot n (Nat.le_refl n)) n hen
    exact (hmoves k a hk hact (hsame k hk).1).1 (hproc.trans (hsame k hk).2.symm)

/-- A measure that gets to zero. -/
theorem eventually_zero {I : σ → Prop} (μ : σ → Nat) (help : σ → κ)
    (hfair : ∀ s, I s → 0 < μ s → e.Fair proc (help s))
    (henabled : ∀ s, I s → 0 < μ s → Enabled step proc (help s) s)
    (hstep : ∀ a s t, I s → 0 < μ s → step a s = some t →
      μ t < μ s ∨ proc a ≠ help s ∧ μ t = μ s ∧ help t = help s)
    (hI : ∀ k, n ≤ k → I (e.state k)) : ∃ k, n ≤ k ∧ μ (e.state k) = 0 :=
  e.eventually (Q := fun s => μ s = 0) (C := fun _ _ => True) μ help
    (fun s hs hQ => hfair s hs (Nat.pos_of_ne_zero hQ))
    (fun s hs hQ => henabled s hs (Nat.pos_of_ne_zero hQ))
    (fun a s t hs _ _ hQ hact => .inr (hstep a s t hs (Nat.pos_of_ne_zero hQ) hact)) hI
    fun _ _ _ _ => trivial

/-- One process that gets there by itself. -/
theorem ensures {I Q : σ → Prop} {c : κ} (hfair : e.Fair proc c)
    (henabled : ∀ s, I s → ¬Q s → Enabled step proc c s)
    (hstep : ∀ a s t, I s → ¬Q s → step a s = some t → proc a = c → Q t)
    (hI : ∀ k, n ≤ k → I (e.state k)) : ∃ k, n ≤ k ∧ Q (e.state k) := by
  refine e.eventually (C := fun _ _ => True) (fun _ => 0) (fun _ => c) (fun _ _ _ => hfair) henabled
    (fun a s t hs _ _ hQ hact => ?_) hI fun _ _ _ _ => trivial
  by_cases hproc : proc a = c
  · exact .inl (hstep a s t hs hQ hact hproc)
  · exact .inr (.inr ⟨hproc, rfl, rfl⟩)

/-! ### Finite runs -/

/-- The state after the first `n` actions of a run. -/
def stateAt (step : α → σ → Option σ) (as : List α) (s : σ) (n : Nat) : σ :=
  (run step (as.take n) s).getD s

section OfRun

variable {as : List α} {s s' : σ}

theorem run_take (h : run step as s = some s') (n : Nat) :
    run step (as.take n) s = some (stateAt step as s n) := by
  have happend := run_append step (as.take n) (as.drop n) s
  rw [List.take_append_drop, h] at happend
  obtain ⟨t, ht, -⟩ := Option.bind_eq_some_iff.mp happend.symm
  unfold stateAt
  rw [ht]
  rfl

theorem stateAt_of_le (h : run step as s = some s') {n : Nat} (hn : as.length ≤ n) :
    stateAt step as s n = s' := by
  have htake := run_take h n
  rw [List.take_of_length_le hn, h] at htake
  exact (Option.some.inj htake).symm

theorem stateAt_succ (h : run step as s = some s') (n : Nat) :
    ((as[n]?).elim (some (stateAt step as s n)) fun a => step a (stateAt step as s n)) =
      some (stateAt step as s (n + 1)) := by
  have hnext := run_take h (n + 1)
  rw [List.take_add_one, run_append, run_take h n, Option.bind_some] at hnext
  cases ha : as[n]? with
  | none =>
    rw [ha] at hnext
    exact hnext
  | some a =>
    rw [ha] at hnext
    exact (run_singleton step a _).symm.trans hnext

/-- A run, and then nothing. -/
def ofRun (h : run step as s = some s') : Execution step where
  state := stateAt step as s
  act n := as[n]?
  next := stateAt_succ h

theorem ofRun_fair (h : run step as s = some s') {c : κ} (hc : ¬Enabled step proc c s') :
    (ofRun h).Fair proc c := by
  intro n hen
  have hlast := hen (max n as.length) (Nat.le_max_left ..)
  have hs' : (ofRun h).state (max n as.length) = s' := stateAt_of_le h (Nat.le_max_right ..)
  rw [hs'] at hlast
  exact absurd hlast hc

/-- What holds along the run, holds at every moment. -/
theorem ofRun_along {P : σ → Prop} (h : run step as s = some s') (hP : Along step P as s)
    (n : Nat) : P ((ofRun h).state n) := by
  show P (stateAt step as s n)
  induction as generalizing s n with
  | nil =>
    unfold stateAt
    rw [List.take_nil]
    exact hP
  | cons a as ih =>
    cases n with
    | zero => exact hP.1
    | succ n =>
      obtain ⟨t, ht, hrun⟩ := run_cons_some h
      have hrest := ih hrun (hP.2 t ht) n
      unfold stateAt at hrest ⊢
      have hsome := run_take hrun n
      rw [List.take_succ_cons, run_cons, ht, Option.bind_some, hsome]
      rw [hsome] at hrest
      exact hrest

end OfRun

end Execution

/-! ## Measures of lists -/

/-- One of the processes in a list gets another weight. -/
theorem sum_map_set {w : α → Nat} {l : List α} {i : Nat} {y : α} (x : α) (h : l[i]? = some y) :
    ((l.set i x).map w).sum + w y = (l.map w).sum + w x := by
  obtain ⟨hi, rfl⟩ := List.getElem?_eq_some_iff.mp h
  have hset := List.sum_set (l.map w) i (w x)
  have hsame := List.sum_set (l.map w) i (w l[i])
  rw [List.length_map, if_pos hi] at hset hsame
  rw [← List.map_set, List.set_getElem_self hi] at hsame
  rw [List.map_set, hset, hsame]
  omega

end Mlist.Lib
