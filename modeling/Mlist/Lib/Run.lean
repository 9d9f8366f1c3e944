import Mathlib.Data.List.Perm.Basic
import Mathlib.Data.List.Nodup

/-!
# Runs of a partial step function

A program that takes one action at a time is a function
`step : α → σ → Option σ`: the state after the action, or `none` when the
action never returns (a crash, a loop that does not end). This file has the
vocabulary for runs of such a function and the induction rules every safety
theorem is an instance of:

* `run` — the state after a list of actions;
* `Along` — a property of every state a run goes through, the first and the
  last included;
* `Sometime` — a property of some state a run goes through;
* `Each` — a condition on every action of a run and the state it is taken in;
* `gather` — what the actions of a run show, one after the other;
* `run_inv` / `run_inv_each` / `run_inv_along` / `run_gather` — what every step keeps, every
  run keeps;
* `run_countdown` — what comes about once a measure has been counted down;
* `run_total` — where every step returns, every run returns;
* `each_cons` / `each_of_forall` / `each_iff` — how a condition on every action is
  met, and when two such conditions are one;
* `along_iff_each` — a condition on every action that is just what a property of
  every state takes;
* `run_project` — a part of the state that only some actions touch, seen as a run of
  its own;
* `run_views_perm` — where each action touches one part of the state and no two the same,
  the order of the actions does not matter to any part;
* `run_done` / `run_still` — what a run has done stays done, and what is done already
  changes nothing.
-/

namespace Mlist.Lib

variable {σ α : Type}

/-- The state after the actions `as`, `none` as soon as one of them does not
return. -/
def run (step : α → σ → Option σ) : List α → σ → Option σ
  | [], s => some s
  | a :: as, s => (step a s).bind (run step as)

@[simp] theorem run_nil (step : α → σ → Option σ) (s : σ) :
    run step [] s = some s := rfl

theorem run_cons (step : α → σ → Option σ) (a : α) (as : List α) (s : σ) :
    run step (a :: as) s = (step a s).bind (run step as) := rfl

theorem run_singleton (step : α → σ → Option σ) (a : α) (s : σ) : run step [a] s = step a s := by
  rw [run_cons]
  cases step a s with
  | none => rfl
  | some t => rfl

/-- A run that starts with `a` and returns takes a first step that returns. -/
theorem run_cons_some {step : α → σ → Option σ} {a : α} {as : List α} {s s' : σ}
    (h : run step (a :: as) s = some s') :
    ∃ t, step a s = some t ∧ run step as t = some s' := by
  rw [run_cons] at h
  exact Option.bind_eq_some_iff.mp h

theorem run_append (step : α → σ → Option σ) (as bs : List α) (s : σ) :
    run step (as ++ bs) s = (run step as s).bind (run step bs) := by
  induction as generalizing s with
  | nil => rfl
  | cons a as ih =>
    rw [List.cons_append, run_cons, run_cons]
    cases step a s with
    | none => rfl
    | some t => exact ih t

/-- `P` holds in every state the run of `as` from `s` goes through. -/
def Along (step : α → σ → Option σ) (P : σ → Prop) : List α → σ → Prop
  | [], s => P s
  | a :: as, s => P s ∧ ∀ t, step a s = some t → Along step P as t

/-- `C` holds of every action of the run of `as` from `s`, taken in the state
before it. -/
def Each (step : α → σ → Option σ) (C : σ → α → Prop) : List α → σ → Prop
  | [], _ => True
  | a :: as, s => C s a ∧ ∀ t, step a s = some t → Each step C as t

theorem Along.head {step : α → σ → Option σ} {P : σ → Prop} {as : List α} {s : σ}
    (h : Along step P as s) : P s := by
  cases as with
  | nil => exact h
  | cons a as => exact h.1

theorem Along.last {step : α → σ → Option σ} {P : σ → Prop} :
    ∀ {as : List α} {s s' : σ}, Along step P as s → run step as s = some s' → P s' := by
  intro as
  induction as with
  | nil =>
    intro s s' h hrun
    exact Option.some.inj hrun ▸ h
  | cons a as ih =>
    intro s s' h hrun
    obtain ⟨t, ht, hrun'⟩ := run_cons_some hrun
    exact ih (h.2 t ht) hrun'

/-- What holds in every state of a run, and of every action in it, is a condition on every
action. -/
theorem Along.each {step : α → σ → Option σ} {P : σ → Prop} {Q : α → Prop} :
    ∀ {as : List α} {s : σ}, Along step P as s → (∀ a ∈ as, Q a) →
      Each step (fun s a => P s ∧ Q a) as s := by
  intro as
  induction as with
  | nil => intro s _ _; exact trivial
  | cons a as ih =>
    intro s h hQ
    refine ⟨⟨h.1, hQ a (List.mem_cons_self ..)⟩, fun t ht => ?_⟩
    exact ih (h.2 t ht) fun b hb => hQ b (List.mem_cons_of_mem _ hb)

/-- `P` holds in some state the run of `as` from `s` goes through. -/
def Sometime (step : α → σ → Option σ) (P : σ → Prop) : List α → σ → Prop
  | [], s => P s
  | a :: as, s => P s ∨ ∃ t, step a s = some t ∧ Sometime step P as t

/-- What each action of the run keeps once it holds, held at some time if it holds in the
end. -/
theorem sometime_iff_last {step : α → σ → Option σ} {P : σ → Prop} {C : σ → α → Prop}
    (hstep : ∀ a s t, C s a → P s → step a s = some t → P t) :
    ∀ {as : List α} {s s' : σ}, Each step C as s → run step as s = some s' →
      (Sometime step P as s ↔ P s') := by
  intro as
  induction as with
  | nil =>
    intro s s' _ hrun
    rw [← Option.some.inj hrun]
    exact Iff.rfl
  | cons a as ih =>
    intro s s' hC hrun
    obtain ⟨t, ht, hrun'⟩ := run_cons_some hrun
    have hrest := ih (hC.2 t ht) hrun'
    constructor
    · intro h
      rcases h with hP | ⟨t', ht', hsome⟩
      · have hPt := hstep a s t hC.1 hP ht
        refine hrest.mp ?_
        cases as with
        | nil => exact hPt
        | cons b as => exact .inl hPt
      · rw [ht] at ht'
        exact hrest.mp (Option.some.inj ht' ▸ hsome)
    · intro hP
      exact .inr ⟨t, ht, hrest.mpr hP⟩

/-- **Invariant rule.** What every step keeps, every run keeps. -/
theorem run_inv {step : α → σ → Option σ} {P : σ → Prop}
    (hstep : ∀ a s t, P s → step a s = some t → P t) :
    ∀ {as : List α} {s s' : σ}, P s → run step as s = some s' → P s' := by
  intro as
  induction as with
  | nil =>
    intro s s' hP h
    rw [run_nil] at h
    exact Option.some.inj h ▸ hP
  | cons a as ih =>
    intro s s' hP h
    obtain ⟨t, ht, h'⟩ := run_cons_some h
    exact ih (hstep a s t hP ht) h'

/-- **Invariant rule with a side condition.** What every step that meets `C`
keeps, every run whose steps all meet `C` keeps. -/
theorem run_inv_each {step : α → σ → Option σ} {P : σ → Prop} {C : σ → α → Prop}
    (hstep : ∀ a s t, P s → C s a → step a s = some t → P t) :
    ∀ {as : List α} {s s' : σ}, P s → Each step C as s → run step as s = some s' → P s' := by
  intro as
  induction as with
  | nil =>
    intro s s' hP _ h
    rw [run_nil] at h
    exact Option.some.inj h ▸ hP
  | cons a as ih =>
    intro s s' hP hC h
    obtain ⟨t, ht, h'⟩ := run_cons_some h
    exact ih (hstep a s t hP hC.1 ht) (hC.2 t ht) h'

/-- **Invariant rule along a property.** What every step into a state with `Q` keeps, every
run that has `Q` all along keeps. -/
theorem run_inv_along {step : α → σ → Option σ} {P Q : σ → Prop}
    (hstep : ∀ a s t, P s → Q t → step a s = some t → P t) :
    ∀ {as : List α} {s s' : σ}, P s → Along step Q as s → run step as s = some s' → P s' := by
  intro as
  induction as with
  | nil =>
    intro s s' hP _ h
    exact Option.some.inj h ▸ hP
  | cons a as ih =>
    intro s s' hP hQ h
    obtain ⟨t, ht, h'⟩ := run_cons_some h
    have hrest := hQ.2 t ht
    exact ih (hstep a s t hP hrest.head ht) hrest h'

/-- **Countdown.** A measure that no action of the run increases, and that the actions of one kind
decrease: when there have been as many of these as it was, `Q` has come about. `I` is known of
every state of the run. -/
theorem run_countdown {step : α → σ → Option σ} {I P Q : σ → Prop} {C : σ → α → Prop}
    (tick : α → Bool) (μ : σ → Nat) (hpos : ∀ s, P s → 0 < μ s)
    (hkeep : ∀ a s t, Q s → I t → step a s = some t → Q t)
    (hstep : ∀ a s t, P s → I t → C s a → step a s = some t →
      Q t ∨ P t ∧ μ t + (if tick a then 1 else 0) ≤ μ s) :
    ∀ {as : List α} {s s' : σ}, P s → Along step I as s → Each step C as s →
      run step as s = some s' → μ s ≤ as.countP tick → Q s' := by
  intro as
  induction as with
  | nil =>
    intro s s' hP _ _ _ hle
    exact absurd (hpos s hP) (Nat.not_lt.mpr hle)
  | cons a as ih =>
    intro s s' hP hI hC h hle
    obtain ⟨t, ht, h'⟩ := run_cons_some h
    have hrest := hI.2 t ht
    rcases hstep a s t hP hrest.head hC.1 ht with hQ | ⟨hPt, hμ⟩
    · exact run_inv_along hkeep hQ hrest h'
    · refine ih hPt hrest (hC.2 t ht) h' ?_
      rw [List.countP_cons] at hle
      omega

/-- What the actions of the run of `as` from `s` show, each in the state before it. -/
def gather {β : Type} (step : α → σ → Option σ) (f : σ → α → List β) : List α → σ → List β
  | [], _ => []
  | a :: as, s => f s a ++ ((step a s).map (gather step f as)).getD []

/-- **History rule.** What every step keeps of a state, of the actions that led there and of what
they have shown, every run keeps. -/
theorem run_gather {β : Type} {step : α → σ → Option σ} {f : σ → α → List β}
    {P : List α → List β → σ → Prop}
    (hstep : ∀ past l a s t, P past l s → step a s = some t → P (past ++ [a]) (l ++ f s a) t) :
    ∀ {as past : List α} {l : List β} {s s' : σ}, P past l s → run step as s = some s' →
      P (past ++ as) (l ++ gather step f as s) s' := by
  intro as
  induction as with
  | nil =>
    intro past l s s' hP h
    rw [List.append_nil, ← Option.some.inj h]
    show P past (l ++ []) s
    rw [List.append_nil]
    exact hP
  | cons a as ih =>
    intro past l s s' hP h
    obtain ⟨t, ht, h'⟩ := run_cons_some h
    have hrest := ih (hstep past l a s t hP ht) h'
    have hshown : gather step f (a :: as) s = f s a ++ gather step f as t := by
      show f s a ++ ((step a s).map (gather step f as)).getD [] = _
      rw [ht]
      rfl
    rw [hshown, ← List.append_assoc, ← List.singleton_append (x := a), ← List.append_assoc]
    exact hrest

/-- **Returning rule.** Where an invariant makes every step return and every step
keeps it, every run returns. -/
theorem run_total {step : α → σ → Option σ} {P : σ → Prop}
    (hstep : ∀ a s, P s → ∃ t, step a s = some t ∧ P t) :
    ∀ (as : List α) {s : σ}, P s → ∃ s', run step as s = some s' ∧ P s' := by
  intro as
  induction as with
  | nil =>
    intro s hP
    exact ⟨s, rfl, hP⟩
  | cons a as ih =>
    intro s hP
    obtain ⟨t, ht, hPt⟩ := hstep a s hP
    obtain ⟨s', hs', hPs'⟩ := ih hPt
    refine ⟨s', ?_, hPs'⟩
    rw [run_cons, ht]
    exact hs'

/-- A property of every state is decided by running. -/
instance decidableAlong {step : α → σ → Option σ} {P : σ → Prop} [∀ s, Decidable (P s)] :
    ∀ as s, Decidable (Along step P as s)
  | [], s => inferInstanceAs (Decidable (P s))
  | a :: as, s =>
    match h : step a s with
    | none => decidable_of_iff (P s)
        ⟨fun hP => ⟨hP, fun _ ht => nomatch h.symm.trans ht⟩, fun hA => hA.1⟩
    | some t =>
      have : Decidable (Along step P as t) := decidableAlong as t
      decidable_of_iff (P s ∧ Along step P as t)
        ⟨fun hA => ⟨hA.1, fun _ ht => Option.some.inj (h.symm.trans ht) ▸ hA.2⟩,
          fun hA => ⟨hA.1, hA.2 t h⟩⟩

/-- So is a property of some state. -/
instance decidableSometime {step : α → σ → Option σ} {P : σ → Prop} [∀ s, Decidable (P s)] :
    ∀ as s, Decidable (Sometime step P as s)
  | [], s => inferInstanceAs (Decidable (P s))
  | a :: as, s =>
    match h : step a s with
    | none => decidable_of_iff (P s)
        ⟨fun hP => .inl hP, fun hS => hS.resolve_right fun ⟨_, ht, _⟩ => nomatch h.symm.trans ht⟩
    | some t =>
      have : Decidable (Sometime step P as t) := decidableSometime as t
      decidable_of_iff (P s ∨ Sometime step P as t)
        ⟨fun hS => hS.imp_right fun ht => ⟨t, h, ht⟩,
          fun hS => hS.imp_right fun ⟨_, ht, hrest⟩ => Option.some.inj (h.symm.trans ht) ▸ hrest⟩

/-- A condition on every action is decided by running. -/
instance decidableEach {step : α → σ → Option σ} {C : σ → α → Prop}
    [∀ s a, Decidable (C s a)] : ∀ as s, Decidable (Each step C as s)
  | [], _ => isTrue trivial
  | a :: as, s =>
    match h : step a s with
    | none => decidable_of_iff (C s a)
        ⟨fun hC => ⟨hC, fun _ ht => nomatch h.symm.trans ht⟩, fun hE => hE.1⟩
    | some t =>
      have : Decidable (Each step C as t) := decidableEach as t
      decidable_of_iff (C s a ∧ Each step C as t)
        ⟨fun hE => ⟨hE.1, fun _ ht => Option.some.inj (h.symm.trans ht) ▸ hE.2⟩,
          fun hE => ⟨hE.1, hE.2 t h⟩⟩

theorem each_cons {step : α → σ → Option σ} {C : σ → α → Prop} {a : α} {as : List α} {s t : σ}
    (hstep : step a s = some t) (hC : C s a) (h : Each step C as t) : Each step C (a :: as) s := by
  refine ⟨hC, fun t' ht' => ?_⟩
  rw [hstep] at ht'
  exact Option.some.inj ht' ▸ h

/-- A condition that every action of the run meets anywhere. -/
theorem each_of_forall {step : α → σ → Option σ} {C : σ → α → Prop} :
    ∀ {as : List α} {s : σ}, (∀ a ∈ as, ∀ t, C t a) → Each step C as s := by
  intro as
  induction as with
  | nil => intro s _; exact trivial
  | cons a as ih =>
    intro s h
    exact ⟨h a (List.mem_cons_self ..) s, fun t _ => ih fun b hb => h b (List.mem_cons_of_mem _ hb)⟩

/-- Two conditions that agree wherever a run that meets the first can get to. -/
theorem each_iff {step : α → σ → Option σ} {P : σ → Prop} {C D : σ → α → Prop}
    (hiff : ∀ a s, P s → (C s a ↔ D s a))
    (hstep : ∀ a s t, P s → C s a → step a s = some t → P t) :
    ∀ {as : List α} {s : σ}, P s → (Each step C as s ↔ Each step D as s) := by
  intro as
  induction as with
  | nil => intro s _; exact Iff.rfl
  | cons a as ih =>
    intro s hP
    constructor
    · intro h
      obtain ⟨hC, hrest⟩ := h
      exact ⟨(hiff a s hP).mp hC, fun t ht => (ih (hstep a s t hP hC ht)).mp (hrest t ht)⟩
    · intro h
      obtain ⟨hD, hrest⟩ := h
      have hC := (hiff a s hP).mpr hD
      exact ⟨hC, fun t ht => (ih (hstep a s t hP hC ht)).mpr (hrest t ht)⟩

/-- **Exactness rule.** Where `C` says of an action when it keeps `P`, the runs all of
whose actions meet `C` are those that keep `P` all along. -/
theorem along_iff_each {step : α → σ → Option σ} {I P : σ → Prop} {C : σ → α → Prop}
    (hinv : ∀ a s t, I s → P t → step a s = some t → I t)
    (hiff : ∀ a s, I s → P s → ((∀ t, step a s = some t → P t) ↔ C s a)) :
    ∀ (as : List α) {s : σ}, I s → (Along step P as s ↔ P s ∧ Each step C as s) := by
  intro as
  induction as with
  | nil => intro s _; exact (and_iff_left trivial).symm
  | cons a as ih =>
    intro s hI
    constructor
    · intro h
      obtain ⟨hP, hrest⟩ := h
      have hC : C s a := (hiff a s hI hP).mp fun t ht => (hrest t ht).head
      exact ⟨hP, hC, fun t ht => ((ih (hinv a s t hI (hrest t ht).head ht)).mp (hrest t ht)).2⟩
    · intro h
      obtain ⟨hP, hC, hrest⟩ := h
      refine ⟨hP, fun t ht => ?_⟩
      have hPt : P t := (hiff a s hI hP).mpr hC t ht
      exact (ih (hinv a s t hI hPt ht)).mpr ⟨hPt, hrest t ht⟩

/-- Where every action with `Q` returns from every state, so does every run of them. -/
theorem run_returns {step : α → σ → Option σ} {Q : α → Prop}
    (hstep : ∀ a s, Q a → ∃ t, step a s = some t) :
    ∀ (as : List α) (s : σ), (∀ a ∈ as, Q a) → ∃ s', run step as s = some s' := by
  intro as
  induction as with
  | nil =>
    intro s _
    exact ⟨s, rfl⟩
  | cons a as ih =>
    intro s hQ
    obtain ⟨t, ht⟩ := hstep a s (hQ a List.mem_cons_self)
    obtain ⟨s', hs'⟩ := ih t fun b hb => hQ b (List.mem_cons_of_mem _ hb)
    refine ⟨s', ?_⟩
    rw [run_cons, ht]
    exact hs'

/-- **Projection rule.** A part of the state, `view`, that the actions `about` it change as
`f` says and the others leave alone, goes through a run of `f` over those actions. -/
theorem run_project {β : Type} {step : α → σ → Option σ} {f : α → β → Option β} {view : σ → β}
    {P : σ → Prop} (about : α → Bool)
    (hinv : ∀ a s t, P s → step a s = some t → P t)
    (hown : ∀ a s t, P s → about a = true → step a s = some t → f a (view s) = some (view t))
    (hother : ∀ a s t, P s → about a = false → step a s = some t → view t = view s) :
    ∀ {as : List α} {s s' : σ}, P s → run step as s = some s' →
      run f (as.filter about) (view s) = some (view s') := by
  intro as
  induction as with
  | nil =>
    intro s s' _ hrun
    rw [List.filter_nil, run_nil, Option.some.inj hrun]
  | cons a as ih =>
    intro s s' hP hrun
    obtain ⟨t, ht, hrun'⟩ := run_cons_some hrun
    have hrest := ih (hinv a s t hP ht) hrun'
    cases hab : about a with
    | true =>
      rw [List.filter_cons_of_pos hab, run_cons, hown a s t hP hab ht]
      exact hrest
    | false =>
      rw [List.filter_cons_of_neg (by rw [hab]; exact Bool.false_ne_true)]
      rw [hother a s t hP hab ht] at hrest
      exact hrest

theorem run_map {γ : Type} (f : γ → σ → Option σ) (g : α → γ) :
    ∀ (as : List α) (s : σ), run f (as.map g) s = run (fun a => f (g a)) as s := by
  intro as
  induction as with
  | nil => intro s; rfl
  | cons a as ih =>
    intro s
    rw [List.map_cons, run_cons, run_cons]
    cases f (g a) s with
    | none => rfl
    | some t => exact ih t

/-- Where no two elements have the same key, those with one key are in any order the same. -/
theorem filter_key_perm {γ κ : Type} [DecidableEq κ] {key : γ → κ} {l l' : List γ}
    (hp : l'.Perm l) (hkeys : (l.map key).Nodup) (x : κ) :
    l'.filter (fun c => decide (key c = x)) = l.filter fun c => decide (key c = x) := by
  have hfilter := hp.filter fun c => decide (key c = x)
  have hnodup : ((l.filter fun c => decide (key c = x)).map key).Nodup :=
    hkeys.sublist (List.filter_sublist.map key)
  have hx : ∀ c ∈ l.filter fun c => decide (key c = x), key c = x := fun c hc => by
    simpa using (List.mem_filter.mp hc).2
  generalize l.filter (fun c => decide (key c = x)) = own at hfilter hnodup hx
  match own with
  | [] => exact hfilter.eq_nil
  | [c] => exact List.perm_singleton.mp hfilter
  | c :: d :: rest =>
    -- two of them would share the key
    obtain ⟨hnot, -⟩ := List.nodup_cons.mp hnodup
    refine absurd ?_ hnot
    rw [hx c List.mem_cons_self, ← hx d (List.mem_cons_of_mem _ List.mem_cons_self)]
    exact List.mem_map_of_mem List.mem_cons_self

/-- **Reordering rule.** Each action `a` touches the part of the state at `key (g a)` and
changes it as `f (g a)` says. Two runs of the same actions in different orders, no two of
them at the same key, leave every part the same. -/
theorem run_views_perm {β γ κ : Type} [DecidableEq κ] {step : α → σ → Option σ}
    {P : σ → Prop} (f : γ → β → Option β) (g : α → γ) (key : γ → κ) (view : κ → σ → β)
    (hinv : ∀ a s t, P s → step a s = some t → P t)
    (hown : ∀ a s t, P s → step a s = some t →
      f (g a) (view (key (g a)) s) = some (view (key (g a)) t))
    (hother : ∀ a s t x, P s → key (g a) ≠ x → step a s = some t → view x t = view x s)
    {as as' : List α} {s t t' : σ} (hs : P s) (hkeys : ((as.map g).map key).Nodup)
    (hp : (as'.map g).Perm (as.map g)) (hrun : run step as s = some t)
    (hrun' : run step as' s = some t') (x : κ) : view x t' = view x t := by
  have hview : ∀ {bs : List α} {u : σ}, run step bs s = some u →
      run f ((bs.map g).filter fun c => decide (key c = x)) (view x s) = some (view x u) := by
    intro bs u hbs
    rw [List.filter_map, run_map]
    refine run_project (fun a => decide (key (g a) = x)) hinv ?_ ?_ hs hbs
    · intro a v w hv hkey hw
      obtain rfl := of_decide_eq_true hkey
      exact hown a v w hv hw
    · intro a v w hv hkey hw
      exact hother a v w x hv (of_decide_eq_false hkey) hw
  have hboth := (hview hrun').symm.trans (filter_key_perm hp hkeys x ▸ hview hrun)
  exact Option.some.inj hboth

/-- Where an action leaves itself done, and the actions after it keep it done, a run leaves
all its actions done. -/
theorem run_done {step : α → σ → Option σ} {P : σ → Prop} (Done : α → σ → Prop)
    {R : α → α → Prop} (hinv : ∀ a s t, P s → step a s = some t → P t)
    (hdo : ∀ a s t, P s → step a s = some t → Done a t)
    (hkeep : ∀ a b s t, P s → R a b → Done a s → step b s = some t → Done a t) :
    ∀ {as : List α} {s s' : σ}, as.Pairwise R → P s → run step as s = some s' →
      ∀ a ∈ as, Done a s' := by
  intro as
  induction as with
  | nil => intro s s' _ _ _ a ha; cases ha
  | cons b as ih =>
    intro s s' hpair hP hrun a ha
    obtain ⟨t, ht, hrun'⟩ := run_cons_some hrun
    obtain ⟨hhead, htail⟩ := List.pairwise_cons.mp hpair
    have hPt := hinv b s t hP ht
    rcases List.mem_cons.mp ha with rfl | ha
    · have hlast : P s' ∧ Done a s' := by
        refine run_inv_each (P := fun u => P u ∧ Done a u) (C := fun _ c => R a c) ?_
          ⟨hPt, hdo a s t hP ht⟩ (each_of_forall fun c hc _ => hhead c hc) hrun'
        intro c u v hu hR hv
        exact ⟨hinv c u v hu.1 hv, hkeep a c u v hu.1 hR hu.2 hv⟩
      exact hlast.2
    · exact ih htail hPt hrun' a ha

/-- A run whose actions change nothing. -/
theorem run_still {step : α → σ → Option σ} {s : σ} :
    ∀ {as : List α}, (∀ a ∈ as, step a s = some s) → run step as s = some s := by
  intro as
  induction as with
  | nil => intro _; rfl
  | cons a as ih =>
    intro h
    rw [run_cons, h a List.mem_cons_self]
    exact ih fun b hb => h b (List.mem_cons_of_mem _ hb)

end Mlist.Lib
