import Mathlib.Data.Prod.Lex
import Mlist.Member.Registry

/-!
# Records only ever get newer

Five places write a record, under five different comparisons: `<=` in
`aliveNode`, `<` in `suspectNode` and in `deadNode`, the loop of `refute`, and
the early return on an existing suspicion. What they have in common is an order.
Read a record as the pair of its `Lives` and the rank of its state — alive,
suspect, dead or left — and compare the pairs lexicographically: no operation
ever makes a record older, and one that changes `Lives` or `State` makes it
strictly newer (`atom_later`, `step_later`, `run_later`).

A dead record is at the top of its `Lives`, so only a higher number gets it back
to alive, and of the messages only an alive one raises the number of a dead
record. `alivesOf` is the list of alive messages an operation delivers;
`step_revives` finds the one responsible.
-/

namespace Mlist

open Mlist.Lib

/-! ## The order -/

/-- Alive, then suspect, then dead or left. -/
def StateType.rank : StateType → Nat
  | .alive => 0
  | .suspect => 1
  | .dead => 2
  | .left => 2

/-- `(Lives, rank State)`, to be compared lexicographically. -/
def NodeState.age (r : NodeState) : Lex (Nat × Nat) := toLex (r.lives, r.state.rank)

theorem NodeState.age_lt_iff {r r' : NodeState} :
    r.age < r'.age ↔ r.lives < r'.lives ∨ r.lives = r'.lives ∧ r.state.rank < r'.state.rank :=
  Prod.Lex.toLex_lt_toLex

/-- The record is what it was in `Lives` and `State`, or strictly newer. -/
def Later (r r' : NodeState) : Prop :=
  (r'.lives = r.lives ∧ r'.state = r.state) ∨ r.age < r'.age

theorem NodeState.age_eq {r r' : NodeState} (h : r'.lives = r.lives ∧ r'.state = r.state) :
    r'.age = r.age := by
  unfold NodeState.age
  rw [h.1, h.2]

theorem Later.refl (r : NodeState) : Later r r := Or.inl ⟨rfl, rfl⟩

theorem Later.trans {r₁ r₂ r₃ : NodeState} (h₁ : Later r₁ r₂) (h₂ : Later r₂ r₃) :
    Later r₁ r₃ := by
  rcases h₁ with he₁ | hlt₁
  · rcases h₂ with he₂ | hlt₂
    · exact Or.inl ⟨he₂.1.trans he₁.1, he₂.2.trans he₁.2⟩
    · rw [NodeState.age_eq he₁] at hlt₂
      exact Or.inr hlt₂
  · rcases h₂ with he₂ | hlt₂
    · rw [← NodeState.age_eq he₂] at hlt₁
      exact Or.inr hlt₁
    · exact Or.inr (lt_trans hlt₁ hlt₂)

theorem Later.age_le {r r' : NodeState} (h : Later r r') : r.age ≤ r'.age := by
  rcases h with he | hlt
  · exact le_of_eq (NodeState.age_eq he).symm
  · exact le_of_lt hlt

/-- A change of `Lives` or state makes a record strictly older than the new one. -/
theorem Later.age_lt {r r' : NodeState} (h : Later r r')
    (hne : r'.lives ≠ r.lives ∨ r'.state ≠ r.state) : r.age < r'.age := by
  rcases h with he | hlt
  · rcases hne with hl | hs
    · exact absurd he.1 hl
    · exact absurd he.2 hs
  · exact hlt

/-- A later life is later, in whatever state. -/
theorem later_of_lives_lt {r r' : NodeState} (h : r.lives < r'.lives) : Later r r' :=
  Or.inr (NodeState.age_lt_iff.mpr (Or.inl h))

/-- In the same life, alive comes before suspect and that before dead. -/
theorem later_of_rank_lt {r r' : NodeState} (hl : r.lives ≤ r'.lives)
    (hs : r.state.rank < r'.state.rank) : Later r r' := by
  rcases Nat.lt_or_eq_of_le hl with hlt | heq
  · exact later_of_lives_lt hlt
  · exact Or.inr (NodeState.age_lt_iff.mpr (Or.inr ⟨heq, hs⟩))

theorem rank_lt_of_not_deadOrLeft {r : NodeState} (h : r.deadOrLeft = false) :
    r.state.rank < 2 := by
  rcases NodeState.deadOrLeft_eq_false.mp h with hs | hs
  · rw [hs]
    decide
  · rw [hs]
    decide

theorem rank_of_deadOrLeft {r : NodeState} (h : r.deadOrLeft = true) : r.state.rank = 2 := by
  rcases NodeState.deadOrLeft_eq_true.mp h with hs | hs
  · rw [hs]
    rfl
  · rw [hs]
    rfl

/-! ## One change, one operation, a run -/

section Runs

variable {H : Type} [Encoded Msg] [Heap H (TransmitCapItem Msg)] {m m' : Memberlist H}
  {id : String} {r r' : NodeState}

omit [Encoded Msg] [Heap H (TransmitCapItem Msg)] in
/-- Writing a newer record over an older one of the same node. -/
private theorem setRecord_later (hm : Registry m) {x : String} {p : Nat}
    (hmap : m.nodeMap x = some p) {new : NodeState} (hnew : Later (m.records p) new)
    (hr : m.lookup id = some r) :
    ∃ r', (m.setRecord p new).lookup id = some r' ∧ Later r r' := by
  rw [hm.lookup_setRecord hmap]
  by_cases hx : id = x
  · rw [if_pos hx]
    rw [hx, Memberlist.lookup_of_map hmap] at hr
    exact ⟨new, rfl, Option.some.inj hr ▸ hnew⟩
  · rw [if_neg hx]
    exact ⟨r, hr, Later.refl r⟩

/-- **No change makes a record older**, or forgets it. -/
theorem atom_later {ok : Msg → Prop} (hm : Registry m) (ha : Atom ok m m')
    (hr : m.lookup id = some r) : ∃ r', m'.lookup id = some r' ∧ Later r r' := by
  cases ha with
  | quiet hq => exact ⟨r, by rw [hq.same.lookup]; exact hr, Later.refl r⟩
  | insert env a _ habs =>
    rw [hm.lookup_insertNode]
    have hne : id ≠ (Memberlist.freshRecord env a).node.id := Memberlist.ne_of_lookup hr habs
    rw [if_neg hne]
    exact ⟨r, hr, Later.refl r⟩
  | revive env a p _ hmap hnew =>
    show ∃ r', (m.setRecord p _).lookup id = some r' ∧ Later r r'
    exact setRecord_later hm hmap (later_of_lives_lt hnew) hr
  | confirm s p k _ _ _ => exact ⟨r, hr, Later.refl r⟩
  | refute msg p calls _ _ hmap hlives _ hloop =>
    show ∃ r', (m.setRecord p { m.records p with lives := calls % livesSize }).lookup id
      = some r' ∧ Later r r'
    have hgt : msg.lives < calls % livesSize := (refuteLoop_gt hloop).1
    exact setRecord_later hm hmap (later_of_lives_lt (Nat.lt_of_le_of_lt hlives hgt)) hr
  | suspect env s p _ hmap hlives _ hstate _ =>
    show ∃ r', (m.setRecord p _).lookup id = some r' ∧ Later r r'
    refine setRecord_later hm hmap (later_of_rank_lt hlives ?_) hr
    rw [hstate]
    exact Nat.zero_lt_one
  | kill env d p _ hmap hlives hdead _ =>
    show ∃ r', (m.setRecord p _).lookup id = some r' ∧ Later r r'
    refine setRecord_later hm hmap (later_of_rank_lt hlives ?_) hr
    rw [rank_of_deadOrLeft (Memberlist.deadRecord_deadOrLeft env d _)]
    exact rank_lt_of_not_deadOrLeft hdead

/-- Whatever changes, a record becomes later. -/
theorem atoms_later {ok : Msg → Prop} (hm : Registry m) (ha : Atoms ok m m')
    (hr : m.lookup id = some r) : ∃ r', m'.lookup id = some r' ∧ Later r r' := by
  have hinv : Registry m' ∧ ∃ r', m'.lookup id = some r' ∧ Later r r' := by
    refine Atoms.inv (P := fun s => Registry s ∧ ∃ r', s.lookup id = some r' ∧ Later r r')
      ?_ ha ⟨hm, r, hr, Later.refl r⟩
    intro s t hs hst
    obtain ⟨hreg, r₁, hr₁, hl₁⟩ := hs
    obtain ⟨r₂, hr₂, hl₂⟩ := atom_later hreg hst hr₁
    exact ⟨atom_registry s t hreg hst, r₂, hr₂, hl₁.trans hl₂⟩
  exact hinv.2

/-- An operation makes no record older; only `reap` forgets one. -/
theorem step_later {op : Op} (hm : Registry m) (h : step op m = some m')
    (hr : m.lookup id = some r) (hr' : m'.lookup id = some r') : Later r r' := by
  have hsame : ∀ {s : Memberlist H}, (∃ q, s.lookup id = some q ∧ Later r q) → m' = s →
      Later r r' := by
    intro s hs he
    obtain ⟨q, hq, hlater⟩ := hs
    rw [he, hq] at hr'
    exact Option.some.inj hr' ▸ hlater
  rcases step_atoms (opOk_true m op) h with ha | ⟨env, k, -, -, -, -, ha⟩ | ⟨env, -, hreap⟩
  · exact hsame (atoms_later hm ha hr) rfl
  · exact hsame (atoms_later (registry_disarm k hm) ha hr) rfl
  · rw [hreap, hm.lookup_reap, hr] at hr'
    have hkept := Option.filter_eq_some_iff.mp hr'
    rw [Option.some.inj hkept.1]
    exact Later.refl r'

/-- Over a run during which a node is known throughout, its record becomes later. -/
theorem run_later {ops : List Op} : ∀ {m m' : Memberlist H} {r r' : NodeState}, Registry m →
    Along step (fun s => (s.nodeMap id).isSome = true) ops m → run step ops m = some m' →
    m.lookup id = some r → m'.lookup id = some r' → Later r r' := by
  induction ops with
  | nil =>
    intro m m' r r' _ _ h hr hr'
    rw [← Option.some.inj h, hr] at hr'
    exact Option.some.inj hr' ▸ Later.refl r
  | cons op ops ih =>
    intro m m' r r' hm hstay h hr hr'
    obtain ⟨t, ht, h'⟩ := run_cons_some h
    have hstay' := hstay.2 t ht
    -- the record in between, which exists because the node is still in the map
    have hsome : (t.lookup id).isSome = true := by
      rw [Memberlist.lookup_isSome]
      exact hstay'.head
    obtain ⟨q, hq⟩ := Option.isSome_iff_exists.mp hsome
    exact (step_later hm ht hr hq).trans (ih (step_registry hm ht) hstay' h' hq hr')

/-! ## Coming back from the dead -/

/-- The alive messages an operation hands to `aliveNode`. -/
def alivesOf (m : Memberlist H) : Op → List Alive
  | .alive _ a _ => [a]
  | .merge remote => remote.filterMap fun er =>
      if StateType.ofCode er.2.state = some .alive then
        some { lives := er.2.lives, id := er.2.id, ip := er.2.ip, port := er.2.port,
               tags := er.2.tags }
      else none
  | .updateTags _ tags _ =>
      match m.nodeMap m.id with
      | some p => [(m.issueAlive (m.records p).node.ip (m.records p).node.port tags).1]
      | none => []
  | _ => []

omit [Encoded Msg] [Heap H (TransmitCapItem Msg)] in
/-- Writing a record that is not dead leaves a dead one alone. -/
private theorem setRecord_dead (hm : Registry m) {x : String} {p : Nat}
    (hmap : m.nodeMap x = some p) (hp : (m.records p).deadOrLeft = false) (new : NodeState)
    (hr : m.lookup id = some r) (hdead : r.deadOrLeft = true) :
    (m.setRecord p new).lookup id = some r := by
  rw [hm.lookup_setRecord hmap]
  by_cases hx : id = x
  · rw [hx, Memberlist.lookup_of_map hmap] at hr
    rw [Option.some.inj hr, hdead] at hp
    cases hp
  · rw [if_neg hx]
    exact hr

/-- A refutation, which is by a live member, leaves dead nodes dead. -/
theorem refute_dead {p lives : Nat} {x : String} (hm : Registry m) (hmap : m.nodeMap x = some p)
    (hp : (m.records p).deadOrLeft = false) (h : m.refute p lives = some m')
    (hr : m.lookup id = some r) (hdead : r.deadOrLeft = true) : m'.lookup id = some r := by
  obtain ⟨calls, -, rfl⟩ := refute_case h
  show (m.setRecord p { m.records p with lives := calls % livesSize }).lookup id = some r
  exact setRecord_dead hm hmap hp _ hr hdead

/-- A dead node is not suspected. -/
theorem suspectNode_dead {env : Env} {s : Suspect} (hm : Registry m)
    (h : m.suspectNode env s = some m') (hr : m.lookup id = some r)
    (hdead : r.deadOrLeft = true) : m'.lookup id = some r := by
  cases suspectNode_case h with
  | refuted p _ hmap _ _ hstate _ href =>
    exact refute_dead hm hmap (NodeState.deadOrLeft_of_alive hstate) href hr hdead
  | raised p hmap _ _ hstate _ =>
    show (m.setRecord p _).lookup id = some r
    exact setRecord_dead hm hmap (NodeState.deadOrLeft_of_alive hstate) _ hr hdead
  | _ => exact hr

/-- And it does not die again. -/
theorem deadNode_dead {env : Env} {d : Dead} {notify : Option Nat} (hm : Registry m)
    (h : m.deadNode env d notify = some m') (hr : m.lookup id = some r)
    (hdead : r.deadOrLeft = true) : m'.lookup id = some r := by
  cases deadNode_case h with
  | refuted p _ hmap _ hp _ _ href => exact refute_dead hm hmap hp href hr hdead
  | killed p hmap _ hp _ =>
    have hk := killed_fields env d notify p m
    rw [hm.lookup_of_records hmap hk.nodeMap hk.records, ← hm.lookup_setRecord hmap]
    exact setRecord_dead hm hmap hp _ hr hdead
  | _ => exact hr

/-- What is published does not change a record. -/
theorem lookup_alivePublish (m : Memberlist H) (post : Memberlist.AlivePost) (id : String) :
    (m.alivePublish post).lookup id = m.lookup id := by
  obtain ⟨_, _, _, he⟩ := alivePublish_case m post
  rw [he]
  rfl

/-- `aliveNode` changes the record of the node it is about, and only to a higher
number. -/
theorem aliveNode_known {env : Env} {a : Alive} {notify : Option Nat} (hm : Registry m)
    (hr : m.lookup id = some r) :
    (m.aliveNode env a notify).lookup id = some r ∨ a.id = id ∧ r.lives < a.lives := by
  unfold Memberlist.aliveNode
  split
  next =>
    show ((m.aliveLocked env a notify).1.alivePublish _).lookup id = some r ∨ _
    rw [lookup_alivePublish]
    have hcase := aliveLocked_case m env a notify
    generalize m.aliveLocked env a notify = res at hcase
    cases hcase with
    | joined habs =>
      have hne : id ≠ (Memberlist.freshRecord env a).node.id := Memberlist.ne_of_lookup hr habs
      left
      rw [hm.lookup_insertNode, if_neg hne]
      exact hr
    | stale p hmap hold => exact Or.inl hr
    | news p hmap hnew =>
      show (m.setRecord p _).lookup id = some r ∨ _
      rw [hm.lookup_setRecord hmap]
      by_cases hid : id = a.id
      · rw [hid, Memberlist.lookup_of_map hmap] at hr
        exact Or.inr ⟨hid.symm, Option.some.inj hr ▸ hnew⟩
      · rw [if_neg hid]
        exact Or.inl hr
  next => exact Or.inl hr

/-- One entry of a push/pull exchange brings a dead record up only as an alive
message with a higher number. -/
private theorem mergeOne_dead {env : Env} {e : StateToMerge} (hm : Registry m)
    (h : m.mergeOne env e = some m') (hr : m.lookup id = some r) (hdead : r.deadOrLeft = true) :
    m'.lookup id = some r ∨
      StateType.ofCode e.state = some .alive ∧ e.id = id ∧ r.lives < e.lives := by
  unfold Memberlist.mergeOne at h
  split at h
  next hs =>
    rw [← Option.some.inj h]
    rcases aliveNode_known hm hr with hsame | ⟨hid, hlt⟩
    · exact Or.inl hsame
    · exact Or.inr ⟨hs, hid, hlt⟩
  next => exact Or.inl (deadNode_dead hm h hr hdead)
  next => exact Or.inl (suspectNode_dead hm h hr hdead)
  next => exact Or.inl (suspectNode_dead hm h hr hdead)
  next => exact Or.inl (Option.some.inj h ▸ hr)

private theorem mergeState_dead {remote : List (Env × StateToMerge)} (hdead : r.deadOrLeft = true) :
    ∀ {m m' : Memberlist H}, Registry m → m.mergeState remote = some m' → m.lookup id = some r →
      m'.lookup id = some r ∨ ∃ e ∈ remote.map Prod.snd,
        StateType.ofCode e.state = some .alive ∧ e.id = id ∧ r.lives < e.lives := by
  induction remote with
  | nil =>
    intro m m' _ h hr
    exact Or.inl (Option.some.inj h ▸ hr)
  | cons er remote ih =>
    intro m m' hm h hr
    obtain ⟨t, ht, h'⟩ := run_cons_some h
    rcases mergeOne_dead hm ht hr hdead with hsame | hfound
    · have hreg : Registry t :=
        (mergeOne_atoms er.1 (stateOk_true m.id er.2) ht).inv atom_registry hm
      rcases ih hreg h' hsame with hsame' | ⟨e, he, hfound⟩
      · exact Or.inl hsame'
      · exact Or.inr ⟨e, List.mem_cons_of_mem _ he, hfound⟩
    · exact Or.inr ⟨er.2, List.mem_cons_self .., hfound⟩

/-- **Only an alive message brings a node back.** The operation that makes a dead
or left record alive delivers an alive message about it, with a higher number. -/
theorem step_revives {op : Op} (hm : Registry m) (h : step op m = some m')
    (hr : m.lookup id = some r) (hdead : r.deadOrLeft = true) :
    m'.lookup id = none ∨ m'.lookup id = some r ∨
      ∃ a ∈ alivesOf m op, a.id = id ∧ r.lives < a.lives := by
  cases op with
  | alive env a notify =>
    rw [← Option.some.inj h]
    rcases aliveNode_known hm hr with hsame | hfound
    · exact Or.inr (Or.inl hsame)
    · exact Or.inr (Or.inr ⟨a, List.mem_singleton.mpr rfl, hfound⟩)
  | suspect env s => exact Or.inr (Or.inl (suspectNode_dead hm h hr hdead))
  | dead env d notify => exact Or.inr (Or.inl (deadNode_dead hm h hr hdead))
  | timer env k =>
    right
    left
    unfold step Memberlist.fireTimer at h
    dsimp only at h
    split at h
    next =>
      rcases timeoutFn_case h with ⟨-, rfl⟩ | ⟨p, -, -, hd⟩
      · exact hr
      · exact deadNode_dead (registry_disarm k hm) hd hr hdead
    next => exact Option.some.inj h ▸ hr
  | merge remote =>
    rcases mergeState_dead hdead hm h hr with hsame | ⟨e, he, hs, hid, hlt⟩
    · exact Or.inr (Or.inl hsame)
    · -- an entry of the remote state counts as the alive message it is turned into
      obtain ⟨er, her, rfl⟩ := List.mem_map.mp he
      refine Or.inr (Or.inr ⟨_, List.mem_filterMap.mpr ⟨er, her, if_pos hs⟩, hid, hlt⟩)
  | updateTags env tags notify =>
    obtain ⟨res, hres, rfl⟩ := Option.map_eq_some_iff.mp h
    rcases updateTags_case hres with he | ⟨p, hmap, he⟩
    · rw [he]
      exact Or.inr (Or.inl hr)
    · -- the message it issues about itself is the one found
      have hm' : Registry (m.issueAlive (m.records p).node.ip (m.records p).node.port tags).2 :=
        ⟨hm.ids, hm.map, hm.count, hm.alloc⟩
      rcases aliveNode_known hm' hr with hsame | hfound
      · rw [he]
        exact Or.inr (Or.inl hsame)
      · refine Or.inr (Or.inr ⟨_, ?_, hfound⟩)
        unfold alivesOf
        rw [hmap]
        exact List.mem_singleton.mpr rfl
  | leave env notify =>
    right
    left
    obtain ⟨res, hres, rfl⟩ := Option.map_eq_some_iff.mp h
    have hm' : Registry { m with left := true } := ⟨hm.ids, hm.map, hm.count, hm.alloc⟩
    rcases leave_case hres with he | ⟨-, he⟩ | ⟨p, -, hd⟩
    · rw [he]
      exact hr
    · rw [he]
      exact hr
    · exact deadNode_dead hm' hd hr hdead
  | reap env =>
    rw [← Option.some.inj h, hm.lookup_reap, hr, Option.filter_some]
    split
    · exact Or.inr (Or.inl rfl)
    · exact Or.inl rfl
  | getMessages l o s => exact Or.inr (Or.inl (Option.some.inj h ▸ hr))
  | punish delta => exact Or.inr (Or.inl (Option.some.inj h ▸ hr))
  | shutdown => exact Or.inr (Or.inl (Option.some.inj h ▸ hr))

/-- In a run that keeps a node and brings it back from the dead, some operation
delivers an alive message about it with a higher number than it died with. -/
theorem run_revives {ops : List Op} (hdead : r.deadOrLeft = true) (halive : r'.state = .alive) :
    ∀ {m m' : Memberlist H}, Registry m →
      Along step (fun s => (s.nodeMap id).isSome = true) ops m → run step ops m = some m' →
      m.lookup id = some r → m'.lookup id = some r' →
      ∃ pre op post s a, ops = pre ++ op :: post ∧ run step pre m = some s ∧
        a ∈ alivesOf s op ∧ a.id = id ∧ r.lives < a.lives := by
  induction ops with
  | nil =>
    intro m m' _ _ h hr hr'
    rw [← Option.some.inj h, hr] at hr'
    rw [Option.some.inj hr', NodeState.deadOrLeft_of_alive halive] at hdead
    cases hdead
  | cons op ops ih =>
    intro m m' hm hstay h hr hr'
    obtain ⟨t, ht, h'⟩ := run_cons_some h
    have hstay' := hstay.2 t ht
    rcases step_revives hm ht hr hdead with hgone | hsame | ⟨a, ha, hid, hlt⟩
    · have hhere := hstay'.head
      rw [← Memberlist.lookup_isSome, hgone] at hhere
      cases hhere
    · -- still dead: the operation we look for is further on
      obtain ⟨pre, op', post, s, a, hops, hpre, hfound⟩ :=
        ih (step_registry hm ht) hstay' h' hsame hr'
      refine ⟨op :: pre, op', post, s, a, by rw [hops, List.cons_append], ?_, hfound⟩
      rw [run_cons, ht]
      exact hpre
    · exact ⟨[], op, ops, m, a, rfl, rfl, ha, hid, hlt⟩

/-- **Records only ever get newer.** From a reachable state, along any run of
operations that keeps `id` in the map, the pair `(Lives, rank State)` of its
record never decreases, and it has increased strictly if `Lives` or `State` is
not what it was — over the whole run, and so over each of its operations. A node
that was dead or left and is alive again got there by an operation that delivered
an alive message about it with more `Lives` than it was dead with. -/
theorem age_never_decreases {ops : List Op} (hm : Reachable m) (hrun : run step ops m = some m')
    (hstay : Along step (fun s => (s.nodeMap id).isSome = true) ops m)
    (hr : m.lookup id = some r) (hr' : m'.lookup id = some r') :
    r.age ≤ r'.age ∧
    (r'.lives ≠ r.lives ∨ r'.state ≠ r.state → r.age < r'.age) ∧
    (r.deadOrLeft = true → r'.state = .alive →
      ∃ pre op post s a, ops = pre ++ op :: post ∧ run step pre m = some s ∧
        a ∈ alivesOf s op ∧ a.id = id ∧ r.lives < a.lives) := by
  have hreg := reachable_registry hm
  have hlater := run_later hreg hstay hrun hr hr'
  refine ⟨hlater.age_le, hlater.age_lt, ?_⟩
  intro hdead halive
  exact run_revives hdead halive hreg hstay hrun hr hr'

end Runs

open Concrete in
/-- `"peer"` dies at 3 and is back at 4. -/
theorem age_never_decreases_revived :
    ∃ (m m' : Member) (r r' : NodeState), m.lookup "peer" = some r ∧ m'.lookup "peer" = some r' ∧
      r.state = .dead ∧ r'.state = .alive ∧ r.age < r'.age := by
  let m := state [.alive {} (aliveMsg 3) none, .dead {} ⟨3, "peer", false⟩ none] (by decide)
  have hm : Reachable m := reachable_state _ _
  have hrun : run step [.alive {} (aliveMsg 4) none] m = some (m.aliveNode {} (aliveMsg 4) none) :=
    rfl
  have hstay : Along step (fun s : Member => (s.nodeMap "peer").isSome = true)
      [.alive {} (aliveMsg 4) none] m := by
    refine ⟨rfl, ?_⟩
    intro t ht
    rw [← Option.some.inj ht]
    rfl
  refine ⟨m, m.aliveNode {} (aliveMsg 4) none, _, _, rfl, rfl, rfl, rfl, ?_⟩
  exact (age_never_decreases hm hrun hstay rfl rfl).2.1 (Or.inl (by decide))

end Mlist
