import Mlist.Member.Registry

/-!
# Suspicions and suspects

Whether a node is under suspicion is written down twice: its record says
`StateSuspect`, and `m.suspicions` holds an object with a running timer. Three
handlers change the two separately, between early returns. `Suspects` says they
never come apart: exactly the suspects have an entry, and the `Lives` its timer
captured are the ones in the record. `Armed` adds that the timer of an entry has
not gone off yet.

Together they make the timer work: when it goes off for the suspicion in the map
its guard holds, and the node is declared dead (`fireTimer_kills`). A node cannot
stay suspect with a spent timer.
-/

namespace Mlist

open Mlist.Lib

variable {H : Type} {m m' : Memberlist H} {id : String} {k : Nat} {r : NodeState}

/-- The suspicion map and the states of the records agree. -/
structure Suspects (m : Memberlist H) : Prop where
  entry : ∀ id k, m.suspicions id = some k →
    ∃ r, m.lookup id = some r ∧ r.state = .suspect ∧ (m.suspObjs k).lives = r.lives
  owner : ∀ id k, m.suspicions id = some k → (m.suspObjs k).id = id ∧ k < m.numSusps
  record : ∀ id r, m.lookup id = some r → r.state = .suspect → (m.suspicions id).isSome = true
  self : m.suspicions m.id = none

/-- The timer of a suspicion in the map is still to go off. -/
def Armed (m : Memberlist H) : Prop :=
  ∀ id k, m.suspicions id = some k → (m.suspObjs k).pending = true

namespace Suspects

/-- We never suspect ourselves. -/
theorem self_not_suspect (h : Suspects m) (hr : m.lookup m.id = some r) : r.state ≠ .suspect := by
  intro hs
  have hsome := h.record m.id r hr hs
  rw [h.self] at hsome
  cases hsome

/-- No member suspects itself. -/
theorem ne_self (h : Suspects m) (hk : m.suspicions id = some k) : id ≠ m.id := by
  intro he
  rw [he, h.self] at hk
  cases hk

/-- Node `x` gets a record that is not suspect, and is left without suspicion. -/
theorem clear (h : Suspects m) {x : String} {new : NodeState}
    (hlookup : ∀ id, m'.lookup id = if id = x then some new else m.lookup id)
    (hnew : new.state ≠ .suspect) (hid : m'.id = m.id) (hobjs : m'.suspObjs = m.suspObjs)
    (hnum : m'.numSusps = m.numSusps) (hx : m'.suspicions x = none)
    (hrest : ∀ id, id ≠ x → m'.suspicions id = m.suspicions id) : Suspects m' := by
  have hother : ∀ id, id ≠ x →
      m'.lookup id = m.lookup id ∧ m'.suspicions id = m.suspicions id := by
    intro id hne
    rw [hlookup, if_neg hne]
    exact ⟨rfl, hrest id hne⟩
  -- whoever still has a suspicion is another node
  have hne : ∀ {id k}, m'.suspicions id = some k → id ≠ x := by
    intro id k hk he
    rw [he, hx] at hk
    cases hk
  refine ⟨?_, ?_, ?_, ?_⟩
  · intro id k hk
    obtain ⟨hl, hsusp⟩ := hother id (hne hk)
    rw [hl, hobjs]
    exact h.entry id k (hsusp ▸ hk)
  · intro id k hk
    obtain ⟨-, hsusp⟩ := hother id (hne hk)
    rw [hobjs, hnum]
    exact h.owner id k (hsusp ▸ hk)
  · intro id r hr hs
    by_cases hidx : id = x
    · rw [hlookup, if_pos hidx] at hr
      rw [← Option.some.inj hr] at hs
      exact absurd hs hnew
    · obtain ⟨hl, hsusp⟩ := hother id hidx
      rw [hsusp]
      exact h.record id r (hl ▸ hr) hs
  · rw [hid]
    by_cases hself : m.id = x
    · rw [hself]
      exact hx
    · rw [(hother m.id hself).2]
      exact h.self

/-- Only what the timers captured matters of the suspicion objects. -/
theorem objs (h : Suspects m) (hid : m'.id = m.id) (hlookup : ∀ id, m'.lookup id = m.lookup id)
    (hsusp : m'.suspicions = m.suspicions) (hnum : m'.numSusps = m.numSusps)
    (hobjs : ∀ k, (m'.suspObjs k).id = (m.suspObjs k).id ∧
      (m'.suspObjs k).lives = (m.suspObjs k).lives) : Suspects m' := by
  refine ⟨?_, ?_, ?_, ?_⟩
  · intro id k hk
    rw [hlookup, (hobjs k).2]
    exact h.entry id k (hsusp ▸ hk)
  · intro id k hk
    rw [(hobjs k).1, hnum]
    exact h.owner id k (hsusp ▸ hk)
  · intro id r hr hs
    rw [hsusp]
    exact h.record id r (hlookup id ▸ hr) hs
  · rw [hsusp, hid]
    exact h.self

end Suspects

/-! ## Every change keeps them in step -/

theorem suspects_disarm (k : Nat) (h : Suspects m) : Suspects (m.disarm k) := by
  refine h.objs rfl (fun _ => rfl) rfl rfl ?_
  intro j
  unfold Memberlist.disarm
  by_cases hj : j = k
  · rw [hj]
    simp
  · simp [Function.update_of_ne hj]

theorem suspects_reap [Encoded Msg] [Heap H (TransmitCapItem Msg)] (hm : Registry m) (env : Env)
    (h : Suspects m) : Suspects (m.reap env) := by
  refine ⟨?_, h.owner, ?_, h.self⟩
  · intro id k hk
    obtain ⟨r, hr, hs, hl⟩ := h.entry id k hk
    refine ⟨r, ?_, hs, hl⟩
    -- a suspect is not dead, and so not expired
    have hkeep : Memberlist.expired env.now m.config.deadNodeExpiredTimeout r = false := by
      simp [Memberlist.expired, NodeState.deadOrLeft, hs]
    rw [hm.lookup_reap, hr, Option.filter_some, hkeep]
    rfl
  · intro id r hr hs
    rw [hm.lookup_reap] at hr
    exact h.record id r (Option.filter_eq_some_iff.mp hr).1 hs

/-- A dead node is not suspect any more. -/
theorem deadRecord_not_suspect (env : Env) (d : Dead) (r : NodeState) :
    (Memberlist.deadRecord env d r).state ≠ .suspect := by
  intro hs
  have hpresent := NodeState.deadOrLeft_eq_false.mpr (Or.inr hs)
  rw [Memberlist.deadRecord_deadOrLeft] at hpresent
  cases hpresent

/-- A suspicion is raised: the new object is the only one at its number. -/
private theorem suspects_raise (hm : Registry m) (h : Suspects m) {x : String} {p : Nat}
    (hmap : m.nodeMap x = some p) (hself : x ≠ m.id) {new : NodeState} {sc : Suspicion}
    (hs : new.state = .suspect) (hid : sc.id = x) (hlives : sc.lives = new.lives) :
    Suspects ((m.setRecord p new).addSuspicion x sc) := by
  have hlookup : ∀ id, ((m.setRecord p new).addSuspicion x sc).lookup id =
      if id = x then some new else m.lookup id := fun id => hm.lookup_setRecord hmap new id
  have hsusp : ((m.setRecord p new).addSuspicion x sc).suspicions =
      Function.update m.suspicions x (some m.numSusps) := rfl
  have hobjs : ((m.setRecord p new).addSuspicion x sc).suspObjs =
      Function.update m.suspObjs m.numSusps sc := rfl
  -- the objects there were have smaller numbers
  have hold : ∀ id j, m.suspicions id = some j → Function.update m.suspObjs m.numSusps sc j =
      m.suspObjs j := by
    intro id j hj
    exact Function.update_of_ne (Nat.ne_of_lt (h.owner id j hj).2) _ _
  refine ⟨?_, ?_, ?_, ?_⟩
  · intro id j hj
    rw [hlookup, hobjs]
    rw [hsusp] at hj
    by_cases hx : id = x
    · rw [hx, Function.update_self] at hj
      rw [if_pos hx, ← Option.some.inj hj, Function.update_self]
      exact ⟨new, rfl, hs, hlives⟩
    · rw [Function.update_of_ne hx] at hj
      rw [if_neg hx, hold id j hj]
      exact h.entry id j hj
  · intro id j hj
    rw [hobjs]
    rw [hsusp] at hj
    show _ ∧ j < m.numSusps + 1
    by_cases hx : id = x
    · rw [hx, Function.update_self] at hj
      rw [← Option.some.inj hj, Function.update_self]
      exact ⟨hid.trans hx.symm, Nat.lt_succ_self _⟩
    · rw [Function.update_of_ne hx] at hj
      rw [hold id j hj]
      obtain ⟨hown, hlt⟩ := h.owner id j hj
      exact ⟨hown, Nat.lt_succ_of_lt hlt⟩
  · intro id r hr hsr
    rw [hsusp]
    by_cases hx : id = x
    · rw [hx, Function.update_self]
      rfl
    · rw [hlookup, if_neg hx] at hr
      rw [Function.update_of_ne hx]
      exact h.record id r hr hsr
  · show Function.update m.suspicions x (some m.numSusps) m.id = none
    rw [Function.update_of_ne (Ne.symm hself)]
    exact h.self

section Atoms

variable [Encoded Msg] [Heap H (TransmitCapItem Msg)]

/-- **Suspicions and suspects stay in step.** -/
theorem atom_suspects {ok : Msg → Prop} (hm : Registry m) (h : Suspects m) (ha : Atom ok m m') :
    Suspects m' := by
  cases ha with
  | quiet hq =>
    have hs := hq.same
    exact h.objs hs.id hs.lookup hs.suspicions hs.numSusps
      (fun k => by rw [hs.suspObjs]; exact ⟨rfl, rfl⟩)
  | insert env a _ habs =>
    refine h.clear (hm.lookup_insertNode env (Memberlist.freshRecord env a))
      StateType.noConfusion rfl rfl rfl ?_ (fun _ _ => rfl)
    -- somebody we do not know is not under suspicion
    show m.suspicions a.id = none
    cases hk : m.suspicions a.id with
    | none => rfl
    | some k =>
      obtain ⟨r, hr, -⟩ := h.entry a.id k hk
      rw [Memberlist.lookup_of_none habs] at hr
      cases hr
  | revive env a p _ hmap _ =>
    exact h.clear (hm.lookup_setRecord hmap (Memberlist.revivedRecord env a (m.records p)))
      StateType.noConfusion rfl rfl rfl (Function.update_self ..)
      (fun _ hne => Function.update_of_ne hne _ _)
  | confirm s p k _ _ _ =>
    refine h.objs rfl (fun _ => rfl) rfl rfl ?_
    intro j
    by_cases hj : j = k
    · rw [hj]
      obtain ⟨hid, hl, -⟩ := Suspicion.confirm_frame (m.suspObjs k) s.sender
      simp [hid, hl]
    · simp [Function.update_of_ne hj]
  | refute msg p calls _ _ hmap _ _ _ =>
    have hnot := h.self_not_suspect (Memberlist.lookup_of_map hmap)
    exact h.clear (hm.lookup_setRecord hmap { m.records p with lives := calls % livesSize })
      hnot rfl rfl rfl h.self (fun _ _ => rfl)
  | suspect env s p _ hmap _ _ _ hself =>
    exact suspects_raise hm h hmap hself rfl rfl rfl
  | kill env d p _ hmap _ _ _ =>
    exact h.clear (hm.lookup_setRecord hmap (Memberlist.deadRecord env d (m.records p)))
      (deadRecord_not_suspect env d _) rfl rfl rfl (Function.update_self ..)
      (fun _ hne => Function.update_of_ne hne _ _)

/-- Nothing but going off disarms a timer. -/
theorem atom_armed {ok : Msg → Prop} (hs : Suspects m) (h : Armed m) (ha : Atom ok m m') :
    Armed m' := by
  -- the suspicion map only loses entries, and the objects keep their timers
  have hshrink : ∀ {x : String}, m'.suspicions = Function.update m.suspicions x none →
      m'.suspObjs = m.suspObjs → Armed m' := by
    intro x hx hobjs id k hk
    rw [hx] at hk
    rw [hobjs]
    by_cases hid : id = x
    · rw [hid, Function.update_self] at hk
      cases hk
    · rw [Function.update_of_ne hid] at hk
      exact h id k hk
  cases ha with
  | quiet hq =>
    intro id k hk
    rw [hq.same.suspObjs]
    exact h id k (hq.same.suspicions ▸ hk)
  | insert env a _ habs => exact h
  | revive env a p _ _ _ => exact hshrink rfl rfl
  | confirm s p k _ _ _ =>
    intro id j hj
    show (Function.update m.suspObjs k ((m.suspObjs k).confirm s.sender).2 j).pending = true
    by_cases hjk : j = k
    · rw [hjk, Function.update_self, (Suspicion.confirm_frame _ _).2.2]
      exact h id k (hjk ▸ hj)
    · rw [Function.update_of_ne hjk]
      exact h id j hj
  | refute msg p calls _ _ _ _ _ _ => exact h
  | suspect env s p _ _ _ _ _ _ =>
    intro id j hj
    have hj : Function.update m.suspicions s.id (some m.numSusps) id = some j := hj
    show (Function.update m.suspObjs m.numSusps _ j).pending = true
    by_cases hid : id = s.id
    · rw [hid, Function.update_self] at hj
      rw [← Option.some.inj hj, Function.update_self]
      rfl
    · rw [Function.update_of_ne hid] at hj
      rw [Function.update_of_ne (Nat.ne_of_lt (hs.owner id j hj).2)]
      exact h id j hj
  | kill env d p _ _ _ _ _ => exact hshrink rfl rfl

/-! ## Reachable states -/

/-- Everything that holds of the membership in every reachable state. -/
structure Sound (m : Memberlist H) : Prop where
  registry : Registry m
  suspects : Suspects m

theorem atom_sound {ok : Msg → Prop} (m m' : Memberlist H) (h : Sound m) (ha : Atom ok m m') :
    Sound m' :=
  ⟨atom_registry m m' h.registry ha, atom_suspects h.registry h.suspects ha⟩

theorem sound_new (config : Config) : Sound (Memberlist.new config : Memberlist H) := by
  refine ⟨registry_new config, ?_, ?_, ?_, rfl⟩
  · intro id k hk
    cases hk
  · intro id k hk
    cases hk
  · intro id r hr
    cases hr

omit [Encoded Msg] [Heap H (TransmitCapItem Msg)] in
theorem sound_disarm (m : Memberlist H) (k : Nat) (h : Sound m) : Sound (m.disarm k) :=
  ⟨registry_disarm k h.registry, suspects_disarm k h.suspects⟩

theorem sound_reap (m : Memberlist H) (env : Env) (h : Sound m) : Sound (m.reap env) :=
  ⟨h.registry.reap env, suspects_reap h.registry env h.suspects⟩

/-- Every operation keeps both invariants. -/
theorem step_sound {op : Op} (hm : Sound m) (h : step op m = some m') : Sound m' :=
  step_inv atom_sound sound_reap sound_disarm (opOk_true m op) h hm

/-- They hold in every reachable state. -/
theorem reachable_sound (h : Reachable m) : Sound m :=
  reachable_inv sound_new atom_sound sound_reap sound_disarm h

/-! ## The timer -/

omit [Encoded Msg] [Heap H (TransmitCapItem Msg)] in
/-- The suspicion in the map passes the guard of its timer. -/
theorem timerGuard_of_current (h : Suspects m) (hk : m.suspicions id = some k) :
    m.timerGuard k = true := by
  obtain ⟨r, hr, hs, hl⟩ := h.entry id k hk
  obtain ⟨p, hp, hrec⟩ := Memberlist.lookup_eq_some.mp hr
  unfold Memberlist.timerGuard
  rw [(h.owner id k hk).1, hp]
  simp [hrec, hs, hl]

/-- When the timer of the suspicion in the map goes off, the node is declared dead
and its entry is gone; nothing else happens to the suspicions. -/
theorem timeoutFn_current {env : Env} (hm : Sound m) (hk : m.suspicions id = some k)
    (h : m.timeoutFn env k = some m') :
    m'.suspicions = Function.update m.suspicions id none ∧ m'.suspObjs = m.suspObjs ∧
      ∃ r, m'.lookup id = some r ∧ r.state = .dead := by
  obtain ⟨r, hr, hs, -⟩ := hm.suspects.entry id k hk
  have hown := (hm.suspects.owner id k hk).1
  have hguard := timerGuard_of_current hm.suspects hk
  rcases timeoutFn_case h with ⟨hno, -⟩ | ⟨p, hmap, -, hd⟩
  · rw [hguard] at hno
    cases hno
  · rw [hown] at hmap
    have hrec : m.records p = r := Memberlist.records_of_lookup hr hmap
    have hid : (m.records p).node.id = id := hm.registry.map_id hmap
    have hnot : (m.records p).deadOrLeft = false := by simp [hrec, NodeState.deadOrLeft, hs]
    -- the message is made from the record itself, so it is not stale
    cases deadNode_case hd with
    | unknown habs =>
      rw [hid, hmap] at habs
      cases habs
    | stale q hq hold =>
      rw [hid, hmap] at hq
      rw [Option.some.inj hq] at hold
      exact absurd hold (Nat.lt_irrefl _)
    | already q hq hdead =>
      rw [hid, hmap] at hq
      rw [← Option.some.inj hq, hnot] at hdead
      cases hdead
    | refuted q _ _ _ _ hme _ _ => exact absurd (hid.symm.trans hme) (hm.suspects.ne_self hk)
    | killed q hq _ _ _ =>
      rw [hid, hmap] at hq
      obtain rfl := Option.some.inj hq
      have hkill := killed_fields env
        { lives := (m.records p).lives, id := (m.records p).node.id, left := false } none p m
      have hlook := hm.registry.lookup_of_records hmap hkill.nodeMap hkill.records id
      rw [if_pos rfl] at hlook
      refine ⟨?_, hkill.suspObjs, _, hlook, rfl⟩
      rw [hkill.suspicions, hid]

/-- **The timer works.** -/
theorem fireTimer_kills (hm : Sound m) (harmed : Armed m) (hk : m.suspicions id = some k)
    (env : Env) :
    ∃ m' r, m.fireTimer env k = some m' ∧ m'.lookup id = some r ∧ r.state = .dead := by
  obtain ⟨hown, hlt⟩ := hm.suspects.owner id k hk
  have hm' := sound_disarm m k hm
  have hfire : m.fireTimer env k = (m.disarm k).timeoutFn env k := by
    unfold Memberlist.fireTimer
    rw [if_pos ⟨hlt, harmed id k hk⟩]
    rfl
  obtain ⟨r, hr, -⟩ := hm.suspects.entry id k hk
  obtain ⟨p, hp, -⟩ := Memberlist.lookup_eq_some.mp hr
  have hother : (m.records p).node.id ≠ m.id := by
    rw [hm.registry.map_id hp]
    exact hm.suspects.ne_self hk
  obtain ⟨m', hd⟩ := deadNode_returns (m.disarm k) env
    (d := { lives := (m.records p).lives, id := (m.records p).node.id, left := false }) none hother
  have hret : (m.disarm k).timeoutFn env k = some m' := by
    have hid : ((m.disarm k).suspObjs k).id = id := (hm'.suspects.owner id k hk).1
    unfold Memberlist.timeoutFn
    rw [hid, show (m.disarm k).nodeMap id = some p from hp]
    show (if _ then _ else _) = some m'
    rw [if_pos (timerGuard_of_current hm'.suspects hk)]
    exact hd
  obtain ⟨-, -, r', hr', hs'⟩ := timeoutFn_current hm' hk hret
  exact ⟨m', r', hfire.trans hret, hr', hs'⟩

/-- An operation leaves the timers of the suspicions in the map armed: the one that
goes off takes its suspicion with it. -/
theorem step_armed {op : Op} (hm : Sound m) (h : step op m = some m') (harmed : Armed m) :
    Armed m' := by
  have hatoms : ∀ {s : Memberlist H}, Sound s → Armed s → Atoms (fun _ => True) s m' →
      Armed m' := by
    intro s hs hsa ha
    refine (Atoms.inv (P := fun t => Sound t ∧ Armed t) ?_ ha ⟨hs, hsa⟩).2
    intro t u ht htu
    exact ⟨atom_sound t u ht.1 htu, atom_armed ht.1.suspects ht.2 htu⟩
  rcases step_atoms (opOk_true m op) h with ha | ⟨env, k, -, -, -, hret, ha⟩ | ⟨env, -, rfl⟩
  · exact hatoms hm harmed ha
  · have hother : ∀ id j, m.suspicions id = some j → j ≠ k →
        ((m.disarm k).suspObjs j).pending = true := by
      intro id j hj hne
      show (Function.update m.suspObjs k _ j).pending = true
      rw [Function.update_of_ne hne]
      exact harmed id j hj
    by_cases hcur : ∃ x, m.suspicions x = some k
    · -- the suspicion leaves the map together with its timer
      obtain ⟨x, hx⟩ := hcur
      obtain ⟨hsusp, hobjs, -⟩ := timeoutFn_current (sound_disarm m k hm) hx hret
      intro id j hj
      rw [hsusp] at hj
      rw [hobjs]
      by_cases hid : id = x
      · rw [hid, Function.update_self] at hj
        cases hj
      · rw [Function.update_of_ne hid] at hj
        refine hother id j hj ?_
        intro hjk
        rw [hjk] at hj
        exact hid ((hm.suspects.owner id k hj).1.symm.trans (hm.suspects.owner x k hx).1)
    · refine hatoms (sound_disarm m k hm) ?_ ha
      intro id j hj
      refine hother id j hj ?_
      intro hjk
      exact hcur ⟨id, hjk ▸ hj⟩
  · exact harmed

/-- In every reachable state, a suspicion that is on record has its timer running. -/
theorem reachable_armed (h : Reachable m) : Armed m := by
  obtain ⟨env, config, m₀, ops, hb, hrun⟩ := h
  have hatom : ∀ s t : Memberlist H, Sound s ∧ Armed s → Atom (fun _ => True) s t →
      Sound t ∧ Armed t := by
    intro s t hs hst
    exact ⟨atom_sound s t hs.1 hst, atom_armed hs.1.suspects hs.2 hst⟩
  have h₀ : Sound m₀ ∧ Armed m₀ := by
    refine build_inv hatom ⟨sound_new config, ?_⟩ hb
    intro id k hk
    cases hk
  refine (run_inv (P := fun s => Sound s ∧ Armed s) ?_ h₀ hrun).2
  intro op s t hs ht
  exact ⟨step_sound hs.1 ht, step_armed hs.1 ht hs.2⟩

/-- **Exactly the suspects have a suspicion, and it works.** In every reachable
state `m.suspicions` has an entry for `id` if and only if `m.nodeMap` holds `id` as
suspect; the `Lives` the entry's timer captured are the record's; the timer has not
gone off yet; and if it goes off now its guard holds and the node is dead
afterwards. So no node is suspect with a spent timer. -/
theorem suspicion_iff_suspect (hm : Reachable m) (id : String) :
    ((m.suspicions id).isSome = true ↔ ∃ r, m.lookup id = some r ∧ r.state = .suspect) ∧
    ∀ k, m.suspicions id = some k →
      (∀ r, m.lookup id = some r → (m.suspObjs k).lives = r.lives) ∧
      (m.suspObjs k).pending = true ∧ m.timerGuard k = true ∧
      ∀ env, ∃ m' r', m.fireTimer env k = some m' ∧ m'.lookup id = some r' ∧
        r'.state = .dead := by
  have hsound := reachable_sound hm
  have harmed := reachable_armed hm
  refine ⟨?_, ?_⟩
  · refine ⟨?_, ?_⟩
    · intro hsome
      obtain ⟨k, hk⟩ := Option.isSome_iff_exists.mp hsome
      obtain ⟨r, hr, hs, -⟩ := hsound.suspects.entry id k hk
      exact ⟨r, hr, hs⟩
    · intro hex
      obtain ⟨r, hr, hs⟩ := hex
      exact hsound.suspects.record id r hr hs
  · intro k hk
    refine ⟨?_, harmed id k hk, timerGuard_of_current hsound.suspects hk,
      fireTimer_kills hsound harmed hk⟩
    intro r hr
    obtain ⟨r', hr', -, hl⟩ := hsound.suspects.entry id k hk
    rw [hr'] at hr
    rw [← Option.some.inj hr]
    exact hl

end Atoms

open Concrete in
/-- A peer under suspicion, which its timer then declares dead. -/
theorem suspicion_iff_suspect_raised :
    let m := state [.alive {} (aliveMsg 3) none, .suspect {} ⟨4, "peer", "other"⟩] (by decide)
    m.suspicions "peer" = some 0 ∧ (m.suspObjs 0).lives = 4 ∧
      ∃ m' r', m.fireTimer {} 0 = some m' ∧ m'.lookup "peer" = some r' ∧ r'.state = .dead := by
  have h := suspicion_iff_suspect (reachable_state
    [.alive {} (aliveMsg 3) none, .suspect {} ⟨4, "peer", "other"⟩] (by decide)) "peer"
  exact ⟨rfl, rfl, (h.2 0 rfl).2.2.2 {}⟩

end Mlist
