import Mlist.Member.Suspects

/-!
# Whose timer is it?

`delete(m.suspicions, id)` drops a suspicion and leaves its timer running. A timer
that outlives its suspicion is told from the current one only by what its guard
looks at: the node is there, suspect, and at the `Lives` the timer captured.
`TimerSound` is what the guard is meant to achieve — a timer that gets through it
belongs to the suspicion in the map.

It does not always achieve it. When a node is suspected, declared dead by gossip,
reaped, heard of again with its old `Lives` and suspected at the same `Lives`, the
first timer passes the guard and ends the second suspicion (`stale_timer_passes`).
That is also the only way: as long as every suspicion is raised at a time when no
earlier timer of the same node and the same `Lives` is running, `TimerSound` holds,
and the first one that is not breaks it (`timerSound_iff`).

A push/pull exchange raises several suspicions in one operation, and a timer may
go off between two of them, so the statement is about runs in which exchanges are
taken apart into their entries (`unmerge`).
-/

namespace Mlist

open Mlist.Lib

variable {H : Type} {m m' : Memberlist H} {id : String} {k : Nat}

/-- A timer that would pass its guard now belongs to the suspicion in the map. -/
def TimerSound (m : Memberlist H) : Prop :=
  ∀ k < m.numSusps, (m.suspObjs k).pending = true → m.timerGuard k = true →
    m.suspicions (m.suspObjs k).id = some k

/-- `suspectNode` would raise a suspicion. -/
def Memberlist.raises (m : Memberlist H) (s : Suspect) : Prop :=
  ∃ r, m.lookup s.id = some r ∧ r.lives ≤ s.lives ∧ r.state = .alive ∧
    m.suspicions s.id = none ∧ s.id ≠ m.id

/-- No timer of this node with these captured `Lives` is running. -/
def Memberlist.clean (m : Memberlist H) (id : String) (lives : Nat) : Prop :=
  ∀ k < m.numSusps, (m.suspObjs k).pending = true → (m.suspObjs k).id = id →
    (m.suspObjs k).lives ≠ lives

/-- A suspicion is only raised where no timer could be taken for its own. -/
def CleanRaise (m : Memberlist H) : Op → Prop
  | .suspect _ s => m.raises s → m.clean s.id s.lives
  | _ => True

/-! ## What the guard sees -/

/-- The check that a timer makes: the node is suspect, at the `Lives` it was suspected at. -/
theorem timerGuard_eq_true :
    m.timerGuard k = true ↔ ∃ r, m.lookup (m.suspObjs k).id = some r ∧ r.state = .suspect ∧
      r.lives = (m.suspObjs k).lives := by
  unfold Memberlist.timerGuard
  cases hp : m.nodeMap (m.suspObjs k).id with
  | none => simp [Memberlist.lookup_of_none hp]
  | some p => simp [Memberlist.lookup_of_map hp]

/-- In terms of suspicions: a timer passes if the suspicion in the map, its own or
another, captured the same `Lives`. -/
theorem timerGuard_iff (h : Suspects m) :
    m.timerGuard k = true ↔ ∃ j, m.suspicions (m.suspObjs k).id = some j ∧
      (m.suspObjs j).lives = (m.suspObjs k).lives := by
  rw [timerGuard_eq_true]
  refine ⟨?_, ?_⟩
  · intro hex
    obtain ⟨r, hr, hs, hl⟩ := hex
    obtain ⟨j, hj⟩ := Option.isSome_iff_exists.mp (h.record _ r hr hs)
    obtain ⟨r', hr', -, hl'⟩ := h.entry _ j hj
    rw [hr] at hr'
    obtain rfl := Option.some.inj hr'
    exact ⟨j, hj, hl'.trans hl⟩
  · intro hex
    obtain ⟨j, hj, hl⟩ := hex
    obtain ⟨r, hr, hs, hl'⟩ := h.entry _ j hj
    exact ⟨r, hr, hs, hl'.symm.trans hl⟩

/-! ## Steps that raise no suspicion -/

/-- No suspicion is raised: entries only go, timers only go off. -/
structure NoRaise (m m' : Memberlist H) : Prop where
  entries : ∀ id k, m'.suspicions id = some k → m.suspicions id = some k
  num : m'.numSusps = m.numSusps
  captured : ∀ k, (m'.suspObjs k).id = (m.suspObjs k).id ∧
    (m'.suspObjs k).lives = (m.suspObjs k).lives
  pending : ∀ k, (m'.suspObjs k).pending = true → (m.suspObjs k).pending = true

theorem NoRaise.refl (m : Memberlist H) : NoRaise m m :=
  ⟨fun _ _ h => h, rfl, fun _ => ⟨rfl, rfl⟩, fun _ h => h⟩

/-- Steps that raise no suspicion, one after the other. -/
theorem NoRaise.trans {m₁ m₂ m₃ : Memberlist H} (h₁ : NoRaise m₁ m₂) (h₂ : NoRaise m₂ m₃) :
    NoRaise m₁ m₃ := by
  refine ⟨?_, h₂.num.trans h₁.num, ?_, ?_⟩
  · intro id k hk
    exact h₁.entries id k (h₂.entries id k hk)
  · intro k
    obtain ⟨hid₁, hl₁⟩ := h₁.captured k
    obtain ⟨hid₂, hl₂⟩ := h₂.captured k
    exact ⟨hid₂.trans hid₁, hl₂.trans hl₁⟩
  · intro k hk
    exact h₁.pending k (h₂.pending k hk)

/-- A change of one suspicion object that keeps what its timer captured. -/
theorem noRaise_update {sc : Suspicion} (hid : sc.id = (m.suspObjs k).id)
    (hl : sc.lives = (m.suspObjs k).lives)
    (hp : sc.pending = true → (m.suspObjs k).pending = true) :
    NoRaise m { m with suspObjs := Function.update m.suspObjs k sc } := by
  refine ⟨fun _ _ h => h, rfl, ?_, ?_⟩
  · intro j
    by_cases hj : j = k
    · rw [hj]
      simp [hid, hl]
    · simp [Function.update_of_ne hj]
  · intro j
    by_cases hj : j = k
    · rw [hj]
      simpa using hp
    · simp [Function.update_of_ne hj]

theorem noRaise_disarm (k : Nat) (m : Memberlist H) : NoRaise m (m.disarm k) :=
  noRaise_update rfl rfl (fun h => by cases h)

/-- `TimerSound` survives where no suspicion is raised: a timer that passes now
would have passed before. -/
theorem TimerSound.noRaise (h : TimerSound m) (hs : Suspects m) (hs' : Suspects m')
    (hn : NoRaise m m') : TimerSound m' := by
  intro k hk hp hguard
  obtain ⟨j, hj, hl⟩ := (timerGuard_iff hs').mp hguard
  have hj₀ := hn.entries _ j hj
  rw [(hn.captured k).1] at hj₀ hj ⊢
  rw [(hn.captured j).2, (hn.captured k).2] at hl
  have hbefore := h k (hn.num ▸ hk) (hn.pending k hp) ((timerGuard_iff hs).mpr ⟨j, hj₀, hl⟩)
  rw [hj₀] at hbefore
  rw [hj, hbefore]

section Steps

variable [Encoded Msg] [Heap H (TransmitCapItem Msg)]

/-- A message that raises no suspicion. -/
def notSuspect : Msg → Prop
  | .suspect _ => False
  | _ => True

/-- Only a suspect message raises a suspicion. -/
theorem atom_noRaise (ha : Atom notSuspect m m') : NoRaise m m' := by
  have hdrop : ∀ x : String, ∀ id k, Function.update m.suspicions x none id = some k →
      m.suspicions id = some k := by
    intro x id k hk
    by_cases hid : id = x
    · rw [hid, Function.update_self] at hk
      cases hk
    · rw [Function.update_of_ne hid] at hk
      exact hk
  cases ha with
  | quiet hq =>
    have hs := hq.same
    refine ⟨?_, hs.numSusps, ?_, ?_⟩
    · intro id k hk
      exact hs.suspicions ▸ hk
    · intro k
      rw [hs.suspObjs]
      exact ⟨rfl, rfl⟩
    · intro k hk
      exact hs.suspObjs ▸ hk
  | insert env a _ _ => exact ⟨fun _ _ h => h, rfl, fun _ => ⟨rfl, rfl⟩, fun _ h => h⟩
  | revive env a p _ _ _ => exact ⟨hdrop a.id, rfl, fun _ => ⟨rfl, rfl⟩, fun _ h => h⟩
  | confirm s p k _ _ _ =>
    obtain ⟨hid, hl, hp⟩ := Suspicion.confirm_frame (m.suspObjs k) s.sender
    exact noRaise_update hid hl (fun h => hp ▸ h)
  | refute msg p calls _ _ _ _ _ _ =>
    exact ⟨fun _ _ h => h, rfl, fun _ => ⟨rfl, rfl⟩, fun _ h => h⟩
  | suspect env s p hok _ _ _ _ _ => cases hok
  | kill env d p _ _ _ _ _ => exact ⟨hdrop d.id, rfl, fun _ => ⟨rfl, rfl⟩, fun _ h => h⟩

theorem atoms_noRaise (ha : Atoms notSuspect m m') : NoRaise m m' :=
  Atoms.inv (P := fun s => NoRaise m s) (fun _ _ hs hst => hs.trans (atom_noRaise hst)) ha
    (NoRaise.refl m)

/-- Suspicions are raised by `suspectNode` only. -/
theorem step_noRaise {op : Op} (h : step op m = some m') (hsuspect : ∀ env s, op ≠ .suspect env s)
    (hmerge : ∀ remote, op ≠ .merge remote) : NoRaise m m' := by
  have hok : OpOk notSuspect m op := by
    cases op with
    | suspect env s => exact absurd rfl (hsuspect env s)
    | merge remote => exact absurd rfl (hmerge remote)
    | timer env k => exact fun _ _ => trivial
    | leave env notify => exact fun _ _ => trivial
    | alive env a notify => exact fun _ => trivial
    | _ => exact trivial
  rcases step_atoms hok h with ha | ⟨env, k, -, -, -, -, ha⟩ | ⟨env, -, rfl⟩
  · exact atoms_noRaise ha
  · exact (noRaise_disarm k m).trans (atoms_noRaise ha)
  · exact ⟨fun _ _ h => h, rfl, fun _ => ⟨rfl, rfl⟩, fun _ h => h⟩

/-- `suspectNode` raises no suspicion, or the one `raises` announces. -/
theorem suspectNode_raise {env : Env} {s : Suspect} (h : m.suspectNode env s = some m') :
    (¬ m.raises s ∧ NoRaise m m') ∨
    (m.raises s ∧ m'.numSusps = m.numSusps + 1 ∧
      m'.suspicions = Function.update m.suspicions s.id (some m.numSusps) ∧
      ∃ sc, m'.suspObjs = Function.update m.suspObjs m.numSusps sc ∧ sc.id = s.id ∧
        sc.lives = s.lives) := by
  -- a suspicion that is not raised has a guard that fails
  have hnot : ∀ {p : Nat}, m.nodeMap s.id = some p → (m.records p).lives ≤ s.lives →
      m.suspicions s.id = none → (m.records p).state = .alive → s.id ≠ m.id → m.raises s := by
    intro p hmap hlives hsusp hstate hself
    exact ⟨m.records p, Memberlist.lookup_of_map hmap, hlives, hstate, hsusp, hself⟩
  have hrec : ∀ {p : Nat}, m.nodeMap s.id = some p → m.raises s →
      (m.records p).lives ≤ s.lives ∧ (m.records p).state = .alive := by
    intro p hmap hr
    obtain ⟨r, hr, hl, hs, -⟩ := hr
    rw [Memberlist.records_of_lookup hr hmap]
    exact ⟨hl, hs⟩
  cases suspectNode_case h with
  | unknown habs =>
    refine Or.inl ⟨?_, NoRaise.refl m⟩
    intro hr
    obtain ⟨r, hr, -⟩ := hr
    rw [Memberlist.lookup_of_none habs] at hr
    cases hr
  | stale p hmap hold =>
    refine Or.inl ⟨?_, NoRaise.refl m⟩
    intro hr
    exact absurd (hrec hmap hr).1 (Nat.not_le.mpr hold)
  | confirmed p k hmap hlives hsusp _ =>
    obtain ⟨hid, hl, hp⟩ := Suspicion.confirm_frame (m.suspObjs k) s.sender
    have hn := noRaise_update (m := m) hid hl (fun h => hp ▸ h)
    refine Or.inl ⟨?_, hn.entries, hn.num, hn.captured, hn.pending⟩
    intro hr
    obtain ⟨r, -, -, -, hnone, -⟩ := hr
    rw [hsusp] at hnone
    cases hnone
  | heard p k hmap hlives hsusp _ =>
    obtain ⟨hid, hl, hp⟩ := Suspicion.confirm_frame (m.suspObjs k) s.sender
    refine Or.inl ⟨?_, noRaise_update hid hl (fun h => hp ▸ h)⟩
    intro hr
    obtain ⟨r, -, -, -, hnone, -⟩ := hr
    rw [hsusp] at hnone
    cases hnone
  | notAlive p hmap hlives hsusp hstate =>
    refine Or.inl ⟨?_, NoRaise.refl m⟩
    intro hr
    exact hstate (hrec hmap hr).2
  | refuted p _ hmap hlives hsusp hstate hself href =>
    obtain ⟨calls, -, rfl⟩ := refute_case href
    refine Or.inl ⟨?_, fun _ _ h => h, rfl, fun _ => ⟨rfl, rfl⟩, fun _ h => h⟩
    intro hr
    obtain ⟨r, -, -, -, -, hne⟩ := hr
    exact hne hself
  | raised p hmap hlives hsusp hstate hself =>
    exact Or.inr ⟨hnot hmap hlives hsusp hstate hself, rfl, rfl, _, rfl, rfl, rfl⟩

/-! ## Exchanges, entry by entry -/

/-- The handler call `mergeState` makes for an entry, if it makes one. -/
def mergeOp (self : String) (er : Env × StateToMerge) : Option Op :=
  match StateType.ofCode er.2.state with
  | some .alive => some (.alive er.1
      { lives := er.2.lives, id := er.2.id, ip := er.2.ip, port := er.2.port,
        tags := er.2.tags } none)
  | some .left => some (.dead er.1 { lives := er.2.lives, id := er.2.id, left := true } none)
  | some .dead => some (.suspect er.1 { lives := er.2.lives, id := er.2.id, sender := self })
  | some .suspect => some (.suspect er.1 { lives := er.2.lives, id := er.2.id, sender := self })
  | none => none

/-- An exchange as the handler calls `mergeState` makes of it. -/
def unmerge (self : String) : Op → List Op
  | .merge remote => remote.filterMap (mergeOp self)
  | op => [op]

theorem mergeOne_run (m : Memberlist H) (er : Env × StateToMerge) :
    run step (mergeOp m.id er).toList m = m.mergeOne er.1 er.2 := by
  unfold mergeOp Memberlist.mergeOne
  cases StateType.ofCode er.2.state with
  | none => rfl
  | some st => cases st <;> exact run_singleton step _ m

/-- A merge is a run of the messages its entries stand for. -/
theorem mergeState_run (remote : List (Env × StateToMerge)) : ∀ m : Memberlist H,
    run step (remote.filterMap (mergeOp m.id)) m = m.mergeState remote := by
  induction remote with
  | nil =>
    intro m
    rfl
  | cons er remote ih =>
    intro m
    have hsplit : (er :: remote).filterMap (mergeOp m.id) =
        (mergeOp m.id er).toList ++ remote.filterMap (mergeOp m.id) := by
      rw [List.filterMap_cons]
      cases mergeOp m.id er with
      | none => rfl
      | some op => rfl
    rw [hsplit, run_append, mergeOne_run]
    show _ = (m.mergeOne er.1 er.2).bind (Memberlist.mergeState remote)
    cases hone : m.mergeOne er.1 er.2 with
    | none => rfl
    | some t =>
      have ht : t.id = m.id := (mergeOne_atoms er.1 (stateOk_true m.id er.2) hone).id
      show run step (remote.filterMap (mergeOp m.id)) t = t.mergeState remote
      rw [← ht]
      exact ih t

/-- So any operation is a run of ones that are no merges. -/
theorem unmerge_run {op : Op} (m : Memberlist H) : run step (unmerge m.id op) m = step op m := by
  cases op with
  | merge remote => exact mergeState_run remote m
  | _ => exact run_singleton step _ m

/-- Taking the exchanges of a run apart does not change where it ends. -/
theorem run_unmerge (ops : List Op) : ∀ m : Memberlist H,
    run step (ops.flatMap (unmerge m.id)) m = run step ops m := by
  induction ops with
  | nil =>
    intro m
    rfl
  | cons op ops ih =>
    intro m
    rw [List.flatMap_cons, run_append, unmerge_run, run_cons]
    cases hstep : step op m with
    | none => rfl
    | some t =>
      show run step (ops.flatMap (unmerge m.id)) t = run step ops t
      rw [← step_id hstep]
      exact ih t

omit [Encoded Msg] in
theorem unmerge_no_merge {self : String} {ops : List Op} {op : Op}
    (h : op ∈ ops.flatMap (unmerge self)) (remote : List (Env × StateToMerge)) :
    op ≠ .merge remote := by
  obtain ⟨op', -, hmem⟩ := List.mem_flatMap.mp h
  intro he
  rw [he] at hmem
  cases op' with
  | merge remote' =>
    obtain ⟨er, -, her⟩ := List.mem_filterMap.mp hmem
    unfold mergeOp at her
    split at her <;> cases her
  | _ => simp [unmerge] at hmem

/-! ## The condition -/

/-- One operation: the timers are told apart afterwards exactly if a suspicion it
raised, if any, was raised clean. -/
theorem step_timerSound_iff {op : Op} (hm : Sound m) (hsound : TimerSound m)
    (hmerge : ∀ remote, op ≠ .merge remote) (h : step op m = some m') :
    TimerSound m' ↔ CleanRaise m op := by
  have hm' := step_sound hm h
  have hquiet : NoRaise m m' → TimerSound m' := hsound.noRaise hm.suspects hm'.suspects
  cases op with
  | suspect env s =>
    rcases suspectNode_raise h with ⟨hno, hn⟩ | ⟨hraises, hnum, hsusp, sc, hobjs, hid, hlives⟩
    · exact ⟨fun _ hr => absurd hr hno, fun _ => hquiet hn⟩
    · have hnew : m'.suspObjs m.numSusps = sc := by rw [hobjs, Function.update_self]
      have hold : ∀ k < m.numSusps, m'.suspObjs k = m.suspObjs k := by
        intro k hk
        rw [hobjs, Function.update_of_ne (Nat.ne_of_lt hk)]
      refine ⟨?_, ?_⟩
      · -- a timer the new suspicion could be taken for passes its guard
        intro hts _ k hk hp hkid hklives
        have hguard : m'.timerGuard k = true := by
          refine (timerGuard_iff hm'.suspects).mpr ⟨m.numSusps, ?_, ?_⟩
          · rw [hold k hk, hkid, hsusp, Function.update_self]
          · rw [hnew, hold k hk, hlives, hklives]
        have hcur := hts k (by omega) (by rw [hold k hk]; exact hp) hguard
        rw [hold k hk, hkid, hsusp, Function.update_self] at hcur
        exact absurd (Option.some.inj hcur) (Nat.ne_of_gt hk)
      · intro hclean k hk hp hguard
        by_cases hkn : k = m.numSusps
        · rw [hkn, hnew, hid, hsusp, Function.update_self]
        · have hk : k < m.numSusps := by omega
          obtain ⟨j, hj, hl⟩ := (timerGuard_iff hm'.suspects).mp hguard
          rw [hold k hk] at hp hj hl ⊢
          rw [hsusp] at hj ⊢
          by_cases hkid : (m.suspObjs k).id = s.id
          · rw [hkid, Function.update_self] at hj
            rw [← Option.some.inj hj, hnew, hlives] at hl
            exact absurd hl.symm (hclean hraises k hk hp hkid)
          · rw [Function.update_of_ne hkid] at hj ⊢
            rw [hold j (hm.suspects.owner _ j hj).2] at hl
            exact hsound k hk hp ((timerGuard_iff hm.suspects).mpr ⟨j, hj, hl⟩)
  | merge remote => exact absurd rfl (hmerge remote)
  | _ =>
    refine ⟨fun _ => trivial, fun _ => hquiet (step_noRaise h ?_ hmerge)⟩
    intro env s
    exact Op.noConfusion

/-- A suspicion that is raised returns, so its condition shows in the next state. -/
theorem cleanRaise_of_steps {op : Op} (h : ∀ t, step op m = some t → CleanRaise m op) :
    CleanRaise m op := by
  cases op with
  | suspect env s =>
    intro hraises
    have hself : s.id ≠ m.id := by
      obtain ⟨r, -, -, -, -, hself⟩ := hraises
      exact hself
    obtain ⟨t, ht⟩ := suspectNode_returns m env hself
    exact h t ht hraises
  | _ => exact trivial

/-- Over a run without merges, every timer is sound exactly if every suspicion was raised cleanly.
-/
theorem along_timerSound_iff {ops : List Op} : ∀ {m : Memberlist H}, Sound m → TimerSound m →
    (∀ op ∈ ops, ∀ remote, op ≠ .merge remote) →
    (Along step TimerSound ops m ↔ Each step CleanRaise ops m) := by
  induction ops with
  | nil =>
    intro m _ hts _
    exact ⟨fun _ => trivial, fun _ => hts⟩
  | cons op ops ih =>
    intro m hm hts hmerge
    have hhead := hmerge op (List.mem_cons_self ..)
    have htail : ∀ op' ∈ ops, ∀ remote, op' ≠ .merge remote :=
      fun op' hop' => hmerge op' (List.mem_cons_of_mem _ hop')
    refine ⟨?_, ?_⟩
    · intro halong
      refine ⟨cleanRaise_of_steps ?_, ?_⟩
      · intro t ht
        exact (step_timerSound_iff hm hts hhead ht).mp (halong.2 t ht).head
      · intro t ht
        exact (ih (step_sound hm ht) (halong.2 t ht).head htail).mp (halong.2 t ht)
    · intro heach
      refine ⟨hts, ?_⟩
      intro t ht
      have htst := (step_timerSound_iff hm hts hhead ht).mpr heach.1
      exact (ih (step_sound hm ht) htst htail).mpr (heach.2 t ht)

/-- A member that has just been built suspects nobody. -/
theorem timerSound_of_build {env : Env} {config : Config}
    (h : Memberlist.build env config = .ok m) : TimerSound m := by
  obtain ⟨addr, -, he⟩ := build_case h
  have hnone : m.numSusps = 0 := by
    rw [he]
    exact (atoms_noRaise (aliveNode_atoms env none (fun _ => Or.inl trivial))).num
  intro k hk
  rw [hnone] at hk
  exact absurd hk (Nat.not_lt_zero k)

/-- **When a timer acts for its own suspicion.** Take any run of a built member,
with the push/pull exchanges taken apart into their entries (which leads to the
same state). Every timer that would pass its guard belongs to the suspicion in
`m.suspicions`, in every state of the run, if and only if every first-time
`suspectNode` of the run finds no earlier timer of the same node with the same
captured `Lives` running. -/
theorem timerSound_iff {env : Env} {config : Config} (hb : Memberlist.build env config = .ok m)
    (ops : List Op) :
    run step (ops.flatMap (unmerge m.id)) m = run step ops m ∧
    (Along step TimerSound (ops.flatMap (unmerge m.id)) m ↔
      Each step CleanRaise (ops.flatMap (unmerge m.id)) m) := by
  refine ⟨run_unmerge ops m, ?_⟩
  refine along_timerSound_iff ?_ (timerSound_of_build hb) (fun op hop => unmerge_no_merge hop)
  exact reachable_sound ⟨env, config, m, [], hb, rfl⟩

end Steps

open Concrete in
/-- The first suspicion a member raises is raised clean. -/
theorem timerSound_iff_first_suspicion :
    ∃ m : Member, Memberlist.build {} config = .ok m ∧
      Along step TimerSound
        [.alive {} (aliveMsg 3) none, .suspect {} ⟨3, "peer", "other"⟩] m := by
  have hb : Memberlist.build {} config = .ok (state [] (by decide)) := rfl
  refine ⟨_, hb, ?_⟩
  refine (timerSound_iff hb
    [.alive {} (aliveMsg 3) none, .suspect {} ⟨3, "peer", "other"⟩]).2.mpr ⟨trivial, ?_⟩
  intro t ht
  obtain rfl := Option.some.inj ht
  refine ⟨?_, fun _ _ => trivial⟩
  intro _ k hk
  exact absurd hk (Nat.not_lt_zero k)

/-- `"peer"` is suspected at 5, declared dead by gossip, reaped, heard of again at 5
and suspected at 5. -/
def Concrete.resuspected : Concrete.Member :=
  Concrete.state [.alive {} (Concrete.aliveMsg 5) none, .suspect {} ⟨5, "peer", "other"⟩,
    .dead {} ⟨5, "peer", false⟩ none, .reap { now := 100 }, .alive {} (Concrete.aliveMsg 5) none,
    .suspect {} ⟨5, "peer", "other"⟩] (by decide)

open Concrete in
/-- The timer of the first suspicion passes its guard while `m.suspicions` holds the
second. -/
theorem stale_timer_passes :
    ∃ m : Member, Reachable m ∧ (m.suspObjs 0).pending = true ∧ (m.suspObjs 0).id = "peer" ∧
      m.timerGuard 0 = true ∧ m.suspicions "peer" = some 1 ∧ ¬ TimerSound m := by
  have hpending : (resuspected.suspObjs 0).pending = true := by decide +kernel
  have hid : (resuspected.suspObjs 0).id = "peer" := by decide +kernel
  have hguard : resuspected.timerGuard 0 = true := by decide +kernel
  have hsecond : resuspected.suspicions "peer" = some 1 := by decide +kernel
  refine ⟨resuspected, reachable_state _ _, hpending, hid, hguard, hsecond, ?_⟩
  intro hts
  have hfirst := hts 0 (by decide +kernel) hpending hguard
  rw [hid, hsecond] at hfirst
  exact absurd (Option.some.inj hfirst) (by decide)

end Mlist
