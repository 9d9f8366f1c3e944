import Mlist.Lib.Fair
import Mlist.Member.Converge
import Mlist.Member.Reap
import Mlist.Member.RoundRobin
import Mlist.Model.ProbeLoop

/-!
# Whoever does not answer is declared dead

The failure detector takes the nodes in turn, and a node that answers no probe is suspected; the
timer of the suspicion then declares it dead. Neither is a matter of one call: between two probes
of a node, and between a suspicion and its end, everything else happens.

`Reached` says how far it has got with a node: its record's `Lives` and state are these or later
ones. Both halves say that a node gets from one to the next.

* A node that is alive is suspected after a round (`suspected_within`). The measure is where the
  node stands in the cyclic order of `nextProbeNode`, which only the detector itself changes, as
  long as nobody is added to the slice and no reap shuffles it.
* A node that is suspected is declared dead when the timer of the suspicion goes off. The suspicion
  stays the one it is until then (`Moves.suspicion`), so a timer that is not left waiting for ever
  is enough (`suspect_dies`).

What can come in between is news of a later life: that is the way out for a node which is not dead
after all.
-/

namespace Mlist

open Mlist.Lib

variable {H : Type} {m m' : Memberlist H} {x : String} {k L p : Nat}

/-! ## How far it has got -/

/-- The record of `x` has come to these `Lives` and this rank, or to later ones. -/
def Memberlist.Reached (x : String) (L rank : Nat) (m : Memberlist H) : Prop :=
  ∃ r, m.lookup x = some r ∧ toLex (L, rank) ≤ r.age

theorem age_le_iff {r : NodeState} {rank : Nat} :
    toLex (L, rank) ≤ r.age ↔ L < r.lives ∨ L = r.lives ∧ rank ≤ r.state.rank :=
  Prod.Lex.toLex_le_toLex

/-- Whoever has not got to `rank` is at `Lives` `L`, in a state below it. -/
theorem Memberlist.Reached.below {rank rank' : Nat} (h : m.Reached x L rank)
    (hnot : ¬m.Reached x L rank') :
    ∃ r, m.lookup x = some r ∧ r.lives = L ∧ rank ≤ r.state.rank ∧ r.state.rank < rank' := by
  obtain ⟨r, hr, hage⟩ := h
  have hnot' : ¬(L < r.lives ∨ L = r.lives ∧ rank' ≤ r.state.rank) := fun hle =>
    hnot ⟨r, hr, age_le_iff.mpr hle⟩
  rcases age_le_iff.mp hage with hlt | ⟨heq, hrank⟩
  · exact absurd (.inl hlt) hnot'
  · exact ⟨r, hr, heq.symm, hrank, Nat.lt_of_not_le fun hle => hnot' (.inr ⟨heq, hle⟩)⟩

/-- The states and their ranks. -/
theorem StateType.rank_cases (s : StateType) :
    s.rank = 0 ∧ s = .alive ∨ s.rank = 1 ∧ s = .suspect ∨ s.rank = 2 := by
  cases s <;> decide

theorem NodeState.not_deadOrLeft_of_rank {r : NodeState} (h : r.state.rank < 2) :
    r.deadOrLeft = false := by
  cases hd : r.deadOrLeft with
  | false => rfl
  | true =>
    rw [rank_of_deadOrLeft hd] at h
    exact absurd h (Nat.lt_irrefl 2)

/-- Rank 2 is dead or left. -/
theorem Memberlist.Reached.dead (h : m.Reached x L 2) :
    ∃ r, m.lookup x = some r ∧ (r.deadOrLeft = true ∨ L < r.lives) := by
  obtain ⟨r, hr, hage⟩ := h
  refine ⟨r, hr, ?_⟩
  rcases age_le_iff.mp hage with hlt | ⟨-, hrank⟩
  · exact .inr hlt
  · cases hd : r.deadOrLeft with
    | true => exact .inl rfl
    | false => exact absurd (rank_lt_of_not_deadOrLeft hd) (Nat.not_lt.mpr hrank)

/-! ## What a step does to the member -/

section Steps

variable [Encoded Msg] [Heap H (TransmitCapItem Msg)]

/-- Some changes, or an operation. -/
def Moves (m m' : Memberlist H) : Prop :=
  Atoms (fun _ => True) m m' ∨ ∃ op, step op m = some m'

namespace Moves

/-- The invariants of a member. -/
theorem sound (hm : Sound m) (h : Moves m m') : Sound m' := by
  rcases h with ha | ⟨op, hop⟩
  · exact ha.inv atom_sound hm
  · exact step_sound hm hop

/-- Timers of suspicions are running. -/
theorem armed (hm : Sound m) (harmed : Armed m) (h : Moves m m') : Armed m' := by
  rcases h with ha | ⟨op, hop⟩
  · refine (Atoms.inv (P := fun t => Sound t ∧ Armed t) ?_ ha ⟨hm, harmed⟩).2
    intro t u ht htu
    exact ⟨atom_sound t u ht.1 htu, atom_armed ht.1.suspects ht.2 htu⟩
  · exact step_armed hm hop harmed

theorem id (h : Moves m m') : m'.id = m.id := by
  rcases h with ha | ⟨op, hop⟩
  · exact ha.id
  · exact step_id hop

/-- The records in the slice stay records of the same nodes. -/
theorem ids (hm : Sound m) (h : Moves m m') (hp : p ∈ m.nodes.toList) :
    (m'.records p).node.id = (m.records p).node.id := by
  rcases h with ha | ⟨op, hop⟩
  · exact (atoms_slides hm.registry.alloc ha).ids p hp
  · by_cases hreap : ∃ env, op = .reap env
    · obtain ⟨env, rfl⟩ := hreap
      rw [← Option.some.inj hop]
      rfl
    · exact (step_slides hm.registry.alloc (fun env he => hreap ⟨env, he⟩) hop).ids p hp

/-- Where the slice has not changed, the node is found where it was. -/
theorem map (hm : Sound m) (h : Moves m m') (hnodes : m'.nodes = m.nodes)
    (hp : m.nodeMap x = some p) : m'.nodeMap x = some p := by
  obtain ⟨hmem, hid⟩ := (hm.registry.map x p).mp hp
  refine ((h.sound hm).registry.map x p).mpr ⟨hnodes ▸ hmem, ?_⟩
  rw [h.ids hm hmem, hid]

/-- A node that is not dead stays known: only the dead are reaped. -/
theorem known (hm : Sound m) (h : Moves m m') {r : NodeState} (hr : m.lookup x = some r)
    (hlive : r.deadOrLeft = false) : ∃ q, m'.nodeMap x = some q := by
  have hatoms : ∀ {s : Memberlist H}, Sound s → s.lookup x = some r →
      Atoms (fun _ => True) s m' → ∃ q, m'.nodeMap x = some q := by
    intro s hs hlook ha
    obtain ⟨r', hr', -⟩ := atoms_later hs.registry ha hlook
    obtain ⟨q, hq, -⟩ := Memberlist.lookup_eq_some.mp hr'
    exact ⟨q, hq⟩
  rcases h with ha | ⟨op, hop⟩
  · exact hatoms hm hr ha
  · rcases step_atoms (opOk_true m op) hop with ha | ⟨env, j, -, -, -, -, ha⟩ | ⟨env, -, rfl⟩
    · exact hatoms hm hr ha
    · exact hatoms (sound_disarm m j hm) hr ha
    · obtain ⟨q, hq, hrec⟩ := Memberlist.lookup_eq_some.mp hr
      refine ⟨q, (hm.registry.reap_map env x q).mpr ⟨hq, ?_⟩⟩
      unfold Registry.expiredAt
      rw [hrec]
      exact expired_eq_false.mpr (.inl hlive)

/-- A node that is still known has come no less far. -/
theorem reached (hm : Sound m) (h : Moves m m') {rank q : Nat} (hq : m'.nodeMap x = some q)
    (hr : m.Reached x L rank) : m'.Reached x L rank := by
  obtain ⟨r, hlook, hage⟩ := hr
  rcases h with ha | ⟨op, hop⟩
  · obtain ⟨r', hr', hlater⟩ := atoms_later hm.registry ha hlook
    exact ⟨r', hr', le_trans hage hlater.age_le⟩
  · have hr' := Memberlist.lookup_of_map hq
    exact ⟨_, hr', le_trans hage (step_later hm.registry hop hlook hr').age_le⟩

end Moves

/-! ## A suspicion until its end -/

omit [Encoded Msg] [Heap H (TransmitCapItem Msg)] in
theorem reached_setRecord {r : NodeState} {rank : Nat} (hm : Registry m)
    (hp : m.nodeMap x = some p) (hage : toLex (L, rank) ≤ r.age) :
    (m.setRecord p r).Reached x L rank := by
  refine ⟨r, ?_, hage⟩
  rw [hm.lookup_setRecord hp, if_pos rfl]

/-- A change leaves the suspicion what it is, or ends it for good: by news of a later life, or by a
death at this one. -/
theorem atom_suspicion {ok : Msg → Prop} (hm : Sound m) (hk : m.suspicions x = some k)
    (hr : m.Reached x L 1) (ha : Atom ok m m') :
    m'.suspicions x = some k ∨ m'.Reached x L 2 := by
  have hlives : ∀ {q : Nat}, m.nodeMap x = some q → L ≤ (m.records q).lives := by
    intro q hq
    obtain ⟨r, hlook, hage⟩ := hr
    rw [Memberlist.records_of_lookup hlook hq]
    rcases age_le_iff.mp hage with hlt | ⟨heq, -⟩
    · exact Nat.le_of_lt hlt
    · exact Nat.le_of_eq heq
  have hother : ∀ {y : String} {v : Option Nat}, x ≠ y →
      Function.update m.suspicions y v x = some k := fun hne =>
    (Function.update_of_ne hne ..).trans hk
  cases ha with
  | quiet hq =>
    rw [hq.same.suspicions]
    exact .inl hk
  | insert env a hok habs => exact .inl hk
  | revive env a q hok hmap hnew =>
    by_cases hx : x = a.id
    · subst hx
      -- the news is of a higher number
      have hage : toLex (L, 2) ≤ (Memberlist.revivedRecord env a (m.records q)).age :=
        age_le_iff.mpr (.inl (Nat.lt_of_le_of_lt (hlives hmap) hnew))
      exact .inr (reached_setRecord (m := m) hm.registry hmap hage)
    · exact .inl (hother hx)
  | confirm s q j hmap hlives hsusp => exact .inl hk
  | refute msg q calls hok hself hmap hlives hdead hloop => exact .inl hk
  | suspect env s q hok hmap hle hsusp hstate hself =>
    -- `x` has its suspicion, so it is another node that gets one
    have hx : x ≠ s.id := by
      rintro rfl
      rw [hk] at hsusp
      cases hsusp
    exact .inl (hother hx)
  | kill env d q hok hmap hle hdead hself =>
    by_cases hx : x = d.id
    · subst hx
      -- a death at these `Lives` or later ones
      have hL : L ≤ d.lives := Nat.le_trans (hlives hmap) hle
      have hrank := rank_of_deadOrLeft (Memberlist.deadRecord_deadOrLeft env d (m.records q))
      have hage : toLex (L, 2) ≤ (Memberlist.deadRecord env d (m.records q)).age := by
        rw [age_le_iff, hrank]
        show L < d.lives ∨ L = d.lives ∧ 2 ≤ 2
        omega
      exact .inr (reached_setRecord (m := m) hm.registry hmap hage)
    · exact .inl (hother hx)

theorem atoms_suspicion {ok : Msg → Prop} (hm : Sound m) (hk : m.suspicions x = some k)
    (hr : m.Reached x L 1) (ha : Atoms ok m m') :
    m'.suspicions x = some k ∨ m'.Reached x L 2 := by
  have hkeep : ∀ {s t : Memberlist H} {rank : Nat}, Sound s → Atom ok s t → s.Reached x L rank →
      t.Reached x L rank := by
    intro s t rank hs hst hrank
    obtain ⟨r, hlook, hage⟩ := hrank
    obtain ⟨r', hr', hlater⟩ := atom_later hs.registry hst hlook
    exact ⟨r', hr', le_trans hage hlater.age_le⟩
  refine (Atoms.inv (P := fun t => Sound t ∧ t.Reached x L 1 ∧
    (t.suspicions x = some k ∨ t.Reached x L 2)) ?_ ha ⟨hm, hr, .inl hk⟩).2.2
  intro s t hs hst
  refine ⟨atom_sound s t hs.1 hst, hkeep hs.1 hst hs.2.1, ?_⟩
  rcases hs.2.2 with hcur | hdead
  · exact atom_suspicion hs.1 hcur hs.2.1 hst
  · exact .inr (hkeep hs.1 hst hdead)

/-- The suspicion stays the one it is until it has ended. -/
theorem Moves.suspicion (hm : Sound m) (h : Moves m m') (hk : m.suspicions x = some k)
    (hr : m.Reached x L 1) : m'.suspicions x = some k ∨ m'.Reached x L 2 := by
  rcases h with ha | ⟨op, hop⟩
  · exact atoms_suspicion hm hk hr ha
  · rcases step_atoms (opOk_true m op) hop with ha | ⟨env, j, -, -, -, -, ha⟩ | ⟨env, -, rfl⟩
    · exact atoms_suspicion hm hk hr ha
    · exact atoms_suspicion (sound_disarm m j hm) hk hr ha
    · exact .inl hk

/-- When its timer goes off it ends. -/
theorem fireTimer_reached {env : Env} (hm : Sound m) (harmed : Armed m)
    (hk : m.suspicions x = some k) (hr : m.Reached x L 1) (h : m.fireTimer env k = some m') :
    m'.Reached x L 2 := by
  obtain ⟨m'', r, hfire, hlook, hdead⟩ := fireTimer_kills hm harmed hk env
  obtain rfl : m'' = m' := Option.some.inj (hfire.symm.trans h)
  obtain ⟨q, hq, -⟩ := Memberlist.lookup_eq_some.mp hlook
  have hmoves : Moves m m'' := .inr ⟨.timer env k, h⟩
  obtain ⟨r', hr', hage⟩ := hmoves.reached hm hq hr
  obtain rfl : r' = r := Option.some.inj (hr'.symm.trans hlook)
  refine ⟨r', hlook, age_le_iff.mpr ?_⟩
  rcases age_le_iff.mp hage with hlt | ⟨heq, -⟩
  · exact .inl hlt
  · exact .inr ⟨heq, by rw [hdead]; decide⟩

/-! ## The detector at work -/

omit [Encoded Msg] [Heap H (TransmitCapItem Msg)] in
/-- The circle depends on the slice and the index only. -/
theorem Prober.ahead_congr {s t : Prober H} (hnodes : t.m.nodes = s.m.nodes)
    (hidx : t.probeIdx = s.probeIdx) : t.ahead = s.ahead := by
  unfold Prober.ahead Prober.origin
  rw [hnodes, hidx]

omit [Encoded Msg] [Heap H (TransmitCapItem Msg)] in
/-- A call that returns has found its index in range. -/
theorem Prober.indexable_of_nextProbeNode {s : Prober H}
    {res : Except String NodeState × Prober H} (h : s.nextProbeNode = some res) :
    s.Indexable := by
  unfold Prober.nextProbeNode at h
  split at h
  next => cases h
  next hidx =>
    unfold Prober.Indexable
    omega

omit [Encoded Msg] [Heap H (TransmitCapItem Msg)] in
/-- Whoever is passed by comes nearer. -/
theorem Prober.idxOf_passed {s t : Prober H} {front back : List Nat} {q : Nat}
    (hsplit : s.ahead = front ++ q :: back) (hahead : t.ahead = back ++ (front ++ [q]))
    (hfront : p ∉ front) (hq : q ≠ p) (hp : p ∈ s.ahead) :
    t.ahead.idxOf p + 1 ≤ s.ahead.idxOf p := by
  have hback : p ∈ back := by
    rw [hsplit] at hp
    rcases List.mem_append.mp hp with hp | hp
    · exact absurd hp hfront
    · rcases List.mem_cons.mp hp with rfl | hp
      · exact absurd rfl hq
      · exact hp
  rw [hsplit, hahead, List.idxOf_append_of_mem hback, List.idxOf_append_of_notMem hfront,
    List.idxOf_cons_ne back hq]
  omega

namespace ProbeLoop

variable {w w' : ProbeLoop H} {a : ProbeLoopAct} {r : NodeState}

/-- The health score is nobody else's concern. -/
theorem health_atoms (m : Memberlist H) (awr : Awareness) :
    Atoms (fun _ => True) m { m with awr } :=
  Atoms.quiet (.flags m awr m.shutdown m.left id)

/-- `probeNode` changes the health score, and suspects if there was no answer. -/
theorem probeNode_atoms {env : Env} {node : NodeState} {success : Bool} {events : List WaitEvent}
    (h : m.probeNode env node success events = some m') : Atoms (fun _ => True) m m' := by
  unfold Memberlist.probeNode at h
  split at h
  next =>
    cases h
    exact health_atoms m _
  next =>
    dsimp only at h
    split at h
    next =>
      cases h
      exact health_atoms m _
    next => exact (health_atoms m _).trans (suspectNode_atoms env trivial h)

/-- Every step moves the member by some changes or by an operation. -/
theorem act_moves (h : act a w = some w') : Moves w.m w'.m := by
  cases a with
  | next =>
    simp only [act] at h
    split at h
    next => cases h
    next =>
      obtain ⟨res, hres, rfl⟩ := Option.map_eq_some_iff.mp h
      show Moves w.m res.2.m
      rw [(nextProbeNode_frame hres).1]
      exact .inl .refl
  | probed env success events =>
    simp only [act] at h
    split at h
    next => cases h
    next node hnode =>
      obtain ⟨m', hm', rfl⟩ := Option.map_eq_some_iff.mp h
      exact .inl (probeNode_atoms hm')
  | timer env k =>
    simp only [act] at h
    split at h
    next =>
      obtain ⟨m', hm', rfl⟩ := Option.map_eq_some_iff.mp h
      exact .inr ⟨_, hm'⟩
    next => cases h
  | op op =>
    simp only [act] at h
    split at h
    next => cases h
    next =>
      obtain ⟨m', hm', rfl⟩ := Option.map_eq_some_iff.mp h
      exact .inr ⟨_, hm'⟩

/-- The member is sound and the timers of its suspicions are running. -/
structure Ok (w : ProbeLoop H) : Prop where
  sound : Sound w.m
  armed : Armed w.m

theorem act_ok (a : ProbeLoopAct) (w w' : ProbeLoop H) (hw : Ok w) (h : act a w = some w') :
    Ok w' :=
  ⟨(act_moves h).sound hw.sound, (act_moves h).armed hw.sound hw.armed⟩

theorem reachable_ok (h : Reachable w) : Ok w := by
  obtain ⟨env, config, m₀, acts, hbuild, hrun⟩ := h
  have hm₀ : Mlist.Reachable m₀ := ⟨env, config, m₀, [], hbuild, rfl⟩
  exact run_inv act_ok ⟨reachable_sound hm₀, reachable_armed hm₀⟩ hrun

/-! ### A round -/

/-- No probe of `x` that ends here has been answered. -/
def Unanswered (x : String) (w : ProbeLoop H) : ProbeLoopAct → Prop
  | .probed _ success events => ∀ node, w.probing = some node → node.node.id = x →
      success = false ∧ (probeWait events ⟨false, 0, 0⟩).1 = false
  | _ => True

/-- Another node, the record of which is at `p`, is alive at `Lives` `L`. -/
structure Due (x : String) (L p : Nat) (w : ProbeLoop H) : Prop where
  ok : Ok w
  other : x ≠ w.m.id
  map : w.m.nodeMap x = some p
  alive : (w.m.records p).state = .alive
  lives : (w.m.records p).lives = L

/-- It has been suspected, or there is something later. -/
structure Accused (x : String) (L p : Nat) (w : ProbeLoop H) : Prop where
  ok : Ok w
  map : w.m.nodeMap x = some p
  reached : w.m.Reached x L 1

/-- How many steps `probe` has to take until it has probed the node. A clone that was made before
the node came to `Lives` `L` does not count. -/
def turnsLeft (x : String) (L p : Nat) (w : ProbeLoop H) : Nat :=
  match w.probing with
  | none => 2 * w.prober.ahead.idxOf p + 2
  | some node =>
    if node.node.id = x ∧ node.lives = L then 1 else 2 * w.prober.ahead.idxOf p + 3

theorem Accused.act (hw : Accused x L p w) (hnodes : w'.m.nodes = w.m.nodes)
    (h : act a w = some w') : Accused x L p w' := by
  have hmap := (act_moves h).map hw.ok.sound hnodes hw.map
  exact ⟨act_ok a w w' hw.ok h, hmap, (act_moves h).reached hw.ok.sound hmap hw.reached⟩

namespace Due

omit [Encoded Msg] [Heap H (TransmitCapItem Msg)] in
theorem not_reached (hw : Due x L p w) : ¬w.m.Reached x L 1 := by
  rintro ⟨r, hr, hage⟩
  obtain rfl := Memberlist.records_of_lookup hr hw.map
  rw [age_le_iff, hw.lives, hw.alive] at hage
  rcases hage with hlt | ⟨-, hrank⟩
  · exact Nat.lt_irrefl L hlt
  · exact absurd hrank (by decide)

omit [Encoded Msg] [Heap H (TransmitCapItem Msg)] in
/-- The detector will not pass it over. -/
theorem candidate (hw : Due x L p w) : w.m.Candidate p := by
  refine ⟨?_, ?_⟩
  · rw [hw.ok.sound.registry.map_id hw.map]
    exact hw.other
  · refine NodeState.not_deadOrLeft_of_rank ?_
    rw [hw.alive]
    decide

omit [Encoded Msg] [Heap H (TransmitCapItem Msg)] in
theorem mem_ahead (hw : Due x L p w) : p ∈ w.prober.ahead :=
  List.mem_rotate.mpr ((hw.ok.sound.registry.map x p).mp hw.map).1

/-- One step: the node is suspected, or it is still alive at these `Lives`. -/
theorem act (hw : Due x L p w) (hnodes : w'.m.nodes = w.m.nodes) (h : act a w = some w') :
    Accused x L p w' ∨ Due x L p w' := by
  have hmoves := act_moves h
  have hmap := hmoves.map hw.ok.sound hnodes hw.map
  have hok := act_ok a w w' hw.ok h
  have hstart : w.m.Reached x L 0 :=
    ⟨_, Memberlist.lookup_of_map hw.map, age_le_iff.mpr (.inr ⟨hw.lives.symm, Nat.zero_le _⟩)⟩
  by_cases hreached : w'.m.Reached x L 1
  · exact .inl ⟨hok, hmap, hreached⟩
  · obtain ⟨r, hr, hlives, -, hrank⟩ := (hmoves.reached hw.ok.sound hmap hstart).below hreached
    obtain rfl := Memberlist.records_of_lookup hr hmap
    refine .inr ⟨hok, hmoves.id ▸ hw.other, hmap, ?_, hlives⟩
    rcases (w'.m.records p).state.rank_cases with ⟨-, hs⟩ | ⟨hone, -⟩ | htwo
    · exact hs
    · omega
    · omega

/-- A probe of it that is not answered ends in a suspicion. -/
theorem probeNode_suspects {env : Env} {node : NodeState} {success : Bool}
    {events : List WaitEvent} (hw : Due x L p w) (hid : node.node.id = x) (hlives : node.lives = L)
    (hsuccess : success = false) (hwait : (probeWait events ⟨false, 0, 0⟩).1 = false)
    (h : w.m.probeNode env node success events = some m') : m'.Reached x L 1 := by
  unfold Memberlist.probeNode at h
  rw [hsuccess, if_neg Bool.false_ne_true] at h
  dsimp only at h
  rw [hwait, if_neg Bool.false_ne_true] at h
  generalize w.m.awr.punish _ = awr at h
  have hsound : Sound { w.m with awr } := (health_atoms w.m awr).inv atom_sound hw.ok.sound
  obtain ⟨m₁, r₁, hm₁, hr₁, hview⟩ := suspectNode_hears (m := { w.m with awr })
    (s := { lives := node.lives, id := node.node.id, sender := w.m.id }) env hsound hw.other
    (Memberlist.lookup_of_map hw.map) hid
  obtain rfl : m₁ = m' := Option.some.inj (hm₁.symm.trans h)
  have hheard : (w.m.records p).view.hear (.suspect node.lives) = ⟨L, .suspect⟩ := by
    unfold NodeState.view View.hear
    rw [hw.alive, hw.lives, hlives]
    exact if_pos ⟨Nat.le_refl L, rfl⟩
  have hview' : r₁.view = ⟨L, .suspect⟩ := hview.trans hheard
  have hlives₁ : r₁.lives = L := congrArg View.lives hview'
  have hstate : r₁.state.standing = .suspect := congrArg View.standing hview'
  refine ⟨r₁, hr₁, age_le_iff.mpr (.inr ⟨hlives₁.symm, ?_⟩)⟩
  cases hs : r₁.state with
  | alive =>
    rw [hs] at hstate
    cases hstate
  | _ => decide

omit [Encoded Msg] [Heap H (TransmitCapItem Msg)] in
/-- Where the node is taken the probe of it is next, and where another one is taken it comes
nearer. -/
theorem next_turnsLeft (hw : Due x L p w) (hsize : w.m.nodes.size < 2 ^ 63)
    (hnone : w.probing = none) {res : Except String NodeState × Prober H}
    (hres : w.prober.nextProbeNode = some res) :
    turnsLeft x L p { prober := res.2, probing := res.1.toOption } + 1 ≤ turnsLeft x L p w := by
  obtain ⟨res', hres', hturn⟩ :=
    nextProbeNode_turn w.prober (Prober.indexable_of_nextProbeNode hres) hsize
  obtain rfl : res' = res := Option.some.inj (hres'.symm.trans hres)
  have hbefore : turnsLeft x L p w = 2 * w.prober.ahead.idxOf p + 2 := by
    unfold turnsLeft
    rw [hnone]
  rw [hbefore]
  cases hturn with
  | nobody t hall => exact absurd hw.candidate (hall p hw.mem_ahead)
  | took t front q back wrapAround hsplit hfront hq hm hidx hcalls hahead =>
    by_cases hqp : q = p
    · subst hqp
      have hgood : turnsLeft x L q ⟨t, some (w.m.records q)⟩ = 1 :=
        if_pos ⟨hw.ok.sound.registry.map_id hw.map, hw.lives⟩
      show turnsLeft x L q ⟨t, some (w.m.records q)⟩ + 1 ≤ _
      rw [hgood]
      omega
    · have hless := Prober.idxOf_passed hsplit hahead
        (fun hmem => hfront p hmem hw.candidate) hqp hw.mem_ahead
      have hle : turnsLeft x L p ⟨t, some (w.m.records q)⟩ ≤ 2 * t.ahead.idxOf p + 3 := by
        unfold turnsLeft
        dsimp only
        split <;> omega
      show turnsLeft x L p ⟨t, some (w.m.records q)⟩ + 1 ≤ _
      omega

/-- A probe that leaves the node alive was of another one, or of an earlier life. -/
theorem probed_turnsLeft {env : Env} {node : NodeState} {success : Bool} {events : List WaitEvent}
    (hw : Due x L p w) (hnode : w.probing = some node)
    (hu : Unanswered x w (.probed env success events))
    (hm' : w.m.probeNode env node success events = some m') (hnodes : m'.nodes = w.m.nodes)
    (hnot : ¬m'.Reached x L 1) :
    turnsLeft x L p { w.setMember m' with probing := none } + 1 ≤ turnsLeft x L p w := by
  have hafter : turnsLeft x L p { w.setMember m' with probing := none } =
      2 * w.prober.ahead.idxOf p + 2 := by
    show 2 * (w.setMember m').prober.ahead.idxOf p + 2 = _
    rw [Prober.ahead_congr (s := w.prober) (t := (w.setMember m').prober) hnodes rfl]
  have hbefore : turnsLeft x L p w = 2 * w.prober.ahead.idxOf p + 3 := by
    unfold turnsLeft
    rw [hnode]
    refine if_neg fun hgood => ?_
    obtain ⟨hsuccess, hwait⟩ := hu node hnode hgood.1
    exact hnot (hw.probeNode_suspects hgood.1 hgood.2 hsuccess hwait hm')
  rw [hafter, hbefore]

/-- One step of `probe` is one step less to go, and no other step takes any back. -/
theorem act_turnsLeft (hw : Due x L p w) (hsize : w.m.nodes.size < 2 ^ 63)
    (hnodes : w'.m.nodes = w.m.nodes) (hu : Unanswered x w a) (h : ProbeLoop.act a w = some w') :
    Accused x L p w' ∨ Due x L p w' ∧
      turnsLeft x L p w' + (if a.proc = .probe then 1 else 0) ≤ turnsLeft x L p w := by
  rcases hw.act hnodes h with haccused | hdue
  · exact .inl haccused
  refine .inr ⟨hdue, ?_⟩
  -- what does not concern `probe` leaves the measure alone
  have hsame : w'.probing = w.probing → w'.prober.probeIdx = w.prober.probeIdx →
      turnsLeft x L p w' = turnsLeft x L p w := by
    intro hprobing hidx
    unfold turnsLeft
    rw [hprobing, Prober.ahead_congr hnodes hidx]
  cases a with
  | next =>
    simp only [ProbeLoop.act] at h
    split at h
    next => cases h
    next hnone =>
      obtain ⟨res, hres, rfl⟩ := Option.map_eq_some_iff.mp h
      exact hw.next_turnsLeft hsize hnone hres
  | probed env success events =>
    simp only [ProbeLoop.act] at h
    split at h
    next => cases h
    next node hnode =>
      obtain ⟨m', hm', rfl⟩ := Option.map_eq_some_iff.mp h
      exact hw.probed_turnsLeft hnode hu hm' hnodes hdue.not_reached
  | timer env k =>
    simp only [ProbeLoop.act] at h
    split at h
    next =>
      obtain ⟨m', hm', rfl⟩ := Option.map_eq_some_iff.mp h
      exact Nat.le_of_eq (hsame rfl rfl)
    next => cases h
  | op op =>
    simp only [ProbeLoop.act] at h
    split at h
    next => cases h
    next =>
      obtain ⟨m', hm', rfl⟩ := Option.map_eq_some_iff.mp h
      exact Nat.le_of_eq (hsame rfl rfl)

end Due

omit [Encoded Msg] [Heap H (TransmitCapItem Msg)] in
theorem turnsLeft_pos (x : String) (L p : Nat) (w : ProbeLoop H) : 0 < turnsLeft x L p w := by
  unfold turnsLeft
  split
  next => omega
  next => split <;> omega

omit [Encoded Msg] [Heap H (TransmitCapItem Msg)] in
/-- Nobody is further away than once round. -/
theorem Due.turnsLeft_le (hw : Due x L p w) : turnsLeft x L p w ≤ 2 * w.m.nodes.size + 1 := by
  have hlt : w.prober.ahead.idxOf p < w.m.nodes.size := by
    have hidx := List.idxOf_lt_length_of_mem hw.mem_ahead
    unfold Prober.ahead at hidx ⊢
    rwa [List.length_rotate, Array.length_toList] at hidx
  unfold turnsLeft
  split
  next => omega
  next => split <;> omega

/-- **A node that does not answer is suspected after a round.** If it is alive to begin with, the
slice of nodes stays as it is and no probe of the node is answered, then `2 * n + 1` steps of
`probe`, for `n` nodes, are enough, whatever else happens between them. -/
theorem suspected_within (hw : Due x L p w) (hsize : w.m.nodes.size < 2 ^ 63)
    {acts : List ProbeLoopAct} (hrun : run act acts w = some w')
    (hstay : Along act (fun v => v.m.nodes = w.m.nodes) acts w)
    (hsilent : Each act (Unanswered x) acts w)
    (hround : 2 * w.m.nodes.size + 1 ≤ acts.countP fun a => a.proc = .probe) :
    Accused x L p w' := by
  refine (run_countdown (I := fun v => v.m.nodes = w.m.nodes) (C := Unanswered x)
    (P := fun v => Due x L p v ∧ v.m.nodes = w.m.nodes)
    (Q := fun v => Accused x L p v ∧ v.m.nodes = w.m.nodes)
    (fun a => a.proc = .probe) (turnsLeft x L p) (fun v _ => turnsLeft_pos x L p v) ?_ ?_
    ⟨hw, rfl⟩ hstay hsilent hrun (Nat.le_trans hw.turnsLeft_le hround)).1
  · intro a v v' hv hnodes h
    exact ⟨hv.1.act (hnodes.trans hv.2.symm) h, hnodes⟩
  · intro a v v' hv hnodes hu h
    rcases hv.1.act_turnsLeft (hv.2 ▸ hsize) (hnodes.trans hv.2.symm) hu h with hacc | ⟨hdue, hle⟩
    · exact .inl ⟨hacc, hnodes⟩
    · refine .inr ⟨⟨hdue, hnodes⟩, ?_⟩
      simpa only [decide_eq_true_eq] using hle

/-! ### The end of a suspicion -/

/-- A running timer can go off. -/
theorem timer_enabled (hw : Ok w) (hk : w.m.suspicions x = some k) :
    Enabled act ProbeLoopAct.proc (.timer k) w := by
  refine ⟨.timer {} k, rfl, ?_⟩
  obtain ⟨m', -, hfire, -⟩ := fireTimer_kills hw.sound hw.armed hk {}
  have hguard : k < w.m.numSusps ∧ (w.m.suspObjs k).pending :=
    ⟨(hw.sound.suspects.owner x k hk).2, hw.armed x k hk⟩
  simp only [act]
  rw [if_pos hguard]
  show ((w.m.fireTimer {} k).map w.setMember).isSome = true
  rw [hfire]
  rfl

/-- **A suspicion ends.** From a moment when a node is suspected, in every execution in which no
timer is left waiting for ever: the node is declared dead, or there is news of a later life. -/
theorem suspect_dies {e : Execution (act (H := H))} (hok : Ok (e.state 0))
    (hr : (e.state 0).m.Reached x L 1) (hfair : ∀ k, e.Fair ProbeLoopAct.proc (.timer k)) :
    ∃ k, (e.state k).m.Reached x L 2 := by
  by_contra hnever
  have hnot : ∀ k, ¬(e.state k).m.Reached x L 2 := fun k h => hnever ⟨k, h⟩
  -- it is suspected and no more, so there is a suspicion
  obtain ⟨r, hlook, -, hlo, hhi⟩ := hr.below (hnot 0)
  obtain ⟨j, hj⟩ : ∃ j, (e.state 0).m.suspicions x = some j := by
    rcases r.state.rank_cases with ⟨hzero, -⟩ | ⟨-, hs⟩ | htwo
    · omega
    · exact Option.isSome_iff_exists.mp (hok.sound.suspects.record x r hlook hs)
    · omega
  -- which it keeps
  have hkeep : ∀ k, Ok (e.state k) ∧ (e.state k).m.Reached x L 1 ∧
      (e.state k).m.suspicions x = some j := by
    intro k
    induction k with
    | zero => exact ⟨hok, hr, hj⟩
    | succ k ih =>
      obtain ⟨hok, hr, hj⟩ := ih
      rcases e.stays_or_steps k with hstay | ⟨a, -, hnext⟩
      · rw [hstay]
        exact ⟨hok, hr, hj⟩
      · have hmoves := act_moves hnext
        obtain ⟨r, hlook, -, -, hhi⟩ := hr.below (hnot k)
        obtain ⟨q, hq⟩ := hmoves.known hok.sound hlook (NodeState.not_deadOrLeft_of_rank hhi)
        refine ⟨act_ok a _ _ hok hnext, hmoves.reached hok.sound hq hr, ?_⟩
        exact (hmoves.suspicion hok.sound hj hr).resolve_right (hnot (k + 1))
  -- so its timer is running all the time
  obtain ⟨k, -, hdead⟩ := e.ensures (n := 0) (hfair j)
    (I := fun w => Ok w ∧ w.m.Reached x L 1 ∧ w.m.suspicions x = some j)
    (Q := fun w => w.m.Reached x L 2) (fun w hw _ => timer_enabled hw.1 hw.2.2)
    (fun a w w' hw _ h hproc => by
      obtain ⟨hok, hr, hj⟩ := hw
      cases a with
      | timer env k =>
        obtain rfl : k = j := ProbeProc.timer.inj hproc
        simp only [act] at h
        split at h
        next =>
          obtain ⟨m', hm', rfl⟩ := Option.map_eq_some_iff.mp h
          exact fireTimer_reached hok.sound hok.armed hj hr hm'
        next => cases h
      | _ => cases hproc)
    (fun k _ => hkeep k)
  exact hnot k hdead

/-- **Whoever does not answer is declared dead.** In any state that a member can be in, take
another node that it knows. Let a round of the failure detector pass in which no
probe of the node is answered and the slice of nodes stays as it is. Then, in every continuation in
which no timer is left waiting for ever, the node comes to be dead or to have left, unless there is
news of a later life. -/
theorem silent_dies (h : Reachable w) (hx : x ≠ w.m.id) (hr : w.m.lookup x = some r)
    (hsize : w.m.nodes.size < 2 ^ 63) {acts : List ProbeLoopAct} (hrun : run act acts w = some w')
    (hstay : Along act (fun v => v.m.nodes = w.m.nodes) acts w)
    (hsilent : Each act (Unanswered x) acts w)
    (hround : 2 * w.m.nodes.size + 1 ≤ acts.countP fun a => a.proc = .probe)
    {e : Execution (act (H := H))} (hstart : e.state 0 = w')
    (hfair : ∀ k, e.Fair ProbeLoopAct.proc (.timer k)) :
    ∃ k r', (e.state k).m.lookup x = some r' ∧ (r'.deadOrLeft = true ∨ r.lives < r'.lives) := by
  have hok := reachable_ok h
  obtain ⟨p, hp, rfl⟩ := Memberlist.lookup_eq_some.mp hr
  have haccused : Accused x (w.m.records p).lives p w' := by
    by_cases halive : (w.m.records p).state = .alive
    · exact suspected_within ⟨hok, hx, hp, halive, rfl⟩ hsize hrun hstay hsilent hround
    · -- it is suspected already
      have hone : 1 ≤ (w.m.records p).state.rank := by
        rcases (w.m.records p).state.rank_cases with ⟨-, hs⟩ | ⟨hone, -⟩ | htwo
        · exact absurd hs halive
        · omega
        · omega
      have hw : Accused x (w.m.records p).lives p w :=
        ⟨hok, hp, _, hr, age_le_iff.mpr (.inr ⟨rfl, hone⟩)⟩
      refine (run_inv_along (P := fun v => Accused x (w.m.records p).lives p v ∧
        v.m.nodes = w.m.nodes) ?_ ⟨hw, rfl⟩ hstay hrun).1
      intro a v v' hv hnodes hact
      exact ⟨hv.1.act (hnodes.trans hv.2.symm) hact, hnodes⟩
  subst hstart
  obtain ⟨k, hk⟩ := suspect_dies haccused.ok haccused.reached hfair
  obtain ⟨r', hr', hend⟩ := hk.dead
  exact ⟨k, r', hr', hend⟩

end ProbeLoop

end Steps

namespace Concrete

/-- A member hears of `"peer"`. -/
def meetsPeer : List ProbeLoopAct := [.op (.alive {} (aliveMsg 1) none)]

theorem meetsPeer_isSome :
    (run ProbeLoop.act meetsPeer (ProbeLoop.start (built "me" me_ne))).isSome = true := by
  decide +kernel

/-- The detector at work in a cluster of two. -/
def peerMet : ProbeLoop (List (TransmitCapItem Msg)) :=
  (run ProbeLoop.act meetsPeer (ProbeLoop.start (built "me" me_ne))).get meetsPeer_isSome

/-- Two probes that nobody answers, and the next one begins. -/
def probesInVain : List ProbeLoopAct :=
  [.next, .probed {} false [], .next, .probed {} false [], .next]

theorem probesInVain_isSome : (run ProbeLoop.act probesInVain peerMet).isSome = true := by
  decide +kernel

/-- None of them is answered, whoever it is of. -/
theorem probesInVain_unanswered :
    Each ProbeLoop.act (ProbeLoop.Unanswered "peer") probesInVain peerMet := by
  refine each_of_forall fun a ha w => ?_
  cases a with
  | probed env success events =>
    obtain ⟨rfl, rfl⟩ : success = false ∧ events = [] := by
      simp only [probesInVain, List.mem_cons, ProbeLoopAct.probed.injEq, List.not_mem_nil,
        or_false, reduceCtorEq, false_or] at ha
      rcases ha with ⟨-, hs, he⟩ | ⟨-, hs, he⟩
      · exact ⟨hs, he⟩
      · exact ⟨hs, he⟩
    exact fun _ _ _ => ⟨rfl, rfl⟩
  | _ => exact trivial

/-- Where these probes have led. -/
def peerSuspected : ProbeLoop (List (TransmitCapItem Msg)) :=
  (run ProbeLoop.act probesInVain peerMet).get probesInVain_isSome

theorem peerTimer_isSome : (run ProbeLoop.act [.timer {} 0] peerSuspected).isSome = true := by
  decide +kernel

/-- The timer has gone off. -/
def peerDead : ProbeLoop (List (TransmitCapItem Msg)) :=
  (run ProbeLoop.act [.timer {} 0] peerSuspected).get peerTimer_isSome

theorem run_peerTimer : run ProbeLoop.act [.timer {} 0] peerSuspected = some peerDead :=
  (Option.some_get peerTimer_isSome).symm

/-- No other timer is running. -/
theorem peerDead_timers (k : Nat) :
    ¬Enabled ProbeLoop.act ProbeLoopAct.proc (.timer k) peerDead := by
  rintro ⟨a, hproc, hsome⟩
  cases a with
  | timer env j =>
    have hnum : peerDead.m.numSusps = 1 := by decide +kernel
    have hoff : (peerDead.m.suspObjs 0).pending = false := by decide +kernel
    have hguard : ¬(j < peerDead.m.numSusps ∧ (peerDead.m.suspObjs j).pending = true) := by
      rintro ⟨hlt, hpending⟩
      obtain rfl : j = 0 := by omega
      rw [hoff] at hpending
      cases hpending
    simp only [ProbeLoop.act] at hsome
    rw [if_neg hguard] at hsome
    cases hsome
  | _ => cases hproc

end Concrete

open scoped Concrete in
theorem silent_dies_peer : ∃ k r,
    ((Execution.ofRun Concrete.run_peerTimer).state k).m.lookup "peer" = some r ∧
      (r.deadOrLeft = true ∨ 1 < r.lives) := by
  have hreach : Concrete.peerMet.Reachable :=
    ⟨{}, _, _, _, Concrete.build_built "me" Concrete.me_ne,
      (Option.some_get Concrete.meetsPeer_isSome).symm⟩
  obtain ⟨r, hr⟩ : ∃ r, Concrete.peerMet.m.lookup "peer" = some r :=
    Option.isSome_iff_exists.mp (by decide +kernel)
  have hlives : (Concrete.peerMet.m.lookup "peer").map NodeState.lives = some 1 := by
    decide +kernel
  rw [hr] at hlives
  have hdies := ProbeLoop.silent_dies hreach (by decide +kernel) hr (by decide +kernel)
    (Option.some_get Concrete.probesInVain_isSome).symm (by decide +kernel)
    Concrete.probesInVain_unanswered (by decide +kernel)
    (e := Execution.ofRun Concrete.run_peerTimer) rfl
    fun k => Execution.ofRun_fair _ (Concrete.peerDead_timers k)
  rwa [Option.some.inj hlives] at hdies

end Mlist
