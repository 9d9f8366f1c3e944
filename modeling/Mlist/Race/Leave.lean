import Mlist.Race.Sys

/-!
# `Leave` among other calls

`Leave` sets the flag, looks its own record up, reads its `Lives`, and hands `deadNode`
a message with them and `Left = true`. When it has returned the record should say left,
and that message should have gone into the broadcast queue (`Departed`).

Three windows are open while it works.

* Between the reading and `deadNode`, a suspicion of ourselves is refuted —
  `suspectNode` does not ask `hasLeft`, as `deadNode` does — and the refutation raises
  `Lives` past what was read: the message is too old (`leave_outrun`).
* Between the flag and `deadNode`, somebody else's dead message is no longer refuted and
  wins: the record says dead, not left, and our message finds it so.
* An `aliveNode` about ourselves that tested `hasLeft` before the flag was set takes the
  lock after the reading, or after everything: the record is alive again.

`Unharmed` says that none of this happens, `LeavePc.Inv` is what then holds at each
place `Leave` can be at, and `leave_departs` is the result.
-/

namespace Mlist

open Mlist.Lib

variable {H : Type} {m m' : Memberlist H} {r : NodeState}

/-! ## The invariant -/

/-- The record says left, and we have told. -/
def Departed (m : Memberlist H) (r : NodeState) : Prop :=
  r.state = .left ∧ ∃ d : Dead, (m.id, Msg.dead d) ∈ m.queued ∧ d.id = m.id ∧ d.left = true

/-- `Leave` has read the `Lives` it will use. -/
def LeavePc.hasRead : LeavePc → Bool
  | .read _ => true
  | .done b => b
  | _ => false

/-- What holds at each place. -/
def LeavePc.Inv (m : Memberlist H) : LeavePc → Prop
  | .idle => m.left = false
  | .flagged => m.left = true ∧ ∀ r, m.lookup m.id = some r → r.state = .alive ∨ Departed m r
  | .found p => m.left = true ∧ m.nodeMap m.id = some p ∧
      ∀ r, m.lookup m.id = some r → r.state = .alive ∨ Departed m r
  | .read d => m.left = true ∧ d.id = m.id ∧ d.left = true ∧
      ∃ r, m.lookup m.id = some r ∧ (r.state = .alive ∧ r.lives ≤ d.lives ∨ Departed m r)
  | .done true => m.left = true ∧ ∃ r, m.lookup m.id = some r ∧ Departed m r
  | .done false => True

/-- Who has read them has a record. -/
theorem LeavePc.Inv.known {pc : LeavePc} (h : pc.Inv m) (hpc : pc.hasRead = true) :
    m.left = true ∧ ∃ r, m.lookup m.id = some r := by
  cases pc with
  | read d =>
    obtain ⟨hleft, -, -, r, hr, -⟩ := h
    exact ⟨hleft, r, hr⟩
  | done b =>
    cases b with
    | true =>
      obtain ⟨hleft, r, hr, -⟩ := h
      exact ⟨hleft, r, hr⟩
    | false => cases hpc
  | _ => cases hpc

/-- A change that leaves our own record alone. -/
structure SameOwn (m m' : Memberlist H) : Prop where
  id : m'.id = m.id
  left : m'.left = m.left
  map : m'.nodeMap m.id = m.nodeMap m.id
  lookup : m'.lookup m.id = m.lookup m.id
  queued : ∀ e ∈ m.queued, e ∈ m'.queued

theorem SameOwn.departed (h : SameOwn m m') (hd : Departed m r) : Departed m' r := by
  obtain ⟨hstate, d, hq, hid, hleft⟩ := hd
  refine ⟨hstate, d, ?_, ?_, hleft⟩
  · rw [h.id]
    exact h.queued _ hq
  · rw [h.id]
    exact hid

theorem LeavePc.Inv.same {pc : LeavePc} (h : pc.Inv m) (hs : SameOwn m m') : pc.Inv m' := by
  have hopen : (∀ r, m.lookup m.id = some r → r.state = .alive ∨ Departed m r) →
      ∀ r, m'.lookup m'.id = some r → r.state = .alive ∨ Departed m' r := by
    intro ho r hr
    rw [hs.id, hs.lookup] at hr
    exact (ho r hr).imp_right hs.departed
  cases pc with
  | idle => exact hs.left.trans h
  | flagged => exact ⟨hs.left.trans h.1, hopen h.2⟩
  | found p =>
    refine ⟨hs.left.trans h.1, ?_, hopen h.2.2⟩
    rw [hs.id, hs.map]
    exact h.2.1
  | read d =>
    obtain ⟨hleft, hid, hd, r, hr, hopts⟩ := h
    refine ⟨hs.left.trans hleft, hid.trans hs.id.symm, hd, r, ?_, hopts.imp_right hs.departed⟩
    rw [hs.id, hs.lookup]
    exact hr
  | done b =>
    cases b with
    | false => exact trivial
    | true =>
      obtain ⟨hleft, r, hr, hdep⟩ := h
      refine ⟨hs.left.trans hleft, r, ?_, hs.departed hdep⟩
      rw [hs.id, hs.lookup]
      exact hr

/-- Our record may become alive again as long as its `Lives` are still to be read. -/
theorem LeavePc.Inv.alive {pc : LeavePc} (h : pc.Inv m) (hpc : pc.hasRead = false)
    (hid : m'.id = m.id) (hleft : m'.left = m.left)
    (hmap : ∀ p, m.nodeMap m.id = some p → m'.nodeMap m.id = some p)
    (hr : m'.lookup m.id = some r) (hstate : r.state = .alive) : pc.Inv m' := by
  have hopen : ∀ r', m'.lookup m'.id = some r' → r'.state = .alive ∨ Departed m' r' := by
    intro r' hr'
    rw [hid, hr] at hr'
    rw [← Option.some.inj hr']
    exact Or.inl hstate
  cases pc with
  | idle => exact hleft.trans h
  | flagged => exact ⟨hleft.trans h.1, hopen⟩
  | found p =>
    refine ⟨hleft.trans h.1, ?_, hopen⟩
    rw [hid]
    exact hmap p h.2.1
  | read d => cases hpc
  | done b =>
    cases b with
    | false => exact trivial
    | true => cases hpc

/-- Once the flag is set our record may become left, as long as we tell. -/
theorem LeavePc.Inv.departed {pc : LeavePc} (h : pc.Inv m) (hid : m'.id = m.id)
    (hleft : m.left = true) (hleft' : m'.left = m.left)
    (hmap : m'.nodeMap m.id = m.nodeMap m.id) (hr : m'.lookup m.id = some r)
    (hdep : Departed m' r) : pc.Inv m' := by
  have hr' : m'.lookup m'.id = some r := by rw [hid, hr]
  have hopen : ∀ r', m'.lookup m'.id = some r' → r'.state = .alive ∨ Departed m' r' := by
    intro r₁ hr₁
    rw [hr'] at hr₁
    rw [← Option.some.inj hr₁]
    exact Or.inr hdep
  cases pc with
  | idle => exact absurd (hleft.symm.trans h) (by simp)
  | flagged => exact ⟨hleft'.trans hleft, hopen⟩
  | found p =>
    refine ⟨hleft'.trans hleft, ?_, hopen⟩
    rw [hid, hmap]
    exact h.2.1
  | read d => exact ⟨hleft'.trans hleft, h.2.1.trans hid.symm, h.2.2.1, r, hr', Or.inr hdep⟩
  | done b =>
    cases b with
    | false => exact trivial
    | true => exact ⟨hleft'.trans hleft, r, hr', hdep⟩

/-! ## The other calls -/

section Calls

variable [Encoded Msg] [Heap H (TransmitCapItem Msg)] {pc : LeavePc} {env : Env}

omit [Encoded Msg] [Heap H (TransmitCapItem Msg)] in
/-- Writing somebody else's record. -/
private theorem sameOwn_write (hm : Registry m) {x : String} {p : Nat} (hmap : m.nodeMap x = some p)
    (hx : m.id ≠ x) (new : NodeState) : (m.setRecord p new).lookup m.id = m.lookup m.id := by
  rw [hm.lookup_setRecord hmap, if_neg hx]

omit [Encoded Msg] [Heap H (TransmitCapItem Msg)] in
theorem aliveLocked_leaving (hm : Registry m) (h : pc.Inv m) {a : Alive} {notify : Option Nat}
    (hc : pc.hasRead = true → a.id = m.id → ∀ r, m.lookup m.id = some r → a.lives ≤ r.lives) :
    pc.Inv (m.aliveLocked env a notify).1 := by
  have hcase := aliveLocked_case m env a notify
  generalize m.aliveLocked env a notify = res at hcase
  -- an effective one about ourselves comes before the reading
  have hearly : a.id = m.id → (∀ r, m.lookup m.id = some r → r.lives < a.lives) →
      pc.hasRead = false := by
    intro hid hnew
    cases hr : pc.hasRead with
    | false => rfl
    | true =>
      obtain ⟨-, r, hlook⟩ := h.known hr
      exact absurd (hnew r hlook) (Nat.not_lt.mpr (hc hr hid r hlook))
  cases hcase with
  | joined habs =>
    have hlook : (m.insertNode env (Memberlist.freshRecord env a)).lookup m.id =
        if m.id = a.id then some (Memberlist.freshRecord env a) else m.lookup m.id :=
      hm.lookup_insertNode env _ m.id
    by_cases hid : a.id = m.id
    · rw [if_pos hid.symm] at hlook
      have hnone : m.lookup m.id = none := Memberlist.lookup_of_none (hid ▸ habs)
      refine h.alive (hearly hid ?_) rfl rfl ?_ hlook rfl
      · intro r hr
        rw [hnone] at hr
        cases hr
      · intro p hp
        rw [← hid, habs] at hp
        cases hp
    · have hne : m.id ≠ a.id := fun he => hid he.symm
      rw [if_neg hne] at hlook
      exact h.same ⟨rfl, rfl, Function.update_of_ne hne _ _, hlook, fun e he => he⟩
  | stale p hmap hold => exact h
  | news p hmap hnew =>
    by_cases hid : a.id = m.id
    · rw [hid] at hmap
      have hlook := hm.lookup_setRecord hmap (Memberlist.revivedRecord env a (m.records p)) m.id
      rw [if_pos rfl] at hlook
      refine h.alive (hearly hid ?_) rfl rfl (fun _ hp => hp) hlook rfl
      intro r hr
      rw [← Memberlist.records_of_lookup hr hmap]
      exact hnew
    · exact h.same ⟨rfl, rfl, rfl, sameOwn_write hm hmap (fun he => hid he.symm) _, fun e he => he⟩

/-- A refutation is harmless before the reading. -/
theorem refute_leaving (hm : Registry m) (h : pc.Inv m) (hpc : pc.hasRead = false) {p lives : Nat}
    (hmap : m.nodeMap m.id = some p) (hstate : (m.records p).state = .alive)
    (href : m.refute p lives = some m') : pc.Inv m' := by
  obtain ⟨calls, -, rfl⟩ := refute_case href
  have hlook := hm.lookup_setRecord hmap { m.records p with lives := calls % livesSize } m.id
  rw [if_pos rfl] at hlook
  exact h.alive hpc rfl rfl (fun _ hp => hp) hlook hstate

/-- `suspectNode` would refute. -/
def Memberlist.refutes (m : Memberlist H) (s : Suspect) : Prop :=
  s.id = m.id ∧ ∃ r, m.lookup m.id = some r ∧ r.lives ≤ s.lives ∧ r.state = .alive

theorem suspectNode_leaving (hm : Registry m) (h : pc.Inv m) {s : Suspect}
    (hc : pc.hasRead = true → ¬ m.refutes s) (hs : m.suspectNode env s = some m') : pc.Inv m' := by
  have hqueued : ∀ msg : Msg, ∀ e ∈ m.queued, e ∈ m.queued ++ [(s.id, msg)] :=
    fun _ _ he => List.mem_append_left _ he
  cases suspectNode_case hs with
  | unknown habs => exact h
  | stale p hmap hold => exact h
  | confirmed p k hmap hlives hsusp hfresh => exact h.same ⟨rfl, rfl, rfl, rfl, hqueued _⟩
  | heard p k hmap hlives hsusp hfresh => exact h.same ⟨rfl, rfl, rfl, rfl, fun _ he => he⟩
  | notAlive p hmap hlives hsusp hstate => exact h
  | refuted p _ hmap hlives hsusp hstate hself href =>
    rw [hself] at hmap
    refine refute_leaving hm h ?_ hmap hstate href
    cases hr : pc.hasRead with
    | false => rfl
    | true => exact absurd ⟨hself, _, Memberlist.lookup_of_map hmap, hlives, hstate⟩ (hc hr)
  | raised p hmap hlives hsusp hstate hself =>
    exact h.same ⟨rfl, rfl, rfl, sameOwn_write hm hmap (fun he => hself he.symm) _, hqueued _⟩

/-- A death of ourselves that says we left. -/
private theorem killed_departs (hm : Registry m) {d : Dead} {p : Nat} {notify : Option Nat}
    (hmap : m.nodeMap d.id = some p) (hid : d.id = m.id) (hleft : d.left = true)
    (hk : Killed env d notify p m m') :
    m'.lookup m.id = some (Memberlist.deadRecord env d (m.records p)) ∧
      Departed m' (Memberlist.deadRecord env d (m.records p)) := by
  have hlook := hm.lookup_of_records hmap hk.nodeMap hk.records m.id
  rw [if_pos hid.symm] at hlook
  refine ⟨hlook, ?_, d, ?_, hid.trans hk.id.symm, hleft⟩
  · simp [Memberlist.deadRecord, hleft]
  · rw [hk.id, hk.queued, ← hid]
    exact List.mem_append_right _ (List.mem_singleton.mpr rfl)

/-- `deadNode`, of whomever: about ourselves only what says that we left. -/
theorem deadNode_leaving (hm : Defended m) (h : pc.Inv m) {d : Dead} {notify : Option Nat}
    (hc : d.id = m.id → d.left = false → ¬ m.kills d) (hd : m.deadNode env d notify = some m') :
    pc.Inv m' := by
  cases deadNode_case hd with
  | unknown habs => exact h
  | stale p hmap hold => exact h
  | already p hmap hdead => exact h
  | refuted p _ hmap hlives hdead hself hleft href =>
    rw [hself] at hmap
    -- the flag is not set, so `Leave` has not begun
    have hpc : pc.hasRead = false := by
      cases hr : pc.hasRead with
      | false => rfl
      | true => exact absurd (hleft.symm.trans (h.known hr).1) (by simp)
    exact refute_leaving hm.sound.registry h hpc hmap
      (hm.alive hleft _ (Memberlist.lookup_of_map hmap)) href
  | killed p hmap hlives hdead hself =>
    have hk := killed_fields env d notify p m
    by_cases hid : d.id = m.id
    · have hleft : d.left = true := by
        cases hl : d.left with
        | true => rfl
        | false =>
          exact absurd ⟨_, Memberlist.lookup_of_map hmap, hlives, hdead, hself⟩ (hc hid hl)
      obtain ⟨hlook, hdep⟩ := killed_departs hm.sound.registry hmap hid hleft hk
      exact h.departed hk.id (hself hid) hk.left (congrFun hk.nodeMap m.id) hlook hdep
    · refine h.same ⟨hk.id, hk.left, congrFun hk.nodeMap m.id, ?_, ?_⟩
      · rw [hm.sound.registry.lookup_of_records hmap hk.nodeMap hk.records,
          if_neg fun he => hid he.symm]
      · rw [hk.queued]
        exact fun _ he => List.mem_append_left _ he

/-! ## `Leave` itself -/

/-- The last piece: whether or not `deadNode` gets to declare it, we have departed. -/
theorem leaveDead_departs (hm : Defended m) {d : Dead} {notify : Option Nat}
    (h : (LeavePc.read d).Inv m) (hd : m.deadNode env d notify = some m') :
    (LeavePc.done true).Inv m' := by
  obtain ⟨hleft, hid, hdl, r, hr, hopts⟩ := h
  have hrec : ∀ {p}, m.nodeMap d.id = some p → m.records p = r := fun hmap =>
    Memberlist.records_of_lookup hr (hid ▸ hmap)
  cases deadNode_case hd with
  | unknown habs =>
    rw [hid] at habs
    rw [Memberlist.lookup_of_none habs] at hr
    cases hr
  | stale p hmap hold =>
    rw [hrec hmap] at hold
    refine ⟨hleft, r, hr, hopts.resolve_left ?_⟩
    intro halive
    exact absurd hold (Nat.not_lt.mpr halive.2)
  | already p hmap hdead =>
    rw [hrec hmap] at hdead
    refine ⟨hleft, r, hr, hopts.resolve_left ?_⟩
    intro halive
    rw [NodeState.deadOrLeft_of_alive halive.1] at hdead
    cases hdead
  | refuted p _ hmap hlives hdead hself hnot href => exact absurd (hnot.symm.trans hleft) (by simp)
  | killed p hmap hlives hdead hself =>
    have hk := killed_fields env d notify p m
    obtain ⟨hlook, hdep⟩ := killed_departs hm.sound.registry hmap hid hdl hk
    rw [← hk.id] at hlook
    exact ⟨hk.left.trans hleft, _, hlook, hdep⟩

/-! ## Every interleaving -/

/-- None of the windows is used: nothing about ourselves that is news gets through an
`aliveNode` once the `Lives` are read, nor is a suspicion refuted then; nobody declares us
dead; and our record is not reaped. -/
def Unharmed (s : Sys H) : Action → Prop
  | .lock k _ => ∀ a notify, s.tasks k = some (.entered a notify) → s.leave.hasRead = true →
      a.id = s.m.id → ∀ r, s.m.lookup s.m.id = some r → a.lives ≤ r.lives
  | .suspectNode _ sus => s.leave.hasRead = true → ¬ s.m.refutes sus
  | .deadNode _ d _ => d.id = s.m.id → d.left = false → ¬ s.m.kills d
  | .reap env => (s.m.reap env).nodeMap s.m.id = s.m.nodeMap s.m.id
  | _ => True

/-- The invariant. -/
structure Departing (s : Sys H) : Prop where
  defended : Defended s.m
  leave : s.leave.Inv s.m

/-- **One action.** -/
theorem acts_departing {s s' : Sys H} {a : Action} (h : Departing s) (hc : Unharmed s a)
    (ha : Sys.Acts s a s') : Departing s' := by
  refine ⟨Sys.acts_defended h.defended ha, ?_⟩
  have hm := h.defended
  have hl := h.leave
  -- the calls that do not touch our record
  have hsame : ∀ {m' : Memberlist H}, SameOwn s.m m' → s.leave.Inv m' := fun hs => hl.same hs
  cases ha with
  | called k a notify hk => exact hl
  | refused k tags notify => exact hl
  | tagged k tags notify p hk hmap => exact hsame ⟨rfl, rfl, rfl, rfl, fun _ he => he⟩
  | passed k a notify hk _ => exact hl
  | turnedAway k a notify hk _ => exact hl
  | locked k env a notify hk => exact aliveLocked_leaving hm.sound.registry hl (hc a notify hk)
  | broadcast k post hk hb =>
    exact hsame ⟨rfl, rfl, rfl, rfl, fun _ he => List.mem_append_left _ he⟩
  | join k post hk hb hj => exact hsame ⟨rfl, rfl, rfl, rfl, fun _ he => he⟩
  | update k post hk hb hj hu => exact hsame ⟨rfl, rfl, rfl, rfl, fun _ he => he⟩
  | returned k post hk hb hj hu => exact hl
  | suspected env sus m' hs => exact suspectNode_leaving hm.sound.registry hl hc hs
  | died env d notify m' hd => exact deadNode_leaving hm hl hc hd
  | flagged hpc hleft => exact ⟨rfl, fun r hr => Or.inl (hm.alive hleft r hr)⟩
  | found p hpc hmap =>
    rw [hpc] at hl
    exact ⟨hl.1, hmap, hl.2⟩
  | missing hpc habs => exact trivial
  | read p hpc =>
    rw [hpc] at hl
    obtain ⟨hleft, hmap, hopen⟩ := hl
    have hr := Memberlist.lookup_of_map hmap
    refine ⟨hleft, hm.sound.registry.map_id hmap, rfl, _, hr, ?_⟩
    exact (hopen _ hr).imp_left fun hstate => ⟨hstate, Nat.le_refl _⟩
  | left env notify d m' hpc hd =>
    rw [hpc] at hl
    exact leaveDead_departs hm hl hd
  | drained l o z => exact hsame ⟨rfl, rfl, rfl, rfl, fun _ he => he⟩
  | reaped env =>
    refine hsame ⟨rfl, rfl, hc, ?_, fun _ he => he⟩
    show ((s.m.reap env).nodeMap s.m.id).map s.m.records = _
    rw [show (s.m.reap env).nodeMap s.m.id = s.m.nodeMap s.m.id from hc]
    rfl

/-- A member that was built has not left. -/
theorem departing_build {env : Env} {config : Config} {m₀ : Memberlist H}
    (hb : Memberlist.build env config = .ok m₀) : Departing (Sys.start m₀) := by
  refine ⟨build_inv atom_defended (defended_new config) hb, ?_⟩
  obtain ⟨addr, -, rfl⟩ := build_case hb
  exact (aliveNode_frame _ env _ none).2

/-- **Whoever leaves has left.** Start from a built member and take any actions of any
number of goroutines, `Leave` among them, such that — once `Leave` has read its `Lives` —
no `aliveNode` about ourselves takes the lock with news and no suspicion of ourselves is
refuted; no dead message without `Left` is let through about ourselves; and our record is
not reaped. Whenever `Leave` has found its record and returned, the record says left, and a
dead message about us with `Left = true` has been put into the broadcast queue. -/
theorem leave_departs {env : Env} {config : Config} {m₀ : Memberlist H} {as : List Action}
    {s : Sys H} (hb : Memberlist.build env config = .ok m₀)
    (hc : Each Sys.act Unharmed as (Sys.start m₀))
    (hrun : run Sys.act as (Sys.start m₀) = some s) (hdone : s.leave = .done true) :
    ∃ r, s.m.lookup s.m.id = some r ∧ r.state = .left ∧
      ∃ d : Dead, (s.m.id, Msg.dead d) ∈ s.m.queued ∧ d.id = s.m.id ∧ d.left = true := by
  have hs : Departing s := run_inv_each
    (fun _ _ _ hs hca ha => acts_departing hs hca (Sys.act_case ha)) (departing_build hb) hc hrun
  have hl := hs.leave
  rw [hdone] at hl
  obtain ⟨-, r, hr, hdep⟩ := hl
  exact ⟨r, hr, hdep⟩

end Calls

open Concrete in
/-- A suspicion in good time: refuted before `Leave` reads, and then `Leave` goes
through. -/
theorem leave_departs_suspected :
    ∃ s r, raced [.leave, .leaveLookup, .suspectNode {} ⟨1, "me", "peer"⟩, .leaveRead,
        .leaveDead {} 0] = some s ∧
      s.m.lookup "me" = some r ∧ r.state = .left := by
  have hrun := raced_eq [.leave, .leaveLookup, .suspectNode {} ⟨1, "me", "peer"⟩, .leaveRead,
    .leaveDead {} 0] (by decide)
  have hc : Each Sys.act Unharmed [.leave, .leaveLookup, .suspectNode {} ⟨1, "me", "peer"⟩,
      .leaveRead, .leaveDead {} 0] (Sys.start (built "me" (by decide))) :=
    each_cons rfl trivial (each_cons rfl trivial (each_cons rfl (fun hr => absurd hr (by decide))
      (each_cons rfl trivial (each_cons rfl trivial trivial))))
  obtain ⟨r, hr, hleft, -⟩ := leave_departs (build_built "me" (by decide)) hc hrun rfl
  exact ⟨_, r, hrun, hr, hleft⟩

open Concrete in
/-- The same suspicion a moment later: its refutation outruns `Leave`. Nothing is under
way any more, the record says alive, and no dead message was ever queued. -/
theorem leave_outrun :
    ∃ s r, raced [.leave, .leaveLookup, .leaveRead, .suspectNode {} ⟨1, "me", "peer"⟩,
        .leaveDead {} 0] = some s ∧
      s.leave = .done true ∧ (∀ k, s.tasks k = none) ∧ s.m.lookup "me" = some r ∧
      r.state = .alive ∧ ∀ d, ("me", Msg.dead d) ∉ s.m.queued := by
  refine ⟨_, _, raced_eq _ (by decide), rfl, fun _ => rfl, rfl, rfl, ?_⟩
  intro d hd
  -- two alive messages: the one of `setAlive` and the one of the refutation
  rcases List.mem_cons.mp hd with hd | hd
  · cases hd
  · rcases List.mem_cons.mp hd with hd | hd
    · cases hd
    · cases hd

end Mlist
