import Mathlib.Data.List.Perm.Basic
import Mlist.Abstract.View
import Mlist.Member.Order
import Mlist.Member.Suspects

/-!
# The same news in another order

The handlers of `state.go` are the rules of `View` with data attached: for a node
other than the member itself, delivering a message changes the `view` of its record
exactly as `hear` says (`deliver_hears`), whatever else goes on in the queue, the
events and the suspicions. So the final view after any messages is `hearAll`, and
the question whether two members that heard the same messages in different orders
agree is the one `View.hearAll_perm_iff` answers: they do if and only if the messages
are `OrderFree` for the record they started from. In general they do not
(`orders_disagree`).
-/

namespace Mlist

open Mlist.Lib

/-- The class of a state: alive, suspect, or dead or left. -/
def StateType.standing : StateType → Standing
  | .alive => .alive
  | .suspect => .suspect
  | .dead => .dead
  | .left => .dead

/-- A record as a view. -/
def NodeState.view (r : NodeState) : View := ⟨r.lives, r.state.standing⟩

/-- A message as news. -/
def Msg.news : Msg → News
  | .alive a => .alive a.lives
  | .suspect s => .suspect s.lives
  | .dead d => .dead d.lives

/-- The operation by which a message is handled. -/
def deliver (em : Env × Msg) : Op :=
  match em.2 with
  | .alive a => .alive em.1 a none
  | .suspect s => .suspect em.1 s
  | .dead d => .dead em.1 d none

theorem NodeState.standing_alive {r : NodeState} :
    r.view.standing = .alive ↔ r.state = .alive := by
  unfold NodeState.view
  cases r.state <;> simp [StateType.standing]

/-- To have left is to be dead, as far as the order of messages matters. -/
theorem NodeState.standing_dead {r : NodeState} :
    r.view.standing = .dead ↔ r.deadOrLeft = true := by
  unfold NodeState.view NodeState.deadOrLeft
  cases r.state <;> simp [StateType.standing]

theorem deadRecord_view (env : Env) (d : Dead) (r : NodeState) :
    (Memberlist.deadRecord env d r).view = ⟨d.lives, .dead⟩ := by
  have hdead := NodeState.standing_dead.mpr (Memberlist.deadRecord_deadOrLeft env d r)
  exact congrArg (View.mk d.lives) hdead

/-- A reordering of images comes from a reordering. -/
private theorem exists_perm_of_map {α β : Type} (f : α → β) {l : List α} {l' : List β}
    (h : (l.map f).Perm l') : ∃ w : List α, w.Perm l ∧ w.map f = l' := by
  have hrel : List.Forall₂ (fun b a => b = f a) (l.map f) l := by
    rw [List.forall₂_map_left_iff]
    exact List.forall₂_same.mpr (fun _ _ => rfl)
  obtain ⟨w, hw, hp⟩ := List.perm_comp_forall₂ h.symm hrel
  refine ⟨w, hp, ?_⟩
  have hw' : List.Forall₂ (fun b b' => b = b') l' (w.map f) := by
    rw [List.forall₂_map_right_iff]
    exact hw
  exact (List.forall₂_eq_eq_eq ▸ hw' : l' = w.map f).symm

section Refinement

variable {H : Type} {m : Memberlist H} {id : String} {r : NodeState}

/-- A message about `id` that is not turned away for its address. -/
def Deliverable (m : Memberlist H) (id : String) (msg : Msg) : Prop :=
  msg.id = id ∧ ∀ a, msg = .alive a → m.ipAllowed a.ip = true

variable [Encoded Msg] [Heap H (TransmitCapItem Msg)]

/-- `aliveNode`, of another node whose address is allowed, is hearing of a life. -/
theorem aliveNode_hears (env : Env) {a : Alive} (hm : Registry m) (hid : id ≠ m.id)
    (hr : m.lookup id = some r) (ha : a.id = id) (hip : m.ipAllowed a.ip = true) :
    ∃ r', (m.aliveNode env a none).lookup id = some r' ∧
      r'.view = r.view.hear (.alive a.lives) := by
  have hchecks : m.aliveChecks a = true := by
    unfold Memberlist.aliveChecks
    have hne : (a.id == m.id) = false := by
      rw [ha]
      exact beq_eq_false_iff_ne.mpr hid
    rw [hne, hip, Bool.and_false]
    rfl
  unfold Memberlist.aliveNode
  rw [if_pos hchecks]
  show ∃ r', ((m.aliveLocked env a none).1.alivePublish _).lookup id = some r' ∧ _
  rw [lookup_alivePublish]
  have hcase := aliveLocked_case m env a none
  generalize m.aliveLocked env a none = res at hcase
  have hrec : ∀ {p : Nat}, m.nodeMap a.id = some p → m.records p = r := fun hp =>
    Memberlist.records_of_lookup hr (ha ▸ hp)
  cases hcase with
  | joined habs =>
    rw [ha] at habs
    rw [Memberlist.lookup_of_none habs] at hr
    cases hr
  | stale p hmap hold =>
    rw [hrec hmap] at hold
    exact ⟨r, hr, (if_neg (Nat.not_lt.mpr hold)).symm⟩
  | news p hmap hnew =>
    refine ⟨Memberlist.revivedRecord env a (m.records p), ?_, ?_⟩
    · show (m.setRecord p _).lookup id = _
      rw [hm.lookup_setRecord hmap, if_pos ha.symm]
    · rw [hrec hmap] at hnew
      exact (if_pos hnew).symm

/-- `suspectNode` is hearing of a suspicion. -/
theorem suspectNode_hears (env : Env) {s : Suspect} (hm : Sound m) (hid : id ≠ m.id)
    (hr : m.lookup id = some r) (hs : s.id = id) :
    ∃ m' r', m.suspectNode env s = some m' ∧ m'.lookup id = some r' ∧
      r'.view = r.view.hear (.suspect s.lives) := by
  obtain ⟨m', hret⟩ := suspectNode_returns m env (s := s) (hs ▸ hid)
  refine ⟨m', ?_⟩
  have hrec : ∀ {p : Nat}, m.nodeMap s.id = some p → m.records p = r := fun hp =>
    Memberlist.records_of_lookup hr (hs ▸ hp)
  -- a node under suspicion is suspect, so confirmations are no news
  have hconfirm : ∀ {k : Nat}, m.suspicions s.id = some k →
      r.view = r.view.hear (.suspect s.lives) := by
    intro k hk
    obtain ⟨r', hr', hst, -⟩ := hm.suspects.entry s.id k hk
    rw [hs, hr] at hr'
    refine (if_neg ?_).symm
    intro hc
    have halive := NodeState.standing_alive.mp hc.2
    rw [Option.some.inj hr', hst] at halive
    cases halive
  cases suspectNode_case hret with
  | unknown habs =>
    rw [hs] at habs
    rw [Memberlist.lookup_of_none habs] at hr
    cases hr
  | stale p hmap hold =>
    rw [hrec hmap] at hold
    exact ⟨r, hret, hr, (if_neg (fun hc => absurd hc.1 (Nat.not_le.mpr hold))).symm⟩
  | confirmed p k hmap hlives hsusp _ => exact ⟨r, hret, hr, hconfirm hsusp⟩
  | heard p k hmap hlives hsusp _ => exact ⟨r, hret, hr, hconfirm hsusp⟩
  | notAlive p hmap hlives hsusp hstate =>
    rw [hrec hmap] at hstate
    exact ⟨r, hret, hr,
      (if_neg (fun hc => hstate (NodeState.standing_alive.mp hc.2))).symm⟩
  | refuted p _ hmap hlives hsusp hstate hself href => exact absurd (hs.symm.trans hself) hid
  | raised p hmap hlives hsusp hstate hself =>
    refine ⟨{ m.records p with lives := s.lives, state := .suspect, stateChange := env.now },
      hret, ?_, ?_⟩
    · have hk := raised_fields env s p m
      rw [hm.registry.lookup_of_records hmap hk.nodeMap hk.records, if_pos hs.symm]
    · rw [hrec hmap] at hlives hstate
      exact (if_pos ⟨hlives, NodeState.standing_alive.mpr hstate⟩).symm

/-- `deadNode` is hearing of a death. -/
theorem deadNode_hears (env : Env) {d : Dead} (hm : Registry m) (hid : id ≠ m.id)
    (hr : m.lookup id = some r) (hd : d.id = id) :
    ∃ m' r', m.deadNode env d none = some m' ∧ m'.lookup id = some r' ∧
      r'.view = r.view.hear (.dead d.lives) := by
  obtain ⟨m', hret⟩ := deadNode_returns m env (d := d) none (hd ▸ hid)
  refine ⟨m', ?_⟩
  have hrec : ∀ {p : Nat}, m.nodeMap d.id = some p → m.records p = r := fun hp =>
    Memberlist.records_of_lookup hr (hd ▸ hp)
  cases deadNode_case hret with
  | unknown habs =>
    rw [hd] at habs
    rw [Memberlist.lookup_of_none habs] at hr
    cases hr
  | stale p hmap hold =>
    rw [hrec hmap] at hold
    exact ⟨r, hret, hr, (if_neg (fun hc => absurd hc.1 (Nat.not_le.mpr hold))).symm⟩
  | already p hmap hdead =>
    rw [hrec hmap] at hdead
    exact ⟨r, hret, hr, (if_neg (fun hc => hc.2 (NodeState.standing_dead.mpr hdead))).symm⟩
  | refuted p _ _ _ _ hself _ _ => exact absurd (hd.symm.trans hself) hid
  | killed p hmap hlives hdead hself =>
    refine ⟨Memberlist.deadRecord env d (m.records p), hret, ?_, ?_⟩
    · have hk := killed_fields env d none p m
      rw [hm.lookup_of_records hmap hk.nodeMap hk.records, if_pos hd.symm]
    · rw [deadRecord_view]
      rw [hrec hmap] at hlives hdead
      refine (if_pos ⟨hlives, ?_⟩).symm
      intro hst
      rw [NodeState.standing_dead.mp hst] at hdead
      cases hdead

/-- **The handlers follow the rules.** -/
theorem deliver_hears {em : Env × Msg} (hm : Sound m) (hid : id ≠ m.id)
    (hr : m.lookup id = some r) (hmsg : Deliverable m id em.2) :
    ∃ m' r', step (deliver em) m = some m' ∧ m'.lookup id = some r' ∧
      r'.view = r.view.hear em.2.news := by
  obtain ⟨env, msg⟩ := em
  cases msg with
  | alive a =>
    obtain ⟨r', hr', hv⟩ := aliveNode_hears env hm.registry hid hr hmsg.1 (hmsg.2 a rfl)
    exact ⟨_, r', rfl, hr', hv⟩
  | suspect s => exact suspectNode_hears env hm hid hr hmsg.1
  | dead d => exact deadNode_hears env hm.registry hid hr hmsg.1

/-- The view of `id` after messages in this order; each call of a handler has its own
clock and randomness. -/
def outcome (m : Memberlist H) (id : String) (o : List (Env × Msg)) : Option View :=
  (run step (o.map deliver) m).bind fun m' => (m'.lookup id).map NodeState.view

/-- Messages handled one after the other are news heard one after the other. -/
theorem outcome_eq (o : List (Env × Msg)) : ∀ {m : Memberlist H} {r : NodeState}, Sound m →
    id ≠ m.id → m.lookup id = some r → (∀ em ∈ o, Deliverable m id em.2) →
    outcome m id o = some (r.view.hearAll (o.map fun em => em.2.news)) := by
  induction o with
  | nil =>
    intro m r _ _ hr _
    show (m.lookup id).map NodeState.view = some r.view
    rw [hr, Option.map_some]
  | cons em o ih =>
    intro m r hm hid hr hmsgs
    obtain ⟨m', r', hstep, hr', hview⟩ :=
      deliver_hears hm hid hr (hmsgs em (List.mem_cons_self ..))
    have hconfig := step_config hstep
    have hid' : id ≠ m'.id := by
      rw [step_id hstep]
      exact hid
    have hmsgs' : ∀ em' ∈ o, Deliverable m' id em'.2 := by
      intro em' hem'
      obtain ⟨habout, hip⟩ := hmsgs em' (List.mem_cons_of_mem _ hem')
      refine ⟨habout, ?_⟩
      intro a ha
      unfold Memberlist.ipAllowed
      rw [hconfig]
      exact hip a ha
    unfold outcome
    rw [List.map_cons, run_cons, hstep, List.map_cons, View.hearAll_cons, ← hview]
    exact ih (step_sound hm hstep) hid' hr' hmsgs'

/-- **When the order of delivery does not matter.** Take a node other than the member,
in any state in which its record and its suspicion match, and any messages about it.
Every order of delivering them returns; and all orders end with the same `Lives` and
the same class of state if and only if the messages are `OrderFree` for the record. -/
theorem delivery_order_iff (hm : Sound m) (hid : id ≠ m.id) (hr : m.lookup id = some r)
    (msgs : List Msg) (hmsgs : ∀ msg ∈ msgs, Deliverable m id msg) :
    (∀ o : List (Env × Msg), (o.map Prod.snd).Perm msgs → (outcome m id o).isSome = true) ∧
    ((∀ o₁ o₂ : List (Env × Msg), (o₁.map Prod.snd).Perm msgs → (o₂.map Prod.snd).Perm msgs →
        outcome m id o₁ = outcome m id o₂) ↔
      r.view.OrderFree (msgs.map Msg.news)) := by
  have hout : ∀ o : List (Env × Msg), (o.map Prod.snd).Perm msgs →
      outcome m id o = some (r.view.hearAll ((o.map Prod.snd).map Msg.news)) := by
    intro o hp
    rw [List.map_map]
    refine outcome_eq o hm hid hr ?_
    intro em hem
    exact hmsgs em.2 (hp.mem_iff.mp (List.mem_map_of_mem hem))
  refine ⟨?_, ?_⟩
  · intro o hp
    rw [hout o hp]
    rfl
  rw [← View.hearAll_perm_iff]
  refine ⟨?_, ?_⟩
  · intro h ns' hp
    obtain ⟨w, hw, rfl⟩ := exists_perm_of_map Msg.news hp
    -- any list of messages is an order with some clock
    have horder : ∀ l : List Msg, (l.map fun msg => (({} : Env), msg)).map Prod.snd = l := by
      intro l
      rw [List.map_map]
      exact List.map_id l
    have heq := h (w.map fun msg => ({}, msg)) (msgs.map fun msg => ({}, msg))
      (by rw [horder]; exact hw) (by rw [horder])
    rw [hout _ (by rw [horder]; exact hw), hout _ (by rw [horder]), horder, horder] at heq
    exact Option.some.inj heq
  · intro h o₁ o₂ hp₁ hp₂
    rw [hout o₁ hp₁, hout o₂ hp₂]
    rw [h _ (hp₁.map Msg.news).symm, h _ (hp₂.map Msg.news).symm]

end Refinement

open Concrete in
/-- A death with the number of the record and an alive message above it, in both
orders. -/
theorem delivery_order_iff_revived :
    outcome (state [.alive {} (aliveMsg 3) none] (by decide)) "peer"
        [({}, .dead ⟨3, "peer", false⟩), ({}, .alive (aliveMsg 4))] =
      outcome (state [.alive {} (aliveMsg 3) none] (by decide)) "peer"
        [({}, .alive (aliveMsg 4)), ({}, .dead ⟨3, "peer", false⟩)] := by
  have hm : Sound (state [.alive {} (aliveMsg 3) none] (by decide)) :=
    reachable_sound (reachable_state _ _)
  have hid : "peer" ≠ (state [.alive {} (aliveMsg 3) none] (by decide)).id := by decide
  refine (delivery_order_iff hm hid rfl
    [.dead ⟨3, "peer", false⟩, .alive (aliveMsg 4)] ?_).2.mpr ?_ _ _ (.refl _) (.swap _ _ _)
  · intro msg hmsg
    refine ⟨?_, fun _ _ => rfl⟩
    rcases List.mem_cons.mp hmsg with rfl | hmsg
    · rfl
    · rw [List.mem_singleton.mp hmsg]
      rfl
  · -- the death is below the top, and there is no other news
    have hdead : ∀ d, ¬ View.DeadAt ⟨3, .alive⟩ [.dead 3, .alive 4] d := by
      intro d hd
      obtain ⟨hmem, htop, -⟩ := hd
      have htop : 4 ≤ d := htop
      have hd : d = 3 := by simpa using hmem
      omega
    have hsuspect : ∀ s, ¬ View.SuspectAt ⟨3, .alive⟩ [.dead 3, .alive 4] s := by
      intro s hs
      simp [View.SuspectAt] at hs
    exact ⟨fun d _ hd _ => absurd hd (hdead d), fun _ d _ hd => absurd hd (hdead d),
      fun _ s _ hs _ => absurd hs (hsuspect s), fun d hd _ => absurd hd (hdead d),
      fun _ s hs _ => absurd hs (hsuspect s)⟩

open Concrete in
/-- `"peer"` is alive at 1; the messages are *alive at 2*, *dead at 1* and *dead at
2*. In one order it ends alive, in the other dead. -/
theorem orders_disagree :
    ∃ (m : Member) (o₁ o₂ : List (Env × Msg)), Reachable m ∧ "peer" ≠ m.id ∧
      (m.lookup "peer").isSome = true ∧
      (∀ em ∈ o₁, Deliverable m "peer" em.2) ∧ (o₁.map Prod.snd).Perm (o₂.map Prod.snd) ∧
      outcome m "peer" o₁ = some ⟨2, .alive⟩ ∧ outcome m "peer" o₂ = some ⟨2, .dead⟩ := by
  let a : Msg := .alive (aliveMsg 2)
  let d₁ : Msg := .dead ⟨1, "peer", false⟩
  let d₂ : Msg := .dead ⟨2, "peer", false⟩
  refine ⟨state [.alive {} (aliveMsg 1) none] (by decide), [({}, d₁), ({}, d₂), ({}, a)],
    [({}, a), ({}, d₂), ({}, d₁)], reachable_state _ _, by decide, rfl, ?_, by decide, rfl, rfl⟩
  intro em hem
  refine ⟨?_, fun _ _ => rfl⟩
  have hcases : em = ({}, d₁) ∨ em = ({}, d₂) ∨ em = ({}, a) := by simpa using hem
  rcases hcases with rfl | rfl | rfl <;> rfl

end Mlist
