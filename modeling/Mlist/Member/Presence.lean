import Mlist.Member.SelfDefence

/-!
# The record of the member itself

`UpdateTags` takes the member's own record from `m.nodeMap` and dereferences it without
asking whether it is there. It is not there

* from the beginning, if `CIDRsAllowed` does not contain the address the member
  advertises: `setAlive` hands `aliveNode` a message that is turned away, and `Build`
  succeeds without a record (`tags_without_record`);
* in the end, if the member has left: its record says left and `reap` takes it, as it
  takes any other, when it has been there for long enough.

Nothing else takes a record out (`atom_present`), and until `Leave` the record says alive
and does not expire (`SelfAlive`). So these two are exactly the ways for `UpdateTags` to
crash (`tags_updatable_iff`).
-/

namespace Mlist

open Mlist.Lib

variable {H : Type} {m m' : Memberlist H}

section Runs

variable [Encoded Msg] [Heap H (TransmitCapItem Msg)]

/-- `UpdateTags` with tags that are not too long does not crash. -/
def TagsUpdatable (m : Memberlist H) : Prop :=
  ∀ env tags notify, tags.length ≤ tagMaxSize → m.updateTags env tags notify ≠ none

theorem tagsUpdatable_iff : TagsUpdatable m ↔ (m.nodeMap m.id).isSome = true := by
  constructor
  · intro h
    have hnil := h {} [] 0 (Nat.zero_le _)
    cases hmap : m.nodeMap m.id with
    | some p => rfl
    | none =>
      refine absurd ?_ hnil
      unfold Memberlist.updateTags
      rw [if_neg (by simp), hmap]
  · intro h env tags notify hsize hnone
    obtain ⟨p, hmap⟩ := Option.isSome_iff_exists.mp h
    unfold Memberlist.updateTags at hnone
    rw [if_neg (Nat.not_lt.mpr hsize), hmap] at hnone
    cases hnone

/-! ## What takes a record out -/

/-- No change but `reap` takes a node out of the map. -/
theorem atom_present {ok : Msg → Prop} {x : String} (h : (m.nodeMap x).isSome = true)
    (ha : Atom ok m m') : (m'.nodeMap x).isSome = true := by
  cases ha with
  | quiet hq =>
    rw [hq.same.nodeMap]
    exact h
  | insert env a _ habs =>
    show (Function.update m.nodeMap a.id (some m.numRecords) x).isSome = true
    by_cases hx : x = a.id
    · rw [hx, Function.update_self]
      rfl
    · rw [Function.update_of_ne hx]
      exact h
  | revive env a p _ hmap _ => exact h
  | confirm s p k _ _ _ => exact h
  | refute msg p calls _ _ hmap _ _ _ => exact h
  | suspect env s p _ hmap _ _ _ _ => exact h
  | kill env d p _ hmap _ _ _ => exact h

theorem atoms_present {ok : Msg → Prop} {x : String} (h : (m.nodeMap x).isSome = true)
    (ha : Atoms ok m m') : (m'.nodeMap x).isSome = true :=
  ha.inv (P := fun s => (s.nodeMap x).isSome = true) (fun _ _ hs hst => atom_present hs hst) h

omit [Encoded Msg] [Heap H (TransmitCapItem Msg)] in
/-- `reap` spares a record that has not expired. -/
theorem reap_present (hm : Registry m) (env : Env) (x : String) :
    ((m.reap env).nodeMap x).isSome = true ↔ ∃ r, m.lookup x = some r ∧
      Memberlist.expired env.now m.config.deadNodeExpiredTimeout r = false := by
  rw [← Memberlist.lookup_isSome, hm.lookup_reap, Option.isSome_iff_exists]
  refine exists_congr fun r => ?_
  rw [Option.filter_eq_some_iff, Bool.not_eq_true']

/-- A reap after `Leave` does not find our own record expired. -/
def Spared (m : Memberlist H) : Op → Prop
  | .reap env => m.left = true → ∀ r, m.lookup m.id = some r →
      Memberlist.expired env.now m.config.deadNodeExpiredTimeout r = false
  | _ => True

/-- Before `Leave` it never does. -/
theorem reap_spares (hm : Defended m) (hleft : m.left = false) (env : Env) {r : NodeState}
    (hr : m.lookup m.id = some r) :
    Memberlist.expired env.now m.config.deadNodeExpiredTimeout r = false := by
  unfold Memberlist.expired
  rw [NodeState.deadOrLeft_of_alive (hm.alive hleft r hr), Bool.false_and]

/-- **One operation** keeps our record exactly when it is no reap that takes it. -/
theorem step_updatable_iff (op : Op) (m : Memberlist H) (hm : Defended m) (h : TagsUpdatable m) :
    (∀ t, step op m = some t → TagsUpdatable t) ↔ Spared m op := by
  have hpresent := tagsUpdatable_iff.mp h
  -- everything but a reap consists of atoms
  have hkeep : (∀ env, op ≠ .reap env) → ∀ t, step op m = some t → TagsUpdatable t := by
    intro hop t ht
    rw [tagsUpdatable_iff, step_id ht]
    rcases step_atoms (opOk_true m op) ht with ha | ⟨env, k, -, -, -, -, ha⟩ | ⟨env, he, -⟩
    · exact atoms_present hpresent ha
    · have hspent : ((m.disarm k).nodeMap m.id).isSome = true := hpresent
      exact atoms_present hspent ha
    · exact absurd he (hop env)
  cases op with
  | reap env =>
    constructor
    · intro hafter hleft r hr
      have hreap := tagsUpdatable_iff.mp (hafter _ rfl)
      obtain ⟨r', hr', hexp⟩ := (reap_present hm.sound.registry env m.id).mp hreap
      rw [hr] at hr'
      exact Option.some.inj hr' ▸ hexp
    · intro hspared t ht
      rw [tagsUpdatable_iff, ← Option.some.inj ht]
      rw [← Memberlist.lookup_isSome] at hpresent
      obtain ⟨r, hr⟩ := Option.isSome_iff_exists.mp hpresent
      refine (reap_present hm.sound.registry env m.id).mpr ⟨r, hr, ?_⟩
      cases hleft : m.left with
      | false => exact reap_spares hm hleft env hr
      | true => exact hspared hleft r hr
  | _ => exact iff_of_true (hkeep (fun env he => nomatch he)) trivial

/-! ## From `Build` on -/

/-- A node we did not know has a record after `aliveNode` unless it was turned away. -/
theorem aliveNode_present {a : Alive} (habs : m.nodeMap a.id = none) (env : Env)
    (notify : Option Nat) :
    ((m.aliveNode env a notify).nodeMap a.id).isSome = m.aliveChecks a := by
  unfold Memberlist.aliveNode
  cases hc : m.aliveChecks a with
  | false =>
    rw [if_neg Bool.false_ne_true, habs]
    rfl
  | true =>
    rw [if_pos rfl]
    have hcase := aliveLocked_case m env a notify
    show (((m.aliveLocked env a notify).1.alivePublish (m.aliveLocked env a notify).2).nodeMap
      a.id).isSome = true
    generalize m.aliveLocked env a notify = res at hcase
    obtain ⟨_, _, _, he⟩ := alivePublish_case res.1 res.2
    rw [he]
    cases hcase with
    | joined _ =>
      show (Function.update m.nodeMap a.id (some m.numRecords) a.id).isSome = true
      rw [Function.update_self]
      rfl
    | stale p hmap _ => exact absurd (habs.symm.trans hmap) (by simp)
    | news p hmap _ => exact absurd (habs.symm.trans hmap) (by simp)

/-- `Build` leaves a record exactly when the member's own address is allowed. -/
theorem build_updatable_iff {env : Env} {config : Config} {m₀ : Memberlist H}
    (hb : Memberlist.build env config = .ok m₀) :
    TagsUpdatable m₀ ↔
      ∀ addr, config.advertiseAddr = some addr → ipAllowed config.cidrsAllowed addr = true := by
  obtain ⟨addr, haddr, hm₀⟩ := build_case hb
  have hid : m₀.id = config.id :=
    congrArg Config.id (build_inv (P := fun s => s.config = config)
      (fun _ _ hs ha => ha.config.trans hs) rfl hb)
  -- nothing but the address can stand in the way: nobody has left yet
  have hpresent : (m₀.nodeMap config.id).isSome = ipAllowed config.cidrsAllowed addr := by
    rw [hm₀]
    exact aliveNode_present rfl env none
  rw [tagsUpdatable_iff, hid, hpresent, haddr]
  constructor
  · intro h a ha
    exact Option.some.inj ha ▸ h
  · intro h
    exact h addr rfl

/-- **When `UpdateTags` finds its record.** Build a member from any configuration and run
it in any way. `UpdateTags` with tags of at most `TagMaxSize` bytes finds the member's own
record in every state of the run exactly when the address it advertises is one it allows,
and no reap after `Leave` finds the record expired. -/
theorem tags_updatable_iff {env : Env} {config : Config} {m₀ : Memberlist H}
    (hb : Memberlist.build env config = .ok m₀) (ops : List Op) :
    Along step TagsUpdatable ops m₀ ↔
      (∀ addr, config.advertiseAddr = some addr → ipAllowed config.cidrsAllowed addr = true) ∧
      Each step Spared ops m₀ := by
  rw [← build_updatable_iff hb]
  refine along_iff_each (fun op s t hs _ ht => step_defended hs ht) ?_ ops
    (build_inv atom_defended (defended_new config) hb)
  intro op s hs hup
  exact step_updatable_iff op s hs hup

end Runs

open Concrete in
/-- The tags of a member that has left can be updated as long as nobody reaps it. -/
theorem tags_updatable_iff_left :
    Along step TagsUpdatable [.leave {} 0, .reap { now := 30 }] (built "me" (by decide)) := by
  refine (tags_updatable_iff (build_built "me" (by decide)) _).mpr ⟨fun _ _ => rfl, ?_⟩
  refine each_cons rfl trivial (each_cons rfl ?_ trivial)
  intro _ r hr
  rw [← Option.some.inj hr]
  decide

open Concrete in
/-- Two members without a record of their own: one that does not allow its own address,
right after `Build`, and one that has left, after a reap. `UpdateTags` crashes in both. -/
theorem tags_without_record :
    (∃ m : Member,
      Memberlist.build {} { config with
        cidrsAllowed := [{ ip := [10, 0, 0, 0], mask := [255, 0, 0, 0] }] } = .ok m ∧
      m.updateTags {} [] 0 = none) ∧
    ∃ m : Member, after [.leave {} 0, .reap { now := 100 }] = some m ∧
      m.updateTags {} [] 0 = none := by
  refine ⟨⟨_, rfl, rfl⟩, ⟨_, (Option.some_get (by decide)).symm, ?_⟩⟩
  decide

end Mlist
