import Mlist.Member.Converge
import Mlist.Member.Timers

/-!
# Merging a remote state again, and in another order

`mergeState` makes a message of each entry of the remote list and hands it to one of three
handlers. Two things are said here of a list whose entries are about different nodes.

Merging it a second time changes nothing. A message that has been handled is `Settled`: one
of the guards of its handler turns it away from then on, or the suspicion it confirms has
heard its sender. A message about somebody else leaves it settled, because it leaves alone
all that the handler consults about the node (`Untouched`).

Merging it in another order comes to the same. What is known of a node — its record, whether
it is suspected, and for the member itself its counter and its health — is its `Picture`, and
a handler changes the picture of one node, as a function of that picture and of the message
(`deliver_picture`). So a merge is, for each node, a run of `Picture.hear` over the entries
about it, and there is one at most.
-/

namespace Mlist

open Mlist.Lib

/-! ## The message an entry stands for -/

/-- The message `mergeState` makes of an entry; `self` is the member that merges. -/
def StateToMerge.msg (self : String) (r : StateToMerge) : Option Msg :=
  match StateType.ofCode r.state with
  | some .alive =>
    some (.alive { lives := r.lives, id := r.id, ip := r.ip, port := r.port, tags := r.tags })
  | some .left => some (.dead { lives := r.lives, id := r.id, left := true })
  | some .dead => some (.suspect { lives := r.lives, id := r.id, sender := self })
  | some .suspect => some (.suspect { lives := r.lives, id := r.id, sender := self })
  | none => none

/-- The message an entry is handled as is about the entry's node, at its `Lives`. -/
theorem StateToMerge.msg_about {self : String} {r : StateToMerge} {msg : Msg}
    (h : r.msg self = some msg) : msg.id = r.id ∧ msg.lives = r.lives := by
  unfold StateToMerge.msg at h
  split at h
  all_goals
    cases h
    try exact ⟨rfl, rfl⟩

/-- The handler call made for an entry is the delivery of its message. -/
theorem mergeOp_eq (self : String) (env : Env) (r : StateToMerge) :
    mergeOp self (env, r) = (r.msg self).map fun msg => deliver (env, msg) := by
  unfold mergeOp StateToMerge.msg
  cases StateType.ofCode r.state with
  | none => rfl
  | some state => cases state <;> rfl

/-! ## What a message leaves alone -/

variable {H : Type} {m m' : Memberlist H} {x : String}

/-- All that the handlers consult about node `x` is as it was. -/
structure Untouched (x : String) (m m' : Memberlist H) : Prop where
  config : m'.config = m.config
  left : m'.left = m.left
  lookup : m'.lookup x = m.lookup x
  suspicions : m'.suspicions x = m.suspicions x
  suspObjs : ∀ k, m.suspicions x = some k → m'.suspObjs k = m.suspObjs k
  self : x = m.id → m'.liveCalls = m.liveCalls ∧ m'.awr = m.awr

theorem untouched_refl (x : String) (m : Memberlist H) : Untouched x m m :=
  ⟨rfl, rfl, rfl, rfl, fun _ _ => rfl, fun _ => ⟨rfl, rfl⟩⟩

theorem Untouched.id (h : Untouched x m m') : m'.id = m.id := congrArg Config.id h.config

section Handlers

variable [Encoded Msg] [Heap H (TransmitCapItem Msg)]

/-- An entry in a state that is none of the four is skipped. -/
theorem mergeOne_of_none {env : Env} {r : StateToMerge} (h : r.msg m.id = none) :
    m.mergeOne env r = some m := by
  rw [← mergeOne_run m (env, r), mergeOp_eq, h]
  rfl

/-- Any other entry is handled like a message that says the same. -/
theorem mergeOne_of_some {env : Env} {r : StateToMerge} {msg : Msg} (h : r.msg m.id = some msg) :
    m.mergeOne env r = step (deliver (env, msg)) m := by
  rw [← mergeOne_run m (env, r), mergeOp_eq, h]
  exact run_singleton step _ m

/-- An alive message concerns the node it names and nobody else. -/
theorem aliveNode_untouched (hm : Registry m) (env : Env) {a : Alive} (hx : x ≠ a.id) :
    Untouched x m (m.aliveNode env a none) := by
  unfold Memberlist.aliveNode
  split
  next =>
    dsimp only
    obtain ⟨mbroadcasts, events, queued, he⟩ :=
      alivePublish_case (m.aliveLocked env a none).1 (m.aliveLocked env a none).2
    rw [he]
    have hcase := aliveLocked_case m env a none
    generalize m.aliveLocked env a none = res at hcase
    cases hcase with
    | joined habs =>
      have hlook := hm.lookup_insertNode env (Memberlist.freshRecord env a) x
      exact ⟨rfl, rfl, hlook.trans (if_neg hx), rfl, fun _ _ => rfl, fun _ => ⟨rfl, rfl⟩⟩
    | stale p hmap hold => exact ⟨rfl, rfl, rfl, rfl, fun _ _ => rfl, fun _ => ⟨rfl, rfl⟩⟩
    | news p hmap hnew =>
      have hlook := hm.lookup_setRecord hmap (Memberlist.revivedRecord env a (m.records p)) x
      exact ⟨rfl, rfl, hlook.trans (if_neg hx), Function.update_of_ne hx _ _, fun _ _ => rfl,
        fun _ => ⟨rfl, rfl⟩⟩
  next => exact untouched_refl x m

/-- A member that defends itself changes its own record and counter. -/
theorem refute_untouched {p lives : Nat} {y : String} (hm : Registry m)
    (hmap : m.nodeMap y = some p) (hself : y = m.id) (hx : x ≠ y)
    (h : m.refute p lives = some m') : Untouched x m m' := by
  obtain ⟨calls, -, rfl⟩ := refute_case h
  have hlook := hm.lookup_setRecord hmap { m.records p with lives := calls % livesSize } x
  exact ⟨rfl, rfl, hlook.trans (if_neg hx), rfl, fun _ _ => rfl,
    fun he => absurd (he.trans hself.symm) hx⟩

/-- A suspect message concerns the node it names. A member that is suspected defends itself, which
is still about that node. -/
theorem suspectNode_untouched (hm : Sound m) {env : Env} {s : Suspect} (hx : x ≠ s.id)
    (h : m.suspectNode env s = some m') : Untouched x m m' := by
  -- the suspicion of another node is another object
  have hobjs : ∀ {k : Nat}, m.suspicions s.id = some k → ∀ j, m.suspicions x = some j →
      Function.update m.suspObjs k ((m.suspObjs k).confirm s.sender).2 j = m.suspObjs j := by
    intro k hk j hj
    refine Function.update_of_ne ?_ _ _
    rintro rfl
    exact hx ((hm.suspects.owner x j hj).1.symm.trans (hm.suspects.owner s.id j hk).1)
  cases suspectNode_case h with
  | unknown => exact untouched_refl x m
  | stale => exact untouched_refl x m
  | confirmed p k _ _ hsusp _ =>
    exact ⟨rfl, rfl, rfl, rfl, hobjs hsusp, fun _ => ⟨rfl, rfl⟩⟩
  | heard p k _ _ hsusp _ => exact ⟨rfl, rfl, rfl, rfl, hobjs hsusp, fun _ => ⟨rfl, rfl⟩⟩
  | notAlive => exact untouched_refl x m
  | refuted p _ hmap _ _ _ hself href => exact refute_untouched hm.registry hmap hself hx href
  | raised p hmap _ _ _ _ =>
    have hk := raised_fields env s p m
    have hlook := hm.registry.lookup_of_records hmap hk.nodeMap hk.records x
    refine ⟨hk.config, hk.left, hlook.trans (if_neg hx), ?_, fun j hj => ?_,
      fun _ => ⟨hk.liveCalls, hk.awr⟩⟩
    · rw [hk.suspicions, Function.update_of_ne hx]
    · rw [hk.suspObjs, Function.update_of_ne (Nat.ne_of_lt (hm.suspects.owner x j hj).2)]

/-- Declaring a node dead is of no concern to the counter and the health. -/
theorem killed_own (env : Env) (d : Dead) (notify : Option Nat) (p : Nat) (m : Memberlist H) :
    let t := (((m.dropSuspicion d.id).broadcast d.id (.dead d) notify).setRecord p
      (Memberlist.deadRecord env d (m.records p))).notifyEvent .leave
        (Memberlist.deadRecord env d (m.records p)).node
    t.liveCalls = m.liveCalls ∧ t.awr = m.awr := by
  constructor <;>
    simp only [Memberlist.notifyEvent, Memberlist.setRecord, Memberlist.broadcast,
      Memberlist.dropSuspicion]

/-- A dead message concerns the node it names. -/
theorem deadNode_untouched (hm : Registry m) {env : Env} {d : Dead} {notify : Option Nat}
    (hx : x ≠ d.id) (h : m.deadNode env d notify = some m') : Untouched x m m' := by
  cases deadNode_case h with
  | unknown => exact untouched_refl x m
  | stale => exact untouched_refl x m
  | already => exact untouched_refl x m
  | refuted p _ hmap _ _ hself _ href => exact refute_untouched hm hmap hself hx href
  | killed p hmap _ _ _ =>
    have hk := killed_fields env d notify p m
    have hlook := hm.lookup_of_records hmap hk.nodeMap hk.records x
    refine ⟨hk.config, hk.left, hlook.trans (if_neg hx), ?_, fun k _ => by rw [hk.suspObjs],
      fun _ => killed_own env d notify p m⟩
    rw [hk.suspicions, Function.update_of_ne hx]

/-- Every message leaves what is known of other nodes as it is. -/
theorem deliver_untouched (hm : Sound m) {env : Env} {msg : Msg} (hx : x ≠ msg.id)
    (h : step (deliver (env, msg)) m = some m') : Untouched x m m' := by
  cases msg with
  | alive a => exact Option.some.inj h ▸ aliveNode_untouched hm.registry env hx
  | suspect s => exact suspectNode_untouched hm hx h
  | dead d => exact deadNode_untouched hm.registry hx h

/-- So does every entry of a remote state. -/
theorem mergeOne_untouched (hm : Sound m) {env : Env} {r : StateToMerge} (hx : x ≠ r.id)
    (h : m.mergeOne env r = some m') : Untouched x m m' := by
  cases hmsg : r.msg m.id with
  | none =>
    rw [mergeOne_of_none hmsg] at h
    exact Option.some.inj h ▸ untouched_refl x m
  | some msg =>
    rw [mergeOne_of_some hmsg] at h
    exact deliver_untouched hm (by rw [(StateToMerge.msg_about hmsg).1]; exact hx) h

/-- An entry keeps the invariants, being handled like a message. -/
theorem mergeOne_sound {env : Env} {r : StateToMerge} (hm : Sound m)
    (h : m.mergeOne env r = some m') : Sound m' := by
  have hstep : step (.merge [(env, r)]) m = some m' :=
    (run_singleton (fun (er : Env × StateToMerge) (s : Memberlist H) => s.mergeOne er.1 er.2)
      (env, r) m).trans h
  exact step_sound hm hstep

end Handlers

/-! ## What has been handled -/

/-- The handler of this message would turn it away. -/
def Settled (m : Memberlist H) : Msg → Prop
  | .alive a => m.aliveChecks a = false ∨ ∃ r, m.lookup a.id = some r ∧ a.lives ≤ r.lives
  | .suspect s => ∀ r, m.lookup s.id = some r → s.lives < r.lives ∨
      (∃ k, m.suspicions s.id = some k ∧ ((m.suspObjs k).confirm s.sender).1 = false) ∨
      m.suspicions s.id = none ∧ r.state ≠ .alive
  | .dead d => ∀ r, m.lookup d.id = some r → d.lives < r.lives ∨ r.deadOrLeft = true

/-- A confirmation that is not new leaves the suspicion as it was. -/
theorem Suspicion.confirm_not_new {sc : Suspicion} {sender : String}
    (h : (sc.confirm sender).1 = false) : (sc.confirm sender).2 = sc := by
  unfold Suspicion.confirm at h ⊢
  split
  next => rfl
  next hcap =>
    rw [if_neg hcap] at h
    split
    next => rfl
    next hfresh =>
      rw [if_neg hfresh] at h
      cases h

/-- A sender that has been heard is not heard again. -/
theorem Suspicion.confirm_heard {sc : Suspicion} {sender : String} (h : sender ∈ sc.confirmMap) :
    (sc.confirm sender).1 = false := by
  unfold Suspicion.confirm
  split
  next => rfl
  next => rw [if_pos (List.contains_iff_mem.mpr h)]

/-- Nobody confirms twice. -/
theorem Suspicion.confirm_twice (sc : Suspicion) (sender : String) :
    ((sc.confirm sender).2.confirm sender).1 = false := by
  cases hnew : (sc.confirm sender).1 with
  | false => rw [Suspicion.confirm_not_new hnew, hnew]
  | true =>
    refine Suspicion.confirm_heard ?_
    unfold Suspicion.confirm at hnew ⊢
    split at hnew
    next => cases hnew
    next hcap =>
      split at hnew
      next => cases hnew
      next hfresh =>
        rw [if_neg hcap, if_neg hfresh]
        exact List.mem_cons_self

/-- What a message about another node leaves alone is all that counts. -/
theorem Settled.untouched {msg : Msg} (h : Settled m msg) (hu : Untouched msg.id m m') :
    Settled m' msg := by
  cases msg with
  | alive a =>
    refine h.imp (fun hchecks => ?_) fun ⟨r, hr, hle⟩ => ⟨r, hu.lookup.trans hr, hle⟩
    unfold Memberlist.aliveChecks Memberlist.ipAllowed at hchecks ⊢
    rw [hu.left, hu.id, hu.config]
    exact hchecks
  | suspect s =>
    intro r hr
    rcases h r (hu.lookup ▸ hr) with hold | ⟨k, hk, hheard⟩ | ⟨hnone, hstate⟩
    · exact .inl hold
    · refine .inr (.inl ⟨k, hu.suspicions.trans hk, ?_⟩)
      rw [hu.suspObjs k hk]
      exact hheard
    · exact .inr (.inr ⟨hu.suspicions.trans hnone, hstate⟩)
  | dead d => exact fun r hr => h r (hu.lookup ▸ hr)

section Handled

variable [Encoded Msg] [Heap H (TransmitCapItem Msg)]

/-- **A settled message changes nothing.** -/
theorem deliver_settled {msg : Msg} (h : Settled m msg) (env : Env) :
    step (deliver (env, msg)) m = some m := by
  cases msg with
  | alive a =>
    show some (m.aliveNode env a none) = some m
    unfold Memberlist.aliveNode
    split
    next hchecks =>
      rcases h with hno | ⟨r, hr, hle⟩
      · rw [hchecks] at hno
        cases hno
      · obtain ⟨p, hp, rfl⟩ := Memberlist.lookup_eq_some.mp hr
        unfold Memberlist.aliveLocked
        rw [hp]
        dsimp only
        rw [if_pos hle]
        rfl
    next => rfl
  | suspect s =>
    show m.suspectNode env s = some m
    unfold Memberlist.suspectNode
    split
    next => rfl
    next p hp =>
      dsimp only
      rcases h _ (Memberlist.lookup_of_map hp) with hold | ⟨k, hk, hheard⟩ | ⟨hnone, hstate⟩
      · rw [if_pos hold]
      · split
        next => rfl
        next =>
          rw [hk]
          dsimp only
          -- a confirmation that has been counted before
          rw [hheard, Suspicion.confirm_not_new hheard, Function.update_eq_self]
          rfl
      · split
        next => rfl
        next =>
          rw [hnone]
  | dead d =>
    show m.deadNode env d none = some m
    unfold Memberlist.deadNode
    split
    next => rfl
    next p hp =>
      dsimp only
      rw [if_pos (h _ (Memberlist.lookup_of_map hp))]

/-- A refutation answers with a number above the accusation. -/
theorem refute_lives {p lives : Nat} {y : String} {r : NodeState} (hm : Registry m)
    (hmap : m.nodeMap y = some p) (h : m.refute p lives = some m')
    (hr : m'.lookup y = some r) : lives < r.lives := by
  obtain ⟨calls, hloop, rfl⟩ := refute_case h
  have hlook := hm.lookup_setRecord hmap { m.records p with lives := calls % livesSize } y
  rw [if_pos rfl] at hlook
  rw [← Option.some.inj (hlook.symm.trans hr)]
  exact (refuteLoop_gt hloop).1

/-- Handled a second time, an alive message would be turned away. -/
theorem aliveNode_settles (hm : Registry m) (env : Env) (a : Alive) :
    Settled (m.aliveNode env a none) (.alive a) := by
  unfold Memberlist.aliveNode
  split
  next =>
    right
    dsimp only
    rw [lookup_alivePublish]
    have hcase := aliveLocked_case m env a none
    generalize m.aliveLocked env a none = res at hcase
    cases hcase with
    | joined habs =>
      have hlook := hm.lookup_insertNode env (Memberlist.freshRecord env a) a.id
      exact ⟨_, hlook.trans (if_pos rfl), Nat.le_refl _⟩
    | stale p hmap hold => exact ⟨_, Memberlist.lookup_of_map hmap, hold⟩
    | news p hmap hnew =>
      have hlook := hm.lookup_setRecord hmap (Memberlist.revivedRecord env a (m.records p)) a.id
      exact ⟨_, hlook.trans (if_pos rfl), Nat.le_refl _⟩
  next hchecks => exact .inl (Bool.eq_false_iff.mpr hchecks)

/-- So would a suspect message: its sender has been counted, or cannot be counted any more. -/
theorem suspectNode_settles (hm : Registry m) {env : Env} {s : Suspect}
    (h : m.suspectNode env s = some m') : Settled m' (.suspect s) := by
  intro r hr
  cases suspectNode_case h with
  | unknown habs =>
    rw [Memberlist.lookup_of_none habs] at hr
    cases hr
  | stale p hmap hold =>
    rw [Memberlist.records_of_lookup hr hmap] at hold
    exact .inl hold
  | confirmed p k _ _ hsusp _ =>
    refine .inr (.inl ⟨k, hsusp, ?_⟩)
    show ((Function.update m.suspObjs k _ k).confirm s.sender).1 = false
    rw [Function.update_self]
    exact Suspicion.confirm_twice _ _
  | heard p k _ _ hsusp _ =>
    refine .inr (.inl ⟨k, hsusp, ?_⟩)
    show ((Function.update m.suspObjs k _ k).confirm s.sender).1 = false
    rw [Function.update_self]
    exact Suspicion.confirm_twice _ _
  | notAlive p hmap _ hsusp hstate =>
    rw [Memberlist.records_of_lookup hr hmap] at hstate
    exact .inr (.inr ⟨hsusp, hstate⟩)
  | refuted p _ hmap _ _ _ _ href => exact .inl (refute_lives hm hmap href hr)
  | raised p hmap _ _ _ _ =>
    have hk := raised_fields env s p m
    refine .inr (.inl ⟨m.numSusps, ?_, ?_⟩)
    · rw [hk.suspicions, Function.update_self]
    · rw [hk.suspObjs, Function.update_self]
      exact Suspicion.confirm_heard List.mem_cons_self

/-- So would a dead message. -/
theorem deadNode_settles (hm : Registry m) {env : Env} {d : Dead}
    (h : m.deadNode env d none = some m') : Settled m' (.dead d) := by
  intro r hr
  cases deadNode_case h with
  | unknown habs =>
    rw [Memberlist.lookup_of_none habs] at hr
    cases hr
  | stale p hmap hold =>
    rw [Memberlist.records_of_lookup hr hmap] at hold
    exact .inl hold
  | already p hmap hdead =>
    rw [Memberlist.records_of_lookup hr hmap] at hdead
    exact .inr hdead
  | refuted p _ hmap _ _ _ _ href => exact .inl (refute_lives hm hmap href hr)
  | killed p hmap _ _ _ =>
    have hk := killed_fields env d none p m
    have hlook := hm.lookup_of_records hmap hk.nodeMap hk.records d.id
    rw [if_pos rfl] at hlook
    rw [← Option.some.inj (hlook.symm.trans hr)]
    exact .inr (Memberlist.deadRecord_deadOrLeft env d _)

/-- Once handled, a message is settled, whatever it is. -/
theorem deliver_settles (hm : Registry m) {env : Env} {msg : Msg}
    (h : step (deliver (env, msg)) m = some m') : Settled m' msg := by
  cases msg with
  | alive a => exact Option.some.inj h ▸ aliveNode_settles hm env a
  | suspect s => exact suspectNode_settles hm h
  | dead d => exact deadNode_settles hm h

/-- The entry has been merged: the message it stands for would be turned away. -/
def Merged (m : Memberlist H) (r : StateToMerge) : Prop :=
  ∀ msg, r.msg m.id = some msg → Settled m msg

/-- Once merged, an entry is settled. -/
theorem mergeOne_merges (hm : Sound m) {env : Env} {r : StateToMerge}
    (h : m.mergeOne env r = some m') : Merged m' r := by
  intro msg hmsg
  cases hfirst : r.msg m.id with
  | none =>
    rw [mergeOne_of_none hfirst] at h
    rw [← Option.some.inj h, hfirst] at hmsg
    cases hmsg
  | some msg' =>
    rw [mergeOne_of_some hfirst] at h
    rw [step_id h, hfirst] at hmsg
    exact Option.some.inj hmsg ▸ deliver_settles hm.registry h

omit [Encoded Msg] [Heap H (TransmitCapItem Msg)] in
/-- It stays so while its node is left alone. -/
theorem Merged.untouched {r : StateToMerge} (h : Merged m r) (hu : Untouched r.id m m') :
    Merged m' r := by
  intro msg hmsg
  rw [hu.id] at hmsg
  exact (h msg hmsg).untouched ((StateToMerge.msg_about hmsg).1.symm ▸ hu)

/-- **An entry that has been merged changes nothing.** -/
theorem mergeOne_merged {r : StateToMerge} (h : Merged m r) (env : Env) :
    m.mergeOne env r = some m := by
  cases hmsg : r.msg m.id with
  | none => exact mergeOne_of_none hmsg
  | some msg =>
    rw [mergeOne_of_some hmsg]
    exact deliver_settled (h msg hmsg) env

/-- **After a merge every entry has been merged**, if no two are about the same node. -/
theorem mergeState_merges (hm : Sound m) {remote : List (Env × StateToMerge)}
    (hids : remote.Pairwise fun er er' => er.2.id ≠ er'.2.id)
    (h : m.mergeState remote = some m') : ∀ er ∈ remote, Merged m' er.2 := by
  refine run_done (P := Sound) (fun er s => Merged s er.2) ?_ ?_ ?_ hids hm h
  · intro er s t hs ht
    exact mergeOne_sound hs ht
  · intro er s t hs ht
    exact mergeOne_merges hs ht
  · intro er er' s t hs hne hdone ht
    exact hdone.untouched (mergeOne_untouched hs hne ht)

end Handled

/-! ## What is known of a node -/

/-- A record without the time of its last change. -/
def NodeState.timeless (r : NodeState) : NodeState := { r with stateChange := 0 }

/-- What a member knows of a node, and what it consults when it hears of it. `own` is for the
member itself: how far its counter has got, and its health. -/
structure Picture where
  config : Config
  left : Bool
  record : Option NodeState
  suspected : Bool
  own : Option (Nat × Awareness)

/-- The part of a member that entries about `x` read and write: the record without its times,
whether there is a suspicion, and the counter and the health score if `x` is the member itself. -/
def Memberlist.picture (m : Memberlist H) (x : String) : Picture :=
  { config := m.config
    left := m.left
    record := (m.lookup x).map NodeState.timeless
    suspected := (m.suspicions x).isSome
    own := if x = m.id then some (m.liveCalls, m.awr) else none }

namespace Picture

/-- The member answers an accusation. -/
def refute (lives : Nat) (r : NodeState) (own : Nat × Awareness) (v : Picture) : Option Picture :=
  (Memberlist.refuteLoop lives livesSize own.1).map fun calls =>
    { v with
      record := some { r with lives := calls % livesSize }
      own := some (calls, own.2.punish 1) }

/-- What `aliveNode` does to the picture of the node it is told of. -/
def alive (a : Alive) (v : Picture) : Picture :=
  if !(v.left && v.own.isSome) && ipAllowed v.config.cidrsAllowed a.ip then
    match v.record with
    | none => { v with record := some (Memberlist.freshRecord {} a) }
    | some r =>
      if a.lives ≤ r.lives then v
      else { v with record := some (Memberlist.revivedRecord {} a r), suspected := false }
  else v

/-- What `suspectNode` does to it; `none` if the refutation never ends. -/
def suspect (s : Suspect) (v : Picture) : Option Picture :=
  match v.record with
  | none => some v
  | some r =>
    if s.lives < r.lives ∨ v.suspected = true ∨ r.state ≠ .alive then some v
    else
      match v.own with
      | some own => v.refute s.lives r own
      | none =>
        some { v with
          record := some { r with lives := s.lives, state := .suspect }, suspected := true }

/-- What `deadNode` does to it. -/
def dead (d : Dead) (v : Picture) : Option Picture :=
  match v.record with
  | none => some v
  | some r =>
    if d.lives < r.lives ∨ r.deadOrLeft = true then some v
    else
      match v.own, v.left with
      | some own, false => v.refute d.lives r own
      | _, _ => some { v with record := some (Memberlist.deadRecord {} d r), suspected := false }

/-- What a message makes of the picture of the node it is about. -/
def hear : Msg → Picture → Option Picture
  | .alive a, v => some (v.alive a)
  | .suspect s, v => v.suspect s
  | .dead d, v => v.dead d

/-- What an entry of a remote state makes of the picture of the node it is about. -/
def merge (r : StateToMerge) (v : Picture) : Option Picture :=
  match r.msg v.config.id with
  | none => some v
  | some msg => v.hear msg

end Picture

/-- A node that was left alone looks the same. -/
theorem Untouched.picture (h : Untouched x m m') : m'.picture x = m.picture x := by
  unfold Memberlist.picture
  rw [h.config, h.left, h.lookup, h.suspicions, h.id]
  by_cases hx : x = m.id
  · rw [(h.self hx).1, (h.self hx).2]
  · rw [if_neg hx, if_neg hx]

/-- A known node's picture shows its record. -/
theorem picture_record {p : Nat} (h : m.nodeMap x = some p) :
    (m.picture x).record = some (m.records p).timeless := by
  unfold Memberlist.picture
  rw [Memberlist.lookup_of_map h]
  rfl

theorem picture_unknown (h : m.nodeMap x = none) : (m.picture x).record = none := by
  unfold Memberlist.picture
  rw [Memberlist.lookup_of_none h]
  rfl

theorem picture_own (h : x = m.id) : (m.picture x).own = some (m.liveCalls, m.awr) := if_pos h

theorem picture_other (h : x ≠ m.id) : (m.picture x).own = none := if_neg h

/-- One node gets another record, and whatever goes with it. -/
theorem picture_write (m : Memberlist H) {r : NodeState} (hlook : m'.lookup x = some r)
    (hconfig : m'.config = m.config) (hleft : m'.left = m.left) :
    m'.picture x = { m.picture x with
      record := some r.timeless
      suspected := (m'.suspicions x).isSome
      own := if x = m.id then some (m'.liveCalls, m'.awr) else none } := by
  have hid : m'.id = m.id := congrArg Config.id hconfig
  unfold Memberlist.picture
  rw [hconfig, hleft, hlook, hid]
  rfl

/-- The same where the node is suspect no longer. -/
theorem picture_cleared (m : Memberlist H) {r : NodeState} (hlook : m'.lookup x = some r)
    (hconfig : m'.config = m.config) (hleft : m'.left = m.left)
    (hsusp : m'.suspicions = Function.update m.suspicions x none)
    (hcalls : m'.liveCalls = m.liveCalls) (hawr : m'.awr = m.awr) :
    m'.picture x = { m.picture x with record := some r.timeless, suspected := false } := by
  rw [picture_write m hlook hconfig hleft, hsusp, Function.update_self, hcalls, hawr]
  rfl

/-- Only the time of the change depends on the clock. -/
theorem revivedRecord_timeless (env : Env) (a : Alive) (r : NodeState) :
    (Memberlist.revivedRecord env a r).timeless = Memberlist.revivedRecord {} a r.timeless := by
  unfold Memberlist.revivedRecord NodeState.timeless
  dsimp only
  rw [ite_self]

section Pictures

variable [Encoded Msg] [Heap H (TransmitCapItem Msg)]

/-- The deferred function of `aliveNode` is of no concern to the pictures. -/
theorem picture_alivePublish (m : Memberlist H) (post : Memberlist.AlivePost) (x : String) :
    (m.alivePublish post).picture x = m.picture x := by
  obtain ⟨mbroadcasts, events, queued, he⟩ := alivePublish_case m post
  rw [he]
  rfl

/-- `aliveNode` reads and writes nothing of the node but its picture. -/
theorem aliveNode_picture (hm : Registry m) (env : Env) (a : Alive) :
    (m.picture a.id).alive a = (m.aliveNode env a none).picture a.id := by
  -- the checks look at the picture and the message only
  have hchecks : (!((m.picture a.id).left && (m.picture a.id).own.isSome) &&
      ipAllowed (m.picture a.id).config.cidrsAllowed a.ip) = m.aliveChecks a := by
    unfold Memberlist.picture Memberlist.aliveChecks Memberlist.ipAllowed
    by_cases hself : a.id = m.id
    · rw [if_pos hself, beq_iff_eq.mpr hself]
      rfl
    · rw [if_neg hself, beq_eq_false_iff_ne.mpr hself]
      rfl
  unfold Picture.alive Memberlist.aliveNode
  rw [hchecks]
  split
  next =>
    dsimp only
    rw [picture_alivePublish]
    have hcase := aliveLocked_case m env a none
    generalize m.aliveLocked env a none = res at hcase
    cases hcase with
    | joined habs =>
      rw [picture_unknown habs]
      have hlook := hm.lookup_insertNode env (Memberlist.freshRecord env a) a.id
      exact (picture_write m (hlook.trans (if_pos rfl)) rfl rfl).symm
    | stale p hmap hold =>
      rw [picture_record hmap]
      exact if_pos hold
    | news p hmap hnew =>
      rw [picture_record hmap]
      have hlook : ((m.dropSuspicion a.id).setRecord p
          (Memberlist.revivedRecord env a (m.records p))).lookup a.id =
            some (Memberlist.revivedRecord env a (m.records p)) :=
        (hm.lookup_setRecord hmap _ a.id).trans (if_pos rfl)
      refine (if_neg (Nat.not_le.mpr hnew)).trans ?_
      rw [← revivedRecord_timeless env]
      exact (picture_cleared m hlook rfl rfl rfl rfl rfl).symm
  next => rfl

/-- Neither does `refute`, where the picture has the member's own counter. -/
theorem refute_picture {p lives : Nat} (hm : Registry m) (hmap : m.nodeMap x = some p)
    (hself : x = m.id) (h : m.refute p lives = some m') :
    (m.picture x).refute lives (m.records p).timeless (m.liveCalls, m.awr) =
      some (m'.picture x) := by
  obtain ⟨calls, hloop, hm'⟩ := refute_case h
  have hlook : m'.lookup x = some { m.records p with lives := calls % livesSize } := by
    rw [hm']
    exact (hm.lookup_setRecord hmap { m.records p with lives := calls % livesSize } x).trans
      (if_pos rfl)
  unfold Picture.refute
  rw [hloop, picture_write m hlook (by rw [hm']; rfl) (by rw [hm']; rfl), if_pos hself, hm']
  rfl

/-- A new suspicion, as the picture shows it. -/
theorem picture_raised (hm : Registry m) {env : Env} {s : Suspect} {p : Nat}
    (hmap : m.nodeMap s.id = some p) (hk : Raised env s p m m') :
    m'.picture s.id = { m.picture s.id with
      record := some { (m.records p).timeless with lives := s.lives, state := .suspect }
      suspected := true } := by
  have hlook := (hm.lookup_of_records hmap hk.nodeMap hk.records s.id).trans (if_pos rfl)
  rw [picture_write m hlook hk.config hk.left, hk.suspicions, Function.update_self, hk.liveCalls,
    hk.awr]
  rfl

/-- `suspectNode` reads and writes nothing but the picture. -/
theorem suspectNode_picture (hm : Registry m) {env : Env} {s : Suspect}
    (h : m.suspectNode env s = some m') : (m.picture s.id).suspect s = some (m'.picture s.id) := by
  -- the suspicion is news if the guards let it pass
  have hnews : ∀ {p : Nat}, (m.records p).lives ≤ s.lives → m.suspicions s.id = none →
      (m.records p).state = .alive → ¬ (s.lives < (m.records p).timeless.lives ∨
        (m.picture s.id).suspected = true ∨ (m.records p).timeless.state ≠ .alive) := by
    intro p hlives hsusp hstate hor
    rcases hor with hold | hsuspected | hnot
    · exact absurd hold (Nat.not_lt.mpr hlives)
    · have hsome : (m.suspicions s.id).isSome = true := hsuspected
      rw [hsusp] at hsome
      cases hsome
    · exact hnot hstate
  unfold Picture.suspect
  cases suspectNode_case h with
  | unknown habs => rw [picture_unknown habs]
  | stale p hmap hold =>
    rw [picture_record hmap]
    exact if_pos (.inl hold)
  | confirmed p k hmap _ hsusp _ =>
    rw [picture_record hmap]
    exact if_pos (.inr (.inl (Option.isSome_iff_exists.mpr ⟨k, hsusp⟩)))
  | heard p k hmap _ hsusp _ =>
    rw [picture_record hmap]
    exact if_pos (.inr (.inl (Option.isSome_iff_exists.mpr ⟨k, hsusp⟩)))
  | notAlive p hmap _ hsusp hstate =>
    rw [picture_record hmap]
    exact if_pos (.inr (.inr hstate))
  | refuted p _ hmap hlives hsusp hstate hself href =>
    rw [picture_record hmap, picture_own hself]
    dsimp only
    rw [if_neg (hnews hlives hsusp hstate)]
    exact refute_picture hm hmap hself href
  | raised p hmap hlives hsusp hstate hself =>
    rw [picture_record hmap, picture_other hself]
    dsimp only
    rw [if_neg (hnews hlives hsusp hstate)]
    rw [picture_raised hm hmap (raised_fields env s p m)]
    dsimp only
    rw [picture_other hself]

/-- `deadNode` does not either. -/
theorem deadNode_picture (hm : Registry m) {env : Env} {d : Dead}
    (h : m.deadNode env d none = some m') : (m.picture d.id).dead d = some (m'.picture d.id) := by
  have hnews : ∀ {p : Nat}, (m.records p).lives ≤ d.lives → (m.records p).deadOrLeft = false →
      ¬ (d.lives < (m.records p).timeless.lives ∨ (m.records p).timeless.deadOrLeft = true) := by
    intro p hlives hdead hor
    rcases hor with hold | hgone
    · exact absurd hold (Nat.not_lt.mpr hlives)
    · exact Bool.false_ne_true (hdead.symm.trans hgone)
  unfold Picture.dead
  cases deadNode_case h with
  | unknown habs => rw [picture_unknown habs]
  | stale p hmap hold =>
    rw [picture_record hmap]
    exact if_pos (.inl hold)
  | already p hmap hdead =>
    rw [picture_record hmap]
    exact if_pos (.inr hdead)
  | refuted p _ hmap hlives hdead hself hleft href =>
    rw [picture_record hmap, picture_own hself, show (m.picture d.id).left = false from hleft]
    dsimp only
    rw [if_neg (hnews hlives hdead)]
    exact refute_picture hm hmap hself href
  | killed p hmap hlives hdead hself =>
    have hk := killed_fields env d none p m
    have hlook := hm.lookup_of_records hmap hk.nodeMap hk.records d.id
    rw [if_pos rfl] at hlook
    rw [picture_record hmap]
    dsimp only
    rw [if_neg (hnews hlives hdead), picture_cleared m hlook hk.config hk.left hk.suspicions
      (killed_own env d none p m).1 (killed_own env d none p m).2]
    split
    next own hown hleft =>
      -- only a member that has left lets itself be declared dead
      have hid : d.id = m.id := by
        by_contra hne
        rw [picture_other hne] at hown
        cases hown
      exact absurd (hself hid) (by rw [show m.left = false from hleft]; exact Bool.false_ne_true)
    next => rfl

/-- **A message changes the picture of the node it is about** as `hear` says. -/
theorem deliver_picture (hm : Registry m) {env : Env} {msg : Msg}
    (h : step (deliver (env, msg)) m = some m') :
    (m.picture msg.id).hear msg = some (m'.picture msg.id) := by
  cases msg with
  | alive a =>
    rw [← Option.some.inj h]
    exact congrArg some (aliveNode_picture hm env a)
  | suspect s => exact suspectNode_picture hm h
  | dead d => exact deadNode_picture hm h

/-- So the picture after an entry is known from the one before. -/
theorem mergeOne_picture (hm : Registry m) {env : Env} {r : StateToMerge}
    (h : m.mergeOne env r = some m') : (m.picture r.id).merge r = some (m'.picture r.id) := by
  unfold Picture.merge
  show (match r.msg m.id with | none => _ | some msg => _) = _
  cases hmsg : r.msg m.id with
  | none =>
    rw [mergeOne_of_none hmsg] at h
    rw [Option.some.inj h]
  | some msg =>
    rw [mergeOne_of_some hmsg] at h
    have hid := (StateToMerge.msg_about hmsg).1
    rw [← hid]
    exact deliver_picture hm h

theorem mergeState_id {remote : List (Env × StateToMerge)} (h : m.mergeState remote = some m') :
    m'.id = m.id :=
  step_id (show step (.merge remote) m = some m' from h)

/-! ## Returning -/

/-- A message returns, unless it is at the last number there is. -/
theorem deliver_returns (m : Memberlist H) (env : Env) {msg : Msg}
    (h : msg.lives < livesSize - 1) : ∃ m', step (deliver (env, msg)) m = some m' := by
  cases msg with
  | alive a => exact ⟨_, rfl⟩
  | suspect s => exact suspectNode_ends m env fun _ => h
  | dead d => exact deadNode_ends m env none fun _ => h

/-- So does an entry. -/
theorem mergeOne_returns (m : Memberlist H) (env : Env) {r : StateToMerge}
    (h : r.lives < livesSize - 1) : ∃ m', m.mergeOne env r = some m' := by
  cases hmsg : r.msg m.id with
  | none => exact ⟨m, mergeOne_of_none hmsg⟩
  | some msg =>
    rw [mergeOne_of_some hmsg]
    exact deliver_returns m env (by rw [(StateToMerge.msg_about hmsg).2]; exact h)

/-- **A merge may be repeated and reordered.** Take any state a member can be in, and any
remote list with different IDs and with `Lives` below `2 ^ 32 - 1`. Merging it returns.
Merging it a second time, at whatever times, changes nothing at all. Merging it in another
order returns too, with the same records but for the times of their last change, the same
nodes suspected, and the same health. -/
theorem merge_repeats_reorders (hm : Reachable m) {remote : List (Env × StateToMerge)}
    (hids : (remote.map fun er => er.2.id).Nodup)
    (hlives : ∀ er ∈ remote, er.2.lives < 2 ^ 32 - 1) :
    ∃ m₁, m.mergeState remote = some m₁ ∧
      (∀ again : List (Env × StateToMerge), again.map Prod.snd = remote.map Prod.snd →
        m₁.mergeState again = some m₁) ∧
      ∀ other : List (Env × StateToMerge), (other.map Prod.snd).Perm (remote.map Prod.snd) →
        ∃ m₂, m.mergeState other = some m₂ ∧
          (∀ id, (m₂.lookup id).map NodeState.timeless = (m₁.lookup id).map NodeState.timeless) ∧
          (∀ id, (m₂.suspicions id).isSome = (m₁.suspicions id).isSome) ∧
          m₂.awr = m₁.awr := by
  have hsound := reachable_sound hm
  have hreturns : ∀ rs : List (Env × StateToMerge), (∀ er ∈ rs, er.2.lives < 2 ^ 32 - 1) →
      ∃ m', m.mergeState rs = some m' := by
    intro rs hrs
    exact run_returns (Q := fun er => er.2.lives < 2 ^ 32 - 1)
      (fun er s h => mergeOne_returns s er.1 h) rs m hrs
  obtain ⟨m₁, h₁⟩ := hreturns remote hlives
  refine ⟨m₁, h₁, ?_, ?_⟩
  · intro again hagain
    have hpair : remote.Pairwise fun er er' => er.2.id ≠ er'.2.id := List.pairwise_map.mp hids
    -- every entry is merged by now, and one that is merged changes nothing
    have hmerged := mergeState_merges hsound hpair h₁
    refine run_still fun er her => ?_
    have hmem : er.2 ∈ remote.map Prod.snd := hagain ▸ List.mem_map_of_mem her
    obtain ⟨er', her', heq⟩ := List.mem_map.mp hmem
    exact mergeOne_merged (heq ▸ hmerged er' her') er.1
  · intro other hperm
    have hlives' : ∀ er ∈ other, er.2.lives < 2 ^ 32 - 1 := by
      intro er her
      obtain ⟨er', her', heq⟩ := List.mem_map.mp (hperm.mem_iff.mp (List.mem_map_of_mem her))
      exact heq ▸ hlives er' her'
    obtain ⟨m₂, h₂⟩ := hreturns other hlives'
    have hpicture : ∀ x, m₂.picture x = m₁.picture x := by
      -- an entry acts on the picture of its own node only, so the order is free
      refine run_views_perm (P := Sound) Picture.merge Prod.snd StateToMerge.id
        (fun x s => s.picture x) ?_ ?_ ?_ hsound ?_ hperm h₁ h₂
      · intro er s t hs ht
        exact mergeOne_sound hs ht
      · intro er s t hs ht
        exact mergeOne_picture hs.registry ht
      · intro er s t x hs hne ht
        exact (mergeOne_untouched hs hne.symm ht).picture
      · rw [List.map_map]
        exact hids
    refine ⟨m₂, h₂, fun id => congrArg Picture.record (hpicture id),
      fun id => congrArg Picture.suspected (hpicture id), ?_⟩
    have hown := congrArg Picture.own (hpicture m.id)
    rw [picture_own (mergeState_id h₂).symm, picture_own (mergeState_id h₁).symm] at hown
    exact (Prod.mk.inj (Option.some.inj hown)).2

end Pictures

open Concrete in
/-- A peer that has left, one that is suspect, one that is new, and ourselves: merged once,
once more, and the other way round. -/
theorem merge_repeats_reorders_four :
    let other : Alive :=
      { lives := 1, id := "other", ip := [127, 0, 0, 3], port := 7946, tags := [] }
    let m := state [.alive {} (aliveMsg 1) none, .alive {} other none] (by decide)
    let entry (id : String) (state : Int) : StateToMerge :=
      { lives := 1, id, ip := [127, 0, 0, 9], port := 7946, tags := [], state }
    let remote : List (Env × StateToMerge) :=
      [({}, entry "peer" 3), ({}, entry "other" 1), ({}, entry "new" 0), ({}, entry "me" 0)]
    (remote.map fun er => er.2.id).Nodup ∧ (∀ er ∈ remote, er.2.lives < 2 ^ 32 - 1) ∧
      ∃ m₁, m.mergeState remote = some m₁ ∧ m₁.mergeState remote = some m₁ ∧
        ∃ m₂, m.mergeState remote.reverse = some m₂ ∧
          ∀ id, (m₂.suspicions id).isSome = (m₁.suspicions id).isSome := by
  intro other m entry remote
  have hids : (remote.map fun er => er.2.id).Nodup := by decide
  have hlives : ∀ er ∈ remote, er.2.lives < 2 ^ 32 - 1 := by
    intro er her
    have hone : er.2.lives = 1 := by
      simp only [remote, List.mem_cons, List.not_mem_nil, or_false] at her
      rcases her with rfl | rfl | rfl | rfl <;> rfl
    omega
  obtain ⟨m₁, h₁, hagain, horder⟩ :=
    merge_repeats_reorders (m := m) (reachable_state _ _) hids hlives
  obtain ⟨m₂, h₂, -, hsusp, -⟩ := horder remote.reverse (List.reverse_perm remote |>.map Prod.snd)
  exact ⟨hids, hlives, m₁, h₁, hagain remote rfl, m₂, h₂, hsusp⟩

end Mlist
