import Mlist.Member.Merge
import Mlist.Race.Sys

/-!
# What is gossiped during a suspicion

A suspect message is passed on when it raises a suspicion, and again for every message that
`Confirm` takes as new. While a node is suspect, its suspicion object and the messages queued
about it go together: `confirmMap` holds the senders of exactly these messages, last one
first (`Period`). So `Confirm`, which lets nobody in twice and nobody in beyond the cap,
bounds what is gossiped, however many suspect messages arrive and in whatever order.

The period ends when the node leaves `StateSuspect`; a handler that makes it do so is about
this node (`deadNode_period` and `aliveLocked_period` need the node to be suspect afterwards).
-/

namespace Mlist

open Mlist.Lib

variable {H : Type} {m m' : Memberlist H} {id : String} {k : Nat} {before : List (String × Msg)}

/-- The record of the node says `StateSuspect`. -/
def Memberlist.Suspected (m : Memberlist H) (id : String) : Prop :=
  (m.lookup id).map (·.state) = some .suspect

instance (m : Memberlist H) (id : String) : Decidable (m.Suspected id) :=
  inferInstanceAs (Decidable (_ = _))

theorem Memberlist.suspected_iff :
    m.Suspected id ↔ ∃ r, m.lookup id = some r ∧ r.state = .suspect := Option.map_eq_some_iff

/-- The `From` of a suspect message about `id`. -/
def Msg.accuser (id : String) : Msg → Option String
  | .suspect s => if s.id = id then some s.sender else none
  | .alive _ => none
  | .dead _ => none

/-- The `From`s of the suspect messages about `id`, in the order they were queued. -/
def accusers (id : String) (queued : List (String × Msg)) : List String :=
  queued.filterMap fun nm => nm.2.accuser id

theorem accusers_append (id : String) (l l' : List (String × Msg)) :
    accusers id (l ++ l') = accusers id l ++ accusers id l' := List.filterMap_append

/-- The suspicion of `id` is the object `k`, and the suspect messages about it that were
queued behind `before` are those of its confirmers. -/
structure Period (id : String) (k : Nat) (before : List (String × Msg)) (m : Memberlist H) :
    Prop where
  sound : Sound m
  current : m.suspicions id = some k
  queued : ∃ since, m.queued = before ++ since ∧
    accusers id since = (m.suspObjs k).confirmMap.reverse
  nodup : (m.suspObjs k).confirmMap.Nodup
  cap : ((m.suspObjs k).confirmMap.length : Int) ≤ max 1 (m.suspObjs k).confirmCap

/-- What queues no suspect message about the node and leaves its suspicion alone. -/
theorem Period.keep (h : Period id k before m) (hs : Sound m')
    (hsusp : m'.suspicions id = m.suspicions id) (hobj : m'.suspObjs k = m.suspObjs k)
    (hqueued : ∃ new, m'.queued = m.queued ++ new ∧ accusers id new = []) :
    Period id k before m' := by
  obtain ⟨new, hnew, hnone⟩ := hqueued
  obtain ⟨since, hsince, hacc⟩ := h.queued
  refine ⟨hs, hsusp.trans h.current, ⟨since ++ new, ?_, ?_⟩, ?_, ?_⟩
  · rw [hnew, hsince, List.append_assoc]
  · rw [accusers_append, hnone, List.append_nil, hobj]
    exact hacc
  · rw [hobj]
    exact h.nodup
  · rw [hobj]
    exact h.cap

/-- The same where nothing is queued. -/
theorem Period.quiet (h : Period id k before m) (hs : Sound m')
    (hsusp : m'.suspicions id = m.suspicions id) (hobj : m'.suspObjs k = m.suspObjs k)
    (hqueued : m'.queued = m.queued) : Period id k before m' :=
  h.keep hs hsusp hobj ⟨[], by rw [hqueued, List.append_nil], rfl⟩

/-- A confirmation that is new: its sender was not there, there was room, and now it is. -/
theorem Suspicion.confirm_new {sc : Suspicion} {sender : String}
    (h : (sc.confirm sender).1 = true) :
    sender ∉ sc.confirmMap ∧ (sc.confirmMap.length : Int) < sc.confirmCap ∧
      (sc.confirm sender).2 = { sc with confirmMap := sender :: sc.confirmMap } := by
  unfold Suspicion.confirm at h ⊢
  split at h
  next => cases h
  next hcap =>
    split at h
    next => cases h
    next hfresh =>
      rw [if_neg hcap, if_neg hfresh]
      exact ⟨fun hmem => hfresh (List.contains_iff_mem.mpr hmem), Int.not_le.mp hcap, rfl⟩

/-- An alive message either ends the suspicion or is too old to matter. -/
theorem aliveLocked_period (h : Period id k before m) (env : Env) (a : Alive)
    (notify : Option Nat) (hs : Sound (m.aliveLocked env a notify).1)
    (hstill : (m.aliveLocked env a notify).1.Suspected id) :
    Period id k before (m.aliveLocked env a notify).1 := by
  have hcase := aliveLocked_case m env a notify
  generalize m.aliveLocked env a notify = res at hcase hs hstill ⊢
  cases hcase with
  | joined habs => exact h.quiet hs rfl rfl rfl
  | stale p hmap hold => exact h
  | news p hmap hnew =>
    refine h.quiet hs (Function.update_of_ne ?_ _ _) rfl rfl
    -- a node that is revived is not suspect
    intro he
    have hlook := h.sound.registry.lookup_setRecord hmap
      (Memberlist.revivedRecord env a (m.records p)) id
    rw [if_pos he] at hlook
    obtain ⟨r, hr, hstate⟩ := Memberlist.suspected_iff.mp hstill
    have hrev : some (Memberlist.revivedRecord env a (m.records p)) = some r := hlook.symm.trans hr
    rw [← Option.some.inj hrev] at hstate
    cases hstate

section Handlers

variable [Encoded Msg] [Heap H (TransmitCapItem Msg)]

/-- A refutation leaves the suspicions of others alone. -/
theorem refute_period (h : Period id k before m) {p lives : Nat} (hs : Sound m')
    (href : m.refute p lives = some m') : Period id k before m' := by
  obtain ⟨calls, -, rfl⟩ := refute_case href
  exact h.keep hs rfl rfl ⟨_, rfl, rfl⟩

/-- A suspect message about another node accuses nobody else. -/
theorem suspectNode_accusers {env : Env} {s : Suspect} (hid : s.id ≠ id)
    (hret : m.suspectNode env s = some m') :
    ∃ new, m'.queued = m.queued ++ new ∧ accusers id new = [] := by
  have hnone : accusers id [(s.id, .suspect s)] = [] := by
    simp [accusers, Msg.accuser, hid]
  cases suspectNode_case hret with
  | unknown => exact ⟨[], (List.append_nil _).symm, rfl⟩
  | stale => exact ⟨[], (List.append_nil _).symm, rfl⟩
  | confirmed => exact ⟨_, rfl, hnone⟩
  | heard => exact ⟨[], (List.append_nil _).symm, rfl⟩
  | notAlive => exact ⟨[], (List.append_nil _).symm, rfl⟩
  | refuted p _ _ _ _ _ _ href =>
    obtain ⟨calls, -, rfl⟩ := refute_case href
    exact ⟨_, rfl, rfl⟩
  | raised => exact ⟨_, rfl, hnone⟩

/-- **A suspect message keeps the count.** It confirms the suspicion and is queued, or it is
neither. -/
theorem suspectNode_period (h : Period id k before m) {env : Env} {s : Suspect} (hs : Sound m')
    (hret : m.suspectNode env s = some m') : Period id k before m' := by
  by_cases hid : s.id = id
  · cases suspectNode_case hret with
    | unknown => exact h
    | stale => exact h
    | confirmed p j hmap _ hsusp hfresh =>
      rw [hid, h.current] at hsusp
      obtain rfl := Option.some.inj hsusp
      -- somebody new: one more in the map, and one more message queued
      obtain ⟨hnot, hroom, hnew⟩ := Suspicion.confirm_new hfresh
      obtain ⟨since, hsince, hacc⟩ := h.queued
      have hobj : Function.update m.suspObjs k ((m.suspObjs k).confirm s.sender).2 k =
          { m.suspObjs k with confirmMap := s.sender :: (m.suspObjs k).confirmMap } := by
        rw [Function.update_self, hnew]
      refine ⟨hs, h.current, ⟨since ++ [(s.id, .suspect s)], ?_, ?_⟩, ?_, ?_⟩
      · show m.queued ++ [(s.id, .suspect s)] = _
        rw [hsince, List.append_assoc]
      · show _ = (Function.update m.suspObjs k _ k).confirmMap.reverse
        rw [hobj, accusers_append, hacc, List.reverse_cons]
        simp [accusers, Msg.accuser, hid]
      · show (Function.update m.suspObjs k _ k).confirmMap.Nodup
        rw [hobj]
        exact List.nodup_cons.mpr ⟨hnot, h.nodup⟩
      · show ((Function.update m.suspObjs k _ k).confirmMap.length : Int) ≤
          max 1 (Function.update m.suspObjs k _ k).confirmCap
        rw [hobj]
        dsimp only
        rw [List.length_cons]
        omega
    | heard p j hmap _ hsusp hfresh =>
      rw [hid, h.current] at hsusp
      obtain rfl := Option.some.inj hsusp
      -- heard before, or there are enough of them: neither
      refine h.quiet hs rfl ?_ rfl
      show Function.update m.suspObjs k _ k = _
      rw [Function.update_self, Suspicion.confirm_not_new hfresh]
    | notAlive => exact h
    | refuted p _ _ _ _ _ _ href => exact refute_period h hs href
    | raised p _ _ hsusp _ _ =>
      rw [hid, h.current] at hsusp
      cases hsusp
  · have hu := suspectNode_untouched h.sound (fun he => hid he.symm) hret
    exact h.keep hs hu.suspicions (hu.suspObjs k h.current) (suspectNode_accusers hid hret)

/-- A dead message ends the suspicion of the node it names. -/
theorem deadNode_period (h : Period id k before m) {env : Env} {d : Dead} {notify : Option Nat}
    (hs : Sound m') (hret : m.deadNode env d notify = some m') (hstill : m'.Suspected id) :
    Period id k before m' := by
  cases deadNode_case hret with
  | unknown => exact h
  | stale => exact h
  | already => exact h
  | refuted p _ _ _ _ _ _ href => exact refute_period h hs href
  | killed p hmap _ _ _ =>
    have hk := killed_fields env d notify p m
    refine h.keep hs ?_ (by rw [hk.suspObjs]) ⟨_, hk.queued, rfl⟩
    rw [hk.suspicions]
    refine Function.update_of_ne ?_ _ _
    -- a node that is declared dead is not suspect
    intro he
    have hlook := h.sound.registry.lookup_of_records hmap hk.nodeMap hk.records id
    rw [if_pos he] at hlook
    obtain ⟨r, hr, hstate⟩ := Memberlist.suspected_iff.mp hstill
    rw [← Option.some.inj (hlook.symm.trans hr)] at hstate
    exact deadRecord_not_suspect env d _ hstate

/-! ## The whole period -/

/-- **Whatever is done while the node stays suspect** keeps the count. -/
theorem act_period {s s' : Sys H} {a : Action} (h : Period id k before s.m)
    (ha : Sys.Acts s a s') (hstill : s'.m.Suspected id) : Period id k before s'.m := by
  have hs : Sound s'.m := Sys.act_inv atom_sound sound_reap ha h.sound
  cases ha with
  | called => exact h
  | refused => exact h
  | tagged => exact h.quiet hs rfl rfl rfl
  | passed => exact h
  | turnedAway => exact h
  | locked j env a notify => exact aliveLocked_period h env a notify hs hstill
  | broadcast => exact h.keep hs rfl rfl ⟨_, rfl, rfl⟩
  | join => exact h.quiet hs rfl rfl rfl
  | update => exact h.quiet hs rfl rfl rfl
  | returned => exact h
  | suspected env sus m' hret => exact suspectNode_period h hs hret
  | died env d notify m' hret => exact deadNode_period h hs hret hstill
  | flagged => exact h.quiet hs rfl rfl rfl
  | found => exact h
  | missing => exact h
  | read => exact h
  | left env notify d m' _ hret => exact deadNode_period h hs hret hstill
  | drained => exact h.quiet hs rfl rfl rfl
  | reaped => exact h.quiet hs rfl rfl rfl

/-- The `suspectNode` that makes a node suspect opens the period. -/
theorem period_opens (hm : Sound m) {env : Env} {s : Suspect} (hnot : ¬ m.Suspected s.id)
    (hret : m.suspectNode env s = some m') (hnow : m'.Suspected s.id) :
    ∃ k, Period s.id k m.queued m' := by
  have hstep : step (.suspect env s) m = some m' := hret
  have hs : Sound m' := step_sound hm hstep
  cases suspectNode_case hret with
  | unknown => exact absurd hnow hnot
  | stale => exact absurd hnow hnot
  | confirmed => exact absurd hnow hnot
  | heard => exact absurd hnow hnot
  | notAlive => exact absurd hnow hnot
  | refuted p _ _ _ _ _ hself _ =>
    -- nobody suspects themselves
    obtain ⟨r, hr, hstate⟩ := Memberlist.suspected_iff.mp hnow
    have hid : s.id = m'.id := hself.trans (step_id hstep).symm
    rw [hid] at hr
    exact absurd hstate (hs.suspects.self_not_suspect hr)
  | raised p hmap _ _ _ _ =>
    have hk := raised_fields env s p m
    have hcurrent := congrFun hk.suspicions s.id
    have hobj := congrFun hk.suspObjs m.numSusps
    rw [Function.update_self] at hcurrent hobj
    refine ⟨m.numSusps, hs, hcurrent, ⟨[(s.id, .suspect s)], hk.queued, ?_⟩, ?_, ?_⟩
    · rw [hobj]
      simp [accusers, Msg.accuser, newSuspicion]
    · rw [hobj]
      exact List.nodup_singleton _
    · rw [hobj]
      exact le_max_left _ _

/-- **One broadcast for each confirmer.** In every run of a member that was built, take a
`suspectNode` that makes a node suspect, and then anything its goroutines do while the node
stays suspect. The suspect messages about the node queued since then are as many as its
suspicion has confirmations, at most `max 1 confirmCap`, and their `From`s — those of the
confirmers — are pairwise distinct. -/
theorem suspicion_gossip_bounded {env env' : Env} {config : Config} {m₀ : Memberlist H}
    (hb : Memberlist.build env config = .ok m₀) {pre as : List Action} {s s₀ t : Sys H}
    (hpre : run Sys.act pre (Sys.start m₀) = some s) {sus : Suspect}
    (hnot : ¬ s.m.Suspected sus.id) (hraise : Sys.act (.suspectNode env' sus) s = some s₀)
    (hall : Along Sys.act (fun u => u.m.Suspected sus.id) as s₀)
    (hrun : run Sys.act as s₀ = some t) :
    ∃ k since, t.m.suspicions sus.id = some k ∧ t.m.queued = s.m.queued ++ since ∧
      (accusers sus.id since).length = (t.m.suspObjs k).confirmMap.length ∧
      ((accusers sus.id since).length : Int) ≤ max 1 (t.m.suspObjs k).confirmCap ∧
      (accusers sus.id since).Nodup ∧
      ∀ f, f ∈ accusers sus.id since ↔ f ∈ (t.m.suspObjs k).confirmMap := by
  have hsound : Sound s.m := by
    refine run_inv (P := fun u : Sys H => Sound u.m) ?_ ?_ hpre
    · intro a u v hu hv
      exact Sys.act_inv atom_sound sound_reap (Sys.act_case hv) hu
    · exact reachable_sound ⟨env, config, m₀, [], hb, rfl⟩
  obtain ⟨m', hret, rfl⟩ := Option.map_eq_some_iff.mp hraise
  obtain ⟨k, hopen⟩ := period_opens hsound hnot hret hall.head
  have hperiod : Period sus.id k s.m.queued t.m := by
    refine run_inv_along (P := fun u : Sys H => Period sus.id k s.m.queued u.m) ?_ hopen hall hrun
    intro a u v hu hv hact
    exact act_period hu (Sys.act_case hact) hv
  obtain ⟨since, hsince, hacc⟩ := hperiod.queued
  have hlen : (accusers sus.id since).length = (t.m.suspObjs k).confirmMap.length := by
    rw [hacc, List.length_reverse]
  refine ⟨k, since, hperiod.current, hsince, hlen, ?_, ?_, fun f => ?_⟩
  · rw [hlen]
    exact hperiod.cap
  · rw [hacc, List.nodup_reverse]
    exact hperiod.nodup
  · rw [hacc, List.mem_reverse]

end Handlers

namespace Concrete

/-- A node joins. -/
def joining (id : String) : List Action :=
  [.aliveNode 0 { lives := 1, id, ip := [127, 0, 0, 2], port := 7946, tags := [] } none,
    .check 0, .lock 0 {}, .publish 0, .publish 0, .publish 0]

/-- Four nodes have joined. -/
def four : List Action := joining "peer" ++ joining "a" ++ joining "b" ++ joining "c"

theorem four_isSome : (raced four).isSome = true := by decide +kernel

/-- A suspicion of `"peer"`. -/
def suspicionFrom (sender : String) : Suspect := { lives := 1, id := "peer", sender }

/-- The first of them is suspected, by one of the others. -/
def suspicionRaised : Action := .suspectNode {} (suspicionFrom "a")

theorem suspicionRaised_isSome :
    (Sys.act suspicionRaised (raceEnd four four_isSome)).isSome = true := by
  decide +kernel

/-- After the first suspicion. -/
def raisedSys : Sys (List (TransmitCapItem Msg)) :=
  (Sys.act suspicionRaised (raceEnd four four_isSome)).get suspicionRaised_isSome

/-- Three nodes suspect it then, two of them again. -/
def confirmations : List Action :=
  ["b", "a", "b", "c"].map fun sender => .suspectNode {} (suspicionFrom sender)

theorem confirmations_isSome : (run Sys.act confirmations raisedSys).isSome = true := by
  decide +kernel

/-- After the other ones. -/
def confirmedSys : Sys (List (TransmitCapItem Msg)) :=
  (run Sys.act confirmations raisedSys).get confirmations_isSome

end Concrete

open Concrete in
/-- Five suspect messages from three nodes: three are passed on, one for each node. -/
theorem suspicion_gossip_bounded_three :
    (confirmedSys.m.suspObjs 0).confirmMap = ["c", "b", "a"] ∧
      ∃ k since, confirmedSys.m.suspicions "peer" = some k ∧
        confirmedSys.m.queued = (raceEnd four four_isSome).m.queued ++ since ∧
        (accusers "peer" since).length = (confirmedSys.m.suspObjs k).confirmMap.length ∧
        (accusers "peer" since).Nodup := by
  refine ⟨by decide +kernel, ?_⟩
  have hnot : ¬ (raceEnd four four_isSome).m.Suspected (suspicionFrom "a").id := by decide +kernel
  have hraise : Sys.act (.suspectNode {} (suspicionFrom "a")) (raceEnd four four_isSome) =
      some raisedSys := (Option.some_get suspicionRaised_isSome).symm
  have hall : Along Sys.act (fun u => u.m.Suspected (suspicionFrom "a").id) confirmations
      raisedSys := by decide +kernel
  have hrun : run Sys.act confirmations raisedSys = some confirmedSys :=
    (Option.some_get confirmations_isSome).symm
  obtain ⟨k, since, hk, hsince, hlen, -, hnodup, -⟩ :=
    suspicion_gossip_bounded (build_built "me" (by decide)) (raced_eq four four_isSome) hnot hraise
      hall hrun
  exact ⟨k, since, hk, hsince, hlen, hnodup⟩

end Mlist
