import Mlist.Race.LongRun

/-!
# Where the queued messages go

Calls of `queueLongRunMsg` and `getNextMsg` on one manager, one completed call after
the other. A `LongRunJournal` is a manager together with the messages it has
accepted and those it has given out.

`Inv` holds after every run: what was given out and what is still queued is what was
accepted, alive messages lie in the one queue and all others in the other, and a
queue is not deeper than it may be. `calls_account_for_messages` reads off what a
caller can rely on, in whatever order the calls come.

The depth is an `int` that nothing checks. A manager of negative depth refuses every
message, and its queues, which stay empty, are still deeper than their maximum.
-/

namespace Mlist

open Mlist.Lib LongRunMsgManager

namespace LongRunMsgManager

/-- The messages in the two queues. -/
def queued (mng : LongRunMsgManager) : List LongRunMsg :=
  mng.highPriorQueue ++ mng.lowPriorQueue

/-- Each message lies in the queue for its type, and no queue is deeper than it may
be. -/
structure Filed (qDepth : Int) (mng : LongRunMsgManager) : Prop where
  depth : mng.maxQueueDepth = qDepth
  high : ∀ m ∈ mng.highPriorQueue, m.mType = .alive
  low : ∀ m ∈ mng.lowPriorQueue, m.mType ≠ .alive
  highLen : (mng.highPriorQueue.length : Int) ≤ max qDepth 0
  lowLen : (mng.lowPriorQueue.length : Int) ≤ max qDepth 0

theorem Filed.new (qDepth : Int) : Filed qDepth (newLongRunMsgManager qDepth) where
  depth := rfl
  high := fun _ h => by cases h
  low := fun _ h => by cases h
  highLen := Int.le_max_right ..
  lowLen := Int.le_max_right ..

/-- An accepted message is one more in the queues. -/
theorem pushBack_queued (m : LongRunMsg) (mng : LongRunMsgManager) :
    (mng.pushBack m).queued.Perm (m :: mng.queued) := by
  unfold pushBack
  split
  next =>
    show ((mng.highPriorQueue ++ [m]) ++ mng.lowPriorQueue).Perm _
    rw [List.append_assoc]
    exact List.perm_middle
  next =>
    show (mng.highPriorQueue ++ (mng.lowPriorQueue ++ [m])).Perm _
    rw [← List.append_assoc]
    exact List.perm_append_singleton _ _

theorem Filed.pushBack {qDepth : Int} {mng : LongRunMsgManager} {m : LongRunMsg}
    (h : Filed qDepth mng) (hroom : ¬mng.Full m) : Filed qDepth (mng.pushBack m) := by
  have hlen : (((mng.queueFor m.mType) ++ [m]).length : Int) ≤ max qDepth 0 := by
    unfold Full at hroom
    rw [h.depth] at hroom
    rw [List.length_append, List.length_singleton]
    omega
  unfold queueFor at hlen
  unfold LongRunMsgManager.pushBack
  split
  next halive =>
    rw [if_pos halive] at hlen
    refine ⟨h.depth, ?_, h.low, hlen, h.lowLen⟩
    intro m' hm'
    rcases List.mem_append.mp hm' with hm' | hm'
    · exact h.high m' hm'
    · rw [List.mem_singleton.mp hm', halive]
  next halive =>
    rw [if_neg halive] at hlen
    refine ⟨h.depth, h.high, ?_, h.highLen, hlen⟩
    intro m' hm'
    rcases List.mem_append.mp hm' with hm' | hm'
    · exact h.low m' hm'
    · rwa [List.mem_singleton.mp hm']

/-- The queues that `getNextMsg` leaves hold one message less, or it found none. -/
theorem NextCase.queued {mng : LongRunMsgManager}
    {r : Except String LongRunMsg × LongRunMsgManager} (h : NextCase mng r) :
    (r.1.toOption.toList ++ r.2.queued).Perm mng.queued := by
  cases h with
  | high m hlast =>
    obtain ⟨older, holder⟩ := List.getLast?_eq_some_iff.mp hlast
    show (m :: (mng.highPriorQueue.dropLast ++ mng.lowPriorQueue)).Perm
      (mng.highPriorQueue ++ mng.lowPriorQueue)
    rw [holder, List.dropLast_concat, List.append_assoc]
    exact List.perm_middle.symm
  | low m hhigh hlast =>
    obtain ⟨older, holder⟩ := List.getLast?_eq_some_iff.mp hlast
    show (m :: (mng.highPriorQueue ++ mng.lowPriorQueue.dropLast)).Perm
      (mng.highPriorQueue ++ mng.lowPriorQueue)
    rw [holder, List.dropLast_concat, ← List.append_assoc]
    exact (List.perm_append_singleton _ _).symm
  | empty hhigh hlow => exact List.Perm.refl _

theorem NextCase.filed {qDepth : Int} {mng : LongRunMsgManager}
    {r : Except String LongRunMsg × LongRunMsgManager} (h : NextCase mng r)
    (hfiled : Filed qDepth mng) : Filed qDepth r.2 := by
  have hshorter : ∀ q : List LongRunMsg, (q.length : Int) ≤ max qDepth 0 →
      (q.dropLast.length : Int) ≤ max qDepth 0 := by
    intro q hq
    rw [List.length_dropLast]
    omega
  cases h with
  | high m hlast =>
    exact ⟨hfiled.depth, fun m' hm' => hfiled.high m' ((List.dropLast_sublist _).subset hm'),
      hfiled.low,
      hshorter _ hfiled.highLen, hfiled.lowLen⟩
  | low m hhigh hlast =>
    exact ⟨hfiled.depth, hfiled.high,
      fun m' hm' => hfiled.low m' ((List.dropLast_sublist _).subset hm'),
      hfiled.highLen, hshorter _ hfiled.lowLen⟩
  | empty hhigh hlow =>
    exact ⟨hfiled.depth, hfiled.high, hfiled.low, hfiled.highLen, hfiled.lowLen⟩

end LongRunMsgManager

/-! ## The journal -/

/-- A manager, and the messages that went in and came out. -/
structure LongRunJournal where
  mng : LongRunMsgManager
  accepted : List LongRunMsg
  returned : List LongRunMsg
  deriving DecidableEq, Repr

namespace LongRunJournal

/-- A fresh manager. -/
def new (qDepth : Int) : LongRunJournal :=
  { mng := newLongRunMsgManager qDepth, accepted := [], returned := [] }

/-- One completed call, entered in the journal. -/
def step : LongRunCall → LongRunJournal → Option LongRunJournal
  | .queueLongRunMsg m, j =>
    (j.mng.queueLongRunMsg m).map fun r =>
      { j with mng := r.2, accepted := j.accepted ++ (r.1.map fun _ => m).toOption.toList }
  | .getNextMsg, j =>
    j.mng.getNextMsg.map fun r =>
      { j with mng := r.2, returned := j.returned ++ r.1.toOption.toList }

/-- The journal takes no part in the calls. -/
theorem step_mng (c : LongRunCall) (j : LongRunJournal) :
    (step c j).map (·.mng) = c.step j.mng := by
  cases c with
  | queueLongRunMsg m =>
    show ((j.mng.queueLongRunMsg m).map _).map _ = ((j.mng.queueLongRunMsg m).map _).map _
    rw [Option.map_map, Option.map_map]
    rfl
  | getNextMsg =>
    show (j.mng.getNextMsg.map _).map _ = (j.mng.getNextMsg.map _).map _
    rw [Option.map_map, Option.map_map]
    rfl

/-- The invariant of the journal. -/
structure Inv (qDepth : Int) (j : LongRunJournal) : Prop where
  filed : Filed qDepth j.mng
  /-- no message is lost, and none comes out twice -/
  account : (j.returned ++ j.mng.queued).Perm j.accepted

theorem new_inv (qDepth : Int) : Inv qDepth (new qDepth) where
  filed := Filed.new qDepth
  account := List.Perm.refl _

/-- **A completed call keeps the account.** -/
theorem step_inv (qDepth : Int) (c : LongRunCall) (j j' : LongRunJournal) (h : Inv qDepth j)
    (hstep : step c j = some j') : Inv qDepth j' := by
  cases c with
  | queueLongRunMsg m =>
    obtain ⟨r, hr, rfl⟩ := Option.map_eq_some_iff.mp hstep
    cases queueLongRunMsg_case hr with
    | refused hfull =>
      refine ⟨⟨h.filed.depth, h.filed.high, h.filed.low, h.filed.highLen, h.filed.lowLen⟩, ?_⟩
      show (j.returned ++ j.mng.queued).Perm (j.accepted ++ [])
      rw [List.append_nil]
      exact h.account
    | accepted hroom =>
      refine ⟨h.filed.pushBack hroom, ?_⟩
      show (j.returned ++ (j.mng.pushBack m).queued).Perm (j.accepted ++ [m])
      calc (j.returned ++ (j.mng.pushBack m).queued).Perm (j.returned ++ m :: j.mng.queued) :=
            (pushBack_queued m j.mng).append_left _
        List.Perm _ (m :: (j.returned ++ j.mng.queued)) := List.perm_middle
        List.Perm _ (m :: j.accepted) := h.account.cons m
        List.Perm _ (j.accepted ++ [m]) := (List.perm_append_singleton _ _).symm
  | getNextMsg =>
    obtain ⟨r, hr, rfl⟩ := Option.map_eq_some_iff.mp hstep
    have hnext := getNextMsg_case hr
    refine ⟨hnext.filed h.filed, ?_⟩
    show (j.returned ++ r.1.toOption.toList ++ r.2.queued).Perm j.accepted
    rw [List.append_assoc]
    exact (hnext.queued.append_left _).trans h.account

/-- A run of the journal is a run of the manager. -/
theorem run_mng {calls : List LongRunCall} {j j' : LongRunJournal}
    (h : run step calls j = some j') : run LongRunCall.step calls j.mng = some j'.mng := by
  have hproject : run LongRunCall.step (calls.filter fun _ => true) j.mng = some j'.mng := by
    refine run_project (P := fun _ => True) (fun _ => true) (fun _ _ _ _ _ => trivial) ?_ ?_
      trivial h
    · intro c i i' _ _ hi
      rw [← step_mng, hi, Option.map_some]
    · intro c i i' _ hc
      cases hc
  rwa [List.filter_true] at hproject

/-- **Every message is accounted for.** After every sequence of completed calls on a
fresh manager: the messages given out and those still queued are the accepted ones,
each as often; neither queue is deeper than the maximum, or than nothing where that is
negative; the next call of `queueLongRunMsg` is refused exactly if the message's own
queue is full; the next call of `getNextMsg` gives out a message that is not an alive
one only if no alive message is queued, and fails only if both queues are empty. -/
theorem calls_account_for_messages {qDepth : Int} {calls : List LongRunCall} {j : LongRunJournal}
    (hrun : run step calls (new qDepth) = some j) :
    run LongRunCall.step calls (newLongRunMsgManager qDepth) = some j.mng ∧
      (j.returned ++ j.mng.queued).Perm j.accepted ∧
      (j.mng.highPriorQueue.length : Int) ≤ max j.mng.maxQueueDepth 0 ∧
      (j.mng.lowPriorQueue.length : Int) ≤ max j.mng.maxQueueDepth 0 ∧
      (∀ m r mng', j.mng.queueLongRunMsg m = some (r, mng') →
        ((∃ e, r = .error e) ↔ j.mng.Full m)) ∧
      (∀ m mng', j.mng.getNextMsg = some (.ok m, mng') → m.mType ≠ .alive →
        ∀ m' ∈ j.mng.queued, m'.mType ≠ .alive) ∧
      (∀ e mng', j.mng.getNextMsg = some (.error e, mng') →
        j.mng.highPriorQueue = [] ∧ j.mng.lowPriorQueue = []) := by
  have hinv := run_inv (step_inv qDepth) (new_inv qDepth) hrun
  have hfiled := hinv.filed
  refine ⟨run_mng hrun, hinv.account, hfiled.depth ▸ hfiled.highLen, hfiled.depth ▸ hfiled.lowLen,
    ?_, ?_, ?_⟩
  · intro m r mng' hcall
    cases queueLongRunMsg_case hcall with
    | refused hfull => exact ⟨fun _ => hfull, fun _ => ⟨_, rfl⟩⟩
    | accepted hroom => exact ⟨fun ⟨_, he⟩ => (nomatch he), fun hfull => absurd hfull hroom⟩
  · intro m mng' hcall hm m' hm'
    cases getNextMsg_case hcall with
    | high _ hlast => exact absurd (hfiled.high m (List.mem_of_getLast? hlast)) hm
    | low _ hhigh _ =>
      unfold queued at hm'
      rw [hhigh, List.nil_append] at hm'
      exact hfiled.low m' hm'
  · intro e mng' hcall
    cases getNextMsg_case hcall with
    | empty hhigh hlow => exact ⟨hhigh, hlow⟩

/-- A dead message and an alive one: the alive one comes out first, and a second dead
one does not fit. -/
theorem calls_account_for_messages_two :
    let addr : UDPAddr := ⟨[127, 0, 0, 1], 7946⟩
    let dead : LongRunMsg := ⟨.dead, [], addr⟩
    let alive : LongRunMsg := ⟨.alive, [], addr⟩
    let calls : List LongRunCall :=
      [.queueLongRunMsg dead, .queueLongRunMsg alive, .getNextMsg, .queueLongRunMsg dead]
    ∃ j, run step calls (new 1) = some j ∧ j.accepted = [dead, alive] ∧ j.returned = [alive] ∧
      (j.returned ++ j.mng.queued).Perm j.accepted := by
  intro addr dead alive calls
  have hrun : run step calls (new 1) = some
      { mng := { newLongRunMsgManager 1 with lowPriorQueue := [dead], locked := true }
        accepted := [dead, alive], returned := [alive] } := rfl
  exact ⟨_, hrun, rfl, rfl, (calls_account_for_messages hrun).2.1⟩

/-- The queues of a manager of depth -1 are empty, and that is more than -1. -/
theorem negative_depth_exceeded :
    ¬∀ (qDepth : Int) (calls : List LongRunCall) (j : LongRunJournal),
      run step calls (new qDepth) = some j →
        (j.mng.highPriorQueue.length : Int) ≤ j.mng.maxQueueDepth := by
  intro h
  have hlen : ((new (-1)).mng.highPriorQueue.length : Int) ≤ -1 := h (-1) [] _ rfl
  exact absurd hlen (by decide)

end LongRunJournal

end Mlist
