import Mlist.Model.LongRun

/-!
# Messages that get stuck

Two things can go wrong between the goroutines that queue long-running messages
and the one that handles them.

A call that meets a full queue returns without letting go of the mutex, and from
then on every call, the handler's included, is blocked. `calls_sound_iff` says that
this is the only way: a sequence of calls is sound — each of them returns, leaves
the mutex free, and changes nothing if it is refused — exactly when no call meets a
full queue.

And a notification can get lost. The handler is told by a send that is dropped
unless it is in its `select`, so a message queued after the handler's last look at
the queues, and announced before it is back in its `select`, lies there until the
next one comes. `drained_when_heard` says that this is the only way: as long as no
goroutine notifies a handler that is on its way to its `select`, a handler that is
there, with no call in progress, has emptied both queues. What carries the argument
is that a message in a queue has somebody looking after it (`Minded`): a handler
that will look again, or a caller that has not sent yet.
-/

namespace Mlist

open Mlist.Lib

/-! ## Calls one after the other -/

namespace LongRunMsgManager

/-- The queue of this message is full. -/
def Full (m : LongRunMsg) (mng : LongRunMsgManager) : Prop :=
  ((mng.queueFor m.mType).length : Int) ≥ mng.maxQueueDepth

instance (m : LongRunMsg) (mng : LongRunMsgManager) : Decidable (mng.Full m) :=
  inferInstanceAs (Decidable (_ ≥ _))

theorem lock_of_free {mng : LongRunMsgManager} (h : mng.locked = false) :
    mng.lock = some { mng with locked := true } :=
  if_neg (Bool.eq_false_iff.mp h)

/-- With the mutex free: a full queue is left as it is and the mutex is kept. -/
theorem queueLongRunMsg_of_full {m : LongRunMsg} {mng : LongRunMsgManager}
    (h : mng.locked = false) (hfull : mng.Full m) :
    mng.queueLongRunMsg m = some (.error errQueueFull, { mng with locked := true }) := by
  unfold queueLongRunMsg
  rw [lock_of_free h, Option.map_some]
  exact congrArg some (if_pos hfull)

theorem queueLongRunMsg_of_not_full {m : LongRunMsg} {mng : LongRunMsgManager}
    (h : mng.locked = false) (hfull : ¬mng.Full m) :
    mng.queueLongRunMsg m = some (.ok (), mng.pushBack m) := by
  have hfree : unlock (pushBack m { mng with locked := true }) = mng.pushBack m := by
    unfold pushBack
    split <;> simp [unlock, h]
  unfold queueLongRunMsg
  rw [lock_of_free h, Option.map_some, ← hfree]
  exact congrArg some (if_neg hfull)

theorem pushBack_locked (m : LongRunMsg) (mng : LongRunMsgManager) :
    (mng.pushBack m).locked = mng.locked := by
  unfold pushBack
  split <;> rfl

/-- What `queueLongRunMsg` can come to: its queue is full, or the message is in it. -/
inductive QueueCase (m : LongRunMsg) (mng : LongRunMsgManager) :
    Except String Unit × LongRunMsgManager → Prop where
  | refused (hfull : mng.Full m) :
    QueueCase m mng (.error errQueueFull, { mng with locked := true })
  | accepted (hroom : ¬mng.Full m) : QueueCase m mng (.ok (), mng.pushBack m)

theorem queueLongRunMsg_case {m : LongRunMsg} {mng : LongRunMsgManager}
    {r : Except String Unit × LongRunMsgManager} (h : mng.queueLongRunMsg m = some r) :
    QueueCase m mng r := by
  cases hlocked : mng.locked with
  | true =>
    unfold queueLongRunMsg lock at h
    rw [if_pos hlocked] at h
    cases h
  | false =>
    by_cases hfull : mng.Full m
    · rw [queueLongRunMsg_of_full hlocked hfull] at h
      exact Option.some.inj h ▸ .refused hfull
    · rw [queueLongRunMsg_of_not_full hlocked hfull] at h
      exact Option.some.inj h ▸ .accepted hfull

/-- What `getNextMsg` can find: an alive message, another one, or nothing. The mutex
is free in any case. -/
inductive NextCase (mng : LongRunMsgManager) :
    Except String LongRunMsg × LongRunMsgManager → Prop where
  | high (m : LongRunMsg) (hlast : mng.highPriorQueue.getLast? = some m) :
    NextCase mng (.ok m,
      { mng with highPriorQueue := mng.highPriorQueue.dropLast, locked := false })
  | low (m : LongRunMsg) (hhigh : mng.highPriorQueue = [])
    (hlast : mng.lowPriorQueue.getLast? = some m) :
    NextCase mng (.ok m,
      { mng with lowPriorQueue := mng.lowPriorQueue.dropLast, locked := false })
  | empty (hhigh : mng.highPriorQueue = []) (hlow : mng.lowPriorQueue = []) :
    NextCase mng (.error errNoLongRunMsg, { mng with locked := false })

theorem getNextMsg_case {mng : LongRunMsgManager}
    {r : Except String LongRunMsg × LongRunMsgManager} (h : mng.getNextMsg = some r) :
    NextCase mng r := by
  unfold getNextMsg lock at h
  split at h
  next => cases h
  next =>
    rw [Option.map_some] at h
    obtain rfl := Option.some.inj h
    split
    next m hlast => exact .high m hlast
    next hhigh =>
      have hhigh := List.getLast?_eq_none_iff.mp hhigh
      split
      next m hlast => exact .low m hhigh hlast
      next hlow => exact .empty hhigh (List.getLast?_eq_none_iff.mp hlow)

theorem getNextMsg_returns {mng : LongRunMsgManager} (h : mng.locked = false) :
    ∃ r, mng.getNextMsg = some r := by
  unfold getNextMsg
  rw [lock_of_free h]
  exact ⟨_, rfl⟩

end LongRunMsgManager

open LongRunMsgManager

namespace LongRunCall

/-- The call does not meet a full queue. -/
def Fits (mng : LongRunMsgManager) : LongRunCall → Prop
  | .queueLongRunMsg m => ¬mng.Full m
  | .getNextMsg => True

/-- The call returns, leaves the mutex free, and if it is refused for a full queue it
leaves everything as it was. -/
def Sound (mng : LongRunMsgManager) (c : LongRunCall) : Prop :=
  ∃ r mng', c.exec mng = some (r, mng') ∧ mng'.locked = false ∧
    (r = .error errQueueFull → mng' = mng)

theorem fits_iff_sound (c : LongRunCall) (mng : LongRunMsgManager) (h : mng.locked = false) :
    c.Fits mng ↔ c.Sound mng := by
  cases c with
  | queueLongRunMsg m =>
    constructor
    · intro hfits
      refine ⟨.ok none, mng.pushBack m, ?_, ?_, fun he => by cases he⟩
      · show (mng.queueLongRunMsg m).map _ = _
        rw [queueLongRunMsg_of_not_full h hfits]
        rfl
      · rw [pushBack_locked, h]
    · intro hsound hfull
      obtain ⟨r, mng', hexec, hfree, -⟩ := hsound
      -- a full queue: the error is returned with the mutex still locked
      have hkept : exec (.queueLongRunMsg m) mng =
          some (.error errQueueFull, { mng with locked := true }) := by
        show (mng.queueLongRunMsg m).map _ = _
        rw [queueLongRunMsg_of_full h hfull]
        rfl
      rw [hkept] at hexec
      obtain ⟨-, rfl⟩ := Prod.mk.inj (Option.some.inj hexec)
      cases hfree
  | getNextMsg =>
    refine iff_of_true trivial ?_
    obtain ⟨r, hr⟩ := getNextMsg_returns h
    have hexec : exec .getNextMsg mng = some (r.1.map some, r.2) := by
      show mng.getNextMsg.map _ = _
      rw [hr]
      rfl
    refine ⟨r.1.map some, r.2, hexec, ?_, ?_⟩
    · cases getNextMsg_case hr <;> rfl
    · intro he
      cases getNextMsg_case hr with
      | high m _ => cases he
      | low m _ _ => cases he
      | empty _ _ => exact absurd (Except.error.inj he) (by decide)

/-- **Calls are sound exactly as long as no queue is full.** For every sequence of
calls on a fresh manager: every call returns, leaves the mutex free, and if it is
refused for a full queue leaves the manager as it was, exactly when none of them
meets a full queue. -/
theorem calls_sound_iff (qDepth : Int) (calls : List LongRunCall) :
    Each step Sound calls (newLongRunMsgManager qDepth) ↔
      Each step Fits calls (newLongRunMsgManager qDepth) := by
  refine (each_iff (P := fun mng => mng.locked = false) fits_iff_sound ?_ rfl).symm
  intro c mng mng' h hfits hstep
  obtain ⟨r, mng₁, hexec, hfree, -⟩ := (fits_iff_sound c mng h).mp hfits
  unfold step at hstep
  rw [hexec] at hstep
  exact Option.some.inj hstep ▸ hfree

/-- The second of two suspect messages in a queue of depth one is refused, and the
handler's next look at the queue is blocked for ever. -/
theorem full_queue_keeps_mutex :
    let m : LongRunMsg := ⟨.suspect, [], ⟨[127, 0, 0, 1], 7946⟩⟩
    let one : LongRunMsgManager := { newLongRunMsgManager 1 with lowPriorQueue := [m] }
    run step [.queueLongRunMsg m] (newLongRunMsgManager 1) = some one ∧
      exec (.queueLongRunMsg m) one = some (.error errQueueFull, { one with locked := true }) ∧
      exec .getNextMsg { one with locked := true } = none ∧
      ¬Each step Sound [.queueLongRunMsg m, .queueLongRunMsg m] (newLongRunMsgManager 1) := by
  refine ⟨rfl, rfl, rfl, ?_⟩
  intro h
  obtain ⟨r, mng', hexec, hfree, -⟩ := (h.2 _ rfl).1
  obtain ⟨-, rfl⟩ := Prod.mk.inj (Option.some.inj hexec)
  cases hfree

end LongRunCall

/-! ## Calls interleaved -/

namespace HandlerPc

/-- The handler will call `getNextMsg` before it is in its `select` again, or has
returned for good. -/
def Looks : HandlerPc → Prop
  | .popping => True
  | .handling _ => True
  | .returned => True
  | _ => False

end HandlerPc

namespace LongRunSys

/-- Somebody looks after the messages in the queues, if there are any. -/
def Minded (s : LongRunSys) : Prop :=
  (s.mng.highPriorQueue = [] ∧ s.mng.lowPriorQueue = []) ∨ s.handler.Looks ∨
    ∃ g, s.callers g = .notifying

/-- No notification is sent to a handler that is on its way to its `select`. -/
def Heard (s : LongRunSys) (a : LongRunAct) : Prop :=
  ∀ g, a = .notify g → s.handler ≠ .selecting

/-- Another caller that is still to send is not the one that moves. -/
theorem notifying_of_ne {s : LongRunSys} {g : Nat} {pc : CallerPc}
    (hg : s.callers g ≠ .notifying) (h : ∃ g', s.callers g' = .notifying) :
    ∃ g', (s.setCaller g pc).callers g' = .notifying := by
  obtain ⟨g', hg'⟩ := h
  have hne : g' ≠ g := fun he => hg (he ▸ hg')
  refine ⟨g', ?_⟩
  show Function.update s.callers g pc g' = .notifying
  rw [Function.update_of_ne hne, hg']

theorem Minded.setCaller {s : LongRunSys} {g : Nat} {pc : CallerPc} (h : s.Minded)
    (hg : s.callers g ≠ .notifying) : (s.setCaller g pc).Minded := by
  rcases h with hempty | hlooks | hcaller
  · exact Or.inl hempty
  · exact Or.inr (Or.inl hlooks)
  · exact Or.inr (Or.inr (notifying_of_ne hg hcaller))

/-- A refused call leaves the queues alone. -/
theorem queueLongRunMsg_refused {m : LongRunMsg} {mng mng' : LongRunMsgManager} {e : String}
    (h : mng.queueLongRunMsg m = some (.error e, mng')) :
    mng'.highPriorQueue = mng.highPriorQueue ∧ mng'.lowPriorQueue = mng.lowPriorQueue := by
  cases queueLongRunMsg_case h with
  | refused hfull => exact ⟨rfl, rfl⟩

/-- **A step leaves nobody's message behind**, unless it is a notification that is
not heard. -/
theorem act_minded (a : LongRunAct) (s s' : LongRunSys) (h : s.Minded) (hheard : s.Heard a)
    (hact : act a s = some s') : s'.Minded := by
  cases a with
  | call g m =>
    dsimp only [act] at hact
    split at hact
    next hidle =>
      obtain rfl := Option.some.inj hact
      exact h.setCaller (by rw [hidle]; decide)
    next => cases hact
  | push g =>
    dsimp only [act] at hact
    split at hact
    next m hlocking =>
      have hg : s.callers g ≠ .notifying := by
        rw [hlocking]
        intro he
        cases he
      split at hact
      next => cases hact
      next mng hpush =>
        -- the message just pushed is the business of its caller
        obtain rfl := Option.some.inj hact
        exact Or.inr (Or.inr ⟨g, Function.update_self ..⟩)
      next mng hfull =>
        obtain rfl := Option.some.inj hact
        obtain ⟨hhigh, hlow⟩ := queueLongRunMsg_refused hfull
        have hmng : Minded { s with mng } := by
          unfold Minded at h ⊢
          rw [hhigh, hlow]
          exact h
        exact hmng.setCaller hg
    next => cases hact
  | notify g =>
    dsimp only [act] at hact
    split at hact
    next hnotifying =>
      obtain rfl := Option.some.inj hact
      right; left
      show s.send.handler.Looks
      unfold send
      split
      next => trivial
      next hnot =>
        cases hpc : s.handler with
        | selecting => exact absurd hpc (hheard g rfl)
        | parked => exact absurd hpc hnot
        | popping => trivial
        | handling m => trivial
        | returned => trivial
    next => cases hact
  | park =>
    dsimp only [act] at hact
    split at hact
    next hsel =>
      obtain rfl := Option.some.inj hact
      rcases h with hempty | hlooks | hcaller
      · exact Or.inl hempty
      · rw [hsel] at hlooks
        exact hlooks.elim
      · exact Or.inr (Or.inr hcaller)
    next => cases hact
  | pop =>
    dsimp only [act] at hact
    split at hact
    next =>
      split at hact
      next => cases hact
      next m mng hnext =>
        obtain rfl := Option.some.inj hact
        exact Or.inr (Or.inl trivial)
      next e mng hnext =>
        obtain rfl := Option.some.inj hact
        -- it found both queues empty
        cases getNextMsg_case hnext with
        | empty hhigh hlow => exact Or.inl ⟨hhigh, hlow⟩
    next => cases hact
  | handled =>
    dsimp only [act] at hact
    split at hact
    next => exact Option.some.inj hact ▸ Or.inr (Or.inl trivial)
    next => cases hact
  | shutdown => exact Option.some.inj hact ▸ h
  | quit =>
    dsimp only [act] at hact
    split at hact
    next => exact Option.some.inj hact ▸ Or.inr (Or.inl trivial)
    next => cases hact

/-- **A handler at rest has emptied the queues**, in every interleaving in which no
notification is sent to a handler on its way to its `select`: when it is there and
no call is in progress, both queues are empty. -/
theorem drained_when_heard {qDepth : Int} {acts : List LongRunAct} {s : LongRunSys}
    (hheard : Each act Heard acts (newLongRunSys qDepth))
    (hrun : run act acts (newLongRunSys qDepth) = some s) (hparked : s.handler = .parked)
    (hidle : ∀ g, s.callers g = .idle) :
    s.mng.highPriorQueue = [] ∧ s.mng.lowPriorQueue = [] := by
  have hminded := run_inv_each (P := Minded) act_minded (Or.inl ⟨rfl, rfl⟩) hheard hrun
  rcases hminded with hempty | hlooks | ⟨g, hg⟩
  · exact hempty
  · rw [hparked] at hlooks
    exact hlooks.elim
  · rw [hidle g] at hg
    cases hg

/-- The callers after goroutine 0 has made a call. -/
def called (m : LongRunMsg) (callers : Nat → CallerPc) : Nat → CallerPc :=
  Function.update (Function.update (Function.update callers 0 (.locking m)) 0 .notifying) 0 .idle

theorem called_idle {m : LongRunMsg} {callers : Nat → CallerPc} (h : ∀ g, callers g = .idle)
    (g : Nat) : called m callers g = .idle := by
  unfold called
  rw [Function.update_idem, Function.update_idem, ← h 0, Function.update_eq_self, h g]
  exact (h 0).symm

/-- A message that wakes the handler and is handled. -/
theorem drained_when_heard_once :
    let m : LongRunMsg := ⟨.alive, [], ⟨[127, 0, 0, 1], 7946⟩⟩
    let acts : List LongRunAct :=
      [.park, .call 0 m, .push 0, .notify 0, .pop, .handled, .pop, .park]
    ∃ s, run act acts (newLongRunSys 1024) = some s ∧ s.handler = .parked ∧
      s.mng.highPriorQueue = [] ∧ s.mng.lowPriorQueue = [] := by
  intro m acts
  let s : LongRunSys :=
    { newLongRunSys 1024 with callers := called m fun _ => .idle, handler := .parked }
  have hrun : run act acts (newLongRunSys 1024) = some s := rfl
  have hsilent : ∀ (s : LongRunSys) (a : LongRunAct), (∀ g, a ≠ .notify g) → s.Heard a :=
    fun s a ha g he => absurd he (ha g)
  refine ⟨s, hrun, rfl, drained_when_heard ?_ hrun rfl (called_idle fun _ => rfl)⟩
  refine each_cons rfl (hsilent _ _ (by simp)) ?_
  refine each_cons rfl (hsilent _ _ (by simp)) ?_
  refine each_cons rfl (hsilent _ _ (by simp)) ?_
  refine each_cons rfl (fun _ _ hc => by cases hc) ?_
  refine each_of_forall ?_
  intro a ha t
  exact hsilent t a fun g he => by
    rw [he] at ha
    simp at ha

/-- The handler finds the queues empty; a message is queued and announced; the
handler is back in its `select`, no call is in progress, and the message is still
there. -/
theorem unheard_message_stays :
    let m : LongRunMsg := ⟨.alive, [], ⟨[127, 0, 0, 1], 7946⟩⟩
    let acts : List LongRunAct := [.park, .call 0 m, .push 0, .notify 0, .pop, .handled, .pop,
      .call 0 m, .push 0, .notify 0, .park]
    ∃ s, run act acts (newLongRunSys 1024) = some s ∧ s.handler = .parked ∧
      (∀ g, s.callers g = .idle) ∧ s.mng.highPriorQueue = [m] := by
  intro m acts
  let s : LongRunSys := { newLongRunSys 1024 with
    mng := { newLongRunMsgManager 1024 with highPriorQueue := [m] }
    callers := called m (called m fun _ => .idle)
    handler := .parked }
  have hrun : run act acts (newLongRunSys 1024) = some s := rfl
  exact ⟨s, hrun, rfl, called_idle (called_idle fun _ => rfl), rfl⟩

end LongRunSys

end Mlist
