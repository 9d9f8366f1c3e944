import Mlist.Model.Handlers
import Mlist.Race.Ping

/-!
# Handlers that are never removed

The timer that is to remove a handler is started before the handler is in its table. If
the function of the timer gets into the lock first it deletes nothing, and the handler
that is put there afterwards stays until an ack with its number comes
(`expired_before_insert`). A timer of no or a negative duration makes this likely, but
any duration will do where the goroutine that sets the handler is held up long enough.

`Guarded` is what should hold: the timer of every handler in the tables is still to
remove it. `handlers_guarded_iff` says that this is the only way to lose it. All other
steps only take handlers out of the tables (`Shrinks`), and those whose timers they
stop they take out first.
-/

namespace Mlist

open Mlist.Lib

namespace HandlerSys

variable {s t : HandlerSys} {a : HandlerAction} {i j : Nat} {k : PingKind} {n : UInt32}

/-- The timer of every handler in the tables is still to remove it. -/
def Guarded (s : HandlerSys) : Prop :=
  ∀ k n i, s.mng.handlers k n = some i → (s.calls i).timer = true

/-- A handler is put into its table while its timer is still to remove it. -/
def InTime (s : HandlerSys) : HandlerAction → Prop
  | .insert i => (s.calls i).pc = .armed → (s.calls i).timer = true
  | _ => True

/-- A handler is in its own place, put there by a call that has returned; and one that
`invokeAckHandler` has taken out is in no table. -/
structure Inv (s : HandlerSys) : Prop where
  place : ∀ k n i, s.mng.handlers k n = some i →
    (s.calls i).kind = k ∧ (s.calls i).seqNo = n ∧ (s.calls i).pc = .returned
  held : ∀ i ∈ s.held, (s.calls i).pc = .returned ∧ ∀ k n, s.mng.handlers k n ≠ some i

theorem new_inv (now : Time) : Inv (new now) where
  place := fun _ _ _ h => by cases h
  held := fun _ h => by cases h

/-! ## Steps that take handlers out -/

/-- What is in the tables after the step was in them before, with the same timer. -/
structure Shrinks (s t : HandlerSys) : Prop where
  table : ∀ k n i, t.mng.handlers k n = some i → s.mng.handlers k n = some i
  calls : ∀ k n i, t.mng.handlers k n = some i → t.calls i = s.calls i
  held : ∀ i ∈ t.held, (t.calls i).pc = .returned ∧ ∀ k n, t.mng.handlers k n ≠ some i

theorem Inv.refl (h : Inv s) : Shrinks s s where
  table := fun _ _ _ hi => hi
  calls := fun _ _ _ _ => rfl
  held := h.held

theorem Shrinks.inv (h : Shrinks s t) (hinv : Inv s) : Inv t where
  place := by
    intro k n i hi
    rw [h.calls k n i hi]
    exact hinv.place k n i (h.table k n i hi)
  held := h.held

/-- Where no handler is added, none is added without its timer. -/
theorem Shrinks.guarded (h : Shrinks s t) (hs : Guarded s) : Guarded t := by
  intro k n i hi
  rw [h.calls k n i hi]
  exact hs k n i (h.table k n i hi)

theorem stopTimer_mng (i : Nat) (late : Bool) (s : HandlerSys) :
    (s.stopTimer i late).mng = s.mng := by
  unfold stopTimer
  split <;> rfl

theorem stopTimer_held (i : Nat) (late : Bool) (s : HandlerSys) :
    (s.stopTimer i late).held = s.held := by
  unfold stopTimer
  split <;> rfl

theorem stopTimer_calls_of_ne (late : Bool) (s : HandlerSys) (h : j ≠ i) :
    (s.stopTimer i late).calls j = s.calls j := by
  unfold stopTimer
  split
  next => rfl
  next => exact Function.update_of_ne h ..

theorem stopTimer_pc (i j : Nat) (late : Bool) (s : HandlerSys) :
    ((s.stopTimer i late).calls j).pc = (s.calls j).pc := by
  by_cases h : j = i
  · subst h
    unfold stopTimer
    split
    next => rfl
    next =>
      show (Function.update s.calls j _ j).pc = _
      rw [Function.update_self]
  · rw [stopTimer_calls_of_ne late s h]

/-- What is left when a place is cleared was there before, in another place. -/
theorem handlers_of_cleared {mng : PingManager} {k k' : PingKind} {n n' : UInt32}
    (h : (mng.setHandler k n none).handlers k' n' = some i) :
    mng.handlers k' n' = some i ∧ ¬(k' = k ∧ n' = n) := by
  rw [PingManager.setHandler_handlers] at h
  split at h
  next => cases h
  next hne => exact ⟨h, hne⟩

/-- The handler whose place is cleared is in no table any more. -/
theorem Inv.cleared (h : Inv s) {k' : PingKind} {n' : UInt32} (hk : (s.calls i).kind = k)
    (hn : (s.calls i).seqNo = n) (hj : (s.mng.setHandler k n none).handlers k' n' = some j) :
    s.mng.handlers k' n' = some j ∧ j ≠ i := by
  obtain ⟨hthere, hplace⟩ := handlers_of_cleared hj
  refine ⟨hthere, fun hji => hplace ?_⟩
  obtain ⟨hk', hn', -⟩ := h.place k' n' j hthere
  rw [← hk', ← hn', hji]
  exact ⟨hk, hn⟩

/-- What is to be shown of a step that takes out nothing to hold. -/
theorem Inv.shrinks (h : Inv s)
    (htable : ∀ k n j, t.mng.handlers k n = some j →
      s.mng.handlers k n = some j ∧ t.calls j = s.calls j)
    (hheld : ∀ j ∈ t.held, j ∈ s.held ∧ (t.calls j).pc = (s.calls j).pc) : Shrinks s t where
  table := fun k n j hj => (htable k n j hj).1
  calls := fun k n j hj => (htable k n j hj).2
  held := by
    intro j hj
    obtain ⟨hj, hpc⟩ := hheld j hj
    obtain ⟨hreturned, hout⟩ := h.held j hj
    exact ⟨hpc.trans hreturned, fun k n hthere => hout k n (htable k n j hthere).1⟩

/-- To start a timer adds no handler yet. -/
theorem arm_shrinks (h : Inv s) {kind : PingKind} {seqNo : UInt32} {timeout : Time}
    (hact : act (.arm i kind seqNo timeout) s = some t) : Shrinks s t := by
  dsimp only [act] at hact
  split at hact
  next hidle =>
    obtain rfl := Option.some.inj hact
    -- a call that has not begun has no handler
    have hne : ∀ {j}, (s.calls j).pc = .returned → j ≠ i := by
      intro j hj he
      rw [he, hidle] at hj
      cases hj
    refine h.shrinks ?_ ?_
    · intro k n j hj
      exact ⟨hj, Function.update_of_ne (hne (h.place k n j hj).2.2) ..⟩
    · intro j hj
      exact ⟨hj, congrArg SetCall.pc (Function.update_of_ne (hne (h.held j hj).1) ..)⟩
  next => cases hact

/-- A timer that goes off takes its handler away. -/
theorem expire_shrinks (h : Inv s) (hact : act (.expire i) s = some t) : Shrinks s t := by
  dsimp only [act] at hact
  split at hact
  next hdue =>
    obtain rfl := Option.some.inj hact
    refine h.shrinks ?_ ?_
    · intro k n j hj
      obtain ⟨hthere, hne⟩ := h.cleared (i := i) rfl rfl hj
      exact ⟨hthere, Function.update_of_ne hne ..⟩
    · intro j hj
      refine ⟨hj, ?_⟩
      show (Function.update s.calls i _ j).pc = (s.calls j).pc
      by_cases hji : j = i
      · rw [hji, Function.update_self]
      · rw [Function.update_of_ne hji]
  next => cases hact

/-- So does an ack. -/
theorem ack_shrinks (h : Inv s) (hact : act (.ack n) s = some t) : Shrinks s t := by
  dsimp only [act] at hact
  split at hact
  next => exact Option.some.inj hact ▸ h.refl
  next i hi =>
    obtain rfl := Option.some.inj hact
    obtain ⟨hk, hn, hpc⟩ := h.place _ _ _ hi
    refine ⟨fun _ _ _ hj => (handlers_of_cleared hj).1, fun _ _ _ _ => rfl, ?_⟩
    intro j hj
    rcases List.mem_cons.mp hj with rfl | hj
    · exact ⟨hpc, fun k n hthere => (h.cleared hk hn hthere).2 rfl⟩
    · obtain ⟨hpc, hout⟩ := h.held j hj
      exact ⟨hpc, fun k n hthere => hout k n (handlers_of_cleared hthere).1⟩

/-- Stopping a timer leaves the handlers as they are. -/
theorem stop_shrinks (h : Inv s) {late : Bool} (hact : act (.stop i late) s = some t) :
    Shrinks s t := by
  dsimp only [act] at hact
  split at hact
  next hheld =>
    obtain rfl := Option.some.inj hact
    refine h.shrinks ?_ ?_
    · intro k n j hj
      rw [stopTimer_mng] at hj
      have hne : j ≠ i := fun he => (h.held i hheld).2 k n (he ▸ hj)
      exact ⟨hj, stopTimer_calls_of_ne late _ hne⟩
    · intro j hj
      rw [stopTimer_held] at hj
      exact ⟨List.mem_of_mem_erase hj, stopTimer_pc ..⟩
  next => cases hact

/-- An indirect ack takes its handler away, or is a nack and leaves it. -/
theorem indirectAck_shrinks (h : Inv s) {success late : Bool}
    (hact : act (.indirectAck n success late) s = some t) : Shrinks s t := by
  dsimp only [act] at hact
  split at hact
  next => exact Option.some.inj hact ▸ h.refl
  next i hi =>
    split at hact
    next => exact Option.some.inj hact ▸ h.refl
    next =>
      obtain rfl := Option.some.inj hact
      obtain ⟨hk, hn, -⟩ := h.place _ _ _ hi
      refine h.shrinks ?_ ?_
      · intro k n j hj
        rw [stopTimer_mng] at hj
        obtain ⟨hthere, hne⟩ := h.cleared hk hn hj
        exact ⟨hthere, stopTimer_calls_of_ne late _ hne⟩
      · intro j hj
        rw [stopTimer_held] at hj
        exact ⟨hj, stopTimer_pc ..⟩

/-- **All steps but one take handlers out**, if they change the tables at all. -/
theorem act_shrinks (h : Inv s) (hact : act a s = some t) :
    Shrinks s t ∨ ∃ i, a = .insert i := by
  cases a with
  | tick d =>
    obtain rfl := Option.some.inj hact
    exact Or.inl ⟨fun _ _ _ hj => hj, fun _ _ _ _ => rfl, h.held⟩
  | arm i kind seqNo timeout => exact Or.inl (arm_shrinks h hact)
  | insert i => exact Or.inr ⟨i, rfl⟩
  | expire i => exact Or.inl (expire_shrinks h hact)
  | ack seqNo => exact Or.inl (ack_shrinks h hact)
  | stop i late => exact Or.inl (stop_shrinks h hact)
  | indirectAck seqNo success late => exact Or.inl (indirectAck_shrinks h hact)

/-! ## The step that puts one in -/

/-- The handler is put under the number of the call. -/
theorem insert_case (hact : act (.insert i) s = some t) :
    (s.calls i).pc = .armed ∧
      t = setCall i { s.calls i with pc := .returned } { s with
        mng := s.mng.setHandler (s.calls i).kind (s.calls i).seqNo (some i) } := by
  dsimp only [act] at hact
  split at hact
  next harmed => exact ⟨harmed, (Option.some.inj hact).symm⟩
  next => cases hact

/-- A handler in the tables after the step is the new one in its place, or was there
before and is another one. -/
theorem insert_handlers (h : Inv s) (harmed : (s.calls i).pc = .armed)
    (hj : (s.mng.setHandler (s.calls i).kind (s.calls i).seqNo (some i)).handlers k n = some j) :
    (j = i ∧ (s.calls i).kind = k ∧ (s.calls i).seqNo = n) ∨
      (j ≠ i ∧ s.mng.handlers k n = some j) := by
  rw [PingManager.setHandler_handlers] at hj
  split at hj
  next hplace => exact Or.inl ⟨(Option.some.inj hj).symm, hplace.1.symm, hplace.2.symm⟩
  next =>
    refine Or.inr ⟨?_, hj⟩
    intro he
    rw [he] at hj
    rw [(h.place k n i hj).2.2] at harmed
    cases harmed

/-- A handler may be added: its call has been there. -/
theorem insert_inv (h : Inv s) (hact : act (.insert i) s = some t) : Inv t := by
  obtain ⟨harmed, rfl⟩ := insert_case hact
  constructor
  · intro k n j hj
    show (Function.update s.calls i _ j).kind = k ∧ (Function.update s.calls i _ j).seqNo = n ∧
      (Function.update s.calls i _ j).pc = .returned
    rcases insert_handlers h harmed hj with ⟨rfl, hk, hn⟩ | ⟨hne, hj⟩
    · rw [Function.update_self]
      exact ⟨hk, hn, rfl⟩
    · rw [Function.update_of_ne hne]
      exact h.place k n j hj
  · intro j hj
    obtain ⟨hpc, hout⟩ := h.held j hj
    have hne : j ≠ i := by
      intro he
      rw [he, harmed] at hpc
      cases hpc
    refine ⟨?_, ?_⟩
    · show (Function.update s.calls i _ j).pc = .returned
      rw [Function.update_of_ne hne, hpc]
    · intro k n hthere
      rcases insert_handlers h harmed hthere with ⟨he, -⟩ | ⟨-, hthere⟩
      · exact hne he
      · exact hout k n hthere

/-- It is guarded exactly if its timer has not gone off before. -/
theorem insert_guarded_iff (h : Inv s) (hs : Guarded s) (hact : act (.insert i) s = some t) :
    Guarded t ↔ (s.calls i).timer = true := by
  obtain ⟨harmed, rfl⟩ := insert_case hact
  constructor
  · intro ht
    have hnew := ht (s.calls i).kind (s.calls i).seqNo i (by
      show (s.mng.setHandler _ _ _).handlers _ _ = _
      rw [PingManager.setHandler_handlers, if_pos ⟨rfl, rfl⟩])
    change (Function.update s.calls i _ i).timer = true at hnew
    rwa [Function.update_self] at hnew
  · intro htimer k n j hj
    show (Function.update s.calls i _ j).timer = true
    rcases insert_handlers h harmed hj with ⟨rfl, -⟩ | ⟨hne, hj⟩
    · rw [Function.update_self]
      exact htimer
    · rw [Function.update_of_ne hne]
      exact hs k n j hj

/-! ## Runs -/

/-- Every step keeps the invariant. -/
theorem act_inv (h : Inv s) (hact : act a s = some t) : Inv t := by
  rcases act_shrinks h hact with hshrinks | ⟨i, rfl⟩
  · exact hshrinks.inv h
  · exact insert_inv h hact

/-- **When a step leaves the handlers guarded.** -/
theorem act_guarded_iff (a : HandlerAction) (s : HandlerSys) (h : Inv s) (hs : Guarded s) :
    (∀ t, act a s = some t → Guarded t) ↔ InTime s a := by
  by_cases ha : ∃ i, a = .insert i
  · obtain ⟨i, rfl⟩ := ha
    constructor
    · intro hkeeps harmed
      have hact : act (.insert i) s = some _ := if_pos harmed
      exact (insert_guarded_iff h hs hact).mp (hkeeps _ hact)
    · intro hintime t hact
      exact (insert_guarded_iff h hs hact).mpr (hintime (insert_case hact).1)
  · have hintime : InTime s a := by
      cases a with
      | insert i => exact absurd ⟨i, rfl⟩ ha
      | _ => trivial
    refine iff_of_true ?_ hintime
    intro t hact
    exact ((act_shrinks h hact).resolve_right ha).guarded hs

/-- What a pending timer is good for: the handler is not overdue, or the function of its
timer can run and remove it. -/
theorem Guarded.removed (hs : Guarded s) (h : Inv s) (hi : s.mng.handlers k n = some i) :
    s.now < (s.calls i).deadline ∨ ∃ t, act (.expire i) s = some t ∧ t.mng.handlers k n = none := by
  by_cases hdue : (s.calls i).deadline ≤ s.now
  · obtain ⟨hk, hn, -⟩ := h.place k n i hi
    refine Or.inr ⟨_, if_pos ⟨hs k n i hi, hdue⟩, ?_⟩
    show (s.mng.setHandler _ _ none).handlers k n = none
    rw [PingManager.setHandler_handlers, if_pos ⟨hk.symm, hn.symm⟩]
  · exact Or.inl (Int.not_le.mp hdue)

/-- **Handlers are guarded exactly as long as they are set in time.** For every
interleaving of set calls with any numbers and timeouts, timers and receivers of acks,
on a fresh manager: in every state reached, the timer of every handler in the tables is
still to remove it, exactly if each handler was put into its table before the function of
its timer ran. Then a handler that is past its deadline can always be removed by it. -/
theorem handlers_guarded_iff (now : Time) (as : List HandlerAction) :
    (Along act Guarded as (new now) ↔ Each act InTime as (new now)) ∧
      ∀ s, Each act InTime as (new now) → run act as (new now) = some s →
        ∀ k n i, s.mng.handlers k n = some i → (s.calls i).timer = true ∧
          (s.now < (s.calls i).deadline ∨
            ∃ t, act (.expire i) s = some t ∧ t.mng.handlers k n = none) := by
  have hnew : Guarded (new now) := fun _ _ _ h => by cases h
  have hiff : Along act Guarded as (new now) ↔ Each act InTime as (new now) :=
    (along_iff_each (I := Inv) (fun _ _ _ h _ hact => act_inv h hact) act_guarded_iff as
      (new_inv now)).trans (and_iff_right hnew)
  refine ⟨hiff, ?_⟩
  intro s hintime hrun k n i hi
  have hs : Guarded s := (hiff.mpr hintime).last hrun
  have hinv : Inv s := run_inv (fun _ _ _ h hact => act_inv h hact) (new_inv now) hrun
  exact ⟨hs k n i hi, hs.removed hinv hi⟩

/-- A handler set in time, at its deadline. -/
theorem handlers_guarded_iff_due :
    let as : List HandlerAction := [.arm 0 .direct 1 5, .insert 0, .tick 5]
    ∃ s, run act as (new 0) = some s ∧ s.mng.handlers .direct 1 = some 0 ∧
      (s.calls 0).timer = true ∧
        ∃ t, act (.expire 0) s = some t ∧ t.mng.handlers .direct 1 = none := by
  intro as
  have hintime : Each act InTime as (new 0) := by
    refine each_cons rfl trivial ?_
    refine each_cons rfl (fun _ => rfl) ?_
    refine each_of_forall ?_
    intro a ha s
    rw [List.mem_singleton.mp ha]
    trivial
  obtain ⟨s, hs⟩ : ∃ s, run act as (new 0) = some s := ⟨_, rfl⟩
  have hthere : s.mng.handlers .direct 1 = some 0 := by
    obtain rfl := Option.some.inj hs
    rfl
  obtain ⟨htimer, hremoved⟩ := (handlers_guarded_iff 0 as).2 s hintime hs .direct 1 0 hthere
  refine ⟨s, hs, hthere, htimer, hremoved.resolve_left ?_⟩
  obtain rfl := Option.some.inj hs
  exact Int.lt_irrefl 5

/-- `setAckHandler(1, ch, 0)`: the function of the timer is in the lock before the call.
Afterwards the call has returned, the handler is in its table, and no timer is left. -/
theorem expired_before_insert :
    ∃ s, run act [.arm 0 .direct 1 0, .expire 0, .insert 0] (new 0) = some s ∧
      (∀ i, (s.calls i).pc ≠ .armed) ∧ s.mng.handlers .direct 1 = some 0 ∧
      ∀ i, (s.calls i).timer = false := by
  refine ⟨_, rfl, ?_, rfl, ?_⟩
  · intro i
    cases i with
    | zero => exact fun h => nomatch h
    | succ i => exact fun h => nomatch h
  · intro i
    cases i with
    | zero => rfl
    | succ i => rfl

end HandlerSys

end Mlist
