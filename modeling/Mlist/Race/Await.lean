import Mlist.Lib.Notify
import Mlist.Race.Sys

/-!
# Waiting for a broadcast

`UpdateTags` and `Leave` queue their message with a channel, and then wait until the queue
has sent it often enough, or for `BroadcastWaitTimeout`. `Finish`, by which the queue says so,
sends on the channel without blocking, and the channel has no buffer: if the queue is done
with the message before the call is in its `select`, nobody hears of it, and the call returns
the timeout error for a message that has been sent (`finished_before_select`).

`Await` is such a call among the goroutines of its member (`Sys`): the pieces of its own
`aliveNode` or `deadNode` are actions of `Sys`, as everybody else's are. The queue's
`finished` tells on which items `Finish` was called. With nothing in between, the pieces are
the whole call of `Model/Member.lean` (`updateTags_acts`, `leave_acts`).
-/

namespace Mlist

open Mlist.Lib

variable {H : Type}

/-! ## The model -/

/-- The two calls that wait. -/
inductive BroadcastCall where
  | updateTags (tags : Bytes)
  | leave
  deriving DecidableEq, Repr

def BroadcastCall.timeoutErr : BroadcastCall → String
  | .updateTags _ => "timeout waiting for update broadcast"
  | .leave => "timeout waiting for leave broadcast"

/-- Where a call is that does not yet wait. -/
inductive AwaitPc where
  | starting
  /-- in `aliveNode` or `deadNode`, or on the way there -/
  | handling
  /-- about to wait -/
  | ready
  deriving DecidableEq, Repr

/-- A call in the goroutine `k`, with its channel `ch`. `finished` is history: the `Finish`
of its message has run, and the call had not returned. -/
structure Await (H : Type) where
  sys : Sys H
  clock : Time
  call : BroadcastCall
  k : Nat
  ch : Nat
  pc : Caller AwaitPc (Except String Unit)
  finished : Bool

/-- One uninterrupted piece. -/
inductive AwaitAction where
  | tick (d : Nat)
  | start
  /-- a piece of this call's handler, or of any other call -/
  | piece (a : Action)
  /-- the handler has returned: `hasActivePeers` -/
  | check
  | select
  | timeout

namespace Await

/-- Before the call. -/
def start (sys : Sys H) (clock : Time) (call : BroadcastCall) (k ch : Nat) : Await H :=
  { sys, clock, call, k, ch, pc := .running .starting, finished := false }

/-- The goroutine and the channel are the call's own. -/
def permits (s : Await H) : Action → Bool
  | .aliveNode k _ notify => k != s.k && notify != some s.ch
  | .updateTags k _ notify => k != s.k && notify != s.ch
  | .deadNode _ _ notify => notify != some s.ch
  | .leave => s.call != .leave
  | .leaveDead _ notify => (notify == s.ch) == (s.call == .leave)
  | _ => true

/-- Between these two states `Finish` has been called for the channel. -/
def finishes (ch : Nat) (m m' : Memberlist H) : Bool :=
  (m'.mbroadcasts.finished.drop m.mbroadcasts.finished.length).any fun item =>
    item.notify == some ch

def returnedNil (s : Await H) : Bool :=
  match s.pc with
  | .returned (.ok ()) => true
  | _ => false

def returnedTimeout (s : Await H) : Bool :=
  match s.pc with
  | .returned (.error e) => e == s.call.timeoutErr
  | _ => false

/-- The member goes on to `sys`; the channel is sent on if `Finish` was called. -/
def proceed (s : Await H) (sys : Sys H) : Await H :=
  if finishes s.ch s.sys.m sys.m then
    { s with sys, pc := s.pc.signal (.ok ()), finished := s.finished || !s.pc.isReturned }
  else { s with sys }

/-- The handler has returned, and whether there is something to wait for. -/
def handled (s : Await H) : Option Bool :=
  match s.call with
  | .updateTags _ => match s.sys.tasks s.k with
    | none => some true
    | some _ => none
  | .leave => match s.sys.leave with
    | .done found => some found
    | _ => none

variable [Encoded Msg] [Heap H (TransmitCapItem Msg)]

/-- One action, `none` if it is not possible. -/
def act : AwaitAction → Await H → Option (Await H)
  | .tick d, s => some { s with clock := s.clock + d }
  | .start, s =>
    match s.pc, s.call with
    | .running .starting, .updateTags tags =>
      if tags.length > tagMaxSize then
        some { s with pc := .returned (.error Memberlist.errMaxTagSizeExceed) }
      else
        (Sys.act (.updateTags s.k tags s.ch) s.sys).map fun sys =>
          { s with sys, pc := .running .handling }
    | .running .starting, .leave =>
      if s.sys.m.shutdown then none
      else if s.sys.m.left then some { s with pc := .returned (.ok ()) }
      else (Sys.act .leave s.sys).map fun sys => { s with sys, pc := .running .handling }
    | _, _ => none
  | .piece a, s => if s.permits a then (Sys.act a s.sys).map s.proceed else none
  | .check, s =>
    match s.pc, s.handled with
    | .running .handling, some queued =>
      -- without a message, a peer or a timeout there is nothing to wait for
      if queued && s.sys.m.hasActivePeers && decide (s.sys.m.config.broadcastWaitTimeout ≠ 0) then
        some { s with pc := .running .ready }
      else some { s with pc := .returned (.ok ()) }
    | _, _ => none
  | .select, s =>
    match s.pc with
    | .running .ready =>
      some { s with pc := .waiting (s.clock + s.sys.m.config.broadcastWaitTimeout) }
    | _ => none
  | .timeout, s =>
    (s.pc.expire s.clock (.error s.call.timeoutErr)).map fun pc => { s with pc }

/-! ## The ways through an action -/

/-- What an action that is possible does. -/
inductive Acts (s : Await H) : AwaitAction → Await H → Prop where
  | ticked (d : Nat) : Acts s (.tick d) { s with clock := s.clock + d }
  | refused (hpc : s.pc = .running .starting) :
    Acts s .start { s with pc := .returned (.error Memberlist.errMaxTagSizeExceed) }
  | tagged (tags : Bytes) (sys : Sys H) (hpc : s.pc = .running .starting)
    (hcall : s.call = .updateTags tags) (hsize : tags.length ≤ tagMaxSize)
    (h : Sys.act (.updateTags s.k tags s.ch) s.sys = some sys) :
    Acts s .start { s with sys, pc := .running .handling }
  | leftAlready (hpc : s.pc = .running .starting) (hcall : s.call = .leave) :
    Acts s .start { s with pc := .returned (.ok ()) }
  | flagged (sys : Sys H) (hpc : s.pc = .running .starting) (hcall : s.call = .leave)
    (h : Sys.act .leave s.sys = some sys) :
    Acts s .start { s with sys, pc := .running .handling }
  | proceeded (a : Action) (sys : Sys H) (hpermits : s.permits a = true)
    (h : Sys.act a s.sys = some sys) : Acts s (.piece a) (s.proceed sys)
  | peers (hpc : s.pc = .running .handling) (hhandled : s.handled = some true) :
    Acts s .check { s with pc := .running .ready }
  | nobody (queued : Bool) (hpc : s.pc = .running .handling) (hhandled : s.handled = some queued) :
    Acts s .check { s with pc := .returned (.ok ()) }
  | selected (hpc : s.pc = .running .ready) :
    Acts s .select { s with pc := .waiting (s.clock + s.sys.m.config.broadcastWaitTimeout) }
  | timedOut (d : Time) (hpc : s.pc = .waiting d) :
    Acts s .timeout { s with pc := .returned (.error s.call.timeoutErr) }

theorem act_case {s t : Await H} {a : AwaitAction} (h : act a s = some t) : Acts s a t := by
  cases a with
  | tick d => exact Option.some.inj h ▸ .ticked d
  | start =>
    dsimp only [act] at h
    split at h
    next tags hpc hcall =>
      split at h
      next => exact Option.some.inj h ▸ .refused hpc
      next hsize =>
        obtain ⟨sys, hsys, rfl⟩ := Option.map_eq_some_iff.mp h
        exact .tagged tags sys hpc hcall (Nat.le_of_not_lt hsize) hsys
    next hpc hcall =>
      split at h
      next => nomatch h
      next =>
        split at h
        next => exact Option.some.inj h ▸ .leftAlready hpc hcall
        next =>
          obtain ⟨sys, hsys, rfl⟩ := Option.map_eq_some_iff.mp h
          exact .flagged sys hpc hcall hsys
    next => nomatch h
  | piece a =>
    dsimp only [act] at h
    split at h
    next hpermits =>
      obtain ⟨sys, hsys, rfl⟩ := Option.map_eq_some_iff.mp h
      exact .proceeded a sys hpermits hsys
    next => nomatch h
  | check =>
    dsimp only [act] at h
    split at h
    next queued hpc hhandled =>
      split at h
      next hwait =>
        have hqueued : queued = true := by
          simp only [Bool.and_eq_true] at hwait
          exact hwait.1.1
        exact Option.some.inj h ▸ .peers hpc (hqueued ▸ hhandled)
      next => exact Option.some.inj h ▸ .nobody queued hpc hhandled
    next => nomatch h
  | select =>
    dsimp only [act] at h
    split at h
    next hpc => exact Option.some.inj h ▸ .selected hpc
    next => nomatch h
  | timeout =>
    obtain ⟨pc, hexp, rfl⟩ := Option.map_eq_some_iff.mp h
    obtain ⟨d, hpc, -, rfl⟩ := Caller.expire_case hexp
    exact .timedOut d hpc

/-! ## When the notification is heard -/

/-- Once the queue is done with its message, the call does not wait for it any more, nor has
it returned the timeout error. -/
def Told (s : Await H) : Prop :=
  s.finished = true → s.pc.isWaiting = false ∧ s.pc ≠ .returned (.error s.call.timeoutErr)

/-- The queue is not done with the message before the call waits. -/
def NotBeforeSelect (s : Await H) : AwaitAction → Prop
  | .select => s.pc = .running .ready → s.finished = false
  | _ => True

instance decidableNotBeforeSelect (s : Await H) : ∀ a, Decidable (NotBeforeSelect s a)
  | .select => inferInstanceAs (Decidable (s.pc = .running .ready → s.finished = false))
  | .tick _ | .start | .piece _ | .check | .timeout => isTrue trivial

variable {s t : Await H} {a : AwaitAction}

omit [Encoded Msg] [Heap H (TransmitCapItem Msg)] in
/-- A `Finish` wakes the call up if it waits, and otherwise changes nothing for it. -/
theorem told_proceed (h : Told s) (sys : Sys H) : Told (s.proceed sys) := by
  unfold proceed
  split
  · intro hfinished
    show (s.pc.signal (.ok ())).isWaiting = false ∧
      s.pc.signal (.ok ()) ≠ .returned (.error s.call.timeoutErr)
    cases hpc : s.pc with
    | running pc => exact ⟨rfl, fun he => nomatch he⟩
    | waiting d => exact ⟨rfl, fun he => nomatch he⟩
    | returned r =>
      -- After the return nothing is recorded any more.
      have hbefore : s.finished = true := by simpa [hpc, Caller.isReturned] using hfinished
      have htold := h hbefore
      rw [hpc] at htold
      exact htold
  · exact h

omit [Encoded Msg] [Heap H (TransmitCapItem Msg)] in
theorem errMaxTagSizeExceed_ne (call : BroadcastCall) :
    Memberlist.errMaxTagSizeExceed ≠ call.timeoutErr := by
  cases call with
  | updateTags tags =>
    show "max tag size exceeds" ≠ "timeout waiting for update broadcast"
    decide
  | leave =>
    show "max tag size exceeds" ≠ "timeout waiting for leave broadcast"
    decide

theorem act_told (h : Told s) (hsel : NotBeforeSelect s a) (ha : act a s = some t) : Told t := by
  cases act_case ha with
  | ticked d => exact h
  | refused hpc =>
    intro _
    refine ⟨rfl, fun he => ?_⟩
    exact errMaxTagSizeExceed_ne s.call (Except.error.inj (Caller.returned.inj he))
  | tagged tags sys hpc hcall hsize hsys => exact fun _ => ⟨rfl, fun he => nomatch he⟩
  | leftAlready hpc hcall => exact fun _ => ⟨rfl, fun he => nomatch he⟩
  | flagged sys hpc hcall hsys => exact fun _ => ⟨rfl, fun he => nomatch he⟩
  | proceeded a sys hpermits hsys => exact told_proceed h sys
  | peers hpc hhandled => exact fun _ => ⟨rfl, fun he => nomatch he⟩
  | nobody queued hpc hhandled => exact fun _ => ⟨rfl, fun he => nomatch he⟩
  | selected hpc => exact fun hfinished => nomatch (hsel hpc).symm.trans hfinished
  | timedOut d hpc =>
    intro hfinished
    have hwaiting := (h hfinished).1
    rw [hpc] at hwaiting
    nomatch hwaiting

theorem act_told_iff (h : Told s) (a : AwaitAction) :
    (∀ t, act a s = some t → Told t) ↔ NotBeforeSelect s a := by
  refine ⟨fun hall => ?_, fun hsel t ha => act_told h hsel ha⟩
  unfold NotBeforeSelect
  split
  next =>
    intro hpc
    have hact : act .select s =
        some { s with pc := .waiting (s.clock + s.sys.m.config.broadcastWaitTimeout) } := by
      dsimp only [act]
      rw [hpc]
    refine Bool.eq_false_iff.mpr fun hfinished => ?_
    nomatch (hall _ hact hfinished).1
  next => trivial

/-- **When the end of a broadcast is heard.** Take one `UpdateTags` or `Leave` among any other
calls, `GetMessages` of the gossip and of piggybacking included, in any interleaving and with
any `BroadcastWaitTimeout`. If the `Finish` of its message runs before the call has returned,
the call never comes to wait after that and does not return the timeout error, in every state
of the run, if and only if the call does not get to its `select` with the message already
finished. -/
theorem broadcast_told_iff (sys : Sys H) (clock : Time) (call : BroadcastCall) (k ch : Nat)
    (as : List AwaitAction) :
    Along act Told as (start sys clock call k ch) ↔
      Each act NotBeforeSelect as (start sys clock call k ch) := by
  have hinv : ∀ (a : AwaitAction) (s t : Await H), True → Told t → act a s = some t → True :=
    fun _ _ _ _ _ _ => trivial
  rw [along_iff_each hinv (fun a s _ hs => act_told_iff hs a) as trivial]
  exact and_iff_right fun hfinished => nomatch hfinished

/-! ## One after the other -/

omit [Encoded Msg] [Heap H (TransmitCapItem Msg)] in
/-- Before it waits, only the member and the history go on. -/
theorem proceed_of_running {s : Await H} {pc : AwaitPc} (hpc : s.pc = .running pc) (sys : Sys H) :
    ∃ finished, s.proceed sys = { s with sys, finished } := by
  unfold proceed
  split
  · refine ⟨s.finished || !s.pc.isReturned, ?_⟩
    rw [hpc]
    rfl
  · exact ⟨s.finished, rfl⟩

/-- Pieces that follow each other are pieces of the member alone. -/
theorem run_pieces {pc : AwaitPc} : ∀ (as : List Action) {s : Await H} {sys : Sys H},
    s.pc = .running pc → (∀ a ∈ as, s.permits a = true) → run Sys.act as s.sys = some sys →
    ∃ finished, run act (as.map .piece) s = some { s with sys, finished } := by
  intro as
  induction as with
  | nil =>
    intro s sys _ _ h
    exact ⟨s.finished, by rw [← Option.some.inj h]; rfl⟩
  | cons a as ih =>
    intro s sys hpc hpermits h
    obtain ⟨sys₁, h₁, h₂⟩ := run_cons_some h
    obtain ⟨f₁, hf₁⟩ := proceed_of_running hpc sys₁
    have hact : act (.piece a) s = some { s with sys := sys₁, finished := f₁ } := by
      dsimp only [act]
      rw [if_pos (hpermits a List.mem_cons_self), h₁, Option.map_some, hf₁]
    obtain ⟨f, hf⟩ := ih (s := { s with sys := sys₁, finished := f₁ }) hpc
      (fun b hb => hpermits b (List.mem_cons_of_mem a hb)) h₂
    refine ⟨f, ?_⟩
    rw [List.map_cons, run_cons, hact, Option.bind_some, hf]

/-- The call has returned `r`, or has yet to wait, and `r` is what it will hear by `env`. -/
def Comes (env : Env) (r : Except String Unit) (s : Await H) : Prop :=
  s.pc = .returned r ∨ s.pc = .running .ready ∧
    r = if env.notified then .ok () else .error s.call.timeoutErr

/-- What is left when the handler has returned is `awaitBroadcast`. -/
theorem check_comes {s : Await H} {queued : Bool} (env : Env) (hpc : s.pc = .running .handling)
    (hhandled : s.handled = some queued) :
    ∃ pc, act .check s = some { s with pc } ∧
      Comes env (if queued then s.sys.m.awaitBroadcast env s.call.timeoutErr else .ok ())
        { s with pc } := by
  dsimp only [act]
  rw [hpc, hhandled]
  dsimp only
  unfold Memberlist.awaitBroadcast
  split
  next hwait =>
    simp only [Bool.and_eq_true, decide_eq_true_eq] at hwait
    refine ⟨_, rfl, .inr ⟨rfl, ?_⟩⟩
    rw [if_pos hwait.1.1, if_neg (by simp [hwait.1.2, hwait.2])]
  next hwait =>
    simp only [Bool.and_eq_true, decide_eq_true_eq, not_and, not_not] at hwait
    refine ⟨_, rfl, .inl ?_⟩
    cases queued with
    | false => rfl
    | true =>
      cases hp : s.sys.m.hasActivePeers with
      | false => simp
      | true => simp [hwait ⟨rfl, hp⟩]

/-- A handler that runs without interruption, and what follows it. -/
theorem handler_comes {s₀ s : Await H} {sys : Sys H} {as : List Action} {queued : Bool} (env : Env)
    (hstart : act .start s₀ = some s) (hpc : s.pc = .running .handling)
    (hpermits : ∀ a ∈ as, s.permits a = true) (hrun : run Sys.act as s.sys = some sys)
    (hhandled : { s with sys }.handled = some queued) :
    ∃ bs t, run act bs s₀ = some t ∧ t.sys.m = sys.m ∧
      Comes env (if queued then sys.m.awaitBroadcast env s.call.timeoutErr else .ok ()) t := by
  obtain ⟨f, hf⟩ := run_pieces as hpc hpermits hrun
  obtain ⟨pc, hcheck, hcomes⟩ := check_comes (s := { s with sys, finished := f }) env hpc hhandled
  refine ⟨.start :: (as.map .piece ++ [.check]), _, ?_, rfl, hcomes⟩
  rw [run_cons, hstart, Option.bind_some, run_append, hf, Option.bind_some, run_singleton, hcheck]

/-- **Taken one after the other, the pieces of `UpdateTags` are `UpdateTags`.** -/
theorem updateTags_acts {sys : Sys H} {k : Nat} (hfree : sys.tasks k = none) {env : Env}
    {tags : Bytes} {ch : Nat} {r : Except String Unit} {m' : Memberlist H}
    (h : sys.m.updateTags env tags ch = some (r, m')) (clock : Time) :
    ∃ as t, run act as (start sys clock (.updateTags tags) k ch) = some t ∧ t.sys.m = m' ∧
      Comes env r t := by
  unfold Memberlist.updateTags at h
  split at h
  next hsize =>
    obtain ⟨rfl, rfl⟩ := Prod.mk.inj (Option.some.inj h)
    refine ⟨[.start], { start sys clock (.updateTags tags) k ch with
      pc := .returned (.error Memberlist.errMaxTagSizeExceed) }, ?_, rfl, .inl rfl⟩
    rw [run_singleton]
    exact if_pos hsize
  next hsize =>
    split at h
    next => nomatch h
    next p hmap =>
      obtain ⟨rfl, rfl⟩ := Prod.mk.inj (Option.some.inj h)
      let issued := sys.m.issueAlive (sys.m.records p).node.ip (sys.m.records p).node.port tags
      let called : Sys H :=
        Sys.setTask k (some (.called issued.1 (some ch))) { sys with m := issued.2 }
      let s : Await H := { start sys clock (.updateTags tags) k ch with
        sys := called, pc := .running .handling }
      have hcalled : Sys.act (.updateTags k tags ch) sys = some called := by
        dsimp only [Sys.act]
        rw [if_neg hsize, hfree, hmap]
      have hstart : act .start (start sys clock (.updateTags tags) k ch) = some s := by
        dsimp only [act, start]
        rw [if_neg hsize, hcalled]
        rfl
      obtain ⟨as, hmem, has⟩ := Sys.called_acts (s := { sys with m := issued.2 }) hfree env
        issued.1 (some ch)
      have hpermits : ∀ a ∈ as, s.permits a = true := by
        intro a ha
        rcases hmem a ha with rfl | rfl | rfl <;> rfl
      have hhandled : handled { s with
          sys := { sys with m := issued.2.aliveNode env issued.1 (some ch) } } = some true := by
        dsimp only [handled, s, start]
        rw [hfree]
      exact handler_comes env hstart rfl hpermits has hhandled

/-- **Taken one after the other, the pieces of `Leave` are `Leave`.** -/
theorem leave_acts {sys : Sys H} (hidle : sys.leave = .idle) {env : Env} {ch : Nat}
    {r : Except String Unit} {m' : Memberlist H} (h : sys.m.leave env ch = some (r, m'))
    (clock : Time) (k : Nat) :
    ∃ as t, run act as (start sys clock .leave k ch) = some t ∧ t.sys.m = m' ∧ Comes env r t := by
  unfold Memberlist.leave at h
  split at h
  next => nomatch h
  next hshut =>
    split at h
    next hleft =>
      obtain ⟨rfl, rfl⟩ := Prod.mk.inj (Option.some.inj h)
      refine ⟨[.start], { start sys clock .leave k ch with pc := .returned (.ok ()) }, ?_, rfl,
        .inl rfl⟩
      rw [run_singleton]
      dsimp only [act, start]
      rw [if_neg hshut, if_pos hleft]
    next hleft =>
      -- the first piece sets the flag; the others find it set
      let flagged : Sys H := { sys with m := { sys.m with left := true }, leave := .flagged }
      let s : Await H :=
        { start sys clock .leave k ch with sys := flagged, pc := .running .handling }
      have hflag : Sys.act .leave sys = some flagged := by
        dsimp only [Sys.act]
        rw [hidle]
        exact if_neg (by simp [hshut, hleft])
      have hstart : act .start (start sys clock .leave k ch) = some s := by
        dsimp only [act, start]
        rw [if_neg hshut, if_neg hleft, hflag]
        rfl
      dsimp only at h
      split at h
      next habs =>
        obtain ⟨rfl, rfl⟩ := Prod.mk.inj (Option.some.inj h)
        -- not in its own map: it returns without a message
        have hlookup : run Sys.act [.leaveLookup] flagged =
            some { flagged with leave := .done false } := by
          rw [run_singleton]
          dsimp only [Sys.act, flagged]
          rw [habs]
        have hpermits : ∀ a ∈ [Action.leaveLookup], s.permits a = true := by
          intro a ha
          rw [List.mem_singleton.mp ha]
          rfl
        exact handler_comes env hstart rfl hpermits hlookup rfl
      next p hmap =>
        obtain ⟨m₁, hd, he⟩ := Option.map_eq_some_iff.mp h
        obtain ⟨rfl, rfl⟩ := Prod.mk.inj he
        -- looked up, read and declared: three pieces
        have hlookup : Sys.act .leaveLookup flagged = some { flagged with leave := .found p } := by
          dsimp only [Sys.act, flagged]
          rw [hmap]
        have hpieces : run Sys.act [.leaveLookup, .leaveRead, .leaveDead env ch] flagged =
            some { flagged with m := m₁, leave := .done true } := by
          rw [run_cons, hlookup, Option.bind_some]
          dsimp only [run, Sys.act, Option.bind_some, flagged]
          rw [Sys.leaveMsg, hd]
          rfl
        have hpermits : ∀ a ∈ [Action.leaveLookup, .leaveRead, .leaveDead env ch],
            s.permits a = true := by
          intro a ha
          simp only [List.mem_cons, List.not_mem_nil, or_false] at ha
          rcases ha with rfl | rfl | rfl
          · rfl
          · rfl
          · simp [permits, s, start]
        exact handler_comes env hstart rfl hpermits hpieces rfl

end Await

namespace Concrete

/-- A member that waits ten units of time, with an alive peer. -/
def waiter : Sys (List (TransmitCapItem Msg)) :=
  let m := built "me" me_ne
  Sys.start (Memberlist.aliveNode {} (aliveMsg 1) none
    { m with config := { m.config with broadcastWaitTimeout := 10 } })

/-- The pieces of `aliveNode` in goroutine 0 with new tags, as far as its return. -/
def tagPieces : List AwaitAction :=
  [.start, .piece (.check 0), .piece (.lock 0 {}), .piece (.publish 0), .piece (.publish 0),
    .piece (.publish 0)]

def leavePieces : List AwaitAction :=
  [.start, .piece .leaveLookup, .piece .leaveRead, .piece (.leaveDead {} 5)]

/-- One transmission is enough. -/
def drain : AwaitAction := .piece (.getMessages 1 2 1000)

end Concrete

open Concrete in
/-- The queue is drained while the call waits: it returns nil. -/
theorem broadcast_told_iff_update :
    Along Await.act Await.Told (tagPieces ++ [.check, .select, .tick 3, drain])
      (Await.start waiter 0 (.updateTags [1]) 0 5) ∧
    (run Await.act (tagPieces ++ [.check, .select, .tick 3, drain])
      (Await.start waiter 0 (.updateTags [1]) 0 5)).any
        (fun s => s.finished && s.returnedNil) = true :=
  ⟨(Await.broadcast_told_iff waiter 0 (.updateTags [1]) 0 5 _).mpr (by decide +kernel),
    by decide +kernel⟩

open Concrete in
/-- The queue is drained before the call waits: both calls return the timeout error. -/
theorem finished_before_select :
    (run Await.act (tagPieces ++ [drain, .check, .select, .tick 10, .timeout])
      (Await.start waiter 0 (.updateTags [1]) 0 5)).any
        (fun s => s.finished && s.returnedTimeout) = true ∧
    (run Await.act (leavePieces ++ [drain, .check, .select, .tick 10, .timeout])
      (Await.start waiter 0 .leave 0 5)).any
        (fun s => s.finished && s.returnedTimeout) = true := by
  decide +kernel

end Mlist
