import Mlist.Lib.Run
import Mlist.Model.Ping

/-!
# Acks that come too early

The handler of a ping is in its table before the first message goes out, but its channel
takes an ack only while the call is in its `select`. An ack that is faster than that is
dropped, and its handler with it: the call then waits in vain and reports the node as not
answering (`early_ack_lost`).

`Heard` is what should hold: if an ack with the number of the call has been dealt with after
the handler was registered and before its deadline, the call has succeeded, or the receiver
that took the handler has still to send. `ping_heard_iff` says which sends keep it.
-/

namespace Mlist

open Mlist.Lib

theorem PingManager.setHandler_handlers (mng : PingManager) (k k' : PingKind) (n n' : UInt32)
    (h : Option Nat) : (mng.setHandler k n h).handlers k' n' =
      if k' = k ∧ n' = n then h else mng.handlers k' n' :=
  mng.handlers.set_apply k k' n n' h

namespace PingSys

variable {s t : PingSys} {a : PingAction} {k : PingKind} {n : UInt32}

/-- The call has reported success. -/
def succeeded (s : PingSys) : Bool :=
  match s.call.pc with
  | .returned r => r.success
  | _ => false

/-- An ack dealt with in time was heard, or is about to be. -/
def Heard (s : PingSys) : Prop :=
  s.acked = true → s.succeeded = true ∨ s.call.handler ∈ s.held

/-! ## The ways through an action -/

/-- What an action that is possible does. -/
inductive Acts (s : PingSys) : PingAction → PingSys → Prop where
  | ticked (d : Nat) : Acts s (.tick d) { s with now := s.now + d }
  | refused (addr : Bool) (peers : List UDPAddr) (hpc : s.call.pc = .running .starting) :
    Acts s (.start addr peers) (s.setPc (.returned ⟨false, 0, 0⟩))
  | numbered (addr : Bool) (peers : List UDPAddr) (numSends : Nat)
    (hpc : s.call.pc = .running .starting)
    (hnum : s.call.kind = .indirect → numSends = peers.length) :
    Acts s (.start addr peers) { s with
      mng := s.mng.nextSeqNo.2
      call := { s.call with seqNo := s.mng.nextSeqNo.1, numSends, pc := .running .numbered } }
  | armed (hpc : s.call.pc = .running .numbered) : Acts s .arm { s with call := { s.call with
      deadline := s.now + s.call.timeout
      timer := true
      pc := .running .armed } }
  | registered (hpc : s.call.pc = .running .armed) : Acts s .register { s with
      mng := s.mng.setHandler s.call.kind s.call.seqNo (some s.call.handler)
      registered := true
      call := { s.call with pc := .running (.sending s.call.numSends) } }
  | sent (left : Nat) (hpc : s.call.pc = .running (.sending (left + 1))) :
    Acts s (.send true) (s.setPc (.running (.sending left)))
  | unsent (left : Nat) (hpc : s.call.pc = .running (.sending (left + 1))) :
    Acts s (.send false) (s.setPc (.returned ⟨false, 0, 0⟩))
  | selected (hpc : s.call.pc = .running (.sending 0)) :
    Acts s .select (s.setPc (.waiting (s.now + s.call.timeout)))
  | timedOut (d : Time) (hpc : s.call.pc = .waiting d) (hd : d ≤ s.now) :
    Acts s .timeout (s.setPc (.returned s.timeoutResult))
  | expired (hd : s.call.deadline ≤ s.now) : Acts s .expire { s with
      mng := s.mng.setHandler s.call.kind s.call.seqNo none
      call := { s.call with timer := false } }
  | missed (n : UInt32) (hnone : s.mng.handlers .direct n = none) :
    Acts s (.ack n) (s.unhandled .direct n)
  | taken (n : UInt32) (h : Nat) (hsome : s.mng.handlers .direct n = some h) :
    Acts s (.ack n) { s with mng := s.mng.setHandler .direct n none, held := h :: s.held }
  | delivered (h : Nat) (hheld : h ∈ s.held) :
    Acts s (.deliver h) ({ s with held := s.held.erase h }.sendAck h)
  | missedIndirect (sender : UDPAddr) (n : UInt32) (hnone : s.mng.handlers .indirect n = none) :
    Acts s (.indirectAck sender n true) (s.unhandled .indirect n)
  | nacked (sender : UDPAddr) (n : UInt32) (nNacks : Nat) :
    Acts s (.indirectAck sender n false) { s with call := { s.call with nNacks } }
  | deliveredIndirect (sender : UDPAddr) (n : UInt32) (h : Nat)
    (hsome : s.mng.handlers .indirect n = some h) :
    Acts s (.indirectAck sender n true)
      ({ s with mng := s.mng.setHandler .indirect n none }.sendAck h)
  | otherNumbered : Acts s .otherSeqNo { s with mng := s.mng.nextSeqNo.2 }
  | other (k : PingKind) (n : UInt32) (h : Option Nat) (howns : s.owns k n = false)
    (hne : h ≠ some s.call.handler) :
    Acts s (.other k n h) { s with mng := s.mng.setHandler k n h }

theorem act_case (h : act a s = some t) : Acts s a t := by
  cases a with
  | tick d => exact Option.some.inj h ▸ .ticked d
  | start addr peers =>
    dsimp only [act] at h
    split at h
    next hpc =>
      split at h
      next => exact Option.some.inj h ▸ .refused addr peers hpc
      next =>
        split at h
        next => exact Option.some.inj h ▸ .refused addr peers hpc
        next => exact Option.some.inj h ▸ .numbered addr peers _ hpc fun hkind => by rw [hkind]
    next => nomatch h
  | arm =>
    dsimp only [act] at h
    split at h
    next hpc => exact Option.some.inj h ▸ .armed hpc
    next => nomatch h
  | register =>
    dsimp only [act] at h
    split at h
    next hpc => exact Option.some.inj h ▸ .registered hpc
    next => nomatch h
  | send ok =>
    dsimp only [act] at h
    split at h
    next left hpc =>
      cases ok with
      | true => exact Option.some.inj h ▸ .sent left hpc
      | false => exact Option.some.inj h ▸ .unsent left hpc
    next => nomatch h
  | select =>
    dsimp only [act] at h
    split at h
    next hpc => exact Option.some.inj h ▸ .selected hpc
    next => nomatch h
  | timeout =>
    obtain ⟨pc, hexp, rfl⟩ := Option.map_eq_some_iff.mp h
    obtain ⟨d, hpc, hd, rfl⟩ := Caller.expire_case hexp
    exact .timedOut d hpc hd
  | expire =>
    dsimp only [act] at h
    split at h
    next hd => exact Option.some.inj h ▸ .expired hd.2
    next => nomatch h
  | ack n =>
    dsimp only [act] at h
    split at h
    next hnone => exact Option.some.inj h ▸ .missed n hnone
    next k hsome => exact Option.some.inj h ▸ .taken n k hsome
  | deliver k =>
    dsimp only [act] at h
    split at h
    next hheld => exact Option.some.inj h ▸ .delivered k hheld
    next => nomatch h
  | indirectAck sender n success =>
    dsimp only [act] at h
    cases success with
    | true =>
      split at h
      next hnone => exact Option.some.inj h ▸ .missedIndirect sender n hnone
      next k hsome => exact Option.some.inj h ▸ .deliveredIndirect sender n k hsome
    | false =>
      split at h
      next => exact Option.some.inj h ▸ .nacked sender n s.call.nNacks
      next k hsome =>
        rw [if_pos rfl] at h
        split at h
        next => exact Option.some.inj h ▸ .nacked sender n _
        next => exact Option.some.inj h ▸ .nacked sender n s.call.nNacks
  | otherSeqNo => exact Option.some.inj h ▸ .otherNumbered
  | other k n h' =>
    dsimp only [act] at h
    split at h
    next => nomatch h
    next hno =>
      have howns : s.owns k n = false := Bool.eq_false_iff.mpr fun ho => hno (.inl ho)
      exact Option.some.inj h ▸ .other k n h' howns fun hh => hno (.inr hh)

/-! ## The invariant -/

/-- What holds at each point of the call. The `select` waits at least as long as the timer of
the handler runs. -/
def Placed (s : PingSys) : Prop :=
  match s.call.pc with
  | .running .starting => s.registered = false
  | .running .numbered => s.registered = false
  | .running .armed => s.registered = false ∧ s.call.deadline ≤ s.now + s.call.timeout
  | .running (.sending _) => s.registered = true ∧ s.call.deadline ≤ s.now + s.call.timeout
  | .waiting d => s.registered = true ∧ s.call.deadline ≤ d
  | .returned _ => True

/-- Where the handler is: in its place in the table, in the hands of one receiver, or gone.
Before the deadline it is gone only if the call has succeeded. -/
structure Inv (s : PingSys) : Prop where
  placed : s.Placed
  table : ∀ k n, s.mng.handlers k n = some s.call.handler →
    s.registered = true ∧ k = s.call.kind ∧ n = s.call.seqNo
  untouched : s.mng.handlers s.call.kind s.call.seqNo = some s.call.handler →
    s.call.handler ∉ s.held ∧ s.acked = false ∧ s.succeeded = false
  held : s.call.handler ∈ s.held → s.registered = true ∧ s.succeeded = false
  once : s.held.count s.call.handler ≤ 1
  unacked : s.registered = false → s.acked = false
  kept : s.registered = true → s.now < s.call.deadline →
    s.mng.handlers s.call.kind s.call.seqNo = some s.call.handler ∨ s.call.handler ∈ s.held ∨
      s.succeeded = true

theorem inTime_iff : s.inTime = true ↔ s.registered = true ∧ s.now < s.call.deadline := by
  simp [inTime]

theorem owns_place (h : s.owns k n = true) : k = s.call.kind ∧ n = s.call.seqNo := by
  simp only [owns, Bool.and_eq_true, beq_iff_eq] at h
  exact ⟨h.1.2, h.2⟩

/-- Before it is registered the handler is nowhere. -/
theorem Inv.unregistered (h : Inv s) (hreg : s.registered = false) :
    (∀ k n, s.mng.handlers k n ≠ some s.call.handler) ∧ s.call.handler ∉ s.held := by
  refine ⟨fun k n hs => ?_, fun hmem => ?_⟩
  · rw [(h.table k n hs).1] at hreg
    nomatch hreg
  · rw [(h.held hmem).1] at hreg
    nomatch hreg

/-- The call gets on, without success. -/
theorem Inv.setPc (h : Inv s) {pc : Caller PingPc PingResult} (hplaced : (s.setPc pc).Placed)
    (hfrom : s.succeeded = false) (hto : (s.setPc pc).succeeded = false) : Inv (s.setPc pc) where
  placed := hplaced
  table := h.table
  untouched := fun hs => ⟨(h.untouched hs).1, (h.untouched hs).2.1, hto⟩
  held := fun hmem => ⟨(h.held hmem).1, hto⟩
  once := h.once
  unacked := h.unacked
  kept := by
    intro hreg hlt
    rw [hto, ← hfrom]
    exact h.kept hreg hlt

/-- A place that does not hold the handler of the call gets something else. -/
theorem Inv.setHandler (h : Inv s) {k : PingKind} {n : UInt32} {o : Option Nat}
    (hne : o ≠ some s.call.handler)
    (hkeep : k = s.call.kind ∧ n = s.call.seqNo → s.registered = true →
      s.now < s.call.deadline → s.mng.handlers k n ≠ some s.call.handler) :
    Inv { s with mng := s.mng.setHandler k n o } where
  placed := h.placed
  table := by
    intro k' n' hs
    rw [PingManager.setHandler_handlers] at hs
    split at hs
    · exact absurd hs hne
    · exact h.table k' n' hs
  untouched := by
    intro hs
    rw [PingManager.setHandler_handlers] at hs
    split at hs
    · exact absurd hs hne
    · exact h.untouched hs
  held := h.held
  once := h.once
  unacked := h.unacked
  kept := by
    intro hreg hlt
    rw [PingManager.setHandler_handlers]
    split
    next heq =>
      right
      refine (h.kept hreg hlt).resolve_left ?_
      rw [heq.1, heq.2]
      exact hkeep ⟨heq.1.symm, heq.2.symm⟩ hreg hlt
    next => exact h.kept hreg hlt

theorem succeeded_of_running {pc : PingPc} (hpc : s.call.pc = .running pc) :
    s.succeeded = false := by
  unfold succeeded
  rw [hpc]

theorem succeeded_of_waiting {d : Time} (hpc : s.call.pc = .waiting d) : s.succeeded = false := by
  unfold succeeded
  rw [hpc]

/-- A deadline that was set in time stays one as the clock goes on. -/
theorem le_later {deadline now timeout : Int} (d : Nat) (h : deadline ≤ now + timeout) :
    deadline ≤ now + d + timeout := by omega

theorem lt_earlier {deadline now : Int} {d : Nat} (h : now + d < deadline) : now < deadline := by
  omega

theorem Inv.tick (h : Inv s) (d : Nat) : Inv { s with now := s.now + d } where
  placed := by
    have hplaced := h.placed
    unfold Placed at hplaced ⊢
    dsimp only
    split at hplaced
    · exact hplaced
    · exact hplaced
    · exact ⟨hplaced.1, le_later d hplaced.2⟩
    · exact ⟨hplaced.1, le_later d hplaced.2⟩
    · exact hplaced
    · trivial
  table := h.table
  untouched := h.untouched
  held := h.held
  once := h.once
  unacked := h.unacked
  kept := by
    intro hreg hlt
    exact h.kept hreg (lt_earlier hlt)

/-- The place of the handler can only change while the handler is nowhere. -/
theorem Inv.prepare (h : Inv s) (hreg : s.registered = false) {mng : PingManager} {call : PingCall}
    (hhandlers : mng.handlers = s.mng.handlers) (hhandler : call.handler = s.call.handler)
    (hplaced : Placed { s with mng, call }) : Inv { s with mng, call } := by
  obtain ⟨hno, hnot⟩ := h.unregistered hreg
  have hno' : ∀ k n, mng.handlers k n ≠ some call.handler := by
    rw [hhandlers, hhandler]
    exact hno
  refine ⟨hplaced, fun k n hs => absurd hs (hno' k n), fun hs => absurd hs (hno' _ _), ?_, ?_,
    h.unacked, ?_⟩
  · intro hmem
    exact absurd (hhandler ▸ hmem) hnot
  · show s.held.count call.handler ≤ 1
    rw [hhandler]
    exact h.once
  · intro hreg'
    rw [hreg] at hreg'
    nomatch hreg'

theorem Inv.register (h : Inv s) (hpc : s.call.pc = .running .armed) : Inv { s with
    mng := s.mng.setHandler s.call.kind s.call.seqNo (some s.call.handler)
    registered := true
    call := { s.call with pc := .running (.sending s.call.numSends) } } := by
  have hplaced := h.placed
  unfold Placed at hplaced
  rw [hpc] at hplaced
  obtain ⟨hreg, hdeadline⟩ := hplaced
  obtain ⟨hno, hnot⟩ := h.unregistered hreg
  refine ⟨⟨rfl, hdeadline⟩, ?_, fun _ => ⟨hnot, h.unacked hreg, rfl⟩, fun hmem => absurd hmem hnot,
    h.once, (fun hr => nomatch hr), ?_⟩
  · intro k n hs
    rw [PingManager.setHandler_handlers] at hs
    split at hs
    next heq => exact ⟨rfl, heq⟩
    next => exact absurd hs (hno k n)
  · intro _ _
    left
    rw [PingManager.setHandler_handlers, if_pos ⟨rfl, rfl⟩]

/-- An ack finds its place empty. -/
theorem Inv.unhandled (h : Inv s) (hnone : s.mng.handlers k n = none) : Inv (s.unhandled k n) where
  placed := h.placed
  table := h.table
  untouched := by
    intro hs
    obtain ⟨hnot, hacked, hsucc⟩ := h.untouched hs
    refine ⟨hnot, ?_, hsucc⟩
    show (s.acked || (s.owns k n && s.inTime)) = false
    have howns : s.owns k n = false := Bool.eq_false_iff.mpr fun ho => by
      obtain ⟨rfl, rfl⟩ := owns_place ho
      exact nomatch hnone.symm.trans hs
    rw [hacked, howns]
    rfl
  held := h.held
  once := h.once
  unacked := by
    intro hreg
    show (s.acked || (s.owns k n && s.inTime)) = false
    have htime : s.inTime = false := Bool.eq_false_iff.mpr fun ht => by
      exact nomatch (inTime_iff.mp ht).1.symm.trans hreg
    rw [h.unacked hreg, htime, Bool.and_false]
    rfl
  kept := h.kept

/-- Once the handler is taken out of its place it is in no table. -/
theorem Inv.gone (h : Inv s) (hsome : s.mng.handlers k n = some s.call.handler) (k' : PingKind)
    (n' : UInt32) : (s.mng.setHandler k n none).handlers k' n' ≠ some s.call.handler := by
  intro hs
  rw [PingManager.setHandler_handlers] at hs
  split at hs
  next => nomatch hs
  next hne =>
    obtain ⟨-, hk, hn⟩ := h.table _ _ hsome
    obtain ⟨-, hk', hn'⟩ := h.table _ _ hs
    exact hne ⟨hk'.trans hk.symm, hn'.trans hn.symm⟩

/-- As long as the handler is in the table, nobody holds it and the call has not succeeded. -/
theorem Inv.fresh (h : Inv s) (hsome : s.mng.handlers k n = some s.call.handler) :
    s.registered = true ∧ s.call.handler ∉ s.held ∧ s.acked = false ∧ s.succeeded = false := by
  obtain ⟨hreg, rfl, rfl⟩ := h.table _ _ hsome
  exact ⟨hreg, h.untouched hsome⟩

/-- Other handlers are taken or sent to. -/
theorem Inv.setHeld (h : Inv s) {held : List Nat}
    (hcount : held.count s.call.handler = s.held.count s.call.handler) : Inv { s with held } := by
  have hmem : s.call.handler ∈ held ↔ s.call.handler ∈ s.held := by
    rw [← List.count_pos_iff, ← List.count_pos_iff, hcount]
  refine ⟨h.placed, h.table, ?_, ?_, ?_, h.unacked, ?_⟩
  · intro hs
    show s.call.handler ∉ held ∧ _
    rw [hmem]
    exact h.untouched hs
  · intro hm
    exact h.held (hmem.mp hm)
  · show held.count s.call.handler ≤ 1
    rw [hcount]
    exact h.once
  · intro hreg hlt
    show _ ∨ s.call.handler ∈ held ∨ _
    rw [hmem]
    exact h.kept hreg hlt

/-- A receiver takes a handler out. -/
theorem Inv.take (h : Inv s) {k' : Nat} (hsome : s.mng.handlers .direct n = some k') :
    Inv { s with mng := s.mng.setHandler .direct n none, held := k' :: s.held } := by
  by_cases hown : k' = s.call.handler
  · subst hown
    obtain ⟨hreg, hnot, -, hsucc⟩ := h.fresh hsome
    have hgone := h.gone hsome
    refine ⟨h.placed, fun k n' hs => absurd hs (hgone k n'), fun hs => absurd hs (hgone _ _),
      fun _ => ⟨hreg, hsucc⟩, ?_, h.unacked, fun _ _ => .inr (.inl (List.mem_cons_self ..))⟩
    show (s.call.handler :: s.held).count s.call.handler ≤ 1
    have hzero := List.count_eq_zero_of_not_mem hnot
    rw [List.count_cons_self]
    omega
  · have hset := h.setHandler (k := .direct) (n := n) (o := none) (fun hs => nomatch hs)
      fun _ _ _ hs => hown (Option.some.inj (hsome.symm.trans hs))
    exact hset.setHeld (List.count_cons_of_ne hown)

/-- The ack is for another call. -/
theorem sendAck_of_ne {k : Nat} (hne : k ≠ s.call.handler) : s.sendAck k = s := if_neg hne

/-- The ack goes to the channel of the call, and the handler is gone. -/
theorem inv_sendAck (hplaced : s.Placed) (hreg : s.registered = true)
    (hgone : ∀ k n, s.mng.handlers k n ≠ some s.call.handler) (hnot : s.call.handler ∉ s.held)
    (hheard : Heard (s.sendAck s.call.handler)) : Inv (s.sendAck s.call.handler) := by
  have hsend : s.sendAck s.call.handler = { s with
      acked := s.acked || s.inTime
      call := { s.call with timer := false, pc := s.call.pc.signal ⟨true, 0, 0⟩ } } := if_pos rfl
  rw [hsend] at hheard ⊢
  refine ⟨?_, fun k n hs => absurd hs (hgone k n), fun hs => absurd hs (hgone _ _),
    fun hmem => absurd hmem hnot, ?_, fun hr => ?_, fun _ hlt => ?_⟩
  · unfold Placed at hplaced ⊢
    dsimp only
    cases hpc : s.call.pc with
    | running pc =>
      rw [hpc] at hplaced
      exact hplaced
    | waiting d => trivial
    | returned r => trivial
  · show s.held.count s.call.handler ≤ 1
    rw [List.count_eq_zero_of_not_mem hnot]
    exact Nat.zero_le 1
  · exact nomatch hreg.symm.trans hr
  · have hacked : (s.acked || s.inTime) = true := by
      rw [inTime_iff.mpr ⟨hreg, hlt⟩, Bool.or_true]
    rcases hheard hacked with hsucc | hmem
    · exact .inr (.inr hsucc)
    · exact .inr (.inl hmem)

theorem Inv.not_mem_erase (h : Inv s) : s.call.handler ∉ s.held.erase s.call.handler := by
  intro hmem
  have hcount := List.count_pos_iff.mpr hmem
  rw [List.count_erase_self] at hcount
  have honce := h.once
  omega

/-- Every action keeps the invariant, as long as what was dealt with in time is heard. -/
theorem act_inv (h : Inv s) (hheard : Heard t) (ha : act a s = some t) : Inv t := by
  have hplaced := h.placed
  unfold Placed at hplaced
  cases act_case ha with
  | ticked d => exact h.tick d
  | refused addr peers hpc =>
    exact h.setPc trivial (succeeded_of_running hpc) rfl
  | numbered addr peers numSends hpc hnum =>
    rw [hpc] at hplaced
    exact h.prepare hplaced rfl rfl hplaced
  | armed hpc =>
    rw [hpc] at hplaced
    exact h.prepare hplaced rfl rfl ⟨hplaced, Int.le_refl _⟩
  | registered hpc => exact h.register hpc
  | sent left hpc =>
    rw [hpc] at hplaced
    exact h.setPc hplaced (succeeded_of_running hpc) rfl
  | unsent left hpc =>
    exact h.setPc trivial (succeeded_of_running hpc) rfl
  | selected hpc =>
    rw [hpc] at hplaced
    exact h.setPc hplaced (succeeded_of_running hpc) rfl
  | timedOut d hpc hd =>
    refine h.setPc trivial (succeeded_of_waiting hpc) ?_
    show s.timeoutResult.success = false
    unfold timeoutResult
    split <;> rfl
  | expired hd =>
    -- the deadline is over, so nothing has to be kept for it any more
    have hset := h.setHandler (k := s.call.kind) (n := s.call.seqNo) (o := none)
      (fun hs => nomatch hs) fun _ _ hlt => absurd hd (Int.not_le.mpr hlt)
    exact ⟨hset.placed, hset.table, hset.untouched, hset.held, hset.once, hset.unacked, hset.kept⟩
  | missed n hnone => exact h.unhandled hnone
  | taken n k hsome => exact h.take hsome
  | delivered k hheld =>
    by_cases hown : k = s.call.handler
    · subst hown
      obtain ⟨hreg, -⟩ := h.held hheld
      exact inv_sendAck (s := { s with held := s.held.erase s.call.handler }) h.placed hreg
        (fun k n hs => (h.fresh hs).2.1 hheld) h.not_mem_erase hheard
    · have hheld' := h.setHeld (List.count_erase_of_ne (Ne.symm hown))
      exact (sendAck_of_ne (s := { s with held := s.held.erase k }) hown).symm ▸ hheld'
  | missedIndirect sender n hnone => exact h.unhandled hnone
  | nacked sender n nNacks =>
    exact ⟨h.placed, h.table, h.untouched, h.held, h.once, h.unacked, h.kept⟩
  | deliveredIndirect sender n k hsome =>
    by_cases hown : k = s.call.handler
    · subst hown
      obtain ⟨hreg, hnot, -⟩ := h.fresh hsome
      exact inv_sendAck (s := { s with mng := s.mng.setHandler .indirect n none }) h.placed hreg
        (h.gone hsome) hnot hheard
    · have hset := h.setHandler (k := .indirect) (n := n) (o := none) (fun hs => nomatch hs)
        fun _ _ _ hs => hown (Option.some.inj (hsome.symm.trans hs))
      exact (sendAck_of_ne (s := { s with mng := s.mng.setHandler .indirect n none }) hown).symm ▸
        hset
  | otherNumbered =>
    exact ⟨h.placed, h.table, h.untouched, h.held, h.once, h.unacked, h.kept⟩
  | other k n h' howns hne =>
    refine h.setHandler hne fun hplace hreg _ => absurd ?_ (Bool.eq_false_iff.mp howns)
    have hstarted : s.call.pc ≠ .running .starting := by
      intro hpc
      rw [hpc] at hplaced
      exact nomatch hreg.symm.trans hplaced
    simp [owns, hplace, hstarted]

/-! ## Which sends are heard -/

/-- The send on the channel of the call finds it in its `select`; or it comes after the
deadline, and no other ack has been dealt with before. -/
def InSelect (s : PingSys) : PingAction → Prop
  | .deliver h => h ∈ s.held → h = s.call.handler →
      s.call.pc.isWaiting = true ∨ (s.inTime = false ∧ s.acked = false)
  | .indirectAck _ n true => s.mng.handlers .indirect n = some s.call.handler →
      s.call.pc.isWaiting = true ∨ s.inTime = false
  | _ => True

/-- When a send on the channel of the call, by whoever took its handler last, is heard. -/
theorem sendAck_heard_iff (hnot : s.call.handler ∉ s.held) (hsucc : s.succeeded = false) :
    Heard (s.sendAck s.call.handler) ↔
      s.call.pc.isWaiting = true ∨ (s.inTime = false ∧ s.acked = false) := by
  have hsend : s.sendAck s.call.handler = { s with
      acked := s.acked || s.inTime
      call := { s.call with timer := false, pc := s.call.pc.signal ⟨true, 0, 0⟩ } } := if_pos rfl
  rw [hsend]
  unfold Heard
  cases hw : s.call.pc.isWaiting with
  | true =>
    refine iff_of_true (fun _ => .inl ?_) (.inl rfl)
    show succeeded { s with call := { s.call with timer := false, pc := _ } } = true
    rw [Caller.signal_of_waiting _ hw]
    rfl
  | false =>
    rw [Caller.signal_of_not_waiting _ hw]
    show ((s.acked || s.inTime) = true → s.succeeded = true ∨ s.call.handler ∈ s.held) ↔ _
    rw [hsucc]
    simp [hnot, and_comm]

/-- A call that has not succeeded goes on. -/
theorem Heard.going_on (h : Heard s) (hsucc : s.succeeded = false) (hacked : t.acked = s.acked)
    (hheld : t.held = s.held) (hhandler : t.call.handler = s.call.handler) : Heard t := by
  intro hack
  rw [hheld, hhandler]
  refine .inr ((h (hacked ▸ hack)).resolve_left ?_)
  rw [hsucc]
  decide

/-- An ack finds no handler: another one took it. -/
theorem Heard.unhandled (h : Inv s) (hheard : Heard s) (hnone : s.mng.handlers k n = none) :
    Heard (s.unhandled k n) := by
  intro hack
  have hor : s.acked = true ∨ (s.owns k n = true ∧ s.inTime = true) := by
    simpa [PingSys.unhandled] using hack
  rcases hor with hacked | ⟨howns, htime⟩
  · exact hheard hacked
  · obtain ⟨rfl, rfl⟩ := owns_place howns
    obtain ⟨hreg, hlt⟩ := inTime_iff.mp htime
    have hkept := (h.kept hreg hlt).resolve_left (by rw [hnone]; exact fun hs => nomatch hs)
    exact hkept.symm

/-- Whatever is not a send that comes too early keeps it. -/
theorem act_heard (h : Inv s) (hheard : Heard s) (hin : InSelect s a) (ha : act a s = some t) :
    Heard t := by
  cases act_case ha with
  | ticked d => exact hheard
  | refused addr peers hpc =>
    exact hheard.going_on (succeeded_of_running hpc) rfl rfl rfl
  | numbered addr peers numSends hpc hnum =>
    exact hheard.going_on (succeeded_of_running hpc) rfl rfl rfl
  | armed hpc =>
    exact hheard.going_on (succeeded_of_running hpc) rfl rfl rfl
  | registered hpc =>
    exact hheard.going_on (succeeded_of_running hpc) rfl rfl rfl
  | sent left hpc =>
    exact hheard.going_on (succeeded_of_running hpc) rfl rfl rfl
  | unsent left hpc =>
    exact hheard.going_on (succeeded_of_running hpc) rfl rfl rfl
  | selected hpc =>
    exact hheard.going_on (succeeded_of_running hpc) rfl rfl rfl
  | timedOut d hpc hd =>
    exact hheard.going_on (succeeded_of_waiting hpc) rfl rfl rfl
  | expired hd => exact hheard
  | missed n hnone => exact hheard.unhandled h hnone
  | taken n k hsome =>
    intro hacked
    exact (hheard hacked).imp_right (List.mem_cons_of_mem _)
  | delivered k hheld =>
    -- the send, which has to come when the call is in its `select`
    by_cases hown : k = s.call.handler
    · subst hown
      exact (sendAck_heard_iff (s := { s with held := s.held.erase s.call.handler })
        h.not_mem_erase (h.held hheld).2).mpr (hin hheld rfl)
    · rw [sendAck_of_ne (s := { s with held := s.held.erase k }) hown]
      intro hacked
      exact (hheard hacked).imp_right (List.mem_erase_of_ne (Ne.symm hown)).mpr
  | missedIndirect sender n hnone => exact hheard.unhandled h hnone
  | nacked sender n nNacks => exact hheard
  | deliveredIndirect sender n k hsome =>
    by_cases hown : k = s.call.handler
    · subst hown
      obtain ⟨-, hnot, hacked, hsucc⟩ := h.fresh hsome
      exact (sendAck_heard_iff (s := { s with mng := s.mng.setHandler .indirect n none })
        hnot hsucc).mpr ((hin hsome).imp_right fun htime => ⟨htime, hacked⟩)
    · rw [sendAck_of_ne (s := { s with mng := s.mng.setHandler .indirect n none }) hown]
      exact hheard
  | otherNumbered => exact hheard
  | other k n h' howns hne => exact hheard

/-- An action keeps it if and only if it is not such a send. -/
theorem act_heard_iff (h : Inv s) (hheard : Heard s) (a : PingAction) :
    (∀ t, act a s = some t → Heard t) ↔ InSelect s a := by
  constructor
  · intro hall
    unfold InSelect
    split
    next k =>
      intro hheld hown
      subst hown
      have hact : act (.deliver s.call.handler) s =
          some ({ s with held := s.held.erase s.call.handler }.sendAck s.call.handler) :=
        if_pos hheld
      exact (sendAck_heard_iff (s := { s with held := s.held.erase s.call.handler })
        h.not_mem_erase (h.held hheld).2).mp (hall _ hact)
    next sender n =>
      intro hsome
      have hact : act (.indirectAck sender n true) s =
          some ({ s with mng := s.mng.setHandler .indirect n none }.sendAck s.call.handler) := by
        dsimp only [act]
        rw [hsome]
        rfl
      obtain ⟨-, hnot, -, hsucc⟩ := h.fresh hsome
      exact ((sendAck_heard_iff (s := { s with mng := s.mng.setHandler .indirect n none })
        hnot hsucc).mp (hall _ hact)).imp_right fun hlate => hlate.1
    next => trivial
  · intro hin t ha
    exact act_heard h hheard hin ha

instance decidableInSelect (s : PingSys) : ∀ a, Decidable (InSelect s a)
  | .deliver h => inferInstanceAs (Decidable (h ∈ s.held → h = s.call.handler →
      s.call.pc.isWaiting = true ∨ (s.inTime = false ∧ s.acked = false)))
  | .indirectAck _ n true => inferInstanceAs (Decidable
      (s.mng.handlers .indirect n = some s.call.handler →
        s.call.pc.isWaiting = true ∨ s.inTime = false))
  | .indirectAck _ _ false | .tick _ | .start .. | .arm | .register | .send _ | .select
  | .timeout | .expire | .ack _ | .otherSeqNo | .other .. => isTrue trivial

/-- **When a ping hears its ack.** Take one `Ping` or `IndirectPing`, with any timeout, and any
interleaving of it with receivers of acks, timers and what other calls do. That an ack with
its number, dealt with after the handler is registered and before its deadline, makes the call
succeed, is true in every state of the run if and only if each send on its channel finds it in
its `select`; a send after the deadline need not, unless a second ack with the number was
dealt with in time, while the receiver of the first was held up. -/
theorem ping_heard_iff (now : Time) (mng : PingManager) (held : List Nat) (handler : Nat)
    (kind : PingKind) (timeout : Time) (htable : ∀ k n, mng.handlers k n ≠ some handler)
    (hheld : handler ∉ held) (as : List PingAction) :
    Along act Heard as (start now mng held handler kind timeout) ↔
      Each act InSelect as (start now mng held handler kind timeout) := by
  have hstart : Inv (start now mng held handler kind timeout) :=
    { placed := rfl
      table := fun k n hs => absurd hs (htable k n)
      untouched := fun hs => absurd hs (htable _ _)
      held := fun hmem => absurd hmem hheld
      once := by
        show held.count handler ≤ 1
        rw [List.count_eq_zero_of_not_mem hheld]
        exact Nat.zero_le 1
      unacked := fun _ => rfl
      kept := fun hreg => nomatch hreg }
  rw [along_iff_each (fun a s t hs ht ha => act_inv hs ht ha)
    (fun a s hs hP => act_heard_iff hs hP a) as hstart]
  exact and_iff_right fun hacked => nomatch hacked

/-- Nothing registered, nobody at work. -/
def quiet (kind : PingKind) : PingSys := start 0 ⟨0, fun _ _ => none⟩ [] 0 kind 500

/-- Two peers. -/
def peerA : UDPAddr := ⟨[127, 0, 0, 2], 7946⟩

def peerB : UDPAddr := ⟨[127, 0, 0, 3], 7946⟩

/-- Two acks to an `IndirectPing` of two peers, a refusal and a success, after it has got to
its `select`. -/
theorem ping_heard_iff_indirect :
    Along act Heard [.start true [peerA, peerB], .arm, .register, .send true, .tick 10, .send true,
      .select, .indirectAck peerA 1 false, .tick 100, .indirectAck peerB 1 true]
      (quiet .indirect) :=
  (ping_heard_iff 0 ⟨0, fun _ _ => none⟩ [] 0 .indirect 500 (fun _ _ hs => nomatch hs)
    (fun hmem => nomatch hmem) _).mpr (by decide)

/-- The ack to a `Ping` is there before the call gets to its `select`; and the first of two
peers answers an `IndirectPing` before the second is asked. Both calls are told that nobody
has answered. -/
theorem early_ack_lost :
    (∃ s, run act [.start true [], .arm, .register, .send true, .ack 1, .deliver 0, .select,
        .tick 500, .timeout] (quiet .direct) = some s ∧
      s.acked = true ∧ s.held = [] ∧ s.call.pc = .returned ⟨false, 0, 0⟩) ∧
    (∃ s, run act [.start true [peerA, peerB], .arm, .register, .send true,
        .indirectAck peerA 1 true, .send true, .select, .tick 500, .timeout] (quiet .indirect) =
          some s ∧
      s.acked = true ∧ s.held = [] ∧ s.call.pc = .returned ⟨false, 0, 2⟩) :=
  ⟨⟨_, rfl, by decide⟩, ⟨_, rfl, by decide⟩⟩

end PingSys

end Mlist
