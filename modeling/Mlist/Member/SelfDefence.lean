import Mlist.Member.Suspects
import Mlist.Queue.Inv

/-!
# A member defends itself

As long as it has not called `Leave`, a member knows itself alive (`SelfAlive`),
and an accusation that is not too old to count — a suspect or dead message with at
least the `Lives` of its own record — is answered: afterwards the record is still
alive with more `Lives` than the accusation, and the one item of the broadcast
queue under its own name is the alive message that says so.

The guards that decide this come in a different order in the two handlers, an
existing suspicion would divert `suspectNode` before it looks whom the message is
about, and `mergeState` turns the dead into suspects; none of it gets in the way,
because a member never suspects itself (`Suspects.self`).

The new number has to beat the accusation *and* be below `2 ^ 32`, so the answer
to an accusation with the highest number there is never comes
(`refuteLoop_returns` has the bound).
-/

namespace Mlist

open Mlist.Lib

variable {H : Type} {m m' : Memberlist H} {r : NodeState}

/-- Who has not left knows itself alive. -/
def SelfAlive (m : Memberlist H) : Prop :=
  m.left = false → ∀ r, m.lookup m.id = some r → r.state = .alive

section Defence

variable [Encoded Msg] [Heap H (TransmitCapItem Msg)]

omit [Encoded Msg] [Heap H (TransmitCapItem Msg)] in
/-- Writing a record keeps `SelfAlive` if it is not ours or says alive. -/
private theorem selfAlive_setRecord (hm : Registry m) (h : SelfAlive m) {x : String} {p : Nat}
    (hmap : m.nodeMap x = some p) {new : NodeState}
    (hnew : x = m.id → m.left = false → new.state = .alive) : SelfAlive (m.setRecord p new) := by
  intro hleft r hr
  have hr : (m.setRecord p new).lookup m.id = some r := hr
  rw [hm.lookup_setRecord hmap] at hr
  by_cases hx : m.id = x
  · rw [if_pos hx] at hr
    rw [← Option.some.inj hr]
    exact hnew hx.symm hleft
  · rw [if_neg hx] at hr
    exact h hleft r hr

/-- No change makes a member that has not left think itself anything but alive. -/
theorem atom_selfAlive {ok : Msg → Prop} (hm : Sound m) (h : SelfAlive m) (ha : Atom ok m m') :
    SelfAlive m' := by
  cases ha with
  | quiet hq =>
    intro hleft r hr
    rw [hq.same.id, hq.same.lookup] at hr
    refine h ?_ r hr
    -- nothing takes the flag back
    cases hq with
    | flags awr shutdown left hmono =>
      cases hml : m.left with
      | false => rfl
      | true => exact absurd hleft (by rw [show left = true from hmono hml]; simp)
    | issue ip port tags => exact hleft
    | broadcast name msg notify _ => exact hleft
    | event type n => exact hleft
    | drain l o s => exact hleft
  | insert env a _ habs =>
    intro hleft r hr
    have hr : (m.insertNode env (Memberlist.freshRecord env a)).lookup m.id = some r := hr
    rw [hm.registry.lookup_insertNode] at hr
    split at hr
    next => exact Option.some.inj hr ▸ rfl
    next => exact h hleft r hr
  | revive env a p _ hmap _ =>
    exact selfAlive_setRecord hm.registry h hmap (fun _ _ => rfl)
  | confirm s p k _ _ _ => exact h
  | refute msg p calls _ _ hmap _ _ _ =>
    refine selfAlive_setRecord hm.registry h hmap ?_
    intro _ hleft
    have hstate : (m.records p).state = .alive := h hleft _ (Memberlist.lookup_of_map hmap)
    exact hstate
  | suspect env s p _ hmap _ _ _ hself =>
    exact selfAlive_setRecord hm.registry h hmap (fun hx => absurd hx hself)
  | kill env d p _ hmap _ _ hself =>
    refine selfAlive_setRecord hm.registry h hmap ?_
    intro hx hleft
    rw [hself hx] at hleft
    cases hleft

/-- The queue stays in order. -/
theorem atom_queueInv {ok : Msg → Prop} (h : m.mbroadcasts.QueueInv) (ha : Atom ok m m') :
    m'.mbroadcasts.QueueInv := by
  cases ha with
  | quiet hq =>
    cases hq with
    | broadcast name msg notify _ => exact TransmitCapQueue.queueMsg_inv h name msg notify
    | drain l o s => exact TransmitCapQueue.getMessages_inv h l o s
    | issue ip port tags => exact h
    | event type n => exact h
    | flags awr shutdown left _ => exact h
  | _ => exact h

/-- What a member that has not left can rely on. -/
structure Defended (m : Memberlist H) : Prop where
  sound : Sound m
  alive : SelfAlive m
  queue : m.mbroadcasts.QueueInv

theorem atom_defended {ok : Msg → Prop} (m m' : Memberlist H) (h : Defended m)
    (ha : Atom ok m m') : Defended m' :=
  ⟨atom_sound m m' h.sound ha, atom_selfAlive h.sound h.alive ha, atom_queueInv h.queue ha⟩

theorem defended_reap (m : Memberlist H) (env : Env) (h : Defended m) : Defended (m.reap env) := by
  refine ⟨sound_reap m env h.sound, ?_, h.queue⟩
  intro hleft r hr
  have hr : (m.reap env).lookup m.id = some r := hr
  rw [h.sound.registry.lookup_reap] at hr
  exact h.alive hleft r (Option.filter_eq_some_iff.mp hr).1

theorem defended_new (config : Config) : Defended (Memberlist.new config : Memberlist H) := by
  refine ⟨sound_new config, ?_, TransmitCapQueue.new_inv⟩
  intro _ r hr
  cases hr

theorem defended_disarm (m : Memberlist H) (k : Nat) (h : Defended m) : Defended (m.disarm k) :=
  ⟨sound_disarm m k h.sound, h.alive, h.queue⟩

theorem step_defended {op : Op} (h : Defended m) (hs : step op m = some m') : Defended m' :=
  step_inv atom_defended defended_reap defended_disarm (opOk_true m op) hs h

/-- So it is in every reachable state. -/
theorem reachable_defended (h : Reachable m) : Defended m :=
  reachable_inv defended_new atom_defended defended_reap defended_disarm h

/-! ## The answer -/

/-- What an answered accusation with these `Lives` leaves behind. -/
def Answered (self : String) (lives : Nat) (m' : Memberlist H) : Prop :=
  ∃ r' it, m'.lookup self = some r' ∧ r'.state = .alive ∧ lives < r'.lives ∧
    m'.mbroadcasts.items.filter (fun it => decide (it.name = self)) = [it] ∧
    it.msg = .alive { lives := r'.lives, id := self, ip := r'.node.ip, port := r'.node.port,
                      tags := r'.node.tags }

/-- A refutation is queued, at a `Lives` above that of the accusation. -/
theorem refute_answers {p lives : Nat} (hm : Defended m) (hmap : m.nodeMap m.id = some p)
    (hstate : (m.records p).state = .alive) (hlives : lives < livesSize - 1) :
    ∃ m', m.refute p lives = some m' ∧ Answered m.id lives m' := by
  obtain ⟨m', href⟩ := refute_returns m p hlives
  refine ⟨m', href, ?_⟩
  obtain ⟨calls', hloop', rfl⟩ := refute_case href
  have hid : (m.records p).node.id = m.id := hm.sound.registry.map_id hmap
  refine ⟨{ m.records p with lives := calls' % livesSize },
    m.mbroadcasts.newItem (m.records p).node.id
      (.alive (Memberlist.refuteMsg (m.records p) (calls' % livesSize))) none,
    ?_, hstate, (refuteLoop_gt hloop').1, ?_, ?_⟩
  · show (m.setRecord p { m.records p with lives := calls' % livesSize }).lookup m.id = _
    rw [hm.sound.registry.lookup_setRecord hmap, if_pos rfl]
  · rw [← hid]
    exact TransmitCapQueue.filter_queueMsg_name hm.queue _ none (hid ▸ m.config.id_ne)
  · show Msg.alive (Memberlist.refuteMsg (m.records p) (calls' % livesSize)) = _
    unfold Memberlist.refuteMsg
    rw [hid]

/-- Not too old, not suspected, alive, and us: `suspectNode` gets to the refutation. -/
theorem suspectNode_self (hm : Defended m) {p : Nat} (hmap : m.nodeMap m.id = some p)
    (hstate : (m.records p).state = .alive) (env : Env) {s : Suspect} (hid : s.id = m.id)
    (hlives : (m.records p).lives ≤ s.lives) : m.suspectNode env s = m.refute p s.lives := by
  unfold Memberlist.suspectNode
  rw [hid, hmap]
  show (if s.lives < (m.records p).lives then _ else _) = _
  rw [if_neg (Nat.not_lt.mpr hlives), hm.sound.suspects.self]
  show (if (m.records p).state ≠ .alive then _ else _) = _
  rw [if_neg (not_not.mpr hstate), if_pos rfl]

/-- Not too old, not dead, us, and we have not left: so does `deadNode`. -/
theorem deadNode_self {p : Nat} (hmap : m.nodeMap m.id = some p)
    (hstate : (m.records p).state = .alive) (hleft : m.left = false) (env : Env) {d : Dead}
    (notify : Option Nat) (hid : d.id = m.id) (hlives : (m.records p).lives ≤ d.lives) :
    m.deadNode env d notify = m.refute p d.lives := by
  unfold Memberlist.deadNode
  rw [hid, hmap]
  show (if d.lives < (m.records p).lives ∨ (m.records p).deadOrLeft = true then _ else _) = _
  have hnot : ¬ (d.lives < (m.records p).lives ∨ (m.records p).deadOrLeft = true) := by
    rw [NodeState.deadOrLeft_of_alive hstate]
    simp only [Bool.false_eq_true, or_false]
    omega
  rw [if_neg hnot, if_pos ⟨rfl, hleft⟩]

/-- **A member defends itself.** In every reachable state in which `Leave` has not
been called and the member has its own record, that record says alive. And every
suspect or dead message about the member with at least the record's `Lives`, and
below the highest number, is answered: the handler returns, the record is alive with
more `Lives` than the message, and the only item of the broadcast queue named after
the member is an alive message with those `Lives` and the record's tags. -/
theorem accusations_answered (hm : Reachable m) (hleft : m.left = false)
    (hr : m.lookup m.id = some r) (env : Env) :
    r.state = .alive ∧
    (∀ s : Suspect, s.id = m.id → r.lives ≤ s.lives → s.lives < 2 ^ 32 - 1 →
      ∃ m', m.suspectNode env s = some m' ∧ Answered m.id s.lives m') ∧
    (∀ (d : Dead) (notify : Option Nat), d.id = m.id → r.lives ≤ d.lives →
      d.lives < 2 ^ 32 - 1 →
      ∃ m', m.deadNode env d notify = some m' ∧ Answered m.id d.lives m') := by
  have hdef := reachable_defended hm
  have halive := hdef.alive hleft r hr
  obtain ⟨p, hmap, hrec⟩ := Memberlist.lookup_eq_some.mp hr
  have hstate : (m.records p).state = .alive := by rw [hrec]; exact halive
  refine ⟨halive, ?_, ?_⟩
  · intro s hid hlives hlt
    rw [suspectNode_self hdef hmap hstate env hid (by rw [hrec]; exact hlives)]
    exact refute_answers hdef hmap hstate hlt
  · intro d notify hid hlives hlt
    rw [deadNode_self hmap hstate hleft env notify hid (by rw [hrec]; exact hlives)]
    exact refute_answers hdef hmap hstate hlt

/-! ## The accusation that is not answered -/

/-- The highest number is never passed. -/
theorem refute_stuck (m : Memberlist H) (p : Nat) {lives : Nat} (h : livesSize - 1 ≤ lives) :
    m.refute p lives = none := by
  unfold Memberlist.refute
  rw [refuteLoop_stuck h]

/-- **When the loop of `refute` ends.** Whatever the counter reads, and whatever 32-bit
number the message carries: `refute` returns, and leaves the record with more `Lives` than
the message, exactly when the message does not carry the highest number there is. -/
theorem refute_ends_iff (m : Memberlist H) (p : Nat) {lives : Nat} (hlives : lives < 2 ^ 32) :
    (∃ m', m.refute p lives = some m' ∧ lives < (m'.records p).lives) ↔ lives ≠ 2 ^ 32 - 1 := by
  have hsize : livesSize = 2 ^ 32 := rfl
  constructor
  · intro hex hlast
    obtain ⟨m', href, -⟩ := hex
    rw [refute_stuck m p (show livesSize - 1 ≤ lives by omega)] at href
    cases href
  · intro hne
    obtain ⟨m', href⟩ := refute_returns m p (show lives < livesSize - 1 by omega)
    refine ⟨m', href, ?_⟩
    obtain ⟨calls', hloop', rfl⟩ := refute_case href
    have hrec : (Memberlist.records (m.raiseLives p calls') p).lives = calls' % livesSize := by
      simp [Memberlist.raiseLives, Memberlist.setRecord]
    refine Nat.lt_of_lt_of_eq (refuteLoop_gt hloop').1 hrec.symm

end Defence

open Concrete in
/-- Suspected at 7 with the counter at 1, the member goes to 8. -/
theorem accusations_answered_suspect :
    ∃ m' : Member, (state [] (by decide)).suspectNode {} ⟨7, "me", "other"⟩ = some m' ∧
      Answered "me" 7 m' := by
  have h := accusations_answered (reachable_state [] (by decide)) rfl rfl {}
  exact h.2.1 ⟨7, "me", "other"⟩ rfl (by decide) (by decide)

open Concrete in
/-- The counter at its end, and an accusation one below: answered with the last number. -/
theorem refute_ends_iff_last :
    let m := { state [] (by decide) with liveCalls := 2 ^ 32 - 2 }
    ∃ m', m.refute 0 (2 ^ 32 - 2) = some m' ∧ 2 ^ 32 - 2 < (m'.records 0).lives :=
  (refute_ends_iff _ 0 (by decide)).mpr (by decide)

open Concrete in
/-- A suspect or dead message about a member that has just been built, with the highest
number: the handler never returns, because no number of rounds is enough for the loop. -/
theorem refute_never_ends :
    let m := state [] (by decide)
    m.suspectNode {} ⟨2 ^ 32 - 1, "me", "peer"⟩ = none ∧
    m.deadNode {} ⟨2 ^ 32 - 1, "me", false⟩ none = none ∧
    ∀ fuel, Memberlist.refuteLoop (2 ^ 32 - 1) fuel m.liveCalls = none := by
  intro m
  have hmap : m.nodeMap m.id = some 0 := rfl
  have hstate : (m.records 0).state = .alive := rfl
  have hlives : (m.records 0).lives ≤ 2 ^ 32 - 1 := by decide
  have hid : "me" = m.id := rfl
  have hdef : Defended m := reachable_defended (reachable_state [] (by decide))
  have hlast : livesSize - 1 ≤ 2 ^ 32 - 1 := Nat.le_refl _
  refine ⟨?_, ?_, fun fuel => refuteLoop_stuck hlast fuel m.liveCalls⟩
  · exact (suspectNode_self hdef hmap hstate {} hid hlives).trans (refute_stuck m 0 hlast)
  · exact (deadNode_self hmap hstate rfl {} none hid hlives).trans (refute_stuck m 0 hlast)

end Mlist
