import Mlist.Member.SelfDefence

/-!
# Who is behind a number

Everything a member says about another goes back to something the other said: its
`Lives` to a number of that member's own counter, and its tags, as long as it says
*alive*, to the alive message in which the member used that number. A `Ledger`
records what has been said: `known x n` for the numbers `x` has used, `vouched x n
tags` for the tags it attached to number `n`.

`Honest` is a member that claims nothing the ledger does not back — in its records,
in its broadcast queue, and in the alive messages it issued about itself. Suspicions
and deaths raise the `Lives` of a record without touching its tags, so the tags are
only claimed of alive records. `atom_honest` is the step: fed with backed messages,
an honest member stays honest, with respect to a ledger that has grown by what it
issued itself.

`Issuer` is about the numbers a member issues: its own ID, below its counter, and
until the counter wraps each higher than the last.
-/

namespace Mlist

open Mlist.Lib

/-! ## Ledgers -/

/-- What members have said about themselves. -/
structure Ledger where
  known : String → Nat → Prop
  vouched : String → Nat → Bytes → Prop

namespace Ledger

/-- The ledger backs a message. -/
def msg (L : Ledger) : Msg → Prop
  | .alive a => L.known a.id a.lives ∧ L.vouched a.id a.lives a.tags
  | .suspect s => L.known s.id s.lives
  | .dead d => L.known d.id d.lives

/-- The ledger backs a record. -/
def record (L : Ledger) (r : NodeState) : Prop :=
  L.known r.node.id r.lives ∧ (r.state = .alive → L.vouched r.node.id r.lives r.node.tags)

/-- The ledger backs an entry of a push/pull exchange. -/
def entry (L : Ledger) (e : StateToMerge) : Prop :=
  L.known e.id e.lives ∧
    (StateType.ofCode e.state = some .alive → L.vouched e.id e.lives e.tags)

/-- A ledger that says at least as much. -/
structure Le (L L' : Ledger) : Prop where
  known : ∀ x n, L.known x n → L'.known x n
  vouched : ∀ x n tags, L.vouched x n tags → L'.vouched x n tags

variable {L L' : Ledger}

theorem msg_known {msg : Msg} (h : L.msg msg) : L.known msg.id msg.lives := by
  cases msg with
  | alive a => exact h.1
  | suspect s => exact h
  | dead d => exact h

/-- What one ledger vouches for, a longer one does. -/
theorem Le.msg (h : L.Le L') {msg : Msg} (hm : L.msg msg) : L'.msg msg := by
  cases msg with
  | alive a => exact ⟨h.known _ _ hm.1, h.vouched _ _ _ hm.2⟩
  | suspect s => exact h.known _ _ hm
  | dead d => exact h.known _ _ hm

theorem Le.record (h : L.Le L') {r : NodeState} (hr : L.record r) : L'.record r :=
  ⟨h.known _ _ hr.1, fun hs => h.vouched _ _ _ (hr.2 hs)⟩

theorem Le.entry (h : L.Le L') {e : StateToMerge} (he : L.entry e) : L'.entry e :=
  ⟨h.known _ _ he.1, fun hs => h.vouched _ _ _ (he.2 hs)⟩

/-- What `mergeState` makes of a backed entry is backed. -/
theorem entry_stateOk {e : StateToMerge} (he : L.entry e) (self : String) :
    StateOk L.msg self e := by
  unfold StateOk
  split
  next hs => exact ⟨he.1, he.2 hs⟩
  next => exact he.1
  next => exact he.1
  next => exact he.1
  next => trivial

end Ledger

variable {H : Type} {m m' : Memberlist H}

/-! ## The numbers a member issues -/

/-- The alive messages a member issued about itself. -/
structure Issuer (m : Memberlist H) : Prop where
  own : ∀ a ∈ m.issued, a.id = m.id
  le : ∀ a ∈ m.issued, a.lives ≤ m.liveCalls
  increasing : m.liveCalls < livesSize → (m.issued.map Alive.lives).Pairwise (· < ·)

/-- Counters only go up, and what was issued stays issued. -/
structure Grows (m m' : Memberlist H) : Prop where
  id : m'.id = m.id
  calls : m.liveCalls ≤ m'.liveCalls
  issued : ∀ a ∈ m.issued, a ∈ m'.issued

theorem Grows.refl (m : Memberlist H) : Grows m m := ⟨rfl, Nat.le_refl _, fun _ h => h⟩

/-- A member's own numbers and messages only become more. -/
theorem Grows.trans {m₁ m₂ m₃ : Memberlist H} (h₁ : Grows m₁ m₂) (h₂ : Grows m₂ m₃) :
    Grows m₁ m₃ :=
  ⟨h₂.id.trans h₁.id, Nat.le_trans h₁.calls h₂.calls, fun a ha => h₂.issued a (h₁.issued a ha)⟩

/-- A number not used before is issued. -/
private theorem Issuer.append (h : Issuer m) {calls : Nat} {a : Alive} (hlt : m.liveCalls < calls)
    (hid : a.id = m.id) (hlives : a.lives = calls % livesSize) (hm' : m'.id = m.id)
    (hcalls : m'.liveCalls = calls) (hissued : m'.issued = m.issued ++ [a]) : Issuer m' := by
  have hle : a.lives ≤ calls := by
    rw [hlives]
    exact Nat.mod_le _ _
  refine ⟨?_, ?_, ?_⟩
  · intro b hb
    rw [hissued] at hb
    rw [hm']
    rcases List.mem_append.mp hb with hb | hb
    · exact h.own b hb
    · rw [List.mem_singleton.mp hb]
      exact hid
  · intro b hb
    rw [hissued] at hb
    rw [hcalls]
    rcases List.mem_append.mp hb with hb | hb
    · exact Nat.le_trans (h.le b hb) (Nat.le_of_lt hlt)
    · rw [List.mem_singleton.mp hb]
      exact hle
  · intro hsize
    rw [hcalls] at hsize
    rw [hissued, List.map_append, List.pairwise_append]
    refine ⟨h.increasing (Nat.lt_trans hlt hsize), List.pairwise_singleton _ _, ?_⟩
    intro n hn n' hn'
    obtain ⟨b, hb, rfl⟩ := List.mem_map.mp hn
    have hn' : n' = a.lives := by simpa using hn'
    -- below the size the number is the count of calls, above everything issued so far
    rw [hn', hlives, Nat.mod_eq_of_lt hsize]
    exact Nat.lt_of_le_of_lt (h.le b hb) hlt

section Atoms

variable [Encoded Msg] [Heap H (TransmitCapItem Msg)]

/-- No change takes back a number or a message of the member's own. -/
theorem atom_grows {ok : Msg → Prop} (ha : Atom ok m m') : Grows m m' := by
  have hsame : ∀ {x : Memberlist H}, x.id = m.id → x.liveCalls = m.liveCalls →
      x.issued = m.issued → Grows m x := by
    intro x hid hcalls hissued
    exact ⟨hid, Nat.le_of_eq hcalls.symm, fun a ha => hissued ▸ ha⟩
  cases ha with
  | quiet hq =>
    cases hq with
    | issue ip port tags =>
      exact ⟨rfl, Nat.le_succ _, fun a ha => List.mem_append_left _ ha⟩
    | broadcast name msg notify _ => exact hsame rfl rfl rfl
    | event type n => exact hsame rfl rfl rfl
    | drain l o s => exact hsame rfl rfl rfl
    | flags awr shutdown left _ => exact hsame rfl rfl rfl
  | refute msg p calls _ _ _ _ _ hloop =>
    exact ⟨rfl, Nat.le_of_lt (refuteLoop_gt hloop).2, fun a ha => List.mem_append_left _ ha⟩
  | insert env a _ _ => exact hsame rfl rfl rfl
  | revive env a p _ _ _ => exact hsame rfl rfl rfl
  | confirm s p k _ _ _ => exact hsame rfl rfl rfl
  | suspect env s p _ _ _ _ _ _ => exact hsame rfl rfl rfl
  | kill env d p _ _ _ _ _ => exact hsame rfl rfl rfl

/-- The messages a member has made about itself stay numbered with what it has counted. -/
theorem atom_issuer {ok : Msg → Prop} (hm : Registry m) (h : Issuer m) (ha : Atom ok m m') :
    Issuer m' := by
  cases ha with
  | quiet hq =>
    cases hq with
    | issue ip port tags =>
      exact h.append (Nat.lt_succ_self _) rfl rfl rfl rfl rfl
    | broadcast name msg notify _ => exact ⟨h.own, h.le, h.increasing⟩
    | event type n => exact ⟨h.own, h.le, h.increasing⟩
    | drain l o s => exact ⟨h.own, h.le, h.increasing⟩
    | flags awr shutdown left _ => exact ⟨h.own, h.le, h.increasing⟩
  | refute msg p calls _ _ hmap _ _ hloop =>
    exact h.append (refuteLoop_gt hloop).2 (hm.map_id hmap) rfl rfl rfl rfl
  | insert env a _ _ => exact ⟨h.own, h.le, h.increasing⟩
  | revive env a p _ _ _ => exact ⟨h.own, h.le, h.increasing⟩
  | confirm s p k _ _ _ => exact ⟨h.own, h.le, h.increasing⟩
  | suspect env s p _ _ _ _ _ _ => exact ⟨h.own, h.le, h.increasing⟩
  | kill env d p _ _ _ _ _ => exact ⟨h.own, h.le, h.increasing⟩

/-! ## Honest members -/

/-- Nothing a member claims is without backing. -/
structure Honest (L : Ledger) (m : Memberlist H) : Prop where
  issued : ∀ a ∈ m.issued, L.msg (.alive a)
  records : ∀ id r, m.lookup id = some r → L.record r
  queue : ∀ it ∈ m.mbroadcasts.items, L.msg it.msg

/-- Records that one ledger vouches for, a longer one vouches for. -/
theorem Honest.mono {L L' : Ledger} (h : Honest L m) (hle : L.Le L') : Honest L' m :=
  ⟨fun a ha => hle.msg (h.issued a ha), fun id r hr => hle.record (h.records id r hr),
    fun it hit => hle.msg (h.queue it hit)⟩

omit [Encoded Msg] [Heap H (TransmitCapItem Msg)] in
/-- A record is written that the ledger backs. -/
private theorem records_setRecord {L : Ledger} (hm : Registry m) {x : String} {p : Nat}
    (hmap : m.nodeMap x = some p) {new : NodeState} (hnew : L.record new)
    (h : ∀ id r, m.lookup id = some r → L.record r) :
    ∀ id r, (m.setRecord p new).lookup id = some r → L.record r := by
  intro id r hr
  rw [hm.lookup_setRecord hmap] at hr
  split at hr
  next => exact Option.some.inj hr ▸ hnew
  next => exact h id r hr

/-- The records of a member fed with messages that `L` backs, and whose own messages it
backs too. -/
private theorem atom_honest_records {L : Ledger} {ok : Msg → Prop} (hm : Registry m)
    (h : ∀ id r, m.lookup id = some r → L.record r) (hfed : ∀ msg, Fed ok m msg → L.msg msg)
    (hissued : ∀ a ∈ m'.issued, L.msg (.alive a)) (ha : Atom ok m m') :
    ∀ id r, m'.lookup id = some r → L.record r := by
  cases ha with
  | quiet hquiet =>
    intro id r hr
    rw [hquiet.same.lookup] at hr
    exact h id r hr
  | insert env a hmsg habs =>
    intro id r hr
    rw [hm.lookup_insertNode] at hr
    split at hr
    next =>
      obtain ⟨hknown, hvouched⟩ := hfed _ hmsg
      exact Option.some.inj hr ▸ ⟨hknown, fun _ => hvouched⟩
    next => exact h id r hr
  | revive env a p hmsg hmap hnew =>
    refine records_setRecord hm hmap ?_ h
    obtain ⟨hknown, hvouched⟩ := hfed _ hmsg
    have hid : (m.records p).node.id = a.id := hm.map_id hmap
    refine ⟨?_, ?_⟩
    · show L.known (m.records p).node.id a.lives
      rw [hid]
      exact hknown
    · intro _
      rw [Memberlist.revivedRecord_tags]
      show L.vouched (m.records p).node.id a.lives a.tags
      rw [hid]
      exact hvouched
  | confirm s p k _ _ _ => exact h
  | refute msg p calls _ _ hmap _ _ _ =>
    refine records_setRecord hm hmap ?_ h
    -- the record takes the number of a message that was issued with it
    obtain ⟨hknown, hvouched⟩ := hissued (Memberlist.refuteMsg (m.records p) (calls % livesSize))
      (List.mem_append_right _ (List.mem_singleton.mpr rfl))
    exact ⟨hknown, fun _ => hvouched⟩
  | suspect env s p hmsg hmap _ _ _ _ =>
    refine records_setRecord hm hmap ⟨?_, fun hs => by cases hs⟩ h
    show L.known (m.records p).node.id s.lives
    rw [hm.map_id hmap]
    exact hfed _ (Or.inl hmsg)
  | kill env d p hmsg hmap _ _ _ =>
    refine records_setRecord hm hmap ⟨?_, ?_⟩ h
    · show L.known (m.records p).node.id d.lives
      rw [hm.map_id hmap]
      exact hfed _ (Or.inl hmsg)
    · -- nobody vouches for the tags of the dead
      intro hs
      have hpresent := NodeState.deadOrLeft_of_alive hs
      rw [Memberlist.deadRecord_deadOrLeft] at hpresent
      cases hpresent

/-- Its broadcast queue. -/
private theorem atom_honest_queue {L : Ledger} {ok : Msg → Prop} (hq : m.mbroadcasts.QueueInv)
    (h : ∀ it ∈ m.mbroadcasts.items, L.msg it.msg) (hfed : ∀ msg, Fed ok m msg → L.msg msg)
    (ha : Atom ok m m') : ∀ it ∈ m'.mbroadcasts.items, L.msg it.msg := by
  cases ha with
  | quiet hquiet =>
    cases hquiet with
    | broadcast name msg notify hmsg =>
      intro it hit
      rcases (TransmitCapQueue.mem_queueMsg hq).mp hit with rfl | ⟨hit, -⟩
      · exact hfed msg hmsg
      · exact h it hit
    | drain l o s =>
      intro it hit
      obtain ⟨it', hit', -, hmsg⟩ := TransmitCapQueue.mem_getMessages hq hit
      rw [← hmsg]
      exact h it' hit'
    | issue ip port tags => exact h
    | event type n => exact h
    | flags awr shutdown left _ => exact h
  | _ => exact h

/-- **An honest member fed with backed messages stays honest.** `L'` is the ledger
after the change: it has grown by what the member issued in it. -/
theorem atom_honest {L L' : Ledger} {ok : Msg → Prop} (hm : Sound m)
    (hq : m.mbroadcasts.QueueInv) (h : Honest L m) (hle : L.Le L')
    (hok : ∀ msg, ok msg → L'.msg msg) (hissued : ∀ a ∈ m'.issued, L'.msg (.alive a))
    (ha : Atom ok m m') : Honest L' m' := by
  have h' := h.mono hle
  have hfed : ∀ msg, Fed ok m msg → L'.msg msg := by
    intro msg hmsg
    rcases hmsg with hmsg | ⟨a, ha, rfl⟩
    · exact hok msg hmsg
    · exact h'.issued a ha
  exact ⟨hissued, atom_honest_records hm.registry h'.records hfed hissued ha,
    atom_honest_queue hq h'.queue hfed ha⟩

/-! ## Proper members -/

/-- What every member of a cluster is, whatever it hears. -/
structure Proper (m : Memberlist H) : Prop where
  sound : Sound m
  queue : m.mbroadcasts.QueueInv
  issuer : Issuer m

theorem atom_proper {ok : Msg → Prop} (m m' : Memberlist H) (h : Proper m) (ha : Atom ok m m') :
    Proper m' :=
  ⟨atom_sound m m' h.sound ha, atom_queueInv h.queue ha, atom_issuer h.sound.registry h.issuer ha⟩

theorem proper_new (config : Config) : Proper (Memberlist.new config : Memberlist H) := by
  refine ⟨sound_new config, TransmitCapQueue.new_inv, ?_, ?_, fun _ => List.Pairwise.nil⟩
  · intro a ha
    cases ha
  · intro a ha
    cases ha

theorem proper_disarm (k : Nat) (h : Proper m) : Proper (m.disarm k) :=
  ⟨sound_disarm m k h.sound, h.queue, ⟨h.issuer.own, h.issuer.le, h.issuer.increasing⟩⟩

/-- Reaping drops and reorders records, and does nothing else. -/
theorem proper_reap (env : Env) (h : Proper m) : Proper (m.reap env) :=
  ⟨sound_reap m env h.sound, h.queue, ⟨h.issuer.own, h.issuer.le, h.issuer.increasing⟩⟩

end Atoms

end Mlist
