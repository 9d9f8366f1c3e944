import Mlist.Member.SelfDefence
import Mlist.Queue.Drain

/-!
# Leaving is final

A member that has left and whose own record says so — or says dead, or has been reaped
— is `Gone`. From then on each handler turns away whatever it hears about the member,
and each for a reason of its own: `aliveNode` asks `hasLeft`, `suspectNode` finds the
record not alive, `deadNode` finds it dead already; and once the record is reaped there
is nothing to find, so that only `aliveNode`, which would insert it again, has to ask.

`Final m m'` is what does not change any more for the member itself on the way from `m`
to `m'`: its record is the same or reaped, nothing has been queued under its name, and
the item it left in the queue — its leave message — is there, or has been handed out as
often as it should be. One step of a `Gone` member keeps it (`step_final`), and so does
every run (`run_final`).
-/

namespace Mlist

open Mlist.Lib

variable {H : Type} {m m' m'' : Memberlist H}

/-! ## What stays -/

/-- The messages queued under this name, oldest first. -/
def Memberlist.queuedAs (name : String) (m : Memberlist H) : List (String × Msg) :=
  m.queued.filter fun e => decide (e.1 = name)

section Items

variable {μ : Type} [Encoded μ] [Heap H (TransmitCapItem μ)] {q q' q'' : TransmitCapQueue H μ}

/-- The same message, handed out at least as often. -/
def TransmitCapItem.Later (it it' : TransmitCapItem μ) : Prop :=
  it'.name = it.name ∧ it'.msg = it.msg ∧ it'.notify = it.notify ∧ it.transmits ≤ it'.transmits

/-- The items of a name are not replaced: what the queue has was there before, and what
was there is there or has been handed out for the last time. -/
structure TransmitCapQueue.Keeps (name : String) (q q' : TransmitCapQueue H μ) : Prop where
  old : ∀ it' ∈ q'.items, it'.name = name → ∃ it ∈ q.items, it.Later it'
  here : ∀ it ∈ q.items, it.name = name →
    (∃ it' ∈ q'.items, it.Later it') ∨
      ∃ it' ∈ q'.finished, it.Later it' ∧ it.transmits < it'.transmits
  finished : ∀ it ∈ q.finished, it ∈ q'.finished

omit [Encoded μ] in
theorem TransmitCapItem.later_refl (it : TransmitCapItem μ) : it.Later it :=
  ⟨rfl, rfl, rfl, Nat.le_refl _⟩

omit [Encoded μ] in
/-- A broadcast that has been sent more often has been sent more often than before that. -/
theorem TransmitCapItem.Later.trans {a b c : TransmitCapItem μ} (h : a.Later b) (h' : b.Later c) :
    a.Later c :=
  ⟨h'.1.trans h.1, h'.2.1.trans h.2.1, h'.2.2.1.trans h.2.2.1, Nat.le_trans h.2.2.2 h'.2.2.2⟩

namespace TransmitCapQueue

theorem keeps_refl (name : String) (q : TransmitCapQueue H μ) : q.Keeps name q :=
  ⟨fun it hit _ => ⟨it, hit, it.later_refl⟩, fun it hit _ => Or.inl ⟨it, hit, it.later_refl⟩,
    fun _ hit => hit⟩

/-- A broadcast that is kept twice is kept. -/
theorem Keeps.trans {name : String} (h : q.Keeps name q') (h' : q'.Keeps name q'') :
    q.Keeps name q'' := by
  refine ⟨?_, ?_, fun it hit => h'.finished it (h.finished it hit)⟩
  · intro it'' hit'' hname
    obtain ⟨it', hit', hlater'⟩ := h'.old it'' hit'' hname
    obtain ⟨it, hit, hlater⟩ := h.old it' hit' (hlater'.1.symm.trans hname)
    exact ⟨it, hit, hlater.trans hlater'⟩
  · intro it hit hname
    rcases h.here it hit hname with ⟨it', hit', hlater⟩ | ⟨it', hit', hlater⟩
    · rcases h'.here it' hit' (hlater.1.trans hname) with ⟨it'', hit'', hl⟩ | ⟨it'', hit'', hl, hlt⟩
      · exact Or.inl ⟨it'', hit'', hlater.trans hl⟩
      · exact Or.inr ⟨it'', hit'', hlater.trans hl, Nat.lt_of_le_of_lt hlater.2.2.2 hlt⟩
    · exact Or.inr ⟨it', h'.finished it' hit', hlater⟩

/-- Another name's message replaces nothing of this one. -/
theorem keeps_queueMsg (h : q.QueueInv) {name other : String} (hne : other ≠ name) (msg : μ)
    (notify : Option Nat) : q.Keeps name (q.queueMsg other msg notify) := by
  have hmem : ∀ it : TransmitCapItem μ, it.name = name →
      (it ∈ (q.queueMsg other msg notify).items ↔ it ∈ q.items) := by
    intro it hname
    exact mem_queueMsg_of_ne h (fun he => hne (he.symm.trans hname))
  refine ⟨?_, ?_, ?_⟩
  · intro it hit hname
    exact ⟨it, (hmem it hname).mp hit, it.later_refl⟩
  · intro it hit hname
    exact Or.inl ⟨it, (hmem it hname).mpr hit, it.later_refl⟩
  · obtain ⟨dropped, kept, -, -, hfinished⟩ := queueMsg_spec h other msg notify
    intro it hit
    rw [hfinished]
    exact List.mem_append_left _ hit

omit [Encoded μ] in
/-- Being handed out is one more transmit. -/
theorem later_bumped (it : TransmitCapItem μ) : it.Later (bumped it) :=
  ⟨rfl, rfl, rfl, Nat.le_succ _⟩

/-- A drain hands out, and takes out only what it has handed out. -/
theorem keeps_getMessages (h : q.QueueInv) (name : String) (transLimit overhead size : Int) :
    q.Keeps name (q.getMessages transLimit overhead size).2 := by
  obtain ⟨picked, rest, hbefore, -, hafter, hfinished, -⟩ :=
    getMessages_spec h transLimit overhead size
  refine ⟨?_, ?_, ?_⟩
  · intro it' hit' _
    rcases List.mem_append.mp (hafter.mem_iff.mp hit') with hp | hr
    · obtain ⟨it, hit, rfl⟩ := List.mem_map.mp (List.mem_filter.mp hp).1
      exact ⟨it, hbefore.mem_iff.mpr (List.mem_append_left _ hit), later_bumped it⟩
    · exact ⟨it', hbefore.mem_iff.mpr (List.mem_append_right _ hr), it'.later_refl⟩
  · intro it hit _
    rcases List.mem_append.mp (hbefore.mem_iff.mp hit) with hp | hr
    · have hb : bumped it ∈ picked.map bumped := List.mem_map_of_mem hp
      cases hlimit : reached transLimit (bumped it) with
      | true =>
        refine Or.inr ⟨bumped it, ?_, later_bumped it, Nat.lt_succ_self _⟩
        rw [hfinished]
        exact List.mem_append_right _ (List.mem_filter.mpr ⟨hb, hlimit⟩)
      | false =>
        refine Or.inl ⟨bumped it, hafter.mem_iff.mpr (List.mem_append_left _ ?_), later_bumped it⟩
        exact List.mem_filter.mpr ⟨hb, by rw [hlimit]; rfl⟩
    · exact Or.inl ⟨it, hafter.mem_iff.mpr (List.mem_append_right _ hr), it.later_refl⟩
  · intro it hit
    rw [hfinished]
    exact List.mem_append_left _ hit

end TransmitCapQueue

end Items

section Handlers

variable [Encoded Msg] [Heap H (TransmitCapItem Msg)]

/-- What does not change for a member that is gone. -/
structure Final (m m' : Memberlist H) : Prop where
  id : m'.id = m.id
  left : m'.left = m.left
  own : m'.lookup m.id = m.lookup m.id ∨ m'.lookup m.id = none
  queued : m'.queuedAs m.id = m.queuedAs m.id
  items : m.mbroadcasts.Keeps m.id m'.mbroadcasts

theorem final_refl (m : Memberlist H) : Final m m :=
  ⟨rfl, rfl, Or.inl rfl, rfl, TransmitCapQueue.keeps_refl _ _⟩

/-- What is final for each of two steps is final for both. -/
theorem Final.trans (h : Final m m') (h' : Final m' m'') : Final m m'' := by
  obtain ⟨hid, hleft, hown, hqueued, hitems⟩ := h'
  rw [h.id] at hid hown hqueued hitems
  refine ⟨hid, hleft.trans h.left, ?_, hqueued.trans h.queued, h.items.trans hitems⟩
  rcases hown with he | hnone
  · rw [he]
    exact h.own
  · exact Or.inr hnone

/-- A change that queues nothing. -/
theorem Final.of_same (hid : m'.id = m.id) (hleft : m'.left = m.left)
    (hown : m'.lookup m.id = m.lookup m.id ∨ m'.lookup m.id = none)
    (hqueue : m'.mbroadcasts = m.mbroadcasts) (hqueued : m'.queued = m.queued) : Final m m' := by
  refine ⟨hid, hleft, hown, ?_, ?_⟩
  · rw [Memberlist.queuedAs, hqueued, Memberlist.queuedAs]
  · rw [hqueue]
    exact TransmitCapQueue.keeps_refl _ _

/-- A change that queues a message of another name. -/
theorem Final.of_told (hq : m.mbroadcasts.QueueInv) {name : String} {msg : Msg}
    {notify : Option Nat}
    (hne : name ≠ m.id) (hid : m'.id = m.id) (hleft : m'.left = m.left)
    (hown : m'.lookup m.id = m.lookup m.id)
    (hqueue : m'.mbroadcasts = m.mbroadcasts.queueMsg name msg notify)
    (hqueued : m'.queued = m.queued ++ [(name, msg)]) : Final m m' := by
  refine ⟨hid, hleft, Or.inl hown, ?_, ?_⟩
  · rw [Memberlist.queuedAs, hqueued, List.filter_append, List.filter_singleton,
      decide_eq_false hne,
      Memberlist.queuedAs]
    exact List.append_nil _
  · rw [hqueue]
    exact TransmitCapQueue.keeps_queueMsg hq hne msg notify

/-! ## What each handler turns away -/

/-- A member that has left, and whose record, if there is one, says left or dead. -/
structure Gone (m : Memberlist H) : Prop where
  defended : Defended m
  left : m.left = true
  own : ∀ r, m.lookup m.id = some r → r.deadOrLeft = true

/-- Who has left stays gone. -/
theorem Gone.final (h : Gone m) (hd : Defended m') (hf : Final m m') : Gone m' := by
  refine ⟨hd, hf.left.trans h.left, ?_⟩
  intro r hr
  rw [hf.id] at hr
  rcases hf.own with he | hnone
  · rw [he] at hr
    exact h.own r hr
  · rw [hnone] at hr
    cases hr

/-- The record of a message that still has something to change is not ours. -/
theorem Gone.ne_self (h : Gone m) {x : String} {p : Nat} (hmap : m.nodeMap x = some p)
    (hactive : (m.records p).deadOrLeft = false) : x ≠ m.id := by
  intro hx
  rw [hx] at hmap
  rw [h.own _ (Memberlist.lookup_of_map hmap)] at hactive
  cases hactive

/-- The deferred function queues under the name of the node, or not at all. -/
theorem alivePublish_final (m : Memberlist H) (hq : m.mbroadcasts.QueueInv)
    {post : Memberlist.AlivePost} (hne : post.rebroadcast = true → post.newNode.id ≠ m.id) :
    Final m (m.alivePublish post) := by
  have hevents : ∀ (s : Memberlist H) (b : Bool) (type : NodeEventType) (n : Node),
      Final s (if b = true then s.notifyEvent type n else s) := by
    intro s b type n
    split
    next => exact Final.of_same rfl rfl (Or.inl rfl) rfl rfl
    next => exact final_refl s
  have hbroadcast : Final m (if post.rebroadcast = true
      then m.broadcast post.newNode.id (.alive post.msg) post.notify else m) := by
    split
    next hb => exact Final.of_told hq (hne hb) rfl rfl rfl rfl rfl
    next => exact final_refl m
  exact (hbroadcast.trans (hevents _ post.notifyJoin .join post.newNode)).trans
    (hevents _ post.notifyUpdate .update post.newNode)

/-- `aliveNode` asks `hasLeft` first when it hears about us. -/
theorem aliveNode_final (h : Gone m) (env : Env) (a : Alive) (notify : Option Nat) :
    Final m (m.aliveNode env a notify) := by
  unfold Memberlist.aliveNode
  split
  next hc =>
    have hm := h.defended.sound.registry
    have hid : a.id ≠ m.id := by
      intro hid
      unfold Memberlist.aliveChecks at hc
      rw [h.left, hid, beq_self_eq_true] at hc
      cases hc
    have hne : m.id ≠ a.id := fun he => hid he.symm
    have hcase := aliveLocked_case m env a notify
    show Final m ((m.aliveLocked env a notify).1.alivePublish (m.aliveLocked env a notify).2)
    generalize m.aliveLocked env a notify = res at hcase
    -- under the lock another record is written, and what is queued then bears its name
    cases hcase with
    | joined habs =>
      have hlook := hm.lookup_insertNode env (Memberlist.freshRecord env a) m.id
      rw [if_neg (show m.id ≠ (Memberlist.freshRecord env a).node.id from hne)] at hlook
      have hwrite : Final m (m.insertNode env (Memberlist.freshRecord env a)) :=
        Final.of_same rfl rfl (Or.inl hlook) rfl rfl
      refine hwrite.trans (alivePublish_final _ ?_ (fun _ => hid))
      exact h.defended.queue
    | stale p hmap hold =>
      exact alivePublish_final _ h.defended.queue (fun hb => absurd hb (by simp))
    | news p hmap hnew =>
      have hlook := hm.lookup_setRecord hmap (Memberlist.revivedRecord env a (m.records p)) m.id
      rw [if_neg hne] at hlook
      have hwrite : Final m ((m.dropSuspicion a.id).setRecord p
          (Memberlist.revivedRecord env a (m.records p))) :=
        Final.of_same rfl rfl (Or.inl hlook) rfl rfl
      have hname : (m.records p).node.id ≠ m.id := by
        rw [hm.map_id hmap]
        exact hid
      refine hwrite.trans (alivePublish_final _ ?_ (fun _ => hname))
      exact h.defended.queue
  next => exact final_refl m

/-- `suspectNode` finds our record not alive, and no suspicion of us. -/
theorem suspectNode_final (h : Gone m) {env : Env} {s : Suspect}
    (hs : m.suspectNode env s = some m') : Final m m' := by
  have hq := h.defended.queue
  cases suspectNode_case hs with
  | unknown habs => exact final_refl m
  | stale p hmap hold => exact final_refl m
  | confirmed p k hmap hlives hsusp hfresh =>
    exact Final.of_told hq (h.defended.sound.suspects.ne_self hsusp) rfl rfl rfl rfl rfl
  | heard p k hmap hlives hsusp hfresh => exact Final.of_same rfl rfl (Or.inl rfl) rfl rfl
  | notAlive p hmap hlives hsusp hstate => exact final_refl m
  | refuted p _ hmap hlives hsusp hstate hself href =>
    exact absurd hself (h.ne_self hmap (NodeState.deadOrLeft_of_alive hstate))
  | raised p hmap hlives hsusp hstate hself =>
    have hk := raised_fields env s p m
    have hlook := h.defended.sound.registry.lookup_of_records hmap hk.nodeMap hk.records m.id
    rw [if_neg (fun he => hself he.symm)] at hlook
    exact Final.of_told hq hself (congrArg Config.id hk.config) hk.left hlook hk.mbroadcasts
      hk.queued

/-- `deadNode` finds our record dead already. -/
theorem deadNode_final (h : Gone m) {env : Env} {d : Dead} {notify : Option Nat}
    (hd : m.deadNode env d notify = some m') : Final m m' := by
  cases deadNode_case hd with
  | unknown habs => exact final_refl m
  | stale p hmap hold => exact final_refl m
  | already p hmap hdead => exact final_refl m
  | refuted p _ hmap hlives hdead hself hleft href =>
    exact absurd hself (h.ne_self hmap hdead)
  | killed p hmap hlives hdead hself =>
    have hid := h.ne_self hmap hdead
    have hk := killed_fields env d notify p m
    have hlook := h.defended.sound.registry.lookup_of_records hmap hk.nodeMap hk.records m.id
    rw [if_neg (fun he => hid he.symm)] at hlook
    exact Final.of_told h.defended.queue hid hk.id hk.left hlook hk.mbroadcasts hk.queued

/-! ## Every operation, every run -/

/-- A timer does not bring back who has left. -/
theorem timeoutFn_final (h : Gone m) {env : Env} {k : Nat} (ht : m.timeoutFn env k = some m') :
    Final m m' := by
  rcases timeoutFn_case ht with ⟨-, he⟩ | ⟨p, -, -, hd⟩
  · rw [he]
    exact final_refl m
  · exact deadNode_final h hd

/-- Neither does an entry of a remote state. -/
theorem mergeOne_final (h : Gone m) {env : Env} {r : StateToMerge}
    (hm : m.mergeOne env r = some m') : Final m m' := by
  unfold Memberlist.mergeOne at hm
  split at hm
  next => exact Option.some.inj hm ▸ aliveNode_final h env _ none
  next => exact deadNode_final h hm
  next => exact suspectNode_final h hm
  next => exact suspectNode_final h hm
  next => exact Option.some.inj hm ▸ final_refl m

/-- Neither does the whole of one. -/
theorem mergeState_final (h : Gone m) {remote : List (Env × StateToMerge)}
    (hm : m.mergeState remote = some m') : Final m m' := by
  have hrun : Gone m' ∧ Final m m' := by
    refine run_inv (P := fun s => Gone s ∧ Final m s) ?_ ⟨h, final_refl m⟩ hm
    intro er s t hs ht
    have hf := mergeOne_final hs.1 ht
    have hd : Defended t :=
      (mergeOne_atoms er.1 (stateOk_true s.id er.2) ht).inv atom_defended hs.1.defended
    exact ⟨hs.1.final hd hf, hs.2.trans hf⟩
  exact hrun.2

/-- **One operation of a member that is gone.** -/
theorem step_final (h : Gone m) {op : Op} (hs : step op m = some m') : Final m m' := by
  cases op with
  | alive env a notify => exact Option.some.inj hs ▸ aliveNode_final h env a notify
  | suspect env s => exact suspectNode_final h hs
  | dead env d notify => exact deadNode_final h hs
  | timer env k =>
    unfold step Memberlist.fireTimer at hs
    dsimp only at hs
    split at hs
    next =>
      -- a timer of somebody else may still go off
      have hspent : Final m (m.disarm k) := Final.of_same rfl rfl (Or.inl rfl) rfl rfl
      exact hspent.trans (timeoutFn_final (h.final (defended_disarm m k h.defended) hspent) hs)
    next => exact Option.some.inj hs ▸ final_refl m
  | merge remote => exact mergeState_final h hs
  | updateTags env tags notify =>
    obtain ⟨res, hres, rfl⟩ := Option.map_eq_some_iff.mp hs
    rcases updateTags_case hres with he | ⟨p, -, he⟩
    · rw [he]
      exact final_refl m
    · -- the number is taken, but the message is one about ourselves
      rw [he]
      have hissue : Final m (m.issueAlive (m.records p).node.ip (m.records p).node.port tags).2 :=
        Final.of_same rfl rfl (Or.inl rfl) rfl rfl
      refine hissue.trans (aliveNode_final (h.final ?_ hissue) env _ (some notify))
      have hatom : Atom (fun _ => True) m
          (m.issueAlive (m.records p).node.ip (m.records p).node.port tags).2 :=
        .quiet (.issue m _ _ tags)
      exact atom_defended _ _ h.defended hatom
  | leave env notify =>
    obtain ⟨res, hres, rfl⟩ := Option.map_eq_some_iff.mp hs
    unfold Memberlist.leave at hres
    split at hres
    next => cases hres
    next =>
      rw [if_pos h.left] at hres
      exact Option.some.inj hres ▸ final_refl m
  | reap env =>
    refine Option.some.inj hs ▸ Final.of_same rfl rfl ?_ rfl rfl
    -- its own record may be reaped; nothing brings it back
    rw [h.defended.sound.registry.lookup_reap]
    cases hr : m.lookup m.id with
    | none => exact Or.inr rfl
    | some r =>
      rw [Option.filter_some]
      split
      next => exact Or.inl rfl
      next => exact Or.inr rfl
  | getMessages l o z =>
    exact Option.some.inj hs ▸ ⟨rfl, rfl, Or.inl rfl, rfl,
      TransmitCapQueue.keeps_getMessages h.defended.queue m.id l o z⟩
  | punish delta => exact Option.some.inj hs ▸ Final.of_same rfl rfl (Or.inl rfl) rfl rfl
  | shutdown => exact Option.some.inj hs ▸ Final.of_same rfl rfl (Or.inl rfl) rfl rfl

/-- Every run of a member that is gone. -/
theorem run_final (h : Gone m) {ops : List Op} (hrun : run step ops m = some m') :
    Gone m' ∧ Final m m' := by
  refine run_inv (P := fun s => Gone s ∧ Final m s) ?_ ⟨h, final_refl m⟩ hrun
  intro op s t hs ht
  have hf := step_final hs.1 ht
  exact ⟨hs.1.final (step_defended hs.1.defended ht) hf, hs.2.trans hf⟩

/-- **Leaving is final.** Take a reachable state in which `left` is set and the member's
own record says left or dead or is not there, and any run from it — messages about
anybody, merges, timers, `UpdateTags` that find a record, reaps, drains. The record never
says alive or suspect again, is never inserted again once it is gone, and nothing is queued
under the member's own name: the items of that name are those that were queued already,
and one of them leaves the queue only by being handed out for the last time. -/
theorem leaving_is_final (hm : Reachable m) (hleft : m.left = true)
    (hown : ∀ r, m.lookup m.id = some r → r.state = .left ∨ r.state = .dead)
    {ops : List Op} (hrun : run step ops m = some m') :
    (∀ r, m'.lookup m.id = some r → r.state = .left ∨ r.state = .dead) ∧
    (m.lookup m.id = none → m'.lookup m.id = none) ∧
    m'.queuedAs m.id = m.queuedAs m.id ∧
    (∀ it' ∈ m'.mbroadcasts.items, it'.name = m.id →
      ∃ it ∈ m.mbroadcasts.items, it.name = m.id ∧ it.msg = it'.msg) ∧
    (∀ it ∈ m.mbroadcasts.items, it.name = m.id →
      (∃ it' ∈ m'.mbroadcasts.items, it'.name = m.id ∧ it'.msg = it.msg) ∨
        ∃ it' ∈ m'.mbroadcasts.finished, it'.name = m.id ∧ it'.msg = it.msg ∧
          it.transmits < it'.transmits) := by
  have hgone : Gone m := by
    refine ⟨reachable_defended hm, hleft, ?_⟩
    intro r hr
    exact NodeState.deadOrLeft_eq_true.mpr (hown r hr).symm
  obtain ⟨hgone', hf⟩ := run_final hgone hrun
  refine ⟨?_, ?_, hf.queued, ?_, ?_⟩
  · intro r hr
    rw [← hf.id] at hr
    exact (NodeState.deadOrLeft_eq_true.mp (hgone'.own r hr)).symm
  · intro hnone
    rcases hf.own with he | he
    · exact he.trans hnone
    · exact he
  · intro it' hit' hname
    obtain ⟨it, hit, hlater⟩ := hf.items.old it' hit' hname
    exact ⟨it, hit, hlater.1.symm.trans hname, hlater.2.1.symm⟩
  · intro it hit hname
    rcases hf.items.here it hit hname with ⟨it', hit', hl⟩ | ⟨it', hit', hl, hlt⟩
    · exact Or.inl ⟨it', hit', hl.1.trans hname, hl.2.1⟩
    · exact Or.inr ⟨it', hit', hl.1.trans hname, hl.2.1, hlt⟩

end Handlers

open Concrete in
/-- A member that has left and been reaped hears that it is alive, that it is suspected, and
merges an old view of itself: it stays out, and its leave message stays the last one. -/
theorem leaving_is_final_reaped :
    let m := state [.leave {} 0, .reap { now := 100 }] (by decide)
    let self : Alive := { lives := 9, id := "me", ip := [127, 0, 0, 1], port := 7946, tags := [] }
    ∃ m', run step [.alive {} self none, .suspect {} ⟨9, "me", "peer"⟩,
        .merge [({},
          { lives := 9, id := "me", ip := self.ip, port := 7946, tags := [], state := 0 })],
        .getMessages 3 2 1000] m = some m' ∧
      m'.lookup "me" = none ∧ (m'.queuedAs "me").getLast? = some ("me", .dead ⟨1, "me", true⟩) := by
  intro m self
  have hrun : (run step [.alive {} self none, .suspect {} ⟨9, "me", "peer"⟩,
      .merge [({},
        { lives := 9, id := "me", ip := self.ip, port := 7946, tags := [], state := 0 })],
      .getMessages 3 2 1000] m).isSome = true := by decide +kernel
  obtain ⟨m', hm'⟩ := Option.isSome_iff_exists.mp hrun
  have hnone : m.lookup "me" = none := by decide
  obtain ⟨-, habsent, hqueued, -, -⟩ := leaving_is_final (reachable_state _ (by decide)) (by decide)
    (fun r hr => nomatch hnone.symm.trans hr) hm'
  refine ⟨m', hm', habsent hnone, ?_⟩
  rw [show m'.queuedAs "me" = m.queuedAs "me" from hqueued]
  decide

end Mlist
