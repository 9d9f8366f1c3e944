import Mathlib.Logic.Relation
import Mlist.Member.Cases

/-!
# What a step can do

Every operation of a member is a sequence of the few changes listed here, each
with the guard under which the source makes it. `Quiet` are those that leave the
records, the node list and the suspicions alone; `Atom` adds the six that do
not. `step_atoms` takes any operation apart, once and for all: an invariant of
the membership is a statement about `Atom`, and no proof after this file unfolds
a handler to establish one.

`ok` is a condition on the messages a member is fed. An atom only ever acts on a
message that is `ok` or that the member made itself with a number of its own
counter (`Fed`); what comes out of `step_atoms` therefore serves both a member
among adversaries (`ok` is everything) and one among its peers.

Two things are not atoms. `reap` is the one change that forgets a node, and what
holds of a node only as long as it is known is about the others. And when a timer
goes off (`disarm`) there is, between that and the `deadNode` it leads to, a
suspicion whose timer is spent.
-/

namespace Mlist

open Mlist.Lib Relation

variable {H : Type}

namespace Memberlist

/-- The timer of suspicion `k` has gone off. -/
def disarm (k : Nat) (m : Memberlist H) : Memberlist H :=
  { m with suspObjs := Function.update m.suspObjs k { m.suspObjs k with pending := false } }

end Memberlist

/-- A message the member may act on: an `ok` one, or an alive message it issued
itself. -/
def Fed (ok : Msg → Prop) (m : Memberlist H) (msg : Msg) : Prop :=
  ok msg ∨ ∃ a ∈ m.issued, msg = .alive a

/-- The fields a quiet change leaves alone. -/
structure SameCore (m m' : Memberlist H) : Prop where
  config : m'.config = m.config
  records : m'.records = m.records
  numRecords : m'.numRecords = m.numRecords
  nodes : m'.nodes = m.nodes
  nodeMap : m'.nodeMap = m.nodeMap
  numNodes : m'.numNodes = m.numNodes
  suspObjs : m'.suspObjs = m.suspObjs
  numSusps : m'.numSusps = m.numSusps
  suspicions : m'.suspicions = m.suspicions

/-- With the core the same, every record is. -/
theorem SameCore.lookup {m m' : Memberlist H} (h : SameCore m m') (id : String) :
    m'.lookup id = m.lookup id := by
  unfold Memberlist.lookup
  rw [h.nodeMap, h.records]

theorem SameCore.id {m m' : Memberlist H} (h : SameCore m m') : m'.id = m.id :=
  congrArg Config.id h.config

variable [Encoded Msg] [Heap H (TransmitCapItem Msg)]

/-- Changes that leave the membership alone. -/
inductive Quiet (ok : Msg → Prop) : Memberlist H → Memberlist H → Prop where
  | issue (m : Memberlist H) (ip : IP) (port : Nat) (tags : Bytes) :
    Quiet ok m (m.issueAlive ip port tags).2
  | broadcast (m : Memberlist H) (name : String) (msg : Msg) (notify : Option Nat)
    (hok : Fed ok m msg) : Quiet ok m (m.broadcast name msg notify)
  | event (m : Memberlist H) (type : NodeEventType) (n : Node) :
    Quiet ok m (m.notifyEvent type n)
  | drain (m : Memberlist H) (transLimit overhead size : Int) :
    Quiet ok m { m with mbroadcasts := (m.mbroadcasts.getMessages transLimit overhead size).2 }
  | flags (m : Memberlist H) (awr : Awareness) (shutdown left : Bool)
    (hleft : m.left = true → left = true) : Quiet ok m { m with awr, shutdown, left }

/-- The changes an operation is made of. -/
inductive Atom (ok : Msg → Prop) : Memberlist H → Memberlist H → Prop where
  | quiet {m m' : Memberlist H} (h : Quiet ok m m') : Atom ok m m'
  /-- `aliveNode` about an unknown node -/
  | insert (m : Memberlist H) (env : Env) (a : Alive) (hok : Fed ok m (.alive a))
    (habs : m.nodeMap a.id = none) :
    Atom ok m (m.insertNode env (Memberlist.freshRecord env a))
  /-- `aliveNode` about a known one, with news -/
  | revive (m : Memberlist H) (env : Env) (a : Alive) (p : Nat) (hok : Fed ok m (.alive a))
    (hmap : m.nodeMap a.id = some p) (hnew : (m.records p).lives < a.lives) :
    Atom ok m ((m.dropSuspicion a.id).setRecord p (Memberlist.revivedRecord env a (m.records p)))
  /-- `suspectNode` about a suspect -/
  | confirm (m : Memberlist H) (s : Suspect) (p k : Nat) (hmap : m.nodeMap s.id = some p)
    (hlives : (m.records p).lives ≤ s.lives) (hsusp : m.suspicions s.id = some k) :
    Atom ok m { m with
      suspObjs := Function.update m.suspObjs k ((m.suspObjs k).confirm s.sender).2 }
  /-- `suspectNode` or `deadNode` about ourselves -/
  | refute (m : Memberlist H) (msg : Msg) (p calls : Nat) (hok : ok msg) (hself : msg.id = m.id)
    (hmap : m.nodeMap m.id = some p) (hlives : (m.records p).lives ≤ msg.lives)
    (hdead : (m.records p).deadOrLeft = false)
    (hloop : Memberlist.refuteLoop msg.lives livesSize m.liveCalls = some calls) :
    Atom ok m (m.raiseLives p calls)
  /-- `suspectNode` about an alive node that is not us -/
  | suspect (m : Memberlist H) (env : Env) (s : Suspect) (p : Nat) (hok : ok (.suspect s))
    (hmap : m.nodeMap s.id = some p) (hlives : (m.records p).lives ≤ s.lives)
    (hsusp : m.suspicions s.id = none) (hstate : (m.records p).state = .alive)
    (hself : s.id ≠ m.id) :
    Atom ok m ((m.setRecord p
        { m.records p with
          lives := s.lives, state := .suspect, stateChange := env.now }).addSuspicion
      s.id (newSuspicion m.confirmCap s.sender s.id s.lives))
  /-- `deadNode` about a node that is neither dead nor, unless we have left, us -/
  | kill (m : Memberlist H) (env : Env) (d : Dead) (p : Nat) (hok : ok (.dead d))
    (hmap : m.nodeMap d.id = some p) (hlives : (m.records p).lives ≤ d.lives)
    (hdead : (m.records p).deadOrLeft = false) (hself : d.id = m.id → m.left = true) :
    Atom ok m ((m.dropSuspicion d.id).setRecord p (Memberlist.deadRecord env d (m.records p)))

/-- Any number of changes. -/
abbrev Atoms (ok : Msg → Prop) : Memberlist H → Memberlist H → Prop := ReflTransGen (Atom ok)

theorem Atoms.one {ok : Msg → Prop} {m m' : Memberlist H} (h : Atom ok m m') : Atoms ok m m' :=
  ReflTransGen.single h

/-- A quiet change is one of them. -/
theorem Atoms.quiet {ok : Msg → Prop} {m m' : Memberlist H} (h : Quiet ok m m') :
    Atoms ok m m' := ReflTransGen.single (.quiet h)

/-- What every atom keeps, any number of them keeps. -/
theorem Atoms.inv {ok : Msg → Prop} {P : Memberlist H → Prop}
    (hP : ∀ m m', P m → Atom ok m m' → P m') {m m' : Memberlist H} (h : Atoms ok m m')
    (hm : P m) : P m' := by
  induction h with
  | refl => exact hm
  | tail _ hlast ih => exact hP _ _ ih hlast

/-- What is quiet leaves the core alone. -/
theorem Quiet.same {ok : Msg → Prop} {m m' : Memberlist H} (h : Quiet ok m m') :
    SameCore m m' := by
  cases h <;> exact ⟨rfl, rfl, rfl, rfl, rfl, rfl, rfl, rfl, rfl⟩

/-- Nobody changes the configuration. -/
theorem Atom.config {ok : Msg → Prop} {m m' : Memberlist H} (h : Atom ok m m') :
    m'.config = m.config := by
  cases h with
  | quiet hq => exact hq.same.config
  | _ => rfl

/-- The configuration never changes. -/
theorem Atoms.config {ok : Msg → Prop} {m m' : Memberlist H} (h : Atoms ok m m') :
    m'.config = m.config :=
  Atoms.inv (P := fun x => x.config = m.config) (fun _ _ hx ha => ha.config.trans hx) h rfl

theorem Atoms.id {ok : Msg → Prop} {m m' : Memberlist H} (h : Atoms ok m m') :
    m'.id = m.id := congrArg Config.id h.config

/-! ## The handlers -/

section Handlers

variable {ok : Msg → Prop} {m : Memberlist H}

/-- `aliveNode` as far as it holds the lock: at most the record changes. -/
theorem aliveLocked_atoms (env : Env) {a : Alive} (notify : Option Nat)
    (h : Fed ok m (.alive a)) : Atoms ok m (m.aliveLocked env a notify).1 := by
  have hcase := aliveLocked_case m env a notify
  generalize m.aliveLocked env a notify = r at hcase
  cases hcase with
  | joined habs => exact Atoms.one (.insert m env a h habs)
  | stale p hmap hold => exact .refl
  | news p hmap hnew => exact Atoms.one (.revive m env a p h hmap hnew)

/-- The rest of `aliveNode`: what is broadcast is the message that was accepted. -/
theorem alivePublish_atoms (post : Memberlist.AlivePost) (h : Fed ok m (.alive post.msg)) :
    Atoms ok m (m.alivePublish post) := by
  have hb : Atoms ok m (if post.rebroadcast = true
      then m.broadcast post.newNode.id (.alive post.msg) post.notify else m) := by
    split
    next => exact Atoms.quiet (.broadcast m _ _ _ h)
    next => exact .refl
  have he : ∀ (m : Memberlist H) (b : Bool) (type : NodeEventType) (n : Node),
      Atoms ok m (if b = true then m.notifyEvent type n else m) := by
    intro m b type n
    split
    next => exact Atoms.quiet (.event m type n)
    next => exact .refl
  exact (hb.trans (he _ post.notifyJoin .join post.newNode)).trans
    (he _ post.notifyUpdate .update post.newNode)

/-- `aliveNode`, as the changes it is made of. -/
theorem aliveNode_atoms (env : Env) {a : Alive} (notify : Option Nat)
    (h : m.aliveChecks a = true → Fed ok m (.alive a)) :
    Atoms ok m (m.aliveNode env a notify) := by
  unfold Memberlist.aliveNode
  split
  next hc =>
    show Atoms ok m ((m.aliveLocked env a notify).1.alivePublish (m.aliveLocked env a notify).2)
    refine (aliveLocked_atoms env notify (h hc)).trans (alivePublish_atoms _ ?_)
    have hcase := aliveLocked_case m env a notify
    rw [hcase.msg]
    unfold Fed
    rw [hcase.issued]
    exact h hc
  next => exact .refl

/-- A refutation answers an accusation that was not too old. -/
theorem refute_atoms (msg : Msg) {p : Nat} {m' : Memberlist H} (hok : ok msg)
    (hself : msg.id = m.id) (hmap : m.nodeMap m.id = some p)
    (hlives : (m.records p).lives ≤ msg.lives) (hdead : (m.records p).deadOrLeft = false)
    (h : m.refute p msg.lives = some m') : Atoms ok m m' := by
  obtain ⟨calls, hloop, rfl⟩ := refute_case h
  refine (Atoms.one (.refute m msg p calls hok hself hmap hlives hdead hloop)).trans ?_
  refine .trans (Atoms.quiet
    (.flags (m.raiseLives p calls) (m.awr.punish 1) m.shutdown m.left id)) ?_
  refine Atoms.quiet (.broadcast _ _ _ none (Or.inr ⟨_, ?_, rfl⟩))
  exact List.mem_append_right _ (List.mem_singleton.mpr rfl)

/-- `suspectNode`, as the changes it is made of. -/
theorem suspectNode_atoms (env : Env) {s : Suspect} {m' : Memberlist H} (hok : ok (.suspect s))
    (h : m.suspectNode env s = some m') : Atoms ok m m' := by
  cases suspectNode_case h with
  | unknown habs => exact .refl
  | stale p hmap hold => exact .refl
  | confirmed p k hmap hlives hsusp hfresh =>
    refine (Atoms.one (.confirm m s p k hmap hlives hsusp)).trans ?_
    exact Atoms.quiet (.broadcast _ _ _ none (Or.inl hok))
  | heard p k hmap hlives hsusp hfresh => exact Atoms.one (.confirm m s p k hmap hlives hsusp)
  | notAlive p hmap hlives hsusp hstate => exact .refl
  | refuted p _ hmap hlives hsusp hstate hself href =>
    exact refute_atoms (.suspect s) hok hself (hself ▸ hmap) hlives
      (NodeState.deadOrLeft_of_alive hstate) href
  | raised p hmap hlives hsusp hstate hself =>
    refine (Atoms.quiet (.broadcast m s.id (.suspect s) none (Or.inl hok))).trans ?_
    exact Atoms.one (.suspect (m.broadcast s.id (.suspect s) none) env s p hok hmap hlives hsusp
      hstate hself)

/-- `deadNode`, as the changes it is made of. -/
theorem deadNode_atoms (env : Env) {d : Dead} (notify : Option Nat) {m' : Memberlist H}
    (hok : ok (.dead d)) (h : m.deadNode env d notify = some m') : Atoms ok m m' := by
  cases deadNode_case h with
  | unknown habs => exact .refl
  | stale p hmap hold => exact .refl
  | already p hmap hdead => exact .refl
  | refuted p _ hmap hlives hdead hself hleft href =>
    exact refute_atoms (.dead d) hok hself (hself ▸ hmap) hlives hdead href
  | killed p hmap hlives hdead hself =>
    -- the broadcast comes before the record is written; put it last
    refine (Atoms.one (.kill m env d p hok hmap hlives hdead hself)).trans ?_
    refine (Atoms.quiet (.broadcast _ d.id (.dead d) notify (Or.inl hok))).trans ?_
    exact Atoms.quiet (.event _ .leave (Memberlist.deadRecord env d (m.records p)).node)

end Handlers

/-! ## The operations -/

/-- The messages one entry of a push/pull exchange turns into are `ok`. -/
def StateOk (ok : Msg → Prop) (self : String) (r : StateToMerge) : Prop :=
  match StateType.ofCode r.state with
  | some .alive =>
    ok (.alive { lives := r.lives, id := r.id, ip := r.ip, port := r.port, tags := r.tags })
  | some .left => ok (.dead { lives := r.lives, id := r.id, left := true })
  | some .dead => ok (.suspect { lives := r.lives, id := r.id, sender := self })
  | some .suspect => ok (.suspect { lives := r.lives, id := r.id, sender := self })
  | none => True

/-- The messages an operation acts on are `ok`: those it was given, and those the
timer and `Leave` make of a record. -/
def OpOk (ok : Msg → Prop) (m : Memberlist H) : Op → Prop
  | .alive _ a _ => m.aliveChecks a = true → ok (.alive a)
  | .suspect _ s => ok (.suspect s)
  | .dead _ d _ => ok (.dead d)
  | .timer _ k => ∀ r, m.lookup (m.suspObjs k).id = some r →
      ok (.dead { lives := r.lives, id := r.node.id, left := false })
  | .merge remote => ∀ er ∈ remote, StateOk ok m.id er.2
  | .leave _ _ => ∀ r, m.lookup m.id = some r →
      ok (.dead { lives := r.lives, id := r.node.id, left := true })
  | _ => True

omit [Encoded Msg] in
/-- Where every message is welcome. -/
theorem stateOk_true (self : String) (r : StateToMerge) : StateOk (fun _ => True) self r := by
  unfold StateOk
  split <;> trivial

omit [Encoded Msg] [Heap H (TransmitCapItem Msg)] in
theorem opOk_true (m : Memberlist H) (op : Op) : OpOk (fun _ => True) m op := by
  cases op with
  | merge remote => exact fun er _ => stateOk_true m.id er.2
  | timer env k => exact fun _ _ => trivial
  | leave env notify => exact fun _ _ => trivial
  | alive env a notify => exact fun _ => trivial
  | _ => exact trivial

section Operations

variable {ok : Msg → Prop}

/-- A timer declares dead, at the `Lives` it finds. -/
theorem timeoutFn_atoms {m : Memberlist H} (env : Env) {k : Nat} {m' : Memberlist H}
    (hok : ∀ r, m.lookup (m.suspObjs k).id = some r →
      ok (.dead { lives := r.lives, id := r.node.id, left := false }))
    (h : m.timeoutFn env k = some m') : Atoms ok m m' := by
  rcases timeoutFn_case h with ⟨-, rfl⟩ | ⟨p, hmap, -, hd⟩
  · exact .refl
  · exact deadNode_atoms env none (hok _ (Memberlist.lookup_of_map hmap)) hd

/-- An entry is handled like a message. -/
theorem mergeOne_atoms {m : Memberlist H} (env : Env) {r : StateToMerge} {m' : Memberlist H}
    (hok : StateOk ok m.id r) (h : m.mergeOne env r = some m') : Atoms ok m m' := by
  unfold StateOk at hok
  unfold Memberlist.mergeOne at h
  split at h
  next hs =>
    rw [hs] at hok
    exact Option.some.inj h ▸ aliveNode_atoms env none (fun _ => Or.inl hok)
  next hs =>
    rw [hs] at hok
    exact deadNode_atoms env none hok h
  next hs =>
    rw [hs] at hok
    exact suspectNode_atoms env hok h
  next hs =>
    rw [hs] at hok
    exact suspectNode_atoms env hok h
  next => exact Option.some.inj h ▸ .refl

/-- A merge, entry by entry. -/
theorem mergeState_atoms {remote : List (Env × StateToMerge)} :
    ∀ {m m' : Memberlist H}, (∀ er ∈ remote, StateOk ok m.id er.2) →
      m.mergeState remote = some m' → Atoms ok m m' := by
  induction remote with
  | nil =>
    intro m m' _ h
    exact Option.some.inj h ▸ .refl
  | cons er remote ih =>
    intro m m' hok h
    obtain ⟨t, ht, h'⟩ := run_cons_some h
    have h1 := mergeOne_atoms er.1 (hok er (List.mem_cons_self ..)) ht
    refine h1.trans (ih ?_ h')
    intro er' hmem
    rw [h1.id]
    exact hok er' (List.mem_cons_of_mem _ hmem)

/-- `UpdateTags` is an alive message of the member's own. -/
theorem updateTags_atoms {m : Memberlist H} {env : Env} {tags : Bytes} {notify : Nat}
    {res : Except String Unit × Memberlist H} (h : m.updateTags env tags notify = some res) :
    Atoms ok m res.2 := by
  rcases updateTags_case h with he | ⟨p, -, he⟩
  · rw [he]
  · rw [he]
    refine (Atoms.quiet (.issue m (m.records p).node.ip (m.records p).node.port tags)).trans ?_
    refine aliveNode_atoms env (some notify) (fun _ => Or.inr ⟨_, ?_, rfl⟩)
    exact List.mem_append_right _ (List.mem_singleton.mpr rfl)

/-- `Leave` is a dead message of the member's own. -/
theorem leave_atoms {m : Memberlist H} {env : Env} {notify : Nat}
    {res : Except String Unit × Memberlist H}
    (hok : ∀ r, m.lookup m.id = some r →
      ok (.dead { lives := r.lives, id := r.node.id, left := true }))
    (h : m.leave env notify = some res) : Atoms ok m res.2 := by
  have hset : Atoms ok m { m with left := true } :=
    Atoms.quiet (.flags m m.awr m.shutdown true (fun _ => rfl))
  rcases leave_case h with he | ⟨-, he⟩ | ⟨p, hmap, hd⟩
  · rw [he]
  · rw [he]
    exact hset
  · exact hset.trans (deadNode_atoms env (some notify) (hok _ (Memberlist.lookup_of_map hmap)) hd)

/-- **What an operation can do**: some atoms, after a timer has gone off if it is
one that does; or reap. -/
theorem step_atoms {m m' : Memberlist H} {op : Op} (hok : OpOk ok m op)
    (h : step op m = some m') :
    Atoms ok m m' ∨
    (∃ env k, op = .timer env k ∧ k < m.numSusps ∧ (m.suspObjs k).pending = true ∧
      (m.disarm k).timeoutFn env k = some m' ∧ Atoms ok (m.disarm k) m') ∨
    (∃ env, op = .reap env ∧ m' = m.reap env) := by
  cases op with
  | alive env a notify =>
    left
    exact Option.some.inj h ▸ aliveNode_atoms env notify (fun hc => Or.inl (hok hc))
  | suspect env s => exact Or.inl (suspectNode_atoms env hok h)
  | dead env d notify => exact Or.inl (deadNode_atoms env notify hok h)
  | timer env k =>
    unfold step Memberlist.fireTimer at h
    dsimp only at h
    split at h
    next hk =>
      have hid : ((m.disarm k).suspObjs k).id = (m.suspObjs k).id := by
        simp [Memberlist.disarm]
      refine Or.inr (Or.inl ⟨env, k, rfl, hk.1, hk.2, h, timeoutFn_atoms env ?_ h⟩)
      intro r hr
      rw [hid] at hr
      exact hok r hr
    next => exact Or.inl (Option.some.inj h ▸ .refl)
  | merge remote => exact Or.inl (mergeState_atoms hok h)
  | updateTags env tags notify =>
    obtain ⟨r, hr, rfl⟩ := Option.map_eq_some_iff.mp h
    exact Or.inl (updateTags_atoms hr)
  | leave env notify =>
    obtain ⟨r, hr, rfl⟩ := Option.map_eq_some_iff.mp h
    exact Or.inl (leave_atoms hok hr)
  | reap env => exact Or.inr (Or.inr ⟨env, rfl, (Option.some.inj h).symm⟩)
  | getMessages l o s => exact Or.inl (Option.some.inj h ▸ Atoms.quiet (.drain m l o s))
  | punish delta =>
    exact Or.inl (Option.some.inj h ▸ Atoms.quiet (.flags m _ m.shutdown m.left id))
  | shutdown =>
    exact Or.inl (Option.some.inj h ▸ Atoms.quiet (.flags m m.awr true m.left id))

/-- **Invariant rule for operations.** What every atom and `reap` keep and a spent
timer does not disturb, every operation keeps. -/
theorem step_inv {P : Memberlist H → Prop} (hatom : ∀ m m', P m → Atom ok m m' → P m')
    (hreap : ∀ m env, P m → P (m.reap env)) (hdisarm : ∀ m k, P m → P (m.disarm k))
    {m m' : Memberlist H} {op : Op} (hok : OpOk ok m op) (h : step op m = some m') (hP : P m) :
    P m' := by
  rcases step_atoms hok h with ha | ⟨env, k, -, -, -, -, ha⟩ | ⟨env, -, rfl⟩
  · exact ha.inv hatom hP
  · exact ha.inv hatom (hdisarm m k hP)
  · exact hreap m env hP

/-- No operation changes the configuration. -/
theorem step_config {m m' : Memberlist H} {op : Op} (h : step op m = some m') :
    m'.config = m.config := by
  refine step_inv (P := fun s => s.config = m.config) ?_ ?_ ?_ (opOk_true m op) h rfl
  · intro s t hs hst
    exact hst.config.trans hs
  · intro s env hs
    exact hs
  · intro s k hs
    exact hs

theorem step_id {m m' : Memberlist H} {op : Op} (h : step op m = some m') : m'.id = m.id :=
  congrArg Config.id (step_config h)

/-- What `new` has and atoms keep, a freshly built member has. -/
theorem build_inv {P : Memberlist H → Prop}
    (hatom : ∀ m m', P m → Atom (fun _ => True) m m' → P m')
    {env : Env} {config : Config} {m : Memberlist H} (hnew : P (Memberlist.new config))
    (h : Memberlist.build env config = .ok m) : P m := by
  obtain ⟨addr, -, rfl⟩ := build_case h
  refine Atoms.inv hatom ?_ hnew
  refine .trans (Atoms.quiet
    (.issue (Memberlist.new config) addr config.advertisePort config.tags)) ?_
  exact aliveNode_atoms env none (fun _ => Or.inl trivial)

/-- **Invariant rule for reachable states.** -/
theorem reachable_inv {P : Memberlist H → Prop} (hnew : ∀ config, P (Memberlist.new config))
    (hatom : ∀ m m', P m → Atom (fun _ => True) m m' → P m')
    (hreap : ∀ m env, P m → P (m.reap env)) (hdisarm : ∀ m k, P m → P (m.disarm k))
    {m : Memberlist H} (h : Reachable m) : P m := by
  obtain ⟨env, config, m₀, ops, hb, hrun⟩ := h
  refine run_inv (P := P) ?_ (build_inv hatom (hnew config) hb) hrun
  intro op s t hs ht
  exact step_inv hatom hreap hdisarm (opOk_true s op) ht hs

end Operations

end Mlist
