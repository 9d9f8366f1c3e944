import Mlist.Member.SelfDefence

/-!
# Goroutines inside one member

Handlers are called from several goroutines — the long-run message handler, the
push/pull connections, the suspicion timers, the callers of `UpdateTags` and
`Leave` — and `nodeL` does not cover all they do:

* `aliveNode` tests `hasLeft` before it takes the lock, and queues its broadcast and
  sends its events in a deferred function that runs after the unlock;
* `Leave` sets the flag, looks its record up under the lock, reads the record's
  `Lives` without it, and then calls `deadNode`;
* `UpdateTags` takes its number before it calls `aliveNode`.

`Sys` is a member together with the calls that are under way, and an `Action` is one
uninterrupted piece of one of them. `suspectNode` and `deadNode` hold the lock from
beginning to end and are one action each; a timer that goes off and an entry of a
push/pull exchange are calls of these handlers with some message, and messages are
arbitrary here.

`act` performs an action, `none` if it is not possible in this state. Taken one after
the other the pieces of an `aliveNode` are the `aliveNode` of `State.lean`
(`aliveNode_acts`).
-/

namespace Mlist

open Mlist.Lib

/-! ## The model -/

/-- An `aliveNode` under way. -/
inductive Task where
  /-- about to test `hasLeft` and `IPAllowed` -/
  | called (a : Alive) (notify : Option Nat)
  /-- about to take the lock -/
  | entered (a : Alive) (notify : Option Nat)
  /-- unlocked; the deferred function has to do what the flags still say -/
  | deferred (post : Memberlist.AlivePost)
  deriving DecidableEq, Repr

/-- How far `Leave` has got. -/
inductive LeavePc where
  | idle
  | flagged
  /-- the record the lookup found -/
  | found (p : Nat)
  /-- the message built from it -/
  | read (d : Dead)
  /-- returned, and whether the lookup found a record -/
  | done (found : Bool)
  deriving DecidableEq, Repr

/-- A member and the calls under way. -/
structure Sys (H : Type) where
  m : Memberlist H
  tasks : Nat → Option Task
  leave : LeavePc

/-- One uninterrupted piece of a call. `k` names the goroutine of an `aliveNode`. -/
inductive Action where
  | aliveNode (k : Nat) (a : Alive) (notify : Option Nat)
  | updateTags (k : Nat) (tags : Bytes) (notify : Nat)
  | check (k : Nat)
  | lock (k : Nat) (env : Env)
  | publish (k : Nat)
  | suspectNode (env : Env) (s : Suspect)
  | deadNode (env : Env) (d : Dead) (notify : Option Nat)
  | leave
  | leaveLookup
  | leaveRead
  | leaveDead (env : Env) (notify : Nat)
  | getMessages (transLimit overhead size : Int)
  | reap (env : Env)

variable {H : Type}

/-- `deadNode` would declare the node dead, or left. -/
def Memberlist.kills (m : Memberlist H) (d : Dead) : Prop :=
  ∃ r, m.lookup d.id = some r ∧ r.lives ≤ d.lives ∧ r.deadOrLeft = false ∧
    (d.id = m.id → m.left = true)

namespace Sys

def setTask (k : Nat) (t : Option Task) (s : Sys H) : Sys H :=
  { s with tasks := Function.update s.tasks k t }

/-- A member with no call under way. -/
def start (m : Memberlist H) : Sys H := { m, tasks := fun _ => none, leave := .idle }

/-- The message `Leave` makes of its own record. -/
def leaveMsg (node : NodeState) : Dead :=
  { lives := node.lives, id := node.node.id, left := true }

variable [Encoded Msg] [Heap H (TransmitCapItem Msg)]

/-- The next thing the deferred function of `aliveNode` does. -/
def publishStep (k : Nat) (post : Memberlist.AlivePost) (s : Sys H) : Sys H :=
  if post.rebroadcast then
    setTask k (some (.deferred { post with rebroadcast := false }))
      { s with m := s.m.broadcast post.newNode.id (.alive post.msg) post.notify }
  else if post.notifyJoin then
    setTask k (some (.deferred { post with notifyJoin := false }))
      { s with m := s.m.notifyEvent .join post.newNode }
  else if post.notifyUpdate then
    setTask k (some (.deferred { post with notifyUpdate := false }))
      { s with m := s.m.notifyEvent .update post.newNode }
  else s.setTask k none

/-- One action. -/
def act : Action → Sys H → Option (Sys H)
  | .aliveNode k a notify, s =>
    match s.tasks k with
    | none => some (s.setTask k (some (.called a notify)))
    | some _ => none
  | .updateTags k tags notify, s =>
    if tags.length > tagMaxSize then some s
    else
      match s.tasks k, s.m.nodeMap s.m.id with
      -- the record is read, and the number taken, before there is any lock
      | none, some p =>
        let node := (s.m.records p).node
        let (a, m) := s.m.issueAlive node.ip node.port tags
        some (setTask k (some (.called a (some notify))) { s with m })
      | _, _ => none
  | .check k, s =>
    match s.tasks k with
    | some (.called a notify) =>
      -- checked without the lock; what was checked may have changed by the time it is taken
      if s.m.aliveChecks a then some (s.setTask k (some (.entered a notify)))
      else some (s.setTask k none)
    | _ => none
  | .lock k env, s =>
    match s.tasks k with
    | some (.entered a notify) =>
      let (m, post) := s.m.aliveLocked env a notify
      some (setTask k (some (.deferred post)) { s with m })
    | _ => none
  | .publish k, s =>
    match s.tasks k with
    | some (.deferred post) => some (s.publishStep k post)
    | _ => none
  | .suspectNode env sus, s => (s.m.suspectNode env sus).map fun m => { s with m }
  | .deadNode env d notify, s => (s.m.deadNode env d notify).map fun m => { s with m }
  | .leave, s =>
    match s.leave with
    | .idle =>
      -- after a shutdown it panics, and a second call returns at once
      if s.m.shutdown || s.m.left then none
      else some { s with m := { s.m with left := true }, leave := .flagged }
    | _ => none
  | .leaveLookup, s =>
    match s.leave with
    | .flagged =>
      match s.m.nodeMap s.m.id with
      | some p => some { s with leave := .found p }
      | none => some { s with leave := .done false }
    | _ => none
  | .leaveRead, s =>
    match s.leave with
    -- the record is read after `nodeL` has been given up
    | .found p => some { s with leave := .read (leaveMsg (s.m.records p)) }
    | _ => none
  | .leaveDead env notify, s =>
    match s.leave with
    | .read d => (s.m.deadNode env d (some notify)).map fun m => { s with m, leave := .done true }
    | _ => none
  | .getMessages transLimit overhead size, s =>
    some { s with m := { s.m with
      mbroadcasts := (s.m.mbroadcasts.getMessages transLimit overhead size).2 } }
  | .reap env, s => some { s with m := s.m.reap env }

/-! ## The ways through an action -/

/-- What an action that is possible does. -/
inductive Acts (s : Sys H) : Action → Sys H → Prop where
  | called (k : Nat) (a : Alive) (notify : Option Nat) (hfree : s.tasks k = none) :
    Acts s (.aliveNode k a notify) (s.setTask k (some (.called a notify)))
  | refused (k : Nat) (tags : Bytes) (notify : Nat) :
    Acts s (.updateTags k tags notify) s
  | tagged (k : Nat) (tags : Bytes) (notify p : Nat) (hfree : s.tasks k = none)
    (hmap : s.m.nodeMap s.m.id = some p) :
    Acts s (.updateTags k tags notify)
      (setTask k (some (.called
          (s.m.issueAlive (s.m.records p).node.ip (s.m.records p).node.port tags).1 (some notify)))
        { s with m := (s.m.issueAlive (s.m.records p).node.ip (s.m.records p).node.port tags).2 })
  | passed (k : Nat) (a : Alive) (notify : Option Nat)
    (htask : s.tasks k = some (.called a notify)) (hc : s.m.aliveChecks a = true) :
    Acts s (.check k) (s.setTask k (some (.entered a notify)))
  | turnedAway (k : Nat) (a : Alive) (notify : Option Nat)
    (htask : s.tasks k = some (.called a notify)) (hc : s.m.aliveChecks a = false) :
    Acts s (.check k) (s.setTask k none)
  | locked (k : Nat) (env : Env) (a : Alive) (notify : Option Nat)
    (htask : s.tasks k = some (.entered a notify)) :
    Acts s (.lock k env) (setTask k (some (.deferred (s.m.aliveLocked env a notify).2))
      { s with m := (s.m.aliveLocked env a notify).1 })
  | broadcast (k : Nat) (post : Memberlist.AlivePost)
    (htask : s.tasks k = some (.deferred post)) (hb : post.rebroadcast = true) :
    Acts s (.publish k) (setTask k (some (.deferred { post with rebroadcast := false }))
      { s with m := s.m.broadcast post.newNode.id (.alive post.msg) post.notify })
  | join (k : Nat) (post : Memberlist.AlivePost)
    (htask : s.tasks k = some (.deferred post)) (hb : post.rebroadcast = false)
    (hj : post.notifyJoin = true) :
    Acts s (.publish k) (setTask k (some (.deferred { post with notifyJoin := false }))
      { s with m := s.m.notifyEvent .join post.newNode })
  | update (k : Nat) (post : Memberlist.AlivePost)
    (htask : s.tasks k = some (.deferred post)) (hb : post.rebroadcast = false)
    (hj : post.notifyJoin = false) (hu : post.notifyUpdate = true) :
    Acts s (.publish k) (setTask k (some (.deferred { post with notifyUpdate := false }))
      { s with m := s.m.notifyEvent .update post.newNode })
  | returned (k : Nat) (post : Memberlist.AlivePost)
    (htask : s.tasks k = some (.deferred post)) (hb : post.rebroadcast = false)
    (hj : post.notifyJoin = false) (hu : post.notifyUpdate = false) :
    Acts s (.publish k) (s.setTask k none)
  | suspected (env : Env) (sus : Suspect) (m' : Memberlist H)
    (h : s.m.suspectNode env sus = some m') : Acts s (.suspectNode env sus) { s with m := m' }
  | died (env : Env) (d : Dead) (notify : Option Nat) (m' : Memberlist H)
    (h : s.m.deadNode env d notify = some m') : Acts s (.deadNode env d notify) { s with m := m' }
  | flagged (hpc : s.leave = .idle) (hleft : s.m.left = false) :
    Acts s .leave { s with m := { s.m with left := true }, leave := .flagged }
  | found (p : Nat) (hpc : s.leave = .flagged) (hmap : s.m.nodeMap s.m.id = some p) :
    Acts s .leaveLookup { s with leave := .found p }
  | missing (hpc : s.leave = .flagged) (habs : s.m.nodeMap s.m.id = none) :
    Acts s .leaveLookup { s with leave := .done false }
  | read (p : Nat) (hpc : s.leave = .found p) :
    Acts s .leaveRead { s with leave := .read (leaveMsg (s.m.records p)) }
  | left (env : Env) (notify : Nat) (d : Dead) (m' : Memberlist H)
    (hpc : s.leave = .read d) (h : s.m.deadNode env d (some notify) = some m') :
    Acts s (.leaveDead env notify) { s with m := m', leave := .done true }
  | drained (transLimit overhead size : Int) :
    Acts s (.getMessages transLimit overhead size) { s with m := { s.m with
      mbroadcasts := (s.m.mbroadcasts.getMessages transLimit overhead size).2 } }
  | reaped (env : Env) : Acts s (.reap env) { s with m := s.m.reap env }

theorem publishStep_case {s : Sys H} {k : Nat} {post : Memberlist.AlivePost}
    (htask : s.tasks k = some (.deferred post)) : Acts s (.publish k) (s.publishStep k post) := by
  unfold publishStep
  split
  next hb => exact .broadcast k post htask hb
  next hb =>
    have hb := Bool.eq_false_iff.mpr hb
    split
    next hj => exact .join k post htask hb hj
    next hj =>
      have hj := Bool.eq_false_iff.mpr hj
      split
      next hu => exact .update k post htask hb hj hu
      next hu => exact .returned k post htask hb hj (Bool.eq_false_iff.mpr hu)

theorem act_case {s s' : Sys H} {a : Action} (h : act a s = some s') : Acts s a s' := by
  cases a with
  | aliveNode k a notify =>
    dsimp only [act] at h
    split at h
    next hfree => exact Option.some.inj h ▸ .called k a notify hfree
    next => cases h
  | updateTags k tags notify =>
    dsimp only [act] at h
    split at h
    next => exact Option.some.inj h ▸ .refused k tags notify
    next =>
      split at h
      next p hfree hmap => exact Option.some.inj h ▸ .tagged k tags notify p hfree hmap
      next => cases h
  | check k =>
    dsimp only [act] at h
    split at h
    next a notify htask =>
      split at h
      next hc => exact Option.some.inj h ▸ .passed k a notify htask hc
      next hc =>
        exact Option.some.inj h ▸ .turnedAway k a notify htask (Bool.eq_false_iff.mpr hc)
    next => cases h
  | lock k env =>
    dsimp only [act] at h
    split at h
    next a notify htask => exact Option.some.inj h ▸ .locked k env a notify htask
    next => cases h
  | publish k =>
    dsimp only [act] at h
    split at h
    next post htask => exact Option.some.inj h ▸ publishStep_case htask
    next => cases h
  | suspectNode env sus =>
    obtain ⟨m', hm', rfl⟩ := Option.map_eq_some_iff.mp h
    exact .suspected env sus m' hm'
  | deadNode env d notify =>
    obtain ⟨m', hm', rfl⟩ := Option.map_eq_some_iff.mp h
    exact .died env d notify m' hm'
  | leave =>
    dsimp only [act] at h
    split at h
    next hpc =>
      split at h
      next => cases h
      next hflag =>
        have hleft : s.m.left = false := by
          cases hl : s.m.left with
          | false => rfl
          | true => exact absurd (by rw [hl, Bool.or_true]) hflag
        exact Option.some.inj h ▸ .flagged hpc hleft
    next => cases h
  | leaveLookup =>
    dsimp only [act] at h
    split at h
    next hpc =>
      split at h
      next p hmap => exact Option.some.inj h ▸ .found p hpc hmap
      next habs => exact Option.some.inj h ▸ .missing hpc habs
    next => cases h
  | leaveRead =>
    dsimp only [act] at h
    split at h
    next p hpc => exact Option.some.inj h ▸ .read p hpc
    next => cases h
  | leaveDead env notify =>
    dsimp only [act] at h
    split at h
    next d hpc =>
      obtain ⟨m', hm', rfl⟩ := Option.map_eq_some_iff.mp h
      exact .left env notify d m' hpc hm'
    next => cases h
  | getMessages l o z => exact Option.some.inj h ▸ .drained l o z
  | reap env => exact Option.some.inj h ▸ .reaped env

/-! ## The member under an action -/

/-- An action changes the member by atoms, or reaps. -/
theorem act_atoms {s s' : Sys H} {a : Action} (h : Acts s a s') :
    Atoms (fun _ => True) s.m s'.m ∨ ∃ env, s'.m = s.m.reap env := by
  cases h with
  | called k a notify hfree => exact Or.inl .refl
  | refused k tags notify => exact Or.inl .refl
  | tagged k tags notify p hfree hmap =>
    exact Or.inl (Atoms.quiet (.issue s.m _ _ tags))
  | passed k a notify htask hc => exact Or.inl .refl
  | turnedAway k a notify htask hc => exact Or.inl .refl
  | locked k env a notify htask => exact Or.inl (aliveLocked_atoms env notify (Or.inl trivial))
  | broadcast k post htask hb =>
    exact Or.inl (Atoms.quiet (.broadcast s.m _ _ _ (Or.inl trivial)))
  | join k post htask hb hj => exact Or.inl (Atoms.quiet (.event s.m .join post.newNode))
  | update k post htask hb hj hu => exact Or.inl (Atoms.quiet (.event s.m .update post.newNode))
  | returned k post htask hb hj hu => exact Or.inl .refl
  | suspected env sus m' hm' => exact Or.inl (suspectNode_atoms env trivial hm')
  | died env d notify m' hm' => exact Or.inl (deadNode_atoms env notify trivial hm')
  | flagged hpc hleft =>
    exact Or.inl (Atoms.quiet (.flags s.m s.m.awr s.m.shutdown true (fun _ => rfl)))
  | found p hpc hmap => exact Or.inl .refl
  | missing hpc habs => exact Or.inl .refl
  | read p hpc => exact Or.inl .refl
  | left env notify d m' hpc hm' => exact Or.inl (deadNode_atoms env (some notify) trivial hm')
  | drained l o z => exact Or.inl (Atoms.quiet (.drain s.m l o z))
  | reaped env => exact Or.inr ⟨env, rfl⟩

/-- What atoms and `reap` keep, every action keeps. -/
theorem act_inv {P : Memberlist H → Prop}
    (hatom : ∀ m m', P m → Atom (fun _ => True) m m' → P m')
    (hreap : ∀ m env, P m → P (m.reap env)) {s s' : Sys H} {a : Action} (h : Acts s a s')
    (hs : P s.m) : P s'.m := by
  rcases act_atoms h with ha | ⟨env, he⟩
  · exact ha.inv hatom hs
  · rw [he]
    exact hreap s.m env hs

/-- What a member can rely on alone, it can rely on among its goroutines. -/
theorem acts_defended {s s' : Sys H} {a : Action} (h : Defended s.m) (ha : Acts s a s') :
    Defended s'.m :=
  act_inv atom_defended defended_reap ha h

/-! ## One after the other -/

/-- How many things the deferred function has left to do. -/
def pending (post : Memberlist.AlivePost) : Nat :=
  post.rebroadcast.toNat + post.notifyJoin.toNat + post.notifyUpdate.toNat

omit [Encoded Msg] [Heap H (TransmitCapItem Msg)] in
theorem setTask_setTask (k : Nat) (t t' : Option Task) (s : Sys H) :
    setTask k t' (setTask k t s) = setTask k t' s := by
  unfold setTask
  dsimp only
  rw [Function.update_idem]

/-- The deferred function from beginning to end: a piece for each thing it has to do,
and one to return. -/
theorem publish_acts : ∀ (n : Nat) {s : Sys H} {k : Nat} {post : Memberlist.AlivePost},
    pending post = n → s.tasks k = some (.deferred post) →
    run act (List.replicate (n + 1) (.publish k)) s =
      some (setTask k none { s with m := s.m.alivePublish post }) := by
  intro n
  induction n with
  | zero =>
    intro s k post hn htask
    have hflags : post.rebroadcast = false ∧ post.notifyJoin = false ∧
        post.notifyUpdate = false := by
      unfold pending at hn
      exact ⟨Bool.toNat_eq_zero.mp (by omega), Bool.toNat_eq_zero.mp (by omega),
        Bool.toNat_eq_zero.mp (by omega)⟩
    obtain ⟨hb, hj, hu⟩ := hflags
    have hact : act (.publish k) s = some (s.setTask k none) := by
      simp only [act, htask, publishStep, hb, hj, hu, Bool.false_eq_true, if_false]
    have hpub : s.m.alivePublish post = s.m := by
      simp only [Memberlist.alivePublish, hb, hj, hu, Bool.false_eq_true, if_false]
    rw [hpub, List.replicate_succ, List.replicate_zero, run_singleton, hact]
  | succ n ih =>
    intro s k post hn htask
    -- one thing less to do for the rest of the run, and what it comes to is the same
    have hrest : ∀ (m : Memberlist H) (q : Memberlist.AlivePost), pending q = n →
        m.alivePublish q = s.m.alivePublish post →
        s.publishStep k post = setTask k (some (.deferred q)) { s with m } →
        run act (List.replicate (n + 1 + 1) (.publish k)) s =
          some (setTask k none { s with m := s.m.alivePublish post }) := by
      intro m q hq hpub hstep
      have hact : act (.publish k) s = some (s.publishStep k post) := by
        simp only [act, htask]
      rw [List.replicate_succ, run_cons, hact, hstep, Option.bind_some,
        ih hq (Function.update_self ..), ← hpub]
      exact congrArg some (setTask_setTask k _ none { s with m := m.alivePublish q })
    unfold pending at hn
    cases hb : post.rebroadcast with
    | true =>
      refine hrest (s.m.broadcast post.newNode.id (.alive post.msg) post.notify)
        { post with rebroadcast := false } ?_ ?_ ?_
      · simp only [pending, hb, Bool.toNat_true, Bool.toNat_false] at hn ⊢
        omega
      · simp only [Memberlist.alivePublish, hb, if_true, Bool.false_eq_true, if_false]
      · rw [publishStep, if_pos hb]
    | false =>
      cases hj : post.notifyJoin with
      | true =>
        refine hrest (s.m.notifyEvent .join post.newNode)
          { post with notifyJoin := false } ?_ ?_ ?_
        · simp only [pending, hj, Bool.toNat_true, Bool.toNat_false] at hn ⊢
          omega
        · simp only [Memberlist.alivePublish, hb, hj, if_true, Bool.false_eq_true, if_false]
        · rw [publishStep, if_neg (by simp [hb]), if_pos hj]
      | false =>
        cases hu : post.notifyUpdate with
        | true =>
          refine hrest (s.m.notifyEvent .update post.newNode)
            { post with notifyUpdate := false } ?_ ?_ ?_
          · simp only [pending, hu, Bool.toNat_true, Bool.toNat_false] at hn ⊢
            omega
          · simp only [Memberlist.alivePublish, hb, hj, hu, if_true, Bool.false_eq_true, if_false]
          · rw [publishStep, if_neg (by simp [hb]), if_neg (by simp [hj]), if_pos hu]
        | false => simp [hb, hj, hu] at hn

/-- The pieces of a call of `aliveNode`, in order. -/
def aliveActs (k : Nat) (env : Env) (a : Alive) (notify : Option Nat) (m : Memberlist H) :
    List Action :=
  if m.aliveChecks a then
    .aliveNode k a notify :: .check k :: .lock k env ::
      List.replicate (pending (m.aliveLocked env a notify).2 + 1) (.publish k)
  else [.aliveNode k a notify, .check k]

omit [Encoded Msg] [Heap H (TransmitCapItem Msg)] in
/-- The goroutine of `k` takes them all, and none of them declares anything. -/
theorem mem_aliveActs {k : Nat} {env : Env} {a : Alive} {notify : Option Nat}
    {m : Memberlist H} {b : Action} (h : b ∈ aliveActs k env a notify m) :
    b = .aliveNode k a notify ∨ b = .check k ∨ b = .lock k env ∨ b = .publish k := by
  unfold aliveActs at h
  split at h
  next =>
    simp only [List.mem_cons, List.mem_replicate] at h
    rcases h with h | h | h | h
    · exact Or.inl h
    · exact Or.inr (Or.inl h)
    · exact Or.inr (Or.inr (Or.inl h))
    · exact Or.inr (Or.inr (Or.inr h.2))
  next =>
    simp only [List.mem_cons, List.not_mem_nil, or_false] at h
    rcases h with h | h
    · exact Or.inl h
    · exact Or.inr (Or.inl h)

/-- **Taken one after the other, the pieces of `aliveNode` are `aliveNode`.** -/
theorem aliveNode_acts {s : Sys H} {k : Nat} (hfree : s.tasks k = none) (env : Env) (a : Alive)
    (notify : Option Nat) :
    run act (aliveActs k env a notify s.m) s =
      some { s with m := s.m.aliveNode env a notify } := by
  have hcall : act (.aliveNode k a notify) s = some (s.setTask k (some (.called a notify))) := by
    simp only [act, hfree]
  -- in the end the task is gone again
  have hout : ∀ m : Memberlist H, setTask k none { s with m } = { s with m } := by
    intro m
    unfold setTask
    dsimp only
    rw [← hfree, Function.update_eq_self]
  unfold aliveActs Memberlist.aliveNode
  cases hc : s.m.aliveChecks a with
  | false =>
    have hcheck : act (.check k) (s.setTask k (some (.called a notify))) =
        some (s.setTask k none) := by
      simp only [act, setTask, Function.update_self, hc, Bool.false_eq_true, if_false,
        Function.update_idem]
    rw [if_neg (by simp), if_neg (by simp), run_cons, hcall, Option.bind_some, run_singleton,
      hcheck]
    exact congrArg some (hout s.m)
  | true =>
    have hcheck : act (.check k) (s.setTask k (some (.called a notify))) =
        some (s.setTask k (some (.entered a notify))) := by
      simp only [act, setTask, Function.update_self, hc, if_true, Function.update_idem]
    have hlock : act (.lock k env) (s.setTask k (some (.entered a notify))) =
        some (setTask k (some (.deferred (s.m.aliveLocked env a notify).2))
          { s with m := (s.m.aliveLocked env a notify).1 }) := by
      simp only [act, setTask, Function.update_self, Function.update_idem]
    rw [if_pos rfl, if_pos rfl, run_cons, hcall, Option.bind_some, run_cons, hcheck,
      Option.bind_some, run_cons, hlock, Option.bind_some,
      publish_acts _ rfl (Function.update_self ..)]
    exact congrArg some ((setTask_setTask k _ none _).trans (hout _))

/-- The pieces of a call of `aliveNode` behind the call itself. -/
theorem called_acts {s : Sys H} {k : Nat} (hfree : s.tasks k = none) (env : Env) (a : Alive)
    (notify : Option Nat) :
    ∃ as, (∀ b ∈ as, b = .check k ∨ b = .lock k env ∨ b = .publish k) ∧
      run act as (s.setTask k (some (.called a notify))) =
        some { s with m := s.m.aliveNode env a notify } := by
  have hcall : act (.aliveNode k a notify) s = some (s.setTask k (some (.called a notify))) := by
    simp only [act, hfree]
  have hwhole := aliveNode_acts hfree env a notify
  unfold aliveActs at hwhole
  split at hwhole
  next =>
    rw [run_cons, hcall, Option.bind_some] at hwhole
    refine ⟨_, fun b hb => ?_, hwhole⟩
    simp only [List.mem_cons, List.mem_replicate] at hb
    rcases hb with hb | hb | hb
    · exact Or.inl hb
    · exact Or.inr (Or.inl hb)
    · exact Or.inr (Or.inr hb.2)
  next =>
    rw [run_cons, hcall, Option.bind_some] at hwhole
    exact ⟨_, fun b hb => Or.inl (List.mem_singleton.mp hb), hwhole⟩

end Sys

namespace Concrete

/-- The system after these actions, from a member that has just been built. -/
def raced (as : List Action) : Option (Sys (List (TransmitCapItem Msg))) :=
  run Sys.act as (Sys.start (built "me" me_ne))

/-- The system after actions that are all possible. -/
def raceEnd (as : List Action) (h : (raced as).isSome = true) :
    Sys (List (TransmitCapItem Msg)) := (raced as).get h

theorem raced_eq (as : List Action) (h : (raced as).isSome = true) :
    run Sys.act as (Sys.start (built "me" (by decide))) = some (raceEnd as h) :=
  (Option.some_get h).symm

end Concrete

end Mlist
