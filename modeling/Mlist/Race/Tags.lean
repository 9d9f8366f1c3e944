import Mlist.Race.Await

/-!
# New tags among accusations

`UpdateTags` takes its number from the counter and then calls `aliveNode`, which takes the
lock. In between a suspicion of the member itself can come in: `refute` takes numbers until
one is above the accusation, and raises the record to it. The number of `UpdateTags` is then
not above the record any more, `aliveNode` drops the message, and nobody says so: without
peers, or with `BroadcastWaitTimeout` 0, the call returns nil (`update_overtaken`). `refute`
itself looks at the record under the lock and goes on until its number is above it.

The record has the tags at some time between the call and its return if and only if at the
lock the number is above the record's, or the record has the tags anyway
(`update_seen_iff`). Nothing else stands in the way: as long as the member has not left, its
own message passes the checks of `aliveNode`, because the address in its record is one that
`IPAllowed` let in (`RecordsAllowed`).
-/

namespace Mlist

open Mlist.Lib Memberlist

variable {H : Type} {m m' : Memberlist H}

/-! ## What accusations leave alone -/

/-- Who is known, and under which address, port and tags; and the flag. -/
structure SameInfo (m m' : Memberlist H) : Prop where
  config : m'.config = m.config
  left : m'.left = m.left
  nodeMap : m'.nodeMap = m.nodeMap
  info : ∀ p, (m'.records p).node = (m.records p).node

theorem SameInfo.refl (m : Memberlist H) : SameInfo m m := ⟨rfl, rfl, rfl, fun _ => rfl⟩

/-- Addresses that are not allowed do not get into the records. -/
def RecordsAllowed (m : Memberlist H) : Prop :=
  ∀ id p, m.nodeMap id = some p → m.ipAllowed (m.records p).node.ip = true

/-- Records with the same addresses are allowed as before. -/
theorem RecordsAllowed.same (h : RecordsAllowed m) (hs : SameInfo m m') : RecordsAllowed m' := by
  intro id p hmap
  rw [hs.nodeMap] at hmap
  unfold Memberlist.ipAllowed
  rw [hs.config, hs.info]
  exact h id p hmap

/-- A record is changed, but not who it is about. -/
theorem SameInfo.update (hconfig : m'.config = m.config) (hleft : m'.left = m.left)
    (hmap : m'.nodeMap = m.nodeMap) {p : Nat} {r : NodeState}
    (hrecords : m'.records = Function.update m.records p r) (hr : r.node = (m.records p).node) :
    SameInfo m m' := by
  refine ⟨hconfig, hleft, hmap, fun q => ?_⟩
  rw [hrecords]
  by_cases hq : q = p
  · rw [hq, Function.update_self, hr]
  · rw [Function.update_of_ne hq]

/-- A record is made or changed only for an address that is allowed. -/
theorem aliveLocked_allowed (env : Env) {a : Alive} (notify : Option Nat) (h : RecordsAllowed m)
    (hip : m.ipAllowed a.ip = true) : RecordsAllowed (m.aliveLocked env a notify).1 := by
  have hcase := aliveLocked_case m env a notify
  generalize m.aliveLocked env a notify = r at hcase
  cases hcase with
  | joined habs =>
    intro id p hmap
    show m.ipAllowed (Function.update m.records m.numRecords (freshRecord env a) p).node.ip = true
    by_cases hp : p = m.numRecords
    · rw [hp, Function.update_self]
      exact hip
    · rw [Function.update_of_ne hp]
      refine h id p ?_
      have hmap : Function.update m.nodeMap a.id (some m.numRecords) id = some p := hmap
      by_cases hid : id = a.id
      · rw [hid, Function.update_self] at hmap
        exact absurd (Option.some.inj hmap).symm hp
      · rwa [Function.update_of_ne hid] at hmap
  | stale p hmap hold => exact h
  | news p hmap hnew =>
    intro id q hmap'
    show m.ipAllowed
      (Function.update m.records p (revivedRecord env a (m.records p)) q).node.ip = true
    by_cases hq : q = p
    · rw [hq, Function.update_self]
      exact h a.id p hmap
    · rw [Function.update_of_ne hq]
      exact h id q hmap'

section Handlers

variable [Encoded Msg] [Heap H (TransmitCapItem Msg)]

theorem refute_sameInfo {p lives : Nat} (h : m.refute p lives = some m') : SameInfo m m' := by
  obtain ⟨calls, -, rfl⟩ := refute_case h
  refine .update ?_ ?_ ?_ (p := p) (r := { m.records p with lives := calls % livesSize }) ?_ rfl <;>
    simp only [broadcast, raiseLives, setRecord]

/-- A suspicion leaves addresses and tags alone. -/
theorem suspectNode_sameInfo {env : Env} {s : Suspect} (h : m.suspectNode env s = some m') :
    SameInfo m m' := by
  cases suspectNode_case h with
  | refuted p m' hmap hlives hsusp hstate hself href => exact refute_sameInfo href
  | raised p hmap hlives hsusp hstate hself =>
    refine .update ?_ ?_ ?_ (p := p)
      (r := { m.records p with lives := s.lives, state := .suspect, stateChange := env.now })
      ?_ rfl <;>
      simp only [broadcast, setRecord, addSuspicion]
  | _ => exact ⟨rfl, rfl, rfl, fun _ => rfl⟩

/-- So does a death. -/
theorem deadNode_sameInfo {env : Env} {d : Dead} {notify : Option Nat}
    (h : m.deadNode env d notify = some m') : SameInfo m m' := by
  cases deadNode_case h with
  | refuted p m' hmap hlives hdead hself hleft href => exact refute_sameInfo href
  | killed p hmap hlives hdead hself =>
    have hk := killed_fields env d notify p m
    exact .update hk.config hk.left hk.nodeMap hk.records rfl
  | _ => exact ⟨rfl, rfl, rfl, fun _ => rfl⟩

/-- `aliveNode` checks the address before it does anything. -/
theorem aliveNode_allowed (env : Env) (a : Alive) (notify : Option Nat) (h : RecordsAllowed m) :
    RecordsAllowed (m.aliveNode env a notify) := by
  unfold Memberlist.aliveNode
  split
  next hc =>
    have hip : m.ipAllowed a.ip = true := by
      unfold aliveChecks at hc
      exact (Bool.and_eq_true_iff.mp hc).2
    dsimp only
    obtain ⟨_, _, _, he⟩ :=
      alivePublish_case (m.aliveLocked env a notify).1 (m.aliveLocked env a notify).2
    rw [he]
    exact aliveLocked_allowed env notify h hip
  next => exact h

/-- In every reachable state, the records have allowed addresses. -/
theorem reachable_allowed (h : Reachable m) : RecordsAllowed m := by
  refine reachable_whole (fun config id p hmap => nomatch hmap)
    (fun m env a notify hm => aliveNode_allowed env a notify hm)
    (fun m m' env s hm hs => hm.same (suspectNode_sameInfo hs))
    (fun m m' env d notify hm hd => hm.same (deadNode_sameInfo hd)) ?_ ?_ h
  · intro m env hm id p hmap
    have hmap : deregister m.records m.nodeMap _ id = some p := hmap
    rw [deregister_eq] at hmap
    split at hmap
    next => nomatch hmap
    next => exact hm id p hmap
  · intro m m' hs hconfig hm id p hmap
    rw [hs.nodeMap] at hmap
    unfold Memberlist.ipAllowed
    rw [hconfig, hs.records]
    exact hm id p hmap

end Handlers

namespace Await

variable {s t : Await H} {a : AwaitAction} {tags : Bytes}

/-! ## The call -/

/-- A piece of the call itself, or an accusation, or the queue being drained. -/
def accuses : AwaitAction → Bool
  | .piece (.suspectNode ..) => true
  | .piece (.deadNode ..) => true
  | .piece (.getMessages ..) => true
  | .piece (.check _) => true
  | .piece (.lock ..) => true
  | .piece (.publish _) => true
  | .piece _ => false
  | _ => true

/-- The tags in the member's own record. -/
def ownTags (s : Await H) : Option Bytes :=
  (s.sys.m.lookup s.sys.m.id).map fun r => r.node.tags

/-- The call has had the lock. -/
def past (s : Await H) : Bool :=
  match s.pc with
  | .running .starting => false
  | .running .handling =>
    match s.sys.tasks s.k with
    | some (.called ..) => false
    | some (.entered ..) => false
    | _ => true
  | _ => true

/-- The message of the call as long as it has not had the lock. -/
def Carries (m : Memberlist H) (tags : Bytes) : Option Task → Prop
  | some (.called a _) => a.id = m.id ∧ a.tags = tags ∧ m.ipAllowed a.ip = true ∧
      (m.nodeMap m.id).isSome = true
  | some (.entered a _) => a.id = m.id ∧ a.tags = tags ∧ m.ipAllowed a.ip = true ∧
      (m.nodeMap m.id).isSome = true
  | _ => True

/-- What holds of an `UpdateTags` among accusations. -/
structure Updating (tags : Bytes) (s : Await H) : Prop where
  call : s.call = .updateTags tags
  alone : ∀ k, k ≠ s.k → s.sys.tasks k = none
  left : s.sys.m.left = false
  allowed : RecordsAllowed s.sys.m
  carries : Carries s.sys.m tags (s.sys.tasks s.k)
  idle : s.pc ≠ .running .handling → s.sys.tasks s.k = none

/-- When the call takes the lock its number is above the record's, or the record has the tags
already. -/
def NotOvertaken (s : Await H) : AwaitAction → Prop
  | .piece (.lock k _) => k = s.k → ∀ a notify, s.sys.tasks s.k = some (.entered a notify) →
      ∀ p, s.sys.m.nodeMap s.sys.m.id = some p →
        (s.sys.m.records p).lives < a.lives ∨ (s.sys.m.records p).node.tags = a.tags
  | _ => True

/-! ## One action -/

/-- What an action comes to for the call: it leaves the tags alone; or it is the one with
which the call has had the lock, and they are set if and only if it was not overtaken. -/
def Moves (tags : Bytes) (s : Await H) (a : AwaitAction) (t : Await H) : Prop :=
  Updating tags t ∧
    ((t.past = s.past ∧ t.ownTags = s.ownTags ∧ NotOvertaken s a) ∨
      (s.past = false ∧ t.past = true ∧ (t.ownTags = some tags ↔ NotOvertaken s a)))

theorem Carries.same {task : Option Task} (h : Carries m tags task) (hs : SameInfo m m') :
    Carries m' tags task := by
  have hid : m'.id = m.id := congrArg Config.id hs.config
  unfold Carries Memberlist.ipAllowed at h ⊢
  rw [hid, hs.config, hs.nodeMap]
  exact h

theorem ownTags_same (hs : SameInfo s.sys.m t.sys.m) : t.ownTags = s.ownTags := by
  have hid : t.sys.m.id = s.sys.m.id := congrArg Config.id hs.config
  unfold ownTags lookup
  rw [hid, hs.nodeMap]
  cases s.sys.m.nodeMap s.sys.m.id with
  | none => rfl
  | some p => exact congrArg (fun n : Node => some n.tags) (hs.info p)

/-- The member goes on, and its own record says what it said. -/
theorem Updating.moves (h : Updating tags s) {sys : Sys H} {finished : Bool}
    (hs : SameInfo s.sys.m sys.m) (htasks : ∀ k, k ≠ s.k → sys.tasks k = s.sys.tasks k)
    (hcarries : Carries s.sys.m tags (sys.tasks s.k))
    (hidle : s.pc ≠ .running .handling → sys.tasks s.k = none)
    (hpast : past { s with sys, finished } = s.past) (hno : NotOvertaken s a) :
    Moves tags s a { s with sys, finished } :=
  ⟨{ call := h.call
     alone := fun k hk => (htasks k hk).trans (h.alone k hk)
     left := hs.left.trans h.left
     allowed := h.allowed.same hs
     carries := hcarries.same hs
     idle := hidle },
    .inl ⟨hpast, ownTags_same hs, hno⟩⟩

/-- Where the call does not return, only the member and the history have gone on. -/
theorem proceed_eq {sys : Sys H} (hret : (s.proceed sys).pc.isReturned = false) :
    ∃ finished, s.proceed sys = { s with sys, finished } := by
  unfold proceed at hret ⊢
  split at hret
  next hfin =>
    rw [if_pos hfin]
    refine ⟨s.finished || !s.pc.isReturned, ?_⟩
    cases hpc : s.pc with
    | running pc => rfl
    | waiting d =>
      rw [hpc] at hret
      nomatch hret
    | returned r => rfl
  next hfin =>
    rw [if_neg hfin]
    exact ⟨s.finished, rfl⟩

/-- The goroutine with a task is that of the call. -/
theorem Updating.own_task (h : Updating tags s) {k : Nat} {task : Task}
    (htask : s.sys.tasks k = some task) : k = s.k ∧ s.pc = .running .handling := by
  have hk : k = s.k := by
    by_contra hne
    exact nomatch (h.alone k hne).symm.trans htask
  refine ⟨hk, ?_⟩
  by_contra hpc
  rw [hk] at htask
  exact nomatch (h.idle hpc).symm.trans htask

/-- A task of the call is replaced, and its own record says what it said. -/
theorem Updating.moves_task (h : Updating tags s) {k : Nat} {task : Task} {task' : Option Task}
    {m : Memberlist H} {finished : Bool} (htask : s.sys.tasks k = some task)
    (hs : SameInfo s.sys.m m) (hcarries : Carries s.sys.m tags task')
    (hpast : past { s with sys := s.sys.setTask s.k task', finished } = s.past)
    (hno : NotOvertaken s a) :
    Moves tags s a { s with sys := Sys.setTask k task' { s.sys with m }, finished } := by
  obtain ⟨rfl, hpc⟩ := h.own_task htask
  refine h.moves hs (fun k hk => Function.update_of_ne hk ..) ?_
    (fun hne => absurd hpc hne) hpast hno
  show Carries s.sys.m tags (Function.update s.sys.tasks s.k task' s.k)
  rw [Function.update_self]
  exact hcarries

/-- When the call comes to the lock it is not overtaken, in terms of the member's record. -/
theorem notOvertaken_iff {env : Env} {al : Alive} {notify : Option Nat} {p : Nat}
    (htask : s.sys.tasks s.k = some (.entered al notify))
    (hmap : s.sys.m.nodeMap s.sys.m.id = some p) :
    NotOvertaken s (.piece (.lock s.k env)) ↔
      (s.sys.m.records p).lives < al.lives ∨ (s.sys.m.records p).node.tags = al.tags := by
  constructor
  · intro hno
    exact hno rfl al notify htask p hmap
  · intro hor _ al' notify' htask' p' hmap'
    obtain ⟨rfl, rfl⟩ := Task.entered.inj (Option.some.inj (htask.symm.trans htask'))
    obtain rfl := Option.some.inj (hmap.symm.trans hmap')
    exact hor

/-- A record that has the tags cannot lose them to the call. -/
theorem Updating.notOvertaken (h : Updating tags s) (hseen : s.ownTags = some tags) :
    NotOvertaken s a := by
  unfold NotOvertaken
  split
  next k env =>
    intro _ al notify htask p hmap
    have hcarries := h.carries
    rw [htask] at hcarries
    unfold ownTags at hseen
    rw [lookup_of_map hmap] at hseen
    exact .inr ((Option.some.inj hseen).trans hcarries.2.1.symm)
  next => trivial

/-- The call has the lock. -/
theorem Updating.locked (h : Updating tags s) {k : Nat} {env : Env} {al : Alive}
    {notify : Option Nat} {finished : Bool} (htask : s.sys.tasks k = some (.entered al notify)) :
    Moves tags s (.piece (.lock k env)) { s with
      sys := Sys.setTask k (some (.deferred (s.sys.m.aliveLocked env al notify).2))
        { s.sys with m := (s.sys.m.aliveLocked env al notify).1 }
      finished } := by
  obtain ⟨rfl, hpc⟩ := h.own_task htask
  have hcarries := h.carries
  rw [htask] at hcarries
  obtain ⟨hid, htags, hip, hsome⟩ := hcarries
  -- from here on only what `aliveLocked` did to the record matters
  have hallowed := aliveLocked_allowed env notify h.allowed hip
  have hcase := aliveLocked_case s.sys.m env al notify
  generalize s.sys.m.aliveLocked env al notify = r at hcase hallowed
  refine ⟨⟨h.call, ?_, hcase.left.trans h.left, hallowed, ?_, fun hne => absurd hpc hne⟩,
    .inr ⟨?_, ?_, ?_⟩⟩
  · intro k hk
    exact (Function.update_of_ne hk ..).trans (h.alone k hk)
  · show Carries r.1 tags (Function.update s.sys.tasks s.k _ s.k)
    rw [Function.update_self]
    trivial
  · unfold past
    rw [hpc, htask]
  · unfold past
    dsimp only [Sys.setTask]
    rw [hpc, Function.update_self]
  · cases hcase with
    | joined habs =>
      -- its own record is there, so this is not a join
      rw [hid] at habs
      rw [habs] at hsome
      nomatch hsome
    | stale p hmap hold =>
      rw [hid] at hmap
      -- overtaken: the record keeps its tags, which may be these
      rw [notOvertaken_iff htask hmap, or_iff_right (Nat.not_lt.mpr hold), htags]
      show (s.sys.m.lookup s.sys.m.id).map _ = some tags ↔ _
      rw [lookup_of_map hmap]
      exact Option.some_inj
    | news p hmap hnew =>
      rw [hid] at hmap
      refine iff_of_true ?_ ((notOvertaken_iff htask hmap).mpr (.inl hnew))
      show Option.map _
        (Option.map (Function.update s.sys.m.records p _) (s.sys.m.nodeMap s.sys.m.id)) = _
      rw [hmap, Option.map_some, Function.update_self, Option.map_some, revivedRecord_tags, htags]

variable [Encoded Msg] [Heap H (TransmitCapItem Msg)]

/-- A call that gets its number has its message. -/
theorem tagged_case {k ch : Nat} {sys sys' : Sys H} (hsize : tags.length ≤ tagMaxSize)
    (h : Sys.act (.updateTags k tags ch) sys = some sys') :
    ∃ p, sys.m.nodeMap sys.m.id = some p ∧ sys' = Sys.setTask k
      (some (.called (sys.m.issueAlive (sys.m.records p).node.ip (sys.m.records p).node.port tags).1
        (some ch)))
      { sys with
        m := (sys.m.issueAlive (sys.m.records p).node.ip (sys.m.records p).node.port tags).2 } := by
  dsimp only [Sys.act] at h
  rw [if_neg (Nat.not_lt.mpr hsize)] at h
  split at h
  next p hfree hmap => exact ⟨p, hmap, (Option.some.inj h).symm⟩
  next => nomatch h

/-- The call has its message from the record. -/
theorem Updating.tagged (h : Updating tags s) (hpc : s.pc = .running .starting)
    (hsize : tags.length ≤ tagMaxSize) {sys : Sys H}
    (hact : Sys.act (.updateTags s.k tags s.ch) s.sys = some sys) :
    Moves tags s .start { s with sys, pc := .running .handling } := by
  obtain ⟨p, hmap, rfl⟩ := tagged_case hsize hact
  have hsame : SameInfo s.sys.m
      (s.sys.m.issueAlive (s.sys.m.records p).node.ip (s.sys.m.records p).node.port tags).2 :=
    ⟨rfl, rfl, rfl, fun _ => rfl⟩
  refine ⟨⟨h.call, ?_, h.left, h.allowed.same hsame, ?_, fun hne => absurd rfl hne⟩,
    .inl ⟨?_, ?_, trivial⟩⟩
  · intro k hk
    exact (Function.update_of_ne hk ..).trans (h.alone k hk)
  · refine Carries.same (m := s.sys.m) ?_ hsame
    show Carries s.sys.m tags (Function.update s.sys.tasks s.k _ s.k)
    rw [Function.update_self]
    exact ⟨rfl, rfl, h.allowed _ p hmap, by rw [hmap]; rfl⟩
  · show past _ = s.past
    unfold past
    rw [hpc]
    dsimp only [Sys.setTask]
    rw [Function.update_self]
  · exact ownTags_same (s := s) hsame

/-- A piece of the call, or an accusation. -/
theorem Updating.piece (h : Updating tags s) {b : Action} {sys : Sys H} {finished : Bool}
    (hacc : accuses (.piece b) = true) (hact : Sys.act b s.sys = some sys) :
    Moves tags s (.piece b) { s with sys, finished } := by
  cases Sys.act_case hact with
  | passed k al notify htask hc =>
    obtain ⟨rfl, hpc⟩ := h.own_task htask
    have hcarries := h.carries
    rw [htask] at hcarries
    refine h.moves_task (m := s.sys.m) htask (.refl _) hcarries ?_ trivial
    simp [past, Sys.setTask, hpc, htask]
  | turnedAway k al notify htask hc =>
    -- The message has the address of the record, and the member has not left.
    obtain ⟨rfl, -⟩ := h.own_task htask
    have hcarries := h.carries
    rw [htask] at hcarries
    rw [aliveChecks, h.left, hcarries.2.2.1] at hc
    cases hc
  | locked k env al notify htask => exact h.locked htask
  | broadcast k post htask hb =>
    obtain ⟨rfl, hpc⟩ := h.own_task htask
    refine h.moves_task htask ⟨rfl, rfl, rfl, fun _ => rfl⟩ trivial ?_ trivial
    simp [past, Sys.setTask, hpc, htask]
  | join k post htask hb hj =>
    obtain ⟨rfl, hpc⟩ := h.own_task htask
    refine h.moves_task htask ⟨rfl, rfl, rfl, fun _ => rfl⟩ trivial ?_ trivial
    simp [past, Sys.setTask, hpc, htask]
  | update k post htask hb hj hu =>
    obtain ⟨rfl, hpc⟩ := h.own_task htask
    refine h.moves_task htask ⟨rfl, rfl, rfl, fun _ => rfl⟩ trivial ?_ trivial
    simp [past, Sys.setTask, hpc, htask]
  | returned k post htask hb hj hu =>
    obtain ⟨rfl, hpc⟩ := h.own_task htask
    refine h.moves_task (m := s.sys.m) htask (.refl _) trivial ?_ trivial
    simp [past, Sys.setTask, hpc, htask]
  | suspected env sus m' hm' =>
    exact h.moves (suspectNode_sameInfo hm') (fun _ _ => rfl) h.carries h.idle rfl trivial
  | died env d notify m' hm' =>
    exact h.moves (deadNode_sameInfo hm') (fun _ _ => rfl) h.carries h.idle rfl trivial
  | drained l o z =>
    exact h.moves ⟨rfl, rfl, rfl, fun _ => rfl⟩ (fun _ _ => rfl) h.carries h.idle rfl trivial
  | _ => cases hacc

/-- Among accusations, every action leaves the tags alone or is the one with which the call has
had the lock. -/
theorem act_moves (h : Updating tags s) (hacc : accuses a = true) (ha : act a s = some t)
    (hret : t.pc.isReturned = false) : Moves tags s a t := by
  cases act_case ha with
  | ticked d =>
    exact ⟨⟨h.call, h.alone, h.left, h.allowed, h.carries, h.idle⟩, .inl ⟨rfl, rfl, trivial⟩⟩
  | tagged tags' sys hpc hcall hsize hsys =>
    obtain rfl := BroadcastCall.updateTags.inj (hcall.symm.trans h.call)
    exact h.tagged hpc hsize hsys
  | flagged sys hpc hcall hsys => nomatch hcall.symm.trans h.call
  | proceeded b sys hpermits hsys =>
    obtain ⟨finished, he⟩ := proceed_eq hret
    rw [he]
    exact h.piece hacc hsys
  | peers hpc hhandled =>
    -- it goes on to look for peers only when its `aliveNode` has returned
    have hnone : s.sys.tasks s.k = none := by
      unfold handled at hhandled
      rw [h.call] at hhandled
      dsimp only at hhandled
      split at hhandled
      next hnone => exact hnone
      next => nomatch hhandled
    refine ⟨⟨h.call, h.alone, h.left, h.allowed, h.carries, fun _ => hnone⟩,
      .inl ⟨?_, rfl, trivial⟩⟩
    simp [past, hpc, hnone]
  | selected hpc =>
    refine ⟨⟨h.call, h.alone, h.left, h.allowed, h.carries, fun _ => h.idle ?_⟩,
      .inl ⟨?_, rfl, trivial⟩⟩
    · rw [hpc]
      exact fun he => nomatch he
    · simp [past, hpc]
  | refused hpc => nomatch hret
  | leftAlready hpc hcall => nomatch hret
  | nobody queued hpc hhandled => nomatch hret
  | timedOut d hpc => nomatch hret

/-! ## The whole call -/

/-- An action of a call among accusations that does not return yet. -/
def Regular (tags : Bytes) (s : Await H) (a : AwaitAction) : Prop :=
  Updating tags s ∧ accuses a = true ∧ ∀ t, act a s = some t → t.pc.isReturned = false

/-- A call that has returned has returned. -/
theorem act_returned (h : s.pc.isReturned = true) (ha : act a s = some t) :
    t.pc.isReturned = true := by
  cases hpc : s.pc with
  | running pc =>
    rw [hpc] at h
    nomatch h
  | waiting d =>
    rw [hpc] at h
    nomatch h
  | returned r =>
    cases act_case ha with
    | ticked d => exact h
    | proceeded b sys hpermits hsys =>
      unfold proceed
      split
      · show (s.pc.signal (.ok ())).isReturned = true
        rw [hpc]
        rfl
      · exact h
    | refused hpc' => rfl
    | tagged tags' sys hpc' hcall hsize hsys => nomatch hpc.symm.trans hpc'
    | leftAlready hpc' hcall => rfl
    | flagged sys hpc' hcall hsys => nomatch hpc.symm.trans hpc'
    | peers hpc' hhandled => nomatch hpc.symm.trans hpc'
    | nobody queued hpc' hhandled => rfl
    | selected hpc' => nomatch hpc.symm.trans hpc'
    | timedOut d hpc' => rfl

/-- Up to the end of the call every step is regular. -/
theorem each_regular {u : Await H} : ∀ {as : List AwaitAction} {s : Await H}, Updating tags s →
    (∀ b ∈ as, accuses b = true) → run act as s = some u → u.pc.isReturned = false →
    Each act (Regular tags) as s := by
  intro as
  induction as with
  | nil => intro s _ _ _ _; trivial
  | cons a as ih =>
    intro s h hacc hrun hopen
    obtain ⟨t, ht, hrun'⟩ := run_cons_some hrun
    have hret : t.pc.isReturned = false := Bool.eq_false_iff.mpr fun hr => by
      have hend : u.pc.isReturned = true :=
        run_inv (P := fun v : Await H => v.pc.isReturned = true)
          (fun _ _ _ hv hact => act_returned hv hact) hr hrun'
      exact nomatch hopen.symm.trans hend
    have hreg : ∀ t', act a s = some t' → t'.pc.isReturned = false := by
      intro t' ht'
      rw [ht] at ht'
      exact Option.some.inj ht' ▸ hret
    have ha := hacc a (List.mem_cons_self ..)
    refine each_cons ht ⟨h, ha, hreg⟩ ?_
    exact ih (act_moves h ha ht hret).1 (fun b hb => hacc b (List.mem_cons_of_mem _ hb)) hrun' hopen

/-- From the lock on nothing changes; before it, all depends on whether the call is overtaken
there. -/
theorem run_seen {u : Await H} (hpast : u.past = true) : ∀ {as : List AwaitAction} {s : Await H},
    Each act (Regular tags) as s → run act as s = some u →
    (s.past = true → u.ownTags = s.ownTags ∧ Each act NotOvertaken as s) ∧
    (s.past = false → (u.ownTags = some tags ↔ Each act NotOvertaken as s)) := by
  intro as
  induction as with
  | nil =>
    intro s _ hrun
    obtain rfl := Option.some.inj hrun
    exact ⟨fun _ => ⟨rfl, trivial⟩, fun hno => nomatch hpast.symm.trans hno⟩
  | cons a as ih =>
    intro s hreg hrun
    obtain ⟨t, ht, hrun'⟩ := run_cons_some hrun
    obtain ⟨h, hacc, hopen⟩ := hreg.1
    obtain ⟨ihpast, ihbefore⟩ := ih (hreg.2 t ht) hrun'
    have heach : Each act NotOvertaken (a :: as) s ↔
        NotOvertaken s a ∧ Each act NotOvertaken as t := by
      refine ⟨fun he => ⟨he.1, he.2 t ht⟩, fun he => each_cons ht he.1 he.2⟩
    rw [heach]
    rcases (act_moves h hacc ht (hopen t ht)).2 with ⟨hsame, htags, hno⟩ | ⟨hbefore, hafter, hiff⟩
    · rw [hsame] at ihpast ihbefore
      rw [and_iff_right hno, ← htags]
      exact ⟨ihpast, ihbefore⟩
    · obtain ⟨hkept, hrest⟩ := ihpast hafter
      refine ⟨fun hp => (nomatch hbefore.symm.trans hp), fun _ => ?_⟩
      rw [and_iff_left hrest, hkept]
      exact hiff

theorem past_of_nil {u : Await H} (hcall : u.call = .updateTags tags)
    (hopen : u.pc.isReturned = false)
    (ha : act a u = some t) (hnil : t.pc = .returned (.ok ())) : u.past = true := by
  cases act_case ha with
  | ticked d =>
    have hpc : u.pc = .returned (.ok ()) := hnil
    rw [hpc] at hopen
    nomatch hopen
  | leftAlready hpc hcall' => nomatch hcall.symm.trans hcall'
  | proceeded b sys hpermits hsys =>
    -- Only a call that waits returns because of what others do.
    unfold past
    cases hpc : u.pc with
    | waiting d => rfl
    | returned r => rfl
    | running pc =>
      unfold proceed at hnil
      rw [hpc] at hnil
      split at hnil
      · nomatch hnil
      · nomatch hnil
  | nobody queued hpc hhandled =>
    unfold handled at hhandled
    rw [hcall] at hhandled
    dsimp only at hhandled
    split at hhandled
    next hnone => simp [past, hpc, hnone]
    next => nomatch hhandled
  | _ => nomatch hnil

omit [Encoded Msg] [Heap H (TransmitCapItem Msg)] in
theorem returnedNil_iff : s.returnedNil = true ↔ s.pc = .returned (.ok ()) := by
  unfold returnedNil
  split
  next hpc => exact iff_of_true rfl hpc
  next hne => exact iff_of_false (fun hf => nomatch hf) hne

/-- **When `UpdateTags` is right to return nil.** Take a member in any state it can be in, as
long as it has not left, one `UpdateTags` of any tags, and any interleaving of it with
accusations and with the queue being drained, for any `BroadcastWaitTimeout` and any peers. If
the call returns nil, its own record had the tags at some time between the call and the return
if and only if, when the call took the lock, its number was above the record's or the record
had the tags already. -/
theorem update_seen_iff {m : Memberlist H} (hm : Reachable m) (hleft : m.left = false)
    (clock : Time) (tags : Bytes) (k ch : Nat) {as : List AwaitAction} {a : AwaitAction}
    {u t : Await H} (hacc : ∀ b ∈ as, accuses b = true)
    (hrun : run act as (start (Sys.start m) clock (.updateTags tags) k ch) = some u)
    (hopen : u.pc.isReturned = false) (hret : act a u = some t)
    (hnil : t.pc = .returned (.ok ())) :
    Sometime act (fun v => v.ownTags = some tags) as
        (start (Sys.start m) clock (.updateTags tags) k ch) ↔
      Each act NotOvertaken as (start (Sys.start m) clock (.updateTags tags) k ch) := by
  have hstart : Updating tags (start (Sys.start m) clock (.updateTags tags) k ch) :=
    ⟨rfl, fun _ _ => rfl, hleft, reachable_allowed hm, trivial, fun _ => rfl⟩
  have hreg := each_regular hstart hacc hrun hopen
  have hend : Updating tags u := by
    refine run_inv_each (fun b v w hv hb hw => ?_) hstart hreg hrun
    exact (act_moves hv hb.2.1 hw (hb.2.2 w hw)).1
  have hpast := past_of_nil hend.call hopen hret hnil
  rw [sometime_iff_last ?_ hreg hrun]
  · exact (run_seen hpast hreg hrun).2 rfl
  · intro b v w hb hv hw
    obtain ⟨h, hb', hopen'⟩ := hb
    rcases (act_moves h hb' hw (hopen' w hw)).2 with ⟨-, hsame, -⟩ | ⟨-, -, hiff⟩
    · exact hsame.trans hv
    · exact hiff.mpr (h.notOvertaken hv)

end Await

open Concrete in
/-- An accusation before the call takes its number: the tags are set, and the call was not
overtaken. -/
theorem update_seen_iff_before :
    let as : List AwaitAction := .piece (.suspectNode {} ⟨1, "me", "peer"⟩) :: tagPieces
    let s := Await.start (Sys.start (built "me" (by decide))) 0 (.updateTags [1]) 0 5
    (run Await.act (as ++ [.check]) s).any (fun t => t.returnedNil) = true ∧
    Each Await.act Await.NotOvertaken as s := by
  intro as s
  have hm : Reachable (built "me" (by decide)) := ⟨{}, _, _, [], build_built "me" (by decide), rfl⟩
  have hnil : (run Await.act as s).any
      (fun u => !u.pc.isReturned && (Await.act .check u).any (·.returnedNil)) = true := by decide
  have hseen : Sometime Await.act (fun v => v.ownTags = some [1]) as s := by decide
  obtain ⟨u, hu, hand⟩ := (Option.any_eq_true _ _).mp hnil
  obtain ⟨hopen, hcheck⟩ := Bool.and_eq_true_iff.mp hand
  obtain ⟨t, ht, hret⟩ := (Option.any_eq_true _ _).mp hcheck
  refine ⟨by decide, ?_⟩
  exact (Await.update_seen_iff hm rfl 0 [1] 0 5 (by decide) hu (by simpa using hopen) ht
    (Await.returnedNil_iff.mp hret)).mp hseen

open Concrete in
/-- A suspicion between the number and the lock, in a member without peers: the call returns
nil, and the tags have never been set. -/
theorem update_overtaken :
    let as : List AwaitAction := [.start, .piece (.check 0),
      .piece (.suspectNode {} ⟨1, "me", "peer"⟩), .piece (.lock 0 {}), .piece (.publish 0)]
    let s := Await.start (Sys.start (built "me" (by decide))) 0 (.updateTags [1]) 0 5
    (run Await.act (as ++ [.check]) s).any
      (fun t => t.returnedNil && decide (t.ownTags = some [])) = true ∧
    ¬ Sometime Await.act (fun v => v.ownTags = some [1]) as s := by
  decide

end Mlist
