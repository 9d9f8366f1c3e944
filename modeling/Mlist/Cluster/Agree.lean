import Mlist.Member.Merge
import Mlist.Net.Exchange

/-!
# Two members after an exchange

What a push/pull is for. Each of the two members merges all that the other one knew, and each
had made up its list before it merged. Of a node that is neither of them, a member that merges
hears one message, about the record the other has (`mergeState_touches`), and what that makes
of its own record is `View.hear`. So where one of the two thought that the node is alive, they
agree on it afterwards (`View.hear_agree`). Of two suspects with different `Lives` this is not
so: a suspicion is no news to somebody who has one.
-/

namespace Mlist

open Mlist.Lib

variable {H : Type} {m m' : Memberlist H} {x : String} {r : NodeState}

/-! ## What a member tells -/

/-- The entry of `localState` for a record. -/
def NodeState.toMerge (r : NodeState) : StateToMerge :=
  { lives := r.lives, id := r.node.id, ip := r.node.ip, port := r.node.port, tags := r.node.tags,
    state := r.state.code }

/-- The alive message in the entry for a record. -/
def NodeState.toAlive (r : NodeState) : Alive :=
  { lives := r.lives, id := r.node.id, ip := r.node.ip, port := r.node.port, tags := r.node.tags }

/-- The message `other` makes of the entry for a record. -/
def NodeState.said (other : String) (r : NodeState) : Msg :=
  match r.state with
  | .alive => .alive r.toAlive
  | .left => .dead { lives := r.lives, id := r.node.id, left := true }
  | .dead => .suspect { lives := r.lives, id := r.node.id, sender := other }
  | .suspect => .suspect { lives := r.lives, id := r.node.id, sender := other }

/-- What `mergeState` makes of an entry is what the record has to say. -/
theorem NodeState.toMerge_msg (other : String) (r : NodeState) :
    r.toMerge.msg other = some (r.said other) := by
  unfold StateToMerge.msg NodeState.said NodeState.toMerge
  rw [StateType.ofCode_code]
  cases r.state <;> rfl

theorem NodeState.said_id (other : String) (r : NodeState) : (r.said other).id = r.node.id :=
  (StateToMerge.msg_about (r.toMerge_msg other)).1

/-- The message is one that somebody sends who has this record. -/
theorem NodeState.said_tells (other : String) (r : NodeState) :
    r.view.Tells (r.said other).news := by
  unfold NodeState.said NodeState.view
  cases r.state <;> simp [Msg.news, View.Tells, StateType.standing, NodeState.toAlive]

/-- Only a record that is alive says so; `mergeState` turns a dead one into a suspicion. -/
theorem NodeState.said_alive {other : String} {r : NodeState} {a : Alive} :
    r.said other = .alive a ↔ r.state = .alive ∧ r.toAlive = a := by
  unfold NodeState.said
  cases r.state <;> simp

theorem localState_eq (m : Memberlist H) :
    m.localState = m.nodes.toList.map fun p => (m.records p).toMerge := rfl

/-- The entries of `localState` are the records. -/
theorem mem_localState (hm : Registry m) {e : StateToMerge} :
    e ∈ m.localState ↔ ∃ r, m.lookup e.id = some r ∧ e = r.toMerge := by
  rw [localState_eq, List.mem_map]
  constructor
  · rintro ⟨p, hp, rfl⟩
    exact ⟨m.records p, Memberlist.lookup_of_map ((hm.map _ p).mpr ⟨hp, rfl⟩), rfl⟩
  · rintro ⟨r, hr, he⟩
    obtain ⟨p, hp, rfl⟩ := Memberlist.lookup_eq_some.mp hr
    exact ⟨p, ((hm.map _ p).mp hp).1, he.symm⟩

/-- A member tells of no node twice. -/
theorem localState_ids (hm : Registry m) :
    m.localState.Pairwise fun e e' => e.id ≠ e'.id := by
  have hids := hm.ids
  rw [localState_eq, List.pairwise_map]
  exact List.pairwise_map.mp hids

/-- The clock readings of a merge are put beside the entries and change none of them. -/
theorem timed_snd (env : Nat → Env) (remote : List StateToMerge) :
    (Peer.timed env remote).map Prod.snd = remote := by
  unfold Peer.timed
  rw [List.map_map]
  exact List.zipIdx_map_fst 0 remote

theorem timed_ids (hm : Registry m) (env : Nat → Env) :
    (Peer.timed env m.localState).Pairwise fun er er' => er.2.id ≠ er'.2.id := by
  have hids := localState_ids hm
  rw [← timed_snd env m.localState] at hids
  exact (List.pairwise_map (R := fun e e' : StateToMerge => e.id ≠ e'.id)).mp hids

/-! ## What a merge makes of one node -/

section Merge

variable [Encoded Msg] [Heap H (TransmitCapItem Msg)] {remote : List (Env × StateToMerge)}

/-- Entries about others leave a node alone. -/
theorem mergeState_untouched (hm : Sound m) (hx : ∀ er ∈ remote, x ≠ er.2.id)
    (h : m.mergeState remote = some m') : m'.lookup x = m.lookup x ∧ Sound m' := by
  induction remote generalizing m with
  | nil =>
    cases h
    exact ⟨rfl, hm⟩
  | cons er remote ih =>
    obtain ⟨t, ht, hrest⟩ := run_cons_some h
    have hhead := mergeOne_untouched hm (hx er List.mem_cons_self) ht
    obtain ⟨hlook, hsound⟩ := ih (mergeOne_sound hm ht)
      (fun er' h' => hx er' (List.mem_cons_of_mem er h')) hrest
    exact ⟨hlook.trans hhead.lookup, hsound⟩

/-- **One entry is about the node**, and it is merged as if it were the only one. -/
theorem mergeState_touches (hm : Sound m)
    (hids : remote.Pairwise fun er er' => er.2.id ≠ er'.2.id)
    (h : m.mergeState remote = some m') {er : Env × StateToMerge} (her : er ∈ remote) :
    ∃ t t' : Memberlist H, Sound t ∧ t.config = m.config ∧ t.lookup er.2.id = m.lookup er.2.id ∧
      t.mergeOne er.1 er.2 = some t' ∧ m'.lookup er.2.id = t'.lookup er.2.id := by
  obtain ⟨before, after, rfl⟩ := List.append_of_mem her
  obtain ⟨-, hafter, hbefore⟩ := List.pairwise_append.mp hids
  have hrun : ((m.mergeState before).bind fun t : Memberlist H => t.mergeState (er :: after)) =
      some m' := (run_append _ before (er :: after) m).symm.trans h
  obtain ⟨t, ht, hrest⟩ := Option.bind_eq_some_iff.mp hrun
  obtain ⟨t', ht', hlast⟩ := run_cons_some hrest
  have hfirst := mergeState_untouched (x := er.2.id) hm
    (fun er' h' => (hbefore er' h' er List.mem_cons_self).symm) ht
  have hsecond := mergeState_untouched (x := er.2.id) (mergeOne_sound hfirst.2 ht')
    (fun er' h' => (List.pairwise_cons.mp hafter).1 er' h') hlast
  exact ⟨t, t', hfirst.2, step_config (show step (.merge before) m = some t from ht), hfirst.1,
    ht', hsecond.1⟩

variable {o : Memberlist H} {env : Nat → Env} {s : NodeState}

/-- What the other has no record of stays as it is. -/
theorem mergeState_silent (hm : Sound m) (ho : Registry o) (hs : o.lookup x = none)
    (h : m.mergeState (Peer.timed env o.localState) = some m') : m'.lookup x = m.lookup x := by
  refine (mergeState_untouched hm (fun er her hx => ?_) h).1
  have hmem : er.2 ∈ o.localState := by
    rw [← timed_snd env o.localState]
    exact List.mem_map_of_mem her
  obtain ⟨s, hs', -⟩ := (mem_localState ho).mp hmem
  rw [← hx, hs] at hs'
  cases hs'

/-- The message about the node comes to a state that has the same record of it. -/
theorem mergeState_delivers (hm : Sound m) (ho : Registry o) (hs : o.lookup x = some s)
    (h : m.mergeState (Peer.timed env o.localState) = some m') :
    ∃ (t t' : Memberlist H) (at' : Env), Sound t ∧ t.config = m.config ∧
      t.lookup x = m.lookup x ∧ step (deliver (at', s.said m.id)) t = some t' ∧
      m'.lookup x = t'.lookup x := by
  have hid : s.toMerge.id = x := ho.lookup_id hs
  have hmem : s.toMerge ∈ (Peer.timed env o.localState).map Prod.snd := by
    rw [timed_snd]
    exact (mem_localState ho).mpr ⟨s, hid ▸ hs, rfl⟩
  obtain ⟨er, her, heq⟩ := List.mem_map.mp hmem
  obtain ⟨t, t', ht, hconfig, hlook, hone, hlast⟩ := mergeState_touches hm (timed_ids ho env) h her
  rw [heq, hid] at hlook hlast
  have hself : t.id = m.id := congrArg Config.id hconfig
  have hmsg : er.2.msg t.id = some (s.said m.id) := by
    rw [heq, hself]
    exact s.toMerge_msg m.id
  exact ⟨t, t', er.1, ht, hconfig, hlook, (mergeOne_of_some hmsg).symm.trans hone, hlast⟩

/-- A node both have a record of. -/
theorem mergeState_hears (hm : Sound m) (ho : Registry o) (hx : x ≠ m.id)
    (hr : m.lookup x = some r) (hs : o.lookup x = some s)
    (hip : s.state = .alive → m.ipAllowed s.node.ip = true)
    (h : m.mergeState (Peer.timed env o.localState) = some m') :
    ∃ r', m'.lookup x = some r' ∧ r'.view = r.view.hear (s.said m.id).news := by
  obtain ⟨t, t', at', ht, hconfig, hlook, hstep, hlast⟩ := mergeState_delivers hm ho hs h
  have hself : t.id = m.id := congrArg Config.id hconfig
  have hdeliverable : Deliverable t x (at', s.said m.id).2 := by
    refine ⟨(s.said_id m.id).trans (ho.lookup_id hs), fun a ha => ?_⟩
    obtain ⟨halive, rfl⟩ := NodeState.said_alive.mp ha
    unfold Memberlist.ipAllowed
    rw [hconfig]
    exact hip halive
  obtain ⟨t'', r', hstep', hr', hview⟩ :=
    deliver_hears ht (hself ▸ hx) (hlook.trans hr) hdeliverable
  rw [hstep] at hstep'
  obtain rfl := Option.some.inj hstep'
  exact ⟨r', hlast.trans hr', hview⟩

/-- A node only the other has a record of, if that says it is alive. -/
theorem mergeState_introduces (hm : Sound m) (ho : Registry o) (hx : x ≠ m.id)
    (hr : m.lookup x = none) (hs : o.lookup x = some s) (halive : s.state = .alive)
    (hip : m.ipAllowed s.node.ip = true)
    (h : m.mergeState (Peer.timed env o.localState) = some m') :
    ∃ r', m'.lookup x = some r' ∧ r'.view = s.view := by
  obtain ⟨t, t', at', ht, hconfig, hlook, hstep, hlast⟩ := mergeState_delivers hm ho hs h
  have hid : s.toAlive.id = x := ho.lookup_id hs
  have hself : t.id = m.id := congrArg Config.id hconfig
  -- the entry is let in
  have hchecks : t.aliveChecks s.toAlive = true := by
    have hne : (s.toAlive.id == t.id) = false := by
      rw [hid]
      exact beq_eq_false_iff_ne.mpr (hself ▸ hx)
    have hallowed : t.ipAllowed s.toAlive.ip = true := by
      unfold Memberlist.ipAllowed
      rw [hconfig]
      exact hip
    unfold Memberlist.aliveChecks
    rw [hne, hallowed, Bool.and_false]
    rfl
  rw [NodeState.said_alive.mpr ⟨halive, rfl⟩] at hstep
  obtain rfl : t.aliveNode at' s.toAlive none = t' := Option.some.inj hstep
  have hcase := aliveLocked_case t at' s.toAlive none
  unfold Memberlist.aliveNode at hlast
  rw [if_pos hchecks, lookup_alivePublish] at hlast
  generalize t.aliveLocked at' s.toAlive none = res at hcase hlast
  -- and is the first to be heard of the node
  have hunknown : ∀ {p : Nat}, t.nodeMap s.toAlive.id ≠ some p := by
    intro p hmap
    rw [hid] at hmap
    rw [hr, Memberlist.lookup_of_map hmap] at hlook
    cases hlook
  cases hcase with
  | joined habs =>
    have hlook := ht.registry.lookup_insertNode at' (Memberlist.freshRecord at' s.toAlive) x
    refine ⟨_, hlast.trans (hlook.trans (if_pos hid.symm)), ?_⟩
    unfold NodeState.view
    rw [halive]
    rfl
  | stale p hmap _ => exact absurd hmap hunknown
  | news p hmap _ => exact absurd hmap hunknown

/-! ## Agreement -/

/-- The two have records of the node with the same `Lives`, and if one says that it is alive so
does the other. -/
def AgreeOn (x : String) (m₁ m₂ : Memberlist H) : Prop :=
  ∃ r₁ r₂, m₁.lookup x = some r₁ ∧ m₂.lookup x = some r₂ ∧ r₁.lives = r₂.lives ∧
    (r₁.state = .alive ↔ r₂.state = .alive)

omit [Encoded Msg] [Heap H (TransmitCapItem Msg)] in
/-- Agreement does not depend on who is asked first. -/
theorem AgreeOn.symm {m₁ m₂ : Memberlist H} (h : AgreeOn x m₁ m₂) : AgreeOn x m₂ m₁ := by
  obtain ⟨r₁, r₂, h₁, h₂, hlives, hstate⟩ := h
  exact ⟨r₂, r₁, h₂, h₁, hlives.symm, hstate.symm⟩

/-- Nobody's address for the node is turned away by the other. -/
def Admitted (x : String) (m₁ m₂ : Memberlist H) : Prop :=
  (∀ r, m₁.lookup x = some r → m₂.ipAllowed r.node.ip = true) ∧
    ∀ r, m₂.lookup x = some r → m₁.ipAllowed r.node.ip = true

/-- Who is told that a node is alive has a record of it, and one that is not older. -/
theorem mergeState_informs (hm : Sound m) (ho : Registry o) (hx : x ≠ m.id)
    (hs : o.lookup x = some s) (halive : s.state = .alive) (hip : m.ipAllowed s.node.ip = true)
    (h : m.mergeState (Peer.timed env o.localState) = some m') :
    ∃ r', m'.lookup x = some r' ∧ s.lives ≤ r'.lives := by
  cases hr : m.lookup x with
  | none =>
    obtain ⟨r', hr', hview⟩ := mergeState_introduces hm ho hx hr hs halive hip h
    exact ⟨r', hr', Nat.le_of_eq (congrArg View.lives hview).symm⟩
  | some r =>
    obtain ⟨r', hr', hview⟩ := mergeState_hears hm ho hx hr hs (fun _ => hip) h
    refine ⟨r', hr', ?_⟩
    rw [NodeState.said_alive.mpr ⟨halive, rfl⟩] at hview
    have hle := View.lives_le_hear_alive r.view s.lives
    exact Nat.le_trans hle (Nat.le_of_eq (congrArg View.lives hview).symm)

/-- **Two members that merged each other's states agree** on a node that one of them thought to
be alive. -/
theorem merged_agree {m₁ m₂ m₁' m₂' : Memberlist H} {env₁ env₂ : Nat → Env} (h₁ : Sound m₁)
    (h₂ : Sound m₂) (hx₁ : x ≠ m₁.id) (hx₂ : x ≠ m₂.id) (hs : m₂.lookup x = some s)
    (halive : s.state = .alive) (hadm : Admitted x m₁ m₂)
    (hmerge₁ : m₁.mergeState (Peer.timed env₁ m₂.localState) = some m₁')
    (hmerge₂ : m₂.mergeState (Peer.timed env₂ m₁.localState) = some m₂') :
    AgreeOn x m₁' m₂' := by
  cases hr : m₁.lookup x with
  | none =>
    obtain ⟨r', hr', hview⟩ := mergeState_introduces h₁ h₂.registry hx₁ hr hs halive
      (hadm.2 s hs) hmerge₁
    have hsame := (mergeState_silent h₂ h₁.registry hr hmerge₂).trans hs
    refine ⟨r', s, hr', hsame, congrArg View.lives hview, ?_⟩
    rw [← NodeState.standing_alive, hview, NodeState.standing_alive]
  | some r =>
    obtain ⟨r', hr', hview⟩ := mergeState_hears h₁ h₂.registry hx₁ hr hs
      (fun _ => hadm.2 s hs) hmerge₁
    obtain ⟨s', hs', hview'⟩ := mergeState_hears h₂ h₁.registry hx₂ hs hr
      (fun _ => hadm.1 r hr) hmerge₂
    obtain ⟨hlives, hstanding⟩ := View.hear_agree (r.said_tells m₂.id)
      (NodeState.standing_alive.mpr halive)
    rw [NodeState.said_alive.mpr ⟨halive, rfl⟩] at hview
    have hview : r'.view = r.view.hear (.alive s.view.lives) := hview
    rw [← hview, ← hview'] at hlives hstanding
    exact ⟨r', s', hr', hs', hlives,
      NodeState.standing_alive.symm.trans (hstanding.trans NodeState.standing_alive)⟩

/-- Whatever `o` thought alive, the member has a record of that is not older. -/
def Informed (m o m' : Memberlist H) : Prop :=
  ∀ x s, o.lookup x = some s → s.state = .alive → x ≠ m.id → m.ipAllowed s.node.ip = true →
    ∃ r, m'.lookup x = some r ∧ s.lives ≤ r.lives

/-- A merge returns if it is told no `Lives` that a refutation could not get above. -/
theorem merge_returns (p : Peer H) (env : Nat → Env) (remote : List StateToMerge × Bytes)
    (h : ∀ e ∈ remote.1, e.lives < 2 ^ 32 - 1) :
    ∃ p', p.merge env remote = some p' ∧
      p.m.mergeState (Peer.timed env remote.1) = some p'.m := by
  have hlives : ∀ er ∈ Peer.timed env remote.1, er.2.lives < 2 ^ 32 - 1 := by
    intro er her
    refine h er.2 ?_
    rw [← timed_snd env remote.1]
    exact List.mem_map_of_mem her
  obtain ⟨m', hm'⟩ := run_returns (Q := fun er => er.2.lives < 2 ^ 32 - 1)
    (fun er s h => mergeOne_returns s er.1 h) (Peer.timed env remote.1) p.m hlives
  have hm' : p.m.mergeState (Peer.timed env remote.1) = some m' := hm'
  unfold Peer.merge
  rw [hm']
  exact ⟨_, rfl, rfl⟩

end Merge

/-! ## The two ends of a connection -/

namespace Concrete

/-- Two members without keys. Both have heard that `"c"` is alive, and the second suspects
it. -/
def meetEndpoint : Endpoint := { sampleReceiver with keyring := none }

/-- The third node, which both have heard of. -/
def meetC : Alive := { lives := 5, id := "c", ip := [127, 0, 0, 3], port := 7946, tags := [] }

/-- What the second member has been told. -/
def meetOps : List Op :=
  [.alive {} meetC none, .suspect {} { lives := 5, id := "c", sender := "d" }]

/-- The first member: it thinks the third node alive. -/
def meetA : Member := (built "a" a_ne).aliveNode {} meetC none

theorem meetOps_isSome : (run step meetOps (built "b" b_ne)).isSome = true := by decide +kernel

/-- The second member: it suspects the third node. -/
def meetB : Member := (run step meetOps (built "b" b_ne)).get meetOps_isSome

theorem reachable_meetA : Reachable meetA :=
  ⟨{}, configOf "a" a_ne, built "a" a_ne, [.alive {} meetC none], build_built "a" a_ne, rfl⟩

theorem reachable_meetB : Reachable meetB :=
  ⟨{}, configOf "b" b_ne, built "b" b_ne, meetOps, build_built "b" b_ne,
    (Option.some_get meetOps_isSome).symm⟩

/-- Either of them at its end of the connection. -/
def meetPeer (m : Member) : Peer (List (TransmitCapItem Msg)) where
  m
  e := meetEndpoint
  maxPushPulls := 10
  usrState := none
  usrMerged := []

/-- Packages whose codecs know all that the two tell each other. -/
def meetPackages : StreamPackages :=
  { peerPackages with
    header := tableCodec [⟨2, 0⟩]
    state := tableCodec (meetA.localState ++ meetB.localState) }

/-- Without a key, a short message can be sent. -/
theorem meetPackages_sendable {msg : Bytes} (h : msg.length < 256) :
    Endpoint.Sendable meetPackages.toPackages meetEndpoint sampleNonce meetEndpoint.label msg where
  compresses := peerPackages_compressesAt h
  size := fun h => absurd h (by decide)
  seals := fun h => absurd h (by decide)

theorem meetA_stateSendable : (meetPeer meetA).StateSendable meetPackages sampleNonce where
  nodes := by decide
  user := by decide
  header := tableCodec_roundTripsAt (by decide) (by decide)
  states := fun _ h => tableCodec_roundTripsAt (List.mem_append_left _ h) (by decide +kernel)
  sendable := by
    intro msg h
    obtain rfl : [7, 0, 0, 1] = msg := Except.ok.inj h
    exact meetPackages_sendable (by decide)

theorem meetB_stateSendable : (meetPeer meetB).StateSendable meetPackages sampleNonce where
  nodes := by decide
  user := by decide
  header := tableCodec_roundTripsAt (by decide) (by decide)
  states := fun _ h => tableCodec_roundTripsAt (List.mem_append_right _ h) (by decide +kernel)
  sendable := by
    intro msg h
    obtain rfl : [7, 0, 2, 3] = msg := Except.ok.inj h
    exact meetPackages_sendable (by decide)

theorem meetB_canRefuse : (meetPeer meetB).CanRefuse meetPackages sampleNonce := by
  intro err h
  refine ⟨tableCodec_roundTripsAt h (by decide), fun msg hm => ?_⟩
  obtain rfl : [MsgType.err.code, UInt8.ofNat (Endpoint.refusals.idxOf err)] = msg :=
    Except.ok.inj hm
  exact meetPackages_sendable (Nat.lt_of_sub_eq_succ rfl)

end Concrete

namespace Peer

section

variable [Encoded Msg] [Heap H (TransmitCapItem Msg)] {pk : StreamPackages} {p q : Peer H}
  {nonce nonce' : Nonce} {write write' : ConnWrite}

/-- **An exchange makes the two agree.** Take two members in any states they can be in that
understand each other. If the network does its part, and the one that is dialled is not at its
limit, both merge: each has records of all that the other thought alive, none of them older,
and on a third node that one of them thought alive they have the same `Lives` and both say that
it is alive, or neither does. -/
theorem exchange_converges (hp : Reachable p.m) (hq : Reachable q.m)
    (hsend : p.StateSendable pk nonce) (hsend' : q.StateSendable pk nonce')
    (href : q.CanRefuse pk nonce') (hw : Whole write) (hw' : Whole write')
    (hto : p.e.Understands q.e) (hback : q.e.Understands p.e) (nPP : UInt32)
    (hlimit : nPP < PushPullSys.limit q.maxPushPulls)
    (hlives : ∀ e ∈ p.m.localState ++ q.m.localState, e.lives < 2 ^ 32 - 1)
    (stop stop' remoteAddr : String) (env env' : Nat → Env) :
    ∃ request served p' q',
      p.sendLocalState pk nonce write = .ok (request, .ok ()) ∧
      q.handleTcpConn pk nonce' write' nPP ⟨request, stop⟩ = .ok served ∧
      served.remote.bind (fun remote => q.merge env' remote) = some q' ∧
      p.pushPullWithNode pk nonce (.ok (q.connTo pk nonce' write' nPP stop stop' remoteAddr write))
        env = some (.ok p') ∧
      Informed p.m q.m p'.m ∧ Informed q.m p.m q'.m ∧
      ∀ x, x ≠ p.m.id → x ≠ q.m.id → Admitted x p.m q.m →
        (∃ s, (p.m.lookup x = some s ∨ q.m.lookup x = some s) ∧ s.state = .alive) →
          AgreeOn x p'.m q'.m := by
  obtain ⟨request, hrequest, hcarries⟩ := sendLocalState_carries hw hsend
  have hrequest' : p.sendLocalState pk nonce
      (q.connTo pk nonce' write' nPP stop stop' remoteAddr write).write = .ok (request, .ok ()) :=
    hrequest
  -- of the three answers two are ruled out
  rcases handleTcpConn_request nPP stop hw' hsend' href hcarries with
    ⟨hnot, -⟩ | ⟨-, hfull, -⟩ | ⟨-, -, d, hserved, hreply⟩
  · exact absurd hto hnot
  · exact absurd hlimit hfull
  · have hreceived := (receive_state hrequest' (connTo_answer hserved) hreply).1 hback
    obtain ⟨p', hp', hmp⟩ := merge_returns p env q.told
      (fun e he => hlives e (List.mem_append_right _ he))
    obtain ⟨q', hq', hmq⟩ := merge_returns q env' p.told
      (fun e he => hlives e (List.mem_append_left _ he))
    -- each merges what the other had before the exchange
    have hsp := reachable_sound hp
    have hsq := reachable_sound hq
    refine ⟨request, _, p', q', hrequest, hserved, hq', ?_, ?_, ?_, ?_⟩
    · unfold pushPullWithNode
      rw [hreceived]
      exact congrArg (Option.map Except.ok) hp'
    · exact fun x s hs halive hx hip => mergeState_informs hsp hsq.registry hx hs halive hip hmp
    · exact fun x s hs halive hx hip => mergeState_informs hsq hsp.registry hx hs halive hip hmq
    · rintro x hxp hxq hadm ⟨s, hs | hs, halive⟩
      · exact (merged_agree hsq hsp hxq hxp hs halive ⟨hadm.2, hadm.1⟩ hmq hmp).symm
      · exact merged_agree hsp hsq hxp hxq hs halive hadm hmp hmq

end

open scoped Concrete in
/-- One thinks that `"c"` is alive, the other suspects it: afterwards both have it with the same
`Lives`. -/
theorem exchange_converges_meet :
    ∃ request served p' q',
      (Concrete.meetPeer Concrete.meetA).sendLocalState Concrete.meetPackages sampleNonce
        Concrete.writeAll = .ok (request, .ok ()) ∧
      (Concrete.meetPeer Concrete.meetB).handleTcpConn Concrete.meetPackages sampleNonce
        Concrete.writeAll 1 ⟨request, eof⟩ = .ok served ∧
      served.remote.bind (fun remote =>
        (Concrete.meetPeer Concrete.meetB).merge (fun _ => {}) remote) = some q' ∧
      (Concrete.meetPeer Concrete.meetA).pushPullWithNode Concrete.meetPackages sampleNonce
        (.ok ((Concrete.meetPeer Concrete.meetB).connTo Concrete.meetPackages sampleNonce
          Concrete.writeAll 1 eof eof "b" Concrete.writeAll)) (fun _ => {}) = some (.ok p') ∧
      AgreeOn "c" p'.m q'.m := by
  obtain ⟨request, served, p', q', hsent, hserved, hq', hp', -, -, hagree⟩ :=
    exchange_converges (p := Concrete.meetPeer Concrete.meetA)
      (q := Concrete.meetPeer Concrete.meetB) Concrete.reachable_meetA Concrete.reachable_meetB
      Concrete.meetA_stateSendable Concrete.meetB_stateSendable Concrete.meetB_canRefuse
      Concrete.writeAll_whole Concrete.writeAll_whole (.inl ⟨by decide, by decide⟩)
      (.inl ⟨by decide, by decide⟩) 1 (by decide) (by decide +kernel) eof eof "b"
      (fun _ => {}) (fun _ => {})
  refine ⟨request, served, p', q', hsent, hserved, hq', hp', ?_⟩
  refine hagree "c" (by decide) (by decide) ⟨fun _ _ => rfl, fun _ _ => rfl⟩ ?_
  exact ⟨_, .inl rfl, rfl⟩

end Peer

end Mlist
