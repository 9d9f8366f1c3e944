import Mlist.Cluster.Detect
import Mlist.Model.Concrete

/-!
# A ping succeeds only if its target answers

As long as no counter of sequence numbers has gone round, and packets arrive where they are
addressed to, a number leads back to one call of one member (`same_call`). So an ack is an
answer to the call that takes it for one. A `Ping` that returns true has been answered by its
target (`ping_answered`), and an `IndirectPing` by way of somebody whom the target has
answered (`indirectPing_answered`).

Therefore a member that has fallen silent is not taken for alive: of the pings that begin
afterwards, direct or by way of others, none succeeds, whatever old packets are still about
(`silent_not_confirmed`).
-/

namespace Mlist

open Mlist.Lib

variable {ι : Type} {net : Net ι}

/-- The member a packet arrives at. -/
def DetectAction.arrivesAt (net : Net ι) : DetectAction ι → Option ι
  | .receive pkt _ _ => net.route pkt.dst
  | _ => none

namespace Detect

variable [DecidableEq ι] {s t : Detect ι} {info : CallInfo ι} {i : ι} {c : Nat} {payload : Bytes}

/-! ## One number, one call -/

/-- Packets for the address a member advertises, or for the one it sends from, arrive at the
member. -/
structure Routed (net : Net ι) (s : Detect ι) : Prop where
  advertised : ∀ i addr, (s.member i).advertised = some addr → net.route addr = some i
  sock : ∀ i, net.route (net.sock i) = some i

/-- No counter has gone round. -/
def Unwrapped (s : Detect ι) : Prop := ∀ i, (s.member i).seqCalls < 2 ^ 32

omit [DecidableEq ι] in
/-- An answer to a call comes back to who made the call. -/
theorem route_returnAddr (hs : Inv net s) (hnet : Routed net s) (hc : s.Has c info)
    (hno : info.no ≠ 0) : net.route (returnAddr net info) = some info.owner := by
  unfold returnAddr replyAddr
  split
  next => exact hnet.advertised info.owner info.source (hs.numbered hc hno).1
  next => exact hnet.sock info.owner

omit [DecidableEq ι] in
/-- A member has one call with a number. -/
theorem same_call {c' : Nat} {info' : CallInfo ι} (hs : Inv net s) (hwrap : s.Unwrapped)
    (hc : s.Has c info) (hc' : s.Has c' info') (hno : info.no ≠ 0) (hno' : info'.no ≠ 0)
    (howner : info.owner = info'.owner) (hseq : info.seqNo = info'.seqNo) : c = c' := by
  have hle := (hs.numbered hc hno).2
  have hle' := (hs.numbered hc' hno').2
  have hlt := hwrap info.owner
  rw [← howner] at hle'
  have hnat := congrArg UInt32.toNat hseq
  unfold CallInfo.seqNo at hnat
  rw [UInt32.toNat_ofNat', UInt32.toNat_ofNat'] at hnat
  exact hs.unique hc hc' howner (by omega) hno

omit [DecidableEq ι] in
/-- The call an answer is to is the one of its number at the member it is sent to. -/
theorem answer_call {c' : Nat} {info' : CallInfo ι} {a : Answer ι} (hs : Inv net s)
    (hnet : Routed net s) (hwrap : s.Unwrapped) (hc : s.Has c info) (hno : info.no ≠ 0)
    (hc' : s.Has c' info') (hno' : info'.no ≠ 0) (hping : a.ping = info'.ping)
    (hsender : a.sender = net.sock info'.owner) (hseq : a.ping.seqNo = info.seqNo)
    (hroute : net.route a.dst = some info.owner) : c' = c := by
  have hdst : a.dst = returnAddr net info' := by
    unfold Answer.dst returnAddr
    rw [hping, hsender]
    rfl
  rw [hdst, route_returnAddr hs hnet hc' hno'] at hroute
  rw [hping] at hseq
  exact same_call hs hwrap hc' hc hno' hno (Option.some.inj hroute) hseq

omit [DecidableEq ι] in
/-- The member a relay reports to has one call with the number it reports under. -/
theorem asked_call {c₁ : Nat} {info₁ : CallInfo ι} (hs : Inv net s)
    (hnet : Routed net s) (hwrap : s.Unwrapped) (hc : s.Has c info) (hno : info.no ≠ 0)
    (hc₁ : s.Has c₁ info₁) (hno₁ : info₁.no ≠ 0) {addr : UDPAddr} (hseq : info₁.seqNo = info.seqNo)
    (haddr : addr = returnAddr net info₁) (hroute : net.route addr = some info.owner) : c₁ = c := by
  rw [haddr, route_returnAddr hs hnet hc₁ hno₁] at hroute
  exact same_call hs hwrap hc₁ hc hno₁ hno (Option.some.inj hroute) hseq

/-! ## Three members -/

omit [DecidableEq ι] in
/-- Routes stay right, as the addresses that members advertise do not change. -/
theorem Grows.routed (hg : Grows s t) (h : Routed net s) : Routed net t := by
  refine ⟨?_, h.sock⟩
  intro i addr haddr
  refine h.advertised i addr ?_
  unfold Pinger.advertised at haddr ⊢
  rw [hg.config] at haddr
  exact haddr

end Detect

namespace Concrete

/-- Three members, each with an address of its own. -/
def trioConfig : Fin 3 → Config
  | 0 => { configOf "a" a_ne with advertiseAddr := some [10, 0, 0, 1] }
  | 1 => { configOf "b" b_ne with advertiseAddr := some [10, 0, 0, 2] }
  | 2 => { configOf "c" c_ne with advertiseAddr := some [10, 0, 0, 3] }

def trioAddr : Fin 3 → UDPAddr
  | 0 => ⟨[10, 0, 0, 1], 7946⟩
  | 1 => ⟨[10, 0, 0, 2], 7946⟩
  | 2 => ⟨[10, 0, 0, 3], 7946⟩

/-- Packets for an address go to the member that advertises it. -/
def trioNet : Net (Fin 3) where
  route addr := (List.finRange 3).find? fun i => trioAddr i == addr
  sock := trioAddr

/-- The node that is pinged, as the others know it. -/
def nodeB : Node := { id := "b", ip := [10, 0, 0, 2], port := 7946, tags := [] }

/-- The trio after these actions. -/
def trio (acts : List (DetectAction (Fin 3))) : Option (Detect (Fin 3)) :=
  run (Detect.act trioNet) acts (Detect.start trioConfig)

theorem trio_start_routed : Detect.Routed trioNet (Detect.start trioConfig) := by
  refine ⟨?_, by decide⟩
  intro i addr h
  match i, h with
  | 0, h => exact Option.some.inj h ▸ rfl
  | 1, h => exact Option.some.inj h ▸ rfl
  | 2, h => exact Option.some.inj h ▸ rfl

/-- Routes are right after any run. -/
theorem trio_routed {acts : List (DetectAction (Fin 3))} {s : Detect (Fin 3)}
    (h : trio acts = some s) : Detect.Routed trioNet s :=
  (Detect.run_good (Detect.inv_start trioConfig) h).grows.routed trio_start_routed

theorem trio_reachable {acts : List (DetectAction (Fin 3))} {s : Detect (Fin 3)}
    (h : trio acts = some s) : Detect.Reachable trioNet s := ⟨trioConfig, acts, h⟩

/-- `"a"` pings `"b"` and is answered. -/
def pingB : List (DetectAction (Fin 3)) :=
  [.ping 0 0 nodeB, .register 0, .send 0 true, .select 0,
    .receive ⟨trioAddr 1, trioAddr 0, .ping ⟨1, "b", [10, 0, 0, 1], 7946⟩⟩ 1 [7],
    .receive ⟨trioAddr 0, trioAddr 1, .ack ⟨1, [7]⟩⟩ 1 [],
    .deliver 0 (0, [7])]

/-- `"a"` asks `"c"` to ping `"b"`, and is told that it answers. -/
def pingBThroughC : List (DetectAction (Fin 3)) :=
  [.indirectPing 0 0 nodeB [trioAddr 2], .register 0, .send 0 true, .select 0,
    .receive ⟨trioAddr 2, trioAddr 0,
      .indirectPing ⟨1, "b", [10, 0, 0, 2], 7946, [10, 0, 0, 1], 7946⟩⟩ 1 [],
    .register 1, .send 1 true, .select 1,
    .receive ⟨trioAddr 1, trioAddr 2, .ping ⟨1, "b", [10, 0, 0, 3], 7946⟩⟩ 2 [7],
    .receive ⟨trioAddr 2, trioAddr 1, .ack ⟨1, [7]⟩⟩ 2 [],
    .deliver 2 (1, [7]), .tell 1,
    .receive ⟨trioAddr 0, trioAddr 2, .indirectAck ⟨1, true⟩⟩ 2 []]

/-- `"a"` pings `"b"` and is not answered. -/
def pingBInVain : List (DetectAction (Fin 3)) :=
  [.ping 0 0 nodeB, .register 0, .send 0 true, .select 0, .timeout 0]

theorem pingB_isSome : (trio pingB).isSome = true := by decide +kernel

theorem pingBThroughC_isSome : (trio pingBThroughC).isSome = true := by decide +kernel

theorem pingBInVain_isSome : (trio pingBInVain).isSome = true := by decide +kernel

/-- The ping of `b` has returned true. -/
def bAnswered : Detect (Fin 3) := (trio pingB).get pingB_isSome

/-- `c` has pinged `b` for `a`, and `a` has heard so. -/
def bAnsweredC : Detect (Fin 3) := (trio pingBThroughC).get pingBThroughC_isSome

/-- The ping of `b` has run out of time. -/
def bSilent : Detect (Fin 3) := (trio pingBInVain).get pingBInVain_isSome

theorem trio_bAnswered : trio pingB = some bAnswered := (Option.some_get pingB_isSome).symm

theorem trio_bAnsweredC : trio pingBThroughC = some bAnsweredC :=
  (Option.some_get pingBThroughC_isSome).symm

theorem trio_bSilent : trio pingBInVain = some bSilent := (Option.some_get pingBInVain_isSome).symm

/-- A ping of `"b"` by `"a"`, its first call. -/
def infoB (kind : PingKind) (dests : List UDPAddr) : CallInfo (Fin 3) :=
  { owner := 0, kind, node := nodeB, no := 1, source := trioAddr 0, dests, relay := none }

end Concrete

namespace Detect

variable [DecidableEq ι] {s t : Detect ι} {info : CallInfo ι} {i : ι} {c : Nat} {payload : Bytes}

/-! ## Who has answered -/

/-- The target of a ping has answered this very ping, with this payload. -/
def Answered (s : Detect ι) (info : CallInfo ι) (payload : Bytes) : Prop :=
  ∃ a ∈ s.answers, a.ping = info.ping ∧ a.payload = payload ∧
    (info.node.id ≠ "" → (s.member a.answerer).id = info.node.id)

omit [DecidableEq ι] in
/-- An ack that the owner of a call has heard, under the number of the call, is the target's
answer to what the call has sent: with counters that have not gone round no other call has had
this number. -/
theorem Heard.answered (hs : Inv net s) (hnet : Routed net s) (hwrap : s.Unwrapped)
    (hc : s.Has c info) (hno : info.no ≠ 0) (h : Heard net s info payload) :
    s.Answered info payload := by
  obtain ⟨a, ha, hseq, hroute, hpayload⟩ := h
  obtain ⟨hid, info', ⟨-, hno', c', hc'⟩, hping, hsender⟩ := hs.answers a ha
  obtain rfl := answer_call hs hnet hwrap hc hno hc' hno' hping hsender hseq hroute
  obtain rfl := has_unique hc hc'
  refine ⟨a, ha, hping, hpayload, ?_⟩
  intro hne
  rw [hping] at hid
  exact (hid hne).symm

/-- A `Ping` that returns true has been answered: its target has handled the very message the
call sent, and the payload that is handed on is the target's. -/
theorem ping_answered (h : Reachable net s) (hnet : Routed net s) (hwrap : s.Unwrapped)
    (hkind : info.kind = .direct) (hc : s.calls c = some ⟨info, .returned true payload⟩) :
    s.Answered info payload := by
  have hs := reachable_inv h
  obtain ⟨hno, hearned⟩ := hs.returned hc
  rw [hkind] at hearned
  exact Heard.answered hs hnet hwrap ⟨_, hc⟩ hno hearned

theorem ping_answered_bAnswered :
    Concrete.bAnswered.Answered (Concrete.infoB .direct [Concrete.trioAddr 1]) [7] :=
  ping_answered (c := 0) (Concrete.trio_reachable Concrete.trio_bAnswered)
    (Concrete.trio_routed Concrete.trio_bAnswered) (by unfold Unwrapped; decide +kernel) rfl
    (by decide +kernel)

/-- An `IndirectPing` succeeds only if somebody has pinged its target for it, and the target
has answered that ping. -/
theorem indirectPing_answered (h : Reachable net s) (hnet : Routed net s) (hwrap : s.Unwrapped)
    (hkind : info.kind = .indirect) (hc : s.calls c = some ⟨info, .returned true payload⟩) :
    ∃ c' info' payload', s.Has c' info' ∧ info'.kind = .direct ∧
      info'.relay = some (returnAddr net info, info.seqNo) ∧ info'.node.id = info.node.id ∧
      s.Answered info' payload' := by
  have hs := reachable_inv h
  obtain ⟨hno, hearned⟩ := hs.returned hc
  rw [hkind] at hearned
  obtain ⟨c', info', addr, payload', hc', hkind', hno', hrelay, hroute, hheard⟩ := hearned
  obtain ⟨-, info₁, ⟨-, hno₁, c₁, hc₁⟩, hseq, haddr, hid⟩ := hs.relays hc' addr info.seqNo hrelay
  obtain rfl := asked_call hs hnet hwrap ⟨_, hc⟩ hno hc₁ hno₁ hseq haddr hroute
  obtain rfl := has_unique hc₁ ⟨_, hc⟩
  exact ⟨c', info', payload', hc', hkind', haddr ▸ hrelay, hid,
    hheard.answered hs hnet hwrap hc' hno'⟩

theorem indirectPing_answered_bAnsweredC :
    ∃ c info payload, Concrete.bAnsweredC.Has c info ∧ info.kind = .direct ∧
      info.relay = some (Concrete.trioAddr 0, 1) ∧ info.node.id = "b" ∧
      Concrete.bAnsweredC.Answered info payload :=
  have hc : Concrete.bAnsweredC.calls 0 =
      some ⟨Concrete.infoB .indirect [Concrete.trioAddr 2], .returned true []⟩ := by decide +kernel
  indirectPing_answered (Concrete.trio_reachable Concrete.trio_bAnsweredC)
    (Concrete.trio_routed Concrete.trio_bAnsweredC) (by unfold Unwrapped; decide +kernel) rfl hc

/-! ## A member that has fallen silent -/

omit [DecidableEq ι] in
/-- Handing a result to a call is no answer to a ping. -/
theorem signal_answers (c : Nat) (payload : Bytes) (s : Detect ι) :
    (s.signal c payload).answers = s.answers := by
  unfold signal
  split
  next => rfl
  next => rfl

/-- Neither is beginning a call. -/
theorem startCall_answers {kind : PingKind} {node : Node} {dests : List UDPAddr}
    {relay : Option (UDPAddr × UInt32)} (h : s.startCall i c kind node dests relay = some t) :
    t.answers = s.answers := by
  unfold startCall at h
  split at h
  next => cases h
  next =>
    dsimp only at h
    split at h
    next =>
      cases h
      rfl
    next =>
      split at h
      next =>
        cases h
        rfl
      next =>
        cases h
        rfl

/-- A packet that is handled adds answers of the member that handles it, and no other ones. -/
theorem handle_answers {pkt : PingPacket} (h : s.handle net i pkt c payload = some t) {a : Answer ι}
    (ha : a ∈ t.answers) : a ∈ s.answers ∨ a.answerer = i := by
  unfold handle at h
  split at h
  next p =>
    cases h
    unfold handlePing at ha
    split at ha
    next => exact .inl ha
    next =>
      rcases List.mem_append.mp ha with ha | ha
      · exact .inl ha
      · exact .inr (congrArg Answer.answerer (List.mem_singleton.mp ha))
  next p =>
    cases h
    unfold handleAck at ha
    dsimp only at ha
    split at ha
    next => exact .inl ha
    next => exact .inl ha
  next p => exact .inl (startCall_answers h ▸ ha)
  next p =>
    cases h
    unfold handleIndirectAck at ha
    dsimp only at ha
    split at ha
    next => exact .inl ha
    next =>
      split at ha
      next => exact .inl ha
      next =>
        rw [signal_answers] at ha
        exact .inl ha

/-- Only a member that receives something answers. -/
theorem act_answers {x : DetectAction ι} (h : act net x s = some t) {a : Answer ι}
    (ha : a ∈ t.answers) : a ∈ s.answers ∨ x.arrivesAt net = some a.answerer := by
  cases act_case h with
  | ping h => exact .inl (startCall_answers h ▸ ha)
  | indirectPing h => exact .inl (startCall_answers h ▸ ha)
  | received hpkt hroute h =>
    rcases handle_answers h ha with ha | ha
    · exact .inl ha
    · exact .inr (ha ▸ hroute)
  | delivered hh =>
    rw [signal_answers] at ha
    exact .inl ha
  | _ => exact .inl ha

/-- The answers of a member that nothing arrives at any more are old ones. -/
theorem run_answers {acts : List (DetectAction ι)} (h : run (act net) acts s = some t)
    {a : Answer ι} (hsilent : ∀ x ∈ acts, x.arrivesAt net ≠ some a.answerer)
    (ha : a ∈ t.answers) : a ∈ s.answers := by
  refine run_inv_each (P := fun u => a ∈ u.answers → a ∈ s.answers)
    (C := fun _ x => x.arrivesAt net ≠ some a.answerer) ?_ (fun h => h)
    (each_of_forall fun x hx _ => hsilent x hx) h ha
  intro x u v hu hx hstep hv
  rcases act_answers hstep hv with hv | hv
  · exact hu hv
  · exact absurd hv hx

/-- Once nothing arrives any more at the members with this ID, no ping of it that begins
after that succeeds, and no indirect ping either. -/
theorem silent_not_confirmed (h : Reachable net s) {acts : List (DetectAction ι)}
    (hrun : run (act net) acts s = some t) (hnet : Routed net t) (hwrap : t.Unwrapped)
    {x : String} (hx : x ≠ "")
    (hsilent : ∀ i, (s.member i).id = x → ∀ a ∈ acts, a.arrivesAt net ≠ some i)
    (hnew : s.calls c = none) (hid : info.node.id = x) (payload : Bytes) :
    t.calls c ≠ some ⟨info, .returned true payload⟩ := by
  intro hc
  have hs := reachable_inv h
  obtain ⟨hg, ht⟩ := run_good hs hrun
  -- an answer by the target to a direct ping is an old one, and so is the call it is to
  have hold : ∀ {c' info' payload'}, t.Has c' info' → info'.no ≠ 0 → info'.node.id = x →
      Heard net t info' payload' → s.Has c' info' := by
    intro c' info' payload' hc' hno' hid' hheard
    obtain ⟨a, ha, hseq, hroute, -⟩ := hheard
    obtain ⟨hself, info₁, ⟨-, hno₁, c₁, hc₁⟩, hping, hsender⟩ := ht.answers a ha
    obtain rfl := answer_call ht hnet hwrap hc' hno' hc₁ hno₁ hping hsender hseq hroute
    obtain rfl := has_unique hc₁ hc'
    have hname : (s.member a.answerer).id = x := by
      rw [hping] at hself
      have hself : info₁.node.id = (t.member a.answerer).id :=
        hself fun he => hx (hid'.symm.trans he)
      exact (congrArg Config.id (hg.config a.answerer)).symm.trans (hself.symm.trans hid')
    have ha := run_answers hrun (hsilent a.answerer hname) ha
    obtain ⟨-, info₂, ⟨-, hno₂, c₂, hc₂⟩, hping₂, hsender₂⟩ := hs.answers a ha
    obtain rfl :=
      answer_call ht hnet hwrap hc' hno' (hg.has hc₂) hno₂ hping₂ hsender₂ hseq hroute
    exact has_unique (hg.has hc₂) hc' ▸ hc₂
  have hfresh : ∀ info', ¬s.Has c info' := by
    rintro info' ⟨pc, hc'⟩
    cases hnew.symm.trans hc'
  obtain ⟨hno, hearned⟩ := ht.returned hc
  cases hkind : info.kind with
  | direct =>
    rw [hkind] at hearned
    exact hfresh info (hold ⟨_, hc⟩ hno hid hearned)
  | indirect =>
    rw [hkind] at hearned
    obtain ⟨c', info', addr, payload', hc', -, hno', hrelay, hroute, hheard⟩ := hearned
    obtain ⟨-, info₁, ⟨-, hno₁, c₁, hc₁⟩, hseq, haddr, hid'⟩ :=
      ht.relays hc' addr info.seqNo hrelay
    obtain rfl := asked_call ht hnet hwrap ⟨_, hc⟩ hno hc₁ hno₁ hseq haddr hroute
    obtain rfl := has_unique hc₁ ⟨_, hc⟩
    -- the relay is an old call, so the call it was started for is
    have hc' := hold hc' hno' (hid'.trans hid) hheard
    obtain ⟨-, info₂, ⟨-, hno₂, c₂, hc₂⟩, hseq₂, haddr₂, -⟩ := hs.relays hc' addr info₁.seqNo hrelay
    obtain rfl := asked_call ht hnet hwrap ⟨_, hc⟩ hno (hg.has hc₂) hno₂ hseq₂ haddr₂ hroute
    exact hfresh info₂ hc₂

theorem silent_not_confirmed_bSilent :
    Concrete.bSilent.calls 0 ≠
      some ⟨Concrete.infoB .direct [Concrete.trioAddr 1], .returned true [7]⟩ :=
  silent_not_confirmed ⟨Concrete.trioConfig, [], rfl⟩ Concrete.trio_bSilent
    (Concrete.trio_routed Concrete.trio_bSilent) (by unfold Unwrapped; decide +kernel)
    Concrete.b_ne (by decide +kernel) rfl rfl [7]

end Detect

end Mlist
