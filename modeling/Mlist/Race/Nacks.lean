import Mathlib.Data.List.Perm.Subperm
import Mlist.Member.Cases
import Mlist.Model.Concrete
import Mlist.Model.Probe
import Mlist.Race.Ping

/-!
# Nacks that are counted twice

A peer that is asked to ping a node and gets no answer says so, with a failure reply. The
replies a failed `IndirectPing` reports are subtracted from the number of peers it asked, and
`probeNode` takes what is missing as a sign of the member's own bad health. The replies are
counted by the number of the call, not by who sent them. Where a peer is heard twice — the
network doubled its reply, or the request it answers — there can be more replies than peers;
`probeNode` then suspects its node and counts its own health as better for it
(`doubled_nack_improves_health`).

`Reports` relates a call to the actions so far: the peers of its `start`, and the senders of the
failure replies that came while its handler was registered. `probe_missed_nacks_iff` says when the
difference is not negative, and that the health score then does not fall.
-/

namespace Mlist

open Mlist.Lib

namespace PingSys

variable {s t : PingSys} {a : PingAction}

/-- A failure reply that finds the handler of the call registered, before the call has
returned, and who sent it. -/
def nack (s : PingSys) : PingAction → List UDPAddr
  | .indirectAck sender seqNo false =>
    if s.call.pc.isReturned = false ∧ s.mng.handlers .indirect seqNo = some s.call.handler then
      [sender]
    else []
  | _ => []

/-- The senders of the failure replies of a run, one for each reply. -/
def nacks (as : List PingAction) (s : PingSys) : List UDPAddr := gather act nack as s

/-- The peers an action starts the call with. -/
def asks : PingAction → Option (List UDPAddr)
  | .start _ peers => some peers
  | _ => none

/-- The peers that were picked when the call started. -/
def peersAsked (as : List PingAction) : List UDPAddr := (as.findSome? asks).getD []

/-! ## What a call reports -/

/-- A call that has done `past`, in which failure replies came from `senders`, and has not
returned yet. -/
structure Counting (past : List PingAction) (senders : List UDPAddr) (c : PingCall) : Prop where
  untimed : .timeout ∉ past
  kind : c.kind = .indirect
  count : c.nNacks = senders.length
  asked : if c.pc = .running .starting then past.findSome? asks = none
    else c.numSends = (peersAsked past).length

/-- What it returns in the end is how many replies there were and how many peers, when it ends by
its timeout; otherwise it counts nothing. -/
def Reports (past : List PingAction) (senders : List UDPAddr) (c : PingCall) : Prop :=
  match c.pc with
  | .returned r => .timeout ∉ past ∧ r.nNacks = 0 ∨
      .timeout ∈ past ∧ r = ⟨false, senders.length, (peersAsked past).length⟩
  | _ => Counting past senders c

variable {past : List PingAction} {senders : List UDPAddr} {c d : PingCall}

theorem Reports.counting (h : Reports past senders c) (hgo : c.pc.isReturned = false) :
    Counting past senders c := by
  unfold Reports at h
  split at h
  next r hpc =>
    rw [hpc] at hgo
    nomatch hgo
  next => exact h

theorem Counting.reports (h : Counting past senders c) (hgo : c.pc.isReturned = false) :
    Reports past senders c := by
  unfold Reports
  split
  next r hpc =>
    rw [hpc] at hgo
    nomatch hgo
  next => exact h

/-- An action that asks nobody leaves the peers as they are. -/
theorem peersAsked_append (h : asks a = none) : peersAsked (past ++ [a]) = peersAsked past := by
  unfold peersAsked
  rw [List.findSome?_append, List.findSome?_cons, h, List.findSome?_nil, Option.or_none]

theorem timeout_append (h : a ≠ .timeout) :
    PingAction.timeout ∈ past ++ [a] ↔ PingAction.timeout ∈ past := by
  rw [List.mem_append, List.mem_singleton, or_iff_left (Ne.symm h)]

/-- The call goes on, from behind its start if that is where it was. -/
theorem Counting.step (h : Counting past senders c) (hasks : asks a = none) (hne : a ≠ .timeout)
    (hpc : d.pc = .running .starting ↔ c.pc = .running .starting)
    (hkind : d.kind = c.kind) (hnacks : d.nNacks = c.nNacks)
    (hsends : d.numSends = c.numSends) : Counting (past ++ [a]) senders d := by
  refine ⟨fun hmem => h.untimed ((timeout_append hne).mp hmem), hkind.trans h.kind,
    hnacks.trans h.count, ?_⟩
  have hasked := h.asked
  rw [hsends, peersAsked_append hasks]
  by_cases hstart : c.pc = .running .starting
  · rw [if_pos hstart] at hasked
    rw [if_pos (hpc.mpr hstart), List.findSome?_append, List.findSome?_cons, hasks,
      List.findSome?_nil, hasked, Option.or_none]
  · rw [if_neg hstart] at hasked
    rw [if_neg (mt hpc.mp hstart)]
    exact hasked

/-- The call ends by something else than its timeout. -/
theorem Counting.ends (h : Counting past senders c) (hne : a ≠ .timeout) {r : PingResult}
    (hpc : d.pc = .returned r) (hzero : r.nNacks = 0) : Reports (past ++ [a]) senders d := by
  unfold Reports
  rw [hpc]
  exact .inl ⟨fun hmem => h.untimed ((timeout_append hne).mp hmem), hzero⟩

/-- An action of somebody else. -/
theorem Reports.idle (h : Reports past senders c) (hasks : asks a = none) (hne : a ≠ .timeout)
    (hpc : d.pc = c.pc) (hkind : d.kind = c.kind)
    (hnacks : d.nNacks = c.nNacks) (hsends : d.numSends = c.numSends) :
    Reports (past ++ [a]) senders d := by
  cases hret : c.pc.isReturned with
  | false =>
    refine ((h.counting hret).step hasks hne ?_ hkind hnacks hsends).reports (hpc ▸ hret)
    rw [hpc]
  | true =>
    unfold Reports at h ⊢
    rw [hpc, peersAsked_append hasks, timeout_append hne]
    split at h
    next => exact h
    next hno =>
      cases hpc' : c.pc with
      | returned r => exact absurd hpc' (hno r)
      | running pc => rw [hpc'] at hret; nomatch hret
      | waiting d => rw [hpc'] at hret; nomatch hret

/-- A send on the channel of a call that waits ends it, without a count. -/
theorem Reports.sendAck (h : Reports past senders s.call) (hasks : asks a = none)
    (hne : a ≠ .timeout) (k : Nat) : Reports (past ++ [a]) senders (s.sendAck k).call := by
  unfold PingSys.sendAck
  split
  next =>
    cases hpc : s.call.pc with
    | running pc => exact h.idle hasks hne hpc.symm rfl rfl rfl
    | returned r => exact h.idle hasks hne hpc.symm rfl rfl rfl
    | waiting d =>
      have hgo : s.call.pc.isReturned = false := by rw [hpc]; rfl
      exact (h.counting hgo).ends hne rfl rfl
  next => exact h.idle hasks hne rfl rfl rfl rfl

/-- What a failure reply does to the count. -/
theorem act_nack {sender : UDPAddr} {seqNo : UInt32}
    (h : act (.indirectAck sender seqNo false) s = some t) :
    t = { s with call := { s.call with
      nNacks := s.call.nNacks +
        (if s.mng.handlers .indirect seqNo = some s.call.handler then 1 else 0) } } := by
  dsimp only [act] at h
  split at h
  next hnone =>
    rw [hnone, if_neg (fun hs => nomatch hs)]
    exact (Option.some.inj h).symm
  next k hsome =>
    rw [if_pos rfl] at h
    rw [hsome]
    split at h
    next hown =>
      rw [hown, if_pos rfl]
      exact (Option.some.inj h).symm
    next hown =>
      rw [if_neg (fun hs => hown (Option.some.inj hs))]
      exact (Option.some.inj h).symm

/-- Before it returns the call counts each reply that finds its handler; afterwards nothing
changes what it has reported. -/
theorem Reports.nacked (h : Reports past senders s.call) {sender : UDPAddr} {seqNo : UInt32}
    (ha : act (.indirectAck sender seqNo false) s = some t) :
    Reports (past ++ [.indirectAck sender seqNo false])
      (senders ++ nack s (.indirectAck sender seqNo false)) t.call := by
  have hne : PingAction.indirectAck sender seqNo false ≠ .timeout := fun he => nomatch he
  obtain rfl := act_nack ha
  by_cases hheard : s.call.pc.isReturned = false ∧
      s.mng.handlers .indirect seqNo = some s.call.handler
  · have hc := h.counting hheard.1
    have hstep :=
      hc.step (d := s.call) (a := .indirectAck sender seqNo false) rfl hne Iff.rfl rfl rfl rfl
    have hone : nack s (.indirectAck sender seqNo false) = [sender] := if_pos hheard
    rw [if_pos hheard.2, hone]
    refine Counting.reports ⟨hstep.untimed, hstep.kind, ?_, hstep.asked⟩ hheard.1
    rw [List.length_append, ← hc.count]
    rfl
  · have hnone : nack s (.indirectAck sender seqNo false) = [] := if_neg hheard
    rw [hnone, List.append_nil]
    cases hret : s.call.pc.isReturned with
    | false =>
      rw [if_neg fun hfound => hheard ⟨hret, hfound⟩]
      exact h.idle rfl hne rfl rfl rfl rfl
    | true =>
      -- the count of a call that has returned is of no concern any more
      have hidle : Reports (past ++ [.indirectAck sender seqNo false]) senders s.call :=
        h.idle rfl hne rfl rfl rfl rfl
      unfold Reports at hidle ⊢
      dsimp only
      cases hpc : s.call.pc with
      | returned r =>
        rw [hpc] at hidle
        exact hidle
      | running pc => rw [hpc] at hret; nomatch hret
      | waiting d => rw [hpc] at hret; nomatch hret

theorem Reports.quiet (hnil : nack s a = []) (h : Reports (past ++ [a]) senders d) :
    Reports (past ++ [a]) (senders ++ nack s a) d := by
  rw [hnil, List.append_nil]
  exact h

/-- **One action of the call or of somebody else.** -/
theorem act_reports (h : Reports past senders s.call) (ha : act a s = some t) :
    Reports (past ++ [a]) (senders ++ nack s a) t.call := by
  -- a call at one of its own steps has not returned
  have hrunning : ∀ {pc}, s.call.pc = .running pc → Counting past senders s.call := by
    intro pc hpc
    refine h.counting ?_
    rw [hpc]
    rfl
  have hmoves : ∀ {pc pc' : PingPc}, s.call.pc = .running pc → pc ≠ .starting → pc' ≠ .starting →
      (Caller.running pc' = (.running .starting : Caller PingPc PingResult) ↔
        s.call.pc = .running .starting) := by
    intro pc pc' hpc hne hne'
    rw [hpc]
    exact iff_of_false (fun he => hne' (Caller.running.inj he))
      fun he => hne (Caller.running.inj he)
  cases act_case ha with
  | nacked sender seqNo nNacks => exact h.nacked ha
  | ticked d => exact .quiet rfl (h.idle rfl (fun he => nomatch he) rfl rfl rfl rfl)
  | expired hd => exact .quiet rfl (h.idle rfl (fun he => nomatch he) rfl rfl rfl rfl)
  | missed seqNo hnone => exact .quiet rfl (h.idle rfl (fun he => nomatch he) rfl rfl rfl rfl)
  | taken seqNo k hsome => exact .quiet rfl (h.idle rfl (fun he => nomatch he) rfl rfl rfl rfl)
  | missedIndirect sender seqNo hnone =>
    exact .quiet rfl (h.idle rfl (fun he => nomatch he) rfl rfl rfl rfl)
  | otherNumbered => exact .quiet rfl (h.idle rfl (fun he => nomatch he) rfl rfl rfl rfl)
  | other k seqNo h' howns hne =>
    exact .quiet rfl (h.idle rfl (fun he => nomatch he) rfl rfl rfl rfl)
  | delivered k hheld =>
    refine .quiet rfl (Reports.sendAck (s := { s with held := s.held.erase k }) h rfl ?_ k)
    exact fun he => nomatch he
  | deliveredIndirect sender seqNo k hsome =>
    refine .quiet rfl (Reports.sendAck (s := { s with
      mng := s.mng.setHandler .indirect seqNo none }) h rfl ?_ k)
    exact fun he => nomatch he
  | refused addr peers hpc =>
    exact .quiet rfl ((hrunning hpc).ends (fun he => nomatch he) rfl rfl)
  | unsent left hpc =>
    exact .quiet rfl ((hrunning hpc).ends (fun he => nomatch he) rfl rfl)
  | numbered addr peers numSends hpc hnum =>
    have hc := hrunning hpc
    have hasked := hc.asked
    rw [if_pos hpc] at hasked
    have hpeers : peersAsked (past ++ [.start addr peers]) = peers := by
      unfold peersAsked
      rw [List.findSome?_append, hasked]
      rfl
    refine .quiet rfl (Counting.reports ⟨?_, hc.kind, hc.count, ?_⟩ rfl)
    · intro hmem
      refine hc.untimed ((timeout_append ?_).mp hmem)
      exact fun he => nomatch he
    · rw [if_neg (fun he => nomatch he), hpeers]
      exact hnum hc.kind
  | armed hpc =>
    exact .quiet rfl (Counting.reports (Counting.step (hrunning hpc) rfl (fun he => nomatch he)
      (hmoves hpc (fun he => nomatch he) fun he => nomatch he) rfl rfl rfl) rfl)
  | registered hpc =>
    exact .quiet rfl (Counting.reports (Counting.step (hrunning hpc) rfl (fun he => nomatch he)
      (hmoves hpc (fun he => nomatch he) fun he => nomatch he) rfl rfl rfl) rfl)
  | sent left hpc =>
    exact .quiet rfl (Counting.reports (Counting.step (hrunning hpc) rfl (fun he => nomatch he)
      (hmoves hpc (fun he => nomatch he) fun he => nomatch he) rfl rfl rfl) rfl)
  | selected hpc =>
    refine .quiet rfl (Counting.reports (Counting.step (hrunning hpc) rfl (fun he => nomatch he) ?_
      rfl rfl rfl) rfl)
    rw [hpc]
    exact iff_of_false (fun he => nomatch he) fun he => nomatch he
  | timedOut d hpc hd =>
    have hc : Counting past senders s.call := by
      refine h.counting ?_
      rw [hpc]
      rfl
    have hasked := hc.asked
    rw [if_neg (by rw [hpc]; exact fun he => nomatch he)] at hasked
    refine .quiet rfl ?_
    show _ ∨ _ ∧ s.timeoutResult = _
    refine .inr ⟨List.mem_append_right _ List.mem_cons_self, ?_⟩
    unfold timeoutResult
    rw [hc.kind, hc.count, hasked, peersAsked_append rfl]

/-- What a call reports in the end. -/
theorem run_reports {as : List PingAction} {now : Time} {mng : PingManager} {held : List Nat}
    {handler : Nat} {timeout : Time} {r : PingResult}
    (hrun : run act as (start now mng held handler .indirect timeout) = some t)
    (hret : t.call.pc = .returned r) :
    .timeout ∉ as ∧ r.nNacks = 0 ∨
      .timeout ∈ as ∧ r = ⟨false, (nacks as (start now mng held handler .indirect timeout)).length,
        (peersAsked as).length⟩ := by
  have hstart : Reports [] [] (start now mng held handler .indirect timeout).call :=
    Counting.reports ⟨List.not_mem_nil, rfl, rfl, rfl⟩ rfl
  have hend := run_gather (P := fun past senders s => Reports past senders s.call)
    (fun _ _ _ _ _ h ha => act_reports h ha) hstart hrun
  unfold Reports at hend
  rw [hret] at hend
  exact hend

end PingSys

/-- An `int32` counter never shows more than was counted. -/
theorem PingResult.nackCount_le (res : PingResult) : res.nackCount ≤ res.nNacks := by
  unfold nackCount
  rw [Int32.toInt_ofNat', show Int32.size = 2 ^ 32 from rfl, Int.bmod_def]
  split <;> omega

theorem PingResult.missedNacks_nonneg {res : PingResult} :
    0 ≤ res.missedNacks ↔ res.nackCount ≤ res.numNode := Int.sub_nonneg

/-! ## The health score -/

/-- What `probeNode` goes by in the end came from its `IndirectPing`, if anything did. -/
theorem probeWait_from {events : List WaitEvent} {r : PingResult}
    (h : ∀ res, .indirect res ∈ events → res = r) :
    ∀ indirectRes, (probeWait events indirectRes).2 = indirectRes ∨
      (probeWait events indirectRes).2 = r := by
  induction events with
  | nil => intro indirectRes; exact .inl rfl
  | cons e events ih =>
    intro indirectRes
    have hrest := ih fun res hmem => h res (List.mem_cons_of_mem _ hmem)
    cases e with
    | indirect res =>
      obtain rfl := h res (List.mem_cons_self ..)
      dsimp only [probeWait]
      split
      · exact .inr rfl
      · exact .inr ((hrest res).elim id id)
    | tcp res =>
      dsimp only [probeWait]
      split
      · exact .inl rfl
      · exact hrest indirectRes

/-- A penalty does not lower the score, unless it was above its maximum. -/
theorem Awareness.punish_worse (a : Awareness) {delta : Int} (h : 0 ≤ delta) :
    min a.health (a.max - 1) ≤ (a.punish delta).health ∧ (a.punish delta).max = a.max := by
  unfold punish
  split
  · exact ⟨by dsimp only; omega, rfl⟩
  · split
    · exact ⟨by dsimp only; omega, rfl⟩
    · exact ⟨by dsimp only; omega, rfl⟩

section Probe

variable {H : Type} [Encoded Msg] [Heap H (TransmitCapItem Msg)]

/-- A suspicion leaves the health score alone, or it is refuted, for a penalty. -/
theorem suspectNode_health {m m' : Memberlist H} {env : Env} {s : Suspect}
    (h : m.suspectNode env s = some m') :
    min m.awr.health (m.awr.max - 1) ≤ m'.awr.health := by
  have hkept : min m.awr.health (m.awr.max - 1) ≤ m.awr.health := Int.min_le_left _ _
  cases suspectNode_case h with
  | unknown habs => exact hkept
  | stale p hmap hold => exact hkept
  | confirmed p k hmap hlives hsusp hfresh => exact hkept
  | heard p k hmap hlives hsusp hfresh => exact hkept
  | notAlive p hmap hlives hsusp hstate => exact hkept
  | refuted p m'' hmap hlives hsusp hstate hself href =>
    obtain ⟨calls, -, rfl⟩ := refute_case href
    exact (m.awr.punish_worse (show (0 : Int) ≤ 1 by decide)).1
  | raised p hmap hlives hsusp hstate hself => exact hkept

/-- A probe that nobody answers punishes by the missed nacks and suspects the node. -/
theorem probeNode_suspects {m m' : Memberlist H} {env : Env} {node : NodeState}
    {events : List WaitEvent} (hwait : (probeWait events ⟨false, 0, 0⟩).1 = false)
    (h : m.probeNode env node false events = some m') :
    Memberlist.suspectNode env { lives := node.lives, id := node.node.id, sender := m.id }
      { m with awr := m.awr.punish (probeWait events ⟨false, 0, 0⟩).2.missedNacks } = some m' := by
  unfold Memberlist.probeNode at h
  dsimp only at h
  rw [if_neg (by decide), hwait, if_neg (by decide)] at h
  exact h

/-- **When a failed probe does not improve the health score.** Take one `IndirectPing`, with
any timeout, and any interleaving of it with receivers of replies, timers and what other calls
do, up to where it has returned. The nack count it reports is at most its `numNode` if and only
if the call did not end by its timeout, or the failure replies that were delivered while its
handler was registered and it had not returned were at most as many as the peers picked at its
start, as far as an `int32` can tell. So it is when these replies all came from different ones of
these peers. Then a `probeNode` that ends by suspecting its node has called `Punish` with nothing
negative, and the health score has not fallen, unless it was above its maximum. -/
theorem probe_missed_nacks_iff (as : List PingAction) (now : Time) (mng : PingManager)
    (held : List Nat) (handler : Nat) (timeout : Time) (t : PingSys) (r : PingResult)
    (hrun : run PingSys.act as (PingSys.start now mng held handler .indirect timeout) = some t)
    (hret : t.call.pc = .returned r) :
    (r.nackCount ≤ r.numNode ↔ (.timeout ∈ as →
      (Int32.ofNat (PingSys.nacks as
        (PingSys.start now mng held handler .indirect timeout)).length).toInt ≤
          (PingSys.peersAsked as).length)) ∧
    ((PingSys.nacks as (PingSys.start now mng held handler .indirect timeout)).Nodup →
      PingSys.nacks as (PingSys.start now mng held handler .indirect timeout) ⊆
        PingSys.peersAsked as → r.nackCount ≤ r.numNode) ∧
    (r.nackCount ≤ r.numNode → ∀ (env : Env) (node : NodeState) (events : List WaitEvent)
      (m m' : Memberlist H), (∀ res, .indirect res ∈ events → res = r) →
      (probeWait events ⟨false, 0, 0⟩).1 = false → m.probeNode env node false events = some m' →
      0 ≤ (probeWait events ⟨false, 0, 0⟩).2.missedNacks ∧
        min m.awr.health (m.awr.max - 1) ≤ m'.awr.health) := by
  have hreports := PingSys.run_reports hrun hret
  have hiff : r.nackCount ≤ r.numNode ↔ (.timeout ∈ as →
      (Int32.ofNat (PingSys.nacks as
        (PingSys.start now mng held handler .indirect timeout)).length).toInt ≤
          (PingSys.peersAsked as).length) := by
    -- without a timeout it reports zero, otherwise what it has counted
    rcases hreports with ⟨hnot, hzero⟩ | ⟨hmem, rfl⟩
    · refine iff_of_true ?_ fun hmem => absurd hmem hnot
      have hle := r.nackCount_le
      omega
    · exact ⟨fun hle _ => hle, fun hle => hle hmem⟩
  refine ⟨hiff, fun hnodup hsub => hiff.mpr fun hmem => ?_, ?_⟩
  · rcases hreports with ⟨hnot, -⟩ | ⟨-, rfl⟩
    · exact absurd hmem hnot
    · -- different peers: there are no more of them than were picked
      have hle := (List.subperm_of_subset hnodup hsub).length_le
      exact Int.le_trans (PingResult.nackCount_le ⟨false, _, (PingSys.peersAsked as).length⟩)
        (Int.ofNat_le.mpr hle)
  · intro hle env node events m m' hfrom hwait hprobe
    have hmissed : 0 ≤ (probeWait events ⟨false, 0, 0⟩).2.missedNacks := by
      rcases probeWait_from hfrom ⟨false, 0, 0⟩ with heq | heq
      · rw [heq]
        decide
      · rw [heq]
        exact PingResult.missedNacks_nonneg.mpr hle
    refine ⟨hmissed, ?_⟩
    obtain ⟨hworse, hmax⟩ := m.awr.punish_worse hmissed
    have hsuspect := suspectNode_health (probeNode_suspects hwait hprobe)
    dsimp only at hsuspect
    rw [hmax] at hsuspect
    omega

end Probe

namespace Concrete

open PingSys (peerA peerB)

/-- An `IndirectPing` of two peers, each of which says once that it got no answer. -/
def twoNacks : List PingAction :=
  [.start true [peerA, peerB], .arm, .register, .send true, .send true, .select,
    .indirectAck peerA 1 false, .tick 100, .indirectAck peerB 1 false, .tick 400, .timeout]

/-- An `IndirectPing` of one peer, which is heard twice. -/
def doubledNack : List PingAction :=
  [.start true [peerA], .arm, .register, .send true, .select, .indirectAck peerA 1 false,
    .indirectAck peerA 1 false, .tick 500, .timeout]

/-- A member that knows of one peer, in not quite the best of health. -/
def unwell : Member := state [.alive {} (aliveMsg 1) none, .punish 1] (by decide)

end Concrete

open Concrete in
theorem probe_missed_nacks_iff_two :
    ∃ t, run PingSys.act twoNacks (PingSys.quiet .indirect) = some t ∧
      t.call.pc = .returned ⟨false, 2, 2⟩ ∧
      ∀ node m', unwell.probeNode {} node false [.indirect ⟨false, 2, 2⟩, .tcp false] = some m' →
        1 ≤ m'.awr.health := by
  refine ⟨_, rfl, rfl, fun node m' hprobe => ?_⟩
  obtain ⟨-, hcount, hhealth⟩ := probe_missed_nacks_iff (H := List (TransmitCapItem Msg)) twoNacks 0
    ⟨0, fun _ _ => none⟩ [] 0 500 _ ⟨false, 2, 2⟩ rfl rfl
  have hfrom : ∀ res, WaitEvent.indirect res ∈ [.indirect ⟨false, 2, 2⟩, .tcp false] →
      res = ⟨false, 2, 2⟩ := by simp
  exact (hhealth (hcount (by decide) (by decide)) {} node _ unwell m' hfrom rfl hprobe).2

open Concrete in
/-- The call reports two nacks from one peer, and a member that suspects the node for want of
an answer feels the better for it. -/
theorem doubled_nack_improves_health :
    (∃ t, run PingSys.act doubledNack (PingSys.quiet .indirect) = some t ∧
      t.call.pc = .returned ⟨false, 2, 1⟩) ∧
    PingSys.peersAsked doubledNack = [PingSys.peerA] ∧
    PingSys.nacks doubledNack (PingSys.quiet .indirect) = [PingSys.peerA, PingSys.peerA] ∧
    PingResult.missedNacks ⟨false, 2, 1⟩ = -1 ∧
    unwell.awr.health = 1 ∧
    ((unwell.lookup "peer").bind fun node =>
        unwell.probeNode {} node false [.indirect ⟨false, 2, 1⟩, .tcp false]).map
      (fun m' => (m'.awr.health, (m'.lookup "peer").map NodeState.state)) =
        some (0, some .suspect) :=
  ⟨⟨_, rfl, rfl⟩, by decide, by decide, by decide, by decide, by decide⟩

end Mlist
