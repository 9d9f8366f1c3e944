import Mlist.Cluster.World

/-!
# What a cluster knows about a member

Two consequences of everybody being honest, for worlds in which no counter has
wrapped yet.

`lives_bounded`: a member's counter is at least every number anyone holds about it.
So the number it takes next, for new tags or to refute, is above all of them; and
the loop of `refute`, which counts until it passes the accusation, ends the first
time round.

`tags_agree`: an alive record carries the tags of the one alive message its subject
issued with that number. So two members that know the subject alive at the same
number know the same tags, by whatever way the news reached them.
-/

namespace Mlist

open Mlist.Lib Relation

namespace World

variable {ι H : Type} [DecidableEq ι] [Encoded Msg] [Heap H (TransmitCapItem Msg)]
  {w : World ι H}

omit [DecidableEq ι] in
/-- A number somebody holds is one its subject has used. -/
theorem Inv.known_of_holds (hw : w.Inv) {x : String} {n : Nat} (h : w.Holds x n) :
    w.ledger.known x n := by
  cases h with
  | record i r hr =>
    have hknown := ((hw.honest i).records x r hr).1
    rw [(hw.proper i).sound.registry.lookup_id hr] at hknown
    exact hknown
  | queued i it hit hx => exact hx ▸ Ledger.msg_known ((hw.honest i).queue it hit)
  | msg msg hmsg hx => exact hx ▸ Ledger.msg_known (hw.msgs msg hmsg)
  | state e he hx => exact hx ▸ (hw.states e he).1

omit [DecidableEq ι] in
/-- Nobody holds a number of a member that this member has not counted to. -/
theorem Inv.holds_le (hw : w.Inv) {i : ι} {n : Nat} (h : w.Holds (w.member i).id n) :
    n ≤ (w.member i).liveCalls := by
  obtain ⟨j, hj, hle⟩ := hw.known_of_holds h
  rw [hw.ids hj] at hle
  exact hle

omit [DecidableEq ι] in
/-- The alive message `UpdateTags` issues takes the next number. -/
theorem updateTags_issues {m : Memberlist H} {env : Env} {tags : Bytes} {notify : Nat}
    {res : Except String Unit × Memberlist H} (htags : tags.length ≤ tagMaxSize)
    (h : m.updateTags env tags notify = some res) :
    ∃ a, res.2.issued = m.issued ++ [a] ∧ a.lives = (m.liveCalls + 1) % livesSize := by
  unfold Memberlist.updateTags at h
  rw [if_neg (Nat.not_lt.mpr htags)] at h
  split at h
  next => cases h
  next p hmap =>
    refine ⟨(m.issueAlive (m.records p).node.ip (m.records p).node.port tags).1, ?_, rfl⟩
    rw [← Option.some.inj h]
    show (Memberlist.aliveNode env _ (some notify) _).issued = _
    rw [(aliveNode_frame _ env _ _).1]
    rfl

/-- **No number about a member exceeds its counter.** In every world a cluster gets
to before a counter wraps, every number about member `i` — in a record, a broadcast
queue, a message in flight or a push/pull exchange in flight — is at most `i`'s
counter. If the counter has a number left, then `UpdateTags` takes one above all of
them, and so does `refute` against any of them, with a single increment. -/
theorem lives_bounded (hw : w.Reachable) (hwrap : ∀ i, (w.member i).liveCalls < 2 ^ 32) (i : ι) :
    (∀ n, w.Holds (w.member i).id n → n ≤ (w.member i).lives) ∧
    ((w.member i).liveCalls + 1 < 2 ^ 32 →
      (∀ env tags notify res, tags.length ≤ tagMaxSize →
        (w.member i).updateTags env tags notify = some res →
        ∃ a, res.2.issued = (w.member i).issued ++ [a] ∧
          ∀ n, w.Holds (w.member i).id n → n < a.lives) ∧
      (∀ p lives, (w.member i).nodeMap (w.member i).id = some p →
        w.Holds (w.member i).id lives →
        ∃ m' r, (w.member i).refute p lives = some m' ∧
          m'.liveCalls = (w.member i).liveCalls + 1 ∧
          m'.lookup (w.member i).id = some r ∧
          ∀ n, w.Holds (w.member i).id n → n < r.lives)) := by
  have hinv := reachable_inv hw
  refine ⟨?_, ?_⟩
  · intro n hn
    show n ≤ (w.member i).liveCalls % livesSize
    rw [Nat.mod_eq_of_lt (show _ < livesSize from hwrap i)]
    exact hinv.holds_le hn
  · intro hnext
    have hmod : ((w.member i).liveCalls + 1) % livesSize = (w.member i).liveCalls + 1 :=
      Nat.mod_eq_of_lt hnext
    -- the next number is above all that are about
    have hbelow : ∀ n, w.Holds (w.member i).id n →
        n < ((w.member i).liveCalls + 1) % livesSize := by
      intro n hn
      rw [hmod]
      exact Nat.lt_succ_of_le (hinv.holds_le hn)
    refine ⟨?_, ?_⟩
    · intro env tags notify res htags hres
      obtain ⟨a, hissued, hlives⟩ := updateTags_issues htags hres
      refine ⟨a, hissued, ?_⟩
      rw [hlives]
      exact hbelow
    · intro p lives hmap hlives
      -- so the loop of `refute` stops at once
      have hloop := refuteLoop_first (hbelow lives hlives)
      have hret : ∃ m', (w.member i).refute p lives = some m' := by
        unfold Memberlist.refute
        rw [hloop]
        exact ⟨_, rfl⟩
      obtain ⟨m', hret⟩ := hret
      refine ⟨m', { (w.member i).records p with
        lives := ((w.member i).liveCalls + 1) % livesSize }, hret, ?_⟩
      obtain ⟨calls, hcalls, rfl⟩ := refute_case hret
      rw [hloop] at hcalls
      obtain rfl := Option.some.inj hcalls
      refine ⟨rfl, ?_, hbelow⟩
      show ((w.member i).setRecord p _).lookup (w.member i).id = _
      rw [(hinv.proper i).sound.registry.lookup_setRecord hmap, if_pos rfl]

omit [Encoded Msg] [Heap H (TransmitCapItem Msg)] [DecidableEq ι] in
/-- Until the counter wraps, a number is used once. -/
theorem issuer_unique {m : Memberlist H} (h : Issuer m) (hwrap : m.liveCalls < livesSize)
    {a b : Alive} (ha : a ∈ m.issued) (hb : b ∈ m.issued) (hab : a.lives = b.lives) : a = b := by
  have hnodup : (m.issued.map Alive.lives).Nodup :=
    (h.increasing hwrap).imp (fun hlt => Nat.ne_of_lt hlt)
  exact List.inj_on_of_nodup_map hnodup ha hb hab

/-- **The same number, the same tags.** In every world a cluster gets to before a
counter wraps, an alive record of `x` is about a member of the cluster, and carries
the tags that member attached to the one alive message it issued with the record's
`Lives`. Hence two members that both hold `x` alive with the same `Lives` hold equal
tags of `x`. -/
theorem tags_agree (hw : w.Reachable) (hwrap : ∀ i, (w.member i).liveCalls < 2 ^ 32) (x : String) :
    (∀ i r, (w.member i).lookup x = some r → r.state = .alive →
      ∃ j a, (w.member j).id = x ∧ a ∈ (w.member j).issued ∧ a.lives = r.lives ∧
        a.tags = r.node.tags ∧ ∀ b ∈ (w.member j).issued, b.lives = r.lives → b = a) ∧
    (∀ i i' r r', (w.member i).lookup x = some r → (w.member i').lookup x = some r' →
      r.state = .alive → r'.state = .alive → r.lives = r'.lives → r.node.tags = r'.node.tags) := by
  have hinv := reachable_inv hw
  have hsource : ∀ i r, (w.member i).lookup x = some r → r.state = .alive →
      ∃ j a, (w.member j).id = x ∧ a ∈ (w.member j).issued ∧ a.lives = r.lives ∧
        a.tags = r.node.tags ∧ ∀ b ∈ (w.member j).issued, b.lives = r.lives → b = a := by
    intro i r hr hs
    obtain ⟨j, hj, a, ha, hlives, htags⟩ := ((hinv.honest i).records x r hr).2 hs
    rw [(hinv.proper i).sound.registry.lookup_id hr] at hj
    refine ⟨j, a, hj, ha, hlives, htags, ?_⟩
    intro b hb hbl
    exact issuer_unique (hinv.proper j).issuer (hwrap j) hb ha (hbl.trans hlives.symm)
  refine ⟨hsource, ?_⟩
  intro i i' r r' hr hr' hs hs' heq
  obtain ⟨j, a, hj, -, -, htags, huniq⟩ := hsource i r hr hs
  obtain ⟨j', a', hj', ha', hlives', htags', -⟩ := hsource i' r' hr' hs'
  obtain rfl := hinv.ids (hj.trans hj'.symm)
  rw [← htags, ← htags', huniq a' ha' (hlives'.trans heq.symm)]

end World

/-! ## Two members -/

namespace Concrete

/-- Two members, not yet in touch. -/
def pair : World Bool (List (TransmitCapItem Msg)) :=
  { member := fun b => if b then built "you" (by decide) else built "me" me_ne
    msgs := []
    states := [] }

/-- The exchange in which `"me"` hears of `"you"`. -/
def pairRemote : List (Env × StateToMerge) := (pair.member true).localState.map fun e => ({}, e)

/-- `"me"` has heard of `"you"`. -/
def pairMet : World Bool (List (TransmitCapItem Msg)) :=
  World.set { pair with states := (pair.member true).localState } false
    (((pair.member false).mergeState pairRemote).getD (pair.member false))

theorem pair_started : pair.Started := by
  refine ⟨?_, ?_, rfl, rfl⟩
  · intro b
    cases b with
    | false =>
      have hme : pair.member false = built "me" (by decide) := by
        simp only [pair, Bool.false_eq_true, if_false]
      rw [hme]
      exact ⟨{}, configOf "me" (by decide), build_built "me" (by decide)⟩
    | true =>
      have hyou : pair.member true = built "you" (by decide) := by
        simp only [pair, if_true]
      rw [hyou]
      exact ⟨{}, configOf "you" (by decide), build_built "you" (by decide)⟩
  · intro b b' h
    cases b <;> cases b'
    · rfl
    · exact absurd h (by decide)
    · exact absurd h (by decide)
    · rfl

theorem pairMet_reachable : pairMet.Reachable := by
  refine ⟨pair, pair_started, ?_⟩
  refine (ReflTransGen.single (World.Step.pushPull pair true)).tail ?_
  refine World.Step.op _ false (.merge pairRemote) _ ?_ rfl
  intro er her
  obtain ⟨e, he, rfl⟩ := List.mem_map.mp her
  exact he

/-- `"me"` knows `"you"` by a number `"you"` has used. -/
theorem lives_bounded_pairMet :
    ∃ r, (pairMet.member false).lookup "you" = some r ∧ r.lives ≤ (pairMet.member true).lives := by
  have hwrap : ∀ b, (pairMet.member b).liveCalls < 2 ^ 32 := by
    intro b
    cases b <;> decide
  refine ⟨_, rfl, ?_⟩
  exact (World.lives_bounded pairMet_reachable hwrap true).1 _ (.record false _ rfl)

/-- `"me"` and `"you"` agree on the tags of `"you"`. -/
theorem tags_agree_pairMet :
    ∃ r r', (pairMet.member false).lookup "you" = some r ∧
      (pairMet.member true).lookup "you" = some r' ∧ r.node.tags = r'.node.tags := by
  have hwrap : ∀ b, (pairMet.member b).liveCalls < 2 ^ 32 := by
    intro b
    cases b <;> decide
  refine ⟨_, _, rfl, rfl, ?_⟩
  exact (World.tags_agree pairMet_reachable hwrap "you").2 false true _ _ rfl rfl rfl rfl rfl

end Concrete

end Mlist
