import Mlist.Member.Probe

/-!
# Everybody is probed in turn

`nextProbeNode` has two loops that share one index and one flag, and the index may stand
anywhere, past the end of the slice too: a reap makes the slice shorter, and a call that
found nobody leaves the index at its end.

What the call is meant to do takes no index: the nodes stand in a circle, and the next one to
be probed is the first candidate ahead. `Prober.ahead` is the circle from where the index
stands, and `nextProbeNode_turn` says that a call takes the first candidate off it and puts
it, with those it passed over, at the end. So the candidates keep their order and take turns
(`nextProbeNode_turns`).

The index is an `int`, and the first thing a call does is to add 1 to it. The largest one is
where that goes wrong (`nextProbeNode_wraps`); a call that returns leaves none behind that is
larger than the slice is long.
-/

namespace Mlist

open Mlist.Lib

variable {H : Type}

/-- `m.probeIdx++` makes an index of it: the largest `int` becomes the smallest. -/
def Prober.Indexable (s : Prober H) : Prop := -1 ≤ s.probeIdx ∧ s.probeIdx < 2 ^ 63 - 1

/-- The position the first loop of `nextProbeNode` begins at. -/
def Prober.origin (s : Prober H) : Nat :=
  if s.probeIdx + 1 < s.m.nodes.size then (s.probeIdx + 1).toNat else 0

/-- The nodes in cyclic order, from the one behind `probeIdx`; from the first one, if the
index is past the end. -/
def Prober.ahead (s : Prober H) : List Nat := s.m.nodes.toList.rotate s.origin

/-- The candidates among them. -/
def Prober.candidates (s : Prober H) : List Nat := s.ahead.filter fun p => s.m.Candidate p

theorem Memberlist.probeSkips_eq_true {m : Memberlist H} {p : Nat} :
    m.probeSkips p = true ↔ ¬ m.Candidate p := by
  rw [← Memberlist.probeSkips_eq_false, Bool.not_eq_false]

/-- What a call of `nextProbeNode` may come to: nobody is a candidate, or the first candidate
ahead is returned and goes to the end of the circle. -/
inductive Prober.Turn (s : Prober H) : Except String NodeState × Prober H → Prop where
  | nobody (t : Prober H) (hnone : ∀ p ∈ s.ahead, ¬ s.m.Candidate p) (hm : t.m = s.m) :
    Turn s (.error "no node to probe", t)
  | took (t : Prober H) (front : List Nat) (p : Nat) (back : List Nat) (wrapAround : Bool)
    (hsplit : s.ahead = front ++ p :: back) (hfront : ∀ q ∈ front, ¬ s.m.Candidate q)
    (hp : s.m.Candidate p) (hm : t.m = s.m) (hidx : t.Indexable)
    (hcalls : t.calls = s.calls ++ [⟨wrapAround, some p, .ok (s.m.records p)⟩])
    (hahead : t.ahead = back ++ (front ++ [p])) : Turn s (.ok (s.m.records p), t)

/-- The end of a call. -/
def Prober.answer (s : Prober H) (wrapAround : Bool) (probeIdx : Nat) (found : Option Nat) :
    Except String NodeState × Prober H :=
  let result := match found with
    | some p => .ok (s.m.records p)
    | none => .error "no node to probe"
  (result, { s with probeIdx, calls := s.calls ++ [{ wrapAround, found, result }] })

theorem nextProbeNode_first {s : Prober H} {wrapAround : Bool} {i : Nat} {found : Option Nat}
    (h : s.Indexable) (hturn : s.m.probeTurn (s.probeIdx + 1).toNat = (wrapAround, i, found))
    (hlast : (found.isNone && !wrapAround) = false) :
    s.nextProbeNode = some (s.answer wrapAround i found) := by
  obtain ⟨hlo, hhi⟩ := h
  unfold Prober.nextProbeNode
  rw [if_neg (by omega), hturn]
  dsimp only
  rw [if_neg (by rw [hlast]; exact Bool.false_ne_true)]
  rfl

theorem nextProbeNode_second {s : Prober H} {wrapAround : Bool} {i j : Nat} {found : Option Nat}
    (h : s.Indexable) (hturn : s.m.probeTurn (s.probeIdx + 1).toNat = (false, i, none))
    (hagain : s.m.probeTurn i = (wrapAround, j, found)) :
    s.nextProbeNode = some (s.answer wrapAround j found) := by
  obtain ⟨hlo, hhi⟩ := h
  unfold Prober.nextProbeNode
  rw [if_neg (by omega), hturn]
  dsimp only
  rw [if_pos (show ((none : Option Nat).isNone && !false) = true from rfl), hagain]
  rfl

/-- With the index at a node of the slice, the circle begins behind that node. -/
theorem Prober.ahead_of_index {s : Prober H} {i : Nat} (hi : i < s.m.nodes.size)
    (h : s.probeIdx = i) : s.ahead = s.m.nodes.toList.rotate (i + 1) := by
  unfold Prober.ahead Prober.origin
  rw [h]
  split
  next => congr 1
  next hlast =>
    have hend : i + 1 = s.m.nodes.toList.length := by
      rw [Array.length_toList]
      omega
    rw [hend, List.rotate_zero, List.rotate_length]

/-- A round of the outer loop that begins inside the slice. -/
theorem Memberlist.probeTurn_inside (m : Memberlist H) {b : Nat} (hb : b < m.nodes.size) :
    (∀ p ∈ m.nodes.toList.drop b, ¬ m.Candidate p) ∧
        m.probeTurn b = (false, m.nodes.size, none) ∨
    ∃ front p back, m.nodes.toList.drop b = front ++ p :: back ∧
      (∀ q ∈ front, ¬ m.Candidate q) ∧ m.Candidate p ∧
      m.probeTurn b = (false, b + front.length, some p) := by
  unfold Memberlist.probeTurn
  rw [if_neg (by omega)]
  dsimp only
  rcases seek_first m.probeSkips m.nodes (m.nodes.size - b) (i := b) (by omega) with
    ⟨hall, hseek⟩ | ⟨front, p, back, hsplit, hfront, hp, hseek⟩
  · rw [hseek]
    exact .inl ⟨fun p hp => probeSkips_eq_true.mp (hall p hp), rfl⟩
  · rw [hseek]
    exact .inr ⟨front, p, back, hsplit, fun q hq => probeSkips_eq_true.mp (hfront q hq),
      probeSkips_eq_false.mp hp, rfl⟩

/-- A round that begins at the end, or past it, goes through the whole slice. -/
theorem Memberlist.probeTurn_outside (m : Memberlist H) {b : Nat} (hb : m.nodes.size ≤ b) :
    (∀ p ∈ m.nodes.toList, ¬ m.Candidate p) ∧ m.probeTurn b = (true, m.nodes.size, none) ∨
    ∃ front p back, m.nodes.toList = front ++ p :: back ∧
      (∀ q ∈ front, ¬ m.Candidate q) ∧ m.Candidate p ∧
      m.probeTurn b = (true, front.length, some p) := by
  unfold Memberlist.probeTurn
  rw [if_pos hb]
  dsimp only
  rcases seek_first m.probeSkips m.nodes (m.nodes.size - 0) (i := 0) (by omega) with
    ⟨hall, hseek⟩ | ⟨front, p, back, hsplit, hfront, hp, hseek⟩
  · rw [hseek]
    exact .inl ⟨fun p hp => probeSkips_eq_true.mp (hall p hp), rfl⟩
  · rw [hseek, Nat.zero_add]
    exact .inr ⟨front, p, back, hsplit, fun q hq => probeSkips_eq_true.mp (hfront q hq),
      probeSkips_eq_false.mp hp, rfl⟩

/-- The call that stops at position `i`, where the first candidate ahead is. -/
theorem Prober.Turn.stopped {s : Prober H} (front back : List Nat) {p i : Nat} {wrapAround : Bool}
    (hsplit : s.ahead = front ++ p :: back) (hfront : ∀ q ∈ front, ¬ s.m.Candidate q)
    (hp : s.m.Candidate p) (hi : i < s.m.nodes.size) (hsize : s.m.nodes.size < 2 ^ 63)
    (hrot : s.m.nodes.toList.rotate (i + 1) =
      s.m.nodes.toList.rotate (s.origin + (front.length + 1))) :
    s.Turn (s.answer wrapAround i (some p)) := by
  refine .took _ front p back wrapAround hsplit hfront hp rfl ?_ rfl ?_
  · show -1 ≤ (i : Int) ∧ (i : Int) < 2 ^ 63 - 1
    omega
  · have hnext := Prober.ahead_of_index (s := (s.answer wrapAround i (some p)).2) hi rfl
    exact hnext.trans (hrot.trans (rotate_past hsplit))

/-- The call that goes round and finds nobody. -/
theorem Prober.Turn.exhausted {s : Prober H} {i : Nat} {wrapAround : Bool}
    (hnone : ∀ p ∈ s.m.nodes.toList, ¬ s.m.Candidate p) :
    s.Turn (s.answer wrapAround i none) := by
  exact .nobody _ (fun p hp => hnone p (List.mem_rotate.mp hp)) rfl

/-- Two ways to take a list apart: in front of an element that is not in the second part. -/
theorem split_before {l₁ l₂ front back : List Nat} {p : Nat} (h : l₁ ++ l₂ = front ++ p :: back)
    (hp : p ∉ l₂) : ∃ mid, l₁ = front ++ p :: mid := by
  rcases List.append_eq_append_iff.mp h with ⟨as, -, hl₂⟩ | ⟨bs, hl₁, hback⟩
  · exact absurd (hl₂ ▸ List.mem_append_right as List.mem_cons_self) hp
  · cases bs with
    | nil =>
      rw [List.nil_append] at hback
      exact absurd (hback ▸ List.mem_cons_self) hp
    | cons b mid =>
      obtain ⟨rfl, -⟩ := List.cons.inj hback
      exact ⟨mid, hl₁⟩

/-- **A call takes the first candidate ahead**, and fails if there is none. -/
theorem nextProbeNode_turn (s : Prober H) (h : s.Indexable) (hsize : s.m.nodes.size < 2 ^ 63) :
    ∃ r, s.nextProbeNode = some r ∧ s.Turn r := by
  have hlen : s.m.nodes.toList.length = s.m.nodes.size := Array.length_toList
  have hlo : -1 ≤ s.probeIdx := h.1
  by_cases hin : s.probeIdx + 1 < s.m.nodes.size
  · have horigin : s.origin = (s.probeIdx + 1).toNat := if_pos hin
    have hlt : s.origin < s.m.nodes.size := by omega
    have hahead : s.ahead = s.m.nodes.toList.drop s.origin ++ s.m.nodes.toList.take s.origin :=
      List.rotate_eq_drop_append_take (by omega)
    rcases s.m.probeTurn_inside hlt with
      ⟨hnone, hturn⟩ | ⟨front, p, back, hsplit, hfront, hp, hturn⟩
    · rw [horigin] at hturn
      -- nobody up to the end, and the second round begins at the front
      rcases s.m.probeTurn_outside (Nat.le_refl s.m.nodes.size) with
        ⟨hall, hagain⟩ | ⟨front, p, back, hsplit, hfront, hp, hagain⟩
      · exact ⟨_, nextProbeNode_second h hturn hagain, .exhausted hall⟩
      · have hnot : p ∉ s.m.nodes.toList.drop s.origin := fun hmem => hnone p hmem hp
        have happ := hsplit
        rw [← List.take_append_drop s.origin s.m.nodes.toList] at happ
        obtain ⟨mid, hmid⟩ := split_before happ hnot
        refine ⟨_, nextProbeNode_second h hturn hagain,
          .stopped (s.m.nodes.toList.drop s.origin ++ front) mid ?_ ?_ hp ?_ hsize ?_⟩
        · rw [hahead, hmid, List.append_assoc]
        · intro q hq
          rcases List.mem_append.mp hq with hq | hq
          · exact hnone q hq
          · exact hfront q hq
        · have := congrArg List.length hsplit
          rw [hlen, List.length_append, List.length_cons] at this
          omega
        · have hcount : s.origin + ((s.m.nodes.toList.drop s.origin ++ front).length + 1) =
              s.m.nodes.toList.length + (front.length + 1) := by
            rw [List.length_append, List.length_drop]
            omega
          rw [hcount, ← List.rotate_rotate s.m.nodes.toList s.m.nodes.toList.length,
            List.rotate_length]
    · rw [horigin] at hturn
      refine ⟨_, nextProbeNode_first h hturn rfl,
        .stopped front (back ++ s.m.nodes.toList.take s.origin) ?_ hfront hp ?_ hsize ?_⟩
      · rw [hahead, hsplit, List.append_assoc, List.cons_append]
      · have := congrArg List.length hsplit
        rw [List.length_drop, List.length_append, List.length_cons] at this
        omega
      · rw [← horigin, Nat.add_assoc]
  · have horigin : s.origin = 0 := if_neg hin
    have hahead : s.ahead = s.m.nodes.toList := by
      unfold Prober.ahead
      rw [horigin, List.rotate_zero]
    rcases s.m.probeTurn_outside (b := (s.probeIdx + 1).toNat) (by omega) with
      ⟨hall, hturn⟩ | ⟨front, p, back, hsplit, hfront, hp, hturn⟩
    · exact ⟨_, nextProbeNode_first h hturn rfl, .exhausted hall⟩
    · refine ⟨_, nextProbeNode_first h hturn rfl,
        .stopped front back (hahead.trans hsplit) hfront hp ?_ hsize ?_⟩
      · have := congrArg List.length hsplit
        rw [hlen, List.length_append, List.length_cons] at this
        omega
      · rw [horigin, Nat.zero_add]

/-! ## Taking turns -/

/-- A call in terms of the candidates: the first one is returned and goes to the end. -/
theorem nextProbeNode_takes {s : Prober H} (h : s.Indexable) (hsize : s.m.nodes.size < 2 ^ 63)
    {p : Nat} {rest : List Nat} (hcand : s.candidates = p :: rest) :
    ∃ t wrapAround, s.nextProbeNode = some (.ok (s.m.records p), t) ∧ t.m = s.m ∧
      t.Indexable ∧ t.candidates = rest ++ [p] ∧
      t.calls = s.calls ++ [⟨wrapAround, some p, .ok (s.m.records p)⟩] := by
  obtain ⟨r, hr, hturn⟩ := nextProbeNode_turn s h hsize
  cases hturn with
  | nobody t hnone =>
    have hnil : s.candidates = [] :=
      List.filter_eq_nil_iff.mpr fun q hq => by simpa using hnone q hq
    rw [hnil] at hcand
    cases hcand
  | took t front q back wrapAround hsplit hfront hq hm hidx hcalls hahead =>
    have hnil : front.filter (fun p => s.m.Candidate p) = [] :=
      List.filter_eq_nil_iff.mpr fun q hq => by simpa using hfront q hq
    unfold Prober.candidates at hcand
    rw [hsplit, List.filter_append, hnil, List.nil_append,
      List.filter_cons_of_pos (by simpa using hq)] at hcand
    obtain ⟨rfl, hrest⟩ := List.cons.inj hcand
    refine ⟨t, wrapAround, hr, hm, hidx, ?_, hcalls⟩
    unfold Prober.candidates
    rw [hm, hahead, List.filter_append, List.filter_append, hnil, hrest, List.nil_append,
      List.filter_cons_of_pos (by simpa using hq), List.filter_nil]

section Turns

variable [Encoded Msg] [Heap H (TransmitCapItem Msg)]

/-- As many calls as there are candidates in `ps` return these, if they come first. -/
theorem nextProbeNode_turns (ps : List Nat) : ∀ {s : Prober H} {rest : List Nat},
    s.Indexable → s.m.nodes.size < 2 ^ 63 → s.candidates = ps ++ rest →
    ∃ t cs, run Prober.act (List.replicate ps.length .nextProbeNode) s = some t ∧ t.m = s.m ∧
      t.calls = s.calls ++ cs ∧ cs.map (·.found) = ps.map some ∧
      cs.map (·.result) = ps.map fun p => .ok (s.m.records p) := by
  induction ps with
  | nil =>
    intro s rest _ _ _
    exact ⟨s, [], rfl, rfl, (List.append_nil _).symm, rfl, rfl⟩
  | cons p ps ih =>
    intro s rest h hsize hcand
    rw [List.cons_append] at hcand
    obtain ⟨t, wrapAround, hcall, hm, hidx, hnext, hcalls⟩ := nextProbeNode_takes h hsize hcand
    rw [List.append_assoc] at hnext
    obtain ⟨u, cs, hrun, hmu, hcallsu, hfound, hresult⟩ := ih hidx (hm ▸ hsize) hnext
    refine ⟨u, ⟨wrapAround, some p, .ok (s.m.records p)⟩ :: cs, ?_, hmu.trans hm, ?_, ?_, ?_⟩
    · rw [List.length_cons, List.replicate_succ, run_cons]
      show (s.nextProbeNode.map Prod.snd).bind _ = _
      rw [hcall]
      exact hrun
    · rw [hcallsu, hcalls, List.append_assoc, List.singleton_append]
    · rw [List.map_cons, List.map_cons, hfound]
    · rw [List.map_cons, List.map_cons, hresult, hm]

/-- **Everybody is probed in turn.** Take any list of nodes, as long as a slice can be, and any
`probeIdx` from -1 on but the largest `int`. A call of `nextProbeNode` returns; it fails exactly
when no node of the list is a candidate, and otherwise returns the first candidate in cyclic
order. As many calls as there are candidates, one after the other, return every one of them, each
once. -/
theorem nextProbeNode_cyclic (s : Prober H) (h : -1 ≤ s.probeIdx)
    (hmax : s.probeIdx < 2 ^ 63 - 1) (hsize : s.m.nodes.size < 2 ^ 63) :
    (∃ res t, s.nextProbeNode = some (res, t) ∧ t.m = s.m ∧
      ((∃ e, res = .error e) ↔ ∀ p ∈ s.m.nodes.toList, ¬ s.m.Candidate p) ∧
      ∀ p, s.ahead.find? (fun q => s.m.Candidate q) = some p → res = .ok (s.m.records p)) ∧
    ∃ (t : Prober H) (cs : List ProbeCall) (ps : List Nat),
      run Prober.act
        (List.replicate (s.m.nodes.toList.countP fun p => s.m.Candidate p) .nextProbeNode) s =
          some t ∧
      t.m = s.m ∧ t.calls = s.calls ++ cs ∧ cs.map (·.found) = ps.map some ∧
      cs.map (·.result) = ps.map (fun p => .ok (s.m.records p)) ∧
      ps.Perm (s.m.nodes.toList.filter fun p => s.m.Candidate p) := by
  have hidx : s.Indexable := ⟨h, hmax⟩
  constructor
  · obtain ⟨r, hr, hturn⟩ := nextProbeNode_turn s hidx hsize
    cases hturn with
    | nobody t hnone hm =>
      refine ⟨_, t, hr, hm, ⟨fun _ p hp => hnone p (List.mem_rotate.mpr hp), fun _ => ⟨_, rfl⟩⟩, ?_⟩
      intro p hp
      exact absurd (by simpa using List.find?_some hp) (hnone p (List.mem_of_find?_eq_some hp))
    | took t front q back wrapAround hsplit hfront hq hm =>
      refine ⟨_, t, hr, hm, ⟨fun ⟨e, he⟩ => (nomatch he), fun hnone => ?_⟩, ?_⟩
      · have hmem : q ∈ s.ahead := by
          rw [hsplit]
          exact List.mem_append_right _ List.mem_cons_self
        exact absurd hq (hnone q (List.mem_rotate.mp hmem))
      · intro p hp
        -- nobody it passed by is a candidate
        have hnil : front.find? (fun q => s.m.Candidate q) = none :=
          List.find?_eq_none.mpr fun q hq => by simpa using hfront q hq
        rw [hsplit, List.find?_append, hnil, Option.none_or,
          List.find?_cons_of_pos (by simpa using hq)] at hp
        rw [Option.some.inj hp]
  · have hperm : s.candidates.Perm (s.m.nodes.toList.filter fun p => s.m.Candidate p) :=
      (List.rotate_perm _ _).filter _
    obtain ⟨t, cs, hrun, hm, hcalls, hfound, hresult⟩ :=
      nextProbeNode_turns s.candidates hidx hsize (List.append_nil _).symm
    refine ⟨t, cs, s.candidates, ?_, hm, hcalls, hfound, hresult, hperm⟩
    rw [List.countP_eq_length_filter, ← hperm.length_eq]
    exact hrun

end Turns

open Concrete in
/-- Two members besides us, and an index past the end: two calls return the two. -/
theorem nextProbeNode_cyclic_two :
    let other : Alive :=
      { lives := 1, id := "other", ip := [127, 0, 0, 3], port := 7946, tags := [] }
    let m := state [.alive {} (aliveMsg 1) none, .alive {} other none] (by decide)
    let s := Prober.start m 7
    m.nodes = #[2, 0, 1] ∧ -1 ≤ s.probeIdx ∧ s.probeIdx < 2 ^ 63 - 1 ∧ m.nodes.size < 2 ^ 63 ∧
      (∃ t, s.nextProbeNode = some (.ok (m.records 2), t)) ∧
      ∃ t, run Prober.act [.nextProbeNode, .nextProbeNode] s = some t ∧
        ∃ ps : List Nat, t.calls.map (·.found) = ps.map some ∧ ps.Perm [2, 1] := by
  intro other m s
  obtain ⟨⟨res, t, hcall, -, -, hfirst⟩, u, cs, ps, hrun, -, hcalls, hfound, -, hperm⟩ :=
    nextProbeNode_cyclic s (by decide) (by decide) (by decide)
  refine ⟨by decide, by decide, by decide, by decide, ⟨t, ?_⟩, u, hrun, ps, ?_, hperm⟩
  · rw [hcall, hfirst 2 (by decide)]
    rfl
  · rw [hcalls]
    exact hfound

open Concrete in
/-- With the largest `int` for an index, a call crashes though there is somebody to probe. -/
theorem nextProbeNode_wraps :
    let m := state [.alive {} (aliveMsg 1) none] (by decide)
    let s := Prober.start m (2 ^ 63 - 1)
    (∃ p ∈ m.nodes.toList, m.Candidate p) ∧ -1 ≤ s.probeIdx ∧ s.nextProbeNode.isNone :=
  ⟨⟨1, by decide, by decide⟩, by decide, by decide⟩

end Mlist
