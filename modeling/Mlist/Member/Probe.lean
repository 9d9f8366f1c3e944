import Mlist.Member.Registry
import Mlist.Model.Probe

/-!
# The failure detector misses nobody

While a round of the failure detector is under way, new nodes are inserted at random places
of `m.nodes`: each takes the place of another one, which goes to the end. A node the index
has yet to come to (`Pending`) can therefore only move further away from it; and as long as
it is a candidate — not the member itself, alive or suspect — no call passes over it. So
there are two things a call can do when a node is pending: return it, or stop before it.
Either way it does not set the index back to 0.

How long it takes is bounded by what is in the slice: the index goes up with every call.
-/

namespace Mlist

open Mlist.Lib

variable {H : Type} {m m' : Memberlist H} {p : Nat}

/-- A node the failure detector may probe: not us, and neither dead nor gone. -/
def Memberlist.Candidate (m : Memberlist H) (p : Nat) : Prop :=
  (m.records p).node.id ≠ m.id ∧ (m.records p).deadOrLeft = false

instance (m : Memberlist H) (p : Nat) : Decidable (m.Candidate p) :=
  inferInstanceAs (Decidable (_ ∧ _))

theorem Memberlist.probeSkips_eq_false : m.probeSkips p = false ↔ m.Candidate p := by
  unfold Memberlist.probeSkips Memberlist.Candidate
  rw [Bool.or_eq_false_iff, beq_eq_false_iff_ne]

/-- The pointers in the slice have been allocated. -/
def Memberlist.Allocated (m : Memberlist H) : Prop := ∀ p ∈ m.nodes.toList, p < m.numRecords

/-! ## The slice between two calls -/

/-- What becomes of the slice: the nodes in it stay, none of them moves towards the front,
and their records stay records of the same nodes. -/
structure Slides (m m' : Memberlist H) : Prop where
  id : m'.id = m.id
  allocated : m'.Allocated
  forward : ∀ p j : Nat, m.nodes[j]? = some p → ∃ j', j ≤ j' ∧ m'.nodes[j']? = some p
  ids : ∀ p ∈ m.nodes.toList, (m'.records p).node.id = (m.records p).node.id

theorem slides_refl (h : m.Allocated) : Slides m m :=
  ⟨rfl, h, fun _ j hj => ⟨j, Nat.le_refl _, hj⟩, fun _ _ => rfl⟩

theorem Slides.mem (h : Slides m m') (hp : p ∈ m.nodes.toList) : p ∈ m'.nodes.toList := by
  obtain ⟨j, hj⟩ := List.mem_iff_getElem?.mp hp
  rw [Array.getElem?_toList] at hj
  obtain ⟨j', -, hj'⟩ := h.forward p j hj
  rw [← Array.getElem?_toList] at hj'
  exact List.mem_iff_getElem?.mpr ⟨j', hj'⟩

/-- Sliding towards the end and once more towards the end. -/
theorem Slides.trans {m'' : Memberlist H} (h : Slides m m') (h' : Slides m' m'') :
    Slides m m'' := by
  refine ⟨h'.id.trans h.id, h'.allocated, ?_, ?_⟩
  · intro p j hj
    obtain ⟨j₁, hle₁, hj₁⟩ := h.forward p j hj
    obtain ⟨j₂, hle₂, hj₂⟩ := h'.forward p j₁ hj₁
    exact ⟨j₂, Nat.le_trans hle₁ hle₂, hj₂⟩
  · intro p hp
    exact (h'.ids p (h.mem hp)).trans (h.ids p hp)

/-- Changes that leave the slice alone and rewrite a record of the same node at most. -/
theorem Slides.of_same (h : m.Allocated) (hid : m'.id = m.id) (hnodes : m'.nodes = m.nodes)
    (hnum : m'.numRecords = m.numRecords)
    (hids : ∀ p, (m'.records p).node.id = (m.records p).node.id) : Slides m m' := by
  refine ⟨hid, ?_, ?_, fun p _ => hids p⟩
  · unfold Memberlist.Allocated
    rw [hnodes, hnum]
    exact h
  · intro p j hj
    exact ⟨j, Nat.le_refl _, by rw [hnodes]; exact hj⟩

theorem setRecord_ids {q : Nat} {r : NodeState} (h : r.node.id = (m.records q).node.id) (p : Nat) :
    ((m.setRecord q r).records p).node.id = (m.records p).node.id := by
  show (Function.update m.records q r p).node.id = _
  by_cases hp : p = q
  · rw [hp, Function.update_self, h]
  · rw [Function.update_of_ne hp]

/-- A new node takes a drawn place, and the one that was there goes to the end: nobody comes
nearer to the front. -/
theorem insertNode_slides (h : m.Allocated) (env : Env) (r : NodeState) :
    Slides m (m.insertNode env r) := by
  have hperm := Registry.insert_nodes_perm m env r
  refine ⟨rfl, ?_, ?_, ?_⟩
  · intro q hq
    show q < m.numRecords + 1
    rcases List.mem_cons.mp (hperm.mem_iff.mp hq) with rfl | hq
    · exact Nat.lt_succ_self _
    · exact Nat.lt_succ_of_lt (h q hq)
  · intro q j hj
    refine pushSwap_forward hj m.numRecords ?_
    -- the place is drawn from those there are
    unfold randIntN
    split
    next hzero => exact Nat.zero_le _
    next =>
      split
      next => exact Nat.le_refl _
      next hpos =>
        exact (Nat.mod_lt _ (Nat.pos_of_ne_zero hpos)).le.trans (Nat.mod_le _ _)
  · intro q hq
    show (Function.update m.records m.numRecords r q).node.id = _
    rw [Function.update_of_ne (Nat.ne_of_lt (h q hq))]

section Runs

variable [Encoded Msg] [Heap H (TransmitCapItem Msg)]

theorem atom_slides {ok : Msg → Prop} (h : m.Allocated) (ha : Atom ok m m') : Slides m m' := by
  cases ha with
  | quiet hq =>
    refine Slides.of_same h hq.same.id hq.same.nodes hq.same.numRecords fun q => ?_
    rw [hq.same.records]
  | insert env a _ habs => exact insertNode_slides h env (Memberlist.freshRecord env a)
  | revive env a q _ hmap _ => exact Slides.of_same h rfl rfl rfl (setRecord_ids rfl)
  | confirm s q k _ _ _ => exact Slides.of_same h rfl rfl rfl fun _ => rfl
  | refute msg q calls _ _ hmap _ _ _ => exact Slides.of_same h rfl rfl rfl (setRecord_ids rfl)
  | suspect env s q _ hmap _ _ _ _ => exact Slides.of_same h rfl rfl rfl (setRecord_ids rfl)
  | kill env d q _ hmap _ _ _ => exact Slides.of_same h rfl rfl rfl (setRecord_ids rfl)

/-- No sequence of changes brings anybody nearer to the front. -/
theorem atoms_slides {ok : Msg → Prop} (h : m.Allocated) (ha : Atoms ok m m') : Slides m m' := by
  refine ha.inv (P := fun s => Slides m s) ?_ (slides_refl h)
  intro s t hs hst
  exact hs.trans (atom_slides hs.allocated hst)

/-- Every operation but `reap` only lets the slice grow. -/
theorem step_slides (h : m.Allocated) {op : Op} (hop : ∀ env, op ≠ .reap env)
    (hs : step op m = some m') : Slides m m' := by
  rcases step_atoms (opOk_true m op) hs with ha | ⟨env, k, -, -, -, -, ha⟩ | ⟨env, he, -⟩
  · exact atoms_slides h ha
  · have hspent : Slides m (m.disarm k) := Slides.of_same h rfl rfl rfl fun _ => rfl
    exact hspent.trans (atoms_slides hspent.allocated ha)
  · exact absurd he (hop env)

/-! ## One call -/

/-- The node is in the slice, behind the index. -/
def Prober.Pending (s : Prober H) (p : Nat) : Prop :=
  ∃ j : Nat, s.m.nodes[j]? = some p ∧ s.probeIdx < j

omit [Encoded Msg] [Heap H (TransmitCapItem Msg)] in
/-- A call adds itself to the history, and leaves the membership alone. -/
theorem nextProbeNode_frame {s : Prober H} {res : Except String NodeState × Prober H}
    (h : s.nextProbeNode = some res) : res.2.m = s.m ∧ ∃ c, res.2.calls = s.calls ++ [c] := by
  unfold Prober.nextProbeNode at h
  split at h
  next => cases h
  next =>
    obtain rfl := Option.some.inj h
    exact ⟨rfl, _, rfl⟩

omit [Encoded Msg] [Heap H (TransmitCapItem Msg)] in
/-- **A call that finds a pending candidate** returns it or stops before it, moves the index
on, and does not set it back. -/
theorem nextProbeNode_pending {s : Prober H} {res : Except String NodeState × Prober H}
    (hp : s.Pending p) (hc : s.m.Candidate p) (h : s.nextProbeNode = some res) :
    ∃ q, res.2.m = s.m ∧ s.probeIdx < res.2.probeIdx ∧
      res.2.calls = s.calls ++ [⟨false, some q, .ok (s.m.records q)⟩] ∧
      (q = p ∨ res.2.Pending p) := by
  obtain ⟨j, hj, hlt⟩ := hp
  obtain ⟨hsize, -⟩ := Array.getElem?_eq_some_iff.mp hj
  unfold Prober.nextProbeNode at h
  split at h
  next => cases h
  next hpos =>
    -- the first round does not wrap around, and stops at the node at the latest
    obtain ⟨i, q, hseek, hlo, hhi, hq⟩ := seek_stops hj (Memberlist.probeSkips_eq_false.mpr hc)
      (s.m.nodes.size - (s.probeIdx + 1).toNat)
      (show (s.probeIdx + 1).toNat ≤ j by omega) (by omega)
    have hturn : s.m.probeTurn (s.probeIdx + 1).toNat = (false, i, some q) := by
      unfold Memberlist.probeTurn
      rw [if_neg (by omega)]
      dsimp only
      rw [hseek]
    rw [hturn] at h
    obtain rfl := Option.some.inj h
    refine ⟨q, rfl, ?_, rfl, ?_⟩
    · show s.probeIdx < (i : Int)
      omega
    · by_cases hij : i = j
      · exact Or.inl (hq hij)
      · refine Or.inr ⟨j, hj, ?_⟩
        show (i : Int) < j
        omega

/-! ## A round -/

/-- Some call has returned a clone of the record, and no call up to that one has set the
index back. -/
def Prober.Returned (m₀ : Memberlist H) (p : Nat) (s : Prober H) : Prop :=
  ∃ before c after n, s.calls = before ++ c :: after ∧
    (∀ d ∈ before ++ [c], d.wrapAround = false) ∧ c.found = some p ∧ c.result = .ok n ∧
    n.node.id = (m₀.records p).node.id

/-- The node is still pending, and the index has gone up with every call. -/
structure Prober.Waiting (probeIdx : Int) (p : Nat) (s : Prober H) : Prop where
  pending : s.Pending p
  index : probeIdx + s.calls.length ≤ s.probeIdx
  forward : ∀ c ∈ s.calls, c.wrapAround = false

/-- The invariant of a round. -/
structure Prober.Round (m₀ : Memberlist H) (probeIdx : Int) (p : Nat) (s : Prober H) : Prop where
  slides : Slides m₀ s.m
  accounted : s.Returned m₀ p ∨ s.Waiting probeIdx p

omit [Encoded Msg] [Heap H (TransmitCapItem Msg)] in
theorem nextProbeNode_round {m₀ : Memberlist H} {probeIdx : Int} {s : Prober H}
    {res : Except String NodeState × Prober H} (hmem : p ∈ m₀.nodes.toList)
    (h : s.Round m₀ probeIdx p) (hc : s.m.Candidate p) (hres : s.nextProbeNode = some res) :
    res.2.Round m₀ probeIdx p := by
  obtain ⟨hm, c, hcalls⟩ := nextProbeNode_frame hres
  refine ⟨hm ▸ h.slides, ?_⟩
  rcases h.accounted with ⟨before, d, after, n, hsplit, hrest⟩ | hwait
  · -- returned before, and history stays
    left
    refine ⟨before, d, after ++ [c], n, ?_, hrest⟩
    rw [hcalls, hsplit, List.append_assoc, List.cons_append]
  · obtain ⟨q, -, hlt, hcalls, hor⟩ := nextProbeNode_pending hwait.pending hc hres
    have hforward : ∀ d ∈ s.calls ++ [⟨false, some q, .ok (s.m.records q)⟩],
        d.wrapAround = false := by
      intro d hd
      rcases List.mem_append.mp hd with hold | hnew
      · exact hwait.forward d hold
      · rw [List.mem_singleton.mp hnew]
    rcases hor with rfl | hp
    · exact Or.inl ⟨s.calls, _, [], _, hcalls, hforward, rfl, rfl, h.slides.ids q hmem⟩
    · refine Or.inr ⟨hp, ?_, hcalls ▸ hforward⟩
      have hidx := hwait.index
      rw [hcalls, List.length_append, List.length_singleton]
      push_cast
      omega

/-- While it is a candidate, whatever happens but a reap, a node keeps its turn in the round. -/
theorem act_round {m₀ : Memberlist H} {probeIdx : Int} {s t : Prober H} {a : ProbeAction}
    (hmem : p ∈ m₀.nodes.toList) (h : s.Round m₀ probeIdx p) (hc : s.m.Candidate p)
    (ha : ∀ env, a ≠ .op (.reap env)) (hact : Prober.act a s = some t) :
    t.Round m₀ probeIdx p := by
  cases a with
  | nextProbeNode =>
    obtain ⟨res, hres, rfl⟩ := Option.map_eq_some_iff.mp hact
    exact nextProbeNode_round hmem h hc hres
  | op op =>
    obtain ⟨m', hm', rfl⟩ := Option.map_eq_some_iff.mp hact
    have hs := step_slides h.slides.allocated (fun env he => ha env (congrArg _ he)) hm'
    refine ⟨h.slides.trans hs, h.accounted.imp_right ?_⟩
    intro hwait
    obtain ⟨j, hj, hlt⟩ := hwait.pending
    obtain ⟨j', hle, hj'⟩ := hs.forward p j hj
    refine ⟨⟨j', hj', ?_⟩, hwait.index, hwait.forward⟩
    show s.probeIdx < (j' : Int)
    omega

/-- **The failure detector misses nobody.** Take any slice of nodes, any `probeIdx`, and a
node that stands behind it. Whatever the member does then, short of a reap — calls of
`nextProbeNode`, and new nodes inserted at any places — as long as the node remains a
candidate: it has been returned by a call, with no call up to that one setting `probeIdx`
back to 0; or no call has set it back, nor does the next one, and there have been fewer calls
than there are nodes behind the place where the index was. -/
theorem probe_misses_nobody (halloc : m.Allocated) {probeIdx : Int} {j : Nat}
    (hj : m.nodes[j]? = some p) (hlt : probeIdx < j) {as : List ProbeAction} {t : Prober H}
    (hno : ∀ a ∈ as, ∀ env, a ≠ .op (.reap env))
    (hcand : Along Prober.act (fun s => s.m.Candidate p) as (Prober.start m probeIdx))
    (hrun : run Prober.act as (Prober.start m probeIdx) = some t) :
    (∃ before c after n, t.calls = before ++ c :: after ∧
      (∀ d ∈ before ++ [c], d.wrapAround = false) ∧ c.found = some p ∧ c.result = .ok n ∧
      n.node.id = (m.records p).node.id) ∨
    (∀ c ∈ t.calls, c.wrapAround = false) ∧
      (∀ res, t.nextProbeNode = some res → ∀ c ∈ res.2.calls, c.wrapAround = false) ∧
      probeIdx + t.calls.length < t.m.nodes.size - 1 := by
  have hmem : p ∈ m.nodes.toList := by
    rw [← Array.getElem?_toList] at hj
    exact List.mem_iff_getElem?.mpr ⟨j, hj⟩
  have hstart : (Prober.start m probeIdx).Round m probeIdx p := by
    refine ⟨slides_refl halloc, Or.inr ⟨⟨j, hj, hlt⟩, ?_, fun c hc => absurd hc List.not_mem_nil⟩⟩
    exact Int.le_of_eq (Int.add_zero _)
  have hround : t.Round m probeIdx p :=
    run_inv_each (fun a s t hs hC hact => act_round hmem hs hC.1 hC.2 hact) hstart
      (hcand.each hno) hrun
  have hct : t.m.Candidate p := hcand.last hrun
  refine hround.accounted.imp_right fun hwait => ⟨hwait.forward, ?_, ?_⟩
  · intro res hres c hcall
    obtain ⟨q, -, -, hcalls, -⟩ := nextProbeNode_pending hwait.pending hct hres
    rw [hcalls] at hcall
    rcases List.mem_append.mp hcall with hold | hnew
    · exact hwait.forward c hold
    · rw [List.mem_singleton.mp hnew]
  · obtain ⟨i, hi, hlt⟩ := hwait.pending
    obtain ⟨hsize, -⟩ := Array.getElem?_eq_some_iff.mp hi
    have hidx := hwait.index
    omega

end Runs

open Concrete in
/-- A new node takes the place of the one at the front, which goes to the end. Three calls
later it has been returned. -/
theorem probe_misses_nobody_moved :
    let m := state [.alive {} (aliveMsg 1) none] (by decide)
    let other : Alive :=
      { lives := 1, id := "other", ip := [127, 0, 0, 3], port := 7946, tags := [] }
    let as := [.op (.alive {} other none), .nextProbeNode, .nextProbeNode, .nextProbeNode]
    m.nodes = #[1, 0] ∧
      (run Prober.act as (Prober.start m (-1))).map (·.m.nodes) = some #[2, 0, 1] ∧
      ∃ t, run Prober.act as (Prober.start m (-1)) = some t ∧ ∃ c ∈ t.calls, c.found = some 1 := by
  intro m other as
  have hrun : (run Prober.act as (Prober.start m (-1))).isSome = true := by decide
  obtain ⟨t, ht⟩ := Option.isSome_iff_exists.mp hrun
  have hlen : (run Prober.act as (Prober.start m (-1))).map
      (fun s => (s.calls.length, s.m.nodes.size)) = some (3, 3) := by decide
  rw [ht] at hlen
  obtain ⟨hcalls, hsize⟩ := Prod.mk.inj (Option.some.inj hlen)
  refine ⟨by decide, by decide, t, ht, ?_⟩
  have halloc : m.Allocated := (reachable_registry (reachable_state _ (by decide))).alloc
  rcases probe_misses_nobody halloc (p := 1) (j := 0) rfl (by decide)
    (fun a ha env he => by simp [as, he] at ha) (by decide) ht with
    ⟨before, c, after, n, hsplit, -, hfound, -⟩ | ⟨-, -, hfew⟩
  · exact ⟨c, by rw [hsplit]; simp, hfound⟩
  · rw [hcalls, hsize] at hfew
    omega

end Mlist
