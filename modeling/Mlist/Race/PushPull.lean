import Mathlib.Algebra.Group.Int.Defs
import Mathlib.Algebra.Group.Nat.Defs
import Mathlib.Data.List.Nodup
import Mlist.Lib.Run

/-!
# The limit on push/pull requests

`handlePushPull` (`net_handlers.go`) runs once for each connection, in a goroutine of its
own. It adds one to `m.numPushPull`, compares what that made of the counter with
`MaxPushPulls`, serves the request or turns it away, and takes the one off again in a
deferred call, as `AddUint32(&m.numPushPull, ^uint32(0))`.

`MaxPushPulls` is the number of maximum concurrent push/pulls (`config.go`). A call counts
itself before it compares, with `>=`: it is turned away when it would be the last one
allowed, so that one request fewer is served than the limit says, and none at all where it
is one (`sole_request_rejected`). In a call, `others` is history: how many calls were in
progress when it was counted.

The calls in progress are listed newest first. Those behind a call in the list were there
when it was counted and are there still, so they are at most as many as it counted then
(`Ranked`), which bounds how many are served together whatever has been going on in between.
-/

namespace Mlist

open Mlist.Lib

/-! ## The model -/

/-- How far a push/pull has got. -/
inductive PushPullPhase where
  /-- about to compare -/
  | counted
  | serving
  /-- turned away, about to return -/
  | rejected
  deriving DecidableEq, Repr

/-- A call of `handlePushPull` between its increment and its decrement. -/
structure PushPull where
  id : Nat
  nPP : UInt32
  others : Nat
  phase : PushPullPhase
  deriving DecidableEq, Repr

/-- The counter, and the calls in progress. -/
structure PushPullSys where
  maxPushPulls : Int
  numPushPull : UInt32
  nextId : Nat
  calls : List PushPull
  deriving DecidableEq, Repr

/-- One uninterrupted piece of a call. Whatever a request that is served comes to — it
cannot be read, the answer cannot be sent, or it is merged — the call then returns. -/
inductive PushPullAction where
  | increment
  | check (k : Nat)
  | decrement (k : Nat)
  deriving DecidableEq, Repr

namespace PushPullSys

/-- Before the first request. -/
def start (maxPushPulls : Int) : PushPullSys :=
  { maxPushPulls, numPushPull := 0, nextId := 0, calls := [] }

/-- `uint32(m.config.MaxPushPulls)`. -/
def limit (maxPushPulls : Int) : UInt32 := UInt32.ofInt maxPushPulls

/-- The call `k` gets on to `phase`. -/
def mark (k : Nat) (phase : PushPullPhase) (c : PushPull) : PushPull :=
  if c.id = k then { c with phase } else c

def call (k : Nat) (s : PushPullSys) : Option PushPull := s.calls.find? fun c => c.id == k

/-- The calls that are served. -/
def served (s : PushPullSys) : Nat := s.calls.countP fun c => decide (c.phase = .serving)

/-- One action, `none` if it is not possible. -/
def act : PushPullAction → PushPullSys → Option PushPullSys
  | .increment, s =>
    let nPP := s.numPushPull + 1
    some { s with
      numPushPull := nPP
      nextId := s.nextId + 1
      calls := { id := s.nextId, nPP, others := s.calls.length, phase := .counted } :: s.calls }
  | .check k, s =>
    match s.call k with
    | none => none
    | some c =>
      if c.phase ≠ .counted then none
      else
        let phase := if c.nPP ≥ limit s.maxPushPulls then .rejected else .serving
        some { s with calls := s.calls.map (mark k phase) }
  | .decrement k, s =>
    match s.call k with
    | none => none
    | some c =>
      if c.phase = .counted then none
      else
        some { s with
          numPushPull := s.numPushPull + ~~~0
          calls := s.calls.eraseP fun d => d.id == k }

/-! ## The ways through an action -/

/-- What an action that is possible does. -/
inductive Acts (s : PushPullSys) : PushPullAction → PushPullSys → Prop where
  | counted : Acts s .increment { s with
      numPushPull := s.numPushPull + 1
      nextId := s.nextId + 1
      calls := { id := s.nextId, nPP := s.numPushPull + 1, others := s.calls.length
                 phase := .counted } :: s.calls }
  | checked (c : PushPull) (hc : c ∈ s.calls) (hphase : c.phase = .counted) :
    Acts s (.check c.id) { s with
      calls :=
        s.calls.map (mark c.id (if c.nPP ≥ limit s.maxPushPulls then .rejected else .serving)) }
  | returned (c : PushPull) (hc : c ∈ s.calls) :
    Acts s (.decrement c.id) { s with
      numPushPull := s.numPushPull + ~~~0
      calls := s.calls.eraseP fun d => d.id == c.id }

variable {s t : PushPullSys} {a : PushPullAction}

theorem call_some {k : Nat} {c : PushPull} (h : s.call k = some c) : c ∈ s.calls ∧ c.id = k := by
  have hid := List.find?_some h
  exact ⟨List.mem_of_find?_eq_some h, eq_of_beq hid⟩

/-- Every step is one of these. -/
theorem act_case (h : act a s = some t) : Acts s a t := by
  cases a with
  | increment => exact Option.some.inj h ▸ .counted
  | check k =>
    dsimp only [act] at h
    split at h
    next => cases h
    next c hc =>
      obtain ⟨hmem, rfl⟩ := call_some hc
      split at h
      next => cases h
      next hphase => exact Option.some.inj h ▸ .checked c hmem (Decidable.not_not.mp hphase)
  | decrement k =>
    dsimp only [act] at h
    split at h
    next => cases h
    next c hc =>
      obtain ⟨hmem, rfl⟩ := call_some hc
      split at h
      next => cases h
      next => exact Option.some.inj h ▸ .returned c hmem

@[simp] theorem mark_id (k : Nat) (phase : PushPullPhase) (c : PushPull) :
    (mark k phase c).id = c.id := by
  unfold mark
  split <;> rfl

@[simp] theorem mark_nPP (k : Nat) (phase : PushPullPhase) (c : PushPull) :
    (mark k phase c).nPP = c.nPP := by
  unfold mark
  split <;> rfl

@[simp] theorem mark_others (k : Nat) (phase : PushPullPhase) (c : PushPull) :
    (mark k phase c).others = c.others := by
  unfold mark
  split <;> rfl

/-! ## The invariant -/

/-- Behind each call are at most the calls it counted. -/
def Ranked : List PushPull → Prop
  | [] => True
  | c :: rest => rest.length ≤ c.others ∧ Ranked rest

theorem Ranked.sublist {l l' : List PushPull} (hsub : l'.Sublist l) (h : Ranked l) : Ranked l' := by
  induction hsub with
  | slnil => exact trivial
  | cons c _ ih => exact ih h.2
  | cons_cons c hs ih => exact ⟨Nat.le_trans hs.length_le h.1, ih h.2⟩

/-- Ranks do not depend on how far a call has got. -/
theorem Ranked.map {f : PushPull → PushPull} (hf : ∀ c, (f c).others = c.others) :
    ∀ {l : List PushPull}, Ranked l → Ranked (l.map f) := by
  intro l
  induction l with
  | nil => intro _; exact trivial
  | cons c rest ih =>
    intro h
    refine ⟨?_, ih h.2⟩
    rw [List.length_map, hf]
    exact h.1

/-- Where every call that is served counted fewer than `limit` calls, itself included, no
more than `limit` are served together. -/
theorem Ranked.served_le {limit : Nat} : ∀ {l : List PushPull}, Ranked l →
    (∀ c ∈ l, c.phase = .serving → c.others + 1 < limit) →
    (l.countP fun c => decide (c.phase = .serving)) ≤ limit := by
  intro l
  induction l with
  | nil => intro _ _; exact Nat.zero_le _
  | cons c rest ih =>
    intro h hserved
    by_cases hc : c.phase = .serving
    · -- the newest one served has counted all the others
      have hlt := hserved c (List.mem_cons_self ..) hc
      have hrest : (rest.countP fun c => decide (c.phase = .serving)) ≤ rest.length :=
        List.countP_le_length
      rw [List.countP_cons, if_pos (decide_eq_true hc)]
      have hrank := h.1
      omega
    · rw [List.countP_cons, if_neg (by simp [hc]), Nat.add_zero]
      exact ih h.2 fun d hd => hserved d (List.mem_cons_of_mem _ hd)

/-- What holds of the calls in progress. -/
structure Inv (s : PushPullSys) : Prop where
  positive : 1 ≤ s.maxPushPulls
  ids : (s.calls.map (·.id)).Nodup
  fresh : ∀ c ∈ s.calls, c.id < s.nextId
  ranked : Ranked s.calls
  number : ∀ c ∈ s.calls, c.nPP.toNat = c.others + 1
  serving : ∀ c ∈ s.calls, c.phase = .serving → c.nPP < limit s.maxPushPulls

/-- What the limit should come to: the counter is the number of calls in progress, at most
`MaxPushPulls` of them are served, and one that is turned away found that many others. -/
structure Sound (s : PushPullSys) : Prop where
  counter : s.numPushPull.toNat = s.calls.length
  served : (s.served : Int) ≤ s.maxPushPulls
  rejected : ∀ c ∈ s.calls, c.phase = .rejected → s.maxPushPulls ≤ c.others

/-- The limit is the configured one as a `uint32`. -/
theorem toNat_limit (max : Int) : ((limit max).toNat : Int) = max % 2 ^ 32 := by
  have hlt : (max % 2 ^ 32).toNat < 2 ^ 32 := by omega
  have hlimit : (limit max).toNat = (max % 2 ^ 32).toNat := by
    unfold limit UInt32.ofInt
    rw [UInt32.toNat_ofNat']
    exact Nat.mod_eq_of_lt hlt
  rw [hlimit]
  omega

/-- No more are served than configured. -/
theorem Inv.served_le (h : Inv s) : (s.served : Int) ≤ s.maxPushPulls := by
  have hle : s.served ≤ (limit s.maxPushPulls).toNat := by
    refine h.ranked.served_le fun c hc hphase => ?_
    rw [← h.number c hc]
    exact UInt32.lt_iff_toNat_lt.mp (h.serving c hc hphase)
  have hlimit := toNat_limit s.maxPushPulls
  have hpos := h.positive
  omega

theorem Inv.call_of_mem (h : Inv s) {c : PushPull} (hc : c ∈ s.calls) : s.call c.id = some c := by
  cases hfind : s.call c.id with
  | none =>
    have hnone := List.find?_eq_none.mp hfind c hc
    exact absurd (beq_self_eq_true c.id) hnone
  | some d =>
    obtain ⟨hd, hid⟩ := call_some hfind
    rw [List.inj_on_of_nodup_map h.ids hd hc hid]

/-- One action keeps it, as long as the counter does not run over. -/
theorem act_inv (h : Inv s) (hcount : t.numPushPull.toNat = t.calls.length)
    (ha : act a s = some t) : Inv t := by
  cases act_case ha with
  | counted =>
    refine ⟨h.positive, ?_, ?_, ⟨Nat.le_refl _, h.ranked⟩, ?_, ?_⟩
    · -- the new one has an identifier nobody has
      refine List.nodup_cons.mpr ⟨fun hmem => ?_, h.ids⟩
      obtain ⟨c, hc, hid⟩ := List.mem_map.mp hmem
      exact absurd hid (Nat.ne_of_lt (h.fresh c hc))
    · intro c hc
      rcases List.mem_cons.mp hc with rfl | hc
      · exact Nat.lt_succ_self _
      · exact Nat.lt_succ_of_lt (h.fresh c hc)
    · intro c hc
      rcases List.mem_cons.mp hc with rfl | hc
      · exact hcount.trans (List.length_cons ..)
      · exact h.number c hc
    · intro c hc hphase
      rcases List.mem_cons.mp hc with rfl | hc
      · cases hphase
      · exact h.serving c hc hphase
  | checked c hc hphase =>
    refine ⟨h.positive, ?_, ?_, h.ranked.map (mark_others _ _), ?_, ?_⟩
    · rw [List.map_map]
      exact (List.map_congr_left fun d _ => mark_id _ _ d).symm ▸ h.ids
    · intro d hd
      obtain ⟨e, he, rfl⟩ := List.mem_map.mp hd
      rw [mark_id]
      exact h.fresh e he
    · intro d hd
      obtain ⟨e, he, rfl⟩ := List.mem_map.mp hd
      rw [mark_nPP, mark_others]
      exact h.number e he
    · intro d hd hserving
      obtain ⟨e, he, rfl⟩ := List.mem_map.mp hd
      rw [mark_nPP]
      by_cases hid : e.id = c.id
      · -- the call that has just compared
        rw [List.inj_on_of_nodup_map h.ids he hc hid] at hserving ⊢
        unfold mark at hserving
        rw [if_pos rfl] at hserving
        dsimp only at hserving
        split at hserving
        next => cases hserving
        next hlt => exact UInt32.not_le.mp hlt
      · unfold mark at hserving
        rw [if_neg hid] at hserving
        exact h.serving e he hserving
  | returned c hc =>
    -- whoever is left keeps its number; it can only be among fewer
    have hsub := List.eraseP_sublist (p := fun d : PushPull => d.id == c.id) (l := s.calls)
    exact ⟨h.positive, h.ids.sublist (hsub.map _), fun d hd => h.fresh d (hsub.subset hd),
      h.ranked.sublist hsub, fun d hd => h.number d (hsub.subset hd),
      fun d hd => h.serving d (hsub.subset hd)⟩

/-! ## When the limit is what it should be -/

/-- The counter has room for one more call; and a call that compares found, when it was
counted, so few others that it is let through, or as many as the limit says. For a limit
below `2 ^ 32`, the number of others that is neither is `MaxPushPulls - 1`. -/
def Admissible (s : PushPullSys) : PushPullAction → Prop
  | .increment => s.calls.length + 1 < 2 ^ 32
  | .check k => ∀ c ∈ s.calls, c.id = k → c.phase = .counted →
      (c.others : Int) + 1 < s.maxPushPulls % 2 ^ 32 ∨ s.maxPushPulls ≤ c.others
  | .decrement _ => True

instance : ∀ s a, Decidable (Admissible s a)
  | s, .increment => inferInstanceAs (Decidable (s.calls.length + 1 < 2 ^ 32))
  | s, .check k => inferInstanceAs (Decidable (∀ c ∈ s.calls, c.id = k → c.phase = .counted →
      (c.others : Int) + 1 < s.maxPushPulls % 2 ^ 32 ∨ s.maxPushPulls ≤ c.others))
  | _, .decrement _ => inferInstanceAs (Decidable True)

/-- Counting one more is right as long as the counter does not wrap. -/
theorem increment_sound_iff (hs : Sound s) :
    (∀ t, act .increment s = some t → Sound t) ↔ s.calls.length + 1 < 2 ^ 32 := by
  have hnum : (s.numPushPull + 1).toNat = (s.calls.length + 1) % 2 ^ 32 := by
    rw [UInt32.toNat_add, hs.counter]
    rfl
  constructor
  · intro hall
    have hcount := (hall _ rfl).counter
    rw [List.length_cons, hnum] at hcount
    omega
  · intro hroom t ht
    rw [← Option.some.inj ht]
    refine ⟨?_, ?_, ?_⟩
    · rw [List.length_cons, hnum]
      omega
    · show ((List.countP _ (_ :: s.calls) : Nat) : Int) ≤ s.maxPushPulls
      rw [List.countP_cons, if_neg (by simp), Nat.add_zero]
      exact hs.served
    · intro c hc hphase
      rcases List.mem_cons.mp hc with rfl | hc
      · cases hphase
      · exact hs.rejected c hc hphase

/-- The check is right exactly if the conversion of the limit makes no difference to it. -/
theorem check_sound_iff (h : Inv s) (hs : Sound s) (k : Nat) :
    (∀ t, act (.check k) s = some t → Sound t) ↔ Admissible s (.check k) := by
  constructor
  · intro hall c hc hid hphase
    have hfind := h.call_of_mem hc
    rw [hid] at hfind
    -- accepted: then its number is below the limit; rejected: `Sound` says why
    by_cases hlt : c.nPP < limit s.maxPushPulls
    · left
      have hnum := h.number c hc
      have hlimit := toNat_limit s.maxPushPulls
      have hlt' := UInt32.lt_iff_toNat_lt.mp hlt
      omega
    · right
      have hact : act (.check k) s = some { s with calls := s.calls.map (mark k .rejected) } := by
        dsimp only [act]
        rw [hfind]
        dsimp only
        rw [if_neg (not_not.mpr hphase), if_pos (UInt32.not_lt.mp hlt)]
      have hmark : mark k .rejected c = { c with phase := .rejected } := if_pos hid
      have hrej := (hall _ hact).rejected (mark k .rejected c) (List.mem_map_of_mem hc)
      rw [hmark] at hrej
      exact hrej rfl
  · intro hok t ht
    have hcase := act_case ht
    have hinv : t.numPushPull.toNat = t.calls.length := by
      cases hcase with
      | checked c hc hphase =>
        rw [List.length_map]
        exact hs.counter
    have htinv := act_inv h hinv ht
    refine ⟨hinv, htinv.served_le, ?_⟩
    cases hcase with
    | checked c hc hphase =>
      intro d hd hrej
      obtain ⟨e, he, rfl⟩ := List.mem_map.mp hd
      rw [mark_others]
      by_cases hid : e.id = c.id
      · rw [List.inj_on_of_nodup_map h.ids he hc hid] at hrej ⊢
        unfold mark at hrej
        rw [if_pos rfl] at hrej
        dsimp only at hrej
        split at hrej
        next hge =>
          -- the number was at the converted limit, so it is not below the limit itself
          refine (hok c hc rfl hphase).resolve_left ?_
          have hnum := h.number c hc
          have hlimit := toNat_limit s.maxPushPulls
          have hge' := UInt32.le_iff_toNat_le.mp hge
          omega
        next => cases hrej
      · unfold mark at hrej
        rw [if_neg hid] at hrej
        exact hs.rejected e he hrej

/-- Counting one less is always right. -/
theorem decrement_sound (h : Inv s) (hs : Sound s) (k : Nat) (ha : act (.decrement k) s = some t) :
    Sound t := by
  have hcase := act_case ha
  have hcount : t.numPushPull.toNat = t.calls.length := by
    cases hcase with
    | returned c hc =>
      have hlen : (s.calls.eraseP fun d => d.id == c.id).length = s.calls.length - 1 :=
        List.length_eraseP_of_mem hc (beq_self_eq_true c.id)
      have hpos : 0 < s.calls.length := List.length_pos_of_mem hc
      have hlt := s.numPushPull.toNat_lt
      show (s.numPushPull + ~~~0).toNat = (s.calls.eraseP fun d => d.id == c.id).length
      rw [hlen, UInt32.toNat_add, show (~~~(0 : UInt32)).toNat = 2 ^ 32 - 1 from rfl]
      rw [hs.counter] at hlt ⊢
      omega
  have htinv := act_inv h hcount ha
  refine ⟨hcount, htinv.served_le, ?_⟩
  cases hcase with
  | returned c hc =>
    intro d hd
    exact hs.rejected d (List.eraseP_sublist.subset hd)

/-- **When the limit on push/pull requests is kept.** Take any number of calls of
`handlePushPull` and any interleaving of their pieces, for any `MaxPushPulls` of one or
more. The counter is the number of calls in progress, at most `MaxPushPulls` are served at
a time, and a call is turned away only if `MaxPushPulls` others were in progress when it was
counted, in every state of the run, exactly when there are always fewer than `2 ^ 32` calls
in progress and no call that compares found just one other too few (`Admissible`). -/
theorem pushpull_limit_iff {max : Int} (hmax : 1 ≤ max) (as : List PushPullAction) :
    Along act Sound as (start max) ↔ Each act Admissible as (start max) := by
  have hstart : Inv (start max) :=
    ⟨hmax, List.nodup_nil, fun _ hc => absurd hc List.not_mem_nil, trivial,
      fun _ hc => absurd hc List.not_mem_nil, fun _ hc => absurd hc List.not_mem_nil⟩
  have hsound : Sound (start max) := by
    refine ⟨rfl, ?_, fun _ hc => absurd hc List.not_mem_nil⟩
    exact Int.le_trans (by decide : (0 : Int) ≤ 1) hmax
  rw [along_iff_each (fun a s t hs ht ha => act_inv hs ht.counter ha) ?_ as hstart]
  · exact and_iff_right hsound
  · intro a s hI hP
    cases a with
    | increment => exact increment_sound_iff hP
    | check k => exact check_sound_iff hI hP k
    | decrement k => exact iff_of_true (fun t ht => decrement_sound hI hP k ht) trivial

/-- Two requests after each other where two are allowed: both are served. -/
theorem pushpull_limit_iff_turns :
    Along act Sound [.increment, .check 0, .decrement 0, .increment, .check 1] (start 2) :=
  (pushpull_limit_iff (by decide) _).mpr (by decide)

/-- The only request there is, where one is allowed: it is turned away. -/
theorem sole_request_rejected :
    ∃ s, run act [.increment, .check 0] (start 1) = some s ∧
      s.calls = [{ id := 0, nPP := 1, others := 0, phase := .rejected }] ∧ ¬ Sound s := by
  refine ⟨_, rfl, by decide, fun h => ?_⟩
  exact absurd (h.rejected _ (List.mem_cons_self ..) (by decide)) (by decide)

end PushPullSys

end Mlist
