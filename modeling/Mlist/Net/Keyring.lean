import Mlist.Model.Wire

/-!
# The keyring over its life

A keyring comes from `NewKeyring` and is changed by `AddKey`, `UseKey` and `RemoveKey`, in
any order and with any arguments. `Keyring.Valid` is kept by each of them: `AddKey` asks for
the size and looks for the key first, `UseKey` only takes a key of the ring, and `RemoveKey`
does not take the primary one.

That the keys are pairwise different is what `RemoveKey` itself rests on: its loop splices
the slice it ranges over, and only without repetitions takes out what it should
(`Slice.removeAll_eq`).
-/

namespace Mlist

open Mlist.Lib

variable {r r' : Keyring}

/-- A call. -/
inductive KeyOp where
  | addKey (key : Bytes)
  | useKey (key : Bytes)
  | removeKey (key : Bytes)
  deriving DecidableEq, Repr

namespace Keyring

/-- A call, with what it returns. -/
def call : KeyOp → Keyring → Option (Except String Unit × Keyring)
  | .addKey key, r => some (r.addKey key)
  | .useKey key, r => some (r.useKey key)
  | .removeKey key, r => r.removeKey key

/-- A call, for what it leaves. -/
def step (op : KeyOp) (r : Keyring) : Option Keyring := (call op r).map Prod.snd

/-- A key is one for AES-128, AES-192 or AES-256. -/
theorem validateKey_ok {key : Bytes} :
    validateKey key = .ok () ↔ key.length = 16 ∨ key.length = 24 ∨ key.length = 32 := by
  unfold validateKey
  split
  next h =>
    refine iff_of_false (fun he => nomatch he) ?_
    omega
  next h =>
    refine iff_of_true rfl ?_
    omega

theorem any_eq_true {key : Bytes} {keys : List Bytes} :
    keys.any (key == ·) = true ↔ key ∈ keys := by
  simp

theorem any_eq_false {key : Bytes} {keys : List Bytes} (h : ¬keys.any (key == ·) = true) :
    key ∉ keys := fun hmem => h (any_eq_true.mpr hmem)

/-! ## The calls, case by case -/

/-- The ways through `AddKey`. -/
inductive AddCase (key : Bytes) (r : Keyring) : Except String Unit × Keyring → Prop where
  | invalid (e : String) (h : validateKey key = .error e) : AddCase key r (.error e, r)
  | present (h : key ∈ r.keys) : AddCase key r (.ok (), r)
  | added (hvalid : validateKey key = .ok ()) (h : key ∉ r.keys) :
    AddCase key r (.ok (), { r with keys := r.keys ++ [key] })

/-- The ways through `AddKey`. -/
theorem addKey_case (key : Bytes) (r : Keyring) : AddCase key r (r.addKey key) := by
  unfold addKey
  split
  next e he => exact .invalid e he
  next hvalid =>
    split
    next h => exact .present (any_eq_true.mp h)
    next h => exact .added hvalid (any_eq_false h)

/-- The ways through `UseKey`. -/
inductive UseCase (key : Bytes) (r : Keyring) : Except String Unit × Keyring → Prop where
  | used (h : key ∈ r.keys) : UseCase key r (.ok (), { r with primaryKey := some key })
  | unknown (e : String) : UseCase key r (.error e, r)

/-- The ways through `UseKey`. -/
theorem useKey_case (key : Bytes) (r : Keyring) : UseCase key r (r.useKey key) := by
  unfold useKey
  split
  next h => exact .used (any_eq_true.mp h)
  next => exact .unknown _

/-- The ways through `RemoveKey`, of a ring without repetitions. -/
inductive RemoveCase (key : Bytes) (r : Keyring) : Except String Unit × Keyring → Prop where
  | primary (e : String) (h : key = r.getPrimaryKey) : RemoveCase key r (.error e, r)
  | unknown (e : String) (h : key ∉ r.keys) : RemoveCase key r (.error e, r)
  | removed (hprimary : key ≠ r.getPrimaryKey) (h : key ∈ r.keys) :
    RemoveCase key r (.ok (), { r with keys := r.keys.filter fun k => decide (k ≠ key) })

/-- `RemoveKey` does not crash, and its loop is the filter it looks like. -/
theorem removeKey_case (h : r.keys.Nodup) (key : Bytes) :
    ∃ res, r.removeKey key = some res ∧ RemoveCase key r res := by
  unfold removeKey
  split
  next hp => exact ⟨_, rfl, .primary _ hp⟩
  next hp =>
    obtain ⟨s, found, hs, hfound, hlist⟩ := Slice.removeAll_eq h key
    rw [hs, Option.map_some]
    dsimp only
    rw [hlist]
    refine ⟨_, rfl, ?_⟩
    split
    next hmem => exact .removed hp (hfound.mp hmem)
    next hnot =>
      have hmem : key ∉ r.keys := fun hmem => hnot (hfound.mpr hmem)
      have hall : (r.keys.filter fun k => decide (k ≠ key)) = r.keys := by
        refine List.filter_eq_self.mpr fun k hk => decide_eq_true ?_
        intro he
        exact hmem (he ▸ hk)
      rw [hall]
      exact .unknown _ hmem

/-! ## Every call -/

/-- A call returns, keeps the ring valid, and leaves it as it was if it fails. -/
structure Called (r : Keyring) (res : Except String Unit × Keyring) : Prop where
  valid : res.2.Valid
  failed : ∀ e, res.1 = .error e → res.2 = r
  primary : r.primaryKey.isSome = true → res.2.primaryKey.isSome = true

/-- `AddKey` keeps the ring valid, and changes nothing when it fails. -/
theorem valid_addKey (h : r.Valid) (key : Bytes) : Called r (r.addKey key) := by
  have hcase := addKey_case key r
  generalize r.addKey key = res at hcase
  cases hcase with
  | invalid e _ => exact ⟨h, fun _ _ => rfl, id⟩
  | present _ => exact ⟨h, fun _ he => (nomatch he), id⟩
  | added hvalid hnew =>
    refine ⟨⟨?_, ?_, ?_⟩, fun _ he => (nomatch he), id⟩
    · intro k hk
      rcases List.mem_append.mp hk with hk | hk
      · exact h.sizes k hk
      · rw [List.mem_singleton.mp hk]
        exact hvalid
    · refine List.nodup_append.mpr ⟨h.distinct, List.nodup_singleton _, ?_⟩
      intro a ha b hb he
      rw [List.mem_singleton.mp hb] at he
      exact hnew (he ▸ ha)
    · intro p hp
      exact List.mem_append_left _ (h.primary p hp)

/-- `UseKey` does so as well. -/
theorem valid_useKey (h : r.Valid) (key : Bytes) : Called r (r.useKey key) := by
  have hcase := useKey_case key r
  generalize r.useKey key = res at hcase
  cases hcase with
  | unknown e => exact ⟨h, fun _ _ => rfl, id⟩
  | used hmem =>
    refine ⟨⟨h.sizes, h.distinct, ?_⟩, fun _ he => (nomatch he), fun _ => rfl⟩
    intro p hp
    exact Option.some.inj hp ▸ hmem

/-- And so does `RemoveKey`. -/
theorem valid_removeKey (h : r.Valid) {key : Bytes} {res : Except String Unit × Keyring}
    (hcase : RemoveCase key r res) : Called r res := by
  cases hcase with
  | primary e _ => exact ⟨h, fun _ _ => rfl, id⟩
  | unknown e _ => exact ⟨h, fun _ _ => rfl, id⟩
  | removed hprimary hmem =>
    refine ⟨⟨?_, h.distinct.filter _, ?_⟩, fun _ he => (nomatch he), id⟩
    · intro k hk
      exact h.sizes k (List.mem_filter.mp hk).1
    · intro p hp
      refine List.mem_filter.mpr ⟨h.primary p hp, decide_eq_true fun he => hprimary ?_⟩
      unfold getPrimaryKey
      rw [show r.primaryKey = some p from hp]
      exact he.symm

/-- No call panics on a valid ring. -/
theorem call_returns (h : r.Valid) (op : KeyOp) : ∃ res, call op r = some res ∧ Called r res := by
  cases op with
  | addKey key => exact ⟨_, rfl, valid_addKey h key⟩
  | useKey key => exact ⟨_, rfl, valid_useKey h key⟩
  | removeKey key =>
    obtain ⟨res, hres, hcase⟩ := removeKey_case h.distinct key
    exact ⟨res, hres, valid_removeKey h hcase⟩

theorem step_returns (op : KeyOp) (r : Keyring) (h : r.Valid) :
    ∃ r', step op r = some r' ∧ r'.Valid := by
  obtain ⟨res, hres, hcalled⟩ := call_returns h op
  exact ⟨res.2, congrArg (Option.map Prod.snd) hres, hcalled.valid⟩

/-! ## `NewKeyring` -/

theorem orError_ok {res : Except String Unit × Keyring} (h : orError res = .ok r) : res.2 = r := by
  obtain ⟨out, s⟩ := res
  cases out with
  | error e => cases h
  | ok u => exact Except.ok.inj h

/-- The empty ring. -/
theorem valid_empty : Valid { primaryKey := none, keys := [] } :=
  ⟨fun _ hk => absurd hk List.not_mem_nil, List.nodup_nil, fun _ hp => nomatch hp⟩

/-- The loop of `NewKeyring`. -/
theorem valid_addKeys : ∀ (keys : List Bytes) {r r' : Keyring}, r.Valid →
    keys.foldlM (fun r k => orError (r.addKey k)) r = Except.ok r' → r'.Valid := by
  intro keys
  induction keys with
  | nil =>
    intro r r' h hr
    exact Except.ok.inj hr ▸ h
  | cons k keys ih =>
    intro r r' h hr
    rw [List.foldlM_cons] at hr
    cases hadd : orError (r.addKey k) with
    | error e =>
      rw [hadd] at hr
      cases hr
    | ok t =>
      rw [hadd] at hr
      exact ih (orError_ok hadd ▸ (valid_addKey h k).valid) hr

/-- A ring that could be made is valid. -/
theorem valid_newKeyring {keys : List Bytes} {primaryKey : Option Bytes}
    (h : newKeyring keys primaryKey = .ok r) : r.Valid := by
  unfold newKeyring at h
  cases primaryKey with
  | none => exact valid_addKeys keys valid_empty h
  | some p =>
    dsimp only at h
    cases hadd : orError (addKey p { primaryKey := none, keys := [] }) with
    | error e =>
      rw [hadd] at h
      cases h
    | ok s =>
      rw [hadd] at h
      have hs : s.Valid := orError_ok hadd ▸ (valid_addKey valid_empty p).valid
      cases huse : orError (s.useKey p) with
      | error e =>
        simp only [bind, Except.bind, huse] at h
        cases h
      | ok t =>
        simp only [bind, Except.bind, huse] at h
        exact valid_addKeys keys (orError_ok huse ▸ (valid_useKey hs p).valid) h

/-! ## What a ring hands out -/

/-- `GetKeys` hands out nothing exactly when there is no primary key. -/
theorem getKeys_eq_nil : r.getKeys = [] ↔ r.primaryKey = none := by
  unfold getKeys
  cases hp : r.primaryKey with
  | none => exact iff_of_true rfl rfl
  | some p => exact iff_of_false (by simp) (by simp)

/-- The primary key comes first, and once. -/
theorem getKeys_of_primary {p : Bytes} (hp : r.primaryKey = some p) :
    r.getKeys = p :: r.keys.filter fun k => decide (k ≠ p) := by
  unfold getKeys
  rw [hp]
  dsimp only
  congr 1
  refine List.filter_congr fun k _ => ?_
  rw [Bool.eq_iff_iff]
  simp

/-- With one, it hands out every key once. -/
theorem getKeys_perm (h : r.Valid) {p : Bytes} (hp : r.primaryKey = some p) :
    r.getKeys.Perm r.keys := by
  rw [getKeys_of_primary hp]
  obtain ⟨pre, post, hsplit⟩ := List.append_of_mem (h.primary p hp)
  have hnodup := h.distinct
  rw [hsplit] at hnodup ⊢
  obtain ⟨-, hcons, hdisj⟩ := List.nodup_append.mp hnodup
  have hpre : (pre.filter fun k => decide (k ≠ p)) = pre :=
    List.filter_eq_self.mpr fun k hk =>
      decide_eq_true fun he => hdisj k hk p (List.mem_cons_self ..) he
  have hpost : (post.filter fun k => decide (k ≠ p)) = post :=
    List.filter_eq_self.mpr fun k hk =>
      decide_eq_true fun he => (List.nodup_cons.mp hcons).1 (he ▸ hk)
  rw [List.filter_append, List.filter_cons_of_neg (by simp), hpre, hpost]
  exact List.perm_middle.symm

/-- A member whose keyring has a primary key encrypts. -/
theorem encryptionEnabled_of_primary {e : Endpoint} (hr : e.keyring.map Subtype.val = some r)
    (hp : r.primaryKey.isSome = true) : e.encryptionEnabled = true := by
  obtain ⟨ring, hring, rfl⟩ := Option.map_eq_some_iff.mp hr
  have hkeys : ring.val.getKeys ≠ [] := by
    intro hnil
    rw [getKeys_eq_nil.mp hnil] at hp
    cases hp
  unfold Endpoint.encryptionEnabled Endpoint.getKeys
  rw [hring]
  simp [hkeys]

/-- No call takes the primary key away. -/
theorem run_primary {ops : List KeyOp} (h : r.Valid) (hp : r.primaryKey.isSome = true)
    (hrun : run step ops r = some r') : r'.primaryKey.isSome = true := by
  have hkept : r'.Valid ∧ r'.primaryKey.isSome = true := by
    refine run_inv (P := fun s => s.Valid ∧ s.primaryKey.isSome = true) ?_ ⟨h, hp⟩ hrun
    intro op s t hs ht
    obtain ⟨res, hres, hcalled⟩ := call_returns hs.1 op
    have hres' : some res.2 = some t := (congrArg (Option.map Prod.snd) hres).symm.trans ht
    rw [← Option.some.inj hres']
    exact ⟨hcalled.valid, hcalled.primary hs.2⟩
  exact hkept.2

/-- **A keyring stays in order.** Whatever `NewKeyring` made, and whatever calls follow:
none crashes; the keys are pairwise different and of a valid size, and the primary key, if
there is one, is among them; `GetKeys` hands out nothing exactly when there is no primary
key, and otherwise the primary key and then the others, every key of the ring once; a call
that fails leaves the ring as it was; a `RemoveKey` that succeeds takes out that key alone,
and keeps the order of the others; and once there is a primary key, a member with this
keyring encrypts for ever. -/
theorem keyring_stays_in_order {keys : List Bytes} {primaryKey : Option Bytes} {r₀ : Keyring}
    (hnew : newKeyring keys primaryKey = .ok r₀) (ops : List KeyOp) :
    ∃ r, run step ops r₀ = some r ∧
      r.keys.Nodup ∧
      (∀ k ∈ r.keys, k.length = 16 ∨ k.length = 24 ∨ k.length = 32) ∧
      (∀ p, r.primaryKey = some p → p ∈ r.keys) ∧
      (r.getKeys = [] ↔ r.primaryKey = none) ∧
      (∀ p, r.primaryKey = some p →
        r.getKeys = p :: (r.keys.filter fun k => decide (k ≠ p)) ∧
        r.getKeys.Perm r.keys ∧ r.getKeys.Nodup) ∧
      (∀ op, ∃ res, call op r = some res ∧ ∀ e, res.1 = .error e → res.2 = r) ∧
      (∀ key r', r.removeKey key = some (.ok (), r') → key ∈ r.keys ∧
        r' = { r with keys := r.keys.filter fun k => decide (k ≠ key) }) ∧
      (r.primaryKey.isSome = true → ∀ ops' r', run step ops' r = some r' →
        ∀ e : Endpoint, e.keyring.map Subtype.val = some r' → e.encryptionEnabled = true) := by
  obtain ⟨r, hrun, hr⟩ := run_total step_returns ops (valid_newKeyring hnew)
  refine ⟨r, hrun, hr.distinct, ?_, hr.primary, getKeys_eq_nil, ?_, ?_, ?_, ?_⟩
  · intro k hk
    exact validateKey_ok.mp (hr.sizes k hk)
  · intro p hp
    exact ⟨getKeys_of_primary hp, getKeys_perm hr hp,
      (getKeys_perm hr hp).nodup_iff.mpr hr.distinct⟩
  · intro op
    obtain ⟨res, hres, hcalled⟩ := call_returns hr op
    exact ⟨res, hres, hcalled.failed⟩
  · intro key r' hremove
    obtain ⟨res, hres, hcase⟩ := removeKey_case hr.distinct key
    obtain rfl : res = (.ok (), r') := Option.some.inj (hres.symm.trans hremove)
    cases hcase with
    | removed hprimary hmem => exact ⟨hmem, rfl⟩
  · intro hp ops' r' hrun' e he
    exact encryptionEnabled_of_primary he (run_primary hr hp hrun')

/-- Three keys, the middle one removed: the order of the others stays, and so does the
encryption. -/
theorem keyring_stays_in_order_removed :
    let key := fun b : UInt8 => List.replicate 16 b
    ∃ r₀ r, newKeyring [key 1, key 2, key 3] (some (key 2)) = .ok r₀ ∧
      run step [.useKey (key 3), .removeKey (key 1)] r₀ = some r ∧
      r.keys = [key 2, key 3] ∧ r.getKeys.Perm r.keys := by
  intro key
  have hnew : newKeyring [key 1, key 2, key 3] (some (key 2)) =
      .ok { primaryKey := some (key 2), keys := [key 2, key 1, key 3] } := by decide
  obtain ⟨r, hrun, -, -, -, -, hkeys, -⟩ :=
    keyring_stays_in_order hnew [.useKey (key 3), .removeKey (key 1)]
  have hend : r = { primaryKey := some (key 3), keys := [key 2, key 3] } :=
    Option.some.inj (hrun.symm.trans (by decide))
  refine ⟨_, r, hnew, hrun, congrArg Keyring.keys hend, (hkeys (key 3) ?_).2.1⟩
  rw [hend]

end Keyring

end Mlist
