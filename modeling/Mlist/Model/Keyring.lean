import Mlist.Lib.Splice
import Mlist.Model.Types

/-!
# The keyring

The keys of `keyring.go`: the primary key, which seals, and the keys a received message
is tried with. `GetKeys` puts the primary key first, and is empty while there is none —
a keyring without a primary key does not encrypt, whatever else it holds.

Keys are values here; the source compares them with `bytes.Equal` and never writes into
one. The slice of keys is a value too, except inside `RemoveKey`, which splices it in
place while it ranges over it (`Slice.removeAll`).

A call returns its error and the ring it leaves behind; `none` is a crash.
-/

namespace Mlist

open Mlist.Lib

/-- `ValidateKey`. -/
def validateKey (key : Bytes) : Except String Unit :=
  if key.length ≠ 16 ∧ key.length ≠ 24 ∧ key.length ≠ 32 then
    .error "key size must be 16, 24 or 32 bytes"
  else .ok ()

/-- `Keyring`; `none` is the nil primary key. -/
structure Keyring where
  primaryKey : Option Bytes
  keys : List Bytes
  deriving DecidableEq, Repr

namespace Keyring

/-- `GetKeys`. -/
def getKeys (r : Keyring) : List Bytes :=
  match r.primaryKey with
  | none => []
  | some p => p :: r.keys.filter (· != p)

/-- `GetPrimaryKey`. -/
def getPrimaryKey (r : Keyring) : Bytes := r.primaryKey.getD []

/-- `%x` of a key: two digits for each byte. -/
def hexKey (key : Bytes) : String :=
  let digits := fun b : UInt8 => Nat.toDigits 16 b.toNat
  String.ofList (key.flatMap fun b => if b < 16 then '0' :: digits b else digits b)

/-- `AddKey`. -/
def addKey (key : Bytes) (r : Keyring) : Except String Unit × Keyring :=
  match validateKey key with
  | .error e => (.error e, r)
  | .ok () =>
    if r.keys.any (key == ·) then (.ok (), r) else (.ok (), { r with keys := r.keys ++ [key] })

/-- `UseKey`. -/
def useKey (key : Bytes) (r : Keyring) : Except String Unit × Keyring :=
  if r.keys.any (key == ·) then (.ok (), { r with primaryKey := some key })
  else (.error ("key " ++ hexKey key ++ " is not in keyring"), r)

/-- `RemoveKey`. To `bytes.Equal` the nil primary key is the empty one. -/
def removeKey (key : Bytes) (r : Keyring) : Option (Except String Unit × Keyring) :=
  if key = r.getPrimaryKey then some (.error "removing primary key is not allowed", r)
  else
    (Slice.removeAll key r.keys).map fun (s, found) =>
      (if found then .ok () else .error ("key " ++ hexKey key ++ " not in keyring"),
        { r with keys := s.toList })

/-- The ring, if the call succeeded. -/
def orError : Except String Unit × Keyring → Except String Keyring
  | (.ok (), r) => .ok r
  | (.error e, _) => .error e

/-- `NewKeyring`; `none` for a nil primary key. -/
def newKeyring (keys : List Bytes) (primaryKey : Option Bytes) : Except String Keyring := do
  let r : Keyring := { primaryKey := none, keys := [] }
  let r ← match primaryKey with
    | none => pure r
    | some p => do
      let r ← orError (r.addKey p)
      orError (r.useKey p)
  keys.foldlM (fun r k => orError (r.addKey k)) r

/-- What every keyring is that the package hands out: its keys are valid and
pairwise different, and the primary key is one of them. -/
structure Valid (r : Keyring) : Prop where
  sizes : ∀ k ∈ r.keys, validateKey k = .ok ()
  distinct : r.keys.Nodup
  primary : ∀ p, r.primaryKey = some p → p ∈ r.keys

/-- A key that is tried is a key of the ring, so a valid one. -/
theorem Valid.getKeys_sizes {r : Keyring} (h : r.Valid) {k : Bytes} (hk : k ∈ r.getKeys) :
    validateKey k = .ok () := by
  unfold getKeys at hk
  split at hk
  next => cases hk
  next p hp =>
    rcases List.mem_cons.mp hk with rfl | hk
    · exact h.sizes _ (h.primary _ hp)
    · exact h.sizes _ (List.mem_filter.mp hk).1

end Keyring

end Mlist
