import Mathlib.Algebra.Group.Nat.Defs
import Mlist.Lib.Outcome

/-!
# Byte formats

What a program that frames, encodes and encrypts bytes is built on, as far as a
development can have it without the code of the packages:

* big-endian words and the CRC-32 of IEEE 802.3, which compute;
* `Reader`, a stream of bytes that ends in some error, with the two ways to read a
  number of bytes from it;
* `Codec`, an encoder and a decoder that reads one value off a reader;
* `Aead`, authenticated encryption with additional data.

A codec round-trips at a value (`Codec.RoundTripsAt`) if decoding what was encoded gives
the value back and leaves the reader behind its last byte, and it is delimited there
(`Codec.DelimitedAt`) if it notices that some of the bytes are missing. That an AEAD is ideal is
said for one key, nonce and additional data at a time (`Aead.IdealAt`): nothing else opens
what they seal. Said of all of them together, with ciphertexts that are no longer than
the plaintext and a tag, it could not be true of any function — there are more
additional data than tags.
-/

namespace Mlist.Lib

/-! ## Words -/

/-- `binary.BigEndian.PutUint32`. -/
def putUint32 (v : UInt32) : List UInt8 :=
  [UInt8.ofNat (v.toNat / 2 ^ 24), UInt8.ofNat (v.toNat / 2 ^ 16), UInt8.ofNat (v.toNat / 2 ^ 8),
    UInt8.ofNat v.toNat]

/-- `binary.BigEndian.Uint32`, of the first four bytes. -/
def uint32 : List UInt8 → UInt32
  | a :: b :: c :: d :: _ =>
    UInt32.ofNat (a.toNat * 2 ^ 24 + b.toNat * 2 ^ 16 + c.toNat * 2 ^ 8 + d.toNat)
  | _ => 0

@[simp] theorem putUint32_length (v : UInt32) : (putUint32 v).length = 4 := rfl

@[simp] theorem uint32_putUint32 (v : UInt32) (rest : List UInt8) :
    uint32 (putUint32 v ++ rest) = v := by
  have hv := v.toNat_lt
  apply UInt32.toNat_inj.mp
  show (UInt32.ofNat ((UInt8.ofNat (v.toNat / 2 ^ 24)).toNat * 2 ^ 24 +
    (UInt8.ofNat (v.toNat / 2 ^ 16)).toNat * 2 ^ 16 +
    (UInt8.ofNat (v.toNat / 2 ^ 8)).toNat * 2 ^ 8 + (UInt8.ofNat v.toNat).toNat)).toNat = v.toNat
  simp only [UInt8.toNat_ofNat', UInt32.toNat_ofNat']
  omega

/-- Four bytes are the word they spell. -/
theorem putUint32_uint32 (a b c d : UInt8) : putUint32 (uint32 [a, b, c, d]) = [a, b, c, d] := by
  have ha := a.toNat_lt
  have hb := b.toNat_lt
  have hc := c.toNat_lt
  have hd := d.toNat_lt
  have hv : (uint32 [a, b, c, d]).toNat =
      a.toNat * 2 ^ 24 + b.toNat * 2 ^ 16 + c.toNat * 2 ^ 8 + d.toNat := by
    show (UInt32.ofNat _).toNat = _
    rw [UInt32.toNat_ofNat']
    omega
  have byte : ∀ (n : Nat) (x : UInt8), n % 2 ^ 8 = x.toNat → UInt8.ofNat n = x := by
    intro n x h
    apply UInt8.toNat_inj.mp
    rw [UInt8.toNat_ofNat', h]
  unfold putUint32
  rw [hv, byte _ a (by omega), byte _ b (by omega), byte _ c (by omega), byte _ d (by omega)]

/-- One bit of the remainder, reflected. -/
def crcBit (c : UInt32) : UInt32 := if c % 2 = 1 then (c >>> 1) ^^^ 0xedb88320 else c >>> 1

def crcByte (c : UInt32) (b : UInt8) : UInt32 :=
  crcBit (crcBit (crcBit (crcBit (crcBit (crcBit (crcBit (crcBit (c ^^^ b.toUInt32))))))))

/-- `crc32.ChecksumIEEE`. -/
def crc32 (b : List UInt8) : UInt32 := b.foldl crcByte 0xffffffff ^^^ 0xffffffff

/-- The check value of the algorithm: the checksum of the digits 1 to 9. -/
example : crc32 [0x31, 0x32, 0x33, 0x34, 0x35, 0x36, 0x37, 0x38, 0x39] = 0xcbf43926 := by
  decide +kernel

/-! ## Cuts -/

/-- The front of these bytes, with at least one missing. -/
def Cut (p b : List UInt8) : Prop := p <+: b ∧ p.length < b.length

theorem not_cut_nil (p : List UInt8) : ¬Cut p [] := fun h => Nat.not_lt_zero _ h.2

theorem cut_cons_iff {p b : List UInt8} {x : UInt8} :
    Cut p (x :: b) ↔ p = [] ∨ ∃ q, p = x :: q ∧ Cut q b := by
  unfold Cut
  cases p with
  | nil => simp
  | cons y p => simp [List.cons_prefix_cons, and_assoc]

/-- The cut is in the first part, or the first part is whole. -/
theorem cut_append_iff {p a b : List UInt8} :
    Cut p (a ++ b) ↔ Cut p a ∨ ∃ q, p = a ++ q ∧ Cut q b := by
  induction a generalizing p with
  | nil => simp [not_cut_nil]
  | cons x a ih =>
    rw [List.cons_append, cut_cons_iff, cut_cons_iff, or_assoc]
    refine or_congr_right ⟨?_, ?_⟩
    · rintro ⟨q, rfl, hq⟩
      rcases ih.mp hq with h | ⟨r, rfl, hr⟩
      · exact .inl ⟨q, rfl, h⟩
      · exact .inr ⟨r, rfl, hr⟩
    · rintro (⟨q, rfl, hq⟩ | ⟨r, rfl, hr⟩)
      · exact ⟨q, rfl, ih.mpr (.inl hq)⟩
      · exact ⟨a ++ r, rfl, ih.mpr (.inr ⟨r, rfl, hr⟩)⟩

/-! ## Readers -/

/-- `io.EOF`. -/
def eof : String := "EOF"

/-- Bytes still to be read, and the error of reading past them. -/
structure Reader where
  rest : List UInt8
  stop : String
  deriving DecidableEq, Repr

/-- `bytes.NewReader`. -/
def newReader (b : List UInt8) : Reader := ⟨b, eof⟩

namespace Reader

/-- `io.ReadFull` into `n` bytes. -/
def readFull (n : Nat) (r : Reader) : Except String (List UInt8 × Reader) :=
  if n ≤ r.rest.length then .ok (r.rest.take n, { r with rest := r.rest.drop n })
  else .error (if r.rest.isEmpty || r.stop != eof then r.stop else "unexpected EOF")

/-- `io.CopyN` of `n` bytes. -/
def copyN (n : Nat) (r : Reader) : Except String (List UInt8 × Reader) :=
  if n ≤ r.rest.length then .ok (r.rest.take n, { r with rest := r.rest.drop n })
  else .error r.stop

theorem readFull_length {n : Nat} {r r' : Reader} {b : List UInt8}
    (h : r.readFull n = .ok (b, r')) : b.length = n := by
  unfold readFull at h
  split at h
  next hn =>
    cases h
    rw [List.length_take, Nat.min_eq_left hn]
  next => cases h

theorem copyN_length {n : Nat} {r r' : Reader} {b : List UInt8}
    (h : r.copyN n = .ok (b, r')) : b.length = n := by
  unfold copyN at h
  split at h
  next hn =>
    cases h
    rw [List.length_take, Nat.min_eq_left hn]
  next => cases h

theorem readFull_append (b rest : List UInt8) (stop : String) :
    readFull b.length ⟨b ++ rest, stop⟩ = .ok (b, ⟨rest, stop⟩) := by
  unfold readFull
  rw [if_pos (by simp)]
  simp

theorem copyN_append (b rest : List UInt8) (stop : String) :
    copyN b.length ⟨b ++ rest, stop⟩ = .ok (b, ⟨rest, stop⟩) := by
  unfold copyN
  rw [if_pos (by simp)]
  simp

theorem readFull_cut {p b : List UInt8} (h : Cut p b) (stop : String) :
    ∃ err, readFull b.length ⟨p, stop⟩ = .error err := by
  unfold readFull
  rw [if_neg (Nat.not_le.mpr h.2)]
  exact ⟨_, rfl⟩

theorem copyN_cut {p b : List UInt8} (h : Cut p b) (stop : String) :
    copyN b.length ⟨p, stop⟩ = .error stop := if_neg (Nat.not_le.mpr h.2)

end Reader

/-! ## Codecs -/

/-- An encoder, and a decoder that reads one value. -/
structure Codec (α : Type) where
  encode : α → Except String (List UInt8)
  decode : Reader → Except String (α × Reader)

/-- The value can be encoded, and is read back off any stream it is at the start of,
to its last byte and no further. -/
def Codec.RoundTripsAt {α : Type} (c : Codec α) (a : α) : Prop :=
  ∃ b, c.encode a = .ok b ∧ ∀ rest stop, c.decode ⟨b ++ rest, stop⟩ = .ok (a, ⟨rest, stop⟩)

/-- Without its last bytes the value is not read. -/
def Codec.DelimitedAt {α : Type} (c : Codec α) (a : α) : Prop :=
  ∀ b, c.encode a = .ok b → ∀ p stop, Cut p b → ∃ err, c.decode ⟨p, stop⟩ = .error err

/-! ## Authenticated encryption -/

/-- `cipher.AEAD`, with its key: `Seal` and `Open`. The arguments are key, nonce,
plaintext or ciphertext, additional data. -/
structure Aead where
  sealed : List UInt8 → List UInt8 → List UInt8 → List UInt8 → List UInt8
  opened : List UInt8 → List UInt8 → List UInt8 → List UInt8 → Option (List UInt8)

namespace Aead

/-- A ciphertext is the plaintext and a tag long. -/
def Tagged (a : Aead) (tagSize : Nat) : Prop :=
  ∀ key nonce plain aad, (a.sealed key nonce plain aad).length = plain.length + tagSize

/-- What is sealed with this key, nonce and additional data opens for them, and for
no others. -/
def IdealAt (a : Aead) (key nonce aad : List UInt8) : Prop :=
  ∀ plain key' nonce' aad', a.opened key' nonce' (a.sealed key nonce plain aad) aad' =
    if key' = key ∧ nonce' = nonce ∧ aad' = aad then some plain else none

end Aead

end Mlist.Lib
