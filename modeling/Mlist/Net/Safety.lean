import Mlist.Model.Wire

/-!
# What a peer can make a receiver do

`unpackPacket` and `unpackStream` read bytes that anybody can send. Each layer — the
encryption, the checksum, the compression, the counts of a push/pull header — checks
what it needs itself and takes what the layer before it left. The lemmas go layer by
layer, each saying exactly when that layer comes back (`Outcome.Returns`) rather than
crash; `returns_bind` puts them together.

The layers do not all check the same thing. A payload is looked at for its first byte
before anything says it has one: behind the checksum of a datagram, behind the
decryption of a stream, behind its decompression. And a header's counts go to `make` as
they are. So the results are equivalences: a datagram crashes its receiver exactly if
what is left of it after decryption is the checksum header of the empty message; a
stream does exactly if one of its layers is empty or one of its counts is no length of a
slice.
-/

namespace Mlist

open Mlist.Lib Mlist.Lib.Outcome

variable {pk : Packages}

/-- Packages that refuse whatever they are given. -/
def refusing : Packages where
  lzwWrite := fun _ => .error "lzw"
  lzwRead := fun _ => .error "lzw"
  gcm := { sealed := fun _ _ _ _ => [], opened := fun _ _ _ _ => none }
  compressed := { encode := fun _ => .error "msgpack", decode := fun _ => .error "msgpack" }
  header := { encode := fun _ => .error "msgpack", decode := fun _ => .error "msgpack" }
  state := { encode := fun _ => .error "msgpack", decode := fun _ => .error "msgpack" }
  maxStates := 2 ^ 20
  maxBytes := 2 ^ 20

/-- A member with the settings of `DefaultLANConfig` and no keyring. -/
def plainEndpoint : Endpoint where
  label := []
  enableCompression := true
  encryptionVersion := 0
  udpBufferSize := 1400
  keyring := none

/-! ## Decryption -/

/-- A message as long as a version and a nonce can be taken apart. -/
theorem decrypt_returns {key msg aad : Bytes} (h : versionSize + nonceSize ≤ msg.length) :
    (decrypt pk key msg aad).Returns := by
  unfold decrypt
  rw [returns_ofExcept_bind]
  intro _ _
  rw [slice_of_le (by decide) h, ok_bind, sliceFrom_of_le h, ok_bind]
  split
  next => exact returns_ok _
  next => exact returns_error _

theorem tryKeys_returns {msg data : Bytes} (h : versionSize + nonceSize ≤ msg.length) :
    ∀ keys, (tryKeys pk msg data keys).Returns
  | [] => returns_error _
  | key :: keys => by
    unfold tryKeys
    split
    next => exact returns_ok _
    next => exact tryKeys_returns h keys
    next why hc => exact absurd hc (decrypt_returns h why)

/-- There is one version. -/
theorem version_eq_zero {vsn : UInt8} (h : vsn ≤ maxEncryptionVersion) : vsn = 0 :=
  UInt8.toNat_inj.mp (Nat.le_zero.mp (UInt8.le_iff_toNat_le.mp h))

/-- The checks of `decryptWithKeys` are enough for every byte string and every list of
keys. -/
theorem decryptWithKeys_returns (keys : List Bytes) (msg data : Bytes) :
    (decryptWithKeys pk keys msg data).Returns := by
  unfold decryptWithKeys
  split
  next => exact returns_error _
  next hne =>
    obtain ⟨vsn, hv⟩ := index_of_lt (b := msg) (i := 0) (Nat.pos_of_ne_zero hne)
    rw [hv, ok_bind]
    split
    next => exact returns_error _
    next hvsn =>
      unfold encryptOverhead
      rw [if_pos (version_eq_zero (UInt8.not_lt.mp hvsn)), ok_bind]
      split
      next => exact returns_error _
      next hlen =>
        refine tryKeys_returns (Nat.le_trans ?_ (Nat.le_of_not_lt hlen)) keys
        exact Nat.le_add_right _ _

/-! ## Datagrams -/

theorem Endpoint.unpackPlain_returns (e : Endpoint) (msg packetLabel : Bytes) :
    (e.unpackPlain pk msg packetLabel).Returns := by
  unfold Endpoint.unpackPlain
  split
  next => exact decryptWithKeys_returns _ _ _
  next => exact returns_ok _

namespace Endpoint

theorem inflateMsg_returns_iff {msg : Bytes} : (inflateMsg pk msg).Returns ↔ msg ≠ [] := by
  cases msg with
  | nil => exact iff_of_false (not_returns_crash _) (fun h => h rfl)
  | cons b rest =>
    refine iff_of_true ?_ (List.cons_ne_nil b rest)
    unfold inflateMsg
    rw [index_cons_zero, ok_bind, sliceFrom_cons_one]
    split
    next => exact returns_ofExcept _
    next => exact returns_ok _

/-- What the checksum layer makes of a payload with room for its header. -/
theorem unpackCrc_cons (m a b c d : UInt8) (body : Bytes) :
    unpackCrc pk (m :: a :: b :: c :: d :: body) =
      if m ≠ MsgType.hasCrc.code then .error "expect crc in udp message"
      else if crc32 body ≠ uint32 [a, b, c, d] then
        .error ("crc for packet invalid, expect: " ++ hex (uint32 [a, b, c, d]).toNat ++ ", got " ++
          hex (crc32 body).toNat)
      else inflateMsg pk body := by
  unfold unpackCrc
  rw [if_neg (by simp), index_cons_zero, ok_bind, sliceFrom_of_le (by simp), ok_bind,
    slice_of_le (by simp) (by simp), ok_bind]
  rfl

theorem unpackCrc_short {msg : Bytes} (h : msg.length < 5) :
    unpackCrc pk msg = .error "expect crc in udp message" :=
  if_pos h

theorem addCrc_nil_inj {m a b c d : UInt8} {body : Bytes}
    (h : m :: a :: b :: c :: d :: body = addCrc []) :
    [a, b, c, d] = putUint32 (crc32 []) ∧ body = [] := by
  have happ : [a, b, c, d] ++ body = putUint32 (crc32 []) ++ [] := (List.cons.inj h).2
  exact List.append_inj happ rfl

/-- The checksum layer lets exactly one payload through that has nothing behind its
header. -/
theorem unpackCrc_returns_iff {msg : Bytes} : (unpackCrc pk msg).Returns ↔ msg ≠ addCrc [] := by
  match msg with
  | m :: a :: b :: c :: d :: body =>
    rw [unpackCrc_cons]
    split
    next hm =>
      refine iff_of_true (returns_error _) (fun h => hm ?_)
      exact (List.cons.inj h).1
    next hm =>
      split
      next hcrc =>
        refine iff_of_true (returns_error _) (fun h => hcrc ?_)
        obtain ⟨hhead, hbody⟩ := addCrc_nil_inj h
        rw [hhead, hbody]
        exact (uint32_putUint32 (crc32 []) []).symm
      next hcrc =>
        rw [inflateMsg_returns_iff]
        refine not_congr ⟨fun h => ?_, fun h => ?_⟩
        · subst h
          rw [Decidable.not_not.mp hm]
          show _ = MsgType.hasCrc.code :: (putUint32 (crc32 []) ++ [])
          rw [Decidable.not_not.mp hcrc, putUint32_uint32]
          rfl
        · exact (addCrc_nil_inj h).2
  | [] | [_] | [_, _] | [_, _, _] | [_, _, _, _] =>
    rw [unpackCrc_short (by simp)]
    exact iff_of_true (returns_error _) (fun h => by cases h)

/-- A datagram comes back from `unpackPacket`, as a message or as an error, exactly
unless its payload is the checksum header of the empty message. -/
theorem unpackPacket_returns_iff (pk : Packages) (e : Endpoint) (msg packetLabel : Bytes) :
    (e.unpackPacket pk msg packetLabel).Returns ↔
      e.unpackPlain pk msg packetLabel ≠ .ok [12, 0, 0, 0, 0] := by
  have hcrc : addCrc [] = [12, 0, 0, 0, 0] := by decide
  unfold unpackPacket
  rw [returns_bind]
  constructor
  · intro h hplain
    exact unpackCrc_returns_iff.mp (h.2 _ hplain) hcrc.symm
  · intro h
    refine ⟨e.unpackPlain_returns msg packetLabel, fun plain hplain => ?_⟩
    refine unpackCrc_returns_iff.mpr (fun hp => h ?_)
    rw [hplain, hp, hcrc]

/-- Such a datagram, sent to a member that does not encrypt. -/
theorem crc_header_alone_crashes :
    plainEndpoint.unpackPacket refusing [12, 0, 0, 0, 0] [] = .crash "index out of range" := by
  decide +kernel

end Endpoint

/-! ## Streams -/

/-- The additional data of a stream whose type byte and size are `header`. -/
def labelled (header streamLabel : Bytes) : Bytes :=
  if streamLabel ≠ [] then List.replicate (5 + streamLabel.length) 0 ++ header ++ streamLabel
  else header

theorem tcpAAD_eq {header : Bytes} (h : header.length = 5) (streamLabel : Bytes) :
    tcpAAD header streamLabel = .ok (labelled header streamLabel) := by
  unfold tcpAAD labelled
  rw [slice_of_le (by decide) (Nat.le_of_eq h.symm), ok_bind, ← h, List.take_length]
  split <;> rfl

/-- The checks of `decryptTcp` are enough for every stream: a size that was read is four
bytes long. -/
theorem decryptTcp_returns (keys : List Bytes) (r : Reader) (streamLabel : Bytes) :
    (decryptTcp pk keys r streamLabel).Returns := by
  unfold decryptTcp
  rw [returns_ofExcept_bind]
  intro ⟨sizeBuf, r₁⟩ hsize
  have h4 : sizeBuf.length = 4 := Reader.copyN_length hsize
  have h5 : (MsgType.encrypt.code :: sizeBuf).length = 5 := by rw [List.length_cons, h4]
  dsimp only
  rw [tcpAAD_eq h5, ok_bind, slice_of_le (by decide) (Nat.le_of_eq h5.symm), ok_bind]
  split
  next => exact returns_error _
  next =>
    rw [returns_ofExcept_bind]
    intro ⟨payload, r₂⟩ _
    dsimp only
    rw [sliceFrom_of_le (by rw [List.length_append, h5]; exact Nat.le_add_right _ _), ok_bind]
    exact decryptWithKeys_returns _ _ _

namespace Endpoint

theorem resetStream_returns_iff {data : Bytes} : (resetStream data).Returns ↔ data ≠ [] := by
  cases data with
  | nil => exact iff_of_false (not_returns_crash _) (fun h => h rfl)
  | cons b rest =>
    refine iff_of_true ?_ (List.cons_ne_nil b rest)
    unfold resetStream
    rw [index_cons_zero, ok_bind, sliceFrom_cons_one, ok_bind]
    exact returns_ok _

/-- The first half crashes on an encrypted stream with nothing in it. -/
theorem openStream_returns_iff {e : Endpoint} {conn : Reader} {streamLabel : Bytes} :
    (e.openStream pk conn streamLabel).Returns ↔
      ∀ r plain, conn.readFull 1 = .ok ([MsgType.encrypt.code], r) → e.encryptionEnabled = true →
        decryptTcp pk e.getKeys r streamLabel = .ok plain → plain ≠ [] := by
  unfold openStream
  rw [returns_ofExcept_bind]
  constructor
  · intro h r plain hread henc hplain
    have hr := h _ hread
    dsimp only at hr
    rw [index_cons_zero, ok_bind] at hr
    simp only [henc, beq_self_eq_true, Bool.not_true, Bool.and_false, Bool.false_and, Bool.and_self,
      if_true, Bool.false_eq_true, if_false, hplain, ok_bind] at hr
    exact resetStream_returns_iff.mp hr
  · intro h ⟨buf, r⟩ hread
    obtain ⟨mtype, rfl⟩ := List.length_eq_one_iff.mp (Reader.readFull_length hread)
    dsimp only
    rw [index_cons_zero, ok_bind]
    split
    next => exact returns_error _
    next =>
      split
      next => exact returns_error _
      next =>
        split
        next hboth =>
          obtain ⟨henc, htype⟩ := Bool.and_eq_true_iff.mp hboth
          rw [returns_bind]
          refine ⟨decryptTcp_returns _ _ _, fun plain hplain => ?_⟩
          rw [beq_iff_eq.mp htype] at hread
          exact resetStream_returns_iff.mpr (h r plain hread henc hplain)
        next => exact returns_ok _

/-- The second half crashes on a compressed message with nothing in it. -/
theorem inflateStream_returns_iff {mtype : UInt8} {r : Reader} :
    (inflateStream pk mtype r).Returns ↔
      ∀ c r' data, mtype = MsgType.compress.code → pk.compressed.decode r = .ok (c, r') →
        decompress pk c = .ok data → data ≠ [] := by
  unfold inflateStream
  split
  next hm =>
    rw [returns_ofExcept_bind]
    constructor
    · intro h c r' data _ hdec hdata
      have hr := h _ hdec
      dsimp only at hr
      rw [returns_ofExcept_bind] at hr
      exact resetStream_returns_iff.mp (hr data hdata)
    · intro h ⟨c, r'⟩ hdec
      dsimp only
      rw [returns_ofExcept_bind]
      intro data hdata
      exact resetStream_returns_iff.mpr (h c r' data hm hdec hdata)
  next hm => exact iff_of_true (returns_ok _) (fun _ _ _ h => absurd h hm)

end Endpoint

/-- A length `make` takes. -/
def SliceLen (max : Nat) (n : Int) : Prop := 0 ≤ n ∧ n ≤ max

/-- `readRemoteState` crashes on a header that counts what no slice can hold. The user
state's length is only looked at when all the nodes could be read. -/
theorem readRemoteState_returns_iff {r : Reader} :
    (readRemoteState pk r).Returns ↔
      ∀ header r', pk.header.decode r = .ok (header, r') →
        SliceLen pk.maxStates header.nodes ∧
        ∀ nodes r'', readStates pk header.nodes.toNat r' = .ok (nodes, r'') →
          SliceLen pk.maxBytes header.userStateLen := by
  unfold readRemoteState
  rw [returns_ofExcept_bind]
  refine ⟨fun h header r' hdec => ?_, fun h ⟨header, r'⟩ hdec => ?_⟩
  · have hr := h _ hdec
    dsimp only at hr
    obtain ⟨hmake, hrest⟩ := returns_bind.mp hr
    have hlen := returns_makeLen.mp hmake
    refine ⟨hlen, fun nodes r'' hnodes => ?_⟩
    have hr := hrest header.nodes.toNat (if_pos hlen)
    rw [hnodes, ofExcept_ok, ok_bind] at hr
    dsimp only at hr
    -- a length of zero allocates nothing
    split at hr
    next => exact returns_makeLen.mp (returns_bind.mp hr).1
    next h0 =>
      rw [Decidable.not_not.mp h0]
      exact ⟨Int.le_refl 0, Int.natCast_nonneg _⟩
  · obtain ⟨hlen, hrest⟩ := h header r' hdec
    dsimp only
    rw [show makeLen pk.maxStates header.nodes = .ok header.nodes.toNat from if_pos hlen, ok_bind,
      returns_ofExcept_bind]
    intro ⟨nodes, r''⟩ hnodes
    dsimp only
    split
    next =>
      rw [show makeLen pk.maxBytes header.userStateLen = .ok header.userStateLen.toNat from
        if_pos (hrest nodes r'' hnodes), ok_bind, returns_ofExcept_bind]
      intro _ _
      exact returns_ok _
    next => exact returns_ok _

namespace Endpoint

/-- A stream none of whose layers is empty, and whose counts are lengths. Each condition
is on what the layers before it produce from the bytes of the connection. -/
structure CleanStream (pk : Packages) (e : Endpoint) (conn : Reader) (streamLabel : Bytes) :
    Prop where
  plain : ∀ r plain, conn.readFull 1 = .ok ([MsgType.encrypt.code], r) →
    e.encryptionEnabled = true → decryptTcp pk e.getKeys r streamLabel = .ok plain → plain ≠ []
  data : ∀ r c r' data, e.openStream pk conn streamLabel = .ok (MsgType.compress.code, r) →
    pk.compressed.decode r = .ok (c, r') → decompress pk c = .ok data → data ≠ []
  counts : ∀ r header r', e.unpackStream pk conn streamLabel = .ok (MsgType.pushPull.code, r) →
    pk.header.decode r = .ok (header, r') →
      SliceLen pk.maxStates header.nodes ∧
      ∀ nodes r'', readStates pk header.nodes.toNat r' = .ok (nodes, r'') →
        SliceLen pk.maxBytes header.userStateLen

theorem unpackStream_returns_iff {e : Endpoint} {conn : Reader} {streamLabel : Bytes} :
    (e.unpackStream pk conn streamLabel).Returns ↔
      (∀ r plain, conn.readFull 1 = .ok ([MsgType.encrypt.code], r) → e.encryptionEnabled = true →
        decryptTcp pk e.getKeys r streamLabel = .ok plain → plain ≠ []) ∧
      ∀ r c r' data, e.openStream pk conn streamLabel = .ok (MsgType.compress.code, r) →
        pk.compressed.decode r = .ok (c, r') → decompress pk c = .ok data → data ≠ [] := by
  unfold unpackStream
  rw [returns_bind, openStream_returns_iff]
  refine and_congr_right fun _ => ⟨fun h r c r' data hopen => ?_, fun h ⟨mtype, r⟩ hopen => ?_⟩
  · exact inflateStream_returns_iff.mp (h _ hopen) c r' data rfl
  · refine inflateStream_returns_iff.mpr (fun c r' data hm => ?_)
    subst hm
    exact h r c r' data hopen

/-- What a connection sends is received, or refused with an error, exactly if it is
clean. -/
theorem receiveStream_returns_iff (pk : Packages) (e : Endpoint) (conn : Reader)
    (streamLabel : Bytes) :
    (e.receiveStream pk conn streamLabel).Returns ↔ CleanStream pk e conn streamLabel := by
  unfold receiveStream
  rw [returns_bind, unpackStream_returns_iff]
  constructor
  · intro ⟨⟨hplain, hdata⟩, h⟩
    refine ⟨hplain, hdata, fun r header r' hunpack => ?_⟩
    have hr := h _ hunpack
    dsimp only at hr
    rw [if_pos rfl] at hr
    exact readRemoteState_returns_iff.mp (returns_bind.mp hr).1 header r'
  · intro h
    refine ⟨⟨h.plain, h.data⟩, fun ⟨mtype, r⟩ hunpack => ?_⟩
    dsimp only
    split
    next hm =>
      subst hm
      rw [returns_bind]
      exact ⟨readRemoteState_returns_iff.mpr (h.counts r · · hunpack), fun _ _ => returns_ok _⟩
    next => exact returns_ok _

/-- Two signed bytes for the two counts of a header. -/
def byteHeader : Codec PushPullHeader where
  encode := fun h => .ok [UInt8.ofInt h.nodes, UInt8.ofInt h.userStateLen]
  decode := fun r =>
    match r.rest with
    | n :: u :: rest => .ok (⟨n.toInt8.toInt, u.toInt8.toInt⟩, { r with rest })
    | _ => .error r.stop

/-- The same member with a key. -/
def keyedEndpoint : Endpoint :=
  { plainEndpoint with
    keyring := some ⟨{ primaryKey := some (List.replicate 16 1), keys := [List.replicate 16 1] },
      by decide, by decide, fun _ h => by cases h; decide⟩ }

/-- Three streams that crash their receiver: a push/pull that announces −1 nodes, a
compressed message of no bytes, and a sealed message of no bytes. -/
theorem unclean_streams_crash :
    plainEndpoint.receiveStream { refusing with header := byteHeader } (newReader [7, 255, 0]) [] =
      .crash "makeslice: len out of range" ∧
    plainEndpoint.receiveStream
        { refusing with
          lzwRead := fun _ => .ok []
          compressed := { refusing.compressed with decode := fun r => .ok (⟨0, []⟩, r) } }
        (newReader [10]) [] =
      .crash "index out of range" ∧
    keyedEndpoint.receiveStream
        { refusing with gcm := { refusing.gcm with opened := fun _ _ _ _ => some [] } }
        (newReader ([11, 0, 0, 0, 29] ++ List.replicate 29 0)) [] =
      .crash "index out of range" := by
  refine ⟨?_, ?_, ?_⟩
  · decide +kernel
  · decide +kernel
  · decide +kernel

end Endpoint

end Mlist
