import Mlist.Net.Safety

/-!
# What is packed is unpacked

A datagram or a stream that one member packs, another one unpacks to the same message,
whatever either is configured to compress, if neither encrypts or the receiver holds the
key the sender seals with; and with encryption it is refused under every other label.

The layers are taken one by one, from the inside. `Shrunk` says what compression leaves
behind it: the message, or a compressed form that reads back as the message wherever it
stands. `Sealing` is what is assumed of AES-GCM for the one nonce that is drawn: the
ciphertext is a tag longer than the plaintext and opens for nothing but its key, nonce
and additional data. The additional data are the label for a datagram; for a stream they
also hold its size, and `labelled_inj` says that the zeros `tcpAAD` puts in front of them
do not mix up two labels.
-/

namespace Mlist

open Mlist.Lib Mlist.Lib.Outcome

variable {pk : Packages}

/-! ## Compression -/

/-- LZW and msgpack give this message back. -/
def Packages.CompressesAt (pk : Packages) (msg : Bytes) : Prop :=
  ∃ buf, pk.lzwWrite msg = .ok buf ∧ pk.lzwRead buf = .ok msg ∧
    pk.compressed.RoundTripsAt { algo := lzwAlgo, buf }

/-- Bytes that stand for the message once the first step of packing is through: itself,
or a compressed form that reads back from any stream it starts. -/
def Shrunk (pk : Packages) (msg body : Bytes) : Prop :=
  body = msg ∨ ∃ enc, body = MsgType.compress.code :: enc ∧
    ∀ rest stop, ∃ c r, pk.compressed.decode ⟨enc ++ rest, stop⟩ = .ok (c, r) ∧
      decompress pk c = .ok msg

/-- Compressing does not fail, and its result stands for the message. -/
theorem Endpoint.shrink_spec (e : Endpoint) {msg : Bytes} (h : pk.CompressesAt msg) :
    ∃ body, e.shrink pk msg = .ok body ∧ Shrunk pk msg body := by
  obtain ⟨buf, hwrite, hread, enc, henc, hdec⟩ := h
  have hc : compress pk msg = .ok (MsgType.compress.code :: enc) := by
    unfold compress
    rw [hwrite]
    show (pk.compressed.encode _ >>= _) = _
    rw [henc]
    rfl
  have hshrunk : Shrunk pk msg (MsgType.compress.code :: enc) :=
    .inr ⟨enc, rfl, fun rest stop => ⟨_, _, hdec rest stop, hread⟩⟩
  unfold Endpoint.shrink
  split
  next =>
    rw [hc]
    refine ⟨_, rfl, ?_⟩
    split
    next => exact hshrunk
    next => exact .inl rfl
  next => exact ⟨msg, rfl, .inl rfl⟩

/-- A message that does not itself claim to be compressed comes out of its compressed
form. -/
theorem Endpoint.inflateMsg_shrunk {msg body : Bytes} (h : Shrunk pk msg body) (hne : msg ≠ [])
    (htype : msg.head? ≠ some MsgType.compress.code) : inflateMsg pk body = .ok msg := by
  unfold inflateMsg
  rcases h with rfl | ⟨enc, rfl, hdec⟩
  · cases body with
    | nil => exact absurd rfl hne
    | cons t rest =>
      have ht : t ≠ MsgType.compress.code := fun h => htype (congrArg some h)
      rw [index_cons_zero, ok_bind, if_neg ht]
  · obtain ⟨c, r, hc, hd⟩ := hdec [] eof
    rw [index_cons_zero, ok_bind, if_pos rfl, sliceFrom_cons_one, ok_bind, ofExcept_eq_ok]
    unfold decompressMsg newReader
    rw [← List.append_nil enc, hc]
    exact hd

/-- The checksum is right. -/
theorem Endpoint.unpackCrc_addCrc (body : Bytes) :
    unpackCrc pk (addCrc body) = inflateMsg pk body := by
  have h := uint32_putUint32 (crc32 body) []
  unfold addCrc putUint32
  rw [List.cons_append, List.cons_append, List.cons_append, List.cons_append, List.nil_append,
    unpackCrc_cons, if_neg (not_not_intro rfl)]
  exact if_neg (not_not_intro h.symm)

/-! ## Encryption -/

/-- `aes.NewCipher` takes every key that a keyring takes. -/
theorem newCipher_of_valid {key : Bytes} (h : validateKey key = .ok ()) :
    newCipher key = .ok () := by
  unfold validateKey at h
  split at h
  next => cases h
  next hlen =>
    refine if_pos ?_
    omega

/-- What `encrypt` sends: version, nonce, ciphertext. -/
def sealedMsg (pk : Packages) (key msg aad : Bytes) (nonce : Nonce) : Bytes :=
  0 :: (nonce.val ++ pk.gcm.sealed key nonce.val msg aad)

variable {vsn : UInt8} {key msg aad aad' : Bytes} {nonce : Nonce}

/-- With a key and a version that can be used, encrypting does not fail. -/
theorem encrypt_eq (hv : vsn ≤ maxEncryptionVersion) (hkey : validateKey key = .ok ()) :
    encrypt pk vsn key msg aad nonce = .ok (sealedMsg pk key msg aad nonce) := by
  unfold encrypt encryptOverhead
  rw [newCipher_of_valid hkey, ofExcept_ok, ok_bind, version_eq_zero hv, if_pos rfl, ok_bind]
  rfl

/-- What is sealed is longer by the version, the nonce and the tag. -/
theorem sealedMsg_length (htag : pk.gcm.Tagged tagSize) :
    (sealedMsg pk key msg aad nonce).length = versionSize + nonceSize + tagSize + msg.length := by
  unfold sealedMsg
  rw [List.length_cons, List.length_append, nonce.property, htag]
  unfold versionSize
  omega

/-- What is assumed of a sealing: the version is the one there is, and AES-GCM is ideal
for the sender's key, this nonce and these additional data. -/
structure Sealing (pk : Packages) (vsn : UInt8) (key : Bytes) (nonce : Nonce) (aad : Bytes) :
    Prop where
  supported : vsn ≤ maxEncryptionVersion
  tagged : pk.gcm.Tagged tagSize
  ideal : pk.gcm.IdealAt key nonce.val aad

/-- One key of the receiver's, tried on a sealed message. -/
theorem Sealing.decrypt_eq (h : Sealing pk vsn key nonce aad) {key' : Bytes}
    (hkey : validateKey key' = .ok ()) :
    decrypt pk key' (sealedMsg pk key msg aad nonce) aad' =
      if key' = key ∧ aad' = aad then .ok msg
      else .error "cipher: message authentication failed" := by
  have hlen : versionSize + nonceSize ≤ (sealedMsg pk key msg aad nonce).length := by
    rw [sealedMsg_length h.tagged]
    omega
  have hnonce : ((sealedMsg pk key msg aad nonce).take (versionSize + nonceSize)).drop versionSize =
      nonce.val := by
    show ((0 :: (nonce.val ++ _)).take (1 + nonceSize)).drop 1 = _
    rw [Nat.add_comm, List.take_succ_cons, List.drop_succ_cons, List.drop_zero]
    exact List.take_left' nonce.property
  have hct : (sealedMsg pk key msg aad nonce).drop (versionSize + nonceSize) =
      pk.gcm.sealed key nonce.val msg aad := by
    show (0 :: (nonce.val ++ _)).drop (1 + nonceSize) = _
    rw [Nat.add_comm, List.drop_succ_cons]
    exact List.drop_left' nonce.property
  unfold decrypt
  rw [newCipher_of_valid hkey, ofExcept_ok, ok_bind, slice_of_le (by decide) hlen, ok_bind,
    sliceFrom_of_le hlen, ok_bind, hnonce, hct, h.ideal]
  by_cases heq : key' = key ∧ aad' = aad
  · rw [if_pos heq, if_pos ⟨heq.1, rfl, heq.2⟩]
  · rw [if_neg heq, if_neg (fun hall => heq ⟨hall.1, hall.2.2⟩)]

/-- Under its own additional data, the receiver's keys open a message in whatever order
they are tried. -/
theorem Sealing.tryKeys_eq (h : Sealing pk vsn key nonce aad) :
    ∀ {keys : List Bytes}, (∀ k ∈ keys, validateKey k = .ok ()) → key ∈ keys →
      tryKeys pk (sealedMsg pk key msg aad nonce) aad keys = .ok msg
  | k :: keys, hvalid, hmem => by
    unfold tryKeys
    rw [h.decrypt_eq (hvalid k List.mem_cons_self)]
    by_cases hk : k = key
    · rw [if_pos ⟨hk, rfl⟩]
    · rw [if_neg (fun hall => hk hall.1)]
      refine h.tryKeys_eq (fun k' hk' => hvalid k' (List.mem_cons_of_mem k hk')) ?_
      exact (List.mem_cons.mp hmem).resolve_left (fun heq => hk heq.symm)

/-- Under other additional data none of them does. -/
theorem Sealing.tryKeys_other (h : Sealing pk vsn key nonce aad) (haad : aad' ≠ aad) :
    ∀ {keys : List Bytes}, (∀ k ∈ keys, validateKey k = .ok ()) →
      tryKeys pk (sealedMsg pk key msg aad nonce) aad' keys =
        .error "no installed keys could decrypt the message"
  | [], _ => rfl
  | k :: keys, hvalid => by
    unfold tryKeys
    rw [h.decrypt_eq (hvalid k List.mem_cons_self), if_neg (fun hall => haad hall.2)]
    exact h.tryKeys_other haad (fun k' hk' => hvalid k' (List.mem_cons_of_mem k hk'))

/-- A sealed message passes the checks in front of the keys. -/
theorem Sealing.decryptWithKeys_eq (h : Sealing pk vsn key nonce aad) (keys : List Bytes) :
    decryptWithKeys pk keys (sealedMsg pk key msg aad nonce) aad' =
      tryKeys pk (sealedMsg pk key msg aad nonce) aad' keys := by
  have hlen : (sealedMsg pk key msg aad nonce).length = _ := sealedMsg_length h.tagged
  unfold decryptWithKeys
  rw [if_neg (by rw [hlen]; unfold tagSize; omega)]
  show (Outcome.ok 0 >>= _) = _
  rw [ok_bind, if_neg (by decide)]
  show (Outcome.ok (versionSize + nonceSize + tagSize) >>= _) = _
  rw [ok_bind, if_neg (by rw [hlen]; omega)]

/-! ## Datagrams -/

namespace Endpoint

/-- The keyrings of two members fit: neither encrypts, or the receiver tries the key the
sender seals with. -/
def KeysFit (s r : Endpoint) : Prop :=
  s.encryptionEnabled = false ∧ r.encryptionEnabled = false ∨
    s.encryptionEnabled = true ∧ s.getPrimaryKey ∈ r.getKeys

/-- A keyring has only keys that can be used. -/
theorem getKeys_valid {e : Endpoint} {k : Bytes} (h : k ∈ e.getKeys) : validateKey k = .ok () := by
  unfold getKeys at h
  split at h
  next => cases h
  next r _ => exact r.property.getKeys_sizes h

/-- Whoever has a key encrypts. -/
theorem encryptionEnabled_of_mem {e : Endpoint} {k : Bytes} (h : k ∈ e.getKeys) :
    e.encryptionEnabled = true := by
  unfold encryptionEnabled
  cases hk : e.getKeys with
  | nil =>
    rw [hk] at h
    cases h
  | cons => rfl

/-- A message that is not itself a compressed one arrives as it was sent; under another
label than the sender's, an encrypted datagram does not arrive. -/
theorem unpackPacket_packUdp (pk : Packages) (s r : Endpoint) (nonce : Nonce) (msg : Bytes)
    (hne : msg ≠ []) (htype : msg.head? ≠ some MsgType.compress.code)
    (hcompress : pk.CompressesAt msg) (hkeys : KeysFit s r)
    (hseal : s.encryptionEnabled = true →
      Sealing pk s.encryptionVersion s.getPrimaryKey nonce s.label) :
    ∃ d, s.packUdp pk nonce msg = .ok d ∧
      r.unpackPacket pk d s.label = .ok msg ∧
      ∀ label, label ≠ s.label → s.encryptionEnabled = true →
        r.unpackPacket pk d label = .error "no installed keys could decrypt the message" := by
  obtain ⟨body, hshrink, hshrunk⟩ := s.shrink_spec hcompress
  have hcrc : unpackCrc pk (addCrc body) = .ok msg := by
    rw [unpackCrc_addCrc, inflateMsg_shrunk hshrunk hne htype]
  unfold packUdp unpackPacket unpackPlain
  rw [hshrink, ofExcept_ok, ok_bind]
  rcases hkeys with ⟨hs, hr⟩ | ⟨hs, hmem⟩
  · refine ⟨addCrc body, ?_, ?_, fun _ _ henc => ?_⟩
    · rw [if_neg (ne_true_of_eq_false hs)]
    · rw [if_neg (ne_true_of_eq_false hr), ok_bind, hcrc]
    · exact absurd henc (ne_true_of_eq_false hs)
  · have hvalid : ∀ k ∈ r.getKeys, validateKey k = .ok () := fun k hk => getKeys_valid hk
    have h := hseal hs
    refine ⟨sealedMsg pk s.getPrimaryKey (addCrc body) s.label nonce, ?_, ?_, fun label hl _ => ?_⟩
    · rw [if_pos hs]
      exact encrypt_eq h.supported (hvalid _ hmem)
    · rw [if_pos (encryptionEnabled_of_mem hmem), h.decryptWithKeys_eq, h.tryKeys_eq hvalid hmem,
        ok_bind, hcrc]
    · rw [if_pos (encryptionEnabled_of_mem hmem), h.decryptWithKeys_eq,
        h.tryKeys_other hl hvalid, error_bind]

end Endpoint

/-- A lock with one key: it opens for one key, nonce and additional data. -/
def oneKey (key nonce aad : Bytes) : Aead where
  sealed := fun _ _ plain _ => plain ++ List.replicate tagSize 0
  opened := fun k n sealed a =>
    if k = key ∧ n = nonce ∧ a = aad then some (sealed.take (sealed.length - tagSize)) else none

/-- The lock makes a text longer by a tag, of zeros. -/
theorem oneKey_tagged (key nonce aad : Bytes) : (oneKey key nonce aad).Tagged tagSize := by
  intro _ _ plain _
  show (plain ++ List.replicate tagSize 0).length = _
  rw [List.length_append, List.length_replicate]

/-- Nothing else opens it. -/
theorem oneKey_idealAt (key nonce aad : Bytes) : (oneKey key nonce aad).IdealAt key nonce aad := by
  intro plain key' nonce' aad'
  show (if key' = key ∧ nonce' = nonce ∧ aad' = aad then
    some ((plain ++ List.replicate tagSize 0).take
      ((plain ++ List.replicate tagSize (0 : UInt8)).length - tagSize)) else none) = _
  rw [List.length_append, List.length_replicate, Nat.add_sub_cancel, List.take_left]

/-- Two members that encrypt, with different primary keys and one key in common. -/
def sampleSender : Endpoint := { Endpoint.keyedEndpoint with label := [0x6c] }

/-- The other one, whose second key is the first one's. -/
def sampleReceiver : Endpoint where
  label := [0x6c]
  enableCompression := false
  encryptionVersion := 0
  udpBufferSize := 1400
  keyring := some ⟨{ primaryKey := some (List.replicate 32 2),
                     keys := [List.replicate 32 2, List.replicate 16 1] },
    by decide, by decide, fun _ h => by cases h; decide⟩

def sampleNonce : Nonce := ⟨List.replicate 12 3, rfl⟩

/-- A compression: each run of a byte becomes its length and the byte. -/
def packRuns : Bytes → Bytes
  | [] => []
  | b :: msg =>
    match packRuns msg with
    | n :: c :: runs => if c = b ∧ n < 255 then (n + 1) :: b :: runs else 1 :: b :: n :: c :: runs
    | _ => [1, b]

/-- Each length and byte become a run again. -/
def unpackRuns : Bytes → Bytes
  | n :: b :: runs => List.replicate n.toNat b ++ unpackRuns runs
  | _ => []

/-- The compression loses nothing. -/
theorem unpackRuns_packRuns (msg : Bytes) : unpackRuns (packRuns msg) = msg := by
  induction msg with
  | nil => rfl
  | cons b msg ih =>
    unfold packRuns
    split
    next n c runs h =>
      rw [h] at ih
      split
      next hsame =>
        obtain ⟨rfl, hn⟩ := hsame
        have hsucc : (n + 1).toNat = n.toNat + 1 := by
          have hlt : n.toNat < 255 := UInt8.lt_iff_toNat_lt.mp hn
          rw [UInt8.toNat_add]
          exact Nat.mod_eq_of_lt (Nat.succ_lt_succ hlt)
        show List.replicate (n + 1).toNat c ++ unpackRuns runs = _
        rw [hsucc, List.replicate_succ, List.cons_append]
        exact congrArg (c :: ·) ih
      next => exact congrArg (b :: ·) ih
    next h =>
      -- fewer than two bytes are no run
      have hnil : unpackRuns (packRuns msg) = [] := by
        unfold unpackRuns
        split
        next n c runs hruns => exact absurd hruns (h n c runs)
        next => rfl
      rw [← ih, hnil]
      rfl

/-- A compressed message as its algorithm, its length in a byte and its bytes. -/
def countedCodec : Codec Compressed where
  encode := fun c => .ok (c.algo :: UInt8.ofNat c.buf.length :: c.buf)
  decode := fun r =>
    match r.rest with
    | algo :: n :: rest =>
      if rest.length < n.toNat then .error r.stop
      else .ok (⟨algo, rest.take n.toNat⟩, { r with rest := rest.drop n.toNat })
    | _ => .error r.stop

/-- A byte is enough for the length of what is short. -/
theorem countedCodec_roundTripsAt {c : Compressed} (h : c.buf.length < 256) :
    countedCodec.RoundTripsAt c := by
  refine ⟨_, rfl, fun rest stop => ?_⟩
  show (if (c.buf ++ rest).length < (UInt8.ofNat c.buf.length).toNat then Except.error stop
    else .ok (Compressed.mk c.algo ((c.buf ++ rest).take (UInt8.ofNat c.buf.length).toNat),
      Reader.mk ((c.buf ++ rest).drop (UInt8.ofNat c.buf.length).toNat) stop)) = _
  rw [UInt8.toNat_ofNat', Nat.mod_eq_of_lt h, List.take_left, List.drop_left, if_neg]
  rw [List.length_append]
  omega

/-- Packages that compress runs, and seal for one key, nonce and additional data. -/
def samplePackages (aad : Bytes) : Packages where
  lzwWrite := fun msg => .ok (packRuns msg)
  lzwRead := fun buf => .ok (unpackRuns buf)
  gcm := oneKey (List.replicate 16 1) sampleNonce.val aad
  compressed := countedCodec
  header := Endpoint.byteHeader
  state :=
    { encode := fun n => .ok [UInt8.ofNat n.lives]
      decode := fun r =>
        match r.rest with
        | n :: rest => .ok (⟨n.toNat, "", [], 0, [], 0⟩, { r with rest })
        | _ => .error r.stop }
  maxStates := 2 ^ 20
  maxBytes := 2 ^ 20

/-- Messages with few runs can be sent compressed. -/
theorem samplePackages_compressesAt {msg : Bytes} (aad : Bytes)
    (h : (packRuns msg).length < 256) : (samplePackages aad).CompressesAt msg :=
  ⟨packRuns msg, rfl, congrArg Except.ok (unpackRuns_packRuns msg), countedCodec_roundTripsAt h⟩

theorem samplePackages_sealing (aad : Bytes) :
    Sealing (samplePackages aad) sampleSender.encryptionVersion sampleSender.getPrimaryKey
      sampleNonce aad :=
  ⟨by decide, oneKey_tagged _ _ _, oneKey_idealAt _ _ _⟩

/-- An alive message that is compressed, sealed with the sender's key and opened with the
receiver's second one. -/
theorem unpackPacket_packUdp_sealed :
    let msg : Bytes := [4, 0, 0, 0, 0, 0, 0, 0, 0]
    let pk := samplePackages sampleSender.label
    ∃ d, sampleSender.packUdp pk sampleNonce msg = .ok d ∧
      sampleReceiver.unpackPacket pk d sampleSender.label = .ok msg ∧
      ∀ label, label ≠ sampleSender.label → sampleSender.encryptionEnabled = true →
        sampleReceiver.unpackPacket pk d label =
          .error "no installed keys could decrypt the message" :=
  Endpoint.unpackPacket_packUdp _ _ _ _ _ (by decide) (by decide)
    (samplePackages_compressesAt _ (by decide)) (.inr ⟨by decide, by decide⟩)
    (fun _ => samplePackages_sealing _)

/-! ## Streams -/

/-- Different labels make different additional data. -/
theorem labelled_inj {header l l' : Bytes} (h : labelled header l = labelled header l') :
    l = l' := by
  have hlen := congrArg List.length h
  unfold labelled at h hlen
  by_cases hl : l = []
  · by_cases hl' : l' = []
    · rw [hl, hl']
    · rw [if_neg (not_not_intro hl), if_pos hl'] at hlen
      simp only [List.length_append, List.length_replicate] at hlen
      omega
  · by_cases hl' : l' = []
    · rw [if_pos hl, if_neg (not_not_intro hl')] at hlen
      simp only [List.length_append, List.length_replicate] at hlen
      omega
    · rw [if_pos hl, if_pos hl'] at h hlen
      simp only [List.length_append, List.length_replicate] at hlen
      -- the zeros count the label, so the parts in front of it are equally long
      refine (List.append_inj h ?_).2
      simp only [List.length_append, List.length_replicate]
      omega

/-- The type byte and the size in front of an encrypted message of `n` bytes. -/
def streamHeader (n : Nat) : Bytes :=
  MsgType.encrypt.code :: putUint32 (UInt32.ofNat (versionSize + nonceSize + tagSize + n))

/-- A stream has its header in the clear, as additional data. -/
theorem Sealing.encryptTcp_eq {streamLabel : Bytes}
    (h : Sealing pk vsn key nonce (labelled (streamHeader msg.length) streamLabel))
    (hkey : validateKey key = .ok ()) :
    encryptTcp pk vsn key msg streamLabel nonce = .ok (streamHeader msg.length ++
      sealedMsg pk key msg (labelled (streamHeader msg.length) streamLabel) nonce) := by
  unfold encryptTcp writeEncryptedSize encryptOverhead
  rw [if_pos (version_eq_zero h.supported), ok_bind, ok_bind]
  show (tcpAAD (streamHeader msg.length) streamLabel >>= _) = _
  rw [tcpAAD_eq rfl, ok_bind, encrypt_eq h.supported hkey, ok_bind]
  rfl

/-- A payload of the announced length, not over the limit, gets to the keys. -/
theorem decryptTcp_eq {keys : List Bytes} {n : Nat} {payload rest streamLabel : Bytes}
    {stop : String}
    (hlen : payload.length = versionSize + nonceSize + tagSize + n)
    (hsize : versionSize + nonceSize + tagSize + n ≤ maxPushSize) :
    decryptTcp pk keys
        ⟨putUint32 (UInt32.ofNat (versionSize + nonceSize + tagSize + n)) ++ (payload ++ rest),
          stop⟩
        streamLabel =
      decryptWithKeys pk keys payload (labelled (streamHeader n) streamLabel) := by
  have hnat : (UInt32.ofNat (versionSize + nonceSize + tagSize + n)).toNat = payload.length := by
    have hmax : maxPushSize < 2 ^ 32 := by decide
    rw [UInt32.toNat_ofNat', hlen]
    exact Nat.mod_eq_of_lt (Nat.lt_of_le_of_lt hsize hmax)
  have hword := uint32_putUint32 (UInt32.ofNat (versionSize + nonceSize + tagSize + n)) []
  have hcopy :=
    Reader.copyN_append (putUint32 (UInt32.ofNat (versionSize + nonceSize + tagSize + n)))
    (payload ++ rest) stop
  rw [List.append_nil] at hword
  rw [putUint32_length] at hcopy
  unfold decryptTcp
  rw [hcopy, ofExcept_ok, ok_bind]
  dsimp only
  show (tcpAAD (streamHeader n) streamLabel >>= _) = _
  rw [tcpAAD_eq rfl, ok_bind]
  show (slice (streamHeader n) 1 5 >>= _) = _
  have hslice : slice (streamHeader n) 1 5 =
      .ok (putUint32 (UInt32.ofNat (versionSize + nonceSize + tagSize + n))) := rfl
  rw [hslice, ok_bind, hword, hnat, if_neg (by omega), Reader.copyN_append, ofExcept_ok, ok_bind]
  dsimp only
  rw [sliceFrom_of_le (by simp), ok_bind]
  rfl

namespace Endpoint

/-- Without keys a stream is read as it is. -/
theorem openStream_plain {r : Endpoint} (hr : r.encryptionEnabled = false) {t : UInt8}
    (ht : t ≠ MsgType.encrypt.code) (tail : Bytes) (stop : String) (streamLabel : Bytes) :
    r.openStream pk ⟨t :: tail, stop⟩ streamLabel = .ok (t, ⟨tail, stop⟩) := by
  unfold openStream
  rw [show (Reader.mk (t :: tail) stop).readFull 1 = .ok ([t], ⟨tail, stop⟩) from
    Reader.readFull_append [t] tail stop, ofExcept_ok, ok_bind]
  dsimp only
  rw [index_cons_zero, ok_bind, hr, beq_false_of_ne ht]
  rfl

/-- With keys it is decrypted first. -/
theorem openStream_encrypted {r : Endpoint} (hr : r.encryptionEnabled = true) (tail : Bytes)
    (stop : String) (streamLabel : Bytes) :
    r.openStream pk ⟨MsgType.encrypt.code :: tail, stop⟩ streamLabel =
      (decryptTcp pk r.getKeys ⟨tail, stop⟩ streamLabel >>= resetStream) := by
  unfold openStream
  rw [show (Reader.mk (MsgType.encrypt.code :: tail) stop).readFull 1 =
      .ok ([MsgType.encrypt.code], ⟨tail, stop⟩) from
    Reader.readFull_append [MsgType.encrypt.code] tail stop, ofExcept_ok, ok_bind]
  dsimp only
  rw [index_cons_zero, ok_bind, hr]
  rfl

theorem resetStream_cons (t : UInt8) (rest : Bytes) :
    resetStream (t :: rest) = .ok (t, newReader rest) := by
  unfold resetStream
  rw [index_cons_zero, ok_bind, sliceFrom_cons_one, ok_bind]

/-- A payload behind its header is handed to the keys under the receiver's label. -/
theorem openStream_payload {r : Endpoint} (hr : r.encryptionEnabled = true) {n : Nat}
    {payload rest : Bytes} {stop : String} {streamLabel : Bytes}
    (hlen : payload.length = versionSize + nonceSize + tagSize + n)
    (hsize : versionSize + nonceSize + tagSize + n ≤ maxPushSize) :
    r.openStream pk ⟨streamHeader n ++ payload ++ rest, stop⟩ streamLabel =
      (decryptWithKeys pk r.getKeys payload (labelled (streamHeader n) streamLabel) >>=
        resetStream) := by
  rw [List.append_assoc]
  show r.openStream pk ⟨MsgType.encrypt.code :: (putUint32 _ ++ (payload ++ rest)), stop⟩ _ = _
  rw [openStream_encrypted hr, decryptTcp_eq hlen hsize]

/-- The message comes out of its compressed form, at the start of what is left of the
stream. -/
theorem inflateStream_shrunk {t t' : UInt8} {enc tail : Bytes}
    (h : Shrunk pk (t :: enc) (t' :: tail)) (ht : t ≠ MsgType.compress.code) (rest : Bytes)
    (stop : String) :
    ∃ rest' stop', inflateStream pk t' ⟨tail ++ rest, stop⟩ = .ok (t, ⟨enc ++ rest', stop'⟩) := by
  unfold inflateStream
  rcases h with heq | ⟨z, heq, hdec⟩
  · obtain ⟨rfl, rfl⟩ := List.cons.inj heq
    exact ⟨rest, stop, if_neg ht⟩
  · obtain ⟨rfl, rfl⟩ := List.cons.inj heq
    obtain ⟨c, r, hc, hd⟩ := hdec rest stop
    refine ⟨[], eof, ?_⟩
    rw [if_pos rfl, hc, ofExcept_ok, ok_bind]
    dsimp only
    rw [hd, ofExcept_ok, ok_bind, resetStream_cons, List.append_nil]
    rfl

/-- What is assumed of the packages for one message on a stream, and of its size when
it is encrypted. -/
structure Sendable (pk : Packages) (s : Endpoint) (nonce : Nonce) (streamLabel msg : Bytes) :
    Prop where
  compresses : pk.CompressesAt msg
  size : s.encryptionEnabled = true → ∀ body, s.shrink pk msg = .ok body →
    versionSize + nonceSize + tagSize + body.length ≤ maxPushSize
  seals : s.encryptionEnabled = true → ∀ body, s.shrink pk msg = .ok body →
    Sealing pk s.encryptionVersion s.getPrimaryKey nonce
      (labelled (streamHeader body.length) streamLabel)

/-- A message that is neither compressed nor encrypted itself arrives at the start of the
receiver's reader, whatever follows it on the connection; under another label an
encrypted one does not arrive. -/
theorem unpackStream_packTcp {s r : Endpoint} {streamLabel : Bytes} {t : UInt8} {enc : Bytes}
    (hkeys : KeysFit s r) (h : Sendable pk s nonce streamLabel (t :: enc))
    (hz : t ≠ MsgType.compress.code) (he : t ≠ MsgType.encrypt.code) :
    ∃ d, s.packTcp pk nonce (t :: enc) streamLabel = .ok d ∧ ∀ rest stop,
      (∃ rest' stop', r.unpackStream pk ⟨d ++ rest, stop⟩ streamLabel =
        .ok (t, ⟨enc ++ rest', stop'⟩)) ∧
      ∀ label, label ≠ streamLabel → s.encryptionEnabled = true →
        r.unpackStream pk ⟨d ++ rest, stop⟩ label =
          .error "no installed keys could decrypt the message" := by
  obtain ⟨body, hshrink, hshrunk⟩ := s.shrink_spec h.compresses
  obtain ⟨t', tail, rfl, ht'⟩ : ∃ t' tail, body = t' :: tail ∧ t' ≠ MsgType.encrypt.code := by
    rcases hshrunk with rfl | ⟨z, rfl, _⟩
    · exact ⟨t, enc, rfl, he⟩
    · exact ⟨_, z, rfl, by decide⟩
  unfold packTcp unpackStream
  rw [hshrink, ofExcept_ok, ok_bind]
  -- neither of them encrypts, or the receiver has the key
  rcases hkeys with ⟨hs, hr⟩ | ⟨hs, hmem⟩
  · refine ⟨t' :: tail, if_neg (ne_true_of_eq_false hs), fun rest stop => ⟨?_, fun _ _ henc => ?_⟩⟩
    · rw [List.cons_append, openStream_plain hr ht', ok_bind]
      exact inflateStream_shrunk hshrunk hz rest stop
    · exact absurd henc (ne_true_of_eq_false hs)
  · have hvalid : ∀ k ∈ r.getKeys, validateKey k = .ok () := fun k hk => getKeys_valid hk
    have hseal := h.seals hs _ hshrink
    have hsize := h.size hs _ hshrink
    have hr := encryptionEnabled_of_mem hmem
    refine ⟨_, (if_pos hs).trans (hseal.encryptTcp_eq (hvalid _ hmem)), fun rest stop => ?_⟩
    refine ⟨?_, fun label hl _ => ?_⟩
    · rw [openStream_payload hr (sealedMsg_length hseal.tagged) hsize, hseal.decryptWithKeys_eq,
        hseal.tryKeys_eq hvalid hmem, ok_bind, resetStream_cons, ok_bind]
      dsimp only
      unfold newReader
      rw [← List.append_nil tail]
      exact inflateStream_shrunk hshrunk hz [] eof
    · rw [openStream_payload hr (sealedMsg_length hseal.tagged) hsize, hseal.decryptWithKeys_eq,
        hseal.tryKeys_other (fun heq => hl (labelled_inj heq)) hvalid, error_bind, error_bind]

end Endpoint

/-! ## State exchange -/

/-- The nodes are read back one after the other, from where the header ended. -/
theorem readStates_encodeStates : ∀ {nodes : List StateToMerge},
    (∀ n ∈ nodes, pk.state.RoundTripsAt n) →
    ∃ enc, encodeStates pk nodes = .ok enc ∧ ∀ rest stop,
      readStates pk nodes.length ⟨enc ++ rest, stop⟩ = .ok (nodes, ⟨rest, stop⟩)
  | [], _ => ⟨[], rfl, fun _ _ => rfl⟩
  | n :: nodes, h => by
    obtain ⟨b, henc, hdec⟩ := h n List.mem_cons_self
    obtain ⟨rest, hencs, hdecs⟩ :=
      readStates_encodeStates (fun m hm => h m (List.mem_cons_of_mem n hm))
    refine ⟨b ++ rest, ?_, fun after stop => ?_⟩
    · unfold encodeStates
      rw [henc, hencs]
      rfl
    · rw [List.length_cons, List.append_assoc]
      unfold readStates
      rw [hdec]
      show (readStates pk nodes.length _ >>= _) = _
      rw [hdecs]
      rfl

/-- A slice of the program: no longer than the runtime can make one. -/
abbrev Bounded (α : Type) (max : Nat) := { l : List α // l.length ≤ max }

/-- A state that was encoded is read back, whatever comes behind it on the connection. -/
theorem readRemoteState_encode (nodes : Bounded StateToMerge pk.maxStates)
    (user : Bounded UInt8 pk.maxBytes)
    (hheader :
      pk.header.RoundTripsAt { nodes := nodes.val.length, userStateLen := user.val.length })
    (hstates : ∀ n ∈ nodes.val, pk.state.RoundTripsAt n) :
    ∃ enc, encodePushPullMsg pk nodes.val user.val = .ok (MsgType.pushPull.code :: enc) ∧
      ∀ rest stop, readRemoteState pk ⟨enc ++ rest, stop⟩ = .ok (nodes.val, user.val) := by
  obtain ⟨header, henc, hdec⟩ := hheader
  obtain ⟨states, hencs, hdecs⟩ := readStates_encodeStates hstates
  have hn : makeLen pk.maxStates nodes.val.length = .ok nodes.val.length :=
    if_pos ⟨Int.natCast_nonneg _, Int.ofNat_le.mpr nodes.property⟩
  have hu : makeLen pk.maxBytes user.val.length = .ok user.val.length :=
    if_pos ⟨Int.natCast_nonneg _, Int.ofNat_le.mpr user.property⟩
  refine ⟨header ++ (states ++ user.val), ?_, fun rest stop => ?_⟩
  · unfold encodePushPullMsg
    rw [henc, hencs]
    rfl
  · rw [List.append_assoc, List.append_assoc]
    unfold readRemoteState
    rw [hdec, ofExcept_ok, ok_bind]
    dsimp only
    rw [hn, ok_bind, hdecs, ofExcept_ok, ok_bind]
    dsimp only
    split
    next =>
      rw [hu, ok_bind, Reader.readFull_append, ofExcept_ok, ok_bind]
    next h0 =>
      -- a user state of length 0 is not read at all
      have hnil : user.val = [] := List.eq_nil_of_length_eq_zero (by omega)
      rw [hnil]

/-- A push/pull message arrives with the nodes in their order and the user state, on a
connection that may go on behind it; under another label an encrypted one is refused. -/
theorem Endpoint.receiveStream_packTcp (pk : Packages) (s r : Endpoint) (nonce : Nonce)
    (nodes : Bounded StateToMerge pk.maxStates) (user : Bounded UInt8 pk.maxBytes)
    (streamLabel : Bytes) (hkeys : KeysFit s r)
    (hheader :
      pk.header.RoundTripsAt { nodes := nodes.val.length, userStateLen := user.val.length })
    (hstates : ∀ n ∈ nodes.val, pk.state.RoundTripsAt n)
    (hsend : ∀ msg, encodePushPullMsg pk nodes.val user.val = .ok msg →
      Sendable pk s nonce streamLabel msg) :
    ∃ msg d, encodePushPullMsg pk nodes.val user.val = .ok msg ∧
      s.packTcp pk nonce msg streamLabel = .ok d ∧ ∀ rest stop,
        r.receiveStream pk ⟨d ++ rest, stop⟩ streamLabel =
          .ok (MsgType.pushPull.code, some (nodes.val, user.val)) ∧
        ∀ label, label ≠ streamLabel → s.encryptionEnabled = true →
          r.unpackStream pk ⟨d ++ rest, stop⟩ label =
            .error "no installed keys could decrypt the message" := by
  obtain ⟨enc, henc, hread⟩ := readRemoteState_encode nodes user hheader hstates
  obtain ⟨d, hpack, hunpack⟩ :=
    unpackStream_packTcp (r := r) hkeys (hsend _ henc) (by decide) (by decide)
  refine ⟨_, d, henc, hpack, fun rest stop => ⟨?_, (hunpack rest stop).2⟩⟩
  obtain ⟨rest', stop', hok⟩ := (hunpack rest stop).1
  unfold receiveStream
  rw [hok, ok_bind]
  dsimp only
  rw [if_pos rfl, hread, ok_bind]

/-- One node and twelve bytes of user state, compressed and sealed. -/
theorem receiveStream_packTcp_sealed :
    let label : Bytes := [0x6c]
    let pk := samplePackages (labelled (streamHeader 13) label)
    let nodes : Bounded StateToMerge pk.maxStates := ⟨[⟨5, "", [], 0, [], 0⟩], by decide⟩
    let user : Bounded UInt8 pk.maxBytes := ⟨List.replicate 12 9, by decide⟩
    ∃ msg d, encodePushPullMsg pk nodes.val user.val = .ok msg ∧
      sampleSender.packTcp pk sampleNonce msg label = .ok d ∧ ∀ rest stop,
        sampleReceiver.receiveStream pk ⟨d ++ rest, stop⟩ label =
          .ok (MsgType.pushPull.code, some (nodes.val, user.val)) ∧
        ∀ label', label' ≠ label → sampleSender.encryptionEnabled = true →
          sampleReceiver.unpackStream pk ⟨d ++ rest, stop⟩ label' =
            .error "no installed keys could decrypt the message" := by
  intro label pk nodes user
  refine Endpoint.receiveStream_packTcp pk sampleSender sampleReceiver sampleNonce nodes user label
    (.inr ⟨by decide, by decide⟩) ⟨[1, 12], rfl, fun _ _ => rfl⟩ (fun n hn => ?_) (fun m hm => ?_)
  · rw [List.mem_singleton.mp hn]
    exact ⟨[5], rfl, fun _ _ => rfl⟩
  · have henc : encodePushPullMsg pk nodes.val user.val =
        .ok ([7, 1, 12, 5] ++ List.replicate 12 9) := by decide
    obtain rfl := Except.ok.inj (henc.symm.trans hm)
    have hshrink : sampleSender.shrink pk ([7, 1, 12, 5] ++ List.replicate 12 9) =
        .ok [10, 0, 10, 1, 7, 1, 1, 1, 12, 1, 5, 12, 9] := by decide
    refine ⟨samplePackages_compressesAt _ (by decide), fun _ body hbody => ?_,
      fun _ body hbody => ?_⟩
    · obtain rfl := Except.ok.inj (hshrink.symm.trans hbody)
      decide
    · obtain rfl := Except.ok.inj (hshrink.symm.trans hbody)
      exact samplePackages_sealing _

end Mlist
