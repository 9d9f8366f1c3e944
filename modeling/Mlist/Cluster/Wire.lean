import Mathlib.Data.List.Infix
import Mathlib.Logic.Relation
import Mlist.Cluster.World
import Mlist.Model.Station
import Mlist.Net.Compound
import Mlist.Net.Cut

/-!
# Members hear what members say

`World` of `World.lean` has messages in flight. What is in flight are bytes, and between the
two lie two queues, compounds, checksums, compression, encryption and streams that may break.
Here is what they add up to. Every run of the cluster of bytes is a run of a world
(`refines_world`): each member is in the state it would be in if the messages had been put
into flight and heard as such. So what is true in every world is true of the bytes.

The proof is a simulation. `Sim s w` says what each byte in the cluster stands for in the
world: a datagram is a payload that somebody packed, and whatever `handleUdpMsg` will make of
the payload is a message in flight, or one that an application has sent; a stream is the front
of a state in flight.

This needs what is sent to be readable at all (`Fits`): the codecs give it back, the seals are
ideal, the count and the lengths of a compound fit into their bytes. Nothing is needed of the
keys: members may change theirs at any time, and who does not have the right one hears
nothing. Nor does anything have to arrive.
-/

namespace Mlist

open Mlist.Lib Mlist.Lib.Outcome Relation

/-! ## Datagrams -/

/-- The packages give this payload back to who has the key. -/
structure Readable (pk : Packages) (e : Endpoint) (nonce : Nonce) (msg : Bytes) : Prop where
  compresses : pk.CompressesAt msg
  seals : e.encryptionEnabled = true →
    Sealing pk e.encryptionVersion e.getPrimaryKey nonce e.label

namespace Endpoint

variable {pk : Packages} {s r : Endpoint} {nonce : Nonce} {msg d : Bytes}

/-- What is not encrypted has no version. -/
theorem decryptWithKeys_addCrc (pk : Packages) (keys : List Bytes) (body label : Bytes) :
    ∃ err, decryptWithKeys pk keys (addCrc body) label = .error err := by
  unfold decryptWithKeys addCrc
  split
  next => exact ⟨_, rfl⟩
  next =>
    rw [index_cons_zero, ok_bind, if_pos (by decide)]
    exact ⟨_, rfl⟩

/-- **Whoever gets a datagram** gets what was sent or nothing. -/
theorem unpackPacket_sent (h : Readable pk s nonce msg) (hne : msg ≠ [])
    (htype : msg.head? ≠ some MsgType.compress.code) (hd : s.packUdp pk nonce msg = .ok d)
    (label : Bytes) :
    r.unpackPacket pk d label = .ok msg ∨ ∃ err, r.unpackPacket pk d label = .error err := by
  obtain ⟨body, hshrink, hshrunk⟩ := s.shrink_spec h.compresses
  have hcrc : unpackCrc pk (addCrc body) = .ok msg := by
    rw [unpackCrc_addCrc, inflateMsg_shrunk hshrunk hne htype]
  unfold packUdp at hd
  rw [hshrink, ofExcept_ok, ok_bind] at hd
  dsimp only at hd
  unfold unpackPacket unpackPlain
  -- four cases, for whether the sender and the receiver encrypt
  cases hs : s.encryptionEnabled with
  | false =>
    rw [if_neg (ne_true_of_eq_false hs)] at hd
    cases hd
    cases hr : r.encryptionEnabled with
    | false =>
      rw [if_neg Bool.false_ne_true, ok_bind]
      exact .inl hcrc
    | true =>
      obtain ⟨err, herr⟩ := decryptWithKeys_addCrc pk r.getKeys body label
      rw [if_pos rfl, herr]
      exact .inr ⟨err, rfl⟩
  | true =>
    have hkey : validateKey s.getPrimaryKey = .ok () := getKeys_valid (getPrimaryKey_mem hs)
    have hseal := h.seals hs
    rw [if_pos hs, encrypt_eq hseal.supported hkey] at hd
    cases hd
    cases hr : r.encryptionEnabled with
    | false =>
      rw [if_neg Bool.false_ne_true, ok_bind]
      refine .inr ?_
      -- a sealed message starts with its version, which is not the type of a checksum
      unfold unpackCrc sealedMsg
      split
      next => exact ⟨_, rfl⟩
      next =>
        rw [index_cons_zero, ok_bind, if_pos (by decide)]
        exact ⟨_, rfl⟩
    | true =>
      -- the receiver needs the key and the label
      have hvalid : ∀ k ∈ r.getKeys, validateKey k = .ok () := fun k hk => getKeys_valid hk
      rw [if_pos rfl, hseal.decryptWithKeys_eq]
      by_cases hmem : s.getPrimaryKey ∈ r.getKeys
      · by_cases hlabel : label = s.label
        · rw [hlabel, hseal.tryKeys_eq hvalid hmem, ok_bind]
          exact .inl hcrc
        · rw [hseal.tryKeys_other hlabel hvalid]
          exact .inr ⟨_, rfl⟩
      · rw [hseal.tryKeys_missing hvalid hmem]
        exact .inr ⟨_, rfl⟩

end Endpoint

/-! ## What a payload is taken for -/

/-- The count and the lengths of a compound fit into their bytes. -/
structure FitsCompound (msgs : List Bytes) : Prop where
  few : msgs.length ≤ 255
  short : ∀ m ∈ msgs, m.length ≤ 65535

/-- A compound that its header has room for is handled part by part. -/
theorem handleUdpMsg_compound {msgs : List Bytes} (h : FitsCompound msgs) (sender : UDPAddr)
    (timestamp : Time) :
    handleUdpMsg sender timestamp (packCompoundMsg msgs) =
      msgs.flatMap (handleUdpMsg sender timestamp) := by
  rw [packCompoundMsg_eq]
  unfold handleUdpMsg
  show handleCompound sender timestamp (packHead msgs ++ msgs.flatten) = _
  rw [handleCompound_eq, unpackCompoundMsg_pack h.few h.short]

/-- A message that takes long is queued, without its type byte. -/
theorem handleUdpMsg_longRun {t : MsgType} (h : isLongRunMsg t = true) (b : Bytes)
    (sender : UDPAddr) (timestamp : Time) :
    handleUdpMsg sender timestamp (t.code :: b) =
      [.queueLongRunMsg { mType := t, msg := b, sender }] := by
  unfold handleUdpMsg
  cases t with
  | alive => rfl
  | suspect => rfl
  | dead => rfl
  | user => rfl
  | _ => cases h

theorem MsgType.ofCode_code (t : MsgType) : MsgType.ofCode t.code = some t := by
  cases t <;> rfl

/-- A type is known from its byte. -/
theorem MsgType.code_injective {t t' : MsgType} (h : t.code = t'.code) : t = t' := by
  have hsome := MsgType.ofCode_code t
  rw [h, MsgType.ofCode_code] at hsome
  exact (Option.some.inj hsome).symm

/-- Pings and acks queue nothing. -/
theorem handleUdpMsg_ping {t : MsgType} (h : isLongRunMsg t = false) (ht : t ≠ .compound)
    (b : Bytes)
    (sender : UDPAddr) (timestamp : Time) {m : LongRunMsg} :
    UdpCall.queueLongRunMsg m ∉ handleUdpMsg sender timestamp (t.code :: b) := by
  unfold handleUdpMsg
  cases t with
  | compound => exact absurd rfl ht
  | alive => cases h
  | suspect => cases h
  | dead => cases h
  | user => cases h
  | _ => simp [MsgType.code, MsgType.ofCode, isLongRunMsg]

variable {ι H σ : Type}

/-- The codec gives this message back. -/
def PacketPackages.RoundTrips (pk : PacketPackages) : Msg → Prop
  | .alive a => pk.alive.RoundTripsAt a
  | .suspect s => pk.suspect.RoundTripsAt s
  | .dead d => pk.dead.RoundTripsAt d

section Meaning

variable (pk : PacketPackages) (msgs : List Msg) (said : Bytes → Prop)

/-- A queued message is one of these, or one that an application has sent. -/
def LongRunOk (m : LongRunMsg) : Prop :=
  match m.mType with
  | .alive => ∃ a r, .alive a ∈ msgs ∧ pk.alive.decode (newReader m.msg) = .ok (a, r)
  | .suspect => ∃ s r, .suspect s ∈ msgs ∧ pk.suspect.decode (newReader m.msg) = .ok (s, r)
  | .dead => ∃ d r, .dead d ∈ msgs ∧ pk.dead.decode (newReader m.msg) = .ok (d, r)
  | .user => said m.msg
  | _ => False

/-- What the payload of a datagram stands for. -/
structure Payload (p : Bytes) : Prop where
  ne_nil : p ≠ []
  type : p.head? ≠ some MsgType.compress.code
  queues : ∀ sender timestamp m, .queueLongRunMsg m ∈ handleUdpMsg sender timestamp p →
    LongRunOk pk msgs said m

/-- A datagram that somebody has packed. -/
def DatagramOk (d : Bytes) : Prop :=
  ∃ (e : Endpoint) (nonce : Nonce) (p : Bytes), Readable pk.toPackages e nonce p ∧
    e.packUdp pk.toPackages nonce p = .ok d ∧ Payload pk msgs said p

end Meaning

variable {pk : PacketPackages} {msgs msgs' : List Msg} {said said' : Bytes → Prop}

/-- A queued message that has been sent stays one when more is sent. -/
theorem LongRunOk.mono (hmsgs : ∀ msg ∈ msgs, msg ∈ msgs') (hsaid : ∀ b, said b → said' b)
    {m : LongRunMsg} (h : LongRunOk pk msgs said m) : LongRunOk pk msgs' said' m := by
  unfold LongRunOk at h ⊢
  cases ht : m.mType with
  | alive =>
    rw [ht] at h
    obtain ⟨a, r, ha, hdec⟩ := h
    exact ⟨a, r, hmsgs _ ha, hdec⟩
  | suspect =>
    rw [ht] at h
    obtain ⟨s, r, hs, hdec⟩ := h
    exact ⟨s, r, hmsgs _ hs, hdec⟩
  | dead =>
    rw [ht] at h
    obtain ⟨d, r, hd, hdec⟩ := h
    exact ⟨d, r, hmsgs _ hd, hdec⟩
  | user =>
    rw [ht] at h
    exact hsaid _ h
  | _ =>
    rw [ht] at h
    exact h

/-- So does a payload. -/
theorem Payload.mono (hmsgs : ∀ msg ∈ msgs, msg ∈ msgs') (hsaid : ∀ b, said b → said' b) {p : Bytes}
    (h : Payload pk msgs said p) : Payload pk msgs' said' p :=
  ⟨h.ne_nil, h.type, fun sender timestamp m hm => (h.queues sender timestamp m hm).mono hmsgs hsaid⟩

/-- And so does a datagram under way. -/
theorem DatagramOk.mono (hmsgs : ∀ msg ∈ msgs, msg ∈ msgs') (hsaid : ∀ b, said b → said' b)
    {d : Bytes} (h : DatagramOk pk msgs said d) : DatagramOk pk msgs' said' d := by
  obtain ⟨e, nonce, p, hread, hd, hp⟩ := h
  exact ⟨e, nonce, p, hread, hd, hp.mono hmsgs hsaid⟩

/-! ## What is sent -/

/-- A message of a type that is queued, if it means what it should. -/
theorem payload_longRun {t : MsgType} (ht : isLongRunMsg t = true) {b : Bytes}
    (h : ∀ sender, LongRunOk pk msgs said { mType := t, msg := b, sender }) :
    Payload pk msgs said (t.code :: b) := by
  have hz : t ≠ .compress := by
    rintro rfl
    cases ht
  refine ⟨List.cons_ne_nil _ _, ?_, fun sender timestamp m hm => ?_⟩
  · exact fun h => hz (MsgType.code_injective (Option.some.inj h))
  · rw [handleUdpMsg_longRun ht] at hm
    cases List.mem_singleton.mp hm
    exact h sender

/-- An encoded message is its type and what the codec makes of it. -/
theorem encodeMsg_ok {α : Type} {t : MsgType} {c : Codec α} {a : α} {b : Bytes}
    (h : encodeMsg t c a = .ok b) : ∃ enc, c.encode a = .ok enc ∧ b = t.code :: enc := by
  unfold encodeMsg at h
  cases he : c.encode a with
  | error err =>
    rw [he] at h
    cases h
  | ok enc =>
    rw [he] at h
    exact ⟨enc, rfl, (Except.ok.inj h).symm⟩

/-- What is encoded can be decoded again, where the codec gives it back. -/
theorem decode_newReader {α : Type} {c : Codec α} {a : α} (h : c.RoundTripsAt a) {enc : Bytes}
    (he : c.encode a = .ok enc) : c.decode (newReader enc) = .ok (a, newReader []) := by
  obtain ⟨b, hb, hdec⟩ := h
  obtain rfl : b = enc := Except.ok.inj (hb.symm.trans he)
  have h := hdec [] eof
  rw [List.append_nil] at h
  exact h

/-- A broadcast that some member has queued may be in a payload. -/
theorem payload_broadcast {msg : Msg} {b : Bytes} (hmem : msg ∈ msgs) (h : pk.RoundTrips msg)
    (he : pk.encodeBroadcast msg = .ok b) : Payload pk msgs said b := by
  cases msg with
  | alive a =>
    obtain ⟨enc, henc, rfl⟩ := encodeMsg_ok he
    exact payload_longRun rfl fun _ => ⟨a, _, hmem, decode_newReader h henc⟩
  | suspect s =>
    obtain ⟨enc, henc, rfl⟩ := encodeMsg_ok he
    exact payload_longRun rfl fun _ => ⟨s, _, hmem, decode_newReader h henc⟩
  | dead d =>
    obtain ⟨enc, henc, rfl⟩ := encodeMsg_ok he
    exact payload_longRun rfl fun _ => ⟨d, _, hmem, decode_newReader h henc⟩

/-- So may what an application has said. -/
theorem payload_user {b : Bytes} (h : said b) : Payload pk msgs said (MsgType.user.code :: b) :=
  payload_longRun rfl fun _ => h

/-- A message of a type that is handled at once queues nothing. -/
theorem payload_quick {t : MsgType} (ht : isLongRunMsg t = false) (hc : t ≠ .compound)
    (hz : t ≠ .compress) (b : Bytes) : Payload pk msgs said (t.code :: b) := by
  refine ⟨List.cons_ne_nil _ _, ?_, fun sender timestamp m hm => ?_⟩
  · exact fun h => hz (MsgType.code_injective (Option.some.inj h))
  exact absurd hm (handleUdpMsg_ping ht hc b sender timestamp)

/-- A ping carries no news. -/
theorem payload_ping {msg : PingMsg} {b : Bytes} (he : pk.encodePing msg = .ok b) :
    Payload pk msgs said b := by
  cases msg with
  | ping p =>
    obtain ⟨enc, -, rfl⟩ := encodeMsg_ok he
    exact payload_quick rfl (by decide) (by decide) enc
  | ack a =>
    obtain ⟨enc, -, rfl⟩ := encodeMsg_ok he
    exact payload_quick rfl (by decide) (by decide) enc
  | indirectPing p =>
    obtain ⟨enc, -, rfl⟩ := encodeMsg_ok he
    exact payload_quick rfl (by decide) (by decide) enc
  | indirectAck a =>
    obtain ⟨enc, -, rfl⟩ := encodeMsg_ok he
    exact payload_quick rfl (by decide) (by decide) enc

/-- A compound carries what its parts carry. -/
theorem payload_compound {parts : List Bytes} (hfit : FitsCompound parts)
    (h : ∀ p ∈ parts, Payload pk msgs said p) : Payload pk msgs said (packCompoundMsg parts) := by
  refine ⟨List.cons_ne_nil _ _, by simp [packCompoundMsg, MsgType.code], ?_⟩
  intro sender timestamp m hm
  rw [handleUdpMsg_compound hfit] at hm
  obtain ⟨p, hp, hm⟩ := List.mem_flatMap.mp hm
  exact (h p hp).queues sender timestamp m hm

/-- The packets of a batch hold parts of it, and no more than a compound can count. -/
theorem mem_gossipPackets {batch : List Bytes} {p : Bytes} (h : p ∈ gossipPackets batch) :
    p ∈ batch ∨ ∃ parts, p = packCompoundMsg parts ∧ parts.length ≤ 255 ∧
      ∀ m ∈ parts, m ∈ batch := by
  have hsplit : ∀ batch : List Bytes, p ∈ splitToCompoundMsgs batch →
      ∃ parts, p = packCompoundMsg parts ∧ parts.length ≤ 255 ∧ ∀ m ∈ parts, m ∈ batch := by
    intro batch
    fun_induction splitToCompoundMsgs batch with
    | case1 batch _ ih =>
      intro hp
      rcases List.mem_cons.mp hp with rfl | hp
      · refine ⟨_, rfl, ?_, fun m hm => List.mem_of_mem_take hm⟩
        rw [List.length_take]
        exact Nat.min_le_left _ _
      · obtain ⟨parts, hparts, hlen, hmem⟩ := ih hp
        exact ⟨parts, hparts, hlen, fun m hm => List.mem_of_mem_drop (hmem m hm)⟩
    | case2 batch hfew _ =>
      intro hp
      exact ⟨batch, List.mem_singleton.mp hp, Nat.le_of_not_lt hfew, fun _ hm => hm⟩
    | case3 => exact fun hp => absurd hp List.not_mem_nil
  unfold gossipPackets at h
  split at h
  next => exact .inl h
  next => exact .inr (hsplit batch h)

/-- The packets of a round of gossip, compounds of at most 255 parts or single messages, carry
what the batch carries. -/
theorem payload_gossip {batch : List Bytes} (hshort : ∀ m ∈ batch, m.length ≤ 65535)
    (h : ∀ m ∈ batch, Payload pk msgs said m) {p : Bytes} (hp : p ∈ gossipPackets batch) :
    Payload pk msgs said p := by
  rcases mem_gossipPackets hp with hp | ⟨parts, rfl, hlen, hmem⟩
  · exact h p hp
  · exact payload_compound ⟨hlen, fun m hm => hshort m (hmem m hm)⟩ fun m hm => h m (hmem m hm)

/-- The datagrams are those of the messages. -/
theorem packEach_mem {e : Endpoint} {nonce : Nat → Nonce} {d : Bytes} :
    ∀ {payloads : List Bytes} {k : Nat} {ds : List Bytes},
      packEach pk e nonce k payloads = .ok ds → d ∈ ds →
      ∃ j p, payloads[j]? = some p ∧ e.packUdp pk.toPackages (nonce (k + j)) p = .ok d
  | [], _, _, h, hd => by
    cases h
    cases hd
  | p :: payloads, k, ds, h, hd => by
    have hlater : ∀ {ds'}, packEach pk e nonce (k + 1) payloads = .ok ds' → d ∈ ds' →
        ∃ j q, (p :: payloads)[j]? = some q ∧
          e.packUdp pk.toPackages (nonce (k + j)) q = .ok d := by
      intro ds' h' hd'
      obtain ⟨j, q, hq, hpack⟩ := packEach_mem h' hd'
      refine ⟨j + 1, q, hq, ?_⟩
      rwa [Nat.add_assoc, Nat.add_comm 1 j] at hpack
    unfold packEach at h
    split at h
    next => cases h
    next => exact hlater h hd
    next d' hpack =>
      cases hrest : packEach pk e nonce (k + 1) payloads with
      | ok ds' =>
        rw [hrest] at h
        cases h
        rcases List.mem_cons.mp hd with rfl | hd
        · exact ⟨0, p, rfl, hpack⟩
        · exact hlater hrest hd
      | error err =>
        rw [hrest] at h
        cases h
      | crash why =>
        rw [hrest] at h
        cases h

/-! ## Streams -/

/-- The front of a stream with a state in it, all of whose entries are in flight. -/
def StreamOk (H : Type) (pk : StreamPackages) (states : List StateToMerge) (b : Bytes) : Prop :=
  ∃ (p : Peer H) (nonce : Nonce) (write : ConnWrite) (d : Bytes),
    p.StateSendable pk nonce ∧ p.StateDelimited pk ∧ Whole write ∧
    p.sendLocalState pk nonce write = .ok (d, .ok ()) ∧ b <+: d ∧ ∀ e ∈ p.told.1, e ∈ states

theorem StreamOk.mono {pk : StreamPackages} {states states' : List StateToMerge} {b : Bytes}
    (hstates : ∀ e ∈ states, e ∈ states') (h : StreamOk H pk states b) :
    StreamOk H pk states' b := by
  obtain ⟨p, nonce, write, d, hsend, hdel, hw, hd, hb, hmem⟩ := h
  exact ⟨p, nonce, write, d, hsend, hdel, hw, hd, hb, fun e he => hstates e (hmem e he)⟩

/-- A stream that breaks off is one that can arrive. -/
theorem StreamOk.front {pk : StreamPackages} {states : List StateToMerge} {b b' : Bytes}
    (h : StreamOk H pk states b) (hb : b' <+: b) : StreamOk H pk states b' := by
  obtain ⟨p, nonce, write, d, hsend, hdel, hw, hd, hfront, hmem⟩ := h
  exact ⟨p, nonce, write, d, hsend, hdel, hw, hd, hb.trans hfront, hmem⟩

/-- However many bytes get written, they are the front of what would have been. -/
theorem Peer.sendLocalState_written {pk : StreamPackages} {p : Peer H} {nonce : Nonce}
    {write : ConnWrite} {written : Bytes} {res : Except String Unit}
    (h : p.StateSendable pk nonce) (hsend : p.sendLocalState pk nonce write = .ok (written, res)) :
    ∃ d, written <+: d ∧
      p.sendLocalState pk nonce (fun d => (d.length, none)) = .ok (d, .ok ()) := by
  have hwhole : Whole fun d => (d.length, none) := fun _ => rfl
  obtain ⟨d, hd, -⟩ := sendLocalState_carries hwhole h
  refine ⟨d, ?_, hd⟩
  unfold sendLocalState sendTcp at hsend hd
  cases hmsg : encodePushPullMsg pk.toPackages p.m.localState (p.usrState.getD []) with
  | error err =>
    rw [hmsg] at hd
    cases hd
  | ok msg =>
    rw [hmsg] at hsend hd
    dsimp only at hsend hd
    cases hpack : p.e.packTcp pk.toPackages nonce msg p.e.label with
    | crash why =>
      rw [hpack] at hd
      cases hd
    | error err =>
      rw [hpack] at hd
      cases hd
    | ok d' =>
      rw [hpack] at hsend hd
      dsimp only at hsend hd
      rw [if_neg (not_not_intro rfl)] at hd
      cases hd
      -- the write failed, was short, or was all of it
      split at hsend
      next =>
        cases hsend
        exact List.take_prefix _ _
      next =>
        split at hsend
        next =>
          cases hsend
          exact List.take_prefix _ _
        next =>
          cases hsend
          exact List.prefix_refl _

/-- What is read off such a stream is in flight. -/
theorem StreamOk.read {pk : StreamPackages} {states : List StateToMerge} {b : Bytes}
    (h : StreamOk H pk states b) {r : Endpoint} {stop : String} {rd : Reader}
    {remote : List StateToMerge × Bytes}
    (hok : r.unpackStream pk.toPackages ⟨b, stop⟩ r.label = .ok (MsgType.pushPull.code, rd))
    (hread : readRemoteState pk.toPackages rd = .ok remote) : ∀ e ∈ remote.1, e ∈ states := by
  obtain ⟨p, nonce, write, d, hsend, hdel, hw, hd, hb, hmem⟩ := h
  rcases Nat.lt_or_ge b.length d.length with hlt | hge
  · -- cut short
    rcases Peer.state_cut hsend hdel hw hd ⟨hb, hlt⟩ r stop with
      ⟨err, herr⟩ | ⟨rd', err, hok', herr⟩
    · rw [herr] at hok
      cases hok
    · rw [hok'] at hok
      cases hok
      rw [herr] at hread
      cases hread
  · obtain rfl := hb.eq_of_length_le hge
    obtain ⟨d', hd', hcarries⟩ := Peer.sendLocalState_carries hw hsend
    rw [hd] at hd'
    cases hd'
    have hstream := hcarries r [] stop
    rw [List.append_nil] at hstream
    by_cases hu : Endpoint.Understands p.e r
    · obtain ⟨rd', hok', hread'⟩ := hstream.1 hu
      rw [hok'] at hok
      cases hok
      rw [hread'] at hread
      cases hread
      exact hmem
    · obtain ⟨err, -, herr⟩ := hstream.2 hu
      rw [herr] at hok
      cases hok

/-- Every entry that is merged is one of the state's. -/
theorem mem_timed {env : Nat → Env} {remote : List StateToMerge} {er : Env × StateToMerge}
    (h : er ∈ Peer.timed env remote) : er.2 ∈ remote := by
  unfold Peer.timed at h
  obtain ⟨x, hx, rfl⟩ := List.mem_map.mp h
  exact List.fst_mem_of_mem_zipIdx hx

/-! ## The queues -/

/-- What a call puts into the queues is the message it is called with. -/
theorem mem_queueLongRunMsg {m x : LongRunMsg} {mng mng' : LongRunMsgManager}
    {res : Except String Unit} (h : mng.queueLongRunMsg m = some (res, mng'))
    (hx : x ∈ mng'.highPriorQueue ++ mng'.lowPriorQueue) :
    x ∈ mng.highPriorQueue ++ mng.lowPriorQueue ∨ x = m := by
  unfold LongRunMsgManager.queueLongRunMsg LongRunMsgManager.lock at h
  split at h
  next => cases h
  next =>
    simp only [Option.map_some, Option.some.injEq] at h
    split at h
    next =>
      cases h
      exact .inl hx
    next =>
      cases h
      unfold LongRunMsgManager.pushBack LongRunMsgManager.unlock at hx
      split at hx
      next =>
        simp only [List.mem_append, List.mem_singleton] at hx ⊢
        tauto
      next =>
        simp only [List.mem_append, List.mem_singleton] at hx ⊢
        tauto

/-- What is taken out of the queues was in them, and so was what stays. -/
theorem mem_getNextMsg {mng mng' : LongRunMsgManager} {res : Except String LongRunMsg}
    (h : mng.getNextMsg = some (res, mng')) :
    (∀ m, res = .ok m → m ∈ mng.highPriorQueue ++ mng.lowPriorQueue) ∧
      ∀ x ∈ mng'.highPriorQueue ++ mng'.lowPriorQueue,
        x ∈ mng.highPriorQueue ++ mng.lowPriorQueue := by
  unfold LongRunMsgManager.getNextMsg LongRunMsgManager.lock at h
  split at h
  next => cases h
  next =>
    simp only [Option.map_some, Option.some.injEq] at h
    split at h
    next m hlast =>
      cases h
      refine ⟨fun m' hm' => ?_, fun x hx => ?_⟩
      · cases hm'
        exact List.mem_append_left _ (List.mem_of_getLast? hlast)
      · rcases List.mem_append.mp hx with hx | hx
        · exact List.mem_append_left _ (List.mem_of_mem_dropLast hx)
        · exact List.mem_append_right _ hx
    next =>
      split at h
      next m hlast =>
        cases h
        refine ⟨fun m' hm' => ?_, fun x hx => ?_⟩
        · cases hm'
          exact List.mem_append_right _ (List.mem_of_getLast? hlast)
        · rcases List.mem_append.mp hx with hx | hx
          · exact List.mem_append_left _ hx
          · exact List.mem_append_right _ (List.mem_of_mem_dropLast hx)
      next =>
        cases h
        refine ⟨fun m' hm' => ?_, fun x hx => hx⟩
        cases hm'

/-! ## The simulation -/

namespace World

variable [DecidableEq ι] [Encoded Msg] [Heap H (TransmitCapItem Msg)]

/-- One member may have changed, and more may be in flight. -/
structure Becomes (w : World ι H) (i : ι) (m : Memberlist H) (w' : World ι H) : Prop where
  reachable : w'.Reachable
  member : w'.member = Function.update w.member i m
  msgs : ∀ msg ∈ w.msgs, msg ∈ w'.msgs
  states : ∀ e ∈ w.states, e ∈ w'.states

variable {w w' : World ι H} {i : ι} {m : Memberlist H}

/-- The cluster of messages goes on from where it is. -/
theorem reachable_step (hw : w.Reachable) (h : Step w w') : w'.Reachable := by
  obtain ⟨w₀, hstarted, hrun⟩ := hw
  exact ⟨w₀, hstarted, hrun.tail h⟩

theorem becomes_self (hw : w.Reachable) (i : ι) : w.Becomes i (w.member i) w :=
  ⟨hw, (Function.update_eq_self i w.member).symm, fun _ h => h, fun _ h => h⟩

/-- A member handles what has been sent. -/
theorem becomes_op (hw : w.Reachable) {o : Op} (hsent : w.Sent o)
    (h : step o (w.member i) = some m) : w.Becomes i m (w.set i m) :=
  ⟨reachable_step hw (.op w i o m hsent h), rfl, fun _ h => h, fun _ h => h⟩

end World

namespace Wire

variable [DecidableEq ι]

/-- What the applications have sent so far. -/
def Said (s : Wire ι H σ) (b : Bytes) : Prop := ∃ i, b ∈ (s.station i).said

variable {s : Wire ι H σ} {i : ι} {st : Station H σ} {ds bs : List Bytes}

theorem set_self (s : Wire ι H σ) (i : ι) (st : Station H σ) : (s.set i st).station i = st :=
  Function.update_self ..

theorem set_of_ne (s : Wire ι H σ) {i j : ι} (h : j ≠ i) (st : Station H σ) :
    (s.set i st).station j = s.station j := Function.update_of_ne h _ _

/-- What an application has said stays said. -/
theorem said_set (hsaid : ∀ b ∈ (s.station i).said, b ∈ st.said) {b : Bytes} (h : s.Said b) :
    (s.set i st).Said b := by
  obtain ⟨j, hj⟩ := h
  refine ⟨j, ?_⟩
  by_cases hji : j = i
  · subst hji
    rw [set_self]
    exact hsaid b hj
  · rw [set_of_ne s hji]
    exact hj

/-- What the bytes at a member stand for. -/
structure StationOk (pk : PacketPackages) (msgs : List Msg) (said : Bytes → Prop)
    (st : Station H σ) : Prop where
  calls : ∀ m, .queueLongRunMsg m ∈ st.calls → LongRunOk pk msgs said m
  queues : ∀ m ∈ st.mng.highPriorQueue ++ st.mng.lowPriorQueue, LongRunOk pk msgs said m
  probed : ∀ r ∈ st.probed, .suspect (accusation st.m.id r) ∈ msgs
  delivered : ∀ b ∈ st.usrMsgs, said b

omit [DecidableEq ι] in
/-- A station whose queues hold only what was sent stays one when more is sent. -/
theorem StationOk.mono {st : Station H σ} (hmsgs : ∀ msg ∈ msgs, msg ∈ msgs')
    (hsaid : ∀ b, said b → said' b) (h : StationOk pk msgs said st) : StationOk pk msgs' said' st :=
  ⟨fun m hm => (h.calls m hm).mono hmsgs hsaid, fun m hm => (h.queues m hm).mono hmsgs hsaid,
    fun r hr => hmsgs _ (h.probed r hr), fun b hb => hsaid b (h.delivered b hb)⟩

variable [Encoded Msg] [Heap H (TransmitCapItem Msg)]

/-- **What the bytes stand for.** The members are those of the world, and everything at a
member or in the network is there as a message or a state in flight. -/
structure Sim (pk : PacketPackages) (s : Wire ι H σ) (w : World ι H) : Prop where
  reachable : w.Reachable
  member : ∀ i, w.member i = (s.station i).m
  stations : ∀ i, StationOk pk w.msgs s.Said (s.station i)
  datagrams : ∀ d ∈ s.datagrams, DatagramOk pk w.msgs s.Said d
  streams : ∀ b ∈ s.streams, StreamOk H pk.toStreamPackages w.states b

variable {w w' : World ι H}

/-- What stood at a member before still means the same. -/
theorem Sim.before (h : Sim pk s w) (hmsgs : ∀ msg ∈ w.msgs, msg ∈ msgs')
    (hsaid : ∀ b ∈ (s.station i).said, b ∈ st.said) :
    StationOk pk msgs' (s.set i st).Said (s.station i) :=
  (h.stations i).mono hmsgs fun _ hb => said_set hsaid hb

/-- A member whose queues and calls are as they were. -/
theorem Sim.same (h : Sim pk s w) (hmsgs : ∀ msg ∈ w.msgs, msg ∈ msgs')
    (hsaid : ∀ b ∈ (s.station i).said, b ∈ st.said) (hcalls : st.calls = (s.station i).calls)
    (hmng : st.mng = (s.station i).mng) (hprobed : st.probed = (s.station i).probed)
    (husr : st.usrMsgs = (s.station i).usrMsgs) (hid : st.m.id = (s.station i).m.id) :
    StationOk pk msgs' (s.set i st).Said st := by
  have hold := h.before hmsgs hsaid
  refine ⟨?_, ?_, ?_, ?_⟩
  · rw [hcalls]
    exact hold.calls
  · rw [hmng]
    exact hold.queues
  · rw [hprobed, hid]
    exact hold.probed
  · rw [husr]
    exact hold.delivered

/-- One member changes and sends something, while the world makes its step. -/
theorem Sim.change (ds bs : List Bytes) (h : Sim pk s w) (hw : w.Becomes i st.m w')
    (hsaid : ∀ b ∈ (s.station i).said, b ∈ st.said)
    (hst : StationOk pk w'.msgs (s.set i st).Said st)
    (hds : ∀ d ∈ ds, DatagramOk pk w'.msgs (s.set i st).Said d)
    (hbs : ∀ b ∈ bs, StreamOk H pk.toStreamPackages w'.states b) :
    Sim pk { (s.set i st).send ds with streams := s.streams ++ bs } w' := by
  refine ⟨hw.reachable, fun j => ?_, fun j => ?_, fun d hd => ?_, fun b hb => ?_⟩
  · rw [hw.member]
    show Function.update w.member i st.m j = ((s.set i st).station j).m
    by_cases hji : j = i
    · subst hji
      rw [Function.update_self, set_self]
    · rw [Function.update_of_ne hji, set_of_ne s hji, h.member]
  · show StationOk pk w'.msgs (s.set i st).Said ((s.set i st).station j)
    by_cases hji : j = i
    · subst hji
      rw [set_self]
      exact hst
    · rw [set_of_ne s hji]
      exact (h.stations j).mono hw.msgs fun b hb => said_set hsaid hb
  · rcases List.mem_append.mp hd with hd | hd
    · exact (h.datagrams d hd).mono hw.msgs fun b hb => said_set hsaid hb
    · exact hds d hd
  · rcases List.mem_append.mp hb with hb | hb
    · exact (h.streams b hb).mono hw.states
    · exact hbs b hb

/-- One member changes and sends nothing. -/
theorem Sim.moves (h : Sim pk s w) (hw : w.Becomes i st.m w')
    (hsaid : ∀ b ∈ (s.station i).said, b ∈ st.said)
    (hst : StationOk pk w'.msgs (s.set i st).Said st) : Sim pk (s.set i st) w' := by
  have h := h.change [] [] hw hsaid hst
    (fun _ hd => absurd hd List.not_mem_nil) (fun _ hb => absurd hb List.not_mem_nil)
  unfold send at h
  rw [List.append_nil, List.append_nil] at h
  exact h

/-- One member changes, in a world that does not. -/
theorem Sim.stay (h : Sim pk s w) (hm : st.m = (s.station i).m)
    (hsaid : st.said = (s.station i).said)
    (hcalls : ∀ m, .queueLongRunMsg m ∈ st.calls → LongRunOk pk w.msgs s.Said m)
    (hqueues : ∀ x ∈ st.mng.highPriorQueue ++ st.mng.lowPriorQueue, LongRunOk pk w.msgs s.Said x)
    (hprobed : st.probed = (s.station i).probed) (husr : ∀ b ∈ st.usrMsgs, s.Said b) :
    Sim pk (s.set i st) w := by
  have hw := World.becomes_self h.reachable i
  rw [h.member, ← hm] at hw
  have hsaid' : ∀ b ∈ (s.station i).said, b ∈ st.said := fun b hb => hsaid ▸ hb
  have hkeep : ∀ b, s.Said b → (s.set i st).Said b := fun b hb => said_set hsaid' hb
  refine h.moves hw hsaid' ⟨fun m hm' => ?_, fun x hx => ?_, ?_, fun b hb => hkeep b (husr b hb)⟩
  · exact (hcalls m hm').mono (fun _ h => h) hkeep
  · exact (hqueues x hx).mono (fun _ h => h) hkeep
  · rw [hprobed, hm]
    exact (h.stations i).probed

/-! ## Sending -/

/-- **What is sent can be read.** The messages in the queue, the payload of each datagram, the
state on a stream. -/
def Fits (pk : PacketPackages) (app : Option (UserBroadcasts σ)) (s : Wire ι H σ) :
    WireAction ι → Prop
  | .buddyPing i k p nonce => ∀ r, (s.station i).probed[k]? = some r →
    pk.suspect.RoundTripsAt (accusation (s.station i).m.id r) ∧
    ∀ ping suspect, encodeMsg .ping pk.ping p = .ok ping →
      encodeMsg .suspect pk.suspect (accusation (s.station i).m.id r) = .ok suspect →
        FitsCompound [ping, suspect] ∧
        Readable pk.toPackages (s.station i).e nonce (packCompoundMsg [ping, suspect])
  | .gossip i transLimit nonce =>
    (∀ it ∈ (s.station i).m.mbroadcasts.items, pk.RoundTrips it.msg) ∧
    ∀ msgs st, (s.station i).gossipBatch pk app transLimit = .ok (msgs, st) →
      (∀ m ∈ msgs, m.length ≤ 65535) ∧
      ∀ k p, (gossipPackets msgs)[k]? = some p →
        Readable pk.toPackages (s.station i).e (nonce k) p
  | .piggyback i transLimit msg nonce =>
    (∀ it ∈ (s.station i).m.mbroadcasts.items, pk.RoundTrips it.msg) ∧
    ∀ encoded piggy st, pk.encodePing msg = .ok encoded →
      (s.station i).piggyBatch pk app transLimit encoded = .ok (piggy, st) →
        (piggy ≠ [] → FitsCompound (encoded :: piggy)) ∧
        Readable pk.toPackages (s.station i).e nonce (Station.piggyPayload encoded piggy)
  | .sendUserMsg i msg nonce =>
    Readable pk.toPackages (s.station i).e nonce (MsgType.user.code :: msg)
  | .sendState i nonce _ =>
    (s.station i).StateSendable pk.toStreamPackages nonce ∧
    (s.station i).StateDelimited pk.toStreamPackages
  | _ => True

omit [DecidableEq ι] [Encoded Msg] [Heap H (TransmitCapItem Msg)] in
/-- The datagrams a list of payloads is packed into carry what the payloads carry. -/
theorem datagrams_ok {e : Endpoint} {nonce : Nat → Nonce} {payloads : List Bytes}
    (hpack : packEach pk e nonce 0 payloads = .ok ds)
    (hread : ∀ k p, payloads[k]? = some p → Readable pk.toPackages e (nonce k) p)
    (hp : ∀ p ∈ payloads, Payload pk msgs said p) : ∀ d ∈ ds, DatagramOk pk msgs said d := by
  intro d hd
  obtain ⟨j, p, hj, hpacked⟩ := packEach_mem hpack hd
  rw [Nat.zero_add] at hpacked
  exact ⟨e, nonce j, p, hread j p hj, hpacked, hp p (List.mem_of_getElem? hj)⟩

omit [DecidableEq ι] [Encoded Msg] [Heap H (TransmitCapItem Msg)] in
/-- The datagram of one message. -/
theorem datagram_ok {e : Endpoint} {nonce : Nonce} {p : Bytes}
    (hpack : packEach pk e (fun _ => nonce) 0 [p] = .ok ds)
    (hread : Readable pk.toPackages e nonce p)
    (hp : Payload pk msgs said p) : ∀ d ∈ ds, DatagramOk pk msgs said d := by
  refine datagrams_ok hpack (fun k q hq => ?_) fun q hq => ?_
  · rw [List.mem_singleton.mp (List.mem_of_getElem? hq)]
    exact hread
  · rw [List.mem_singleton.mp hq]
    exact hp

/-- What `getBroadcasts` collects is in flight afterwards. -/
theorem Sim.getBroadcasts {app : Option (UserBroadcasts σ)} {transLimit overhead limit : Int}
    {batch : List Bytes} (h : Sim pk s w)
    (hread : ∀ it ∈ (s.station i).m.mbroadcasts.items, pk.RoundTrips it.msg)
    (hget : (s.station i).getBroadcasts pk app transLimit overhead limit = (batch, st)) :
    ∃ w', w.Becomes i st.m w' ∧ (∀ b ∈ (s.station i).said, b ∈ st.said) ∧
      StationOk pk w'.msgs (s.set i st).Said st ∧
      ∀ p ∈ batch, Payload pk w'.msgs (s.set i st).Said p := by
  have hqueue := ((World.reachable_inv h.reachable).proper i).queue
  rw [h.member] at hqueue
  unfold Station.getBroadcasts at hget
  split at hget
  next =>
    cases hget
    refine ⟨w, ?_, fun _ hb => hb, h.before (fun _ hm => hm) fun _ hb => hb, ?_⟩
    · rw [← h.member]
      exact World.becomes_self h.reachable i
    · exact fun p hp => absurd hp List.not_mem_nil
  next =>
    dsimp only at hget
    -- the world drains the queue of the member
    have hw := World.reachable_step h.reachable (.gossip w i transLimit overhead limit)
    rw [h.member] at hw
    have hmsgs : ∀ msg ∈ w.msgs, msg ∈ w.msgs ++
        ((s.station i).m.mbroadcasts.getMessages transLimit overhead limit).1 :=
      fun _ hm => List.mem_append_left _ hm
    have hpayload : ∀ (said : Bytes → Prop) (p : Bytes),
        p ∈ (((s.station i).m.mbroadcasts.getMessages transLimit overhead limit).1.filterMap
          fun msg => (pk.encodeBroadcast msg).toOption) →
        Payload pk (w.msgs ++
          ((s.station i).m.mbroadcasts.getMessages transLimit overhead limit).1) said p := by
      intro said p hp
      obtain ⟨msg, hmsg, henc⟩ := List.mem_filterMap.mp hp
      obtain ⟨it, hit, rfl⟩ := TransmitCapQueue.getMessages_sent hqueue hmsg
      refine payload_broadcast (List.mem_append_right _ hmsg) (hread it hit) ?_
      cases hb : pk.encodeBroadcast it.msg with
      | error err =>
        rw [hb] at henc
        cases henc
      | ok b =>
        rw [hb] at henc
        exact congrArg Except.ok (Option.some.inj henc)
    cases app with
    | none =>
      cases hget
      exact ⟨_, ⟨hw, rfl, hmsgs, fun _ he => he⟩, fun _ hb => hb,
        h.same hmsgs (fun _ hb => hb) rfl rfl rfl rfl rfl, hpayload _⟩
    | some u =>
      cases hget
      refine ⟨_, ⟨hw, rfl, hmsgs, fun _ he => he⟩, fun _ hb => List.mem_append_left _ hb,
        h.same hmsgs (fun _ hb => List.mem_append_left _ hb) rfl rfl rfl rfl rfl, fun p hp => ?_⟩
      rcases List.mem_append.mp hp with hp | hp
      · exact hpayload _ p hp
      · obtain ⟨b, hb, rfl⟩ := List.mem_map.mp hp
        refine payload_user ⟨i, ?_⟩
        rw [set_self]
        exact List.mem_append_right _ hb

/-- A round of gossip is one of the cluster of messages, with what the application adds. -/
theorem Sim.gossip {app : Option (UserBroadcasts σ)} {transLimit : Int} {nonce : Nat → Nonce}
    {s' : Wire ι H σ} (h : Sim pk s w) (hfits : Fits pk app s (.gossip i transLimit nonce))
    (hact : act pk app (.gossip i transLimit nonce) s = some s') : ∃ w', Sim pk s' w' := by
  simp only [act] at hact
  split at hact
  next batch st hbatch =>
    split at hact
    next ds hpack =>
      cases hact
      obtain ⟨hread, hsent⟩ := hfits
      obtain ⟨hshort, hreadable⟩ := hsent batch st hbatch
      unfold Station.gossipBatch at hbatch
      obtain ⟨limit, -, hget⟩ := Outcome.bind_eq_ok.mp hbatch
      obtain ⟨w', hw, hsaid, hst, hpayload⟩ := h.getBroadcasts hread (Outcome.ok.inj hget)
      have hds := datagrams_ok hpack hreadable fun p hp => payload_gossip hshort hpayload hp
      have hsim := h.change ds [] hw hsaid hst hds fun _ hb => absurd hb List.not_mem_nil
      rw [List.append_nil] at hsim
      exact ⟨w', hsim⟩
    next => cases hact
  next => cases hact

/-- A ping, alone or with broadcasts on it. -/
theorem Sim.piggyback {app : Option (UserBroadcasts σ)} {transLimit : Int} {msg : PingMsg}
    {nonce : Nonce} {s' : Wire ι H σ} (h : Sim pk s w)
    (hfits : Fits pk app s (.piggyback i transLimit msg nonce))
    (hact : act pk app (.piggyback i transLimit msg nonce) s = some s') : ∃ w', Sim pk s' w' := by
  simp only [act] at hact
  split at hact
  next =>
    cases hact
    exact ⟨w, h⟩
  next encoded henc =>
    split at hact
    next piggy st hbatch =>
      split at hact
      next ds hpack =>
        cases hact
        obtain ⟨hread, hsent⟩ := hfits
        obtain ⟨hfit, hreadable⟩ := hsent encoded piggy st henc hbatch
        unfold Station.piggyBatch at hbatch
        obtain ⟨limit, -, hget⟩ := Outcome.bind_eq_ok.mp hbatch
        obtain ⟨w', hw, hsaid, hst, hpayload⟩ := h.getBroadcasts hread (Outcome.ok.inj hget)
        have hp : Payload pk w'.msgs (s.set i st).Said (Station.piggyPayload encoded piggy) := by
          unfold Station.piggyPayload
          split
          next => exact payload_ping henc
          next hne =>
            refine payload_compound (hfit fun hnil => hne (congrArg List.length hnil))
              fun p hp => ?_
            rcases List.mem_cons.mp hp with rfl | hp
            · exact payload_ping henc
            · exact hpayload p hp
        have hsim := h.change ds [] hw hsaid hst (datagram_ok hpack hreadable hp)
          fun _ hb => absurd hb List.not_mem_nil
        rw [List.append_nil] at hsim
        exact ⟨w', hsim⟩
      next => cases hact
    next => cases hact

/-- Datagrams are sent, and nobody changes. -/
theorem Sim.send (h : Sim pk s w) (hds : ∀ d ∈ ds, DatagramOk pk w.msgs s.Said d) :
    Sim pk (s.send ds) w := by
  refine ⟨h.reachable, h.member, h.stations, fun d hd => ?_, h.streams⟩
  rcases List.mem_append.mp hd with hd | hd
  · exact h.datagrams d hd
  · exact hds d hd

/-- A ping together with the accusation of its target. That has been sent since the record was
picked. -/
theorem Sim.buddyPing {app : Option (UserBroadcasts σ)} {k : Nat} {p : Ping} {nonce : Nonce}
    {s' : Wire ι H σ} (h : Sim pk s w) (hfits : Fits pk app s (.buddyPing i k p nonce))
    (hact : act pk app (.buddyPing i k p nonce) s = some s') : Sim pk s' w := by
  obtain ⟨r, hr, hact⟩ := Option.bind_eq_some_iff.mp hact
  obtain ⟨hround, hsent⟩ := hfits r hr
  split at hact
  next =>
    cases hact
    exact h
  next msg hmsg =>
    split at hact
    next ds hpack =>
      cases hact
      unfold PacketPackages.buddyPingMsg at hmsg
      cases hping : encodeMsg .ping pk.ping p with
      | error err =>
        rw [hping] at hmsg
        cases hmsg
      | ok ping =>
        cases hsus : encodeMsg .suspect pk.suspect (accusation (s.station i).m.id r) with
        | error err =>
          rw [hping, hsus] at hmsg
          cases hmsg
        | ok suspect =>
          rw [hping, hsus] at hmsg
          obtain rfl := Except.ok.inj hmsg
          obtain ⟨hfit, hreadable⟩ := hsent ping suspect hping hsus
          refine h.send (datagram_ok hpack hreadable (payload_compound hfit fun q hq => ?_))
          rcases List.mem_cons.mp hq with rfl | hq
          · have henc : pk.encodePing (.ping p) = .ok q := hping
            exact payload_ping henc
          · rw [List.mem_singleton.mp hq]
            -- the accusation became public when the record was picked
            have hmem := (h.stations i).probed r (List.mem_of_getElem? hr)
            have henc : pk.encodeBroadcast (.suspect (accusation (s.station i).m.id r)) =
              .ok suspect := hsus
            exact payload_broadcast hmem hround henc
    next => cases hact

/-- What an application says concerns no member. -/
theorem Sim.sendUserMsg {app : Option (UserBroadcasts σ)} {msg : Bytes} {nonce : Nonce}
    {s' : Wire ι H σ} (h : Sim pk s w) (hfits : Fits pk app s (.sendUserMsg i msg nonce))
    (hact : act pk app (.sendUserMsg i msg nonce) s = some s') : Sim pk s' w := by
  simp only [act] at hact
  split at hact
  next ds hpack =>
    cases hact
    have hsaid : ∀ b ∈ (s.station i).said, b ∈ (s.station i).said ++ [msg] :=
      fun _ hb => List.mem_append_left _ hb
    let st : Station H σ := { s.station i with said := (s.station i).said ++ [msg] }
    have hw : w.Becomes i st.m w := by
      show w.Becomes i (s.station i).m w
      rw [← h.member]
      exact World.becomes_self h.reachable i
    have hst : StationOk pk w.msgs (s.set i st).Said st :=
      h.same (fun _ hm => hm) hsaid rfl rfl rfl rfl rfl
    refine (h.moves hw hsaid hst).send (datagram_ok hpack hfits (payload_user ⟨i, ?_⟩))
    rw [set_self]
    exact List.mem_append_right _ (List.mem_singleton.mpr rfl)
  next => cases hact

/-- A state goes out, the whole of it or as much as the connection takes. -/
theorem Sim.sendState {app : Option (UserBroadcasts σ)} {nonce : Nonce} {write : ConnWrite}
    {s' : Wire ι H σ} (h : Sim pk s w) (hfits : Fits pk app s (.sendState i nonce write))
    (hact : act pk app (.sendState i nonce write) s = some s') : ∃ w', Sim pk s' w' := by
  simp only [act] at hact
  split at hact
  next written res hsend =>
    cases hact
    obtain ⟨hsendable, hdel⟩ := hfits
    obtain ⟨d, hfront, hd⟩ := Peer.sendLocalState_written hsendable hsend
    have hw := World.reachable_step h.reachable (.pushPull w i)
    refine ⟨_, hw, h.member, h.stations, h.datagrams, fun b hb => ?_⟩
    rcases List.mem_append.mp hb with hb | hb
    · exact (h.streams b hb).mono fun _ he => List.mem_append_left _ he
    · rw [List.mem_singleton.mp hb]
      refine ⟨_, nonce, _, d, hsendable, hdel, fun _ => rfl, hd, hfront, fun e he => ?_⟩
      rw [h.member]
      exact List.mem_append_right _ he
  next => cases hact

/-! ## Receiving -/

/-- A datagram arrives and is unpacked. Whatever the receiver's keys, what it queues has been
sent; nothing is handled yet. -/
theorem Sim.receive {app : Option (UserBroadcasts σ)} {d : Bytes} {sender : UDPAddr}
    {timestamp : Time} {s' : Wire ι H σ} (h : Sim pk s w)
    (hact : act pk app (.receive i d sender timestamp) s = some s') : Sim pk s' w := by
  simp only [act] at hact
  split at hact
  next hd =>
    obtain ⟨st, hst, rfl⟩ := Option.map_eq_some_iff.mp hact
    have hold := h.stations i
    obtain ⟨e, nonce, p, hread, hpack, hp⟩ := h.datagrams d hd.1
    unfold Station.handlePacket at hst
    rcases Endpoint.unpackPacket_sent (r := (s.station i).e) hread hp.ne_nil hp.type hpack
      (s.station i).e.label with hok | ⟨err, herr⟩
    · rw [hok] at hst
      cases hst
      exact h.stay rfl rfl (hp.queues sender timestamp) hold.queues rfl hold.delivered
    · rw [herr] at hst
      cases hst
      exact h.stay rfl rfl hold.calls hold.queues rfl hold.delivered
  next => cases hact

/-- The next of the calls that a packet has led to queues its message. -/
theorem Sim.call {app : Option (UserBroadcasts σ)} {s' : Wire ι H σ} (h : Sim pk s w)
    (hact : act pk app (.call i) s = some s') : Sim pk s' w := by
  obtain ⟨st, hst, rfl⟩ := Option.map_eq_some_iff.mp hact
  have hold := h.stations i
  have hcall := hold.calls
  unfold Station.makeCall at hst
  split at hst
  next => cases hst
  next m calls hcalls =>
    obtain ⟨⟨res, mng⟩, hq, rfl⟩ := Option.map_eq_some_iff.mp hst
    rw [hcalls] at hcall
    refine h.stay rfl rfl (fun x hx => hcall x (List.mem_cons_of_mem _ hx)) (fun x hx => ?_) rfl
      hold.delivered
    rcases mem_queueLongRunMsg hq hx with hx | rfl
    · exact hold.queues x hx
    · exact hcall x List.mem_cons_self
  next c calls _ hcalls =>
    cases hst
    rw [hcalls] at hcall
    exact h.stay rfl rfl (fun x hx => hcall x (List.mem_cons_of_mem _ hx)) hold.queues rfl
      hold.delivered

omit [DecidableEq ι] [Encoded Msg] [Heap H (TransmitCapItem Msg)] in
/-- The operation a handler performs acts on a message in flight. -/
theorem handlerOp_sent {env : Env} {m : LongRunMsg} {o : Op} {st : Station H σ}
    (hm : LongRunOk pk w.msgs said m) (ho : st.handlerOp pk env m = some o) : w.Sent o := by
  unfold Station.handlerOp at ho
  unfold LongRunOk at hm
  split at ho
  next ht =>
    rw [ht] at hm
    obtain ⟨a, r, ha, hdec⟩ := hm
    split at ho
    next =>
      rw [hdec] at ho
      cases ho
      exact ha
    next => cases ho
  next ht =>
    rw [ht] at hm
    obtain ⟨sus, r, hsus, hdec⟩ := hm
    rw [hdec] at ho
    cases ho
    exact hsus
  next ht =>
    rw [ht] at hm
    obtain ⟨d, r, hd, hdec⟩ := hm
    rw [hdec] at ho
    cases ho
    exact hd
  next => cases ho

/-- An operation of one member, whose queues are what is left of them. -/
theorem Sim.op (h : Sim pk s w) {o : Op} (hsent : w.Sent o)
    (hstep : step o (s.station i).m = some st.m)
    (hsaid : st.said = (s.station i).said) (hcalls : st.calls = (s.station i).calls)
    (hmng : ∀ x ∈ st.mng.highPriorQueue ++ st.mng.lowPriorQueue,
      x ∈ (s.station i).mng.highPriorQueue ++ (s.station i).mng.lowPriorQueue)
    (hprobed : st.probed = (s.station i).probed) (husr : st.usrMsgs = (s.station i).usrMsgs) :
    ∃ w', Sim pk (s.set i st) w' := by
  have hstep' : step o (w.member i) = some st.m := by
    rw [h.member]
    exact hstep
  have hsaid' : ∀ b ∈ (s.station i).said, b ∈ st.said := fun b hb => hsaid ▸ hb
  have hold : StationOk pk w.msgs (s.set i st).Said (s.station i) :=
    h.before (fun _ hm => hm) hsaid'
  refine ⟨_, h.moves (World.becomes_op h.reachable hsent hstep') hsaid' ⟨?_, ?_, ?_, ?_⟩⟩
  · rw [hcalls]
    exact hold.calls
  · exact fun x hx => hold.queues x (hmng x hx)
  · rw [hprobed, step_id hstep]
    exact hold.probed
  · rw [husr]
    exact hold.delivered

/-- A long-running message is decoded and handled: this is where a message arrives in the cluster
of messages. -/
theorem Sim.handle {app : Option (UserBroadcasts σ)} {env : Env} {s' : Wire ι H σ} (h : Sim pk s w)
    (hact : act pk app (.handle i env) s = some s') : ∃ w', Sim pk s' w' := by
  obtain ⟨st, hst, rfl⟩ := Option.map_eq_some_iff.mp hact
  have hold := h.stations i
  unfold Station.handleNext at hst
  split at hst
  next m mng hnext =>
    obtain ⟨htaken, hleft⟩ := mem_getNextMsg hnext
    have hqueues : ∀ x ∈ mng.highPriorQueue ++ mng.lowPriorQueue, LongRunOk pk w.msgs s.Said x :=
      fun x hx => hold.queues x (hleft x hx)
    have hm := hold.queues m (htaken m rfl)
    split at hst
    next ht =>
      -- into the channel of the application
      cases hst
      have huser : s.Said m.msg := by
        unfold LongRunOk at hm
        rw [ht] at hm
        exact hm
      refine ⟨w, h.stay rfl rfl hold.calls hqueues rfl fun b hb => ?_⟩
      dsimp only at hb
      split at hb
      next =>
        rcases List.mem_append.mp hb with hb | hb
        · exact hold.delivered b hb
        · rw [List.mem_singleton.mp hb]
          exact huser
      next => exact hold.delivered b hb
    next =>
      split at hst
      next =>
        cases hst
        exact ⟨w, h.stay rfl rfl hold.calls hqueues rfl hold.delivered⟩
      next o ho =>
        obtain ⟨m', hstep, rfl⟩ := Option.map_eq_some_iff.mp hst
        exact h.op (handlerOp_sent hm ho) hstep rfl rfl hleft rfl rfl
  next mng hnext =>
    cases hst
    have hleft := (mem_getNextMsg hnext).2
    exact ⟨w, h.stay rfl rfl hold.calls (fun x hx => hold.queues x (hleft x hx)) rfl
      hold.delivered⟩
  next => cases hst

/-- A stream arrives. What is merged is a state that some member has sent; a stream that was cut
merges nothing. -/
theorem Sim.receiveState {app : Option (UserBroadcasts σ)} {b : Bytes} {stop : String}
    {env : Nat → Env} {s' : Wire ι H σ} (h : Sim pk s w)
    (hact : act pk app (.receiveState i b stop env) s = some s') : ∃ w', Sim pk s' w' := by
  have hold := h.stations i
  have hkeep : Sim pk (s.set i (s.station i)) w :=
    h.stay rfl rfl hold.calls hold.queues rfl hold.delivered
  simp only [act] at hact
  split at hact
  next hb =>
    obtain ⟨st, hst, rfl⟩ := Option.map_eq_some_iff.mp hact
    obtain ⟨d, hd, hfront⟩ := List.any_eq_true.mp hb
    unfold Station.receiveState at hst
    split at hst
    next => cases hst
    next =>
      cases hst
      exact ⟨w, hkeep⟩
    next mType rd hok =>
      split at hst
      next ht =>
        subst ht
        split at hst
        next => cases hst
        next =>
          cases hst
          exact ⟨w, hkeep⟩
        next remote hread =>
          obtain ⟨p, hp, rfl⟩ := Option.map_eq_some_iff.mp hst
          obtain ⟨m', hmerge, rfl⟩ := Option.map_eq_some_iff.mp hp
          -- what can be read of a front was in the state that was sent
          have hfront' := (h.streams d hd).front (List.isPrefixOf_iff_prefix.mp hfront)
          have hsent : w.Sent (.merge (Peer.timed env remote.1)) :=
            fun er her => hfront'.read hok hread er.2 (mem_timed her)
          exact h.op hsent hmerge rfl rfl (fun _ hx => hx) rfl rfl
      next =>
        cases hst
        exact ⟨w, hkeep⟩
  next => cases hact

/-! ## Runs -/

/-- A record is picked for a probe. In the cluster of messages the accusation that a failed probe
of it would send is sent already. -/
theorem Sim.pick {app : Option (UserBroadcasts σ)} {id : String} {s' : Wire ι H σ} (h : Sim pk s w)
    (hact : act pk app (.pick i id) s = some s') : ∃ w', Sim pk s' w' := by
  obtain ⟨p, hp, rfl⟩ := Option.map_eq_some_iff.mp hact
  have hlook : (w.member i).lookup id = some ((s.station i).m.records p) := by
    rw [h.member]
    exact Memberlist.lookup_of_map hp
  have hw := World.reachable_step h.reachable (.probe w i id _ hlook)
  have hmsgs : ∀ msg ∈ w.msgs, msg ∈ w.msgs ++ [.suspect (accusation (s.station i).m.id
      ((s.station i).m.records p))] := fun _ hm => List.mem_append_left _ hm
  rw [h.member] at hw
  have hmember : w.member = Function.update w.member i (s.station i).m := by
    rw [← h.member, Function.update_eq_self]
  refine ⟨_, h.moves ⟨hw, hmember, hmsgs, fun _ he => he⟩ (fun _ hb => hb) ?_⟩
  let st : Station H σ := { s.station i with
    probed := (s.station i).probed ++ [(s.station i).m.records p] }
  have hold : StationOk pk (w.msgs ++ [.suspect (accusation (s.station i).m.id
      ((s.station i).m.records p))]) (s.set i st).Said (s.station i) :=
    h.before hmsgs fun _ hb => hb
  refine ⟨hold.calls, hold.queues, fun r hr => ?_, hold.delivered⟩
  rcases List.mem_append.mp hr with hr | hr
  · exact hold.probed r hr
  · rw [List.mem_singleton.mp hr]
    exact List.mem_append_right _ (List.mem_singleton.mpr rfl)

/-- **One action of the bytes** is a step of the world, or none. -/
theorem act_sim {app : Option (UserBroadcasts σ)} {a : WireAction ι} {s' : Wire ι H σ}
    (h : Sim pk s w) (hfits : Fits pk app s a) (hact : act pk app a s = some s') :
    ∃ w', Sim pk s' w' := by
  cases a with
  | op i o =>
    simp only [act] at hact
    split at hact
    next hown =>
      obtain ⟨m', hstep, rfl⟩ := Option.map_eq_some_iff.mp hact
      have hsent : w.Sent o := by
        cases o with
        | alive | suspect | dead | merge => cases hown
        | _ => exact trivial
      exact h.op hsent hstep rfl rfl (fun _ hx => hx) rfl rfl
    next => cases hact
  | pick i id => exact h.pick hact
  | accuse i k env =>
    obtain ⟨r, hr, hact⟩ := Option.bind_eq_some_iff.mp hact
    obtain ⟨m', hstep, rfl⟩ := Option.map_eq_some_iff.mp hact
    have hsent : w.Sent (.suspect env (accusation (s.station i).m.id r)) :=
      (h.stations i).probed r (List.mem_of_getElem? hr)
    exact h.op hsent hstep rfl rfl (fun _ hx => hx) rfl rfl
  | buddyPing i k p nonce => exact ⟨w, h.buddyPing hfits hact⟩
  | gossip i transLimit nonce => exact h.gossip hfits hact
  | piggyback i transLimit msg nonce => exact h.piggyback hfits hact
  | sendUserMsg i msg nonce => exact ⟨w, h.sendUserMsg hfits hact⟩
  | receive i d sender timestamp => exact ⟨w, h.receive hact⟩
  | call i => exact ⟨w, h.call hact⟩
  | handle i env => exact h.handle hact
  | rekey i e =>
    cases hact
    have hold := h.stations i
    exact ⟨w, h.stay rfl rfl hold.calls hold.queues rfl hold.delivered⟩
  | sendState i nonce write => exact h.sendState hfits hact
  | receiveState i b stop env => exact h.receiveState hact

/-- Before anything is said, the world is the members. -/
theorem Started.sim (hs : s.Started) : ∃ w, Sim pk s w := by
  refine ⟨⟨fun i => (s.station i).m, [], []⟩, ⟨_, ⟨hs.built, hs.ids, rfl, rfl⟩, .refl⟩,
    fun _ => rfl, fun i => ⟨fun m hm => ?_, fun m hm => ?_, fun r hr => ?_, fun b hb => ?_⟩,
    fun d hd => ?_, fun b hb => ?_⟩
  · rw [hs.calls i] at hm
    cases hm
  · obtain ⟨qDepth, hq⟩ := hs.queues i
    rw [hq] at hm
    cases hm
  · rw [hs.probed i] at hr
    cases hr
  · rw [hs.usrMsgs i] at hb
    cases hb
  · rw [hs.datagrams] at hd
    cases hd
  · rw [hs.streams] at hb
    cases hb

/-- Whole runs, from a cluster that has just started. -/
theorem run_sim {app : Option (UserBroadcasts σ)} {acts : List (WireAction ι)}
    {s₀ s : Wire ι H σ} (hs : s₀.Started) (hfits : Each (act pk app) (Fits pk app) acts s₀)
    (hrun : run (act pk app) acts s₀ = some s) : ∃ w, Sim pk s w :=
  run_inv_each (P := fun s => ∃ w, Sim pk s w)
    (fun _ _ _ ⟨_, h⟩ hfit hact => act_sim h hfit hact) hs.sim hfits hrun

end Wire

namespace Concrete

/-- The alive message of a member that has just been built. -/
def firstAlive (id : String) : Alive :=
  { lives := 1, id, ip := [127, 0, 0, 1], port := 7946, tags := [] }

/-- Packages for two members that encrypt, and for what they have to say. -/
def wirePackages : PacketPackages :=
  { peerPackages with
    gcm := tableAead [(List.replicate 16 1, sampleNonce.val, [0x6c])]
    alive := tableCodec [firstAlive "a"]
    suspect := tableCodec []
    dead := tableCodec []
    indirectPing := tableCodec []
    indirectAck := tableCodec [] }

/-- A member that has neither sent nor received anything. -/
def newStation (p : Peer (List (TransmitCapItem Msg))) :
    Station (List (TransmitCapItem Msg)) Unit where
  toPeer := p
  mng := newLongRunMsgManager 10
  calls := []
  probed := []
  user := ()
  usrMsgCh := true
  said := []
  usrMsgs := []

/-- Two members, of whom the second can read what the first one encrypts. -/
def duo : Wire (Fin 2) (List (TransmitCapItem Msg)) Unit where
  station := fun i => newStation (if i = 0 then dialler else dialled)
  datagrams := []
  streams := []

theorem duo_started : duo.Started where
  built := fun i =>
    match i with
    | 0 => ⟨{}, configOf "a" a_ne, build_built "a" a_ne⟩
    | 1 => ⟨{}, configOf "b" b_ne, build_built "b" b_ne⟩
  ids := by
    have hne : ∀ i j : Fin 2, (duo.station i).m.id = (duo.station j).m.id → i = j := by decide
    exact fun i j => hne i j
  queues := fun _ => ⟨10, rfl⟩
  calls := fun _ => rfl
  probed := fun _ => rfl
  usrMsgs := fun _ => rfl
  datagrams := rfl
  streams := rfl

/-- The first member says that it is there, and its application says hello. -/
def aliveDatagram : Bytes :=
  [0, 3, 3, 3, 3, 3, 3, 3, 3, 3, 3, 3, 3, 12, 37, 181, 215, 251, 4, 0] ++ List.replicate 16 0

/-- The datagram of an application's message. -/
def helloDatagram : Bytes :=
  [0, 3, 3, 3, 3, 3, 3, 3, 3, 3, 3, 3, 3, 12, 14, 127, 60, 21, 9, 7] ++ List.replicate 16 0

/-- The second member receives what the first has sent, and handles it. -/
def duoHears : List (WireAction (Fin 2)) :=
  [.receive 1 aliveDatagram ⟨[127, 0, 0, 1], 7946⟩ 0, .call 1,
    .receive 1 helloDatagram ⟨[127, 0, 0, 1], 7946⟩ 0, .call 1, .handle 1 {}, .handle 1 {}]

/-- The first member says something, and both do their part. -/
def duoTalks : List (WireAction (Fin 2)) :=
  .sendUserMsg 0 [7] sampleNonce :: .gossip 0 3 (fun _ => sampleNonce) :: duoHears

theorem duoTalks_isSome : (run (Wire.act wirePackages none) duoTalks duo).isSome = true := by
  decide +kernel

/-- The two members afterwards. -/
def duoMet : Wire (Fin 2) (List (TransmitCapItem Msg)) Unit :=
  (run (Wire.act wirePackages none) duoTalks duo).get duoTalks_isSome

theorem run_duoTalks : run (Wire.act wirePackages none) duoTalks duo = some duoMet :=
  (Option.some_get duoTalks_isSome).symm

/-- Short payloads can be read by who has the key. -/
theorem wirePackages_readable {p : Bytes} (h : p.length < 256) :
    Readable wirePackages.toPackages dialler.e sampleNonce p where
  compresses := peerPackages_compressesAt h
  seals := fun _ =>
    ⟨by decide, tableAead_tagged _, tableAead_idealAt List.mem_cons_self (by decide)⟩

/-- All the first member has to gossip is itself. -/
theorem dialler_gossips {msgs : List Bytes} {st : Station (List (TransmitCapItem Msg)) Unit}
    (h : { newStation dialler with said := [[7]] }.gossipBatch wirePackages none 3 =
      .ok (msgs, st)) :
    [[4, 0]] = msgs := by
  have hmsgs : ({ newStation dialler with said := [[7]] }.gossipBatch wirePackages none 3 >>=
      fun batch => .ok batch.1) = .ok [[4, 0]] := by decide +kernel
  rw [h] at hmsgs
  exact (Outcome.ok.inj hmsgs).symm

theorem duoTalks_fits :
    Each (Wire.act wirePackages none) (Wire.Fits wirePackages none) duoTalks duo := by
  refine ⟨wirePackages_readable (by decide), fun s₁ h₁ => ?_⟩
  simp only [Wire.act] at h₁
  split at h₁
  next ds _ =>
    cases h₁
    refine ⟨⟨fun it hit => ?_, fun msgs st h => ?_⟩, fun s₂ _ => ?_⟩
    · obtain rfl := List.mem_singleton.mp hit
      exact tableCodec_roundTripsAt (List.mem_singleton.mpr rfl) (by decide)
    · obtain rfl : [[4, 0]] = msgs := dialler_gossips h
      refine ⟨by decide, fun k p hp => ?_⟩
      rw [List.mem_singleton.mp (List.mem_of_getElem? hp)]
      exact wirePackages_readable (by decide)
    · -- what is heard sends nothing
      have hquiet : ∀ a ∈ duoHears, ∀ s : Wire (Fin 2) (List (TransmitCapItem Msg)) Unit,
          s.Fits wirePackages none a := by
        intro a ha s
        simp only [duoHears, List.mem_cons, List.not_mem_nil, or_false] at ha
        rcases ha with rfl | rfl | rfl | rfl | rfl | rfl
        all_goals exact trivial
      exact each_of_forall hquiet
  next => cases h₁

end Concrete

namespace Wire

section

variable [DecidableEq ι] [Encoded Msg] [Heap H (TransmitCapItem Msg)]

/-- **The bytes are a world.** Whatever is lost, doubled, delayed, delivered to others or cut
short, and whatever keys the members change to: as long as what is sent can be read, each
member is where it would be if it had heard messages, and only messages that members of the
cluster had sent. -/
theorem refines_world {app : Option (UserBroadcasts σ)} {acts : List (WireAction ι)}
    {s₀ s : Wire ι H σ} (hs : s₀.Started) (hfits : Each (act pk app) (Fits pk app) acts s₀)
    (hrun : run (act pk app) acts s₀ = some s) :
    ∃ w : World ι H, w.Reachable ∧ ∀ i, w.member i = (s.station i).m := by
  obtain ⟨w, hw⟩ := run_sim hs hfits hrun
  exact ⟨w, hw.reachable, hw.member⟩

end

open scoped Concrete in
/-- The second member has come to know the first as members of a world do. -/
theorem refines_world_duoMet :
    ∃ w : World (Fin 2) (List (TransmitCapItem Msg)), w.Reachable ∧
      ((w.member 1).nodeMap "a").isSome = true := by
  obtain ⟨w, hw, hmember⟩ := refines_world Concrete.duo_started Concrete.duoTalks_fits
    Concrete.run_duoTalks
  refine ⟨w, hw, ?_⟩
  rw [hmember]
  decide +kernel

section

variable [DecidableEq ι] [Encoded Msg] [Heap H (TransmitCapItem Msg)]

/-- **An application hears applications.** A message that reaches the channel of an application
is one that an application of the cluster has sent, to the byte. -/
theorem user_messages_sent {app : Option (UserBroadcasts σ)} {acts : List (WireAction ι)}
    {s₀ s : Wire ι H σ} (hs : s₀.Started) (hfits : Each (act pk app) (Fits pk app) acts s₀)
    (hrun : run (act pk app) acts s₀ = some s) :
    ∀ i, ∀ b ∈ (s.station i).usrMsgs, ∃ j, b ∈ (s.station j).said := by
  obtain ⟨w, hw⟩ := run_sim hs hfits hrun
  exact fun i b hb => (hw.stations i).delivered b hb

end

open scoped Concrete in
theorem user_messages_sent_duoMet :
    (Concrete.duoMet.station 1).usrMsgs = [[7]] ∧
      ∀ b ∈ (Concrete.duoMet.station 1).usrMsgs, ∃ j, b ∈ (Concrete.duoMet.station j).said :=
  ⟨by decide +kernel, user_messages_sent Concrete.duo_started Concrete.duoTalks_fits
    Concrete.run_duoTalks 1⟩

end Wire

end Mlist
