import Mlist.Net.Exchange

/-!
# A connection that breaks

A stream may end anywhere. What has arrived of it is then the front of what was sent
(`Cut`), and nothing says so but the bytes themselves: the length of an encrypted payload,
the ends of the msgpack values, the counts in the header of a push/pull. All of these notice
(`unpackStream_cut`, `readRemoteState_cut`), so a member merges the whole state of another or
nothing of it (`cut_merges_nothing`).

A codec is assumed to refuse a value that is cut short; msgpack values carry their lengths.
-/

namespace Mlist

open Mlist.Lib Mlist.Lib.Outcome

variable {pk : Packages} {nonce : Nonce} {p : Bytes}

/-! ## The state of a member -/

theorem readStates_cut {stop : String} : ∀ {nodes : List StateToMerge} {enc p : Bytes},
    (∀ n ∈ nodes, pk.state.RoundTripsAt n ∧ pk.state.DelimitedAt n) →
    encodeStates pk nodes = .ok enc → Cut p enc →
    ∃ err, readStates pk nodes.length ⟨p, stop⟩ = .error err
  | [], _, _, _, henc, hp => absurd (Except.ok.inj henc ▸ hp) (not_cut_nil _)
  | n :: nodes, enc, p, h, henc, hp => by
    obtain ⟨⟨b, hb, hdec⟩, hdel⟩ := h n List.mem_cons_self
    have hnodes := fun m hm => h m (List.mem_cons_of_mem n hm)
    obtain ⟨rest, hrest, -⟩ := readStates_encodeStates fun m hm => (hnodes m hm).1
    obtain rfl : b ++ rest = enc := by
      unfold encodeStates at henc
      rw [hb, hrest] at henc
      exact Except.ok.inj henc
    rw [List.length_cons]
    unfold readStates
    -- the cut is in the first state, or in the others
    rcases cut_append_iff.mp hp with hcut | ⟨q, rfl, hcut⟩
    · obtain ⟨err, herr⟩ := hdel b hb p stop hcut
      rw [herr]
      exact ⟨err, rfl⟩
    · obtain ⟨err, herr⟩ := readStates_cut hnodes hrest hcut
      rw [hdec]
      show ∃ err, (readStates pk nodes.length _ >>= _) = _
      rw [herr]
      exact ⟨err, rfl⟩

/-- What is read of a state that is cut short is an error, wherever the cut is. -/
theorem readRemoteState_cut {nodes : List StateToMerge} {user enc : Bytes}
    (hnodes : nodes.length ≤ pk.maxStates) (huser : user.length ≤ pk.maxBytes)
    (hheader : pk.header.RoundTripsAt { nodes := nodes.length, userStateLen := user.length })
    (hheader' : pk.header.DelimitedAt { nodes := nodes.length, userStateLen := user.length })
    (hstates : ∀ n ∈ nodes, pk.state.RoundTripsAt n ∧ pk.state.DelimitedAt n)
    (henc : encodePushPullMsg pk nodes user = .ok (MsgType.pushPull.code :: enc))
    (hp : Cut p enc) (stop : String) : ∃ err, readRemoteState pk ⟨p, stop⟩ = .error err := by
  obtain ⟨header, hhead, hdec⟩ := hheader
  obtain ⟨states, hencs, hdecs⟩ := readStates_encodeStates fun n hn => (hstates n hn).1
  obtain rfl : header ++ (states ++ user) = enc := by
    unfold encodePushPullMsg at henc
    rw [hhead, hencs] at henc
    exact (List.cons.inj (Except.ok.inj henc)).2
  have hn : makeLen pk.maxStates nodes.length = .ok nodes.length :=
    if_pos ⟨Int.natCast_nonneg _, Int.ofNat_le.mpr hnodes⟩
  have hu : makeLen pk.maxBytes user.length = .ok user.length :=
    if_pos ⟨Int.natCast_nonneg _, Int.ofNat_le.mpr huser⟩
  unfold readRemoteState
  -- in the header, in the nodes or in the user state
  rcases cut_append_iff.mp hp with hcut | ⟨q, rfl, hq⟩
  · obtain ⟨err, herr⟩ := hheader' header hhead p stop hcut
    rw [herr]
    exact ⟨err, rfl⟩
  rw [hdec, ofExcept_ok, ok_bind]
  dsimp only
  rw [hn, ok_bind]
  rcases cut_append_iff.mp hq with hcut | ⟨q, rfl, hcut⟩
  · obtain ⟨err, herr⟩ := readStates_cut hstates hencs hcut
    rw [herr]
    exact ⟨err, rfl⟩
  · -- a user state that can be cut is not empty, and is read
    have hlen : (user.length : Int) ≠ 0 := by
      intro h0
      have hlt := hcut.2
      omega
    obtain ⟨err, herr⟩ := Reader.readFull_cut hcut stop
    rw [hdecs, ofExcept_ok, ok_bind]
    dsimp only
    rw [if_pos hlen, hu, ok_bind, herr]
    exact ⟨err, rfl⟩

/-! ## Streams -/

/-- The compressed form of this message is delimited. -/
def Packages.DelimitsAt (pk : Packages) (msg : Bytes) : Prop :=
  ∀ buf, pk.lzwWrite msg = .ok buf → pk.compressed.DelimitedAt { algo := lzwAlgo, buf }

namespace Endpoint

variable {s r : Endpoint} {t : UInt8} {enc msg : Bytes}

/-- What is sent of a message is the message, or a compressed form that notices a cut. -/
theorem shrink_delimited {body : Bytes} (h : pk.DelimitsAt msg)
    (hbody : s.shrink pk msg = .ok body) :
    body = msg ∨ ∃ z, body = MsgType.compress.code :: z ∧
      ∀ q stop, Cut q z → ∃ err, pk.compressed.decode ⟨q, stop⟩ = .error err := by
  unfold shrink at hbody
  split at hbody
  next =>
    cases hc : compress pk msg with
    | error err =>
      rw [hc] at hbody
      cases hbody
    | ok c =>
      rw [hc] at hbody
      obtain rfl := Except.ok.inj hbody
      split
      next =>
        unfold compress at hc
        cases hw : pk.lzwWrite msg with
        | error err =>
          rw [hw] at hc
          cases hc
        | ok buf =>
          rw [hw] at hc
          cases hz : pk.compressed.encode { algo := lzwAlgo, buf } with
          | error err =>
            simp only [bind, Except.bind, hz] at hc
            cases hc
          | ok z =>
            simp only [bind, Except.bind, hz] at hc
            exact .inr ⟨z, (Except.ok.inj hc).symm, h buf hw z hz⟩
      next => exact .inl rfl
  next => exact .inl (Except.ok.inj hbody).symm

/-- An encrypted payload is as long as it says. -/
theorem decryptTcp_cut (keys : List Bytes) (streamLabel : Bytes) {n : Nat} {payload : Bytes}
    (hlen : payload.length = versionSize + nonceSize + tagSize + n)
    (hsize : versionSize + nonceSize + tagSize + n ≤ maxPushSize)
    (hp : Cut p (putUint32 (UInt32.ofNat (versionSize + nonceSize + tagSize + n)) ++ payload))
    (stop : String) : ∃ err, decryptTcp pk keys ⟨p, stop⟩ streamLabel = .error err := by
  have hnat : (UInt32.ofNat (versionSize + nonceSize + tagSize + n)).toNat = payload.length := by
    have hmax : maxPushSize < 2 ^ 32 := by decide
    rw [UInt32.toNat_ofNat', hlen]
    exact Nat.mod_eq_of_lt (Nat.lt_of_le_of_lt hsize hmax)
  unfold decryptTcp
  rcases cut_append_iff.mp hp with hcut | ⟨q, rfl, hcut⟩
  · have hcopy := Reader.copyN_cut hcut stop
    rw [putUint32_length] at hcopy
    rw [hcopy]
    exact ⟨stop, rfl⟩
  · have hcopy := Reader.copyN_append
      (putUint32 (UInt32.ofNat (versionSize + nonceSize + tagSize + n))) q stop
    have hword := uint32_putUint32 (UInt32.ofNat (versionSize + nonceSize + tagSize + n)) []
    have hslice : slice (streamHeader n) 1 5 =
        .ok (putUint32 (UInt32.ofNat (versionSize + nonceSize + tagSize + n))) := rfl
    rw [putUint32_length] at hcopy
    rw [List.append_nil] at hword
    rw [hcopy, ofExcept_ok, ok_bind]
    dsimp only
    show ∃ err, (tcpAAD (streamHeader n) streamLabel >>= _) = _
    rw [tcpAAD_eq rfl, ok_bind]
    show ∃ err, (slice (streamHeader n) 1 5 >>= _) = _
    rw [hslice, ok_bind, hword, hnat, if_neg (by omega), Reader.copyN_cut hcut]
    exact ⟨stop, rfl⟩

/-- What a receiver makes of the front of a stream: an error, or a message that is cut. -/
theorem unpackStream_cut {d : Bytes} (h : Sendable pk s nonce s.label (t :: enc))
    (hdel : pk.DelimitsAt (t :: enc)) (hz : t ≠ MsgType.compress.code)
    (he : t ≠ MsgType.encrypt.code) (hd : s.packTcp pk nonce (t :: enc) s.label = .ok d)
    (hp : Cut p d) (stop : String) :
    (∃ err, r.unpackStream pk ⟨p, stop⟩ r.label = .error err) ∨
      ∃ q, Cut q enc ∧ r.unpackStream pk ⟨p, stop⟩ r.label = .ok (t, ⟨q, stop⟩) := by
  have hfirst : ∀ b tail, (Reader.mk (b :: tail) stop).readFull 1 = .ok ([b], ⟨tail, stop⟩) :=
    fun b tail => Reader.readFull_append [b] tail stop
  have hnone : ∃ err, r.unpackStream pk ⟨[], stop⟩ r.label = .error err := ⟨stop, rfl⟩
  obtain ⟨body, hshrink, -⟩ := s.shrink_spec h.compresses
  unfold packTcp at hd
  rw [hshrink, ofExcept_ok, ok_bind] at hd
  cases hs : s.encryptionEnabled with
  | false =>
    rw [if_neg (ne_true_of_eq_false hs)] at hd
    cases hd
    -- an encrypting receiver refuses whatever is in the clear
    have hrefuse : ∀ b tail, r.encryptionEnabled = true → b ≠ MsgType.encrypt.code →
        ∃ err, r.unpackStream pk ⟨b :: tail, stop⟩ r.label = .error err := by
      intro b tail hr hb
      unfold unpackStream openStream
      rw [hfirst, ofExcept_ok, ok_bind]
      dsimp only
      rw [index_cons_zero, ok_bind, hr, beq_false_of_ne hb]
      exact ⟨_, rfl⟩
    rcases shrink_delimited hdel hshrink with rfl | ⟨z, rfl, hcutz⟩
    · rcases cut_cons_iff.mp hp with rfl | ⟨q, rfl, hq⟩
      · exact .inl hnone
      cases hr : r.encryptionEnabled with
      | true => exact .inl (hrefuse t q hr he)
      | false =>
        refine .inr ⟨q, hq, ?_⟩
        unfold unpackStream inflateStream
        rw [openStream_plain hr he, ok_bind]
        dsimp only
        rw [if_neg hz]
    · refine .inl ?_
      rcases cut_cons_iff.mp hp with rfl | ⟨q, rfl, hq⟩
      · exact hnone
      cases hr : r.encryptionEnabled with
      | true => exact hrefuse _ q hr (by decide)
      | false =>
        obtain ⟨err, herr⟩ := hcutz q stop hq
        unfold unpackStream inflateStream
        rw [openStream_plain hr (by decide), ok_bind]
        dsimp only
        rw [if_pos rfl, herr]
        exact ⟨err, rfl⟩
  | true =>
    have hkey : validateKey s.getPrimaryKey = .ok () := getKeys_valid (getPrimaryKey_mem hs)
    have hseal := h.seals hs body hshrink
    rw [if_pos hs, hseal.encryptTcp_eq hkey] at hd
    cases hd
    refine .inl ?_
    rw [show streamHeader body.length ++ _ =
      MsgType.encrypt.code :: (putUint32 _ ++ _) from rfl] at hp
    rcases cut_cons_iff.mp hp with rfl | ⟨q, rfl, hq⟩
    · exact hnone
    unfold unpackStream
    cases hr : r.encryptionEnabled with
    | false =>
      unfold openStream
      rw [hfirst, ofExcept_ok, ok_bind]
      dsimp only
      rw [index_cons_zero, ok_bind, hr]
      exact ⟨_, rfl⟩
    | true =>
      obtain ⟨err, herr⟩ := decryptTcp_cut r.getKeys r.label (sealedMsg_length hseal.tagged)
        (h.size hs body hshrink) hq stop
      rw [openStream_encrypted hr, herr]
      exact ⟨err, rfl⟩

/-- With the version there is, packing returns. -/
theorem packTcp_ends (pk : Packages) (nonce : Nonce) (hsup : s.Supported)
    (msg streamLabel : Bytes) : (s.packTcp pk nonce msg streamLabel).Returns := by
  unfold packTcp
  rw [returns_ofExcept_bind]
  intro body _
  split
  next hs =>
    have hkey : validateKey s.getPrimaryKey = .ok () := getKeys_valid (getPrimaryKey_mem hs)
    unfold encryptTcp writeEncryptedSize encryptOverhead
    rw [if_pos (version_eq_zero (hsup hs)), ok_bind, ok_bind]
    show (tcpAAD (streamHeader body.length) streamLabel >>= _).Returns
    rw [tcpAAD_eq rfl, ok_bind, encrypt_eq (hsup hs) hkey, ok_bind]
    exact returns_ok _
  next => exact returns_ok _

end Endpoint

/-! ## The ends of the connection -/

open Endpoint (Supported)

theorem sendTcp_ends (pk : Packages) (nonce : Nonce) {e : Endpoint} (hsup : e.Supported)
    (write : ConnWrite) (msg streamLabel : Bytes) :
    ∃ written err, sendTcp pk e nonce write msg streamLabel = .ok (written, err) := by
  unfold sendTcp
  cases hd : e.packTcp pk nonce msg streamLabel with
  | crash why =>
    have hret := Endpoint.packTcp_ends pk nonce hsup msg streamLabel
    rw [hd] at hret
    exact absurd hret (not_returns_crash why)
  | error err => exact ⟨_, _, rfl⟩
  | ok d =>
    dsimp only
    split
    next => exact ⟨_, _, rfl⟩
    next =>
      split
      next => exact ⟨_, _, rfl⟩
      next => exact ⟨_, _, rfl⟩

namespace Peer

variable {H : Type} {pk : StreamPackages} {p q : Peer H} {nonce nonce' : Nonce}
  {write write' : ConnWrite}

/-- A member's state, or its compressed form, is noticed to be cut. -/
structure StateDelimited (pk : StreamPackages) (p : Peer H) : Prop where
  header : pk.header.DelimitedAt { nodes := p.told.1.length, userStateLen := p.told.2.length }
  states : ∀ n ∈ p.told.1, pk.state.DelimitedAt n
  compressed : ∀ msg, encodePushPullMsg pk.toPackages p.told.1 p.told.2 = .ok msg →
    pk.DelimitsAt msg

/-- Whoever reads a state that is cut short: unpacking it is an error, or reading it is. -/
theorem state_cut {d c : Bytes} (hp : p.StateSendable pk nonce) (hdel : p.StateDelimited pk)
    (hw : Whole write) (hsend : p.sendLocalState pk nonce write = .ok (d, .ok ())) (hc : Cut c d)
    (r : Endpoint) (stop : String) :
    (∃ err, r.unpackStream pk.toPackages ⟨c, stop⟩ r.label = .error err) ∨
      ∃ rd err, r.unpackStream pk.toPackages ⟨c, stop⟩ r.label = .ok (MsgType.pushPull.code, rd) ∧
        readRemoteState pk.toPackages rd = .error err := by
  let nodes : Bounded StateToMerge pk.maxStates := ⟨p.told.1, hp.nodes⟩
  let user : Bounded UInt8 pk.maxBytes := ⟨p.told.2, hp.user⟩
  obtain ⟨enc, henc, -⟩ := readRemoteState_encode nodes user hp.header hp.states
  obtain ⟨d', hd'⟩ := Endpoint.packTcp_returns (hp.sendable _ henc)
  have hmsg : encodePushPullMsg pk.toPackages p.m.localState (p.usrState.getD []) =
      .ok (MsgType.pushPull.code :: enc) := henc
  obtain rfl : d' = d := by
    unfold sendLocalState at hsend
    rw [hmsg] at hsend
    dsimp only at hsend
    rw [sendTcp_whole hw hd'] at hsend
    cases hsend
    rfl
  rcases Endpoint.unpackStream_cut (r := r) (hp.sendable _ henc) (hdel.compressed _ henc)
    (by decide) (by decide) hd' hc stop with herr | ⟨q, hq, hok⟩
  · exact .inl herr
  · obtain ⟨err, herr⟩ := readRemoteState_cut hp.nodes hp.user hp.header hdel.header
      (fun n hn => ⟨hp.states n hn, hdel.states n hn⟩) henc hq stop
    exact .inr ⟨_, err, hok, herr⟩

/-- A refusal is sent or not; nothing is merged. -/
theorem refuse_ends (hsup : q.e.Supported) (err : String) :
    ∃ written, q.refuse pk nonce write err = .ok ⟨written, none⟩ := by
  unfold refuse
  split
  next =>
    split
    next => exact ⟨_, rfl⟩
    next respMsg _ =>
      obtain ⟨written, err', hsend⟩ := sendTcp_ends pk.toPackages nonce hsup write respMsg q.e.label
      rw [hsend]
      exact ⟨written, rfl⟩
  next => exact ⟨_, rfl⟩

/-- **A connection that breaks.** If a state arrives without its last bytes, wherever it is cut
and whatever the keys of the two members are, the member that is dialled merges nothing, and
the one that dials gets an error. -/
theorem cut_merges_nothing {request reply : Bytes} (hp : p.StateSendable pk nonce)
    (hdp : p.StateDelimited pk) (hq : q.StateSendable pk nonce') (hdq : q.StateDelimited pk)
    (hsup : q.e.Supported) (hw : Whole write) (hw' : Whole write')
    (hrequest : p.sendLocalState pk nonce write = .ok (request, .ok ()))
    (hreply : q.sendLocalState pk nonce' write' = .ok (reply, .ok ())) :
    (∀ c, Cut c request → ∀ nPP stop, ∃ written,
      q.handleTcpConn pk nonce' write' nPP ⟨c, stop⟩ = .ok ⟨written, none⟩) ∧
    ∀ c, Cut c reply → ∀ (conn : Conn) (stop : String), conn.write = write →
      conn.answer request = ⟨c, stop⟩ →
        ∃ err, p.sendAndReceiveState pk nonce (.ok conn) = .error err := by
  refine ⟨fun c hc nPP stop => ?_, fun c hc conn stop hconn hanswer => ?_⟩
  · unfold handleTcpConn
    rcases state_cut hp hdp hw hrequest hc q.e stop with ⟨err, herr⟩ | ⟨rd, err, hok, herr⟩
    · rw [herr]
      exact refuse_ends hsup err
    · rw [hok]
      dsimp only
      rw [if_pos rfl]
      unfold handlePushPull
      rw [herr]
      split
      next => exact ⟨_, rfl⟩
      next => exact ⟨_, rfl⟩
  · subst hconn
    rw [sendAndReceiveState_eq hrequest, hanswer]
    rcases state_cut hq hdq hw' hreply hc p.e stop with ⟨err, herr⟩ | ⟨rd, err, hok, herr⟩
    · exact ⟨err, by rw [herr, error_bind]⟩
    · refine ⟨err, ?_⟩
      rw [hok, ok_bind]
      exact herr

end Peer

namespace Concrete

theorem tableCodec_delimitedAt {α : Type} [DecidableEq α] (xs : List α) (a : α) :
    (tableCodec xs).DelimitedAt a := by
  intro b hb p stop hp
  obtain rfl := Except.ok.inj hb
  rcases cut_cons_iff.mp hp with rfl | ⟨q, -, hq⟩
  · exact ⟨stop, rfl⟩
  · exact absurd hq (not_cut_nil q)

theorem peerPackages_delimitsAt {msg : Bytes} (h : msg.length < 256) :
    peerPackages.DelimitsAt msg := by
  intro buf hbuf b hb p stop hp
  obtain rfl : msg = buf := Except.ok.inj hbuf
  obtain rfl := Except.ok.inj hb
  rcases cut_cons_iff.mp hp with rfl | ⟨q, rfl, hq⟩
  · exact ⟨stop, rfl⟩
  rcases cut_cons_iff.mp hq with rfl | ⟨q', rfl, hq'⟩
  · exact ⟨stop, rfl⟩
  have hlt : q'.length < (UInt8.ofNat msg.length).toNat := by
    rw [UInt8.toNat_ofNat', Nat.mod_eq_of_lt h]
    exact hq'.2
  exact ⟨stop, if_pos hlt⟩

theorem dialler_stateDelimited : dialler.StateDelimited peerPackages where
  header := tableCodec_delimitedAt _ _
  states := fun _ _ => tableCodec_delimitedAt _ _
  compressed := by
    intro msg h
    obtain rfl : [7, 0, 0, 9, 9] = msg := Except.ok.inj h
    exact peerPackages_delimitsAt (by decide)

theorem dialled_stateDelimited : dialled.StateDelimited peerPackages where
  header := tableCodec_delimitedAt _ _
  states := fun _ _ => tableCodec_delimitedAt _ _
  compressed := by
    intro msg h
    obtain rfl : [7, 1, 1] = msg := Except.ok.inj h
    exact peerPackages_delimitsAt (by decide)

end Concrete

namespace Peer

open Concrete (dialler dialled peerPackages writeAll writeAll_whole)

/-- The state of the one that dials, after its header and half of what is sealed. -/
theorem cut_merges_nothing_dialler : ∃ written,
    dialled.handleTcpConn peerPackages sampleNonce writeAll 1
      ⟨[11, 0, 0, 0, 34, 0, 3, 3, 3, 3, 3, 3, 3, 3, 3, 3, 3, 3, 7, 0], eof⟩ =
        .ok ⟨written, none⟩ := by
  obtain ⟨request, hrequest, -⟩ := sendLocalState_carries writeAll_whole
    Concrete.dialler_stateSendable
  obtain ⟨reply, hreply, -⟩ := sendLocalState_carries writeAll_whole Concrete.dialled_stateSendable
  refine (cut_merges_nothing Concrete.dialler_stateSendable Concrete.dialler_stateDelimited
    Concrete.dialled_stateSendable Concrete.dialled_stateDelimited (fun _ => by decide)
    writeAll_whole writeAll_whole hrequest hreply).1 _ ?_ 1 eof
  have hsent : dialler.sendLocalState peerPackages sampleNonce writeAll =
      .ok ([11, 0, 0, 0, 34, 0, 3, 3, 3, 3, 3, 3, 3, 3, 3, 3, 3, 3, 7, 0, 0, 9, 9] ++
        List.replicate 16 0, .ok ()) := by decide +kernel
  rw [hsent] at hrequest
  cases hrequest
  exact ⟨⟨_, rfl⟩, by decide⟩

end Peer

end Mlist
