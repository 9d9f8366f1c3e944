import Mathlib.Data.List.Basic
import Mlist.Model.Concrete
import Mlist.Model.Exchange
import Mlist.Net.Budget

/-!
# Two members at the ends of a connection

What comes of a push/pull or of a ping over TCP when the network does its part. It depends on
the keyrings and labels of the two members, in each direction by itself (`Understands`): a
member that encrypts is understood by those who hold its primary key and have its label, one
that does not by those who do not either. `unpackStream_packTcp` has the first half of that;
`unpackStream_refuses` is the other one, with the three errors a receiver can refuse a stream
with.

So an exchange has four ways to go (`exchange_iff`). If the one who dials is not understood,
nobody merges anything. If it is, and the other is not at its limit, the other merges what it
was sent, whether or not its own state is understood in turn; the one who dialled merges only
then. For a ping it takes both directions and the right name (`tcpPing_iff`).
-/

namespace Mlist

open Mlist.Lib Mlist.Lib.Outcome

variable {pk : Packages} {vsn : UInt8} {key msg aad aad' : Bytes} {nonce : Nonce}

/-! ## Who understands whom -/

/-- Without the key of the sender nothing opens. -/
theorem Sealing.tryKeys_missing (h : Sealing pk vsn key nonce aad) :
    ∀ {keys : List Bytes}, (∀ k ∈ keys, validateKey k = .ok ()) → key ∉ keys →
      tryKeys pk (sealedMsg pk key msg aad nonce) aad' keys =
        .error "no installed keys could decrypt the message"
  | [], _, _ => rfl
  | k :: keys, hvalid, hmem => by
    unfold tryKeys
    have hk : k ≠ key := fun heq => hmem (heq ▸ List.mem_cons_self)
    rw [h.decrypt_eq (hvalid k List.mem_cons_self), if_neg (fun hall => hk hall.1)]
    exact h.tryKeys_missing (fun k' hk' => hvalid k' (List.mem_cons_of_mem k hk'))
      (fun hmem' => hmem (List.mem_cons_of_mem k hmem'))

namespace Endpoint

/-- What `s` sends on a stream, `r` can read. -/
def Understands (s r : Endpoint) : Prop :=
  s.encryptionEnabled = false ∧ r.encryptionEnabled = false ∨
    s.encryptionEnabled = true ∧ s.getPrimaryKey ∈ r.getKeys ∧ s.label = r.label

/-- The errors with which a stream is refused that was not meant for the receiver. -/
def refusals : List String :=
  ["encryption is enabled but stream is NOT encrypted",
    "stream is encrypted but encryption is NOT enabled",
    "no installed keys could decrypt the message"]

variable {s r : Endpoint} {t : UInt8} {enc : Bytes}

/-- A message that can be sent is packed. -/
theorem packTcp_returns {streamLabel : Bytes} (h : Sendable pk s nonce streamLabel msg) :
    ∃ d, s.packTcp pk nonce msg streamLabel = .ok d := by
  obtain ⟨body, hshrink, -⟩ := s.shrink_spec h.compresses
  unfold packTcp
  rw [hshrink, ofExcept_ok, ok_bind]
  cases hs : s.encryptionEnabled with
  | false => exact ⟨body, rfl⟩
  | true =>
    exact ⟨_, (h.seals hs body hshrink).encryptTcp_eq (getKeys_valid (getPrimaryKey_mem hs))⟩

/-- Behind the first byte a stream that is packed without encryption does not look
encrypted. -/
theorem packTcp_plain {streamLabel d : Bytes} (h : pk.CompressesAt (t :: enc))
    (hs : s.encryptionEnabled = false) (he : t ≠ MsgType.encrypt.code)
    (hd : s.packTcp pk nonce (t :: enc) streamLabel = .ok d) :
    ∃ t' tail, d = t' :: tail ∧ t' ≠ MsgType.encrypt.code := by
  obtain ⟨body, hshrink, hshrunk⟩ := s.shrink_spec h
  unfold packTcp at hd
  rw [hshrink, ofExcept_ok, ok_bind, if_neg (ne_true_of_eq_false hs)] at hd
  cases hd
  rcases hshrunk with rfl | ⟨z, rfl, -⟩
  · exact ⟨t, enc, rfl, he⟩
  · exact ⟨_, z, rfl, by decide⟩

/-- The label is not looked at where nothing is encrypted. -/
theorem unpackStream_label (hr : r.encryptionEnabled = false) (conn : Reader)
    (label label' : Bytes) : r.unpackStream pk conn label = r.unpackStream pk conn label' := by
  unfold unpackStream openStream
  simp only [hr, Bool.false_and, Bool.false_eq_true, if_false]

theorem unpackStream_understands {d : Bytes} (hu : Understands s r)
    (h : Sendable pk s nonce s.label (t :: enc)) (hz : t ≠ MsgType.compress.code)
    (he : t ≠ MsgType.encrypt.code) (hd : s.packTcp pk nonce (t :: enc) s.label = .ok d)
    (rest : Bytes) (stop : String) :
    ∃ rest' stop', r.unpackStream pk ⟨d ++ rest, stop⟩ r.label =
      .ok (t, ⟨enc ++ rest', stop'⟩) := by
  have hkeys : KeysFit s r := hu.imp id fun hu => ⟨hu.1, hu.2.1⟩
  obtain ⟨d', hd', hunpack⟩ := unpackStream_packTcp hkeys h hz he
  cases hd.symm.trans hd'
  obtain ⟨rest', stop', hok⟩ := (hunpack rest stop).1
  refine ⟨rest', stop', ?_⟩
  rcases hu with ⟨-, hr⟩ | ⟨-, -, hlabel⟩
  · rw [unpackStream_label hr _ r.label s.label, hok]
  · rw [← hlabel, hok]

/-- A stream that was not meant for the receiver is refused. -/
theorem unpackStream_refuses {d : Bytes} (hu : ¬Understands s r)
    (h : Sendable pk s nonce s.label (t :: enc)) (he : t ≠ MsgType.encrypt.code)
    (hd : s.packTcp pk nonce (t :: enc) s.label = .ok d) (rest : Bytes) (stop : String) :
    ∃ err ∈ refusals, r.unpackStream pk ⟨d ++ rest, stop⟩ r.label = .error err := by
  have hfirst : ∀ b tail, (Reader.mk (b :: tail) stop).readFull 1 = .ok ([b], ⟨tail, stop⟩) :=
    fun b tail => Reader.readFull_append [b] tail stop
  cases hs : s.encryptionEnabled with
  | false =>
    -- the sender does not encrypt, so the receiver does
    obtain ⟨t', tail, rfl, ht'⟩ := packTcp_plain h.compresses hs he hd
    have hr : r.encryptionEnabled = true := by
      cases hr : r.encryptionEnabled with
      | true => rfl
      | false => exact absurd (.inl ⟨hs, hr⟩) hu
    refine ⟨_, List.mem_cons_self, ?_⟩
    unfold unpackStream openStream
    rw [List.cons_append, hfirst, ofExcept_ok, ok_bind]
    dsimp only
    rw [index_cons_zero, ok_bind, hr, beq_false_of_ne ht']
    rfl
  | true =>
    -- the sender encrypts: the receiver does not, or lacks the key, or has another label
    have hkey : validateKey s.getPrimaryKey = .ok () := getKeys_valid (getPrimaryKey_mem hs)
    obtain ⟨body, hshrink, -⟩ := s.shrink_spec h.compresses
    have hseal := h.seals hs body hshrink
    have hsize := h.size hs body hshrink
    unfold packTcp at hd
    rw [hshrink, ofExcept_ok, ok_bind, if_pos hs, hseal.encryptTcp_eq hkey] at hd
    cases hd
    cases hr : r.encryptionEnabled with
    | false =>
      refine ⟨_, List.mem_cons_of_mem _ List.mem_cons_self, ?_⟩
      unfold unpackStream openStream streamHeader
      rw [List.cons_append, List.cons_append, hfirst, ofExcept_ok, ok_bind]
      dsimp only
      rw [index_cons_zero, ok_bind, hr]
      rfl
    | true =>
      have hvalid : ∀ k ∈ r.getKeys, validateKey k = .ok () := fun k hk => getKeys_valid hk
      refine ⟨_, List.mem_cons_of_mem _ (List.mem_cons_of_mem _ List.mem_cons_self), ?_⟩
      unfold unpackStream
      rw [openStream_payload hr (sealedMsg_length hseal.tagged) hsize, hseal.decryptWithKeys_eq]
      by_cases hmem : s.getPrimaryKey ∈ r.getKeys
      · have hlabel : r.label ≠ s.label := fun heq => hu (.inr ⟨hs, hmem, heq.symm⟩)
        rw [hseal.tryKeys_other (fun heq => hlabel (labelled_inj heq)) hvalid, error_bind,
          error_bind]
      · rw [hseal.tryKeys_missing hvalid hmem, error_bind, error_bind]

end Endpoint

/-! ## What is assumed of the packages and of the network -/

open Endpoint (Understands refusals)

/-- All bytes are written. -/
def Whole (write : ConnWrite) : Prop := ∀ d, write d = (d.length, none)

theorem sendTcp_whole {e : Endpoint} {write : ConnWrite} (hw : Whole write) {streamLabel d : Bytes}
    (hd : e.packTcp pk nonce msg streamLabel = .ok d) :
    sendTcp pk e nonce write msg streamLabel = .ok (d, .ok ()) := by
  unfold sendTcp
  rw [hd]
  dsimp only
  rw [hw d]
  dsimp only
  rw [if_neg (not_not_intro rfl)]

/-- A message of type `t`, with the value `a` in it, can be encoded, sent and read back. -/
structure MsgSendable {α : Type} (pk : Packages) (e : Endpoint) (nonce : Nonce) (t : MsgType)
    (c : Codec α) (a : α) : Prop where
  roundTrips : c.RoundTripsAt a
  sendable : ∀ msg, encodeMsg t c a = .ok msg → Endpoint.Sendable pk e nonce e.label msg

/-- What `d` comes to at the other end of a connection, where `e` has sent it: a message of
type `t` with what `P` says left to read, for who understands the sender, and a refusal for
anybody else. -/
def Carries (pk : Packages) (e : Endpoint) (d : Bytes) (t : MsgType) (P : Reader → Prop) : Prop :=
  ∀ (r : Endpoint) (rest : Bytes) (stop : String),
    (Understands e r →
      ∃ rd, r.unpackStream pk ⟨d ++ rest, stop⟩ r.label = .ok (t.code, rd) ∧ P rd) ∧
    (¬Understands e r →
      ∃ err ∈ refusals, r.unpackStream pk ⟨d ++ rest, stop⟩ r.label = .error err)

theorem carries_of_sendable {e : Endpoint} {t : MsgType} {enc d : Bytes} {P : Reader → Prop}
    (h : Endpoint.Sendable pk e nonce e.label (t.code :: enc)) (hz : t ≠ .compress)
    (he : t ≠ .encrypt) (hd : e.packTcp pk nonce (t.code :: enc) e.label = .ok d)
    (hP : ∀ rest stop, P ⟨enc ++ rest, stop⟩) : Carries pk e d t P := by
  have hz' : t.code ≠ MsgType.compress.code := by
    cases t <;> first | exact absurd rfl hz | decide
  have he' : t.code ≠ MsgType.encrypt.code := by
    cases t <;> first | exact absurd rfl he | decide
  intro r rest stop
  refine ⟨fun hu => ?_, fun hu => Endpoint.unpackStream_refuses hu h he' hd rest stop⟩
  obtain ⟨rest', stop', hok⟩ := Endpoint.unpackStream_understands hu h hz' he' hd rest stop
  exact ⟨_, hok, hP rest' stop'⟩

theorem sendMsg_carries {α : Type} {e : Endpoint} {t : MsgType} {c : Codec α} {a : α}
    {write : ConnWrite} (hw : Whole write) (h : MsgSendable pk e nonce t c a)
    (hz : t ≠ .compress) (he : t ≠ .encrypt) :
    ∃ m d, encodeMsg t c a = .ok m ∧ sendTcp pk e nonce write m e.label = .ok (d, .ok ()) ∧
      Carries pk e d t fun rd => ∃ rd', c.decode rd = .ok (a, rd') := by
  obtain ⟨⟨b, hb, hdec⟩, hsend⟩ := h
  have hm : encodeMsg t c a = .ok (t.code :: b) := by
    unfold encodeMsg
    rw [hb]
    rfl
  obtain ⟨d, hd⟩ := Endpoint.packTcp_returns (hsend _ hm)
  exact ⟨_, d, hm, sendTcp_whole hw hd,
    carries_of_sendable (hsend _ hm) hz he hd fun rest stop => ⟨_, hdec rest stop⟩⟩

namespace Peer

variable {H : Type} {pk : StreamPackages} {p q : Peer H} {nonce nonce' : Nonce}
  {write write' : ConnWrite}

/-- What a member has to tell in a push/pull. -/
def told (p : Peer H) : List StateToMerge × Bytes := (p.m.localState, p.usrState.getD [])

/-- A member's state can be encoded, sent and read back. -/
structure StateSendable (pk : StreamPackages) (nonce : Nonce) (p : Peer H) : Prop where
  nodes : p.told.1.length ≤ pk.maxStates
  user : p.told.2.length ≤ pk.maxBytes
  header : pk.header.RoundTripsAt { nodes := p.told.1.length, userStateLen := p.told.2.length }
  states : ∀ n ∈ p.told.1, pk.state.RoundTripsAt n
  sendable : ∀ msg, encodePushPullMsg pk.toPackages p.told.1 p.told.2 = .ok msg →
    Endpoint.Sendable pk.toPackages p.e nonce p.e.label msg

/-- A member can say why it refuses a stream. -/
def CanRefuse (pk : StreamPackages) (nonce : Nonce) (p : Peer H) : Prop :=
  ∀ err ∈ refusals, MsgSendable pk.toPackages p.e nonce .err pk.errResp err

theorem sendLocalState_carries (hw : Whole write) (h : p.StateSendable pk nonce) :
    ∃ d, p.sendLocalState pk nonce write = .ok (d, .ok ()) ∧
      Carries pk.toPackages p.e d .pushPull fun rd =>
        readRemoteState pk.toPackages rd = .ok p.told := by
  let nodes : Bounded StateToMerge pk.maxStates := ⟨p.told.1, h.nodes⟩
  let user : Bounded UInt8 pk.maxBytes := ⟨p.told.2, h.user⟩
  obtain ⟨enc, henc, hread⟩ := readRemoteState_encode nodes user h.header h.states
  obtain ⟨d, hd⟩ := Endpoint.packTcp_returns (h.sendable _ henc)
  refine ⟨d, ?_, carries_of_sendable (h.sendable _ henc) (by decide) (by decide) hd hread⟩
  have hmsg : encodePushPullMsg pk.toPackages p.m.localState (p.usrState.getD []) =
      .ok (MsgType.pushPull.code :: enc) := henc
  unfold sendLocalState
  rw [hmsg]
  exact sendTcp_whole hw hd

/-! ## The member that is dialled -/

theorem handlePushPull_serves {nPP : UInt32} {rd : Reader} {remote : List StateToMerge × Bytes}
    {d : Bytes} (hn : nPP < PushPullSys.limit p.maxPushPulls)
    (hread : readRemoteState pk.toPackages rd = .ok remote)
    (hd : p.sendLocalState pk nonce write = .ok (d, .ok ())) :
    p.handlePushPull pk nonce write nPP rd = .ok ⟨d, some remote⟩ := by
  unfold handlePushPull
  rw [if_neg (UInt32.not_le.mpr hn), hread]
  dsimp only
  rw [hd, ok_bind]

/-- A stream that is not understood is answered with the error. -/
theorem refuse_carries (hw : Whole write) (h : p.CanRefuse pk nonce) {err : String}
    (herr : err ∈ refusals) :
    ∃ d, p.refuse pk nonce write err = .ok ⟨d, none⟩ ∧
      Carries pk.toPackages p.e d .err fun rd => ∃ rd', pk.errResp.decode rd = .ok (err, rd') := by
  obtain ⟨m, d, hm, hsend, hcarries⟩ := sendMsg_carries hw (h err herr) (by decide) (by decide)
  refine ⟨d, ?_, hcarries⟩
  have hne : err ≠ eof := by
    rintro rfl
    revert herr
    decide
  unfold refuse
  rw [if_pos hne, hm]
  dsimp only
  rw [hsend, ok_bind]

/-- The three ways a member answers the state of another. -/
theorem handleTcpConn_request (nPP : UInt32) (stop : String) {request : Bytes}
    (hw : Whole write) (hq : q.StateSendable pk nonce) (href : q.CanRefuse pk nonce)
    (hrequest : Carries pk.toPackages p.e request .pushPull fun rd =>
      readRemoteState pk.toPackages rd = .ok p.told) :
    (¬Understands p.e q.e ∧ ∃ err d,
      q.handleTcpConn pk nonce write nPP ⟨request, stop⟩ = .ok ⟨d, none⟩ ∧
      Carries pk.toPackages q.e d .err fun rd => ∃ rd', pk.errResp.decode rd = .ok (err, rd')) ∨
    (Understands p.e q.e ∧ ¬nPP < PushPullSys.limit q.maxPushPulls ∧
      q.handleTcpConn pk nonce write nPP ⟨request, stop⟩ = .ok ⟨[], none⟩) ∨
    (Understands p.e q.e ∧ nPP < PushPullSys.limit q.maxPushPulls ∧ ∃ d,
      q.handleTcpConn pk nonce write nPP ⟨request, stop⟩ = .ok ⟨d, some p.told⟩ ∧
      Carries pk.toPackages q.e d .pushPull fun rd =>
        readRemoteState pk.toPackages rd = .ok q.told) := by
  have hstream := hrequest q.e [] stop
  rw [List.append_nil] at hstream
  by_cases hu : Understands p.e q.e
  · obtain ⟨rd, hok, hread⟩ := hstream.1 hu
    have hconn : q.handleTcpConn pk nonce write nPP ⟨request, stop⟩ =
        q.handlePushPull pk nonce write nPP rd := by
      unfold handleTcpConn
      rw [hok]
      exact if_pos rfl
    rw [hconn]
    -- understood: now it is up to the limit
    by_cases hn : nPP < PushPullSys.limit q.maxPushPulls
    · obtain ⟨d, hd, hcarries⟩ := sendLocalState_carries hw hq
      exact .inr (.inr ⟨hu, hn, d, handlePushPull_serves hn hread hd, hcarries⟩)
    · refine .inr (.inl ⟨hu, hn, ?_⟩)
      unfold handlePushPull
      rw [if_pos (UInt32.not_lt.mp hn)]
  · obtain ⟨err, herr, hrefused⟩ := hstream.2 hu
    obtain ⟨d, hd, hcarries⟩ := refuse_carries hw href herr
    refine .inl ⟨hu, err, d, ?_, hcarries⟩
    unfold handleTcpConn
    rw [hrefused]
    exact hd

theorem connTo_answer {nPP : UInt32} {stop stop' remoteAddr : String} {request : Bytes}
    {served : Served} (h : q.handleTcpConn pk nonce' write' nPP ⟨request, stop⟩ = .ok served) :
    (q.connTo pk nonce' write' nPP stop stop' remoteAddr write).answer request =
      ⟨served.reply, stop'⟩ := by
  unfold connTo
  dsimp only
  rw [h]

/-! ## The member that dials -/

/-- What a dialled member answers is read with the state still as it was when it was sent. -/
theorem sendAndReceiveState_eq {conn : Conn} {request : Bytes}
    (hsend : p.sendLocalState pk nonce conn.write = .ok (request, .ok ())) :
    p.sendAndReceiveState pk nonce (.ok conn) =
      (p.e.unpackStream pk.toPackages (conn.answer request) p.e.label >>= fun x =>
        if x.1 = MsgType.err.code then
          ofExcept (pk.errResp.decode x.2) >>= fun y => .error ("remote error: " ++ y.1)
        else if x.1 ≠ MsgType.pushPull.code then
          .error ("received invalid msgType (" ++ toString x.1.toNat ++
            "), expected pushPullMsg (7) from " ++ conn.remoteAddr)
        else readRemoteState pk.toPackages x.2) := by
  unfold sendAndReceiveState
  rw [ofExcept_ok, ok_bind, hsend, ok_bind]
  dsimp only
  rw [ofExcept_ok, ok_bind]

/-- A state that is understood is received, one that is not is an error. -/
theorem receive_state {conn : Conn} {request d : Bytes} {stop : String}
    {told : List StateToMerge × Bytes} {e : Endpoint}
    (hsend : p.sendLocalState pk nonce conn.write = .ok (request, .ok ()))
    (hanswer : conn.answer request = ⟨d, stop⟩)
    (hcarries : Carries pk.toPackages e d .pushPull fun rd =>
      readRemoteState pk.toPackages rd = .ok told) :
    (Understands e p.e → p.sendAndReceiveState pk nonce (.ok conn) = .ok told) ∧
      (¬Understands e p.e → ∃ err, p.sendAndReceiveState pk nonce (.ok conn) = .error err) := by
  have hstream := hcarries p.e [] stop
  rw [List.append_nil, ← hanswer] at hstream
  rw [sendAndReceiveState_eq hsend]
  refine ⟨fun hu => ?_, fun hu => ?_⟩
  · obtain ⟨rd, hok, hread⟩ := hstream.1 hu
    rw [hok, ok_bind]
    exact hread
  · obtain ⟨err, -, hrefused⟩ := hstream.2 hu
    exact ⟨err, by rw [hrefused, error_bind]⟩

/-- An error that comes back is an error. -/
theorem receive_refusal {conn : Conn} {request d : Bytes} {stop err : String} {e : Endpoint}
    (hsend : p.sendLocalState pk nonce conn.write = .ok (request, .ok ()))
    (hanswer : conn.answer request = ⟨d, stop⟩)
    (hcarries : Carries pk.toPackages e d .err fun rd =>
      ∃ rd', pk.errResp.decode rd = .ok (err, rd')) :
    ∃ err', p.sendAndReceiveState pk nonce (.ok conn) = .error err' := by
  have hstream := hcarries p.e [] stop
  rw [List.append_nil, ← hanswer] at hstream
  rw [sendAndReceiveState_eq hsend]
  by_cases hu : Understands e p.e
  · obtain ⟨rd, hok, rd', hdec⟩ := hstream.1 hu
    refine ⟨"remote error: " ++ err, ?_⟩
    rw [hok, ok_bind]
    dsimp only
    rw [if_pos rfl, hdec, ofExcept_ok, ok_bind]
  · obtain ⟨err', -, hrefused⟩ := hstream.2 hu
    exact ⟨err', by rw [hrefused, error_bind]⟩

/-- Nothing that comes back is an error as well. -/
theorem receive_nothing {conn : Conn} {request : Bytes} {stop : String}
    (hsend : p.sendLocalState pk nonce conn.write = .ok (request, .ok ()))
    (hanswer : conn.answer request = ⟨[], stop⟩) :
    p.sendAndReceiveState pk nonce (.ok conn) = .error stop := by
  rw [sendAndReceiveState_eq hsend, hanswer]
  rfl

end Peer

/-! ## Two members to try it on -/

namespace Concrete

section Table

variable {α : Type} [DecidableEq α]

/-- One byte for each of a list of values. -/
def tableCodec (xs : List α) : Codec α where
  encode := fun a => .ok [UInt8.ofNat (xs.idxOf a)]
  decode := fun r =>
    match r.rest with
    | [] => .error r.stop
    | b :: rest =>
      match xs[b.toNat]? with
      | some a => .ok (a, { r with rest })
      | none => .error "msgpack"

theorem tableCodec_roundTripsAt {xs : List α} {a : α} (h : a ∈ xs) (hlen : xs.length ≤ 256) :
    (tableCodec xs).RoundTripsAt a := by
  have hlt := List.idxOf_lt_length_iff.mpr h
  refine ⟨_, rfl, fun rest stop => ?_⟩
  show (match xs[(UInt8.ofNat (xs.idxOf a)).toNat]? with
    | some a => Except.ok (a, Reader.mk rest stop)
    | none => Except.error "msgpack") = _
  rw [UInt8.toNat_ofNat', Nat.mod_eq_of_lt (by omega), List.getElem?_idxOf h]

end Table

/-- One tag for each of a list of keys, nonces and additional data. -/
def tableAead (uses : List (Bytes × Bytes × Bytes)) : Aead where
  sealed := fun key nonce plain aad =>
    plain ++ List.replicate tagSize (UInt8.ofNat (uses.idxOf (key, nonce, aad)))
  opened := fun key nonce sealed aad =>
    if (key, nonce, aad) ∈ uses ∧
        sealed.getLast? = some (UInt8.ofNat (uses.idxOf (key, nonce, aad))) then
      some (sealed.take (sealed.length - tagSize))
    else none

theorem tableAead_tagged (uses : List (Bytes × Bytes × Bytes)) :
    (tableAead uses).Tagged tagSize := by
  intro _ _ plain _
  unfold tableAead
  rw [List.length_append, List.length_replicate]

theorem tableAead_idealAt {uses : List (Bytes × Bytes × Bytes)} {key nonce aad : Bytes}
    (h : (key, nonce, aad) ∈ uses) (hlen : uses.length ≤ 256) :
    (tableAead uses).IdealAt key nonce aad := by
  intro plain key' nonce' aad'
  unfold tableAead
  dsimp only
  rw [List.getLast?_append_of_ne_nil _ (by simp [tagSize]), List.getLast?_replicate,
    if_neg (show ¬tagSize = 0 by decide), List.length_append, List.length_replicate,
    Nat.add_sub_cancel, List.take_left]
  have hlt := List.idxOf_lt_length_iff.mpr h
  refine if_congr ⟨fun ⟨hmem, heq⟩ => ?_, ?_⟩ rfl rfl
  · have hlt' := List.idxOf_lt_length_iff.mpr hmem
    have hnat := congrArg UInt8.toNat (Option.some.inj heq)
    rw [UInt8.toNat_ofNat', UInt8.toNat_ofNat', Nat.mod_eq_of_lt (by omega),
      Nat.mod_eq_of_lt (by omega), List.idxOf_inj h] at hnat
    cases hnat
    exact ⟨rfl, rfl, rfl⟩
  · rintro ⟨rfl, rfl, rfl⟩
    exact ⟨h, rfl⟩

/-- A member with a key, and one that has this key beside its own. -/
def dialler : Peer (List (TransmitCapItem Msg)) where
  m := built "a" a_ne
  e := { sampleSender with enableCompression := false }
  maxPushPulls := 10
  usrState := some [9, 9]
  usrMerged := []

def dialled : Peer (List (TransmitCapItem Msg)) where
  m := built "b" b_ne
  e := sampleReceiver
  maxPushPulls := 10
  usrState := none
  usrMerged := []

/-- The additional data of a stream of so many bytes. -/
def streamAad (n : Nat) : Bytes := labelled (streamHeader n) [0x6c]

/-- Packages for what these two have to say to each other. -/
def peerPackages : StreamPackages where
  lzwWrite := .ok
  lzwRead := .ok
  gcm := tableAead
    [(List.replicate 16 1, sampleNonce.val, streamAad 5),
      (List.replicate 16 1, sampleNonce.val, streamAad 2),
      (List.replicate 32 2, sampleNonce.val, streamAad 3),
      (List.replicate 32 2, sampleNonce.val, streamAad 2)]
  compressed := countedCodec
  header := tableCodec [⟨1, 2⟩, ⟨1, 0⟩]
  state := tableCodec (dialler.m.localState ++ dialled.m.localState)
  maxStates := 2 ^ 20
  maxBytes := 2 ^ 20
  ping := tableCodec [⟨1, "b", [127, 0, 0, 1], 7946⟩]
  ack := tableCodec [⟨1, []⟩]
  errResp := tableCodec refusals

theorem peerPackages_compressesAt {msg : Bytes} (h : msg.length < 256) :
    peerPackages.CompressesAt msg :=
  ⟨msg, rfl, rfl, countedCodec_roundTripsAt h⟩

/-- Short messages can be sent by the two, at the lengths that are sealed. -/
theorem peerPackages_sendable {e : Endpoint} {msg : Bytes} (hz : e.enableCompression = false)
    (hvsn : e.encryptionVersion = 0) (hlen : msg.length < 256)
    (hseal : (e.getPrimaryKey, sampleNonce.val, labelled (streamHeader msg.length) e.label) ∈
      [((List.replicate 16 1 : Bytes), sampleNonce.val, streamAad 5),
        (List.replicate 16 1, sampleNonce.val, streamAad 2),
        (List.replicate 32 2, sampleNonce.val, streamAad 3),
        (List.replicate 32 2, sampleNonce.val, streamAad 2)]) :
    Endpoint.Sendable peerPackages.toPackages e sampleNonce e.label msg := by
  have hbody : ∀ body, e.shrink peerPackages.toPackages msg = .ok body → msg = body := by
    intro body h
    unfold Endpoint.shrink at h
    rw [hz] at h
    exact Except.ok.inj h
  refine ⟨peerPackages_compressesAt hlen, fun _ body h => ?_, fun _ body h => ?_⟩
  · rw [← hbody body h]
    unfold versionSize nonceSize tagSize maxPushSize
    omega
  · rw [← hbody body h, hvsn]
    exact ⟨by decide, tableAead_tagged _, tableAead_idealAt hseal (by decide)⟩

theorem dialler_stateSendable : dialler.StateSendable peerPackages sampleNonce where
  nodes := by decide
  user := by decide
  header := tableCodec_roundTripsAt (by decide) (by decide)
  states := fun _ h => tableCodec_roundTripsAt (List.mem_append_left _ h) (by decide)
  sendable := by
    intro msg h
    obtain rfl : [7, 0, 0, 9, 9] = msg := Except.ok.inj h
    exact peerPackages_sendable rfl rfl (by decide) (by decide)

theorem dialled_stateSendable : dialled.StateSendable peerPackages sampleNonce where
  nodes := by decide
  user := by decide
  header := tableCodec_roundTripsAt (by decide) (by decide)
  states := fun _ h => tableCodec_roundTripsAt (List.mem_append_right _ h) (by decide)
  sendable := by
    intro msg h
    obtain rfl : [7, 1, 1] = msg := Except.ok.inj h
    exact peerPackages_sendable rfl rfl (by decide) (by decide)

/-- What is one byte to encode can be sent by the two. -/
theorem msgSendable_table {α : Type} [DecidableEq α] {e : Endpoint} {t : MsgType} {xs : List α}
    {a : α} (he : e = dialler.e ∨ e = dialled.e) (h : a ∈ xs) (hlen : xs.length ≤ 256) :
    MsgSendable peerPackages.toPackages e sampleNonce t (tableCodec xs) a where
  roundTrips := tableCodec_roundTripsAt h hlen
  sendable := by
    intro msg hm
    obtain rfl : [t.code, UInt8.ofNat (xs.idxOf a)] = msg := Except.ok.inj hm
    rcases he with rfl | rfl
    · exact peerPackages_sendable rfl rfl (Nat.lt_of_sub_eq_succ rfl)
        (List.mem_cons_of_mem _ List.mem_cons_self)
    · exact peerPackages_sendable rfl rfl (Nat.lt_of_sub_eq_succ rfl)
        (List.mem_cons_of_mem _
          (List.mem_cons_of_mem _ (List.mem_cons_of_mem _ List.mem_cons_self)))

theorem dialled_canRefuse : dialled.CanRefuse peerPackages sampleNonce :=
  fun _ h => msgSendable_table (.inr rfl) h (by decide)

/-- Everything is written at once. -/
def writeAll : ConnWrite := fun d => (d.length, none)

theorem writeAll_whole : Whole writeAll := fun _ => rfl

end Concrete

namespace Peer

variable {H : Type} {pk : StreamPackages} {p q : Peer H} {nonce nonce' : Nonce}
  {write write' : ConnWrite}

/-! ## The exchange -/

/-- **A push/pull between two members.** On a connection that works, the member that is dialled
merges the state of the one that dials exactly if it understands it and is below its limit;
the one that dials then receives the state of the other exactly if it understands that, and
an error in all other cases. -/
theorem exchange_iff (hp : p.StateSendable pk nonce) (hq : q.StateSendable pk nonce')
    (href : q.CanRefuse pk nonce') (hw : Whole write) (hw' : Whole write') (nPP : UInt32)
    (stop stop' remoteAddr : String) :
    ∃ request served res,
      p.sendLocalState pk nonce write = .ok (request, .ok ()) ∧
      q.handleTcpConn pk nonce' write' nPP ⟨request, stop⟩ = .ok served ∧
      p.sendAndReceiveState pk nonce
        (.ok (q.connTo pk nonce' write' nPP stop stop' remoteAddr write)) = ofExcept res ∧
      (∀ remote, served.remote = some remote ↔
        remote = p.told ∧ Understands p.e q.e ∧ nPP < PushPullSys.limit q.maxPushPulls) ∧
      ∀ remote, res = .ok remote ↔
        remote = q.told ∧ served.remote.isSome = true ∧ Understands q.e p.e := by
  obtain ⟨request, hsend, hrequest⟩ := sendLocalState_carries hw hp
  have hsend' : p.sendLocalState pk nonce
      (q.connTo pk nonce' write' nPP stop stop' remoteAddr write).write = .ok (request, .ok ()) :=
    hsend
  rcases handleTcpConn_request nPP stop hw' hq href hrequest with
    ⟨hu, err, d, hserved, hcarries⟩ | ⟨hu, hn, hserved⟩ | ⟨hu, hn, d, hserved, hcarries⟩
  · obtain ⟨err', herr⟩ := receive_refusal hsend' (connTo_answer hserved) hcarries
    exact ⟨request, _, .error err', hsend, hserved, herr, by simp [hu], by simp⟩
  · exact ⟨request, _, .error stop', hsend, hserved, receive_nothing hsend' (connTo_answer hserved),
      by simp [hn], by simp⟩
  · obtain ⟨hreceived, hrefused⟩ := receive_state hsend' (connTo_answer hserved) hcarries
    by_cases hback : Understands q.e p.e
    · exact ⟨request, _, .ok q.told, hsend, hserved, hreceived hback, by simp [hu, hn, eq_comm],
        by simp [hback, eq_comm]⟩
    · obtain ⟨err, herr⟩ := hrefused hback
      exact ⟨request, _, .error err, hsend, hserved, herr, by simp [hu, hn, eq_comm],
        by simp [hback]⟩

/-- The one who is dialled merges; the one who dials does not know the key of the answer. -/
theorem exchange_iff_dialler :
    ∃ request served res,
      Concrete.dialler.sendLocalState Concrete.peerPackages sampleNonce Concrete.writeAll =
        .ok (request, .ok ()) ∧
      Concrete.dialled.handleTcpConn Concrete.peerPackages sampleNonce Concrete.writeAll 1
        ⟨request, eof⟩ = .ok served ∧
      Concrete.dialler.sendAndReceiveState Concrete.peerPackages sampleNonce
        (.ok (Concrete.dialled.connTo Concrete.peerPackages sampleNonce Concrete.writeAll 1 eof eof
          "b" Concrete.writeAll)) = ofExcept res ∧
      served.remote = some Concrete.dialler.told ∧ ∀ remote, res ≠ .ok remote := by
  obtain ⟨request, served, res, hsend, hserved, hreceived, hmerges, hgets⟩ :=
    exchange_iff Concrete.dialler_stateSendable Concrete.dialled_stateSendable
      Concrete.dialled_canRefuse Concrete.writeAll_whole Concrete.writeAll_whole 1 eof eof "b"
  refine ⟨request, served, res, hsend, hserved, hreceived, (hmerges _).mpr ⟨rfl, ?_, by decide⟩,
    fun remote h => absurd ((hgets remote).mp h).2.2 ?_⟩
  · exact .inr ⟨by decide, by decide, rfl⟩
  · rintro (⟨h, -⟩ | ⟨-, h, -⟩)
    · exact absurd h (by decide)
    · exact absurd h (by decide)

/-! ## A ping over TCP -/

/-- The ping a member sends to `node` under this number. -/
def pingFor (p : Peer H) (localIp : IP) (seqNo : UInt32) (node : Node) : Ping :=
  { seqNo, id := node.id, sourceIP := localIp, sourcePort := p.m.config.advertisePort }

theorem tcpPing_eq (conn : Conn) {localIp : IP} {seqNo : UInt32} {node : Node} {m request : Bytes}
    (hadv : p.m.config.advertiseAddr = some localIp)
    (hm : encodeMsg .ping pk.ping (p.pingFor localIp seqNo node) = .ok m)
    (hsend : sendTcp pk.toPackages p.e nonce conn.write m p.e.label = .ok (request, .ok ())) :
    p.tcpPing pk nonce (.ok conn) seqNo node =
      match p.e.unpackStream pk.toPackages (conn.answer request) p.e.label with
      | .crash why => .crash why
      | .error _ => .ok false
      | .ok (msgType, r) =>
        if msgType ≠ MsgType.ack.code then .ok false
        else
          match pk.ack.decode r with
          | .error _ => .ok false
          | .ok (a, _) => .ok (a.seqNo == seqNo) := by
  have hm' : encodeMsg .ping pk.ping { seqNo, id := node.id, sourceIP := localIp
                                       sourcePort := p.m.config.advertisePort } = .ok m := hm
  unfold tcpPing
  rw [hadv]
  dsimp only
  rw [hm']
  dsimp only
  rw [hsend]
  rfl

/-- A ping for somebody else is not answered, one for the member itself with its number. -/
theorem handlePingTcp_carries {rd rd' : Reader} {x : Ping} (hw : Whole write)
    (hdec : pk.ping.decode rd = .ok (x, rd'))
    (hack : MsgSendable pk.toPackages q.e nonce .ack pk.ack { seqNo := x.seqNo, payload := [] }) :
    (x.id = "" ∨ x.id = q.m.id) ∧
      (∃ d, q.handlePingTcp pk nonce write rd = .ok ⟨d, none⟩ ∧
        Carries pk.toPackages q.e d .ack fun rd =>
          ∃ rd', pk.ack.decode rd = .ok ({ seqNo := x.seqNo, payload := [] }, rd')) ∨
    ¬(x.id = "" ∨ x.id = q.m.id) ∧ q.handlePingTcp pk nonce write rd = .ok ⟨[], none⟩ := by
  unfold handlePingTcp
  rw [hdec]
  dsimp only
  by_cases hid : x.id = "" ∨ x.id = q.m.id
  · obtain ⟨m, d, hm, hsend, hcarries⟩ := sendMsg_carries hw hack (by decide) (by decide)
    refine .inl ⟨hid, d, ?_, hcarries⟩
    have hfor : ¬(x.id ≠ "" ∧ x.id ≠ q.m.id) := fun h => hid.elim h.1 h.2
    rw [if_neg hfor, hm]
    dsimp only
    rw [hsend, ok_bind]
  · rw [not_or] at hid
    rw [if_pos hid]
    exact .inr ⟨not_or.mpr hid, rfl⟩

/-- **A ping over TCP.** On a connection that works, `TcpPing` succeeds exactly if each end
understands the other and the ping is for the member at the other end. -/
theorem tcpPing_iff {localIp : IP} {seqNo : UInt32} (node : Node)
    (hadv : p.m.config.advertiseAddr = some localIp)
    (hping : MsgSendable pk.toPackages p.e nonce .ping pk.ping (p.pingFor localIp seqNo node))
    (hack : MsgSendable pk.toPackages q.e nonce' .ack pk.ack { seqNo, payload := [] })
    (href : q.CanRefuse pk nonce') (hw : Whole write) (hw' : Whole write') (nPP : UInt32)
    (stop stop' remoteAddr : String) :
    ∃ b, p.tcpPing pk nonce (.ok (q.connTo pk nonce' write' nPP stop stop' remoteAddr write)) seqNo
        node = .ok b ∧
      (b = true ↔ Understands p.e q.e ∧ Understands q.e p.e ∧
        (node.id = "" ∨ node.id = q.m.id)) := by
  obtain ⟨m, request, hm, hsend, hrequest⟩ := sendMsg_carries hw hping (by decide) (by decide)
  have hstream := hrequest q.e [] stop
  rw [List.append_nil] at hstream
  rw [tcpPing_eq (q.connTo pk nonce' write' nPP stop stop' remoteAddr write) hadv hm hsend]
  -- first the way there, then the way back
  by_cases hu : Understands p.e q.e
  · obtain ⟨rd, hok, rd', hdec⟩ := hstream.1 hu
    have hconn : q.handleTcpConn pk nonce' write' nPP ⟨request, stop⟩ =
        q.handlePingTcp pk nonce' write' rd := by
      unfold handleTcpConn
      rw [hok]
      rfl
    rcases handlePingTcp_carries hw' hdec hack with ⟨hid, d, hserved, hcarries⟩ | ⟨hid, hserved⟩
    · have hback := hcarries p.e [] stop'
      rw [List.append_nil] at hback
      rw [connTo_answer (hconn.trans hserved)]
      by_cases hu' : Understands q.e p.e
      · obtain ⟨rd, hok, rd', hdec⟩ := hback.1 hu'
        rw [hok]
        dsimp only
        rw [if_neg (not_not_intro rfl), hdec]
        exact ⟨_, rfl, iff_of_true (beq_self_eq_true _) ⟨hu, hu', hid⟩⟩
      · obtain ⟨err, -, hrefused⟩ := hback.2 hu'
        rw [hrefused]
        exact ⟨false, rfl, iff_of_false Bool.false_ne_true fun h => hu' h.2.1⟩
    · rw [connTo_answer (hconn.trans hserved)]
      exact ⟨false, rfl, iff_of_false Bool.false_ne_true fun h => hid h.2.2⟩
  · obtain ⟨err, herr, hrefused⟩ := hstream.2 hu
    obtain ⟨d, hd, hcarries⟩ := refuse_carries hw' href herr
    -- the other end refuses, and a refusal is no ack, whether it is understood or not
    have hserved : q.handleTcpConn pk nonce' write' nPP ⟨request, stop⟩ = .ok ⟨d, none⟩ := by
      unfold handleTcpConn
      rw [hrefused]
      exact hd
    have hback := hcarries p.e [] stop'
    rw [List.append_nil] at hback
    rw [connTo_answer hserved]
    refine ⟨false, ?_, iff_of_false Bool.false_ne_true fun h => hu h.1⟩
    by_cases hu' : Understands q.e p.e
    · obtain ⟨rd, hok, -⟩ := hback.1 hu'
      rw [hok]
      rfl
    · obtain ⟨err, -, hrefused⟩ := hback.2 hu'
      rw [hrefused]

/-- The ping arrives and is answered, but the answer is not understood. -/
theorem tcpPing_iff_dialler :
    Concrete.dialler.tcpPing Concrete.peerPackages sampleNonce
      (.ok (Concrete.dialled.connTo Concrete.peerPackages sampleNonce Concrete.writeAll 1 eof eof
        "b" Concrete.writeAll)) 1
      { id := "b", ip := [127, 0, 0, 1], port := 7946, tags := [] } = .ok false := by
  obtain ⟨b, hping, hb⟩ := tcpPing_iff (p := Concrete.dialler) (q := Concrete.dialled)
    { id := "b", ip := [127, 0, 0, 1], port := 7946, tags := [] } rfl
    (Concrete.msgSendable_table (.inl rfl) List.mem_cons_self (by decide))
    (Concrete.msgSendable_table (.inr rfl) List.mem_cons_self (by decide))
    Concrete.dialled_canRefuse Concrete.writeAll_whole Concrete.writeAll_whole 1 eof eof "b"
  rw [hping]
  cases b with
  | false => rfl
  | true =>
    obtain ⟨-, ⟨h, -⟩ | ⟨-, h, -⟩, -⟩ := hb.mp rfl
    · exact absurd h (by decide)
    · exact absurd h (by decide)

end Peer

end Mlist
