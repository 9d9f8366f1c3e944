import Mlist.Model.Detect

/-!
# Who is behind an ack

A `Ping` that returns true has received an ack with its number. That the ack is an answer to
this ping, and by its target, is not said anywhere in it. It follows from where numbers come
from: a number is taken once, as long as the counter has not gone round; it travels in the
messages of the call that took it and nowhere else; an answer goes back to the address the
ping names; and a member answers pings for itself only. The relays of `IndirectPing` add one
more link to the chain.

`Inv` says of everything that can turn up — a registered handler, one taken out of its table,
a packet, an answer, the errand of a relay, a call that has returned true — what stands
behind it. All of this only grows (`Grows`), so a step has to account for what it adds
(`act_good`). What follows for the calls that return true is in `Answers.lean`.
-/

namespace Mlist

open Mlist.Lib

variable {ι : Type} {net : Net ι}

/-- The call has not returned yet. -/
def CallPc.running : CallPc → Bool
  | .numbered => true
  | .sending _ => true
  | .waiting => true
  | .returned .. => false
  | .told => false

namespace Detect

/-! ## The ways through an action -/

/-- `c` is the number of a call with these data. -/
def Has (s : Detect ι) (c : Nat) (info : CallInfo ι) : Prop := ∃ pc, s.calls c = some ⟨info, pc⟩

/-- What an action that is possible does. -/
inductive Acts [DecidableEq ι] (net : Net ι) (s : Detect ι) : DetectAction ι → Detect ι → Prop where
  | ping {i : ι} {c : Nat} {node : Node} {t : Detect ι}
    (h : s.startCall i c .direct node [⟨node.ip, node.port⟩] none = some t) :
    Acts net s (.ping i c node) t
  | indirectPing {i : ι} {c : Nat} {node : Node} {peers : List UDPAddr} {t : Detect ι}
    (h : s.startCall i c .indirect node peers none = some t) :
    Acts net s (.indirectPing i c node peers) t
  | tcpUnstarted {i : ι} : Acts net s (.tcpPing i) s
  | tcpNumbered {i : ι} : Acts net s (.tcpPing i) (s.setMember i (s.member i).nextSeqNo)
  | registered {c : Nat} {info : CallInfo ι} (hc : s.calls c = some ⟨info, .numbered⟩) :
    Acts net s (.register c) ((s.setMember info.owner
      ((s.member info.owner).setHandler info.kind info.seqNo (some c))).setCall c info
        (.sending info.dests))
  | sent {c : Nat} {info : CallInfo ι} {dst : UDPAddr} {left : List UDPAddr}
    (hc : s.calls c = some ⟨info, .sending (dst :: left)⟩) :
    Acts net s (.send c true)
      ((s.sendPacket { dst, src := net.sock info.owner, msg := info.msg }).setCall c info
        (.sending left))
  | notSent {c : Nat} {info : CallInfo ι} {left : List UDPAddr}
    (hc : s.calls c = some ⟨info, .sending left⟩) :
    Acts net s (.send c false) (s.setCall c info (.returned false []))
  | selected {c : Nat} {info : CallInfo ι} (hc : s.calls c = some ⟨info, .sending []⟩) :
    Acts net s (.select c) (s.setCall c info .waiting)
  | timedOut {c : Nat} {info : CallInfo ι} (hc : s.calls c = some ⟨info, .waiting⟩) :
    Acts net s (.timeout c) (s.setCall c info (.returned false []))
  | expired {c : Nat} {info : CallInfo ι} (hc : s.Has c info) :
    Acts net s (.expire c)
      (s.setMember info.owner ((s.member info.owner).setHandler info.kind info.seqNo none))
  | received {pkt : PingPacket} {c : Nat} {payload : Bytes} {i : ι} {t : Detect ι}
    (hpkt : pkt ∈ s.packets) (hroute : net.route pkt.dst = some i)
    (h : s.handle net i pkt c payload = some t) : Acts net s (.receive pkt c payload) t
  | delivered {i : ι} {h : Nat × Bytes} (hh : h ∈ (s.member i).held) :
    Acts net s (.deliver i h)
      ((s.setMember i { s.member i with held := (s.member i).held.erase h }).signal h.1 h.2)
  | told {c : Nat} {info : CallInfo ι} {success : Bool} {payload : Bytes} {addr : UDPAddr}
    {n : UInt32} (hc : s.calls c = some ⟨info, .returned success payload⟩)
    (hrelay : info.relay = some (addr, n)) :
    Acts net s (.tell c)
      ((s.sendPacket { dst := addr, src := net.sock info.owner
                       msg := .indirectAck { seqNo := n, success } }).setCall c info .told)

/-- Every action has one of these effects. -/
theorem act_case [DecidableEq ι] {s t : Detect ι} {a : DetectAction ι} (h : act net a s = some t) :
    Acts net s a t := by
  cases a with
  | ping i c node => exact .ping h
  | indirectPing i c node peers => exact .indirectPing h
  | tcpPing i =>
    dsimp only [act] at h
    split at h
    next => exact Option.some.inj h ▸ .tcpUnstarted
    next => exact Option.some.inj h ▸ .tcpNumbered
  | register c =>
    dsimp only [act] at h
    split at h
    next info hc => exact Option.some.inj h ▸ .registered hc
    next => cases h
  | send c ok =>
    dsimp only [act] at h
    split at h
    next info dst left hc =>
      cases ok with
      | true => exact Option.some.inj h ▸ .sent hc
      | false => exact Option.some.inj h ▸ .notSent hc
    next => cases h
  | select c =>
    dsimp only [act] at h
    split at h
    next info hc => exact Option.some.inj h ▸ .selected hc
    next => cases h
  | timeout c =>
    dsimp only [act] at h
    split at h
    next info hc => exact Option.some.inj h ▸ .timedOut hc
    next => cases h
  | expire c =>
    dsimp only [act] at h
    split at h
    next info pc hc =>
      split at h
      next => cases h
      next => exact Option.some.inj h ▸ .expired ⟨pc, hc⟩
    next => cases h
  | receive pkt c payload =>
    dsimp only [act] at h
    split at h
    next hpkt =>
      obtain ⟨i, hroute, h⟩ := Option.bind_eq_some_iff.mp h
      exact .received hpkt hroute h
    next => cases h
  | deliver i x =>
    dsimp only [act] at h
    split at h
    next hx => exact Option.some.inj h ▸ .delivered hx
    next => cases h
  | tell c =>
    dsimp only [act] at h
    split at h
    next info success payload hc =>
      obtain ⟨⟨addr, n⟩, hrelay, ht⟩ := Option.map_eq_some_iff.mp h
      exact ht ▸ .told hc hrelay
    next => cases h

/-! ## What stands behind it -/

/-- An answer with the number of the call has been sent to the member that made it. -/
def Heard (net : Net ι) (s : Detect ι) (info : CallInfo ι) (payload : Bytes) : Prop :=
  ∃ a ∈ s.answers, a.ping.seqNo = info.seqNo ∧ net.route a.dst = some info.owner ∧
    a.payload = payload

/-- Somebody who pings for a call with this number has heard the target. -/
def Relayed (net : Net ι) (s : Detect ι) (info : CallInfo ι) : Prop :=
  ∃ c info' addr payload, s.Has c info' ∧ info'.kind = .direct ∧ info'.no ≠ 0 ∧
    info'.relay = some (addr, info.seqNo) ∧ net.route addr = some info.owner ∧
    Heard net s info' payload

/-- What a call that returns true goes by. -/
def Earned (net : Net ι) (s : Detect ι) (info : CallInfo ι) (payload : Bytes) : Prop :=
  info.no ≠ 0 ∧
    match info.kind with
    | .direct => Heard net s info payload
    | .indirect => Relayed net s info

/-- The handler of call `c`, in the table of member `i` under `seqNo`. -/
def Registered (s : Detect ι) (i : ι) (kind : PingKind) (seqNo : UInt32) (c : Nat) : Prop :=
  ∃ info, s.Has c info ∧ info.owner = i ∧ info.kind = kind ∧ info.seqNo = seqNo ∧ info.no ≠ 0

/-- A handler that an ack has taken out of the table of member `i`. -/
def Taken (net : Net ι) (s : Detect ι) (i : ι) (h : Nat × Bytes) : Prop :=
  ∃ info, s.Has h.1 info ∧ info.owner = i ∧ info.kind = .direct ∧ info.no ≠ 0 ∧
    Heard net s info h.2

/-- A call with a message of this kind. -/
def Issued (s : Detect ι) (kind : PingKind) (info : CallInfo ι) : Prop :=
  info.kind = kind ∧ info.no ≠ 0 ∧ ∃ c, s.Has c info

/-- Where a call is answered. -/
def returnAddr (net : Net ι) (info : CallInfo ι) : UDPAddr :=
  replyAddr info.source.ip info.source.port (net.sock info.owner)

/-- A ping that is for others is for one who has asked for it, and pings whom they asked for. -/
def Asked (net : Net ι) (s : Detect ι) (info : CallInfo ι) : Prop :=
  ∀ addr n, info.relay = some (addr, n) → info.kind = .direct ∧
    ∃ info', s.Issued .indirect info' ∧ info'.seqNo = n ∧ addr = returnAddr net info' ∧
      info.node.id = info'.node.id

/-- What a packet goes back to. -/
def Backed (net : Net ι) (s : Detect ι) (pkt : PingPacket) : Prop :=
  match pkt.msg with
  | .ping p => ∃ info, s.Issued .direct info ∧ p = info.ping ∧ pkt.src = net.sock info.owner
  | .ack a => ∃ x ∈ s.answers, x.ping.seqNo = a.seqNo ∧ x.payload = a.payload ∧ x.dst = pkt.dst
  | .indirectPing p =>
    ∃ info, s.Issued .indirect info ∧ p = info.indirectPing ∧ pkt.src = net.sock info.owner
  | .indirectAck a => a.success = true → ∃ c info payload, s.Has c info ∧ info.kind = .direct ∧
    info.no ≠ 0 ∧ info.relay = some (pkt.dst, a.seqNo) ∧ Heard net s info payload

/-- An answer is to a ping that was made, and is by its target. -/
def Sincere (net : Net ι) (s : Detect ι) (a : Answer ι) : Prop :=
  (a.ping.id ≠ "" → a.ping.id = (s.member a.answerer).id) ∧
    ∃ info, s.Issued .direct info ∧ a.ping = info.ping ∧ a.sender = net.sock info.owner

/-- The numbers of calls are numbers their members have taken, for the address they
advertise. -/
def Numbered (s : Detect ι) (info : CallInfo ι) : Prop :=
  info.no ≠ 0 → (s.member info.owner).advertised = some info.source ∧
    info.no ≤ (s.member info.owner).seqCalls

/-- The invariant. The numbers of calls are ones that their owners have taken, and no two calls of
a member have the same one; a handler belongs to a call that has this number; every packet under
way has been sent for a reason (`Backed`), every answer was to a ping that some call has sent, and
every call that has returned true has heard of one. -/
structure Inv (net : Net ι) (s : Detect ι) : Prop where
  running : ∀ {c info pc}, s.calls c = some ⟨info, pc⟩ → pc.running = true → info.no ≠ 0
  numbered : ∀ {c info}, s.Has c info → s.Numbered info
  unique : ∀ {c c' info info'}, s.Has c info → s.Has c' info' → info.owner = info'.owner →
    info.no = info'.no → info.no ≠ 0 → c = c'
  handlers : ∀ {i kind n c}, (s.member i).handlers kind n = some c → s.Registered i kind n c
  held : ∀ {i h}, h ∈ (s.member i).held → s.Taken net i h
  packets : ∀ pkt ∈ s.packets, s.Backed net pkt
  answers : ∀ a ∈ s.answers, s.Sincere net a
  relays : ∀ {c info}, s.Has c info → s.Asked net info
  returned : ∀ {c info payload}, s.calls c = some ⟨info, .returned true payload⟩ →
    s.Earned net info payload

/-- Before anything has happened there is nothing to account for. -/
theorem inv_start (configs : ι → Config) : Inv net (start configs) where
  running := by intro c info pc h; cases h
  numbered := by rintro c info ⟨pc, h⟩; cases h
  unique := by rintro c c' info info' ⟨pc, h⟩; cases h
  handlers := by intro i kind n c h; cases h
  held := by intro i h hh; cases hh
  packets := by intro pkt h; cases h
  answers := by intro a h; cases h
  relays := by rintro c info ⟨pc, h⟩; cases h
  returned := by intro c info payload h; cases h

/-! ## It only grows -/

/-- Nothing is taken back: calls keep their data, answers stay given, members their
configuration. -/
structure Grows (s t : Detect ι) : Prop where
  has : ∀ {c info}, s.Has c info → t.Has c info
  answers : ∀ a ∈ s.answers, a ∈ t.answers
  config : ∀ i, (t.member i).config = (s.member i).config
  seqCalls : ∀ i, (s.member i).seqCalls ≤ (t.member i).seqCalls

variable {s t : Detect ι} {info : CallInfo ι} {i : ι} {c : Nat} {payload : Bytes}

theorem Grows.refl (s : Detect ι) : Grows s s :=
  ⟨fun h => h, fun _ h => h, fun _ => rfl, fun _ => Nat.le_refl _⟩

/-- Histories grow step by step. -/
theorem Grows.trans {u : Detect ι} (h : Grows s t) (h' : Grows t u) : Grows s u where
  has hs := h'.has (h.has hs)
  answers a ha := h'.answers a (h.answers a ha)
  config i := (h'.config i).trans (h.config i)
  seqCalls i := Nat.le_trans (h.seqCalls i) (h'.seqCalls i)

/-- What has been heard stays so, as answers are never taken back. -/
theorem Heard.mono (hg : Grows s t) (h : Heard net s info payload) : Heard net t info payload := by
  obtain ⟨a, ha, h⟩ := h
  exact ⟨a, hg.answers a ha, h⟩

theorem Relayed.mono (hg : Grows s t) (h : Relayed net s info) : Relayed net t info := by
  obtain ⟨c, info', addr, payload, hc, hkind, hno, hrelay, hroute, hheard⟩ := h
  exact ⟨c, info', addr, payload, hg.has hc, hkind, hno, hrelay, hroute, hheard.mono hg⟩

/-- A success that was earned remains earned. -/
theorem Earned.mono (hg : Grows s t) (h : Earned net s info payload) :
    Earned net t info payload := by
  obtain ⟨hno, h⟩ := h
  refine ⟨hno, ?_⟩
  cases hk : info.kind with
  | direct =>
    rw [hk] at h
    exact Heard.mono hg h
  | indirect =>
    rw [hk] at h
    exact Relayed.mono hg h

/-- A handler stays the one of its call. -/
theorem Registered.mono {kind : PingKind} {n : UInt32} (hg : Grows s t)
    (h : s.Registered i kind n c) : t.Registered i kind n c := by
  obtain ⟨info, hc, h⟩ := h
  exact ⟨info, hg.has hc, h⟩

theorem Taken.mono {h : Nat × Bytes} (hg : Grows s t) (ht : Taken net s i h) : Taken net t i h := by
  obtain ⟨info, hc, howner, hkind, hno, hheard⟩ := ht
  exact ⟨info, hg.has hc, howner, hkind, hno, hheard.mono hg⟩

theorem Issued.mono {kind : PingKind} (hg : Grows s t) (h : s.Issued kind info) :
    t.Issued kind info := by
  obtain ⟨hkind, hno, c, hc⟩ := h
  exact ⟨hkind, hno, c, hg.has hc⟩

theorem Asked.mono (hg : Grows s t) (h : Asked net s info) : Asked net t info := by
  intro addr n hrelay
  obtain ⟨hkind, info', hissued, h⟩ := h addr n hrelay
  exact ⟨hkind, info', hissued.mono hg, h⟩

/-- The reason a packet was sent for stays one. -/
theorem Backed.mono {pkt : PingPacket} (hg : Grows s t) (h : Backed net s pkt) :
    Backed net t pkt := by
  obtain ⟨dst, src, msg⟩ := pkt
  cases msg with
  | ping p =>
    obtain ⟨info, hissued, h⟩ := h
    exact ⟨info, hissued.mono hg, h⟩
  | ack a =>
    obtain ⟨x, hx, h⟩ := h
    exact ⟨x, hg.answers x hx, h⟩
  | indirectPing p =>
    obtain ⟨info, hissued, h⟩ := h
    exact ⟨info, hissued.mono hg, h⟩
  | indirectAck a =>
    intro hsuccess
    obtain ⟨c, info, payload, hc, hkind, hno, hrelay, hheard⟩ := h hsuccess
    exact ⟨c, info, payload, hg.has hc, hkind, hno, hrelay, hheard.mono hg⟩

/-- The ping that was answered stays one that a call has sent. -/
theorem Sincere.mono {a : Answer ι} (hg : Grows s t) (h : Sincere net s a) : Sincere net t a := by
  obtain ⟨hid, info, hissued, h⟩ := h
  refine ⟨?_, info, hissued.mono hg, h⟩
  intro hne
  rw [hid hne]
  exact (congrArg Config.id (hg.config a.answerer)).symm

/-- A number stays taken. -/
theorem Numbered.mono (hg : Grows s t) (h : s.Numbered info) : t.Numbered info := by
  intro hno
  obtain ⟨hsource, hle⟩ := h hno
  refine ⟨?_, Nat.le_trans hle (hg.seqCalls info.owner)⟩
  unfold Pinger.advertised
  rw [hg.config]
  exact hsource

/-! ## What the pieces of a step do -/

theorem setCall_self (s : Detect ι) (c : Nat) (info : CallInfo ι) (pc : CallPc) :
    (s.setCall c info pc).calls c = some ⟨info, pc⟩ := Function.update_self ..

theorem setCall_of_ne {c' : Nat} (hc : c' ≠ c) (s : Detect ι) (info : CallInfo ι) (pc : CallPc) :
    (s.setCall c info pc).calls c' = s.calls c' := Function.update_of_ne hc ..

/-- Which calls there are after one has moved or begun. -/
theorem has_setCall {c' : Nat} {info' : CallInfo ι} {pc : CallPc} :
    (s.setCall c info pc).Has c' info' ↔ if c' = c then info' = info else s.Has c' info' := by
  unfold Has
  by_cases hc : c' = c
  · subst hc
    rw [if_pos rfl, setCall_self]
    constructor
    · rintro ⟨pc', h⟩
      cases h
      rfl
    · rintro rfl
      exact ⟨pc, rfl⟩
  · rw [if_neg hc, setCall_of_ne hc]

/-- What a call is about does not change. -/
theorem has_unique {info' : CallInfo ι} (h : s.Has c info) (h' : s.Has c info') : info = info' := by
  obtain ⟨pc, h⟩ := h
  obtain ⟨pc', h'⟩ := h'
  cases h.symm.trans h'
  rfl

/-- A call gets on: no call is new. -/
theorem has_move {pc : CallPc} (h : s.Has c info) {c' : Nat} {info' : CallInfo ι} :
    (s.setCall c info pc).Has c' info' ↔ s.Has c' info' := by
  rw [has_setCall]
  by_cases hc : c' = c
  · subst hc
    rw [if_pos rfl]
    constructor
    · rintro rfl
      exact h
    · intro h'
      exact has_unique h' h
  · rw [if_neg hc]

theorem grows_move {pc : CallPc} (h : s.Has c info) : Grows s (s.setCall c info pc) :=
  { Grows.refl s with has := (has_move h).mpr }

/-- A call moves on. It may send only if it has a number, and may return true only if that was
earned. -/
theorem Inv.move {pc : CallPc} (hs : Inv net s) (h : s.Has c info)
    (hrun : pc.running = true → info.no ≠ 0)
    (hret : ∀ payload, pc = .returned true payload → s.Earned net info payload) :
    Inv net (s.setCall c info pc) := by
  have hg : Grows s (s.setCall c info pc) := grows_move h
  exact {
    running := by
      intro c' info' pc' hc
      by_cases hcc : c' = c
      · rw [hcc, setCall_self] at hc
        cases hc
        exact hrun
      · rw [setCall_of_ne hcc] at hc
        exact hs.running hc
    numbered := fun hc => (hs.numbered ((has_move h).mp hc)).mono hg
    unique := fun hc hc' => hs.unique ((has_move h).mp hc) ((has_move h).mp hc')
    handlers := fun hh => (hs.handlers hh).mono hg
    held := fun hh => (hs.held hh).mono hg
    packets := fun pkt hp => (hs.packets pkt hp).mono hg
    answers := fun a ha => (hs.answers a ha).mono hg
    relays := fun hc => (hs.relays ((has_move h).mp hc)).mono hg
    returned := by
      intro c' info' payload hc
      by_cases hcc : c' = c
      · rw [hcc, setCall_self] at hc
        cases hc
        exact (hret payload rfl).mono hg
      · rw [setCall_of_ne hcc] at hc
        exact (hs.returned hc).mono hg }

theorem grows_sendPacket (s : Detect ι) (pkt : PingPacket) : Grows s (s.sendPacket pkt) :=
  { Grows.refl s with }

/-- A packet may be sent if there is a reason for it. -/
theorem Inv.sendPacket {pkt : PingPacket} (hs : Inv net s) (hpkt : s.Backed net pkt) :
    Inv net (s.sendPacket pkt) := by
  have hg := grows_sendPacket s pkt
  exact {
    running := fun hc => hs.running hc
    numbered := fun hc => (hs.numbered hc).mono hg
    unique := fun hc hc' => hs.unique hc hc'
    handlers := fun hh => (hs.handlers hh).mono hg
    held := fun hh => (hs.held hh).mono hg
    packets := by
      intro pkt' hp
      rcases List.mem_append.mp hp with hp | hp
      · exact (hs.packets pkt' hp).mono hg
      · rw [List.mem_singleton.mp hp]
        exact hpkt.mono hg
    answers := fun a ha => (hs.answers a ha).mono hg
    relays := fun hc => (hs.relays hc).mono hg
    returned := fun hc => (hs.returned hc).mono hg }

/-- A ping that a call has sent may be answered. -/
theorem Inv.answer {a : Answer ι} (hs : Inv net s) (ha : s.Sincere net a) :
    Inv net { s with answers := s.answers ++ [a] } := by
  have hg : Grows s { s with answers := s.answers ++ [a] } :=
    { Grows.refl s with answers := fun _ hx => List.mem_append_left _ hx }
  exact {
    running := fun hc => hs.running hc
    numbered := fun hc => (hs.numbered hc).mono hg
    unique := fun hc hc' => hs.unique hc hc'
    handlers := fun hh => (hs.handlers hh).mono hg
    held := fun hh => (hs.held hh).mono hg
    packets := fun pkt hp => (hs.packets pkt hp).mono hg
    answers := by
      intro x hx
      rcases List.mem_append.mp hx with hx | hx
      · exact (hs.answers x hx).mono hg
      · rw [List.mem_singleton.mp hx]
        exact ha.mono hg
    relays := fun hc => (hs.relays hc).mono hg
    returned := fun hc => (hs.returned hc).mono hg }

variable [DecidableEq ι]

theorem setMember_self (s : Detect ι) (i : ι) (p : Pinger) : (s.setMember i p).member i = p :=
  Function.update_self ..

theorem setMember_of_ne {j : ι} (hj : j ≠ i) (s : Detect ι) (p : Pinger) :
    (s.setMember i p).member j = s.member j := Function.update_of_ne hj ..

/-- A member keeps its configuration, and its counter only goes up. -/
theorem grows_setMember {p : Pinger} (hconfig : p.config = (s.member i).config)
    (hseq : (s.member i).seqCalls ≤ p.seqCalls) : Grows s (s.setMember i p) := by
  refine ⟨fun h => h, fun _ h => h, ?_, ?_⟩
  · intro j
    by_cases hj : j = i
    · rw [hj, setMember_self, hconfig]
    · rw [setMember_of_ne hj]
  · intro j
    by_cases hj : j = i
    · rw [hj, setMember_self]
      exact hseq
    · rw [setMember_of_ne hj]

/-- The handlers of a member, and those it holds, may change, as long as each is accounted
for. -/
theorem Inv.setMember {p : Pinger} (hs : Inv net s) (hconfig : p.config = (s.member i).config)
    (hseq : (s.member i).seqCalls ≤ p.seqCalls)
    (hhandlers : ∀ kind n c, p.handlers kind n = some c → s.Registered i kind n c)
    (hheld : ∀ h ∈ p.held, s.Taken net i h) : Inv net (s.setMember i p) := by
  have hg : Grows s (s.setMember i p) := grows_setMember hconfig hseq
  exact {
    running := fun hc => hs.running hc
    numbered := fun hc => (hs.numbered hc).mono hg
    unique := fun hc hc' => hs.unique hc hc'
    handlers := by
      intro j kind n c hh
      by_cases hj : j = i
      · rw [hj, setMember_self] at hh
        rw [hj]
        exact (hhandlers kind n c hh).mono hg
      · rw [setMember_of_ne hj] at hh
        exact (hs.handlers hh).mono hg
    held := by
      intro j h hh
      by_cases hj : j = i
      · rw [hj, setMember_self] at hh
        rw [hj]
        exact (hheld h hh).mono hg
      · rw [setMember_of_ne hj] at hh
        exact (hs.held hh).mono hg
    packets := fun pkt hp => (hs.packets pkt hp).mono hg
    answers := fun a ha => (hs.answers a ha).mono hg
    relays := fun hc => (hs.relays hc).mono hg
    returned := fun hc => (hs.returned hc).mono hg }

/-! ## The steps -/

omit [DecidableEq ι] in
/-- A new call adds to the history. -/
theorem grows_new {pc : CallPc} (h : s.calls c = none) : Grows s (s.setCall c info pc) := by
  refine { Grows.refl s with has := ?_ }
  intro c' info' hc
  rw [has_setCall]
  by_cases hcc : c' = c
  · subst hcc
    obtain ⟨pc', hc⟩ := hc
    cases h.symm.trans hc
  · rw [if_neg hcc]
    exact hc

omit [DecidableEq ι] in
/-- A new call, for which its member has taken a number nobody has, or none. -/
theorem Inv.newCall {pc : CallPc} (hs : Inv net s) (h : s.calls c = none)
    (hrun : pc.running = true → info.no ≠ 0) (hpc : ∀ payload, pc ≠ .returned true payload)
    (hnumbered : s.Numbered info)
    (hfresh : ∀ c' info', s.Has c' info' → info'.owner = info.owner → info'.no = info.no →
      info.no = 0)
    (hasked : s.Asked net info) : Inv net (s.setCall c info pc) := by
  have hg : Grows s (s.setCall c info pc) := grows_new h
  refine { running := ?_, numbered := ?_, unique := ?_, handlers := ?_, held := ?_, packets := ?_
           answers := ?_, relays := ?_, returned := ?_ }
  · intro c' info' pc' hc
    by_cases hcc : c' = c
    · rw [hcc, setCall_self] at hc
      cases hc
      exact hrun
    · rw [setCall_of_ne hcc] at hc
      exact hs.running hc
  · intro c' info' hc
    rw [has_setCall] at hc
    split at hc
    next => rw [hc]; exact hnumbered.mono hg
    next => exact (hs.numbered hc).mono hg
  · -- two calls with one number: neither is the new one, or both are
    intro c₁ c₂ info₁ info₂ h₁ h₂ howner hno hne
    rw [has_setCall] at h₁ h₂
    split at h₁
    next hc₁ =>
      split at h₂
      next hc₂ => rw [hc₁, hc₂]
      next =>
        rw [h₁] at howner hno hne
        exact absurd (hfresh c₂ info₂ h₂ howner.symm hno.symm) hne
    next =>
      split at h₂
      next =>
        rw [h₂] at howner hno
        exact absurd (hno.trans (hfresh c₁ info₁ h₁ howner hno)) hne
      next => exact hs.unique h₁ h₂ howner hno hne
  · exact fun hh => (hs.handlers hh).mono hg
  · exact fun hh => (hs.held hh).mono hg
  · exact fun pkt hp => (hs.packets pkt hp).mono hg
  · exact fun a ha => (hs.answers a ha).mono hg
  · intro c' info' hc
    rw [has_setCall] at hc
    split at hc
    next => rw [hc]; exact hasked.mono hg
    next => exact (hs.relays hc).mono hg
  · intro c' info' payload hc
    by_cases hcc : c' = c
    · rw [hcc, setCall_self] at hc
      cases hc
      exact absurd rfl (hpc payload)
    · rw [setCall_of_ne hcc] at hc
      exact (hs.returned hc).mono hg

/-- What a step leads to: more is known, and it is accounted for. -/
structure Good (net : Net ι) (s t : Detect ι) : Prop where
  grows : Grows s t
  inv : Inv net t

/-- A member takes a number. -/
theorem nextSeqNo_good (hs : Inv net s) (i : ι) :
    Good net s (s.setMember i (s.member i).nextSeqNo) :=
  ⟨grows_setMember rfl (Nat.le_succ _), hs.setMember rfl (Nat.le_succ _)
    (fun _ _ _ hh => hs.handlers hh) (fun _ hh => hs.held hh)⟩

/-- A call begins. It takes a number if its owner has an address to be answered at and there is
somebody to send to, and returns otherwise. -/
theorem startCall_good {kind : PingKind} {node : Node} {dests : List UDPAddr}
    {relay : Option (UDPAddr × UInt32)} (hs : Inv net s)
    (hasked : ∀ no source, s.Asked net { owner := i, kind, node, no, source, dests, relay })
    (h : s.startCall i c kind node dests relay = some t) : Good net s t := by
  unfold startCall at h
  split at h
  next => cases h
  next hnone =>
    have hnone : s.calls c = none := by simpa using hnone
    dsimp only at h
    split at h
    next =>
      cases h
      refine ⟨grows_new hnone, hs.newCall hnone ?_ ?_ ?_ ?_ (hasked 0 _)⟩
      · intro hrun
        cases hrun
      · intro payload hp
        cases hp
      · intro hno
        exact absurd rfl hno
      · intro _ _ _ _ _
        rfl
    next source hsource =>
      split at h
      next =>
        cases h
        refine ⟨grows_new hnone, hs.newCall hnone ?_ ?_ ?_ ?_ (hasked 0 _)⟩
        · intro hrun
          cases hrun
        · intro payload hp
          cases hp
        · intro hno
          exact absurd rfl hno
        · intro _ _ _ _ _
          rfl
      next =>
        cases h
        obtain ⟨hg, hm⟩ := nextSeqNo_good hs i
        refine ⟨hg.trans (grows_new hnone), hm.newCall hnone ?_ ?_ ?_ ?_ ((hasked _ _).mono hg)⟩
        · exact fun _ => Nat.succ_ne_zero _
        · intro payload hp
          cases hp
        · intro _
          dsimp only
          rw [setMember_self]
          exact ⟨hsource, Nat.le_refl _⟩
        · intro c' info' hc howner hno
          dsimp only at howner hno ⊢
          -- a call made earlier has a number that was taken earlier
          by_contra hne
          have hle := (hs.numbered hc (hno ▸ hne)).2
          rw [howner, hno] at hle
          exact Nat.not_succ_le_self _ hle

omit [DecidableEq ι] in
/-- A call that waits is told of an ack. It returns true, which it must have earned; any other
call stays where it is. -/
theorem signal_good (c : Nat) (payload : Bytes) (hs : Inv net s)
    (hearned : ∀ info, s.Has c info → s.Earned net info payload) :
    Good net s (s.signal c payload) := by
  unfold signal
  split
  next info hc =>
    have hhas : s.Has c info := ⟨_, hc⟩
    refine ⟨grows_move hhas, hs.move hhas ?_ ?_⟩
    · intro hrun
      cases hrun
    · intro payload' hp
      cases hp
      exact hearned info hhas
  next => exact ⟨Grows.refl s, hs⟩

/-- A handler is in its table because it was there before, or because it has just been put
there. -/
theorem setHandler_handlers {p : Pinger} {kind kind' : PingKind} {n n' : UInt32} {h : Option Nat}
    (hc : (p.setHandler kind n h).handlers kind' n' = some c) :
    kind' = kind ∧ n' = n ∧ h = some c ∨ p.handlers kind' n' = some c := by
  have hc : p.handlers.set kind n h kind' n' = some c := hc
  rw [AckHandlers.set_apply] at hc
  split at hc
  next hplace => exact .inl ⟨hplace.1, hplace.2, hc⟩
  next => exact .inr hc

/-- A handler is removed. -/
theorem cleared_good {kind : PingKind} {n : UInt32} (hs : Inv net s) :
    Good net s (s.setMember i ((s.member i).setHandler kind n none)) := by
  refine ⟨grows_setMember rfl (Nat.le_refl _), hs.setMember rfl (Nat.le_refl _) ?_ ?_⟩
  · intro kind' n' c hc
    rcases setHandler_handlers hc with ⟨-, -, h⟩ | hc
    · cases h
    · exact hs.handlers hc
  · exact fun _ hh => hs.held hh

omit [DecidableEq ι] in
/-- A ping is answered, or refused by whom it is not for. -/
theorem handlePing_good {p : Ping} {sender sock : UDPAddr} (hs : Inv net s)
    (hp : ∃ info, s.Issued .direct info ∧ p = info.ping ∧ sender = net.sock info.owner) :
    Good net s (s.handlePing i p sender sock payload) := by
  unfold handlePing
  split
  next => exact ⟨Grows.refl s, hs⟩
  next hid =>
    have hsincere : s.Sincere net { answerer := i, ping := p, sender, payload } := by
      refine ⟨?_, hp⟩
      intro hne
      by_contra h
      exact hid ⟨hne, h⟩
    have hg : Grows s
        { s with answers := s.answers ++ [{ answerer := i, ping := p, sender, payload }] } :=
      { Grows.refl s with answers := fun _ hx => List.mem_append_left _ hx }
    refine ⟨{ hg with }, (hs.answer hsincere).sendPacket ?_⟩
    exact ⟨_, List.mem_append_right _ (List.mem_singleton_self _), rfl, rfl, rfl⟩

/-- An ack takes the handler under its number, if there is one, and holds it: calling it is a
step of its own (`deliver_good`). -/
theorem handleAck_good {a : Ack} (hs : Inv net s)
    (ha : ∃ x ∈ s.answers, x.ping.seqNo = a.seqNo ∧ x.payload = a.payload ∧
      net.route x.dst = some i) :
    Good net s (s.handleAck i a) := by
  unfold handleAck
  dsimp only
  split
  next => exact ⟨Grows.refl s, hs⟩
  next h hh =>
    obtain ⟨x, hx, hseq, hpayload, hroute⟩ := ha
    refine ⟨grows_setMember rfl (Nat.le_refl _), hs.setMember rfl (Nat.le_refl _) ?_ ?_⟩
    · intro kind n c hc
      rcases setHandler_handlers hc with ⟨-, -, hnone⟩ | hc
      · cases hnone
      · exact hs.handlers hc
    · intro h' hh'
      rcases List.mem_append.mp hh' with hh' | hh'
      · exact hs.held hh'
      · rw [List.mem_singleton.mp hh']
        obtain ⟨info, hc, howner, hkind, hno, hne⟩ := hs.handlers hh
        exact ⟨info, hc, howner, hkind, hne, x, hx, hseq.trans hno.symm, howner ▸ hroute, hpayload⟩

/-- Who is asked to ping for somebody begins a call that remembers whom to tell. -/
theorem handleIndirectPing_good {p : IndirectPing} {sender : UDPAddr} (hs : Inv net s)
    (hp : ∃ info, s.Issued .indirect info ∧ p = info.indirectPing ∧ sender = net.sock info.owner)
    (h : s.handleIndirectPing i c p sender = some t) : Good net s t := by
  refine startCall_good hs ?_ h
  intro no source addr n hrelay
  obtain ⟨info, hissued, rfl, rfl⟩ := hp
  cases hrelay
  exact ⟨rfl, info, hissued, rfl, rfl, rfl⟩

/-- A relayed success finds the call that asked for it. -/
theorem handleIndirectAck_good {a : IndirectAck} {dst : UDPAddr} (hs : Inv net s)
    (hroute : net.route dst = some i)
    (ha : a.success = true → ∃ c info payload, s.Has c info ∧ info.kind = .direct ∧
      info.no ≠ 0 ∧ info.relay = some (dst, a.seqNo) ∧ Heard net s info payload) :
    Good net s (s.handleIndirectAck i a) := by
  unfold handleIndirectAck
  dsimp only
  split
  next => exact ⟨Grows.refl s, hs⟩
  next h hh =>
    split
    next => exact ⟨Grows.refl s, hs⟩
    next hsuccess =>
      have hcleared : Good net s (s.setMember i ((s.member i).setHandler .indirect a.seqNo none)) :=
        cleared_good hs
      obtain ⟨info, hc, howner, hkind, hno, hne⟩ := hs.handlers hh
      have hearned : s.Earned net info [] := by
        obtain ⟨c, info', payload, hc', hkind', hne', hrelay, hheard⟩ :=
          ha (by simpa using hsuccess)
        refine ⟨hne, ?_⟩
        rw [hkind]
        exact ⟨c, info', dst, payload, hc', hkind', hne', hno ▸ hrelay, howner ▸ hroute, hheard⟩
      have hsignal := signal_good h [] hcleared.inv (by
        intro info' hc'
        rw [has_unique hc' (hcleared.grows.has hc)]
        exact hearned.mono hcleared.grows)
      exact ⟨hcleared.grows.trans hsignal.grows, hsignal.inv⟩

/-- A packet is handled with what it goes back to. -/
theorem handle_good {pkt : PingPacket} (hs : Inv net s) (hpkt : s.Backed net pkt)
    (hroute : net.route pkt.dst = some i) (h : s.handle net i pkt c payload = some t) :
    Good net s t := by
  obtain ⟨dst, src, msg⟩ := pkt
  cases msg with
  | ping p =>
    cases h
    exact handlePing_good hs hpkt
  | ack a =>
    cases h
    obtain ⟨x, hx, hseq, hpayload, hdst⟩ := hpkt
    exact handleAck_good hs ⟨x, hx, hseq, hpayload, hdst ▸ hroute⟩
  | indirectPing p => exact handleIndirectPing_good hs hpkt h
  | indirectAck a =>
    cases h
    exact handleIndirectAck_good hs hroute hpkt

omit [DecidableEq ι] in
/-- A call sends the message that its number and its target make up. -/
theorem msg_backed {dst : UDPAddr} (hc : s.Has c info) (hno : info.no ≠ 0) :
    s.Backed net { dst, src := net.sock info.owner, msg := info.msg } := by
  unfold CallInfo.msg Backed
  cases hk : info.kind with
  | direct => exact ⟨info, ⟨hk, hno, c, hc⟩, rfl, rfl⟩
  | indirect => exact ⟨info, ⟨hk, hno, c, hc⟩, rfl, rfl⟩

omit [DecidableEq ι] in
/-- A call moves on without returning true. -/
theorem move_good {pc pc' : CallPc} (hs : Inv net s) (hc : s.calls c = some ⟨info, pc⟩)
    (hrun : pc'.running = true → pc.running = true)
    (hret : ∀ payload, pc' ≠ .returned true payload) : Good net s (s.setCall c info pc') :=
  ⟨grows_move ⟨pc, hc⟩, hs.move ⟨pc, hc⟩ (fun h => hs.running hc (hrun h))
    fun payload h => absurd h (hret payload)⟩

omit [DecidableEq ι] in
/-- A call sends and moves on. -/
theorem send_move_good {pkt : PingPacket} {pc pc' : CallPc} (hs : Inv net s)
    (hpkt : s.Backed net pkt) (hc : s.calls c = some ⟨info, pc⟩)
    (hrun : pc'.running = true → pc.running = true)
    (hret : ∀ payload, pc' ≠ .returned true payload) :
    Good net s ((s.sendPacket pkt).setCall c info pc') := by
  have hmoved := move_good (hs.sendPacket hpkt) hc hrun hret
  exact ⟨(grows_sendPacket s pkt).trans hmoved.grows, hmoved.inv⟩

/-- A call sets its handler. The number is its own, so the handler of no other running call is
lost. -/
theorem register_good (hs : Inv net s) (hc : s.calls c = some ⟨info, .numbered⟩) :
    Good net s ((s.setMember info.owner
      ((s.member info.owner).setHandler info.kind info.seqNo (some c))).setCall c info
        (.sending info.dests)) := by
  have hno : info.no ≠ 0 := hs.running hc rfl
  have hg : Grows s (s.setMember info.owner
      ((s.member info.owner).setHandler info.kind info.seqNo (some c))) :=
    grows_setMember rfl (Nat.le_refl _)
  have hm : Inv net (s.setMember info.owner
      ((s.member info.owner).setHandler info.kind info.seqNo (some c))) := by
    refine hs.setMember rfl (Nat.le_refl _) ?_ (fun _ hh => hs.held hh)
    intro kind n c' hc'
    rcases setHandler_handlers hc' with ⟨rfl, rfl, h⟩ | hc'
    · cases h
      exact ⟨info, ⟨_, hc⟩, rfl, rfl, rfl, hno⟩
    · exact hs.handlers hc'
  have hmoved : Good net _ (setCall c info (.sending info.dests) _) :=
    move_good hm hc (fun _ => rfl) (by intro payload h; cases h)
  exact ⟨hg.trans hmoved.grows, hmoved.inv⟩

/-- A handler that an ack has taken is called. The success was earned when the ack arrived. -/
theorem deliver_good {h : Nat × Bytes} (hs : Inv net s) (hh : h ∈ (s.member i).held) :
    Good net s ((s.setMember i { s.member i with held := (s.member i).held.erase h }).signal
      h.1 h.2) := by
  have hg : Grows s (s.setMember i { s.member i with held := (s.member i).held.erase h }) :=
    grows_setMember rfl (Nat.le_refl _)
  have hm : Inv net (s.setMember i { s.member i with held := (s.member i).held.erase h }) :=
    hs.setMember rfl (Nat.le_refl _) (fun _ _ _ hc => hs.handlers hc)
      (fun _ hx => hs.held (List.mem_of_mem_erase hx))
  obtain ⟨info, hc, -, hkind, hno, hheard⟩ := hs.held hh
  have hsignal := signal_good h.1 h.2 hm (by
    intro info' hc'
    rw [has_unique hc' (hg.has hc)]
    refine ⟨hno, ?_⟩
    rw [hkind]
    exact hheard.mono hg)
  exact ⟨hg.trans hsignal.grows, hsignal.inv⟩

omit [DecidableEq ι] in
/-- The result of a relayed ping is sent to who asked for it. A success was earned by the ping. -/
theorem tell_good {success : Bool} {addr : UDPAddr} {n : UInt32} (hs : Inv net s)
    (hc : s.calls c = some ⟨info, .returned success payload⟩)
    (hrelay : info.relay = some (addr, n)) :
    Good net s ((s.sendPacket { dst := addr, src := net.sock info.owner
                                msg := .indirectAck { seqNo := n, success } }).setCall c info
      .told) := by
  refine send_move_good hs ?_ hc (fun h => h) (by intro payload h; cases h)
  intro hsuccess
  have hsuccess : success = true := hsuccess
  subst hsuccess
  have hdirect := (hs.relays ⟨_, hc⟩ addr n hrelay).1
  obtain ⟨hno, hearned⟩ := hs.returned hc
  rw [hdirect] at hearned
  exact ⟨c, info, payload, ⟨_, hc⟩, hdirect, hno, hrelay, hearned⟩

/-- Every step is accounted for. -/
theorem act_good {a : DetectAction ι} (hs : Inv net s) (h : act net a s = some t) :
    Good net s t := by
  cases act_case h with
  | ping h => exact startCall_good hs (by intro no source addr n hrelay; cases hrelay) h
  | indirectPing h => exact startCall_good hs (by intro no source addr n hrelay; cases hrelay) h
  | tcpUnstarted => exact ⟨Grows.refl s, hs⟩
  | tcpNumbered => exact nextSeqNo_good hs _
  | registered hc => exact register_good hs hc
  | sent hc =>
    exact send_move_good hs (msg_backed ⟨_, hc⟩ (hs.running hc rfl)) hc (fun _ => rfl)
      (by intro payload h; cases h)
  | notSent hc => exact move_good hs hc (fun _ => rfl) (by intro payload h; cases h)
  | selected hc => exact move_good hs hc (fun _ => rfl) (by intro payload h; cases h)
  | timedOut hc => exact move_good hs hc (fun _ => rfl) (by intro payload h; cases h)
  | expired hc => exact cleared_good hs
  | received hpkt hroute h => exact handle_good hs (hs.packets _ hpkt) hroute h
  | delivered hh => exact deliver_good hs hh
  | told hc hrelay => exact tell_good hs hc hrelay

/-- The invariant and the growth of the history, over whole runs. -/
theorem run_good {acts : List (DetectAction ι)} (hs : Inv net s)
    (h : run (act net) acts s = some t) : Good net s t :=
  run_inv (P := Good net s) (fun _ _ _ hgood hstep =>
    have h' := act_good hgood.inv hstep
    ⟨hgood.grows.trans h'.grows, h'.inv⟩) ⟨Grows.refl s, hs⟩ h

/-- The invariant holds in every state a cluster can get into. -/
theorem reachable_inv (h : Reachable net s) : Inv net s := by
  obtain ⟨configs, acts, h⟩ := h
  exact (run_good (inv_start configs) h).inv

end Detect

end Mlist
