import Mathlib.Algebra.Order.BigOperators.Group.List
import Mathlib.Algebra.Order.Group.Nat
import Mathlib.Data.List.Basic
import Mlist.Lib.Fair
import Mlist.Race.LongRun
import Mlist.Race.Shutdown

/-!
# What a shutdown ends

Everything ends (`shutdown_returns`): in an execution that is fair to every goroutine, whoever
calls `Shutdown` gets back from it, and the listeners and the receivers return. There is one
condition, that the queue of long-running messages does not overflow. A `Build` that fails has
another one, as it shuts down before there are receivers (`failedStart_returns_iff`).

Whoever calls first closes the sockets (`eventually_closed`). With all of them closed the listeners
get done with what they have (`eventually_unloaded`): `load` is what is left of it, and `helper` is
whose turn it is, which may be a receiver's. Then the channel is closed (`eventually_announced`),
at which the others return.
-/

namespace Mlist

open Mlist.Lib

/-- How many steps are left for a `udpListen` when its connection is closed, with those of
`receivePacket` for the packet it has. -/
def UdpPc.weight : UdpPc → Nat
  | .reading => 1
  | .sending packet => 4 * packet.length + 3
  | .returned => 0

/-- What a `tcpListen` still has to do once its listener is closed. It goes back to accepting,
which then fails. -/
def TcpPc.weight : TcpPc → Nat
  | .accepting => 1
  | .sleeping => 2
  | .sending => 2
  | .returned => 0

/-- What `receivePacket` has to do with the packet it handles: each message is queued in a few
steps. -/
def ReceiverPc.weight : ReceiverPc → Nat
  | .handling rest => 4 * rest.length + 1
  | _ => 0

/-- What is left of the queueing of a message. -/
def CallerPc.weight : CallerPc → Nat
  | .idle => 0
  | .locking _ => 2
  | .notifying => 1

namespace ShutdownSys

variable {s s' : ShutdownSys} {a : ShutdownAct}

/-- A call is not blocked if the mutex is free. -/
theorem queueLongRunMsg_isSome (m : LongRunMsg) {mng : LongRunMsgManager}
    (h : mng.locked = false) : (mng.queueLongRunMsg m).isSome = true := by
  unfold LongRunMsgManager.queueLongRunMsg
  rw [Option.isSome_map, LongRunMsgManager.lock_of_free h]
  rfl

theorem longRun_callers_self (lr : LongRunSys) (g : Nat) (pc : CallerPc) :
    (lr.setCaller g pc).callers g = pc := by
  simp [LongRunSys.setCaller]

/-- The steps are those of the call that is being made, or of the handler. -/
theorem longRun_moves {b : LongRunAct} {lr lr' : LongRunSys}
    (honly : ∀ g, g ≠ 0 → lr.callers g = .idle) (hcall : ∀ g m, b ≠ .call g m)
    (hshut : b ≠ .shutdown) (h : lr.act b = some lr') :
    (ShutdownAct.longRun b).goroutine = .receivePacket ∧
        (lr'.callers 0).weight < (lr.callers 0).weight ∨
      (ShutdownAct.longRun b).goroutine = .runLongRunMsgHandler ∧
        lr'.callers 0 = lr.callers 0 := by
  -- `receivePacket` is the only one who calls
  have hzero : ∀ {g : Nat}, lr.callers g ≠ .idle → g = 0 := by
    intro g hg
    by_contra hne
    exact hg (honly g hne)
  cases b with
  | call g m => exact absurd rfl (hcall g m)
  | push g =>
    simp only [LongRunSys.act] at h
    split at h
    next m hpc =>
      obtain rfl := hzero (by rw [hpc]; simp)
      refine .inl ⟨rfl, ?_⟩
      rw [hpc]
      -- an error is returned at once, otherwise the handler is still to be notified
      split at h
      next => cases h
      next =>
        cases h
        rw [longRun_callers_self]
        exact Nat.lt_add_one 1
      next =>
        cases h
        rw [longRun_callers_self]
        exact Nat.two_pos
    next => cases h
  | notify g =>
    simp only [LongRunSys.act] at h
    split at h
    next hpc =>
      obtain rfl := hzero (by rw [hpc]; simp)
      cases h
      refine .inl ⟨rfl, ?_⟩
      rw [hpc, longRun_callers_self]
      exact Nat.one_pos
    next => cases h
  | pop =>
    simp only [LongRunSys.act] at h
    split at h
    next =>
      split at h
      next => cases h
      next =>
        cases h
        exact .inr ⟨rfl, rfl⟩
      next =>
        cases h
        exact .inr ⟨rfl, rfl⟩
    next => cases h
  | shutdown => exact absurd rfl hshut
  | park | handled | quit =>
    simp only [LongRunSys.act] at h
    split at h
    next =>
      cases h
      exact .inr ⟨rfl, rfl⟩
    next => cases h

/-! ## Closing the sockets -/

section Phases

variable {t : ShutdownSys} {c : Goroutine} {g : Nat}

/-- `shutdownCh` is closed, or goroutine `g` is on the way there. -/
def Begun (g : Nat) (s : ShutdownSys) : Prop :=
  s.lr.shutdown = true ∨ (s.callers g).InProgress

/-- `shutdownCh` is closed, or goroutine `g` has closed the sockets. -/
def Closed (g : Nat) (s : ShutdownSys) : Prop :=
  s.lr.shutdown = true ∨ s.callers g = .waiting ∨ s.callers g = .announcing

/-- Closed sockets stay closed. -/
theorem shut_effect (h : Shut s) (he : Effect s c t) : Shut t := by
  obtain ⟨ht, hle⟩ := h
  cases he with
  | listener c hc tcp udp receiver hbusy htcp hudp hrecv =>
    refine ⟨ht, ?_⟩
    unfold sockets at hle ⊢
    dsimp only
    omega
  | stopped g hg ht' => exact ⟨rfl, hle⟩
  | closed g hg hlt => exact ⟨ht, Nat.le_succ_of_le hle⟩
  | _ => exact ⟨ht, hle⟩

/-- A closed channel stays closed. -/
theorem announced_effect (h : s.lr.shutdown = true) (he : Effect s c t) :
    t.lr.shutdown = true := by
  cases he with
  | work c hc lr receiver hlr hidle hrecv => exact hlr.trans h
  | announced g hg => rfl
  | _ => exact h

/-- Listeners that have returned do not come back. -/
theorem listenersDone_effect (h : s.listenersDone = true) (he : Effect s c t) :
    t.listenersDone = true := by
  cases he with
  | listener c hc tcp udp receiver hbusy htcp hudp hrecv =>
    exact absurd (hbusy.symm.trans h) Bool.false_ne_true
  | _ => exact h

/-- A step of goroutine `g` in the middle of a `Shutdown`. -/
inductive Stride (g : Nat) (s t : ShutdownSys) : Prop where
  | stop (h : s.callers g = .stopping) (ht : t.callers g = .closing) (hc : t.closed = s.closed)
  | close (h : s.callers g = .closing) (ht : t.callers g = .closing)
    (hlt : s.closed < s.sockets) (hc : t.closed = s.closed + 1)
  | closeAll (h : s.callers g = .closing) (ht : t.callers g = .waiting)
  | wait (h : s.callers g = .waiting) (ht : t.callers g = .announcing)
  | announce (h : s.callers g = .announcing) (ht : t.lr.shutdown = true)
    (hb : t.callers g = .returned)

/-- While goroutine `g` is in the middle of a `Shutdown`, it is its turn, or nothing that it
looks at changes. -/
theorem inProgress_effect (hinv : Inv s) (hg : (s.callers g).InProgress) (he : Effect s c t) :
    t.sockets = s.sockets ∧ (c = .shutdown g ∧ Stride g s t ∨
      c ≠ .shutdown g ∧ t.callers g = s.callers g ∧ t.closed = s.closed) := by
  -- nobody else is in the middle of one
  have hturn : ∀ {g'}, (s.callers g').InProgress → g' = g := by
    intro g' hg'
    by_contra hne
    exact hinv.not_inProgress hg hne hg'
  have hother : ∀ {g'}, ¬(s.callers g').InProgress → g ≠ g' := by
    rintro g' hg' rfl
    exact hg' hg
  have hin : ∀ {g' : Nat} {pc : ShutdownPc}, s.callers g' = pc → pc.InProgress →
      (s.callers g').InProgress := fun h hpc => h ▸ hpc
  have hout : ∀ {g' : Nat} {pc : ShutdownPc}, s.callers g' = pc → ¬pc.InProgress →
      ¬(s.callers g').InProgress := fun h hpc => h ▸ hpc
  have hne : ∀ {c : Goroutine}, c.isCaller = false → c ≠ .shutdown g := by
    rintro c hc rfl
    cases hc
  cases he with
  | same i hbusy => exact ⟨rfl, .inr ⟨hne rfl, rfl, rfl⟩⟩
  | listener c hc tcp udp receiver hbusy htcp hudp hrecv =>
    refine ⟨?_, .inr ⟨hne hc, rfl, rfl⟩⟩
    unfold sockets
    dsimp only
    omega
  | work c hc lr receiver hlr hidle hrecv =>
    exact ⟨rfl, .inr ⟨hne (work_not_caller hc), rfl, rfl⟩⟩
  | receiverQuits hsel hl => exact ⟨rfl, .inr ⟨by simp, rfl, rfl⟩⟩
  | connReceiverQuits hsel hl => exact ⟨rfl, .inr ⟨by simp, rfl, rfl⟩⟩
  | called g' hg' => exact ⟨rfl, .inr ⟨by simp, callers_ne (hother (hout hg' id)), rfl⟩⟩
  | late g' hg' hfree hdone =>
    have hne := hother (hout hg' id)
    exact ⟨rfl, .inr ⟨by simpa using hne.symm, callers_ne hne, rfl⟩⟩
  | locked g' hg' hfree hfirst =>
    rw [(hinv.holder g).mp hg] at hfree
    cases hfree
  | skipped g' hg' ht =>
    have hplaced := hinv.placed g'
    rw [hg'] at hplaced
    exact absurd (hplaced.symm.trans ht) Bool.false_ne_true
  | stopped g' hg' ht =>
    obtain rfl := hturn (hin hg' trivial)
    exact ⟨rfl, .inl ⟨rfl, .stop hg' (callers_self ..) rfl⟩⟩
  | closed g' hg' hlt =>
    obtain rfl := hturn (hin hg' trivial)
    exact ⟨rfl, .inl ⟨rfl, .close hg' hg' hlt rfl⟩⟩
  | closedAll g' hg' hge =>
    obtain rfl := hturn (hin hg' trivial)
    exact ⟨rfl, .inl ⟨rfl, .closeAll hg' (callers_self ..)⟩⟩
  | waited g' hg' hdone =>
    obtain rfl := hturn (hin hg' trivial)
    exact ⟨rfl, .inl ⟨rfl, .wait hg' (callers_self ..)⟩⟩
  | announced g' hg' =>
    obtain rfl := hturn (hin hg' trivial)
    exact ⟨rfl, .inl ⟨rfl, .announce hg' rfl (callers_self ..)⟩⟩

/-- Whoever has begun to shut down is the one until it has returned. -/
theorem begun_effect (hinv : Inv s) (h : Begun g s) (he : Effect s c t) : Begun g t := by
  rcases h with h | h
  · exact .inl (announced_effect h he)
  · obtain ⟨-, ⟨-, hstride⟩ | ⟨-, hsame, -⟩⟩ := inProgress_effect hinv h he
    · cases hstride with
      | stop _ ht _ | close _ ht _ _ | closeAll _ ht | wait _ ht => exact .inr (ht ▸ trivial)
      | announce _ ht _ => exact .inl ht
    · exact .inr (hsame ▸ h)

/-- Once the sockets are closed it is waiting or further. -/
theorem closed_effect (hinv : Inv s) (h : Closed g s) (he : Effect s c t) : Closed g t := by
  rcases h with h | h
  · exact .inl (announced_effect h he)
  · have hin : (s.callers g).InProgress := by
      rcases h with h | h <;> rw [h] <;> exact trivial
    obtain ⟨-, ⟨-, hstride⟩ | ⟨-, hsame, -⟩⟩ := inProgress_effect hinv hin he
    · cases hstride with
      | stop hs _ _ | close hs _ _ _ | closeAll hs _ =>
        rw [hs] at h
        simp at h
      | wait _ ht => exact .inr (.inr ht)
      | announce _ ht _ => exact .inl ht
    · rw [← hsame] at h
      exact .inr h

/-- How many steps goroutine `g` has to take to close the sockets. -/
def toClose (g : Nat) (s : ShutdownSys) : Nat :=
  match s.callers g with
  | .stopping => s.sockets - s.closed + 2
  | .closing => s.sockets - s.closed + 1
  | _ => 0

/-- As long as there is something to close, the call is at it. -/
theorem inProgress_of_toClose (h : 0 < toClose g s) :
    s.callers g = .stopping ∨ s.callers g = .closing := by
  unfold toClose at h
  split at h
  next hs => exact .inl hs
  next hs => exact .inr hs
  next => cases h

/-- How many steps goroutine `g` has to take when the listeners have returned. -/
def toAnnounce (g : Nat) (s : ShutdownSys) : Nat :=
  match s.callers g with
  | .waiting => 2
  | .announcing => 1
  | _ => 0

variable {e : Execution act} {n : Nat}

/-- The invariant, at every moment of an execution. -/
theorem exec_inv (h : Inv (e.state 0)) (k : Nat) : Inv (e.state k) :=
  e.stable act_inv h k (Nat.zero_le k)

/-- Goroutine `g` gets to close all the sockets. -/
theorem eventually_closed (hinv : ∀ k, Inv (e.state k))
    (hfair : e.Fair ShutdownAct.goroutine (.shutdown g)) (h : Begun g (e.state n)) :
    ∃ k, n ≤ k ∧ Closed g (e.state k) := by
  have hI : ∀ k, n ≤ k → Inv (e.state k) ∧ Begun g (e.state k) :=
    e.stable (P := fun s => Inv s ∧ Begun g s)
      (fun a s t hs hact => ⟨act_inv a s t hs.1 hact, begun_effect hs.1 hs.2 (act_effect hact)⟩)
      ⟨hinv n, h⟩
  -- as long as there are sockets left `g` can close the next
  have henabled : ∀ s, Inv s ∧ Begun g s → 0 < toClose g s →
      Enabled act ShutdownAct.goroutine (.shutdown g) s := by
    intro s _ hpos
    rcases inProgress_of_toClose hpos with hpc | hpc
    · refine ⟨.stop g, rfl, ?_⟩
      simp only [act, if_pos hpc]
      split <;> rfl
    · refine ⟨.close g, rfl, ?_⟩
      simp only [act, if_pos hpc]
      split <;> rfl
  -- only `g` itself moves, and then there is one less
  have hstep : ∀ a s t, Inv s ∧ Begun g s → 0 < toClose g s → act a s = some t →
      toClose g t < toClose g s ∨ a.goroutine ≠ .shutdown g ∧ toClose g t = toClose g s ∧
        Goroutine.shutdown g = .shutdown g := by
    intro a s t hs hpos hact
    have hin : (s.callers g).InProgress := by
      rcases inProgress_of_toClose hpos with hpc | hpc <;> rw [hpc] <;> exact trivial
    obtain ⟨hsock, ⟨-, hstride⟩ | ⟨hother, hsame, hclosed⟩⟩ :=
      inProgress_effect hs.1 hin (act_effect hact)
    · refine .inl ?_
      unfold toClose
      cases hstride with
      | stop hs' ht hc => rw [hs', ht, hsock, hc]; dsimp only; omega
      | close hs' ht hlt hc => rw [hs', ht, hsock, hc]; dsimp only; omega
      | closeAll hs' ht => rw [hs', ht]; dsimp only; omega
      | wait hs' _ | announce hs' _ _ =>
        rcases inProgress_of_toClose hpos with hpc | hpc <;> rw [hpc] at hs' <;> cases hs'
    · refine .inr ⟨hother, ?_, rfl⟩
      unfold toClose
      rw [hsame, hsock, hclosed]
  obtain ⟨k, hk, hzero⟩ := e.eventually_zero (toClose g) (fun _ => Goroutine.shutdown g)
    (fun _ _ _ => hfair) henabled hstep hI
  refine ⟨k, hk, ?_⟩
  rcases (hI k hk).2 with hl | hin
  · exact .inl hl
  · unfold toClose at hzero
    unfold Closed
    cases hpc : (e.state k).callers g <;> rw [hpc] at hzero hin <;>
      simp_all [ShutdownPc.InProgress]

/-- As long as the channel is to be closed, the call waits or is about to close it. -/
theorem waiting_of_toAnnounce (h : 0 < toAnnounce g s) :
    s.callers g = .waiting ∨ s.callers g = .announcing := by
  unfold toAnnounce at h
  split at h
  next hs => exact .inl hs
  next hs => exact .inr hs
  next => cases h

/-- When the listeners have returned, goroutine `g` gets to close `shutdownCh`. -/
theorem eventually_announces (hinv : ∀ k, Inv (e.state k))
    (hfair : e.Fair ShutdownAct.goroutine (.shutdown g)) (h : Closed g (e.state n))
    (hdone : (e.state n).listenersDone = true) : ∃ k, n ≤ k ∧ (e.state k).lr.shutdown = true := by
  have hI : ∀ k, n ≤ k →
      Inv (e.state k) ∧ Closed g (e.state k) ∧ (e.state k).listenersDone = true :=
    e.stable (P := fun s => Inv s ∧ Closed g s ∧ s.listenersDone = true)
      (fun a s t hs hact => ⟨act_inv a s t hs.1 hact, closed_effect hs.1 hs.2.1 (act_effect hact),
        listenersDone_effect hs.2.2 (act_effect hact)⟩) ⟨hinv n, h, hdone⟩
  -- the last two steps of `Shutdown`, and `g` can take each of them
  have henabled : ∀ s, Inv s ∧ Closed g s ∧ s.listenersDone = true → 0 < toAnnounce g s →
      Enabled act ShutdownAct.goroutine (.shutdown g) s := by
    intro s hs hpos
    rcases waiting_of_toAnnounce hpos with hpc | hpc
    · refine ⟨.wait g, rfl, ?_⟩
      simp only [act, if_pos (And.intro hpc hs.2.2)]
      rfl
    · refine ⟨.announce g, rfl, ?_⟩
      simp only [act, if_pos hpc]
      rfl
  -- what `g` does is one of them, and nobody else takes it back
  have hstep : ∀ a s t, Inv s ∧ Closed g s ∧ s.listenersDone = true → 0 < toAnnounce g s →
      act a s = some t → toAnnounce g t < toAnnounce g s ∨ a.goroutine ≠ .shutdown g ∧
        toAnnounce g t = toAnnounce g s ∧ Goroutine.shutdown g = .shutdown g := by
    intro a s t hs hpos hact
    have hin : (s.callers g).InProgress := by
      rcases waiting_of_toAnnounce hpos with hpc | hpc <;> rw [hpc] <;> exact trivial
    obtain ⟨-, ⟨-, hstride⟩ | ⟨hother, hsame, -⟩⟩ := inProgress_effect hs.1 hin (act_effect hact)
    · refine .inl ?_
      unfold toAnnounce
      cases hstride with
      | wait hs' ht => rw [hs', ht]; decide
      | announce hs' _ hb => rw [hs', hb]; decide
      | stop hs' _ _ | close hs' _ _ _ | closeAll hs' _ =>
        rcases waiting_of_toAnnounce hpos with hpc | hpc <;> rw [hpc] at hs' <;> cases hs'
    · refine .inr ⟨hother, ?_, rfl⟩
      unfold toAnnounce
      rw [hsame]
  obtain ⟨k, hk, hzero⟩ := e.eventually_zero (toAnnounce g) (fun _ => Goroutine.shutdown g)
    (fun _ _ _ => hfair) henabled hstep hI
  refine ⟨k, hk, ?_⟩
  rcases (hI k hk).2.1 with hl | hpc | hpc
  · exact hl
  · unfold toAnnounce at hzero
    rw [hpc] at hzero
    cases hzero
  · unfold toAnnounce at hzero
    rw [hpc] at hzero
    cases hzero

/-! ## The listeners return -/

/-- What the listeners and `receivePacket` have to do before the listeners have returned. -/
def load (s : ShutdownSys) : Nat :=
  (s.udp.map UdpPc.weight).sum + (s.tcp.map TcpPc.weight).sum + s.receiver.weight +
    (s.lr.callers 0).weight

/-- Who is to move. -/
def helper (s : ShutdownSys) : Goroutine :=
  match s.receiver with
  | .handling _ => .receivePacket
  | _ =>
    match s.udp.findIdx? (· ≠ .returned) with
    | some i => if s.udp[i]? = some .reading then .udpListen i else .receivePacket
    | none =>
      match s.tcp.findIdx? (· ≠ .returned) with
      | some i => if s.tcp[i]? = some .sending then .receiveTcpConn else .tcpListen i
      | none => .user

/-- With nothing left to do, the listeners have returned. -/
theorem listenersDone_of_load (h : load s = 0) : s.listenersDone = true := by
  unfold load at h
  have hudp : ∀ pc ∈ s.udp, pc = .returned := by
    intro pc hpc
    have hle := List.le_sum_of_mem (List.mem_map_of_mem (f := UdpPc.weight) hpc)
    cases pc with
    | returned => rfl
    | reading => simp only [UdpPc.weight] at hle; omega
    | sending packet => simp only [UdpPc.weight] at hle; omega
  have htcp : ∀ pc ∈ s.tcp, pc = .returned := by
    intro pc hpc
    have hle := List.le_sum_of_mem (List.mem_map_of_mem (f := TcpPc.weight) hpc)
    cases pc with
    | returned => rfl
    | accepting => simp only [TcpPc.weight] at hle; omega
    | sleeping => simp only [TcpPc.weight] at hle; omega
    | sending => simp only [TcpPc.weight] at hle; omega
  unfold listenersDone
  simp only [Bool.and_eq_true, List.all_eq_true, decide_eq_true_eq]
  exact ⟨htcp, hudp⟩

theorem not_handling_of_load (h : load s = 0) (rest : List LongRunMsg) :
    s.receiver ≠ .handling rest := by
  intro hr
  unfold load at h
  rw [hr] at h
  simp only [ReceiverPc.weight] at h
  omega

/-- What concerns neither listeners nor `receivePacket` leaves the work as it is. -/
theorem SameWork.load (h : SameWork s t) : t.load = s.load := by
  obtain ⟨hu, ht, hr, hc⟩ := h
  unfold ShutdownSys.load
  rw [hu, ht, hr, hc]

/-- It also leaves whose turn it is. -/
theorem SameWork.helper (h : SameWork s t) : t.helper = s.helper := by
  obtain ⟨hu, ht, hr, -⟩ := h
  unfold ShutdownSys.helper
  rw [hu, ht, hr]

/-- A `udpListen` that moves on has less to do. -/
theorem load_udp {i : Nat} {pc : UdpPc} (pc' : UdpPc) {udp : List UdpPc}
    (h : udp[i]? = some pc) (hlt : pc'.weight < pc.weight) :
    ((udp.set i pc').map UdpPc.weight).sum < (udp.map UdpPc.weight).sum := by
  have := sum_map_set (w := UdpPc.weight) pc' h
  omega

/-- So has a `tcpListen`. -/
theorem load_tcp {i : Nat} {pc : TcpPc} (pc' : TcpPc) {tcp : List TcpPc}
    (h : tcp[i]? = some pc) (hlt : pc'.weight < pc.weight) :
    ((tcp.set i pc').map TcpPc.weight).sum < (tcp.map TcpPc.weight).sum := by
  have := sum_map_set (w := TcpPc.weight) pc' h
  omega

/-- Why it is whose turn. -/
inductive HelperCase (s : ShutdownSys) : Goroutine → Prop where
  | handling (rest : List LongRunMsg) (h : s.receiver = .handling rest) :
    HelperCase s .receivePacket
  | packet (i : Nat) (packet : List LongRunMsg) (hr : ∀ rest, s.receiver ≠ .handling rest)
    (h : s.udp[i]? = some (.sending packet)) : HelperCase s .receivePacket
  | reading (i : Nat) (h : s.udp[i]? = some .reading) : HelperCase s (.udpListen i)
  | conn (i : Nat) (h : s.tcp[i]? = some .sending) : HelperCase s .receiveTcpConn
  | accepting (i : Nat) (h : s.tcp[i]? = some .accepting) : HelperCase s (.tcpListen i)
  | sleeping (i : Nat) (h : s.tcp[i]? = some .sleeping) : HelperCase s (.tcpListen i)
  | done (hr : ∀ rest, s.receiver ≠ .handling rest) (h : s.listenersDone = true) :
    HelperCase s .user

theorem findIdx?_getElem? {α : Type} {p : α → Bool} {l : List α} {i : Nat}
    (h : l.findIdx? p = some i) : ∃ x, l[i]? = some x ∧ p x = true := by
  obtain ⟨hi, hp, -⟩ := List.findIdx?_eq_some_iff_getElem.mp h
  exact ⟨l[i], List.getElem?_eq_getElem hi, hp⟩

/-- Whoever's turn it is has something to do. -/
theorem helper_case (s : ShutdownSys) : HelperCase s s.helper := by
  unfold helper
  split
  next rest hr => exact .handling rest hr
  next hr =>
    split
    next i hi =>
      obtain ⟨pc, hpc, hne⟩ := findIdx?_getElem? hi
      split
      next hreading => exact .reading i hreading
      next hnot =>
        cases pc with
        | reading => exact absurd hpc hnot
        | sending packet => exact .packet i packet hr hpc
        | returned => simp at hne
    next hudp =>
      split
      next i hi =>
        obtain ⟨pc, hpc, hne⟩ := findIdx?_getElem? hi
        split
        next hsending => exact .conn i hsending
        next hnot =>
          cases pc with
          | sending => exact absurd hpc hnot
          | accepting => exact .accepting i hpc
          | sleeping => exact .sleeping i hpc
          | returned => simp at hne
      next htcp =>
        refine .done hr ?_
        have hu := List.findIdx?_eq_none_iff.mp hudp
        have ht := List.findIdx?_eq_none_iff.mp htcp
        unfold listenersDone
        simp only [Bool.and_eq_true, List.all_eq_true, decide_eq_true_eq]
        exact ⟨fun pc hpc => by simpa using ht pc hpc, fun pc hpc => by simpa using hu pc hpc⟩

/-- When the listeners have returned, what is left is the packet that is being handled. -/
theorem handling_of_load (hinv : Inv s) (hpos : 0 < s.load) (hdone : s.listenersDone = true) :
    ∃ rest, s.receiver = .handling rest := by
  by_contra hnot
  have hidle : s.lr.callers 0 = .idle := by
    by_contra hbusy
    exact hnot (hinv.calls hbusy)
  have hrecv : s.receiver.weight = 0 := by
    cases hr : s.receiver with
    | handling rest => exact absurd ⟨rest, hr⟩ hnot
    | _ => rfl
  unfold listenersDone at hdone
  simp only [Bool.and_eq_true, List.all_eq_true, decide_eq_true_eq] at hdone
  have htcp : (s.tcp.map TcpPc.weight).sum = 0 := List.sum_eq_zero fun n hn => by
    obtain ⟨pc, hpc, rfl⟩ := List.mem_map.mp hn
    rw [hdone.1 pc hpc]
    rfl
  have hudp : (s.udp.map UdpPc.weight).sum = 0 := List.sum_eq_zero fun n hn => by
    obtain ⟨pc, hpc, rfl⟩ := List.mem_map.mp hn
    rw [hdone.2 pc hpc]
    rfl
  unfold load at hpos
  rw [hidle, hrecv, htcp, hudp] at hpos
  cases hpos

/-- As long as there is something to do, it is the turn of a listener or a receiver. -/
theorem helper_ne (hinv : Inv s) (hpos : 0 < s.load) :
    s.helper.isCaller = false ∧ s.helper ≠ .runLongRunMsgHandler := by
  have hcase := helper_case s
  generalize s.helper = c at hcase
  cases hcase with
  | done hr hdone =>
    obtain ⟨rest, hrest⟩ := handling_of_load hinv hpos hdone
    exact absurd hrest (hr rest)
  | _ => exact ⟨rfl, by simp⟩

/-- **After the sockets have been closed** every step of the listeners and of `receivePacket`
is one less to do, and the steps of the others are no concern of theirs. -/
theorem load_step (hinv : Inv s) (hshut : Shut s) (hpos : 0 < s.load) (hact : act a s = some t) :
    t.load < s.load ∨ a.goroutine ≠ s.helper ∧ SameWork s t := by
  obtain ⟨hstop, hclosed⟩ := hshut
  obtain ⟨hncaller, hnlr⟩ := helper_ne hinv hpos
  by_cases hcaller : a.goroutine.isCaller = true
  · refine .inr ⟨fun heq => ?_, sameWork_effect hcaller (act_effect hact)⟩
    rw [heq, hncaller] at hcaller
    cases hcaller
  cases a with
  | read i packet =>
    simp only [act] at hact
    split at hact
    next hr =>
      have hi := (List.getElem?_eq_some_iff.mp hr.1).1
      have hnot := hr.2
      unfold udpClosed at hnot
      unfold sockets at hclosed
      simp only [decide_eq_false_iff_not] at hnot
      omega
    next => cases hact
  | readFails i =>
    simp only [act] at hact
    split at hact
    next hr =>
      rw [if_pos (.inl hstop)] at hact
      cases hact
      have hlt := load_udp .returned hr (by decide)
      unfold load
      dsimp only
      exact .inl (by omega)
    next => cases hact
  | packet i =>
    simp only [act] at hact
    split at hact
    next packet hu hr =>
      cases hact
      have hset := sum_map_set (w := UdpPc.weight) .reading hu
      refine .inl ?_
      unfold load
      dsimp only
      rw [hr]
      simp only [UdpPc.weight, ReceiverPc.weight] at hset ⊢
      omega
    next => cases hact
  | queue =>
    simp only [act] at hact
    split at hact
    next m rest hr =>
      obtain ⟨lr, hlr, rfl⟩ := Option.map_eq_some_iff.mp hact
      obtain ⟨hidle, rfl⟩ := longRun_call hlr
      refine .inl ?_
      unfold load
      dsimp only
      rw [hr, hidle, longRun_callers_self]
      simp only [ReceiverPc.weight, CallerPc.weight, List.length_cons]
      omega
    next => cases hact
  | longRun b =>
    simp only [act] at hact
    split at hact
    next => cases hact
    next => cases hact
    next hcall hshut =>
      obtain ⟨lr, hlr, rfl⟩ := Option.map_eq_some_iff.mp hact
      rcases longRun_moves hinv.only hcall hshut hlr with ⟨hb, hlt⟩ | ⟨hb, hsame⟩
      · refine .inl ?_
        unfold load
        dsimp only
        omega
      · exact .inr ⟨by rw [hb]; exact hnlr.symm, rfl, rfl, rfl, hsame⟩
  | handled =>
    simp only [act] at hact
    split at hact
    next hr =>
      cases hact
      refine .inl ?_
      unfold load
      dsimp only
      rw [hr.1]
      simp only [ReceiverPc.weight]
      omega
    next => cases hact
  | receiverQuits =>
    simp only [act] at hact
    split at hact
    next hr =>
      -- then the listeners have returned, and no packet is left
      obtain ⟨rest, hrest⟩ := handling_of_load hinv hpos (hinv.announced hr.2).2.2
      rw [hr.1] at hrest
      cases hrest
    next => cases hact
  | accept i =>
    simp only [act] at hact
    split at hact
    next hr =>
      have hi := (List.getElem?_eq_some_iff.mp hr.1).1
      have hnot := hr.2
      unfold tcpClosed at hnot
      unfold sockets at hclosed
      simp only [decide_eq_false_iff_not] at hnot
      omega
    next => cases hact
  | acceptFails i =>
    simp only [act] at hact
    split at hact
    next hr =>
      cases hact
      have hlt := load_tcp .returned hr (by decide)
      refine .inl ?_
      unfold load
      dsimp only
      omega
    next => cases hact
  | wake i =>
    simp only [act] at hact
    split at hact
    next hr =>
      cases hact
      have hlt := load_tcp .accepting hr (by decide)
      refine .inl ?_
      unfold load
      dsimp only
      omega
    next => cases hact
  | conn i =>
    simp only [act] at hact
    split at hact
    next hr =>
      cases hact
      have hlt := load_tcp .accepting hr.1 (by decide)
      refine .inl ?_
      unfold load
      dsimp only
      omega
    next => cases hact
  | connReceiverQuits =>
    simp only [act] at hact
    split at hact
    next hr =>
      cases hact
      refine .inr ⟨fun heq => ?_, rfl, rfl, rfl, rfl⟩
      -- a listener that hands over a connection has not returned
      have hcase := helper_case s
      rw [← heq] at hcase
      cases hcase with
      | conn i hi =>
        have hbusy := not_listenersDone_tcp hi (by decide)
        exact Bool.false_ne_true (hbusy.symm.trans (hinv.announced hr.2).2.2)
    next => cases hact
  | call g | lock g | stop g | close g | wait g | announce g => exact absurd rfl hcaller

/-- Nobody waits for somebody who does not come: who has something to hand over has a receiver, and
`receivePacket` does not find the mutex of the queue locked. -/
structure Served (s : ShutdownSys) : Prop where
  packet : ∀ (i : Nat) packet, s.udp[i]? = some (.sending packet) → s.receiver ≠ .returned
  conn : ∀ i : Nat, s.tcp[i]? = some .sending → s.connReceiver ≠ .returned
  free : ∀ rest, s.receiver = .handling rest → s.lr.mng.locked = false

/-- The receivers are there as long as a listener is. -/
theorem served_of_attended (hinv : Inv s) (hatt : Attended s) (hfree : s.lr.mng.locked = false) :
    Served s where
  packet i packet hi hr :=
    Bool.false_ne_true ((not_listenersDone_udp hi (by simp)).symm.trans
      (hinv.announced (hatt.receiver hr)).2.2)
  conn i hi hc :=
    Bool.false_ne_true ((not_listenersDone_tcp hi (by decide)).symm.trans
      (hinv.announced (hatt.connReceiver hc)).2.2)
  free _ _ := hfree

/-- Then whoever's turn it is can move. -/
theorem helper_enabled (hinv : Inv s) (hserved : Served s) (hpos : 0 < s.load) :
    Enabled act ShutdownAct.goroutine s.helper s := by
  have hcase := helper_case s
  generalize s.helper = c at hcase
  cases hcase with
  | handling rest hr =>
    cases hc : s.lr.callers 0 with
    | idle =>
      cases rest with
      | nil =>
        refine ⟨.handled, rfl, ?_⟩
        simp only [act, if_pos (And.intro hr hc)]
        rfl
      | cons m rest =>
        refine ⟨.queue, rfl, ?_⟩
        simp only [act, hr, LongRunSys.act, hc]
        rfl
    | locking m =>
      refine ⟨.longRun (.push 0), rfl, ?_⟩
      -- this is where a mutex that is never given up would be waited for
      obtain ⟨r, hres⟩ := Option.isSome_iff_exists.mp
        (queueLongRunMsg_isSome m (hserved.free rest hr))
      obtain ⟨res, mng⟩ := r
      simp only [act, LongRunSys.act, hc, hres]
      cases res <;> rfl
    | notifying =>
      refine ⟨.longRun (.notify 0), rfl, ?_⟩
      simp only [act, LongRunSys.act, hc]
      rfl
  | packet i packet hr hi =>
    -- with somebody there to receive
    have hsel : s.receiver = .selecting := by
      cases hrecv : s.receiver with
      | selecting => rfl
      | handling rest => exact absurd hrecv (hr rest)
      | returned => exact absurd hrecv (hserved.packet i packet hi)
    refine ⟨.packet i, rfl, ?_⟩
    simp only [act, hi, hsel]
    rfl
  | reading i hi =>
    refine ⟨.readFails i, rfl, ?_⟩
    simp only [act, if_pos hi]
    split <;> rfl
  | conn i hi =>
    have hsel : s.connReceiver = .selecting := by
      cases hrecv : s.connReceiver with
      | selecting => rfl
      | returned => exact absurd hrecv (hserved.conn i hi)
    refine ⟨.conn i, rfl, ?_⟩
    simp only [act, if_pos (And.intro hi hsel)]
    rfl
  | accepting i hi =>
    refine ⟨.acceptFails i, rfl, ?_⟩
    simp only [act, if_pos hi]
    rfl
  | sleeping i hi =>
    refine ⟨.wake i, rfl, ?_⟩
    simp only [act, if_pos hi]
    rfl
  | done hr hdone =>
    obtain ⟨rest, hrest⟩ := handling_of_load hinv hpos hdone
    exact absurd hrest (hr rest)

section Fair

variable (hinv : ∀ k, Inv (e.state k)) (hserved : ∀ k, Served (e.state k))
  (hfair : ∀ c, c ≠ .user → e.Fair ShutdownAct.goroutine c)

include hinv hserved hfair

/-- When the sockets are closed, the listeners get done with what they have. -/
theorem eventually_unloaded (h : Shut (e.state n)) : ∃ k, n ≤ k ∧ (e.state k).load = 0 := by
  have hshut : ∀ k, n ≤ k → Shut (e.state k) :=
    e.stable (fun a s t hs hact => shut_effect hs (act_effect hact)) h
  have hI : ∀ k, n ≤ k → Inv (e.state k) ∧ Shut (e.state k) ∧ Served (e.state k) :=
    fun k hk => ⟨hinv k, hshut k hk, hserved k⟩
  refine e.eventually_zero (I := fun s => Inv s ∧ Shut s ∧ Served s) load helper
    (fun s hs hpos => hfair _ ?_) (fun s hs hpos => helper_enabled hs.1 hs.2.2 hpos)
    (fun a s t hs hpos hact => ?_) hI
  · intro huser
    have hnot := (helper_ne hs.1 hpos).1
    rw [huser] at hnot
    cases hnot
  · rcases load_step hs.1 hs.2.1 hpos hact with hlt | ⟨hne, hsame⟩
    · exact .inl hlt
    · exact .inr ⟨hne, hsame.load, hsame.helper⟩

/-- A `Shutdown` that has begun gets to close `shutdownCh`. -/
theorem eventually_announced (h : Begun g (e.state n)) :
    ∃ k, n ≤ k ∧ (e.state k).lr.shutdown = true := by
  have hg := hfair (.shutdown g) (by simp)
  obtain ⟨k, hk, hclosed⟩ := eventually_closed hinv hg h
  have hplaced := (hinv k).placed g
  rcases hclosed with hl | hpc | hpc
  · exact ⟨k, hk, hl⟩
  · rw [hpc] at hplaced
    obtain ⟨j, hj, hload⟩ := eventually_unloaded hinv hserved hfair hplaced
    have hstill : Closed g (e.state j) := by
      have hall := e.stable (P := fun s => Inv s ∧ Closed g s) (n := k)
        (fun a s t hs hact => ⟨act_inv a s t hs.1 hact, closed_effect hs.1 hs.2 (act_effect hact)⟩)
        ⟨hinv k, .inr (.inl hpc)⟩
      exact (hall j hj).2
    obtain ⟨i, hi, hl⟩ := eventually_announces hinv hg hstill (listenersDone_of_load hload)
    exact ⟨i, Nat.le_trans hk (Nat.le_trans hj hi), hl⟩
  · rw [hpc] at hplaced
    obtain ⟨j, hj, hl⟩ := eventually_announces hinv hg (.inr (.inr hpc)) hplaced.2
    exact ⟨j, Nat.le_trans hk hj, hl⟩

end Fair

/-! ## The calls return -/

/-- Where goroutine `g` is in `Shutdown` is changed by its own steps, or by its call. -/
theorem callers_effect (g : Nat) (he : Effect s c t) : t.callers g = s.callers g ∨
    s.callers g = .idle ∧ t.callers g = .locking ∨
    c = .shutdown g ∧ s.callers g ≠ .idle ∧ s.callers g ≠ .returned ∧ t.callers g ≠ .idle := by
  have hmove : ∀ {g' : Nat} {pc pc' : ShutdownPc} {s' : ShutdownSys}, s'.callers = s.callers →
      s.callers g' = pc' → pc' ≠ .idle ∧ pc' ≠ .returned ∧ pc ≠ .idle →
      (s'.setCaller g' pc).callers g = s.callers g ∨
        s.callers g = .idle ∧ (s'.setCaller g' pc).callers g = .locking ∨
        Goroutine.shutdown g' = .shutdown g ∧ s.callers g ≠ .idle ∧ s.callers g ≠ .returned ∧
          (s'.setCaller g' pc).callers g ≠ .idle := by
    intro g' pc pc' s' hs' hg' hpc
    by_cases hgg : g = g'
    · subst hgg
      rw [callers_self, hg']
      exact .inr (.inr ⟨rfl, hpc⟩)
    · rw [callers_ne hgg, hs']
      exact .inl rfl
  cases he with
  | called g' hg' =>
    by_cases hgg : g = g'
    · subst hgg
      exact .inr (.inl ⟨hg', callers_self ..⟩)
    · exact .inl (callers_ne hgg)
  | late g' hg' _ _ | locked g' hg' _ _ | skipped g' hg' _ | stopped g' hg' _ | closedAll g' hg' _
  | waited g' hg' _ | announced g' hg' => exact hmove rfl hg' (by simp)
  | _ => exact .inl rfl

/-- Whoever has called `Shutdown` is in it, or back from it. -/
theorem called_effect (h : s.callers g ≠ .idle) (he : Effect s c t) : t.callers g ≠ .idle := by
  rcases callers_effect g he with hsame | ⟨hidle, -⟩ | ⟨-, -, -, ht⟩
  · rw [hsame]
    exact h
  · exact absurd hidle h
  · exact ht

/-- Who has returned has returned. -/
theorem returned_effect (h : s.callers g = .returned) (he : Effect s c t) :
    t.callers g = .returned := by
  rcases callers_effect g he with hsame | ⟨hidle, -⟩ | ⟨-, -, hs, -⟩
  · exact hsame.trans h
  · rw [h] at hidle
    cases hidle
  · exact absurd h hs

/-- Before anybody has begun, whoever has called `Shutdown` can begin. -/
theorem locking_of_not_begun (hinv : Inv s) (h : s.callers g ≠ .idle) (hnot : s.shutdown = false) :
    s.callers g = .locking ∧ s.shutdownL = none := by
  have hnone : s.shutdownL = none := by
    by_contra hheld
    rw [hinv.begun.mpr (.inr (Option.isSome_iff_ne_none.mpr hheld))] at hnot
    cases hnot
  have hout : ¬(s.callers g).InProgress := fun hin => by
    rw [(hinv.holder g).mp hin] at hnone
    cases hnone
  refine ⟨?_, hnone⟩
  cases hpc : s.callers g with
  | idle => exact absurd hpc h
  | locking => rfl
  | returned =>
    rw [hinv.begun.mpr (.inl (hinv.back g hpc))] at hnot
    cases hnot
  | _ =>
    rw [hpc] at hout
    exact absurd trivial hout

/-- Once `shutdownCh` is closed, they find that it has been done. -/
theorem locking_of_announced (hinv : Inv s) (h : s.callers g ≠ .idle) (hl : s.lr.shutdown = true) :
    s.callers g = .locking ∨ s.callers g = .returned := by
  have hnone := (hinv.announced hl).1
  have hout : ¬(s.callers g).InProgress := fun hin => by
    rw [(hinv.holder g).mp hin] at hnone
    cases hnone
  cases hpc : s.callers g with
  | idle => exact absurd hpc h
  | locking => exact .inl rfl
  | returned => exact .inr rfl
  | _ =>
    rw [hpc] at hout
    exact absurd trivial hout

/-- Who is waiting for `shutdownL` and moves has got it, and finds out whether somebody else has
shut down. -/
theorem locking_effect (hpc : s.callers g = .locking) (he : Effect s (.shutdown g) t) :
    t.shutdown = true ∧ (s.shutdown = true → t.callers g = .returned) := by
  have hnot : ∀ {pc : ShutdownPc}, s.callers g = pc → pc = .locking := fun h => h.symm.trans hpc
  cases he with
  | listener c hc tcp udp receiver hbusy htcp hudp hrecv => cases hc
  | work c hc lr receiver hlr hidle hrecv => cases work_not_caller hc
  | late g' hg' hfree hdone => exact ⟨hdone, fun _ => callers_self ..⟩
  | locked g' hg' hfree hfirst =>
    exact ⟨rfl, fun hs => absurd (hfirst.symm.trans hs) Bool.false_ne_true⟩
  | skipped g' hg' _ | stopped g' hg' _ | closed g' hg' _ | closedAll g' hg' _ | waited g' hg' _
  | announced g' hg' => cases hnot hg'

/-- A free lock can be taken. -/
theorem lock_enabled (hpc : s.callers g = .locking) (hfree : s.shutdownL = none) :
    Enabled act ShutdownAct.goroutine (.shutdown g) s := by
  refine ⟨.lock g, rfl, ?_⟩
  simp only [act, if_pos (And.intro hpc hfree)]
  split <;> rfl

/-- A call that has been made stays made. -/
theorem eventually_in (h : (e.state n).callers g ≠ .idle) :
    ∀ k, n ≤ k → (e.state k).callers g ≠ .idle :=
  e.stable (P := fun s => s.callers g ≠ .idle)
    (fun _ _ _ hs hact => called_effect hs (act_effect hact)) h

/-- Somebody begins. -/
theorem eventually_begun (hinv : ∀ k, Inv (e.state k))
    (hfair : e.Fair ShutdownAct.goroutine (.shutdown g)) (h : (e.state n).callers g ≠ .idle) :
    ∃ k, n ≤ k ∧ (e.state k).shutdown = true := by
  refine e.ensures (I := fun s => Inv s ∧ s.callers g ≠ .idle) (Q := fun s => s.shutdown = true)
    hfair (fun s hs hnot => ?_) (fun a s t hs hnot hact hgor => ?_)
    fun k hk => ⟨hinv k, eventually_in h k hk⟩
  · obtain ⟨hpc, hfree⟩ := locking_of_not_begun hs.1 hs.2 (Bool.eq_false_iff.mpr hnot)
    exact lock_enabled hpc hfree
  · obtain ⟨hpc, -⟩ := locking_of_not_begun hs.1 hs.2 (Bool.eq_false_iff.mpr hnot)
    exact (locking_effect hpc (hgor ▸ act_effect hact)).1

/-- When `shutdownCh` is closed, everybody gets back. -/
theorem eventually_returned (hinv : ∀ k, Inv (e.state k))
    (hfair : e.Fair ShutdownAct.goroutine (.shutdown g)) (h : (e.state n).callers g ≠ .idle)
    (hl : ∀ k, n ≤ k → (e.state k).lr.shutdown = true) :
    ∃ k, n ≤ k ∧ (e.state k).callers g = .returned := by
  have hlocking : ∀ s : ShutdownSys, Inv s ∧ s.callers g ≠ .idle ∧ s.lr.shutdown = true →
      s.callers g ≠ .returned → s.callers g = .locking := fun s hs hnot =>
    (locking_of_announced hs.1 hs.2.1 hs.2.2).resolve_right hnot
  refine e.ensures (I := fun s => Inv s ∧ s.callers g ≠ .idle ∧ s.lr.shutdown = true)
    (Q := fun s => s.callers g = .returned) hfair
    (fun s hs hnot => ?_) (fun a s t hs hnot hact hgor => ?_)
    fun k hk => ⟨hinv k, eventually_in h k hk, hl k hk⟩
  · exact lock_enabled (hlocking s hs hnot) (hs.1.announced hs.2.2).1
  · have hbegun := hs.1.begun.mpr (.inl hs.2.2)
    exact (locking_effect (hlocking s hs hnot) (hgor ▸ act_effect hact)).2 hbegun

/-- Whoever has the mutex gets to close `shutdownCh`, and it stays closed. -/
theorem eventually_shutdown (hinv : ∀ k, Inv (e.state k)) (hserved : ∀ k, Served (e.state k))
    (hfair : ∀ c, c ≠ .user → e.Fair ShutdownAct.goroutine c)
    (h : (e.state n).callers g ≠ .idle) :
    ∃ k, n ≤ k ∧ ∀ j, k ≤ j → (e.state j).lr.shutdown = true := by
  obtain ⟨k, hk, hl⟩ : ∃ k, n ≤ k ∧ (e.state k).lr.shutdown = true := by
    obtain ⟨k, hk, hbegun⟩ := eventually_begun hinv (hfair (.shutdown g) (by simp)) h
    rcases (hinv k).begun.mp hbegun with hl | hheld
    · exact ⟨k, hk, hl⟩
    · obtain ⟨g', hg'⟩ := Option.isSome_iff_exists.mp hheld
      have hin := ((hinv k).holder g').mpr hg'
      obtain ⟨j, hj, hl⟩ := eventually_announced hinv hserved hfair (.inr hin)
      exact ⟨j, Nat.le_trans hk hj, hl⟩
  exact ⟨k, hk, e.stable (P := fun s => s.lr.shutdown = true)
    (fun a s t hs hact => announced_effect hs (act_effect hact)) hl⟩

/-! ## The receivers return -/

/-- After `shutdownCh` has been closed `receivePacket` does not get another packet. -/
theorem selecting_effect (hinv : Inv s) (hl : s.lr.shutdown = true)
    (hr : ∀ rest, s.receiver ≠ .handling rest) (he : Effect s c t) :
    (∀ rest, t.receiver ≠ .handling rest) ∧
      (c = .receivePacket → s.receiver = .selecting → t.receiver = .returned) := by
  have hidle : ∀ g, s.lr.callers g = .idle := by
    intro g
    by_contra hbusy
    by_cases hg : g = 0
    · subst hg
      obtain ⟨rest, hrest⟩ := hinv.calls hbusy
      exact hr rest hrest
    · exact hbusy (hinv.only g hg)
  cases he with
  | listener c hc tcp udp receiver hbusy htcp hudp hrecv =>
    exact absurd (hbusy.symm.trans (hinv.announced hl).2.2) Bool.false_ne_true
  | work c hc lr receiver hlr hidle' hrecv =>
    constructor
    · rcases hrecv with ⟨heq, -⟩ | ⟨⟨rest, hrest⟩, -⟩
      · rw [heq]
        exact hr
      · exact absurd hrest (hr rest)
    · rintro rfl -
      rcases hc with hc | ⟨-, ⟨g, hg⟩ | ⟨rest, hrest⟩⟩
      · cases hc
      · exact absurd (hidle g) hg
      · exact absurd hrest (hr rest)
  | receiverQuits hsel hl' => exact ⟨by simp, fun _ _ => rfl⟩
  | _ => exact ⟨hr, by simp⟩

/-- `receivePacket` returns when it is done with the packet it has. -/
theorem eventually_receiver (hinv : ∀ k, Inv (e.state k))
    (hfair : e.Fair ShutdownAct.goroutine .receivePacket)
    (hl : ∀ k, n ≤ k → (e.state k).lr.shutdown = true)
    (h : ∀ rest, (e.state n).receiver ≠ .handling rest) :
    ∃ k, n ≤ k ∧ (e.state k).receiver = .returned := by
  have hselecting : ∀ s : ShutdownSys, (∀ rest, s.receiver ≠ .handling rest) →
      s.receiver ≠ .returned → s.receiver = .selecting := by
    intro s hr hnot
    cases hs : s.receiver with
    | selecting => rfl
    | handling rest => exact absurd hs (hr rest)
    | returned => exact absurd hs hnot
  have hI : ∀ k, n ≤ k → Inv (e.state k) ∧ (e.state k).lr.shutdown = true ∧
      ∀ rest, (e.state k).receiver ≠ .handling rest :=
    e.stable (P := fun s => Inv s ∧ s.lr.shutdown = true ∧ ∀ rest, s.receiver ≠ .handling rest)
      (fun a s t hs hact => ⟨act_inv a s t hs.1 hact, announced_effect hs.2.1 (act_effect hact),
        (selecting_effect hs.1 hs.2.1 hs.2.2 (act_effect hact)).1⟩)
      ⟨hinv n, hl n (Nat.le_refl n), h⟩
  refine e.ensures
    (I := fun s => Inv s ∧ s.lr.shutdown = true ∧ ∀ rest, s.receiver ≠ .handling rest)
    (Q := fun s => s.receiver = .returned) hfair
    (fun s hs hnot => ?_) (fun a s t hs hnot hact hgor => ?_) hI
  · refine ⟨.receiverQuits, rfl, ?_⟩
    simp only [act, if_pos (And.intro (hselecting s hs.2.2 hnot) hs.2.1)]
    rfl
  · exact (selecting_effect hs.1 hs.2.1 hs.2.2 (act_effect hact)).2 hgor
      (hselecting s hs.2.2 hnot)

/-- With the channel closed, the next thing `receiveTcpConn` does is to return. -/
theorem connReceiver_effect (hinv : Inv s) (hl : s.lr.shutdown = true)
    (he : Effect s .receiveTcpConn t) : t.connReceiver = .returned := by
  cases he with
  | listener c hc tcp udp receiver hbusy htcp hudp hrecv =>
    exact absurd (hbusy.symm.trans (hinv.announced hl).2.2) Bool.false_ne_true
  | work c hc lr receiver hlr hidle hrecv => rcases hc with hc | ⟨hc, -⟩ <;> cases hc
  | connReceiverQuits hsel hl' => rfl

/-- So it returns. -/
theorem eventually_connReceiver (hinv : ∀ k, Inv (e.state k))
    (hfair : e.Fair ShutdownAct.goroutine .receiveTcpConn)
    (hl : ∀ k, n ≤ k → (e.state k).lr.shutdown = true) :
    ∃ k, n ≤ k ∧ (e.state k).connReceiver = .returned := by
  refine e.ensures (I := fun s => Inv s ∧ s.lr.shutdown = true)
    (Q := fun s => s.connReceiver = .returned) hfair (fun s hs hnot => ?_)
    (fun a s t hs _ hact hgor => connReceiver_effect hs.1 hs.2 (hgor ▸ act_effect hact))
    fun k hk => ⟨hinv k, hl k hk⟩
  have hselecting : s.connReceiver = .selecting := by
    cases hc : s.connReceiver with
    | selecting => rfl
    | returned => exact absurd hc hnot
  refine ⟨.connReceiverQuits, rfl, ?_⟩
  simp only [act, if_pos (And.intro hselecting hs.2)]
  rfl

theorem receiverReturned_effect (h : s.receiver = .returned) (he : Effect s c t) :
    t.receiver = .returned := by
  cases he with
  | listener c hc tcp udp receiver hbusy htcp hudp hrecv =>
    rcases hrecv with heq | ⟨hsel, -⟩
    · exact heq.trans h
    · rw [h] at hsel
      cases hsel
  | work c hc lr receiver hlr hidle hrecv =>
    rcases hrecv with ⟨heq, -⟩ | ⟨⟨rest, hrest⟩, -⟩
    · exact heq.trans h
    · rw [h] at hrest
      cases hrest
  | receiverQuits hsel hl => rfl
  | _ => exact h

theorem connReceiverReturned_effect (h : s.connReceiver = .returned) (he : Effect s c t) :
    t.connReceiver = .returned := by
  cases he with
  | connReceiverQuits hsel hl => rfl
  | _ => exact h

/-! ## Everything ends -/

/-- Goroutine `g` is back from `Shutdown`, and the goroutines of the transport and of the member
have returned. -/
structure Ended (g : Nat) (s : ShutdownSys) : Prop where
  caller : s.callers g = .returned
  listeners : s.listenersDone = true
  receiver : s.receiver = .returned
  connReceiver : s.connReceiver = .returned

end Phases

/-- **A shutdown comes to an end.** Every call of `Shutdown` returns, whoever else makes one and
whatever arrives meanwhile, and the listeners and the receivers return for good, in every
execution that is fair to each goroutine; if the mutex of the message queue is not left locked. -/
theorem shutdown_returns {e : Execution act} {n g : Nat} (hreach : Reachable (e.state 0))
    (hfair : ∀ c, c ≠ .user → e.Fair ShutdownAct.goroutine c)
    (hfree : ∀ k, (e.state k).lr.mng.locked = false) (hcall : (e.state n).callers g ≠ .idle) :
    ∃ k, n ≤ k ∧ ∀ j, k ≤ j → Ended g (e.state j) := by
  have hinv := exec_inv (reachable_inv hreach)
  have hatt : ∀ k, Attended (e.state k) := fun k =>
    e.stable act_attended (reachable_attended hreach) k (Nat.zero_le k)
  have hserved : ∀ k, Served (e.state k) := fun k => served_of_attended (hinv k) (hatt k) (hfree k)
  obtain ⟨k₁, hk₁, hl⟩ := eventually_shutdown hinv hserved hfair hcall
  obtain ⟨-, hshut, -⟩ := (hinv k₁).announced (hl k₁ (Nat.le_refl k₁))
  -- the calls, `receivePacket` and `receiveTcpConn` return, each in its own time
  obtain ⟨k₂, hk₂, hback⟩ :=
    eventually_returned hinv (hfair (.shutdown g) (by simp)) (eventually_in hcall k₁ hk₁) hl
  obtain ⟨i, hi, hload⟩ := eventually_unloaded hinv hserved hfair hshut
  obtain ⟨k₃, hk₃, hreceiver⟩ := eventually_receiver hinv (hfair _ (by simp))
    (fun k hk => hl k (Nat.le_trans hi hk)) (not_handling_of_load hload)
  obtain ⟨k₄, hk₄, hconn⟩ := eventually_connReceiver hinv (hfair _ (by simp)) hl
  refine ⟨max k₂ (max k₃ k₄), by omega, fun j hj => ⟨?_, ?_, ?_, ?_⟩⟩
  · exact e.stable (P := fun s => s.callers g = .returned)
      (fun a s t hs hact => returned_effect hs (act_effect hact)) hback j (by omega)
  · exact ((hinv j).announced (hl j (by omega))).2.2
  · exact e.stable (P := fun s => s.receiver = .returned)
      (fun a s t hs hact => receiverReturned_effect hs (act_effect hact)) hreceiver j (by omega)
  · exact e.stable (P := fun s => s.connReceiver = .returned)
      (fun a s t hs hact => connReceiverReturned_effect hs (act_effect hact)) hconn j (by omega)

/-! A shutdown while a packet is waiting for its receiver, after which nothing is left to do. -/

/-- The goroutines have returned, the one that handles long-running messages included. -/
structure Over (s : ShutdownSys) : Prop where
  callers : ∀ g, s.callers g = .idle ∨ s.callers g = .returned
  listeners : s.listenersDone = true
  receiver : s.receiver = .returned
  connReceiver : s.connReceiver = .returned
  calls : ∀ g, s.lr.callers g = .idle
  handler : s.lr.handler = .returned

/-- When all is over, nobody but a user can do anything. -/
theorem not_enabled_of_over (h : Over s) {c : Goroutine} (hc : c ≠ .user) :
    ¬Enabled act ShutdownAct.goroutine c s := by
  have hdone : s.listenersDone ≠ false := fun hbusy =>
    Bool.false_ne_true (hbusy.symm.trans h.listeners)
  have hcaller : ∀ {g : Nat} {pc : ShutdownPc}, s.callers g = pc → pc = .idle ∨ pc = .returned :=
    fun hg => hg ▸ h.callers _
  rintro ⟨a, rfl, hsome⟩
  obtain ⟨t, ht⟩ := Option.isSome_iff_exists.mp hsome
  by_cases hgor : a.goroutine = .runLongRunMsgHandler
  · cases a with
    | longRun b => cases b <;> simp [act, LongRunSys.act, h.calls, h.handler] at ht
    | _ => cases hgor
  have he := act_effect ht
  generalize a.goroutine = c at he hc hgor
  cases he with
  | same i hbusy => exact hdone hbusy
  | listener c hc tcp udp receiver hbusy htcp hudp hrecv => exact hdone hbusy
  | work c hwho lr receiver hlr hidle hrecv =>
    rcases hwho with hwho | ⟨-, ⟨g, hg⟩ | ⟨rest, hrest⟩⟩
    · exact hgor hwho
    · exact hg (h.calls g)
    · rw [h.receiver] at hrest
      cases hrest
  | receiverQuits hsel hl =>
    rw [h.receiver] at hsel
    cases hsel
  | connReceiverQuits hsel hl =>
    rw [h.connReceiver] at hsel
    cases hsel
  | called g hg => exact hc rfl
  | late g hg _ _ | locked g hg _ _ | skipped g hg _ | stopped g hg _ | closed g hg _
  | closedAll g hg _ | waited g hg _ | announced g hg =>
    rcases hcaller hg with hpc | hpc <;> cases hpc

namespace Concrete

/-- One address. A packet is waiting when `Shutdown` is called. -/
def closing : List ShutdownAct :=
  [.read 0 [news], .call 0, .lock 0, .stop 0, .close 0, .close 0, .close 0, .acceptFails 0,
    .packet 0, .queue, .readFails 0, .wait 0, .announce 0, .longRun (.push 0), .longRun (.notify 0),
    .handled, .receiverQuits, .connReceiverQuits, .longRun .park, .longRun .quit]

/-- Where that run ends. -/
def closed : ShutdownSys := (run act closing (newShutdownSys 4 1)).getD (newShutdownSys 4 1)

theorem closing_run : run act closing (newShutdownSys 4 1) = some closed := rfl

theorem closed_over : Over closed where
  callers g := by
    cases g with
    | zero => exact .inr rfl
    | succ g => exact .inl rfl
  listeners := rfl
  receiver := rfl
  connReceiver := rfl
  calls g := by
    cases g with
    | zero => rfl
    | succ g => rfl
  handler := rfl

end Concrete

/-- The call made at the second moment ends while the packet is still being handled. -/
theorem shutdown_returns_closing :
    ∃ k, 2 ≤ k ∧ ∀ j, k ≤ j → Ended 0 ((Execution.ofRun Concrete.closing_run).state j) := by
  refine shutdown_returns ?_ (fun c hc => ?_) (fun k => ?_) ?_
  · exact ⟨4, 1, [], rfl⟩
  · exact Execution.ofRun_fair _ (not_enabled_of_over Concrete.closed_over hc)
  · refine Execution.ofRun_along (P := fun s : ShutdownSys => s.lr.mng.locked = false) _ ?_ k
    decide
  · show ShutdownPc.locking ≠ .idle
    decide

/-! ## A member that has not started -/

/-- No listener has anything to hand over. -/
def EmptyHanded (s : ShutdownSys) : Prop :=
  (∀ (i : Nat) packet, s.udp[i]? ≠ some (.sending packet)) ∧
    ∀ i : Nat, s.tcp[i]? ≠ some .sending

/-- The invariant also holds where `Build` gives up. -/
theorem inv_failedStart (qDepth : Int) (n : Nat) : Inv (failedStart qDepth n) := by
  constructor <;>
    simp [failedStart, newShutdownSys, newLongRunSys, ShutdownPc.InProgress, Placed]

/-- **What a failed `Build` depends on.** It calls `Shutdown` before anybody receives. In every
execution that is fair to each goroutine that call returns exactly if up to the end nothing has
arrived: no packet on any UDP connection and no TCP connection on any listener. -/
theorem failedStart_returns_iff {e : Execution act} {qDepth : Int} {nAddrs n g : Nat}
    (hstart : e.state 0 = failedStart qDepth nAddrs)
    (hfair : ∀ c, c ≠ .user → e.Fair ShutdownAct.goroutine c)
    (hcall : (e.state n).callers g ≠ .idle) :
    (∃ k, (e.state k).callers g = .returned) ↔ ∀ k, EmptyHanded (e.state k) := by
  have hinv : ∀ k, Inv (e.state k) := exec_inv (hstart ▸ inv_failedStart qDepth nAddrs)
  have hreceiver : ∀ k, (e.state k).receiver = .returned := fun k =>
    e.stable (P := fun s => s.receiver = .returned) (n := 0)
      (fun a s t hs hact => receiverReturned_effect hs (act_effect hact))
      (by rw [hstart]; rfl) k (Nat.zero_le k)
  have hconn : ∀ k, (e.state k).connReceiver = .returned := fun k =>
    e.stable (P := fun s => s.connReceiver = .returned) (n := 0)
      (fun a s t hs hact => connReceiverReturned_effect hs (act_effect hact))
      (by rw [hstart]; rfl) k (Nat.zero_le k)
  constructor
  · rintro ⟨k, hback⟩ j
    have hdone : (e.state (max j k)).listenersDone = true :=
      e.stable (P := fun s => s.listenersDone = true)
        (fun a s t hs hact => listenersDone_effect hs (act_effect hact))
        ((hinv k).announced ((hinv k).back g hback)).2.2 _ (Nat.le_max_right ..)
    -- what a listener has got, it still has when the call has returned
    constructor
    · intro i packet hi
      have hstill := e.stable
        (P := fun s => s.receiver = .returned ∧ s.udp[i]? = some (.sending packet))
        (fun a s t hs hact => ⟨receiverReturned_effect hs.1 (act_effect hact),
          act_sending (by rw [hs.1]; simp) hs.2 hact⟩) ⟨hreceiver j, hi⟩ _ (Nat.le_max_left j k)
      exact Bool.false_ne_true ((not_listenersDone_udp hstill.2 (by simp)).symm.trans hdone)
    · intro i hi
      have hstill := e.stable
        (P := fun s => s.connReceiver = .returned ∧ s.tcp[i]? = some .sending)
        (fun a s t hs hact => ⟨connReceiverReturned_effect hs.1 (act_effect hact),
          act_sendingConn (by rw [hs.1]; simp) hs.2 hact⟩) ⟨hconn j, hi⟩ _ (Nat.le_max_left j k)
      exact Bool.false_ne_true ((not_listenersDone_tcp hstill.2 (by decide)).symm.trans hdone)
  · intro hempty
    have hserved : ∀ k, Served (e.state k) := fun k =>
      { packet := fun i packet hi => absurd hi ((hempty k).1 i packet)
        conn := fun i hi => absurd hi ((hempty k).2 i)
        free := fun rest hr => by rw [hreceiver k] at hr; cases hr }
    obtain ⟨k, hk, hl⟩ := eventually_shutdown hinv hserved hfair hcall
    obtain ⟨j, -, hback⟩ :=
      eventually_returned hinv (hfair (.shutdown g) (by simp)) (eventually_in hcall k hk) hl
    exact ⟨j, hback⟩

namespace Concrete

/-- Nothing arrives. -/
def quiet : List ShutdownAct :=
  [.call 0, .lock 0, .stop 0, .close 0, .readFails 0, .close 0, .close 0, .acceptFails 0, .wait 0,
    .announce 0]

/-- Where that run ends. -/
def gaveUp : ShutdownSys := (run act quiet (failedStart 4 1)).getD (failedStart 4 1)

theorem quiet_run : run act quiet (failedStart 4 1) = some gaveUp := rfl

theorem gaveUp_over : Over gaveUp where
  callers g := by
    cases g with
    | zero => exact .inr rfl
    | succ g => exact .inl rfl
  listeners := rfl
  receiver := rfl
  connReceiver := rfl
  calls _ := rfl
  handler := rfl

end Concrete

theorem failedStart_returns_iff_quiet :
    ((Execution.ofRun Concrete.quiet_run).state 10).callers 0 = .returned ∧
      ∀ k, EmptyHanded ((Execution.ofRun Concrete.quiet_run).state k) := by
  refine ⟨rfl, (failedStart_returns_iff (n := 1) (g := 0) rfl (fun c hc => ?_) ?_).mp ⟨10, rfl⟩⟩
  · exact Execution.ofRun_fair _ (not_enabled_of_over Concrete.gaveUp_over hc)
  · show ShutdownPc.locking ≠ .idle
    decide

end ShutdownSys

end Mlist
