import Mlist.Model.Shutdown

/-!
# The order of a shutdown

`Shutdown` has to wait for listeners that may be waiting for a receiver, and receivers return
when `shutdownCh` is closed. The source closes it last, "so PacketCh is not blocked". `Effect` is
what a step can do and `Inv` what comes of that order: the channel is closed after all the
listeners have returned, and no receiver returns before (`shutdown_order`).

There is one thing it does not help against. When the queue of long-running messages overflows,
`queueLongRunMsg` leaves its mutex locked. `receivePacket` is going to wait for it, a listener for
`receivePacket`, and `Shutdown` for the listener (`shutdown_hangs`).
-/

namespace Mlist

open Mlist.Lib

/-- The goroutine holds `shutdownL`. -/
def ShutdownPc.InProgress : ShutdownPc → Prop
  | .stopping => True
  | .closing => True
  | .waiting => True
  | .announcing => True
  | _ => False

/-- The goroutine is one that shuts down, or is about to. -/
def Goroutine.isCaller : Goroutine → Bool
  | .shutdown _ => true
  | .user => true
  | _ => false

namespace ShutdownSys

variable {s s' : ShutdownSys} {a : ShutdownAct}

/-! ## What a step can do -/

/-- What comes of a step of goroutine `c`. -/
inductive Effect (s : ShutdownSys) : Goroutine → ShutdownSys → Prop where
  /-- a listener is about to read again -/
  | same (i : Nat) (hbusy : s.listenersDone = false) : Effect s (.udpListen i) s
  /-- a listener moves, alone or to hand something over -/
  | listener (c : Goroutine) (hc : c.isCaller = false) (tcp : List TcpPc) (udp : List UdpPc)
    (receiver : ReceiverPc) (hbusy : s.listenersDone = false)
    (htcp : tcp.length = s.tcp.length) (hudp : udp.length = s.udp.length)
    (hrecv : receiver = s.receiver ∨
      s.receiver = .selecting ∧ ∃ packet, receiver = .handling packet) :
    Effect s c { s with tcp, udp, receiver }
  /-- a message is queued or handled -/
  | work (c : Goroutine) (hc : c = .runLongRunMsgHandler ∨ c = .receivePacket ∧
      ((∃ g, s.lr.callers g ≠ .idle) ∨ ∃ rest, s.receiver = .handling rest))
    (lr : LongRunSys) (receiver : ReceiverPc) (hlr : lr.shutdown = s.lr.shutdown)
    (hidle : ∀ g, g ≠ 0 → s.lr.callers g = .idle → lr.callers g = .idle)
    (hrecv : receiver = s.receiver ∧ (s.lr.callers 0 = .idle → lr.callers 0 = .idle) ∨
      (∃ rest, s.receiver = .handling rest) ∧ ((∃ rest, receiver = .handling rest) ∨
        receiver = .selecting ∧ lr.callers 0 = .idle)) :
    Effect s c { s with lr, receiver }
  | receiverQuits (hsel : s.receiver = .selecting) (h : s.lr.shutdown = true) :
    Effect s .receivePacket { s with receiver := .returned }
  | connReceiverQuits (hsel : s.connReceiver = .selecting) (h : s.lr.shutdown = true) :
    Effect s .receiveTcpConn { s with connReceiver := .returned }
  | called (g : Nat) (h : s.callers g = .idle) : Effect s .user (s.setCaller g .locking)
  /-- somebody else has shut down -/
  | late (g : Nat) (h : s.callers g = .locking) (hfree : s.shutdownL = none)
    (hdone : s.shutdown = true) : Effect s (.shutdown g) (s.setCaller g .returned)
  | locked (g : Nat) (h : s.callers g = .locking) (hfree : s.shutdownL = none)
    (hfirst : s.shutdown = false) :
    Effect s (.shutdown g) (setCaller g .stopping { s with shutdownL := some g, shutdown := true })
  | skipped (g : Nat) (h : s.callers g = .stopping) (ht : s.transportShutdown = true) :
    Effect s (.shutdown g) (s.setCaller g .announcing)
  | stopped (g : Nat) (h : s.callers g = .stopping) (ht : s.transportShutdown = false) :
    Effect s (.shutdown g) (setCaller g .closing { s with transportShutdown := true })
  | closed (g : Nat) (h : s.callers g = .closing) (hlt : s.closed < s.sockets) :
    Effect s (.shutdown g) { s with closed := s.closed + 1 }
  | closedAll (g : Nat) (h : s.callers g = .closing) (hge : s.sockets ≤ s.closed) :
    Effect s (.shutdown g) (s.setCaller g .waiting)
  | waited (g : Nat) (h : s.callers g = .waiting) (hdone : s.listenersDone = true) :
    Effect s (.shutdown g) (s.setCaller g .announcing)
  | announced (g : Nat) (h : s.callers g = .announcing) :
    Effect s (.shutdown g) (setCaller g .returned
      { s with lr := { s.lr with shutdown := true }, shutdownL := none })

theorem work_not_caller {c : Goroutine} {p : Prop}
    (h : c = .runLongRunMsgHandler ∨ c = .receivePacket ∧ p) : c.isCaller = false := by
  rcases h with rfl | ⟨rfl, -⟩ <;> rfl

/-- As long as a `udpListen` has not returned, the counter is not zero. -/
theorem not_listenersDone_udp {i : Nat} {pc : UdpPc} (h : s.udp[i]? = some pc)
    (hpc : pc ≠ .returned) : s.listenersDone = false := by
  have hmem := List.mem_of_getElem? h
  have hall : s.udp.all (· = .returned) = false := by
    rw [List.all_eq_false]
    exact ⟨pc, hmem, by simpa using hpc⟩
  unfold listenersDone
  rw [hall, Bool.and_false]

/-- Nor is it as long as a `tcpListen` has not. -/
theorem not_listenersDone_tcp {i : Nat} {pc : TcpPc} (h : s.tcp[i]? = some pc)
    (hpc : pc ≠ .returned) : s.listenersDone = false := by
  have hmem := List.mem_of_getElem? h
  have hall : s.tcp.all (· = .returned) = false := by
    rw [List.all_eq_false]
    exact ⟨pc, hmem, by simpa using hpc⟩
  unfold listenersDone
  rw [hall, Bool.false_and]

/-- What a step of the queue and its handler leaves alone: whether the channel is closed, and
who has made no call. -/
theorem longRun_frame {b : LongRunAct} {lr lr' : LongRunSys} (hcall : ∀ g m, b ≠ .call g m)
    (hshut : b ≠ .shutdown) (h : lr.act b = some lr') :
    lr'.shutdown = lr.shutdown ∧ ∀ g, lr.callers g = .idle → lr'.callers g = .idle := by
  have hset : ∀ {g : Nat} {pc : CallerPc} {lr : LongRunSys}, lr.callers g ≠ .idle →
      ∀ g', lr.callers g' = .idle → (lr.setCaller g pc).callers g' = .idle := by
    intro g pc lr hg g' hg'
    have hne : g' ≠ g := by
      rintro rfl
      exact hg hg'
    exact (Function.update_of_ne hne ..).trans hg'
  cases b with
  | call g m => exact absurd rfl (hcall g m)
  | push g =>
    simp only [LongRunSys.act] at h
    split at h
    next m hpc =>
      split at h
      next => cases h
      next =>
        cases h
        exact ⟨rfl, hset (by rw [hpc]; simp)⟩
      next =>
        cases h
        exact ⟨rfl, hset (by rw [hpc]; simp)⟩
    next => cases h
  | notify g =>
    simp only [LongRunSys.act] at h
    split at h
    next hpc =>
      cases h
      have hsend : lr.send.callers = lr.callers ∧ lr.send.shutdown = lr.shutdown := by
        unfold LongRunSys.send
        split <;> exact ⟨rfl, rfl⟩
      refine ⟨hsend.2, fun g' hg' => hset ?_ g' ?_⟩
      · rw [hsend.1, hpc]
        simp
      · rw [hsend.1]
        exact hg'
    next => cases h
  | pop =>
    simp only [LongRunSys.act] at h
    split at h
    next =>
      split at h
      next => cases h
      next =>
        cases h
        exact ⟨rfl, fun _ hg => hg⟩
      next =>
        cases h
        exact ⟨rfl, fun _ hg => hg⟩
    next => cases h
  | shutdown => exact absurd rfl hshut
  | park | handled | quit =>
    simp only [LongRunSys.act] at h
    split at h
    next =>
      cases h
      exact ⟨rfl, fun _ hg => hg⟩
    next => cases h

/-- A call is made by a goroutine that is not in one. -/
theorem longRun_call {g : Nat} {m : LongRunMsg} {lr lr' : LongRunSys}
    (h : lr.act (.call g m) = some lr') :
    lr.callers g = .idle ∧ lr' = lr.setCaller g (.locking m) := by
  simp only [LongRunSys.act] at h
  split at h
  next hpc => exact ⟨hpc, (Option.some.inj h).symm⟩
  next => cases h

/-- It is a goroutine in a call that moves, or the handler. -/
theorem longRun_who {b : LongRunAct} {lr lr' : LongRunSys} (hcall : ∀ g m, b ≠ .call g m)
    (h : lr.act b = some lr') :
    (ShutdownAct.longRun b).goroutine = .runLongRunMsgHandler ∨
      (ShutdownAct.longRun b).goroutine = .receivePacket ∧ ∃ g, lr.callers g ≠ .idle := by
  cases b with
  | call g m => exact absurd rfl (hcall g m)
  | push g =>
    simp only [LongRunSys.act] at h
    split at h
    next m hpc => exact .inr ⟨rfl, g, by rw [hpc]; simp⟩
    next => cases h
  | notify g =>
    simp only [LongRunSys.act] at h
    split at h
    next hpc => exact .inr ⟨rfl, g, by rw [hpc]; simp⟩
    next => cases h
  | _ => exact .inl rfl

/-- Every step has one of these effects. -/
theorem act_effect (h : act a s = some s') : Effect s a.goroutine s' := by
  cases a with
  | read i packet =>
    simp only [act] at h
    split at h
    next hr =>
      cases h
      exact .listener _ rfl s.tcp _ s.receiver (not_listenersDone_udp hr.1 (by decide)) rfl
        (List.length_set) (.inl rfl)
    next => cases h
  | readFails i =>
    simp only [act] at h
    split at h
    next hr =>
      split at h
      next =>
        cases h
        exact .listener _ rfl s.tcp _ s.receiver (not_listenersDone_udp hr (by decide)) rfl
          (List.length_set) (.inl rfl)
      next =>
        cases h
        -- an error on a socket that is still open: it reads again
        exact .same i (not_listenersDone_udp hr (by decide))
    next => cases h
  | packet i =>
    simp only [act] at h
    split at h
    next packet hu hr =>
      cases h
      exact .listener _ rfl s.tcp _ _ (not_listenersDone_udp hu (by simp)) rfl
        (List.length_set) (.inr ⟨hr, packet, rfl⟩)
    next => cases h
  | queue =>
    simp only [act] at h
    split at h
    next m rest hr =>
      obtain ⟨lr, hlr, rfl⟩ := Option.map_eq_some_iff.mp h
      obtain ⟨-, rfl⟩ := longRun_call hlr
      exact .work _ (.inr ⟨rfl, .inr ⟨_, hr⟩⟩) _ _ rfl
        (fun g hne hg => (Function.update_of_ne hne ..).trans hg)
        (.inr ⟨⟨_, hr⟩, .inl ⟨rest, rfl⟩⟩)
    next => cases h
  | longRun b =>
    simp only [act] at h
    split at h
    next => cases h
    next => cases h
    next hcall hshut =>
      obtain ⟨lr, hlr, rfl⟩ := Option.map_eq_some_iff.mp h
      obtain ⟨hsame, hidle⟩ := longRun_frame hcall (fun he => hshut he) hlr
      refine .work _ ?_ lr s.receiver hsame (fun g _ => hidle g) (.inl ⟨rfl, hidle 0⟩)
      exact (longRun_who hcall hlr).imp_right fun hwho => ⟨hwho.1, .inl hwho.2⟩
  | handled =>
    simp only [act] at h
    split at h
    next hr =>
      cases h
      -- the packet is done with only when the last of its calls has returned
      exact .work _ (.inr ⟨rfl, .inr ⟨_, hr.1⟩⟩) s.lr _ rfl (fun _ _ hg => hg)
        (.inr ⟨⟨_, hr.1⟩, .inr ⟨rfl, hr.2⟩⟩)
    next => cases h
  | receiverQuits =>
    simp only [act] at h
    split at h
    next hq =>
      cases h
      exact .receiverQuits hq.1 hq.2
    next => cases h
  | accept i =>
    simp only [act] at h
    split at h
    next hr =>
      cases h
      exact .listener _ rfl _ s.udp s.receiver (not_listenersDone_tcp hr.1 (by decide))
        (List.length_set) rfl (.inl rfl)
    next => cases h
  | acceptFails i =>
    simp only [act] at h
    split at h
    next hr =>
      cases h
      exact .listener _ rfl _ s.udp s.receiver (not_listenersDone_tcp hr (by decide))
        (List.length_set) rfl (.inl rfl)
    next => cases h
  | wake i =>
    simp only [act] at h
    split at h
    next hr =>
      cases h
      exact .listener _ rfl _ s.udp s.receiver (not_listenersDone_tcp hr (by decide))
        (List.length_set) rfl (.inl rfl)
    next => cases h
  | conn i =>
    simp only [act] at h
    split at h
    next hr =>
      cases h
      exact .listener _ rfl _ s.udp s.receiver (not_listenersDone_tcp hr.1 (by decide))
        (List.length_set) rfl (.inl rfl)
    next => cases h
  | connReceiverQuits =>
    simp only [act] at h
    split at h
    next hq =>
      cases h
      exact .connReceiverQuits hq.1 hq.2
    next => cases h
  | call g =>
    simp only [act] at h
    split at h
    next hg =>
      cases h
      exact .called g hg
    next => cases h
  | lock g =>
    simp only [act] at h
    split at h
    next hg =>
      split at h
      next hdone =>
        cases h
        -- somebody else has been here before
        exact .late g hg.1 hg.2 hdone
      next hfirst =>
        cases h
        exact .locked g hg.1 hg.2 (Bool.eq_false_iff.mpr hfirst)
    next => cases h
  | stop g =>
    simp only [act] at h
    split at h
    next hg =>
      split at h
      next ht =>
        cases h
        exact .skipped g hg ht
      next ht =>
        cases h
        exact .stopped g hg (Bool.eq_false_iff.mpr ht)
    next => cases h
  | close g =>
    simp only [act] at h
    split at h
    next hg =>
      split at h
      next hlt =>
        cases h
        exact .closed g hg hlt
      next hge =>
        cases h
        exact .closedAll g hg (Nat.not_lt.mp hge)
    next => cases h
  | wait g =>
    simp only [act] at h
    split at h
    next hg =>
      cases h
      exact .waited g hg.1 hg.2
    next => cases h
  | announce g =>
    simp only [act] at h
    split at h
    next hg =>
      obtain ⟨lr, hlr, rfl⟩ := Option.map_eq_some_iff.mp h
      cases hlr
      exact .announced g hg
    next => cases h

/-! ## The order of a shutdown -/

/-- All sockets are closed. -/
def Shut (s : ShutdownSys) : Prop := s.transportShutdown = true ∧ s.sockets ≤ s.closed

/-- What has been done by the one who is there. -/
def Placed (s : ShutdownSys) : ShutdownPc → Prop
  | .stopping => s.transportShutdown = false
  | .closing => s.transportShutdown = true
  | .waiting => s.Shut
  | .announcing => s.Shut ∧ s.listenersDone = true
  | _ => True

/-- What holds in every state. `shutdownL` is held by whoever is in the middle of a `Shutdown`,
and one of them has gone through with it once `shutdownCh` is closed. -/
structure Inv (s : ShutdownSys) : Prop where
  holder : ∀ g, (s.callers g).InProgress ↔ s.shutdownL = some g
  placed : ∀ g, s.Placed (s.callers g)
  begun : s.shutdown = true ↔ s.lr.shutdown = true ∨ s.shutdownL.isSome = true
  stopped : s.transportShutdown = true → s.shutdown = true
  announced : s.lr.shutdown = true → s.shutdownL = none ∧ s.Shut ∧ s.listenersDone = true
  back : ∀ g, s.callers g = .returned → s.lr.shutdown = true
  calls : s.lr.callers 0 ≠ .idle → ∃ rest, s.receiver = .handling rest
  only : ∀ g, g ≠ 0 → s.lr.callers g = .idle

/-- A member that has just started. -/
theorem inv_new (qDepth : Int) (n : Nat) : Inv (newShutdownSys qDepth n) := by
  constructor <;> simp [newShutdownSys, newLongRunSys, ShutdownPc.InProgress, Placed]

/-- Nothing is asked of who is not in the middle of shutting down. -/
theorem placed_of_not_inProgress {pc : ShutdownPc} (h : ¬pc.InProgress) : s.Placed pc := by
  cases pc <;> first | trivial | exact absurd trivial h

section Move

variable {g : Nat} {pc : ShutdownPc}

theorem callers_self (s : ShutdownSys) (g : Nat) (pc : ShutdownPc) :
    (s.setCaller g pc).callers g = pc := Function.update_self ..

theorem callers_ne {g' : Nat} (h : g' ≠ g) : (s.setCaller g pc).callers g' = s.callers g' :=
  Function.update_of_ne h ..

/-- A goroutine that holds `shutdownL` moves on, still holding it. -/
theorem holder_moves (h : Inv s) (hg : (s.callers g).InProgress) (hpc : pc.InProgress) (g' : Nat) :
    ((s.setCaller g pc).callers g').InProgress ↔ s.shutdownL = some g' := by
  by_cases hgg : g' = g
  · rw [hgg, callers_self]
    exact ⟨fun _ => (h.holder g).mp hg, fun _ => hpc⟩
  · rw [callers_ne hgg]
    exact h.holder g'

/-- A goroutine that does not hold it moves, and does not hold it afterwards. -/
theorem others_move (h : Inv s) (hg : ¬(s.callers g).InProgress) (hpc : ¬pc.InProgress)
    (g' : Nat) : ((s.setCaller g pc).callers g').InProgress ↔ s.shutdownL = some g' := by
  by_cases hgg : g' = g
  · rw [hgg, callers_self]
    exact ⟨fun h' => absurd h' hpc, fun h' => absurd ((h.holder g).mpr h') hg⟩
  · rw [callers_ne hgg]
    exact h.holder g'

/-- Nobody but the holder is in the middle of a `Shutdown`. -/
theorem Inv.not_inProgress (h : Inv s) (hg : (s.callers g).InProgress) {g' : Nat} (hne : g' ≠ g) :
    ¬(s.callers g').InProgress := by
  intro hg'
  have hsame := ((h.holder g').mp hg').symm.trans ((h.holder g).mp hg)
  exact hne (Option.some.inj hsame)

/-- Where only the holder has moved. -/
theorem placed_moves {t : ShutdownSys} (hothers : ∀ g', g' ≠ g → ¬(s.callers g').InProgress)
    (hpc : t.Placed pc) (g' : Nat) : t.Placed ((s.setCaller g pc).callers g') := by
  by_cases hgg : g' = g
  · rw [hgg, callers_self]
    exact hpc
  · rw [callers_ne hgg]
    exact placed_of_not_inProgress (hothers g' hgg)

end Move

/-- Who moves to a place other than the last one has not returned. -/
theorem back_moves {t : ShutdownSys} (h : ∀ g', s.callers g' = .returned → t.lr.shutdown = true)
    {g : Nat} {pc : ShutdownPc} (hpc : pc = .returned → t.lr.shutdown = true) (g' : Nat)
    (hg' : (s.setCaller g pc).callers g' = .returned) : t.lr.shutdown = true := by
  by_cases hgg : g' = g
  · rw [hgg, callers_self] at hg'
    exact hpc hg'
  · rw [callers_ne hgg] at hg'
    exact h g' hg'

/-- Every effect keeps the invariant. -/
theorem inv_effect {c : Goroutine} (h : Inv s) (he : Effect s c s') : Inv s' := by
  cases he with
  | same => exact h
  | listener c hc tcp udp receiver hbusy htcp hudp hrecv =>
    -- a listener has moved, so they are not all gone, and the channel is open
    have hnot : s.lr.shutdown = true → False := fun hl =>
      Bool.false_ne_true (hbusy.symm.trans (h.announced hl).2.2)
    refine ⟨h.holder, fun g => ?_, h.begun, h.stopped, fun hl => absurd hl hnot, h.back, ?_,
      h.only⟩
    · have hplaced := h.placed g
      show Placed { s with tcp, udp, receiver } (s.callers g)
      cases hg : s.callers g with
      | waiting =>
        rw [hg] at hplaced
        refine ⟨hplaced.1, ?_⟩
        have hle := hplaced.2
        unfold sockets at hle ⊢
        dsimp only
        omega
      | announcing =>
        rw [hg] at hplaced
        -- whoever announces has seen them all gone
        exact absurd (hbusy.symm.trans hplaced.2) Bool.false_ne_true
      | _ =>
        rw [hg] at hplaced
        exact hplaced
    · intro hcalls
      rcases hrecv with heq | ⟨-, packet, heq⟩
      · rw [heq]
        exact h.calls hcalls
      · exact ⟨packet, heq⟩
  | work c hc lr receiver hlr hidle' hrecv =>
    refine ⟨h.holder, h.placed, by rw [hlr]; exact h.begun, h.stopped,
      fun hl => h.announced (hlr ▸ hl), fun g hg => by rw [hlr]; exact h.back g hg, ?_,
      ?_⟩
    · intro hcalls
      rcases hrecv with ⟨heq, hidle⟩ | ⟨-, ⟨rest, heq⟩ | ⟨-, hidle⟩⟩
      · rw [heq]
        exact h.calls fun hi => hcalls (hidle hi)
      · exact ⟨rest, heq⟩
      · exact absurd hidle hcalls
    · exact fun g hne => hidle' g hne (h.only g hne)
  | receiverQuits hsel hl =>
    refine ⟨h.holder, h.placed, h.begun, h.stopped, h.announced, h.back, fun hcalls => ?_, h.only⟩
    obtain ⟨rest, hrest⟩ := h.calls hcalls
    rw [hsel] at hrest
    cases hrest
  | connReceiverQuits hsel hl =>
    exact ⟨h.holder, h.placed, h.begun, h.stopped, h.announced, h.back, h.calls, h.only⟩
  | called g hg =>
    have hnot : ¬(s.callers g).InProgress := by rw [hg]; exact id
    refine ⟨others_move h hnot id, fun g' => ?_, h.begun, h.stopped, h.announced,
      back_moves h.back (fun hpc => by cases hpc), h.calls, h.only⟩
    by_cases hgg : g' = g
    · rw [hgg, callers_self]
      exact trivial
    · rw [callers_ne hgg]
      exact h.placed g'
  | late g hg hfree hdone =>
    have hnot : ¬(s.callers g).InProgress := by rw [hg]; exact id
    -- it has begun and nobody is at it, so it is over
    have hannounced : s.lr.shutdown = true := by
      rcases h.begun.mp hdone with hl | hheld
      · exact hl
      · rw [hfree] at hheld
        cases hheld
    refine ⟨others_move h hnot id, fun g' => ?_, h.begun, h.stopped, h.announced,
      back_moves h.back (fun _ => hannounced), h.calls, h.only⟩
    by_cases hgg : g' = g
    · rw [hgg, callers_self]
      exact trivial
    · rw [callers_ne hgg]
      exact h.placed g'
  | locked g hg hfree hfirst =>
    -- the mutex is free, so nobody else is in progress
    have hnone : ∀ g', ¬(s.callers g').InProgress := by
      intro g' hg'
      rw [(h.holder g').mp hg'] at hfree
      cases hfree
    have hopen : s.lr.shutdown ≠ true := fun hl => by
      rw [h.begun.mpr (.inl hl)] at hfirst
      cases hfirst
    have htrans : s.transportShutdown = false := Bool.eq_false_iff.mpr fun ht => by
      rw [h.stopped ht] at hfirst
      cases hfirst
    refine ⟨fun g' => ?_, placed_moves (fun g' _ => hnone g') htrans,
      ⟨fun _ => .inr rfl, fun _ => rfl⟩, fun _ => rfl, fun hl => absurd hl hopen,
      back_moves h.back (fun hpc => by cases hpc), h.calls, h.only⟩
    by_cases hgg : g' = g
    · rw [hgg, callers_self]
      exact ⟨fun _ => rfl, fun _ => trivial⟩
    · rw [callers_ne hgg]
      exact ⟨fun h' => absurd h' (hnone g'), fun h' => absurd (Option.some.inj h').symm hgg⟩
  | skipped g hg ht =>
    -- cannot be: it is the holder of the mutex who shuts the transport down
    have hplaced := h.placed g
    rw [hg] at hplaced
    exact absurd (hplaced.symm.trans ht) Bool.false_ne_true
  | stopped g hg ht =>
    have hin : (s.callers g).InProgress := by rw [hg]; exact trivial
    have hheld := (h.holder g).mp hin
    have hmoves := holder_moves h hin (show ShutdownPc.InProgress .closing from trivial)
    have hopen : s.lr.shutdown ≠ true := fun hl => by
      rw [(h.announced hl).1] at hheld
      cases hheld
    exact ⟨hmoves, placed_moves (fun g' => h.not_inProgress hin) rfl, h.begun,
      fun _ => h.begun.mpr (.inr (by rw [hheld]; rfl)), fun hl => absurd hl hopen,
      back_moves h.back (fun hpc => by cases hpc), h.calls, h.only⟩
  | closed g hg hlt =>
    -- one more closed: what is said of `closed` is that it is large enough
    have hannounced : s.lr.shutdown = true → s.shutdownL = none ∧
        Shut { s with closed := s.closed + 1 } ∧ s.listenersDone = true := by
      intro hl
      obtain ⟨hnone, hshut, hdone⟩ := h.announced hl
      exact ⟨hnone, ⟨hshut.1, Nat.le_succ_of_le hshut.2⟩, hdone⟩
    refine ⟨h.holder, fun g' => ?_, h.begun, h.stopped, hannounced, h.back, h.calls,
      h.only⟩
    have hplaced := h.placed g'
    show Placed { s with closed := s.closed + 1 } (s.callers g')
    cases hg' : s.callers g' with
    | waiting =>
      rw [hg'] at hplaced
      exact ⟨hplaced.1, Nat.le_succ_of_le hplaced.2⟩
    | announcing =>
      rw [hg'] at hplaced
      exact ⟨⟨hplaced.1.1, Nat.le_succ_of_le hplaced.1.2⟩, hplaced.2⟩
    | _ =>
      rw [hg'] at hplaced
      exact hplaced
  | closedAll g hg hge =>
    have hin : (s.callers g).InProgress := by rw [hg]; exact trivial
    have hplaced := h.placed g
    rw [hg] at hplaced
    exact ⟨holder_moves h hin trivial, placed_moves (fun g' => h.not_inProgress hin) ⟨hplaced, hge⟩,
      h.begun, h.stopped, h.announced, back_moves h.back (fun hpc => by cases hpc), h.calls,
      h.only⟩
  | waited g hg hdone =>
    have hin : (s.callers g).InProgress := by rw [hg]; exact trivial
    have hplaced := h.placed g
    rw [hg] at hplaced
    exact ⟨holder_moves h hin trivial,
      placed_moves (fun g' => h.not_inProgress hin) ⟨hplaced, hdone⟩, h.begun, h.stopped,
      h.announced, back_moves h.back (fun hpc => by cases hpc), h.calls,
      h.only⟩
  | announced g hg =>
    have hin : (s.callers g).InProgress := by rw [hg]; exact trivial
    have hheld := (h.holder g).mp hin
    -- the mutex is given up as the channel is closed
    have hbegun : s.shutdown = true := h.begun.mpr (.inr (by rw [hheld]; rfl))
    have hplaced := h.placed g
    rw [hg] at hplaced
    refine ⟨fun g' => ?_, placed_moves (fun g' => h.not_inProgress hin) trivial,
      ⟨fun _ => .inl rfl, fun _ => hbegun⟩, h.stopped, fun _ => ⟨rfl, hplaced⟩, fun _ _ => rfl,
      h.calls, h.only⟩
    by_cases hgg : g' = g
    · rw [hgg, callers_self]
      exact ⟨fun h' => absurd h' id, fun h' => by cases h'⟩
    · rw [callers_ne hgg]
      exact ⟨fun h' => absurd h' (h.not_inProgress hin hgg), fun h' => by cases h'⟩

theorem act_inv (a : ShutdownAct) (s s' : ShutdownSys) (h : Inv s) (hact : act a s = some s') :
    Inv s' := inv_effect h (act_effect hact)

/-- It holds in every state a member can be in. -/
theorem reachable_inv (h : Reachable s) : Inv s := by
  obtain ⟨qDepth, n, acts, hrun⟩ := h
  exact run_inv act_inv (inv_new qDepth n) hrun

/-- The receivers are there until `shutdownCh` is closed. -/
structure Attended (s : ShutdownSys) : Prop where
  receiver : s.receiver = .returned → s.lr.shutdown = true
  connReceiver : s.connReceiver = .returned → s.lr.shutdown = true

/-- While the channel is open, whatever happens the receivers stay. -/
theorem attended_effect {c : Goroutine} (h : Attended s) (he : Effect s c s') : Attended s' := by
  cases he with
  | listener c hc tcp udp receiver hbusy htcp hudp hrecv =>
    refine ⟨fun hr => ?_, h.connReceiver⟩
    rcases hrecv with heq | ⟨-, packet, heq⟩
    · exact h.receiver (heq ▸ hr)
    · rw [heq] at hr
      cases hr
  | work c hc lr receiver hlr hidle hrecv =>
    refine ⟨fun hr => ?_, fun hc => hlr ▸ h.connReceiver hc⟩
    show lr.shutdown = true
    rw [hlr]
    rcases hrecv with ⟨heq, -⟩ | ⟨-, ⟨rest, heq⟩ | ⟨heq, -⟩⟩
    · exact h.receiver (heq ▸ hr)
    · rw [heq] at hr
      cases hr
    · rw [heq] at hr
      cases hr
  | receiverQuits hsel hl => exact ⟨fun _ => hl, h.connReceiver⟩
  | connReceiverQuits hsel hl => exact ⟨h.receiver, fun _ => hl⟩
  | announced g hg => exact ⟨fun _ => rfl, fun _ => rfl⟩
  | _ => exact ⟨h.receiver, h.connReceiver⟩

theorem act_attended (a : ShutdownAct) (s s' : ShutdownSys) (h : Attended s)
    (hact : act a s = some s') : Attended s' := attended_effect h (act_effect hact)

/-- So they are there in every such state. -/
theorem reachable_attended (h : Reachable s) : Attended s := by
  obtain ⟨qDepth, n, acts, hrun⟩ := h
  exact run_inv act_attended ⟨fun hr => (by cases hr), fun hc => (by cases hc)⟩ hrun

/-- **The order of a shutdown.** However the goroutines are interleaved, whoever gets to close
`shutdownCh` is the only one, finds it open and all listeners gone; and as long as it is open both
receivers are there to take what the listeners have, and no call has returned. -/
theorem shutdown_order (h : Reachable s) :
    (∀ g, s.callers g = .announcing → s.lr.shutdown = false ∧ s.Shut ∧ s.listenersDone = true ∧
      ∀ g', (s.callers g').InProgress → g' = g) ∧
    (s.lr.shutdown = true → s.Shut ∧ s.listenersDone = true) ∧
    (s.lr.shutdown = false →
      s.receiver ≠ .returned ∧ s.connReceiver ≠ .returned ∧ ∀ g, s.callers g ≠ .returned) := by
  have hinv := reachable_inv h
  have hatt := reachable_attended h
  refine ⟨fun g hg => ?_, fun hl => (hinv.announced hl).2, fun hopen => ?_⟩
  · have hin : (s.callers g).InProgress := by rw [hg]; exact trivial
    have hheld := (hinv.holder g).mp hin
    have hplaced := hinv.placed g
    rw [hg] at hplaced
    refine ⟨Bool.eq_false_iff.mpr fun hl => ?_, hplaced.1, hplaced.2, fun g' hg' => ?_⟩
    · rw [(hinv.announced hl).1] at hheld
      cases hheld
    · by_contra hne
      exact hinv.not_inProgress hin hne hg'
  · have hnot : s.lr.shutdown ≠ true := Bool.eq_false_iff.mp hopen
    exact ⟨fun hr => hnot (hatt.receiver hr), fun hc => hnot (hatt.connReceiver hc),
      fun g hg => hnot (hinv.back g hg)⟩

namespace Concrete

/-- A message that takes long. -/
def news : LongRunMsg :=
  { mType := .alive, msg := [], sender := { ip := [127, 0, 0, 1], port := 7946 } }

/-- One address, up to where one of two calls has closed the sockets and waited. -/
def ordered : List ShutdownAct :=
  [.read 0 [news], .call 0, .call 1, .lock 1, .stop 1, .close 1, .close 1, .close 1, .acceptFails 0,
    .packet 0, .readFails 0, .wait 1]

/-- Where that run ends. -/
def waited : ShutdownSys := (run act ordered (newShutdownSys 4 1)).getD (newShutdownSys 4 1)

end Concrete

theorem shutdown_order_waited :
    Concrete.waited.callers 1 = .announcing ∧ Concrete.waited.lr.shutdown = false ∧
      Concrete.waited.listenersDone = true := by
  have horder := (shutdown_order ⟨4, 1, Concrete.ordered, rfl⟩ : _ ∧ _).1 1 rfl
  exact ⟨rfl, horder.1, horder.2.2.1⟩

/-! ## Where it does not end -/

/-- The listeners, the receiver and its call are where they were. -/
def SameWork (s t : ShutdownSys) : Prop :=
  t.udp = s.udp ∧ t.tcp = s.tcp ∧ t.receiver = s.receiver ∧ t.lr.callers 0 = s.lr.callers 0

/-- A call of `Shutdown` leaves the work alone. -/
theorem sameWork_effect {c : Goroutine} (hc : c.isCaller = true) (he : Effect s c s') :
    SameWork s s' := by
  cases he with
  | same i hbusy => cases hc
  | listener c hc' tcp udp receiver hbusy htcp hudp hrecv =>
    exact absurd (hc'.symm.trans hc) Bool.false_ne_true
  | work c hc' lr receiver hlr hidle hrecv =>
    exact absurd ((work_not_caller hc').symm.trans hc) Bool.false_ne_true
  | receiverQuits hsel hl => cases hc
  | _ => exact ⟨rfl, rfl, rfl, rfl⟩

/-- `receivePacket` waits for a mutex that nobody is going to unlock, and listener `i` waits for
`receivePacket`. -/
structure Stuck (i : Nat) (packet : List LongRunMsg) (m : LongRunMsg) (s : ShutdownSys) :
    Prop where
  locked : s.lr.mng.locked = true
  call : s.lr.callers 0 = .locking m
  receiver : ∃ rest, s.receiver = .handling rest
  listener : s.udp[i]? = some (.sending packet)

/-- Whoever queues a message waits for a mutex that is left locked. -/
theorem queueLongRunMsg_of_locked (m : LongRunMsg) {mng : LongRunMsgManager}
    (h : mng.locked = true) : mng.queueLongRunMsg m = none := by
  unfold LongRunMsgManager.queueLongRunMsg LongRunMsgManager.lock
  rw [if_pos h]
  rfl

/-- Nor does the handler get it. -/
theorem getNextMsg_of_locked {mng : LongRunMsgManager} (h : mng.locked = true) :
    mng.getNextMsg = none := by
  unfold LongRunMsgManager.getNextMsg LongRunMsgManager.lock
  rw [if_pos h]
  rfl

/-- Nobody but who holds the mutex could change that. -/
theorem longRun_stuck {b : LongRunAct} {lr lr' : LongRunSys} {m : LongRunMsg}
    (hlocked : lr.mng.locked = true) (hcall : lr.callers 0 = .locking m)
    (hnot : ∀ g m, b ≠ .call g m) (h : lr.act b = some lr') :
    lr'.mng.locked = true ∧ lr'.callers 0 = .locking m := by
  cases b with
  | call g m => exact absurd rfl (hnot g m)
  | push g =>
    simp only [LongRunSys.act] at h
    split at h
    next m' hpc =>
      -- whoever else queues blocks as well
      rw [queueLongRunMsg_of_locked m' hlocked] at h
      cases h
    next => cases h
  | notify g =>
    simp only [LongRunSys.act] at h
    split at h
    next hpc =>
      cases h
      have hne : 0 ≠ g := by
        rintro rfl
        rw [hcall] at hpc
        cases hpc
      have hsend : lr.send.callers = lr.callers ∧ lr.send.mng = lr.mng := by
        unfold LongRunSys.send
        split <;> exact ⟨rfl, rfl⟩
      refine ⟨?_, (Function.update_of_ne hne ..).trans (by rw [hsend.1, hcall])⟩
      show lr.send.mng.locked = true
      rw [hsend.2]
      exact hlocked
    next => cases h
  | pop =>
    simp only [LongRunSys.act] at h
    split at h
    next =>
      rw [getNextMsg_of_locked hlocked] at h
      cases h
    next => cases h
  | shutdown =>
    cases h
    exact ⟨hlocked, hcall⟩
  | park | handled | quit =>
    simp only [LongRunSys.act] at h
    split at h
    next =>
      cases h
      exact ⟨hlocked, hcall⟩
    next => cases h

/-- A call of `Shutdown` does not touch the queue. -/
theorem mng_effect {c : Goroutine} (hc : c.isCaller = true) (he : Effect s c s') :
    s'.lr.mng = s.lr.mng := by
  cases he with
  | work c hc' lr receiver hlr hidle hrecv =>
    exact absurd ((work_not_caller hc').symm.trans hc) Bool.false_ne_true
  | _ => rfl

/-- A packet stays in the hands of its listener as long as nobody takes it. -/
theorem act_sending {i : Nat} {packet : List LongRunMsg} (hr : s.receiver ≠ .selecting)
    (hi : s.udp[i]? = some (.sending packet)) (hact : act a s = some s') :
    s'.udp[i]? = some (.sending packet) := by
  -- a listener that moves is not one that is sending
  have hkeep : ∀ {j : Nat} (pc : UdpPc), s.udp[j]? = some .reading →
      (s.udp.set j pc)[i]? = some (.sending packet) := by
    intro j pc hj
    have hne : j ≠ i := by
      rintro rfl
      rw [hi] at hj
      cases hj
    rw [List.getElem?_set_ne hne]
    exact hi
  by_cases hcaller : a.goroutine.isCaller = true
  · rw [(sameWork_effect hcaller (act_effect hact)).1]
    exact hi
  cases a with
  | read j packet' =>
    simp only [act] at hact
    split at hact
    next hj =>
      cases hact
      exact hkeep _ hj.1
    next => cases hact
  | readFails j =>
    simp only [act] at hact
    split at hact
    next hj =>
      split at hact
      next =>
        cases hact
        exact hkeep _ hj
      next =>
        cases hact
        exact hi
    next => cases hact
  | packet j =>
    simp only [act] at hact
    split at hact
    next hsel => exact absurd hsel hr
    next => cases hact
  | queue =>
    simp only [act] at hact
    split at hact
    next =>
      obtain ⟨lr, -, rfl⟩ := Option.map_eq_some_iff.mp hact
      exact hi
    next => cases hact
  | longRun b =>
    simp only [act] at hact
    split at hact
    next => cases hact
    next => cases hact
    next =>
      obtain ⟨lr, -, rfl⟩ := Option.map_eq_some_iff.mp hact
      exact hi
  | handled | receiverQuits | accept j | acceptFails j | wake j | conn j | connReceiverQuits =>
    simp only [act] at hact
    split at hact
    next =>
      cases hact
      exact hi
    next => cases hact
  | call g | lock g | stop g | close g | wait g | announce g => exact absurd rfl hcaller

/-- So does a connection. -/
theorem act_sendingConn {i : Nat} (hr : s.connReceiver ≠ .selecting)
    (hi : s.tcp[i]? = some .sending) (hact : act a s = some s') : s'.tcp[i]? = some .sending := by
  -- a listener that moves is not one that is sending
  have hkeep : ∀ {j : Nat} {pc : TcpPc} (pc' : TcpPc), s.tcp[j]? = some pc → pc ≠ .sending →
      (s.tcp.set j pc')[i]? = some .sending := by
    intro j pc pc' hj hpc
    have hne : j ≠ i := by
      rintro rfl
      rw [hi] at hj
      exact hpc (Option.some.inj hj).symm
    rw [List.getElem?_set_ne hne]
    exact hi
  by_cases hcaller : a.goroutine.isCaller = true
  · rw [(sameWork_effect hcaller (act_effect hact)).2.1]
    exact hi
  cases a with
  | accept j =>
    simp only [act] at hact
    split at hact
    next hj =>
      cases hact
      exact hkeep _ hj.1 (by decide)
    next => cases hact
  | acceptFails j | wake j =>
    simp only [act] at hact
    split at hact
    next hj =>
      cases hact
      exact hkeep _ hj (by decide)
    next => cases hact
  | conn j =>
    simp only [act] at hact
    split at hact
    -- it takes a receiver to get rid of it
    next hj => exact absurd hj.2 hr
    next => cases hact
  | queue =>
    simp only [act] at hact
    split at hact
    next =>
      obtain ⟨lr, -, rfl⟩ := Option.map_eq_some_iff.mp hact
      exact hi
    next => cases hact
  | longRun b =>
    simp only [act] at hact
    split at hact
    next => cases hact
    next => cases hact
    next =>
      obtain ⟨lr, -, rfl⟩ := Option.map_eq_some_iff.mp hact
      exact hi
  | readFails j =>
    simp only [act] at hact
    split at hact
    next =>
      split at hact
      next =>
        cases hact
        exact hi
      next =>
        cases hact
        exact hi
    next => cases hact
  | read j packet | packet j | handled | receiverQuits | connReceiverQuits =>
    simp only [act] at hact
    split at hact
    next =>
      cases hact
      exact hi
    next => cases hact
  | call g | lock g | stop g | close g | wait g | announce g => exact absurd rfl hcaller

/-- What the call waits for does not come, and `receivePacket` stays in it. -/
theorem act_stuck {i : Nat} {packet : List LongRunMsg} {m : LongRunMsg} (a : ShutdownAct)
    (s s' : ShutdownSys) (h : Stuck i packet m s) (hact : act a s = some s') :
    Stuck i packet m s' := by
  obtain ⟨hlocked, hcall, ⟨rest, hrest⟩, hi⟩ := h
  have hi' := act_sending (by rw [hrest]; simp) hi hact
  by_cases hcaller : a.goroutine.isCaller = true
  · have he := act_effect hact
    obtain ⟨-, -, hreceiver, hcalls⟩ := sameWork_effect hcaller he
    have hmng := mng_effect hcaller he
    exact ⟨by rw [hmng, hlocked], by rw [hcalls, hcall], ⟨rest, by rw [hreceiver, hrest]⟩, hi'⟩
  cases a with
  | packet j =>
    simp only [act, hrest] at hact
    split at hact
    next hsel => cases hsel
    next => cases hact
  | queue =>
    -- the call before has not returned
    simp only [act, LongRunSys.act, hcall] at hact
    split at hact
    next => cases hact
    next => cases hact
  | longRun b =>
    simp only [act] at hact
    split at hact
    next => cases hact
    next => cases hact
    next hnot _ =>
      obtain ⟨lr, hlr, rfl⟩ := Option.map_eq_some_iff.mp hact
      obtain ⟨hlocked', hcall'⟩ := longRun_stuck hlocked hcall hnot hlr
      exact ⟨hlocked', hcall', ⟨rest, hrest⟩, hi'⟩
  | handled =>
    simp only [act, hcall] at hact
    split at hact
    next hidle => cases hidle.2
    next => cases hact
  | receiverQuits =>
    simp only [act, hrest] at hact
    split at hact
    next hsel => cases hsel.1
    next => cases hact
  | readFails j =>
    simp only [act] at hact
    split at hact
    next =>
      split at hact
      next =>
        cases hact
        exact ⟨hlocked, hcall, ⟨rest, hrest⟩, hi'⟩
      next =>
        cases hact
        exact ⟨hlocked, hcall, ⟨rest, hrest⟩, hi'⟩
    next => cases hact
  | read j packet' | accept j | acceptFails j | wake j | conn j | connReceiverQuits =>
    simp only [act] at hact
    split at hact
    next =>
      cases hact
      exact ⟨hlocked, hcall, ⟨rest, hrest⟩, hi'⟩
    next => cases hact
  | call g | lock g | stop g | close g | wait g | announce g => exact absurd rfl hcaller

/-- **An overflow is not survived.** After `queueLongRunMsg` has refused a message, `receivePacket`
comes to another one and a listener to another packet. From then on no `Shutdown` returns, however
long one waits: `shutdownCh` stays open, and with it everything that is to end when it is closed. -/
theorem shutdown_hangs {i : Nat} {packet : List LongRunMsg} {m : LongRunMsg}
    {acts : List ShutdownAct} {s s' : ShutdownSys} (hreach : Reachable s)
    (hlocked : s.lr.mng.locked = true)
    (hcall : s.lr.callers 0 = .locking m) (hpacket : s.udp[i]? = some (.sending packet))
    (hrun : run act acts s = some s') :
    s'.lr.shutdown = false ∧ s'.receiver ≠ .returned ∧ s'.connReceiver ≠ .returned ∧
      s'.udp[i]? = some (.sending packet) ∧ ∀ g, s'.callers g ≠ .returned := by
  have hinv := reachable_inv hreach
  have hstuck : Stuck i packet m s :=
    ⟨hlocked, hcall, hinv.calls (by rw [hcall]; simp), hpacket⟩
  have hstuck' := run_inv act_stuck hstuck hrun
  have hinv' := run_inv act_inv hinv hrun
  have hatt' := run_inv act_attended (reachable_attended hreach) hrun
  -- a listener that waits has not returned, and then the channel is open
  have hopen : s'.lr.shutdown ≠ true := fun hl => by
    have hbusy := not_listenersDone_udp hstuck'.listener (by simp)
    exact Bool.false_ne_true (hbusy.symm.trans (hinv'.announced hl).2.2)
  exact ⟨Bool.eq_false_iff.mpr hopen, fun hr => hopen (hatt'.receiver hr),
    fun hc => hopen (hatt'.connReceiver hc), hstuck'.listener, fun g hg => hopen (hinv'.back g hg)⟩

namespace Concrete

/-- A packet with three messages for a queue that takes one, and another packet. -/
def overflowing : List ShutdownAct :=
  [.read 0 [news, news, news], .packet 0, .queue, .longRun (.push 0), .longRun (.notify 0), .queue,
    .longRun (.push 0), .queue, .read 0 []]

/-- The queue holds one message, and three have come. -/
def overflowed : ShutdownSys :=
  (run act overflowing (newShutdownSys 1 1)).getD (newShutdownSys 1 1)

end Concrete

/-- `Shutdown` is called, closes the sockets and waits; for ever. -/
theorem shutdown_hangs_overflowed :
    ∃ s, run act [.call 0, .lock 0, .stop 0, .close 0, .close 0, .close 0] Concrete.overflowed =
        some s ∧ s.callers 0 = .waiting ∧
      ∀ acts s', run act acts s = some s' → ∀ g, s'.callers g ≠ .returned := by
  refine ⟨_, rfl, rfl, fun acts s' hrun => ?_⟩
  exact (shutdown_hangs (i := 0) (m := Concrete.news)
    ⟨1, 1, Concrete.overflowing ++ [.call 0, .lock 0, .stop 0, .close 0, .close 0, .close 0], rfl⟩
    rfl rfl rfl hrun).2.2.2.2

end ShutdownSys

end Mlist
