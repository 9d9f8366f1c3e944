import Mlist.Model.Transport

/-!
# What a failed start leaves behind

`Start` makes three requests for each address, and any of them may be refused
(`firstFailure`). The deferred `Shutdown` then closes what the transport has recorded. Two
things escape it:

- the port: with `bindPort` 0 the first listener's dynamic port is written to the field, and
  nothing writes the 0 back. The next attempt of `ZeroBindPortTransport` asks for that port
  and not for a new one;
- a UDP connection whose buffer cannot be set: it is open and not yet recorded.

`start_restores_iff` says when neither happens.
-/

namespace Mlist

open Mlist.Lib

variable {os : Nat → AddrAnswers} {addrs : List String} {k : Nat}
  {base : Handles} {s s' : NetTransport × Handles}

/-- The request that was refused, with the index of its address. -/
inductive Failure where
  | listenTCP (k : Nat)
  | listenUDP (k : Nat)
  | setUDPSocketBuf (k : Nat)
  deriving DecidableEq, Repr

/-- The first request to be refused, of those for the addresses with index `k` and above. -/
def firstFailure (os : Nat → AddrAnswers) : Nat → List String → Option Failure
  | _, [] => none
  | k, _ :: addrs =>
    match (os k).listenTCP with
    | .error _ => some (.listenTCP k)
    | .ok _ =>
      match (os k).listenUDP with
      | .error _ => some (.listenUDP k)
      | .ok () =>
        match setUDPSocketBuf (os k).setReadBuffer with
        | some _ => some (.setUDPSocketBuf k)
        | none => firstFailure os (k + 1) addrs

namespace NetTransport

/-- The sockets the transport knows of. -/
def recorded (t : NetTransport) : List Nat := t.tcpListeners ++ t.udpConns

/-- The transport and the sockets are as before, apart from the shutdown flag. -/
structure Restored (s s' : NetTransport × Handles) : Prop where
  bindAddrs : s'.1.bindAddrs = s.1.bindAddrs
  bindPort : s'.1.bindPort = s.1.bindPort
  tcpListeners : s'.1.tcpListeners = s.1.tcpListeners
  udpConns : s'.1.udpConns = s.1.udpConns
  isOpen : s'.2.isOpen = s.2.isOpen

/-! ## One address -/

/-- One address: the request that is refused and what is left then, or what the loop goes on
with. -/
theorem listenAll_cons_case (os : Nat → AddrAnswers) (k : Nat) (addr : String)
    (addrs : List String) (s : NetTransport × Handles) :
    (∃ e, firstFailure os k (addr :: addrs) = some (.listenTCP k) ∧
      listenAll os k (addr :: addrs) s = (.error e, s)) ∨
    ∃ port : { port : Int // port ≠ 0 },
      (∃ e, firstFailure os k (addr :: addrs) = some (.listenUDP k) ∧
        listenAll os k (addr :: addrs) s = (.error e, addListener port.val s)) ∨
      (∃ e, firstFailure os k (addr :: addrs) = some (.setUDPSocketBuf k) ∧
        listenAll os k (addr :: addrs) s =
          (.error e, (addListener port.val s).1, (addListener port.val s).2.acquire.2)) ∨
      (firstFailure os k (addr :: addrs) = firstFailure os (k + 1) addrs ∧
        listenAll os k (addr :: addrs) s =
          listenAll os (k + 1) addrs (addConn (addListener port.val s))) := by
  simp only [firstFailure, listenAll]
  cases (os k).listenTCP with
  | error e => exact .inl ⟨_, rfl, rfl⟩
  | ok port =>
    refine .inr ⟨port, ?_⟩
    cases (os k).listenUDP with
    | error e => exact .inl ⟨_, rfl, rfl⟩
    | ok =>
      cases setUDPSocketBuf (os k).setReadBuffer with
      | some e => exact .inr (.inl ⟨_, rfl, rfl⟩)
      | none => exact .inr (.inr ⟨rfl, rfl⟩)

/-- The loop fails if one of its requests is refused. -/
theorem listenAll_ok (os : Nat → AddrAnswers) (k : Nat) (addrs : List String)
    (s : NetTransport × Handles) :
    (listenAll os k addrs s).1 = .ok () ↔ firstFailure os k addrs = none := by
  induction addrs generalizing k s with
  | nil => exact iff_of_true rfl rfl
  | cons addr addrs ih =>
    rcases listenAll_cons_case os k addr addrs s with
      ⟨e, hf, hr⟩ | ⟨port, ⟨e, hf, hr⟩ | ⟨e, hf, hr⟩ | ⟨hf, hr⟩⟩
    · simp [hf, hr]
    · simp [hf, hr]
    · simp [hf, hr]
    · rw [hf, hr]
      exact ih (k + 1) _

theorem firstFailure_listenTCP_le {i : Nat} (h : firstFailure os k addrs = some (.listenTCP i)) :
    k ≤ i := by
  induction addrs generalizing k with
  | nil => nomatch h
  | cons addr addrs ih =>
    unfold firstFailure at h
    split at h
    · obtain rfl : k = i := by simpa using h
      exact Nat.le_refl _
    · split at h
      · nomatch h
      · split at h
        · nomatch h
        · exact Nat.le_of_succ_le (ih h)

/-! ## The fields -/

theorem listenAll_frame (os : Nat → AddrAnswers) (k : Nat) (addrs : List String)
    (s : NetTransport × Handles) :
    (listenAll os k addrs s).2.1.bindAddrs = s.1.bindAddrs ∧
    (listenAll os k addrs s).2.1.shutdown = s.1.shutdown := by
  induction addrs generalizing k s with
  | nil => exact ⟨rfl, rfl⟩
  | cons addr addrs ih =>
    rcases listenAll_cons_case os k addr addrs s with
      ⟨e, -, hr⟩ | ⟨port, ⟨e, -, hr⟩ | ⟨e, -, hr⟩ | ⟨-, hr⟩⟩
    · rw [hr]
      exact ⟨rfl, rfl⟩
    · rw [hr]
      exact ⟨rfl, rfl⟩
    · rw [hr]
      exact ⟨rfl, rfl⟩
    · rw [hr]
      exact ih (k + 1) _

/-- A port other than 0 is kept. -/
theorem listenAll_bindPort_of_ne (os : Nat → AddrAnswers) (k : Nat) (addrs : List String)
    (s : NetTransport × Handles) (hne : s.1.bindPort ≠ 0) :
    (listenAll os k addrs s).2.1.bindPort = s.1.bindPort := by
  induction addrs generalizing k s with
  | nil => rfl
  | cons addr addrs ih =>
    have hadd : ∀ port, (addListener port s).1.bindPort = s.1.bindPort := fun _ => if_neg hne
    rcases listenAll_cons_case os k addr addrs s with
      ⟨e, -, hr⟩ | ⟨port, ⟨e, -, hr⟩ | ⟨e, -, hr⟩ | ⟨-, hr⟩⟩
    · rw [hr]
    · rw [hr]
      exact hadd port.val
    · rw [hr]
      exact hadd port.val
    · have hport : (addConn (addListener port.val s)).1.bindPort = s.1.bindPort := hadd port.val
      rw [hr, ih (k + 1) _ (by rw [hport]; exact hne), hport]

/-- A loop that fails keeps the port if it was chosen by the caller, or if no listener was
ever got. -/
theorem listenAll_bindPort (os : Nat → AddrAnswers) (addrs : List String)
    (s : NetTransport × Handles) (hfail : firstFailure os k addrs ≠ none) :
    (listenAll os k addrs s).2.1.bindPort = s.1.bindPort ↔
      s.1.bindPort ≠ 0 ∨ firstFailure os k addrs = some (.listenTCP k) := by
  by_cases hne : s.1.bindPort ≠ 0
  · exact iff_of_true (listenAll_bindPort_of_ne os k addrs s hne) (.inl hne)
  have hzero : s.1.bindPort = 0 := not_not.mp hne
  rw [hzero]
  cases addrs with
  | nil => exact absurd rfl hfail
  | cons addr addrs =>
    have hadd : ∀ port, (addListener port s).1.bindPort = port := fun _ => if_pos hzero
    rcases listenAll_cons_case os k addr addrs s with
      ⟨e, hf, hr⟩ | ⟨port, ⟨e, hf, hr⟩ | ⟨e, hf, hr⟩ | ⟨hf, hr⟩⟩
    · rw [hr]
      exact iff_of_true hzero (.inr hf)
    · rw [hr, hf, hadd]
      simp [port.property]
    · rw [hr, hf]
      show (addListener port.val s).1.bindPort = 0 ↔ _
      rw [hadd]
      simp [port.property]
    · -- The first listener is there, so the port is no longer 0 and stays what it is.
      have hport : (addConn (addListener port.val s)).1.bindPort = port.val := hadd port.val
      have hkept := listenAll_bindPort_of_ne os (k + 1) addrs (addConn (addListener port.val s))
        (by rw [hport]; exact port.property)
      rw [hr, hkept, hport, hf]
      refine iff_of_false port.property ?_
      intro hor
      rcases hor with hn | htcp
      · exact hn rfl
      · have := firstFailure_listenTCP_le htcp
        omega

/-! ## The sockets -/

/-- What the loop leaves open: what it has recorded, and after a buffer that could not be set
one socket more. -/
def Opened (base : Handles) (f : Option Failure) (s : NetTransport × Handles) : Prop :=
  match f with
  | some (.setUDPSocketBuf _) => ∃ now, Accounted base s.1.recorded now ∧ s.2 = now.acquire.2
  | _ => Accounted base s.1.recorded s.2

theorem addListener_accounted (port : Int) (h : Accounted base s.1.recorded s.2) :
    Accounted base (addListener port s).1.recorded (addListener port s).2 := by
  refine h.acquire fun h => ?_
  simp only [recorded, addListener, Handles.acquire, List.mem_append, List.mem_singleton]
  exact or_right_comm

theorem addConn_accounted (h : Accounted base s.1.recorded s.2) :
    Accounted base (addConn s).1.recorded (addConn s).2 := by
  refine h.acquire fun h => ?_
  simp only [recorded, addConn, Handles.acquire, List.mem_append, List.mem_singleton]
  exact or_assoc.symm

theorem listenAll_opened (os : Nat → AddrAnswers) (k : Nat) (addrs : List String)
    (s : NetTransport × Handles) (h : Accounted base s.1.recorded s.2) :
    Opened base (firstFailure os k addrs) (listenAll os k addrs s).2 := by
  induction addrs generalizing k s with
  | nil => exact h
  | cons addr addrs ih =>
    rcases listenAll_cons_case os k addr addrs s with
      ⟨e, hf, hr⟩ | ⟨port, ⟨e, hf, hr⟩ | ⟨e, hf, hr⟩ | ⟨hf, hr⟩⟩
    · rw [hf, hr]
      exact h
    · rw [hf, hr]
      exact addListener_accounted port.val h
    · rw [hf, hr]
      exact ⟨_, addListener_accounted port.val h, rfl⟩
    · rw [hf, hr]
      exact ih (k + 1) _ (addConn_accounted (addListener_accounted port.val h))

theorem opened_releaseAll {f : Option Failure} (h : Opened base f s) :
    (s.2.releaseAll s.1.recorded).isOpen = base.isOpen ↔ ∀ i, f ≠ some (.setUDPSocketBuf i) := by
  unfold Opened at h
  split at h
  next i =>
    obtain ⟨now, hacc, hs⟩ := h
    rw [hs]
    exact iff_of_false hacc.releaseAll_lost fun hno => hno i rfl
  next hno => exact iff_of_true h.releaseAll_isOpen fun i hf => hno i hf

/-! ## Start -/

/-- The transport as `Start` takes it up. -/
def revived (s : NetTransport × Handles) : NetTransport × Handles :=
  ({ s.1 with shutdown := false }, s.2)

/-- `Start` is its loop, and `Shutdown` if that has failed. -/
theorem start_case (os : Nat → AddrAnswers) (s : NetTransport × Handles) :
    (firstFailure os 0 s.1.bindAddrs = none ∧
      start os s = (.ok (), (listenAll os 0 s.1.bindAddrs (revived s)).2)) ∨
    ∃ e, firstFailure os 0 s.1.bindAddrs ≠ none ∧
      start os s = (.error e, shutDown (listenAll os 0 s.1.bindAddrs (revived s)).2) := by
  have hok := listenAll_ok os 0 s.1.bindAddrs (revived s)
  cases hr : listenAll os 0 s.1.bindAddrs (revived s) with
  | mk err left =>
    have hloop : listenAll os 0 s.1.bindAddrs ({ s.1 with shutdown := false }, s.2) =
        (err, left) := hr
    rw [hr] at hok
    simp only [start, hloop]
    cases err with
    | ok => exact .inl ⟨hok.mp rfl, rfl⟩
    | error e => exact .inr ⟨e, fun hnone => (nomatch hok.mpr hnone), rfl⟩

/-- `Start` has failed: a request was refused, and everything recorded was closed. -/
theorem start_error {e : String} (h : start os s = (.error e, s')) :
    firstFailure os 0 s.1.bindAddrs ≠ none ∧
    ∃ left, (listenAll os 0 s.1.bindAddrs (revived s)).2 = left ∧
      s' = ({ left.1 with shutdown := true, tcpListeners := [], udpConns := [] },
        left.2.releaseAll left.1.recorded) := by
  rcases start_case os s with ⟨-, hr⟩ | ⟨e', hfail, hr⟩
  · rw [h] at hr
    nomatch hr
  rw [h] at hr
  obtain ⟨-, rfl⟩ := Prod.mk.inj hr
  have hrunning : (listenAll os 0 s.1.bindAddrs (revived s)).2.1.shutdown = false :=
    (listenAll_frame os 0 s.1.bindAddrs (revived s)).2
  refine ⟨hfail, _, rfl, ?_⟩
  rw [recorded, Handles.releaseAll_append]
  exact if_neg (by rw [hrunning]; decide)

/-- What becomes of the fields. -/
theorem start_error_fields {e : String} (h : start os s = (.error e, s')) :
    s'.1.bindAddrs = s.1.bindAddrs ∧ s'.1.tcpListeners = [] ∧ s'.1.udpConns = [] ∧
    (s'.1.bindPort = s.1.bindPort ↔
      s.1.bindPort ≠ 0 ∨ firstFailure os 0 s.1.bindAddrs = some (.listenTCP 0)) := by
  obtain ⟨hfail, left, hleft, rfl⟩ := start_error h
  refine ⟨?_, rfl, rfl, ?_⟩
  · rw [← hleft]
    exact (listenAll_frame os 0 s.1.bindAddrs (revived s)).1
  · rw [← hleft]
    exact listenAll_bindPort os s.1.bindAddrs (revived s) hfail

/-- With nothing recorded before, a failed `Start` leaves no socket open if and only if it did
not fail to set a buffer. -/
theorem start_error_isOpen {e : String} (h : start os s = (.error e, s'))
    (hnone : s.1.recorded = []) :
    s'.2.isOpen = s.2.isOpen ↔
      ∀ i, firstFailure os 0 s.1.bindAddrs ≠ some (.setUDPSocketBuf i) := by
  obtain ⟨-, left, hleft, rfl⟩ := start_error h
  have hbase : Accounted s.2 (revived s).1.recorded (revived s).2 := by
    show Accounted s.2 s.1.recorded s.2
    rw [hnone]
    exact .refl s.2
  have hopened := listenAll_opened os 0 s.1.bindAddrs (revived s) hbase
  rw [hleft] at hopened
  exact opened_releaseAll hopened

/-- When everything is as before, apart from the shutdown flag. -/
theorem restored_iff {e : String} (h : start os s = (.error e, s')) :
    Restored s s' ↔
      s.1.tcpListeners = [] ∧ s.1.udpConns = [] ∧
      (∀ i, firstFailure os 0 s.1.bindAddrs ≠ some (.setUDPSocketBuf i)) ∧
      (s.1.bindPort ≠ 0 ∨ firstFailure os 0 s.1.bindAddrs = some (.listenTCP 0)) := by
  obtain ⟨haddrs, htcp, hudp, hport⟩ := start_error_fields h
  constructor
  · intro hr
    have ht : s.1.tcpListeners = [] := hr.tcpListeners.symm.trans htcp
    have hu : s.1.udpConns = [] := hr.udpConns.symm.trans hudp
    have hnone : s.1.recorded = [] := by rw [recorded, ht, hu, List.append_nil]
    exact ⟨ht, hu, (start_error_isOpen h hnone).mp hr.isOpen, hport.mp hr.bindPort⟩
  · intro ⟨ht, hu, hbuf, hkept⟩
    have hnone : s.1.recorded = [] := by rw [recorded, ht, hu, List.append_nil]
    exact {
      bindAddrs := haddrs
      bindPort := hport.mpr hkept
      tcpListeners := htcp.trans ht.symm
      udpConns := hudp.trans hu.symm
      isOpen := (start_error_isOpen h hnone).mpr hbuf }

/-- Every attempt is made with port 0 if and only if each one that is followed by another has
failed to get its first listener. -/
theorem startAttempts_ports (os : Nat → Nat → AddrAnswers) (n i : Nat)
    (s : NetTransport × Handles) (hzero : s.1.bindPort = 0) :
    (∀ p ∈ (startAttempts os n i s).1, p = 0) ↔
      ∀ j, i ≤ j → j + 1 < i + n →
        (∀ l, i ≤ l → l ≤ j → firstFailure (os l) 0 s.1.bindAddrs ≠ none) →
        firstFailure (os j) 0 s.1.bindAddrs = some (.listenTCP 0) := by
  induction n generalizing i s with
  | zero =>
    refine iff_of_true (fun p hp => nomatch hp) ?_
    intro j hij hj
    omega
  | succ n ih =>
    cases hr : start (os i) s with
    | mk err s' =>
      cases err with
      | ok =>
        have hnone : firstFailure (os i) 0 s.1.bindAddrs = none := by
          rcases start_case (os i) s with ⟨hnone, -⟩ | ⟨e, -, hr'⟩
          · exact hnone
          · rw [hr] at hr'
            nomatch hr'
        refine iff_of_true ?_ ?_
        · simp [startAttempts, hr, hzero]
        · intro j hij _ hfail
          exact absurd hnone (hfail i (Nat.le_refl i) hij)
      | error e =>
        obtain ⟨haddrs, -, -, hport⟩ := start_error_fields hr
        have hfailed := (start_error hr).1
        have hports : (startAttempts os (n + 1) i s).1 =
            s.1.bindPort :: (startAttempts os n (i + 1) s').1 := by
          simp [startAttempts, hr]
        rw [hports, List.forall_mem_cons]
        by_cases hfirst : firstFailure (os i) 0 s.1.bindAddrs = some (.listenTCP 0)
        · -- The port is 0 again; the rest is for the attempts after this one.
          have hzero' : s'.1.bindPort = 0 := (hport.mpr (.inr hfirst)).trans hzero
          rw [ih (i + 1) s' hzero', haddrs, and_iff_right hzero]
          refine ⟨fun hrest j hij hj hfail => ?_, fun hall j hij hj hfail => ?_⟩
          · rcases Nat.eq_or_lt_of_le hij with rfl | hlt
            · exact hfirst
            · exact hrest j hlt (by omega) fun l hl => hfail l (by omega)
          · refine hall j (by omega) (by omega) fun l hl hlj => ?_
            rcases Nat.eq_or_lt_of_le hl with rfl | hlt
            · exact hfailed
            · exact hfail l hlt hlj
        · cases n with
          | zero =>
            refine iff_of_true ⟨hzero, fun p hp => nomatch hp⟩ ?_
            intro j hij hj
            omega
          | succ n =>
            -- The next attempt is made with the port this one was given.
            have hne : s'.1.bindPort ≠ 0 := by
              rw [← hzero]
              intro heq
              rcases hport.mp heq with hn | hf
              · exact hn hzero
              · exact hfirst hf
            refine iff_of_false (fun hall => hne (hall.2 _ ?_)) (fun hall => hfirst ?_)
            · simp only [startAttempts]
              split <;> exact List.mem_cons_self
            · refine hall i (Nat.le_refl i) (by omega) fun l hl hli => ?_
              rw [Nat.le_antisymm hli hl]
              exact hfailed

theorem zeroBindPortTransport_ports (os : Nat → Nat → AddrAnswers) (addrs : List String)
    (logger : Bool) (socks : Handles) :
    (zeroBindPortTransport os addrs logger socks).1 =
      if addrs ≠ [] ∧ logger = true then
        (startAttempts os 10 0 (⟨addrs, 0, [], [], false⟩, socks)).1
      else [] := by
  unfold zeroBindPortTransport newNetTransport
  cases addrs with
  | nil => simp
  | cons addr addrs =>
    cases logger with
    | false => simp
    | true =>
      simp only [List.length_cons, Nat.succ_ne_zero, if_false, Bool.true_eq_false, ne_eq,
        reduceCtorEq, not_false_eq_true, and_self, if_true]
      split
      next hr => rw [hr]
      next hr => rw [hr]

/-- A transport that is not running is as before a failed `Start` if and only if it was not the
buffer of a UDP connection that could not be set, and the port was not 0 or not even the first
listener was got; one that is running is not, as its sockets are closed. Hence the attempts of
`ZeroBindPortTransport` all ask for a new port if and only if each that is followed by another
has failed to get its first listener. -/
theorem start_restores_iff {os : Nat → AddrAnswers} {s s' : NetTransport × Handles} {e : String}
    (h : start os s = (.error e, s')) (attempts : Nat → Nat → AddrAnswers) (addrs : List String)
    (logger : Bool) (socks : Handles) :
    (Restored s s' ↔
      s.1.tcpListeners = [] ∧ s.1.udpConns = [] ∧
      (∀ i, firstFailure os 0 s.1.bindAddrs ≠ some (.setUDPSocketBuf i)) ∧
      (s.1.bindPort ≠ 0 ∨ firstFailure os 0 s.1.bindAddrs = some (.listenTCP 0))) ∧
    ((∀ p ∈ (zeroBindPortTransport attempts addrs logger socks).1, p = 0) ↔
      (logger = true → ∀ i, i + 1 < 10 →
        (∀ j ≤ i, firstFailure (attempts j) 0 addrs ≠ none) →
        firstFailure (attempts i) 0 addrs = some (.listenTCP 0))) := by
  refine ⟨restored_iff h, ?_⟩
  rw [zeroBindPortTransport_ports]
  split
  next hnew =>
    obtain ⟨-, hlogger⟩ := hnew
    rw [startAttempts_ports attempts 10 0 _ rfl]
    simp [hlogger]
  next hnew =>
    refine iff_of_true (fun p hp => nomatch hp) fun hlogger i _ hfail => ?_
    have hempty : addrs = [] := not_not.mp fun hne => hnew ⟨hne, hlogger⟩
    exact absurd (by rw [hempty]; rfl) (hfail i (Nat.le_refl i))

/-- A system without a listener to give: nothing changes, and all ten attempts ask for a new
port. -/
theorem start_restores_iff_refused :
    let refuse : AddrAnswers :=
      { listenTCP := .error "socket: too many open files"
        listenUDP := .ok ()
        setReadBuffer := fun _ => none }
    let s : NetTransport × Handles :=
      (⟨["127.0.0.1"], 0, [], [], false⟩, ⟨0, fun _ => false, fun _ _ => rfl⟩)
    Restored s (start (fun _ => refuse) s).2 ∧
    (∀ p ∈ (zeroBindPortTransport (fun _ _ => refuse) s.1.bindAddrs true s.2).1, p = 0) ∧
    (zeroBindPortTransport (fun _ _ => refuse) s.1.bindAddrs true s.2).1.length = 10 := by
  intro refuse s
  have hfail : start (fun _ => refuse) s = (.error _, (start (fun _ => refuse) s).2) := rfl
  have hboth := start_restores_iff hfail (fun _ _ => refuse) s.1.bindAddrs true s.2
  refine ⟨hboth.1.mpr ⟨rfl, rfl, ?_, .inr rfl⟩, hboth.2.mpr fun _ i _ _ => rfl, rfl⟩
  intro i hf
  nomatch hf

/-- The system chooses a port for TCP that another process uses for UDP: the transport keeps
the port, and every other attempt asks for the same. Where the buffer cannot be set, the UDP
connection, socket 1, stays open. -/
theorem start_leaves_port_and_socket :
    let taken : AddrAnswers :=
      { listenTCP := .ok ⟨40000, by decide⟩
        listenUDP := .error "listen udp 127.0.0.1:40000: bind: address already in use"
        setReadBuffer := fun _ => none }
    let noBuffer : AddrAnswers :=
      { listenTCP := .ok ⟨40000, by decide⟩
        listenUDP := .ok ()
        setReadBuffer := fun _ => some "setsockopt: operation not permitted" }
    let s : NetTransport × Handles :=
      (⟨["127.0.0.1"], 0, [], [], false⟩, ⟨0, fun _ => false, fun _ _ => rfl⟩)
    (start (fun _ => taken) s).1.isOk = false ∧
    (start (fun _ => taken) s).2.1.bindPort = 40000 ∧
    (zeroBindPortTransport (fun _ _ => taken) s.1.bindAddrs true s.2).1 =
      0 :: List.replicate 9 40000 ∧
    (start (fun _ => noBuffer) s).1.isOk = false ∧
    (start (fun _ => noBuffer) s).2.1.udpConns = [] ∧
    (start (fun _ => noBuffer) s).2.2.isOpen 1 = true := by
  decide +kernel

end NetTransport

end Mlist
