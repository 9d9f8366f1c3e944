import Mlist.Lib.Handles

/-!
# Starting the transport

`Start`, `Shutdown` and `ZeroBindPortTransport` of `net_transport.go`: for each of its
addresses a `NetTransport` listens for TCP connections and for UDP packets.

The operating system answers each request as it likes (`AddrAnswers`). Sockets are handles,
and the process's `Handles` say which of them are open, whoever holds them.

Not modelled is what comes after: the goroutines that read from the sockets, and the
`WaitGroup` by which `Shutdown` waits for them.
-/

namespace Mlist

open Mlist.Lib

/-- What the system says to the requests `Start` makes for one address. A listener that was
asked for on port 0 gets a port other than 0. `setReadBuffer` is the error, if any, for each
size. -/
structure AddrAnswers where
  listenTCP : Except String { port : Int // port ≠ 0 }
  listenUDP : Except String Unit
  setReadBuffer : Nat → Option String

/-- `NetTransport`, as far as its sockets go. -/
structure NetTransport where
  bindAddrs : List String
  bindPort : Int
  tcpListeners : List Nat
  udpConns : List Nat
  shutdown : Bool
  deriving DecidableEq, Repr

def udpSocketBufSize : Nat := 2 * 1024 * 1024

/-- The loop of `setUDPSocketBuf`: halve the size until one is accepted, or return the last
error. -/
def halveBuf (setReadBuffer : Nat → Option String) (size : Nat) (err : Option String) :
    Option String :=
  if size > 0 then
    match setReadBuffer size with
    | none => none
    | some e => halveBuf setReadBuffer (size / 2) (some e)
  else err
  termination_by size

/-- `setUDPSocketBuf`. -/
def setUDPSocketBuf (setReadBuffer : Nat → Option String) : Option String :=
  halveBuf setReadBuffer udpSocketBufSize none

namespace NetTransport

/-- `NewNetTransport`. -/
def newNetTransport (addrs : List String) (port : Int) (logger : Bool) :
    Except String NetTransport :=
  if addrs.length = 0 then .error "at least one bind address is required"
  else if logger = false then .error "logger is required"
  else
    .ok { bindAddrs := addrs, bindPort := port, tcpListeners := [], udpConns := []
          shutdown := false }

/-- `failed to start … listener on %q port %d: %v`. -/
def errListen (what addr : String) (port : Int) (e : String) : String :=
  "failed to start " ++ what ++ " listener on " ++ addr.quote ++ " port " ++ toString port ++
    ": " ++ e

/-- A new TCP listener is recorded; the port it got becomes the transport's if that was 0. -/
def addListener (port : Int) (s : NetTransport × Handles) : NetTransport × Handles :=
  ({ s.1 with
      tcpListeners := s.1.tcpListeners ++ [s.2.acquire.1]
      bindPort := if s.1.bindPort = 0 then port else s.1.bindPort },
    s.2.acquire.2)

/-- A new UDP connection is recorded. -/
def addConn (s : NetTransport × Handles) : NetTransport × Handles :=
  ({ s.1 with udpConns := s.1.udpConns ++ [s.2.acquire.1] }, s.2.acquire.2)

/-- The first loop of `Start`, from the address with index `k` on. A UDP connection is
recorded only after its buffer has been set. -/
def listenAll (os : Nat → AddrAnswers) :
    Nat → List String → NetTransport × Handles → Except String Unit × NetTransport × Handles
  | _, [], s => (.ok (), s)
  | k, addr :: addrs, s =>
    match (os k).listenTCP with
    | .error e => (.error (errListen "TCP" addr s.1.bindPort e), s)
    | .ok port =>
      let s := addListener port.val s
      match (os k).listenUDP with
      | .error e => (.error (errListen "UDP" addr s.1.bindPort e), s)
      | .ok () =>
        match setUDPSocketBuf (os k).setReadBuffer with
        | some e => (.error ("failed to resize UDP buffer: " ++ e), s.1, s.2.acquire.2)
        | none => listenAll os (k + 1) addrs (addConn s)

/-- `Shutdown`: close what the transport has recorded, and forget it. -/
def shutDown (s : NetTransport × Handles) : NetTransport × Handles :=
  let (t, socks) := s
  if t.shutdown then s
  else
    ({ t with shutdown := true, tcpListeners := [], udpConns := [] },
      (socks.releaseAll t.tcpListeners).releaseAll t.udpConns)

/-- `Start`; the deferred function shuts the transport down if the call fails. -/
def start (os : Nat → AddrAnswers) (s : NetTransport × Handles) :
    Except String Unit × NetTransport × Handles :=
  let (t, socks) := s
  let (err, s) := listenAll os 0 t.bindAddrs ({ t with shutdown := false }, socks)
  match err with
  | .ok () => (.ok (), s)
  | .error e => (.error e, shutDown s)

/-- The loop of `ZeroBindPortTransport`, with `n` attempts left; `os i` are the answers to
attempt `i`. Whatever the error, there is another attempt. The list is history: the
`bindPort` each attempt begins with. -/
def startAttempts (os : Nat → Nat → AddrAnswers) :
    Nat → Nat → NetTransport × Handles → List Int × Option NetTransport × Handles
  | 0, _, s => ([], none, s.2)
  | n + 1, i, s =>
    match start (os i) s with
    | (.ok (), s') => ([s.1.bindPort], some s'.1, s'.2)
    | (.error _, s') =>
      let (ports, r) := startAttempts os n (i + 1) s'
      (s.1.bindPort :: ports, r)

/-- `ZeroBindPortTransport`. The error it returns in the end is not that of `Start`, which a
variable of the same name hides. -/
def zeroBindPortTransport (os : Nat → Nat → AddrAnswers) (addrs : List String) (logger : Bool)
    (socks : Handles) : List Int × Except String NetTransport × Handles :=
  match newNetTransport addrs 0 logger with
  | .error e => ([], .error e, socks)
  | .ok t =>
    match startAttempts os 10 0 (t, socks) with
    | (ports, some t, socks) => (ports, .ok t, socks)
    | (ports, none, socks) => (ports, .error "failed to obtain address: <nil>", socks)

end NetTransport

end Mlist
