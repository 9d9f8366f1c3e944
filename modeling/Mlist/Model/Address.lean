import Mlist.Model.Resolve

/-!
# Addresses that are written down

A member keeps the address it advertises as a text: `finalizeAdvertiseAddr` of
`net_transport.go` writes it down once, right after the transport has been started, and
`GetAdvertiseAddr` reads it every time it is needed. `Join` and the push/pulls write an address
and a port down too, for the dialer to read. How an address is written is `String` of
`net.IP`, with `appendTo6` of `net/netip` for IPv6: the longest run of zeros is left out.
-/

namespace Mlist

/-! ## Writing -/

/-- `appendHex` of `net/netip`: a group of an IPv6 address, without leading zeros. -/
def appendHex (x : Nat) : Text :=
  (if 0x1000 ≤ x then [Nat.digitChar (x / 0x1000)] else []) ++
    (if 0x100 ≤ x then [Nat.digitChar (x / 0x100 % 16)] else []) ++
    (if 0x10 ≤ x then [Nat.digitChar (x / 0x10 % 16)] else []) ++ [Nat.digitChar (x % 16)]

/-- The groups of two bytes; `v6u16` is one of them. -/
def groupsOf : List UInt8 → List Nat
  | a :: b :: bytes => (256 * a.toNat + b.toNat) :: groupsOf bytes
  | _ => []

/-- The first loop of `appendTo6`, one round: `z` is from `zeroStart` to `zeroEnd`. -/
def zeroRun (gs : List Nat) (z : Nat × Nat) (i : Nat) : Nat × Nat :=
  let l := ((gs.drop i).takeWhile (· == 0)).length
  if 2 ≤ l ∧ z.2 - z.1 < l then (i, i + l) else z

/-- Where the zeros are that are left out. -/
def zeroGroups (gs : List Nat) : Nat × Nat := (List.range 8).foldl (zeroRun gs) (255, 255)

/-- The second loop of `appendTo6`, from group `i` on; there are at most `fuel` rounds. -/
def appendGroups (gs : List Nat) (z : Nat × Nat) : (fuel i : Nat) → Text
  | 0, _ => []
  | fuel + 1, i =>
    if 8 ≤ i then []
    else if i = z.1 then
      [':', ':'] ++
        if 8 ≤ z.2 then [] else appendHex (gs.getD z.2 0) ++ appendGroups gs z fuel (z.2 + 1)
    else (if 0 < i then [':'] else []) ++ appendHex (gs.getD i 0) ++ appendGroups gs z fuel (i + 1)

/-- `hexString` of the `net` package. -/
def hexString (b : List UInt8) : Text :=
  b.flatMap fun c => [Nat.digitChar (c.toNat / 16), Nat.digitChar (c.toNat % 16)]

/-- `IP.String`. -/
def ipString (ip : IP) : Text :=
  if ip = [] then "<nil>".toList
  else if ip.length ≠ 4 ∧ ip.length ≠ 16 then '?' :: hexString ip
  else
    match to4 ip with
    | some p4 => ['.'].intercalate (p4.map fun b => itoa b.toNat)
    | none => appendGroups (groupsOf ip) (zeroGroups (groupsOf ip)) 8 0

/-- `String` of a `net.UDPAddr` that is not nil and has no zone. -/
def udpAddrString (ip : IP) (port : Nat) : Text :=
  netJoinHostPort (if ip = [] then [] else ipString ip) (itoa port)

/-! ## The address a member advertises -/

/-- `AdvertiseAddr` and `AdvertisePort` of the configuration. -/
structure Advertise where
  addr : Text
  port : Int
  deriving DecidableEq, Repr

/-- An address of IPv4 or IPv6. -/
def IsIP (ip : IP) : Prop := ip.length = 4 ∨ ip.length = 16

/-- What `GetFirstAddr` asks: the first of `bindAddrs`, the `sockaddr` package for a private
address, and the first connection for its own (`none` after a shutdown). -/
structure FirstAddr where
  bindAddr : Text
  bindPort : Int
  privateIP : Except String Text
  localIP : Option { ip : IP // IsIP ip }

/-- `NetTransport.GetFirstAddr`. -/
def FirstAddr.getFirstAddr (t : FirstAddr) : Except String (IP × Int) :=
  if t.bindAddr = "0.0.0.0".toList then
    match t.privateIP with
    | .error err => .error ("failed to get interface addresses: " ++ err)
    | .ok ipStr =>
      if ipStr = [] then .error "no private IP address found, and explicit IP not provided"
      else
        match parseIP ipStr with
        | none => .error "failed to parse advertise address: \"<nil>\""
        | some ip => .ok (ip, t.bindPort)
  else
    match t.localIP with
    | none => .error "transport shutdown"
    | some ip => .ok (ip, t.bindPort)

namespace Advertise

def errParse : String := "failed to parse advertise address"

/-- `finalizeAdvertiseAddr`. That the transport has no address is no error here. -/
def finalizeAdvertiseAddr (t : FirstAddr) (c : Advertise) : Except ResolveError Advertise :=
  if c.addr ≠ [] then
    match parseIP c.addr with
    | none => .error (.addr errParse c.addr)
    | some ip => .ok { addr := ipString ((to4 ip).getD ip), port := c.port }
  else
    match t.getFirstAddr with
    | .error _ => .ok c
    | .ok (ip, port) => .ok { addr := ipString ip, port }

/-- `GetAdvertiseAddr`. -/
def getAdvertiseAddr (c : Advertise) : Except ResolveError (IP × UInt16) :=
  match parseIP c.addr with
  | none => .error (.addr errParse c.addr)
  | some ip => .ok (ip, UInt16.ofInt c.port)

end Advertise

end Mlist
