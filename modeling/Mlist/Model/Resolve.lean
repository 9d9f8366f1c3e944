import Mlist.Lib.Index
import Mlist.Model.Types

/-!
# Resolving an address

`ResolveAddr` of `net_transport.go`, with `hasPort`, `parsePort` and `tcpLookupIP`, and
`joinHostPort` of `util.go`. What they use of Go's `strings`, `strconv` and `net` packages
comes first, written from the documents and the code of these packages; a text is the list
of its characters.

What a DNS server or the resolver of the system answers is a parameter (`DNS`), and the
lookups that are made are part of the result.
-/

namespace Mlist

open Mlist.Lib

/-- A `string`. -/
abbrev Text := List Char

/-- `net.AddrError`, `strconv.NumError`, or what a lookup failed with. -/
inductive ResolveError where
  | addr (err : String) (addr : Text)
  | num (err : String) (num : Text)
  | dns (err : String)
  deriving DecidableEq, Repr

/-! ## Numbers -/

/-- The loop of `strconv.ParseUint` in base 10; `n` is the number so far. -/
def parseUintLoop (num : Text) (maxVal : Nat) : Nat → Text → Except ResolveError Nat
  | n, [] => .ok n
  | n, c :: cs =>
    if c.isDigit = false then .error (.num "invalid syntax" num)
    else
      let n := 10 * n + (c.toNat - '0'.toNat)
      if n > maxVal then .error (.num "value out of range" num) else parseUintLoop num maxVal n cs

/-- `strconv.ParseUint(s, 10, bitSize)`, for a size below 64. -/
def parseUint (bitSize : Nat) (s : Text) : Except ResolveError Nat :=
  if s = [] then .error (.num "invalid syntax" s) else parseUintLoop s (2 ^ bitSize - 1) 0 s

/-- `strconv.Itoa`, of a number that is not negative. -/
def itoa (n : Nat) : Text := Nat.toDigits 10 n

/-! ## IP addresses -/

/-- The number of a hexadecimal digit. -/
def hexValue (c : Char) : Option Nat :=
  if c.isDigit then some (c.toNat - '0'.toNat)
  else if 'a' ≤ c ∧ c ≤ 'f' then some (c.toNat - 'a'.toNat + 10)
  else if 'A' ≤ c ∧ c ≤ 'F' then some (c.toNat - 'A'.toNat + 10)
  else none

def isHex (c : Char) : Bool := (hexValue c).isSome

/-- One field of a dotted decimal address: 0 to 255, without leading zeros. -/
def parseOctet (field : Text) : Option UInt8 :=
  let n := Nat.ofDigitChars 10 field 0
  if field ≠ [] ∧ field.all Char.isDigit = true ∧ (field.length = 1 ∨ field.head? ≠ some '0') ∧
      n ≤ 255 then some (UInt8.ofNat n)
  else none

/-- A dotted decimal address: four fields. -/
def parseIPv4 (s : Text) : Option (List UInt8) :=
  match s.splitOn '.' with
  | [f₀, f₁, f₂, f₃] => do
    return [← parseOctet f₀, ← parseOctet f₁, ← parseOctet f₂, ← parseOctet f₃]
  | _ => none

/-- The two bytes of a group of hexadecimal digits. -/
def groupBytes (digits : Text) : List UInt8 :=
  let n := digits.foldl (fun n c => 16 * n + (hexValue c).getD 0) 0
  [UInt8.ofNat (n / 256), UInt8.ofNat n]

/-- The groups of an IPv6 address, of which there can be `left` more. `ip` is what has been
read so far, and `ellipsis` where in it the `::` stood. -/
def parseGroups : (left : Nat) → (ip : List UInt8) → (ellipsis : Option Nat) → Text →
    Option (List UInt8 × Option Nat)
  | 0, ip, ellipsis, s => if s = [] then some (ip, ellipsis) else none
  | left + 1, ip, ellipsis, s =>
    let digits := s.takeWhile isHex
    let group := ip ++ groupBytes digits
    if digits = [] ∨ 4 < digits.length then none
    else
      match s.dropWhile isHex with
      | [] => some (group, ellipsis)
      | '.' :: _ =>
        -- the digits are the first of a dotted decimal address, which ends the text
        if ellipsis = none ∧ ip.length ≠ 12 then none
        else if 16 < ip.length + 4 then none
        else (parseIPv4 s).map fun fields => (ip ++ fields, ellipsis)
      | [':'] => none
      | ':' :: ':' :: more =>
        if ellipsis.isSome then none
        else if more = [] then some (group, some group.length)
        else parseGroups left group (some group.length) more
      | ':' :: more => parseGroups left group ellipsis more
      | _ => none

/-- Zeros for the `::`, of which there must be some. -/
def expandEllipsis : List UInt8 × Option Nat → Option IP
  | (ip, none) => if ip.length = 16 then some ip else none
  | (ip, some ellipsis) =>
    if ip.length < 16 then
      some (ip.take ellipsis ++ List.replicate (16 - ip.length) 0 ++ ip.drop ellipsis)
    else none

/-- An IPv6 address without a zone. -/
def parseIPv6 : Text → Option IP
  | [':', ':'] => some (List.replicate 16 0)
  | ':' :: ':' :: s => (parseGroups 8 [] (some 0) s).bind expandEllipsis
  | s => (parseGroups 8 [] none s).bind expandEllipsis

/-- `net.ParseIP`; an IPv4 address becomes the IPv6 address it is mapped to. -/
def parseIP (s : Text) : Option IP :=
  match s.find? fun c => c = '.' ∨ c = ':' ∨ c = '%' with
  | some '.' => (parseIPv4 s).map fun ip => List.replicate 10 0 ++ [255, 255] ++ ip
  | some ':' => if '%' ∈ s then none else parseIPv6 s
  | _ => none

/-! ## Hosts and ports -/

def missingPort : String := "missing port in address"

def tooManyColons : String := "too many colons in address"

/-- The end of `net.SplitHostPort`: no bracket where none belongs, and the port behind the
last colon, which is at `i`. -/
def splitRest (hostport host : Text) (i j k : Nat) : Except ResolveError (Text × Text) :=
  if '[' ∈ hostport.drop j then .error (.addr "unexpected '[' in address" hostport)
  else if ']' ∈ hostport.drop k then .error (.addr "unexpected ']' in address" hostport)
  else .ok (host, hostport.drop (i + 1))

/-- `net.SplitHostPort`. -/
def splitHostPort (hostport : Text) : Except ResolveError (Text × Text) :=
  let i := lastIndex ':' hostport
  if i < 0 then .error (.addr missingPort hostport)
  else if hostport.head? = some '[' then
    let last := firstIndex ']' hostport
    if last < 0 then .error (.addr "missing ']' in address" hostport)
    else if last + 1 = hostport.length then .error (.addr missingPort hostport)
    else if last + 1 = i then
      splitRest hostport ((hostport.take last.toNat).drop 1) i.toNat 1 (last.toNat + 1)
    else if hostport[last.toNat + 1]? = some ':' then .error (.addr tooManyColons hostport)
    else .error (.addr missingPort hostport)
  else
    let host := hostport.take i.toNat
    if ':' ∈ host then .error (.addr tooManyColons hostport)
    else splitRest hostport host i.toNat 0 0

/-- `net.JoinHostPort`. -/
def netJoinHostPort (host port : Text) : Text :=
  if ':' ∈ host then '[' :: (host ++ ']' :: ':' :: port) else host ++ ':' :: port

/-- `joinHostPort`. -/
def joinHostPort (host : Text) (port : UInt16) : Text := netJoinHostPort host (itoa port.toNat)

/-- `hasPort`. -/
def hasPort (s : Text) : Bool :=
  if lastIndex '[' s = 0 then lastIndex ':' s > lastIndex ']' s else s.count ':' == 1

/-- `parsePort`. -/
def parsePort (s : Text) : Except ResolveError (Text × UInt16) := do
  let (host, sport) ← splitHostPort s
  let iport ← parseUint 16 sport
  return (host, UInt16.ofNat iport)

/-! ## Lookups -/

/-- An answer of a DNS server. -/
inductive Record where
  | a (ip : IP)
  | aaaa (ip : IP)
  | other
  deriving DecidableEq, Repr

def Record.ip : Record → Option IP
  | .a ip => some ip
  | .aaaa ip => some ip
  | .other => none

/-- `dns.ClientConfig`. -/
structure ClientConfig where
  servers : List Text
  port : Text
  deriving DecidableEq, Repr

/-- What is asked: the configuration in the file `dnsConfPath`, a server over TCP about a
host, and the resolver of the system. -/
structure DNS where
  config : Except String ClientConfig
  exchange : (server host : Text) → Except String (List Record)
  lookupIP : (host : Text) → Except String (List IP)

/-- A lookup that was made. -/
inductive Lookup where
  | tcp (server host : Text)
  | system (host : Text)
  deriving DecidableEq, Repr

/-- `tcpLookupIP`. No answer and no error is a rejection. -/
def tcpLookupIP (dns : DNS) (host : Text) : Except ResolveError (List IP) × List Lookup :=
  if '.' ∉ host then (.ok [], [])
  else
    let host := if host.getLast? = some '.' then host else host ++ ['.']
    match dns.config with
    | .error e => (.error (.dns e), [])
    | .ok cc =>
      match cc.servers with
      | [] => (.ok [], [])
      | server :: _ =>
        let server := if hasPort server then server else netJoinHostPort server cc.port
        match dns.exchange server host with
        | .error e => (.error (.dns e), [.tcp server host])
        | .ok answer => (.ok (answer.filterMap Record.ip), [.tcp server host])

/-- `ResolveAddr`, and the lookups it makes. -/
def resolveAddr (dns : DNS) (hostStr : Text) :
    Except ResolveError (List IP × UInt16) × List Lookup :=
  let hostStr := if hasPort hostStr then hostStr else hostStr ++ [':', '0']
  match parsePort hostStr with
  | .error e => (.error e, [])
  | .ok (host, port) =>
    match parseIP host with
    | some ip => (.ok ([ip], port), [])
    | none =>
      match tcpLookupIP dns host with
      | (.error e, made) => (.error e, made)
      | (.ok (ip :: ips), made) => (.ok (ip :: ips, port), made)
      | (.ok [], made) =>
        -- rejected: the resolver of the system
        match dns.lookupIP host with
        | .error e => (.error (.dns e), made ++ [.system host])
        | .ok ips => (.ok (ips, port), made ++ [.system host])

end Mlist
