import Mlist.Lib.Wire
import Mlist.Model.Keyring

/-!
# What goes over the wire

How a member packs a message into a datagram or a stream and unpacks what it receives:
`encrypt.go`, the compression of `util.go`, the packing half of `net_transport.go`, and
the state exchange of `pushpull.go`.

```
datagram        [encrypted]( hasCrc crc32 ( message | compress msgpack{Algo, Buf} ) )
stream          message | compress msgpack{Algo, Buf}
                or  encrypt size( encrypted )( … )
encrypted(m)    version nonce seal(m)
push/pull       pushPull msgpack(header) msgpack(state)… user state
```

Reading notes:

- `Packages` is what the source imports: the LZW reader and writer, AES-GCM, and the
  msgpack codec for each type that is sent with it. Nothing is assumed about them here.
  It also holds how long a slice the Go runtime can make, since a peer names lengths.
- A nonce is drawn from `crypto/rand`, which does not fail; it is an argument.
- Functions that index or slice end in an `Outcome`. An error's text is the source's; a
  crash carries the message of the panic.
- On an error `packUdp` and `packTcp` return the message beside it, which no caller looks
  at.
- A decoder and the reader it was made from share their position, so `unpackStream`
  returns one reader.
-/

namespace Mlist

open Mlist.Lib
open Mlist.Lib.Outcome (ofExcept index slice sliceFrom makeLen)

/-! ## Packages -/

/-- `compressed`; `algo` is a `compressionType`. -/
structure Compressed where
  algo : UInt8
  buf : Bytes
  deriving DecidableEq, Repr

/-- `pushPullHeader`. -/
structure PushPullHeader where
  nodes : Int
  userStateLen : Int
  deriving DecidableEq, Repr

/-- The imported packages, and the limits of the runtime. -/
structure Packages where
  lzwWrite : Bytes → Except String Bytes
  lzwRead : Bytes → Except String Bytes
  gcm : Aead
  compressed : Codec Compressed
  header : Codec PushPullHeader
  state : Codec StateToMerge
  maxStates : Nat
  maxBytes : Nat

/-- The members of a `Memberlist` that packing reads: some of its `config`, and its
keyring. -/
structure Endpoint where
  label : Bytes
  enableCompression : Bool
  encryptionVersion : UInt8
  udpBufferSize : Int
  keyring : Option { r : Keyring // r.Valid }

namespace Endpoint

/-- The keys of `m.keyring.GetKeys()`, none for a nil keyring. -/
def getKeys (e : Endpoint) : List Bytes :=
  match e.keyring with
  | none => []
  | some r => r.val.getKeys

def getPrimaryKey (e : Endpoint) : Bytes :=
  match e.keyring with
  | none => []
  | some r => r.val.getPrimaryKey

/-- `EncryptionEnabled`. -/
def encryptionEnabled (e : Endpoint) : Bool := !e.getKeys.isEmpty

end Endpoint

/-! ## Encryption -/

def maxEncryptionVersion : UInt8 := 0

def versionSize : Nat := 1

def nonceSize : Nat := 12

def tagSize : Nat := 16

def maxPushSize : Nat := 20 * 1024 * 1024

abbrev Nonce := { n : Bytes // n.length = nonceSize }

/-- `encryptOverhead`. -/
def encryptOverhead (vsn : UInt8) : Outcome Nat :=
  if vsn = 0 then .ok (versionSize + nonceSize + tagSize) else .crash "unsupported version"

/-- `aes.NewCipher` and `cipher.NewGCM`, which fail for the length of the key only. -/
def newCipher (key : Bytes) : Except String Unit :=
  if key.length = 16 ∨ key.length = 24 ∨ key.length = 32 then .ok ()
  else .error ("crypto/aes: invalid key size " ++ toString key.length)

section Encrypt

variable (pk : Packages)

/-- `encrypt`. -/
def encrypt (vsn : UInt8) (key msg aad : Bytes) (nonce : Nonce) : Outcome Bytes := do
  ofExcept (newCipher key)
  -- `buf.Grow` asks for the overhead
  let _ ← encryptOverhead vsn
  .ok (vsn :: (nonce.val ++ pk.gcm.sealed key nonce.val msg aad))

/-- `decrypt`. -/
def decrypt (key msg aad : Bytes) : Outcome Bytes := do
  ofExcept (newCipher key)
  let nonce ← slice msg versionSize (versionSize + nonceSize)
  let authCT ← sliceFrom msg (versionSize + nonceSize)
  match pk.gcm.opened key nonce authCT aad with
  | some plain => .ok plain
  | none => .error "cipher: message authentication failed"

/-- The loop of `decryptWithKeys`: the first key that opens the message. -/
def tryKeys (msg data : Bytes) : List Bytes → Outcome Bytes
  | [] => .error "no installed keys could decrypt the message"
  | key :: keys =>
    match decrypt pk key msg data with
    | .ok plain => .ok plain
    | .error _ => tryKeys msg data keys
    | .crash why => .crash why

/-- `decryptWithKeys`. -/
def decryptWithKeys (keys : List Bytes) (msg data : Bytes) : Outcome Bytes :=
  if msg.length = 0 then .error "cannot decrypt empty payload"
  else do
    let vsn ← index msg 0
    if vsn > maxEncryptionVersion then
      .error ("unsupported encryption version " ++ toString vsn.toNat)
    else do
      let overhead ← encryptOverhead vsn
      if msg.length < overhead then
        .error ("payload is too small to decrypt: " ++ toString msg.length)
      else tryKeys pk msg data keys

/-- `writeEncryptedSize`: the four bytes that say how long what follows is. -/
def writeEncryptedSize (vsn : UInt8) (size : Nat) : Outcome Bytes := do
  let overhead ← encryptOverhead vsn
  .ok (putUint32 (UInt32.ofNat (overhead + size)))

/-- `tcpAAD`. With a label, `make` already fills the length that `append` then adds to,
so the additional data start with as many zeros. -/
def tcpAAD (buf streamLabel : Bytes) : Outcome Bytes := do
  let authData ← slice buf 0 5
  if streamLabel ≠ [] then
    .ok (List.replicate (5 + streamLabel.length) 0 ++ authData ++ streamLabel)
  else .ok authData

/-- `encryptTcp`. -/
def encryptTcp (vsn : UInt8) (key msg streamLabel : Bytes) (nonce : Nonce) : Outcome Bytes := do
  let size ← writeEncryptedSize vsn msg.length
  let buf := MsgType.encrypt.code :: size
  let authData ← tcpAAD buf streamLabel
  let encrypted ← encrypt pk vsn key msg authData nonce
  .ok (buf ++ encrypted)

/-- `decryptTcp`. -/
def decryptTcp (keys : List Bytes) (r : Reader) (streamLabel : Bytes) : Outcome Bytes := do
  let (sizeBuf, r) ← ofExcept (r.copyN 4)
  let buf := MsgType.encrypt.code :: sizeBuf
  let authData ← tcpAAD buf streamLabel
  let sizeBuf ← slice buf 1 5
  let size := uint32 sizeBuf
  if size.toNat > maxPushSize then
    .error ("remote node state is larger than limit (" ++ toString size.toNat ++ ")")
  else do
    let (payload, _) ← ofExcept (r.copyN size.toNat)
    let encrypted ← sliceFrom (buf ++ payload) 5
    decryptWithKeys pk keys encrypted authData

end Encrypt

/-! ## Compression -/

def lzwAlgo : UInt8 := 0

section Compress

variable (pk : Packages)

/-- `compressed.decompress`. -/
def decompress (c : Compressed) : Except String Bytes :=
  if c.algo ≠ lzwAlgo then
    .error ("cannot decompress unknown algorithm " ++ toString c.algo.toNat)
  else pk.lzwRead c.buf

/-- `compress`, which ends in an `encode`. -/
def compress (msg : Bytes) : Except String Bytes := do
  let buf ← pk.lzwWrite msg
  let encoded ← pk.compressed.encode { algo := lzwAlgo, buf }
  .ok (MsgType.compress.code :: encoded)

/-- `decompressMsg`, which starts with a `decode`. -/
def decompressMsg (msg : Bytes) : Except String Bytes := do
  let (c, _) ← pk.compressed.decode (newReader msg)
  decompress pk c

end Compress

/-! ## Datagrams -/

/-- `%x` of an integer. -/
def hex (n : Nat) : String := String.ofList (Nat.toDigits 16 n)

namespace Endpoint

variable (pk : Packages)

/-- The first step of `packUdp` and of `packTcp`: compress, if that is configured and
makes the message shorter. -/
def shrink (e : Endpoint) (msg : Bytes) : Except String Bytes :=
  if e.enableCompression then do
    let compressed ← compress pk msg
    .ok (if compressed.length < msg.length then compressed else msg)
  else .ok msg

/-- The checksum header and what it protects. -/
def addCrc (msg : Bytes) : Bytes := MsgType.hasCrc.code :: (putUint32 (crc32 msg) ++ msg)

/-- `packUdp`. -/
def packUdp (e : Endpoint) (nonce : Nonce) (msg : Bytes) : Outcome Bytes := do
  let msg ← ofExcept (e.shrink pk msg)
  let msg := addCrc msg
  if e.encryptionEnabled then encrypt pk e.encryptionVersion e.getPrimaryKey msg e.label nonce
  else .ok msg

/-- The first step of `unpackPacket`: decrypt, if there are keys. -/
def unpackPlain (e : Endpoint) (msg packetLabel : Bytes) : Outcome Bytes :=
  if e.encryptionEnabled then decryptWithKeys pk e.getKeys msg packetLabel else .ok msg

/-- The last step of `unpackPacket`: a compressed message holds the message. -/
def inflateMsg (msg : Bytes) : Outcome Bytes := do
  let mtype ← index msg 0
  if mtype = MsgType.compress.code then do
    let rest ← sliceFrom msg 1
    ofExcept (decompressMsg pk rest)
  else .ok msg

/-- What `unpackPacket` does with a payload in the clear. -/
def unpackCrc (msg : Bytes) : Outcome Bytes :=
  if msg.length < 5 then .error "expect crc in udp message"
  else do
    let mtype ← index msg 0
    if mtype ≠ MsgType.hasCrc.code then .error "expect crc in udp message"
    else do
      let body ← sliceFrom msg 5
      let expected ← slice msg 1 5
      if crc32 body ≠ uint32 expected then
        .error ("crc for packet invalid, expect: " ++ hex (uint32 expected).toNat ++ ", got " ++
          hex (crc32 body).toNat)
      else inflateMsg pk body

/-- `unpackPacket`. -/
def unpackPacket (e : Endpoint) (msg packetLabel : Bytes) : Outcome Bytes := do
  let msg ← e.unpackPlain pk msg packetLabel
  unpackCrc pk msg

/-! ## Streams -/

/-- `packTcp`. -/
def packTcp (e : Endpoint) (nonce : Nonce) (msg streamLabel : Bytes) : Outcome Bytes := do
  let msg ← ofExcept (e.shrink pk msg)
  if e.encryptionEnabled then
    encryptTcp pk e.encryptionVersion e.getPrimaryKey msg streamLabel nonce
  else .ok msg

/-- "Reset message type and connReader": go on with these bytes instead. -/
def resetStream (data : Bytes) : Outcome (UInt8 × Reader) := do
  let mtype ← index data 0
  let rest ← sliceFrom data 1
  .ok (mtype, newReader rest)

/-- The first half of `unpackStream`: the type byte, and what stands behind it once it is
decrypted. -/
def openStream (e : Endpoint) (conn : Reader) (streamLabel : Bytes) : Outcome (UInt8 × Reader) := do
  let (buf, r) ← ofExcept (conn.readFull 1)
  let mtype ← index buf 0
  let encrypted := mtype == MsgType.encrypt.code
  if e.encryptionEnabled && !encrypted then
    .error "encryption is enabled but stream is NOT encrypted"
  else if !e.encryptionEnabled && encrypted then
    .error "stream is encrypted but encryption is NOT enabled"
  else if e.encryptionEnabled && encrypted then do
    let plain ← decryptTcp pk e.getKeys r streamLabel
    resetStream plain
  else .ok (mtype, r)

/-- The second half of `unpackStream`: a compressed message holds another one. -/
def inflateStream (mtype : UInt8) (r : Reader) : Outcome (UInt8 × Reader) :=
  if mtype = MsgType.compress.code then do
    let (c, _) ← ofExcept (pk.compressed.decode r)
    let data ← ofExcept (decompress pk c)
    resetStream data
  else .ok (mtype, r)

/-- `unpackStream`. -/
def unpackStream (e : Endpoint) (conn : Reader) (streamLabel : Bytes) :
    Outcome (UInt8 × Reader) := do
  let (mtype, r) ← e.openStream pk conn streamLabel
  inflateStream pk mtype r

end Endpoint

/-! ## State exchange -/

section PushPull

variable (pk : Packages)

/-- The loop of `encodePushPullMsg`. -/
def encodeStates : List StateToMerge → Except String Bytes
  | [] => .ok []
  | n :: nodes => do
    let encoded ← pk.state.encode n
    let rest ← encodeStates nodes
    .ok (encoded ++ rest)

/-- `encodePushPullMsg`. -/
def encodePushPullMsg (localNodes : List StateToMerge) (usrState : Bytes) :
    Except String Bytes := do
  let header ← pk.header.encode { nodes := localNodes.length, userStateLen := usrState.length }
  let nodes ← encodeStates pk localNodes
  .ok (MsgType.pushPull.code :: (header ++ (nodes ++ usrState)))

/-- The loop of `readRemoteState`. -/
def readStates : Nat → Reader → Except String (List StateToMerge × Reader)
  | 0, r => .ok ([], r)
  | n + 1, r => do
    let (s, r) ← pk.state.decode r
    let (rest, r) ← readStates n r
    .ok (s :: rest, r)

/-- `readRemoteState`. -/
def readRemoteState (r : Reader) : Outcome (List StateToMerge × Bytes) := do
  let (header, r) ← ofExcept (pk.header.decode r)
  let n ← makeLen pk.maxStates header.nodes
  let (remoteNodes, r) ← ofExcept (readStates pk n r)
  if header.userStateLen ≠ 0 then do
    let n ← makeLen pk.maxBytes header.userStateLen
    let (usrState, _) ← ofExcept (r.readFull n)
    .ok (remoteNodes, usrState)
  else .ok (remoteNodes, [])

/-- What a connection delivers: its message type and, for a push/pull, the remote
state. The other types are read by their own handlers. -/
def Endpoint.receiveStream (e : Endpoint) (conn : Reader) (streamLabel : Bytes) :
    Outcome (UInt8 × Option (List StateToMerge × Bytes)) := do
  let (mtype, r) ← e.unpackStream pk conn streamLabel
  if mtype = MsgType.pushPull.code then do
    let remote ← readRemoteState pk r
    .ok (mtype, some remote)
  else .ok (mtype, none)

end PushPull

end Mlist
