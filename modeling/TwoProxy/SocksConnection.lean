/-
# `SocksConnection`: the set-up of a SOCKS connection

`HandleHandshake` and `HandleRequest` do blocking input and output, and throw when an
operation fails.  They are programs over a `Setup`, the members of the connection together
with the bytes the client is still to send and the calls made so far.

What lies outside the program is a `Network`: which writes and connects succeed, and what a
name resolves to.  The bytes of the client end where its stream ends or fails, and a read
that asks for more throws.

`HandleResolve` is bound by nobody and left out, and so are the branches under `#if 0` and
those taken when `isBinding` is set, which it never is.
-/
import TwoProxy.Asio
import TwoProxy.HttpUtil
import TwoProxy.Socks5
import TwoProxy.Lib.Triple

namespace TwoProxy

/-- `remoteSocket_` is null, or open and not connected, or connected. -/
inductive RemoteSocket
  | null
  | unconnected
  | connected (endpoint : Endpoint)
  deriving DecidableEq

structure SocksConnection where
  buffer_ : Buffer
  remoteSocket_ : RemoteSocket
  /-- `proxySocksSession_` has been created and started. -/
  proxySocksSession_ : Bool

namespace SocksConnection

/-! ## 1. Blocking calls -/

/-- The calls that leave a trace outside. -/
inductive Call
  | write (bytes : Bytes)
  | resolve (name port : Bytes)
  | connect (endpoint : Endpoint)
  | startSession
  deriving DecidableEq

structure Setup where
  conn : SocksConnection
  input : Bytes
  calls : List Call

/-- The world outside.  `succeeds calls call` says whether `call` succeeds after `calls`; a
resolve that succeeds returns a non-empty range of endpoints. -/
structure Network where
  succeeds : List Call → Call → Bool
  resolve : Bytes → Bytes → Option (Endpoint × List Endpoint)

/-- A program that blocks; the exceptions are not told apart. -/
abbrev Program (α : Type) := EStateM Unit Setup α

/-- `ba::read` of `n` bytes into memory of that size. -/
def read (n : Nat) : Program Bytes := fun s =>
  if n ≤ s.input.length then .ok (s.input.take n) { s with input := s.input.drop n }
  else .error () { s with input := [] }

/-- `ba::read` into `ba::buffer(buffer_, n)`, which is limited to the 1024 bytes of the
array.  It returns the number of bytes read. -/
def readBuffer (n : Nat) : Program Nat := fun s =>
  let n := min n 1024
  if h : n ≤ s.input.length then
    .ok n { s with
      input := s.input.drop n
      conn := { s.conn with
        buffer_ := ⟨s.input.take n ++ s.conn.buffer_.bytes.drop n, by
          have h1 := s.conn.buffer_.size_eq
          simp only [List.length_append, List.length_take, List.length_drop]
          omega⟩ } }
  else .error () { s with input := [] }

/-- A call that throws when it fails. -/
def call (net : Network) (c : Call) : Program Unit := fun s =>
  if net.succeeds s.calls c then .ok () { s with calls := s.calls ++ [c] }
  else .error () { s with calls := s.calls ++ [c] }

def write (net : Network) (bytes : Bytes) : Program Unit := call net (.write bytes)

/-- `remoteSocket_.reset(new ba::ip::tcp::socket(ioService_))`. -/
def resetRemoteSocket : Program Unit := fun s =>
  .ok () { s with conn := { s.conn with remoteSocket_ := .unconnected } }

/-- `remoteSocket_->connect(endpoint)`. -/
def connectRemoteSocket (net : Network) (endpoint : Endpoint) : Program Unit := do
  call net (.connect endpoint)
  fun s => .ok () { s with conn := { s.conn with remoteSocket_ := .connected endpoint } }

/-- `resolver_.resolve(query)`. -/
def resolveName (net : Network) (name port : Bytes) : Program (Endpoint × List Endpoint) :=
  fun s =>
    match net.resolve name port with
    | some endpoints => .ok endpoints { s with calls := s.calls ++ [.resolve name port] }
    | none => .error () { s with calls := s.calls ++ [.resolve name port] }

/-- `proxySocksSession_.reset(...)` and `proxySocksSession_->Start()`. -/
def startSession : Program Unit := fun s =>
  .ok () { s with
    conn := { s.conn with proxySocksSession_ := true }
    calls := s.calls ++ [.startSession] }

/-- The member `buffer_`. -/
def getBuffer : Program Buffer := fun s => .ok s.conn.buffer_ s

/-! ## 2. The handshake and the request -/

/-- The comparison is assigned to `readSize`, not the number of bytes, and `read` returns the
number it was asked for. -/
def HandleHandshake (net : Network) : Program Bool := do
  let b ← read 1
  let metIdentif : MethodIdentification := ⟨b.headD 0⟩
  let nmethods := metIdentif.nmethods_.toNat
  if !metIdentif.Success then
    pure false
  else do
    let readSize ← readBuffer nmethods
    if readSize ≠ nmethods then
      pure false
    else do
      let buffer_ ← getBuffer
      let method := (buffer_.bytes.take nmethods).foldl
        (fun method b => if b = METHOD_NO_AUTH then METHOD_NO_AUTH else method)
        METHOD_NOT_AVAILABLE
      write net { MethodSelectionPacket.create METHOD_NOT_AVAILABLE with method := method }.buffers
      pure true

/-- A `char` is signed, and becomes a `size_t`. -/
def charToSize (b : Byte) : Nat :=
  if b.toNat < 128 then b.toNat else 2 ^ sizeBits - 256 + b.toNat

/-- `SERVER_PORT`. -/
def SERVER_PORT : UInt16 := 1081

/-- The reply that follows a connect, and the session. -/
def replyAndStart (net : Network) : Program Bool := do
  write net (SOCK5Response.create true 0 SERVER_PORT).buffers
  startSession
  pure true

/-- `case atyp_ipv4`.  A command that is not `connect` connects nothing, and goes on. -/
def requestIpv4 (net : Network) (header : SOCKS5RequestHeader) : Program Bool := do
  let body ← read 6
  let req : SOCK5IP4RequestBody :=
    ⟨load32 (body.getD 0 0) (body.getD 1 0) (body.getD 2 0) (body.getD 3 0),
      load16 (body.getD 4 0) (body.getD 5 0)⟩
  if header.cmd_ = SOCKS5RequestHeader.connect then do
    connectRemoteSocket net ⟨address_v4 (ntohl req.ipDst_), ntohs req.port_⟩
    replyAndStart net
  else replyAndStart net

/-- `case atyp_dname`.  The command is not looked at, and of the endpoints only the first is
tried. -/
def requestDname (net : Network) : Program Bool := do
  let _ ← readBuffer 1
  let buffer_ ← getBuffer
  let addrLen ← readBuffer (charToSize (buffer_.bytes.headD 0))
  let buffer_ ← getBuffer
  let fqdnAddress := buffer_.bytes.take addrLen
  let port ← read 2
  let portStr := ascii (toString (ntohs (load16 (port.getD 0 0) (port.getD 1 0))).toNat)
  let iter ← resolveName net fqdnAddress portStr
  resetRemoteSocket
  connectRemoteSocket net iter.1
  replyAndStart net

def HandleRequest (net : Network) : Program Bool := do
  let b ← read 4
  let header : SOCKS5RequestHeader := ⟨b.getD 0 0, b.getD 1 0, b.getD 2 0, b.getD 3 0⟩
  if !header.Success then
    pure false
  else do
    resetRemoteSocket
    if header.atyp_ = SOCKS5RequestHeader.atyp_ipv4 then requestIpv4 net header
    else if header.atyp_ = SOCKS5RequestHeader.atyp_dname then requestDname net
    else pure false

/-! ## 3. A network to run things on -/

/-- Every call succeeds, and every name stands for one endpoint. -/
def openNetwork : Network where
  succeeds _ _ := true
  resolve _ _ := some (⟨[10, 0, 0, 1], 80⟩, [])

end SocksConnection

end TwoProxy
