/-
# `ProxySocksSession`: two directions, four handlers

A session relays between the client socket and the remote one.  Each direction alternates
between a read and a write, and the two interleave as the event loop likes.  The handlers of
one direction differ from those of the other in the buffers they use, and in one more thing:
what the client has sent is written from `dataClientCopy_`, what the remote has sent straight
from `dataRemote_` (`writtenData`); the copy of the latter is made and never used.

The event loop is explicit.  An `async_write` may take the bytes from its buffer at any time
until it completes, so a pending write is transferred piece by piece (`Event.transfer`), each
piece as the buffer holds it at that moment.  After the deletion of the connection, which
destroys both sockets, nothing is transferred any more, while the pending operations still
complete, with an error or with the success that was already queued.

`max_length` is 10000, and every operation uses 1024 bytes of it at most.
-/
import TwoProxy.Asio
import TwoProxy.Lib.Run
import Mathlib.Logic.Function.Basic

namespace TwoProxy

/-! ## 1. Data -/

/-- `char [max_length]`. -/
structure Data where
  bytes : Bytes
  size_eq : bytes.length = 10000
  deriving DecidableEq

/-- A read leaves the bytes behind the ones it delivers as they were. -/
def Data.fill (b : Data) (c : Chunk) : Data where
  bytes := c.bytes ++ b.bytes.drop c.bytes.length
  size_eq := by
    have h1 := b.size_eq
    have h2 := c.le
    simp only [List.length_append, List.length_drop]
    omega

/-- `std::copy_n(source, n, target)`. -/
def copy_n (source : Data) (n : Nat) (target : Data) : Data where
  bytes := source.bytes.take n ++ target.bytes.drop n
  size_eq := by
    have h1 := source.size_eq
    have h2 := target.size_eq
    simp only [List.length_append, List.length_take, List.length_drop]
    omega

structure ProxySocksSession where
  shutdownInProgress_ : Bool
  dataClient_ : Data
  dataClientCopy_ : Data
  dataRemote_ : Data
  dataRemoteCopy_ : Data

namespace ProxySocksSession

/-- From the client to the remote, or back. -/
inductive Direction
  | toRemote
  | toClient
  deriving DecidableEq, Repr

/-- A pending operation of a direction: a read on the socket it comes from, or a write of
`len` bytes on the one it goes to. -/
inductive Op
  | read
  | write (len : Nat)
  deriving DecidableEq, Repr

/-- What a handler did. -/
inductive Action
  | start (d : Direction) (op : Op)
  | deleteConnection
  deriving DecidableEq, Repr

/-- What has gone over the two sockets of a direction: the bytes read, the bytes taken from
the buffers of writes, the bytes whose write has completed, and the number of bytes taken for
the write that was started last. -/
structure Wire where
  received : Bytes
  transferred : Bytes
  completed : Bytes
  progress : Nat
  deriving DecidableEq

structure World where
  session : ProxySocksSession
  pending : Direction → List Op
  wire : Direction → Wire
  deleted : Nat
  trace : List Action

/-- The constructor.  The buffers are not initialised. -/
def create (dataClient_ dataClientCopy_ dataRemote_ dataRemoteCopy_ : Data) :
    ProxySocksSession :=
  ⟨false, dataClient_, dataClientCopy_, dataRemote_, dataRemoteCopy_⟩

/-- The buffer that a direction writes from. -/
def writtenData (s : ProxySocksSession) : Direction → Data
  | .toRemote => s.dataClientCopy_
  | .toClient => s.dataRemote_

/-- The bytes of a read are in the buffer of its direction. -/
def filled (s : ProxySocksSession) (c : Chunk) : Direction → ProxySocksSession
  | .toRemote => { s with dataClient_ := s.dataClient_.fill c }
  | .toClient => { s with dataRemote_ := s.dataRemote_.fill c }

/-- The copy that a read handler makes. -/
def copied (s : ProxySocksSession) (n : Nat) : Direction → ProxySocksSession
  | .toRemote => { s with dataClientCopy_ := copy_n s.dataClient_ n s.dataClientCopy_ }
  | .toClient => { s with dataRemoteCopy_ := copy_n s.dataRemote_ n s.dataRemoteCopy_ }

namespace World

def startRead (d : Direction) (w : World) : World :=
  { w with
    pending := Function.update w.pending d (w.pending d ++ [.read])
    trace := w.trace ++ [.start d .read] }

def startWrite (d : Direction) (len : Nat) (w : World) : World :=
  { w with
    pending := Function.update w.pending d (w.pending d ++ [.write len])
    wire := Function.update w.wire d { w.wire d with progress := 0 }
    trace := w.trace ++ [.start d (.write len)] }

end World

/-! ## 2. The handlers -/

/-- `parentConnection_.Shutdown()` leads to `delete this` on the owning `Connection`. -/
def Shutdown (w : World) : World :=
  if !w.session.shutdownInProgress_ then
    { w with
      session := { w.session with shutdownInProgress_ := true }
      deleted := w.deleted + 1
      trace := w.trace ++ [.deleteConnection] }
  else w

/-- A read handler. -/
def HandleProxyRead (d : Direction) (error : Bool) (bytes_transferred : Nat) (w : World) :
    World :=
  if !error && !w.session.shutdownInProgress_ then
    let w := { w with session := w.session.copied bytes_transferred d }
    if bytes_transferred > 0 then w.startWrite d bytes_transferred else w
  else Shutdown w

/-- A write handler. -/
def HandleProxyWrite (d : Direction) (error : Bool) (w : World) : World :=
  if error || w.session.shutdownInProgress_ then Shutdown w else w.startRead d

def HandleClientProxyRead : Bool → Nat → World → World := HandleProxyRead .toRemote

def HandleRemoteProxyRead : Bool → Nat → World → World := HandleProxyRead .toClient

def HandleRemoteProxyWrite : Bool → World → World := HandleProxyWrite .toRemote

def HandleClientProxyWrite : Bool → World → World := HandleProxyWrite .toClient

def Start (s : ProxySocksSession) : World :=
  let w : World := ⟨s, fun _ => [], fun _ => ⟨[], [], [], 0⟩, 0, []⟩
  (w.startRead .toRemote).startRead .toClient

/-! ## 3. The event loop -/

/-- A completion, or the transfer of `n` more bytes of a pending write of `len` bytes.  A
read that fails, at the end of the file or otherwise, delivers `none`. -/
inductive Event
  | read (d : Direction) (data : Option Chunk)
  | transfer (d : Direction) (len n : Nat)
  | write (d : Direction) (len : Nat) (error : Bool)
  deriving DecidableEq

def Event.direction : Event → Direction
  | .read d _ => d
  | .transfer d _ _ => d
  | .write d _ _ => d

/-- The completion carries an error. -/
def Event.IsError : Event → Prop
  | .read _ data => data = none
  | .transfer _ _ _ => False
  | .write _ _ error => error = true

/-- What can happen next.  A write completes without error only when all of it has been
transferred, and nothing is transferred on a destroyed socket. -/
def Enabled (w : World) : Event → Prop
  | .read d _ => .read ∈ w.pending d
  | .transfer d len n => w.deleted = 0 ∧ .write len ∈ w.pending d ∧ 0 < n ∧
      (w.wire d).progress + n ≤ len
  | .write d len error => .write len ∈ w.pending d ∧
      (error = false → (w.wire d).progress = len)

instance (w : World) : (e : Event) → Decidable (Enabled w e)
  | .read d _ => inferInstanceAs (Decidable (Op.read ∈ w.pending d))
  | .transfer d len n => inferInstanceAs (Decidable (w.deleted = 0 ∧ Op.write len ∈ w.pending d ∧
      0 < n ∧ (w.wire d).progress + n ≤ len))
  | .write d len error => inferInstanceAs (Decidable (Op.write len ∈ w.pending d ∧
      (error = false → (w.wire d).progress = len)))

/-- What `asio` does before it runs the handler. -/
def arrive (w : World) : Event → World
  | .read d (some c) =>
    { w with
      session := w.session.filled c d
      pending := Function.update w.pending d ((w.pending d).erase .read)
      wire := Function.update w.wire d
        { w.wire d with received := (w.wire d).received ++ c.bytes } }
  | .read d none =>
    { w with pending := Function.update w.pending d ((w.pending d).erase .read) }
  | .transfer d len n =>
    { w with
      wire := Function.update w.wire d { w.wire d with
        transferred := (w.wire d).transferred ++
          (((w.session.writtenData d).bytes.take len).drop (w.wire d).progress).take n
        progress := (w.wire d).progress + n } }
  | .write d len false =>
    { w with
      pending := Function.update w.pending d ((w.pending d).erase (.write len))
      wire := Function.update w.wire d
        { w.wire d with completed := (w.wire d).transferred } }
  | .write d len true =>
    { w with pending := Function.update w.pending d ((w.pending d).erase (.write len)) }

/-- The handler of an event. -/
def handle (w : World) : Event → World
  | .read .toRemote (some c) => HandleClientProxyRead false c.bytes.length w
  | .read .toRemote none => HandleClientProxyRead true 0 w
  | .read .toClient (some c) => HandleRemoteProxyRead false c.bytes.length w
  | .read .toClient none => HandleRemoteProxyRead true 0 w
  | .transfer _ _ _ => w
  | .write .toRemote _ error => HandleRemoteProxyWrite error w
  | .write .toClient _ error => HandleClientProxyWrite error w

/-- One turn of the event loop. -/
def step (w : World) (e : Event) : Option World :=
  if Enabled w e then some (handle (arrive w e) e) else none

/-- The events lead from `Start` of a new session to this world. -/
def Reaches (es : List Event) (w : World) : Prop :=
  ∃ dataClient_ dataClientCopy_ dataRemote_ dataRemoteCopy_, Transition.Run step
    (Start (create dataClient_ dataClientCopy_ dataRemote_ dataRemoteCopy_)) es w

end ProxySocksSession

end TwoProxy
