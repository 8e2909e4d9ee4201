/-
# `Server`: the connections that share an event loop

`Server` keeps an `async_accept` pending.  Its handler starts the connection that has been
accepted, or deletes the one that has not, and asks for the next one.  Everything runs on the
one `io_service` of `main`, which catches nothing, so that an exception that leaves a handler
of one connection ends the event loop of all of them.

A `Connection*` is the position of the object in the list of those that have been created, in
which a deleted one keeps its place.  `Connection::Start` takes its HTTP branch, because
`socksVer` is initialised with `versionUnknown` and the call that would read a version is
commented out.
-/
import TwoProxy.HttpConnection

namespace TwoProxy

namespace Server

/-- The members of an `HttpConnection` that its constructor does not initialise. -/
structure Uninitialised where
  bbuffer : Buffer
  sbuffer : Buffer
  newStart_ : Nat
  newServerReadStart_ : Nat

/-- A `Connection` that has been created: its socket waits for a client, or `Start` has been
executed, or `HandleAccept` has deleted it. -/
inductive Slot
  | waiting
  | started (w : TwoProxy.World)
  | refused

structure World where
  connections : List Slot
  /-- The pending `async_accept`s, each with the `newConnection` bound to its handler. -/
  accepts : List Nat

/-! ## 1. The handlers -/

/-- `Connection::Start`. -/
def Start (memory : Uninitialised) : Slot :=
  .started (HttpConnection.started memory.bbuffer memory.sbuffer memory.newStart_
    memory.newServerReadStart_)

/-- `Connection::Create`, and an `async_accept` on the socket of what it returns. -/
def StartAccept (w : World) : World where
  connections := w.connections ++ [.waiting]
  accepts := w.accepts ++ [w.connections.length]

def HandleAccept (newConnection : Nat) (error : Bool) (memory : Uninitialised) (w : World) :
    World :=
  StartAccept
    (if !error then { w with connections := w.connections.set newConnection (Start memory) }
    else { w with connections := w.connections.set newConnection .refused })

/-! ## 2. The event loop -/

/-- An accept completes, or an operation of a connection. -/
inductive Event
  | accept (newConnection : Nat) (error : Bool) (memory : Uninitialised)
  | connection (i : Nat) (e : HttpConnection.Event)

/-- An exception has left a handler of the connection, or an iterator the buffers. -/
def Slot.halts : Slot → Bool
  | .waiting => false
  | .started w => w.escaped || w.overrun
  | .refused => false

/-- One turn of the event loop of `main`. -/
def step (w : World) (e : Event) : Option World :=
  if w.connections.any Slot.halts then none
  else
    match e with
    | .accept newConnection error memory =>
      if newConnection ∈ w.accepts then
        some (HandleAccept newConnection error memory
          { w with accepts := w.accepts.erase newConnection })
      else none
    | .connection i e =>
      match w.connections[i]? with
      | some (.started c) =>
        (HttpConnection.step c e).map fun c' =>
          { w with connections := w.connections.set i (.started c') }
      | _ => none

/-- The constructor. -/
def create : World := StartAccept ⟨[], []⟩

/-- The events lead from `main` to this world. -/
def Reaches (es : List Event) (w : World) : Prop := Transition.Run step create es w

end Server

end TwoProxy
