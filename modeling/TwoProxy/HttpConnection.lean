/-
# `HttpConnection`: the handlers, and the event loop around them

`HttpConnection.cpp` is a chain of completion handlers.  Each one runs to its end on the
`io_service` thread and, on most of its exits, starts the operation whose completion runs the
next.  A `World` is the connection together with what the event loop knows of it: the pending
operations, and the trace of what the handlers did.

What a handler cannot do by itself is made explicit:

* `deleted` counts the executions of `delete this` in `Connection::Shutdown`;
* `escaped` is set when an exception leaves a handler, and so leaves `io_service::run`;
* `overrun` is set when an iterator is dereferenced outside the two buffers, after which the
  language promises nothing.

`bbuffer` and `sbuffer` are adjacent `char` arrays of one object, and the code compares
iterators of one against the other, so the model addresses them as one block (`memory`): an
iterator is an offset, `bbuffer.begin()` is `0` and `sbuffer.begin()` is `1024`.

The three handlers marked `remove me` in the header are bound by nobody but each other and
are left out.
-/
import TwoProxy.Asio
import TwoProxy.HttpUtil
import TwoProxy.Message
import TwoProxy.RequestParser
import TwoProxy.ResponseParser
import TwoProxy.Lib.Run

namespace TwoProxy

/-! ## 1. Data -/

inductive ClientRequestState
  | Method
  | Uri
  | Version
  | Headers
  deriving DecidableEq

inductive ServerResponseState
  | ReadUntilBody
  | Body
  deriving DecidableEq

structure HttpConnection where
  isOpened : Bool
  fServer : Bytes
  fPort : Bytes
  fReq : Bytes
  reqHeaders_ : Bytes
  bbuffer : Buffer
  sbuffer : Buffer
  partialParsed_ : Bytes
  partialParsedServer_ : Bytes
  newStart_ : Nat
  newServerReadStart_ : Nat
  clientRequestState_ : ClientRequestState
  serverResponseState_ : ServerResponseState
  parser_ : RequestParser.StateType
  responseParser_ : ResponseParser.StateType
  message_ : BasicMessage
  isShuttingDown_ : Bool

/-- An asynchronous operation, with what is bound to its handler.  The iterator bound to a
connect is the list of the endpoints still ahead of it. -/
inductive AsyncOp
  | browserRead
  | resolve (host port : Bytes)
  | connect (endpoint : Endpoint) (endpoint_iterator : List Endpoint)
  | serverWrite (buffer : Bytes)
  | serverRead
  | clientWrite (buffer : Bytes)
  deriving DecidableEq

/-- The lines written with `FILE_LOG(logERROR)`, those of `ParseUri` among them. -/
inductive ErrorLine
  | processingMethod
  | processingUri
  | processingHttpVersion
  | processingHttpHeaders
  | processingReadUntilBody
  | invalidUriFormat (uri : Bytes)
  | handleResolveFailed
  | handleConnectFailed
  | handleServerWriteFailed
  deriving DecidableEq

/-- What a handler did, in order. -/
inductive Action
  | start (op : AsyncOp)
  | startConnect
  | startWriteToServer
  | logError (line : ErrorLine)
  | deleteConnection
  deriving DecidableEq

structure World where
  conn : HttpConnection
  pending : List AsyncOp
  deleted : Nat
  escaped : Bool
  overrun : Bool
  trace : List Action

namespace World

def act (w : World) (a : Action) : World := { w with trace := w.trace ++ [a] }

def start (w : World) (op : AsyncOp) : World :=
  { w with pending := w.pending ++ [op], trace := w.trace ++ [.start op] }

def log (w : World) (line : ErrorLine) : World := w.act (.logError line)

/-- An exception leaves the handler. -/
def throw (w : World) : World := { w with escaped := true }

/-- An iterator is dereferenced outside the buffers. -/
def outOfRange (w : World) : World := { w with overrun := true }

/-- A connection before anything has been started on it. -/
def init (c : HttpConnection) : World := ⟨c, [], 0, false, false, []⟩

end World

namespace HttpConnection

/-- The block that the iterators point into. -/
def memory (c : HttpConnection) : Bytes := c.bbuffer.bytes ++ c.sbuffer.bytes

/-- The constructor.  The two buffers and the two iterators are not initialised. -/
def create (bbuffer sbuffer : Buffer) (newStart_ newServerReadStart_ : Nat) :
    HttpConnection where
  isOpened := false
  fServer := []
  fPort := []
  fReq := []
  reqHeaders_ := []
  bbuffer := bbuffer
  sbuffer := sbuffer
  partialParsed_ := []
  partialParsedServer_ := []
  newStart_ := newStart_
  newServerReadStart_ := newServerReadStart_
  clientRequestState_ := .Method
  serverResponseState_ := .ReadUntilBody
  parser_ := .MethodStart
  responseParser_ := .HttpResponseBegin
  message_ := .empty
  isShuttingDown_ := false

/-! ## 2. Shutdown -/

/-- `parrentConn_.Shutdown()` is `delete this` on the owning `Connection`. -/
def Shutdown (w : World) : World :=
  if !w.conn.isShuttingDown_ then
    { w with
      conn := { w.conn with isShuttingDown_ := true }
      deleted := w.deleted + 1
      trace := w.trace ++ [.deleteConnection] }
  else w

def IsStopped (w : World) : Bool := w.conn.isShuttingDown_

/-! ## 3. The request side -/

def Start (w : World) : World :=
  { w with conn := { w.conn with newStart_ := 0 } }.start .browserRead

def ReadMoreFromBrowser (w : World) : World := w.start .browserRead

/-- The request sent to the origin. -/
def request (method destination headers : Bytes) : Bytes :=
  method ++ ascii " " ++ destination ++ ascii " HTTP/" ++ ascii "1.0" ++ ascii "\r\n" ++ headers

def StartWriteToServer (w : World) : World :=
  let w := w.act .startWriteToServer
  let fReq := request w.conn.message_.method_ w.conn.message_.destination_ w.conn.reqHeaders_
  { w with conn := { w.conn with fReq := fReq } }.start (.serverWrite fReq)

/-- The two ways out by exception are `throw std::exception("Invalid URI")` and a `substr`
that throws inside `ParseUri`.  Each of the two exits of `ParseUri` that return false has
written the line on the format. -/
def StartConnect (w : World) : World :=
  let w := w.act .startConnect
  match ParseUri sizeBits w.conn.message_.destination_ [] [] with
  | some (true, host, port) =>
    if !w.conn.isOpened then
      { w with conn := { w.conn with fServer := host, fPort := port } }.start
        (.resolve host port)
    else StartWriteToServer w
  | some (false, _, _) => (w.log (.invalidUriFormat w.conn.message_.destination_)).throw
  | none => w.throw

/-- A call of `parser_.ParseUntil`: its stop state and its range, and the memory and the state
of the parser that it finds. -/
structure ParseCall where
  stopState : RequestParser.StateType
  memory : Bytes
  range : Nat × Nat
  parser_ : RequestParser.StateType

/-- What the call returns. -/
def ParseCall.result (call : ParseCall) : Option (Scan.Parsed RequestParser.StateType) :=
  RequestParser.ParseUntil call.stopState call.memory call.range call.parser_

/-- The call in the `case` that ends at `stopState`. -/
def parseCall (stopState : RequestParser.StateType) (dataEnd_ : Nat) (c : HttpConnection) :
    ParseCall where
  stopState := stopState
  memory := c.memory
  range := (c.newStart_, dataEnd_)
  parser_ := c.parser_

/-- A `case` of the `switch` that ends at `stopState`.  `here` and `next` are the values
given to `clientRequestState_` on its two exits that read more, `store` is what is done with
the token, and `fallThrough` is the `case` below it.  With the world it leaves behind it
returns the calls of `ParseUntil` that it has made. -/
def tokenCase (stopState : RequestParser.StateType) (here next : ClientRequestState)
    (line : ErrorLine) (store : Bytes → BasicMessage → BasicMessage)
    (fallThrough : Nat → World → World × List ParseCall) (dataEnd_ : Nat) (w : World) :
    World × List ParseCall :=
  let call := parseCall stopState dataEnd_ w.conn
  match call.result with
  | none => (w.outOfRange, [call])
  | some resultRange =>
    let token :=
      w.conn.partialParsed_ ++ w.conn.memory.extract resultRange.first resultRange.second
    match resultRange.verdict with
    | .ParsedFailed =>
      -- `break`, with no operation started and no `Shutdown`
      ({ w with conn := { w.conn with parser_ := resultRange.state } }.log line, [call])
    | .ParsedOK =>
      let c := { w.conn with
        parser_ := resultRange.state
        message_ := store token w.conn.message_
        newStart_ := resultRange.second
        partialParsed_ := [] }
      if resultRange.second = dataEnd_ then
        (ReadMoreFromBrowser { w with conn := { c with clientRequestState_ := next } }, [call])
      else
        let below := fallThrough dataEnd_ { w with conn := c }
        (below.1, call :: below.2)
    | .Indeterminate =>
      (ReadMoreFromBrowser
        { w with conn := { w.conn with
          parser_ := resultRange.state
          partialParsed_ := token
          newStart_ := 0
          clientRequestState_ := here } }, [call])

/-- `case Headers`: the head is complete, and `newStart_` stays where the stage began. -/
def caseHeaders (dataEnd_ : Nat) (w : World) : World × List ParseCall :=
  let call := parseCall .HeadersDone dataEnd_ w.conn
  match call.result with
  | none => (w.outOfRange, [call])
  | some resultRange =>
    let token :=
      w.conn.partialParsed_ ++ w.conn.memory.extract resultRange.first resultRange.second
    match resultRange.verdict with
    | .ParsedFailed =>
      ({ w with conn := { w.conn with parser_ := resultRange.state } }.log
        .processingHttpHeaders, [call])
    | .ParsedOK =>
      let w := StartConnect
        { w with conn := { w.conn with
          parser_ := resultRange.state
          partialParsed_ := token
          reqHeaders_ := token } }
      -- an exception in `StartConnect` skips the rest
      (if w.escaped then w else { w with conn := { w.conn with partialParsed_ := [] } }, [call])
    | .Indeterminate =>
      (ReadMoreFromBrowser
        { w with conn := { w.conn with
          parser_ := resultRange.state
          partialParsed_ := token
          newStart_ := 0
          clientRequestState_ := .Headers } }, [call])

/-- `case Version`: `BasicMessage` has no version, so the token is dropped. -/
def caseVersion : Nat → World → World × List ParseCall :=
  tokenCase .VersionDone .Version .Headers .processingHttpVersion (fun _ m => m) caseHeaders

def caseUri : Nat → World → World × List ParseCall :=
  tokenCase .UriDone .Uri .Version .processingUri (fun token m => m.setDestination token)
    caseVersion

def caseMethod : Nat → World → World × List ParseCall :=
  tokenCase .MethodDone .Method .Uri .processingMethod (fun token m => m.setMethod token)
    caseUri

/-- The handler, with the calls of `ParseUntil` that it makes. -/
def HandleBrowserReadHeaders (err : Bool) (len : Nat) (w : World) : World × List ParseCall :=
  if !err && !IsStopped w then
    match w.conn.clientRequestState_ with
    | .Method => caseMethod len w
    | .Uri => caseUri len w
    | .Version => caseVersion len w
    | .Headers => caseHeaders len w
  else (Shutdown w, [])

/-! ## 4. Resolving and connecting -/

def HandleResolve (err : Bool) (endpoint_iterator : List Endpoint) (w : World) : World :=
  if !err then
    match endpoint_iterator with
    | endpoint :: rest => w.start (.connect endpoint rest)
    | [] => w.outOfRange
  else Shutdown (w.log .handleResolveFailed)

def HandleConnect (err : Bool) (endpoint_iterator : List Endpoint) (w : World) : World :=
  if !err then StartWriteToServer { w with conn := { w.conn with isOpened := true } }
  else
    match endpoint_iterator with
    | endpoint :: rest => w.start (.connect endpoint rest)
    | [] => Shutdown (w.log .handleConnectFailed)

/-! ## 5. The response side -/

def HandleServerWrite (err : Bool) (w : World) : World :=
  if !err && !IsStopped w then
    let w := w.start .serverRead
    { w with conn := { w.conn with newServerReadStart_ := 1024 } }
  else Shutdown (w.log .handleServerWriteFailed)

def SendDataToClient (len : Nat) (w : World) : World :=
  w.start (.clientWrite (w.conn.sbuffer.bytes.take len))

/-- The iterator is re-armed to `bbuffer.begin()`. -/
def ReadMoreFromServer (w : World) : World :=
  let w := w.start .serverRead
  { w with conn := { w.conn with newServerReadStart_ := 0 } }

def HandleClientWrite (err : Bool) (w : World) : World :=
  if !err && !IsStopped w then ReadMoreFromServer w else Shutdown w

/-- `case ReadUntilBody`, which falls through to `case Body` when the head ends inside the
read. -/
def caseReadUntilBody (len : Nat) (w : World) : World :=
  match ResponseParser.ParseUntil .HttpHeadersDone w.conn.memory
      (w.conn.newServerReadStart_, 1024 + len) w.conn.responseParser_ with
  | none => w.outOfRange
  | some resultRange =>
    match resultRange.verdict with
    | .ParsedFailed =>
      -- `break`, with nothing forwarded and no `Shutdown`
      { w with conn := { w.conn with responseParser_ := resultRange.state } }.log
        .processingReadUntilBody
    | .ParsedOK =>
      let c := { w.conn with
        responseParser_ := resultRange.state
        newServerReadStart_ := resultRange.second
        partialParsedServer_ := [] }
      if resultRange.second = 1024 + len then
        SendDataToClient len { w with conn := { c with serverResponseState_ := .Body } }
      else SendDataToClient len { w with conn := c }
    | .Indeterminate =>
      SendDataToClient len
        { w with conn := { w.conn with
          responseParser_ := resultRange.state
          partialParsedServer_ := w.conn.partialParsedServer_ ++
            w.conn.memory.extract resultRange.first resultRange.second
          serverResponseState_ := .ReadUntilBody } }

def HandleServerRead (err : Bool) (len : Nat) (w : World) : World :=
  if !err && !IsStopped w then
    match w.conn.serverResponseState_ with
    | .ReadUntilBody => caseReadUntilBody len w
    | .Body => SendDataToClient len w
  else Shutdown w

/-! ## 6. The event loop -/

/-- A completion.  A read that fails delivers `none`; a resolve that succeeds delivers a
non-empty range of endpoints. -/
inductive Event
  | browserRead (data : Option Chunk)
  | resolve (host port : Bytes) (endpoints : Option (Endpoint × List Endpoint))
  | connect (endpoint : Endpoint) (endpoint_iterator : List Endpoint) (err : Bool)
  | serverWrite (buffer : Bytes) (err : Bool)
  | serverRead (data : Option Chunk)
  | clientWrite (buffer : Bytes) (err : Bool)
  deriving DecidableEq

/-- The operation that an event completes. -/
def Event.op : Event → AsyncOp
  | .browserRead _ => .browserRead
  | .resolve host port _ => .resolve host port
  | .connect endpoint endpoint_iterator _ => .connect endpoint endpoint_iterator
  | .serverWrite buffer _ => .serverWrite buffer
  | .serverRead _ => .serverRead
  | .clientWrite buffer _ => .clientWrite buffer

/-- The handler of an event.  The bytes of a successful read are in the buffer when it
runs. -/
def handle (w : World) : Event → World
  | .browserRead (some data) =>
    (HandleBrowserReadHeaders false data.bytes.length
      { w with conn := { w.conn with bbuffer := w.conn.bbuffer.fill data } }).1
  | .browserRead none => (HandleBrowserReadHeaders true 0 w).1
  | .resolve _ _ (some (endpoint, rest)) => HandleResolve false (endpoint :: rest) w
  | .resolve _ _ none => HandleResolve true [] w
  | .connect _ endpoint_iterator err => HandleConnect err endpoint_iterator w
  | .serverWrite _ err => HandleServerWrite err w
  | .serverRead (some data) =>
    HandleServerRead false data.bytes.length
      { w with conn := { w.conn with sbuffer := w.conn.sbuffer.fill data } }
  | .serverRead none => HandleServerRead true 0 w
  | .clientWrite _ err => HandleClientWrite err w

/-- One turn of the event loop: a pending operation completes.  Nothing more happens once an
exception has left `io_service::run`, and nothing is said after an overrun. -/
def step (w : World) (e : Event) : Option World :=
  if w.escaped = false ∧ w.overrun = false ∧ e.op ∈ w.pending then
    some (handle { w with pending := w.pending.erase e.op } e)
  else none

/-- The world that `Connection::Start` leaves behind on its HTTP branch. -/
def started (bbuffer sbuffer : Buffer) (newStart_ newServerReadStart_ : Nat) : World :=
  Start (World.init (create bbuffer sbuffer newStart_ newServerReadStart_))

/-- The events lead from `Connection::Start` to this world. -/
def Reaches (es : List Event) (w : World) : Prop :=
  ∃ bbuffer sbuffer newStart_ newServerReadStart_,
    Transition.Run step (started bbuffer sbuffer newStart_ newServerReadStart_) es w

/-! ## 7. A connection and a request to run things on -/

/-- A started connection whose memory is blank. -/
def fresh : World := started blank blank 0 0

/-- A request in absolute form. -/
def absoluteForm : Chunk := ⟨ascii "GET http://a/ HTTP/1.0\r\n\r\n", by decide, by decide⟩

end HttpConnection

end TwoProxy
