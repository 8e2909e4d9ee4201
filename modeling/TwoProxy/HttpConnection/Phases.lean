/-
# The phases of a connection

An invariant of every run.  A connection reads the head (`Reading`), then serves it
(`Serving`), and ends `Closed` or `Stalled`; in the last two nothing is pending.  In the
first two exactly one operation is, and what it is decides what has been executed so far.

`reading_step` and `serving_step` say where one turn of the event loop leads, exactly: each
branch is taken under a condition on the state before and the event alone.  The results on
lifetime, abandonment and the upstream request are read off them.
-/
import TwoProxy.HttpConnection.Reads
import TwoProxy.HttpUtil.Targets

namespace TwoProxy

namespace HttpConnection

open RequestParser (lexer stageEnd Before)
open RequestParser.StateType
open Lexer (Lexing Progress)

/-! ## 1. The four phases -/

/-- Nothing has ended the connection yet. -/
structure Running (w : World) : Prop where
  escaped : w.escaped = false
  overrun : w.overrun = false
  deleted : w.deleted = 0
  isShuttingDown : w.conn.isShuttingDown_ = false

/-- Nothing has been read from the server, and nothing sent to the browser. -/
structure Unanswered (w : World) : Prop where
  responseParser : w.conn.responseParser_ = .HttpResponseBegin
  serverResponseState : w.conn.serverResponseState_ = .ReadUntilBody
  silent : ∀ b, .start (.clientWrite b) ∉ w.trace

/-- A browser read is pending, and nothing but browser reads has been done. -/
structure Reading (w : World) (l : RequestLexing) : Prop where
  running : Running w
  pending : w.pending = [.browserRead]
  inStep : InStep w.conn.clientRequestState_ w.conn l
  newStart : w.conn.newStart_ ≤ 1024
  isOpened : w.conn.isOpened = false
  unanswered : Unanswered w
  quiet : ∀ a ∈ w.trace, a = .start .browserRead

/-- The three parts of a complete head. -/
structure Head where
  method : Bytes
  destination : Bytes
  headers : Bytes

/-- The connection stores this head. -/
structure Head.StoredIn (hd : Head) (c : HttpConnection) : Prop where
  method : c.message_.method_ = hd.method
  destination : c.message_.destination_ = hd.destination
  headers : c.reqHeaders_ = hd.headers

/-- The request that the head is forwarded as. -/
def Head.request (hd : Head) : Bytes :=
  HttpConnection.request hd.method hd.destination hd.headers

theorem Head.StoredIn.request {hd : Head} {c : HttpConnection} (h : hd.StoredIn c) :
    HttpConnection.request c.message_.method_ c.message_.destination_ c.reqHeaders_
      = hd.request := by
  rw [h.method, h.destination, h.headers, Head.request]

/-- The only buffer handed to a write on the server socket is the forwarded request. -/
def SendsOnly (hd : Head) (trace : List Action) : Prop :=
  ∀ b, Action.start (.serverWrite b) ∈ trace → b = hd.request

/-- What the pending operation says of a connection that serves a head. -/
def ServingOp (hd : Head) (w : World) : AsyncOp → Prop
  | .browserRead => False
  | .resolve _ _ => w.trace.count .startWriteToServer = 0 ∧ Unanswered w
  | .connect _ _ => w.trace.count .startWriteToServer = 0 ∧ Unanswered w
  | .serverWrite b => w.trace.count .startWriteToServer = 1 ∧ Unanswered w ∧ b = hd.request
  | .serverRead => w.trace.count .startWriteToServer = 1 ∧
      (w.conn.newServerReadStart_ = 0 ∨ w.conn.newServerReadStart_ = 1024)
  | .clientWrite _ => w.trace.count .startWriteToServer = 1

/-- The head is complete and its service is under way. -/
structure Serving (hd : Head) (w : World) : Prop where
  running : Running w
  head : hd.StoredIn w.conn
  connects : w.trace.count .startConnect = 1
  undeleted : .deleteConnection ∉ w.trace
  sends : SendsOnly hd w.trace
  pending : ∃ op, w.pending = [op] ∧ ServingOp hd w op

/-- Nothing is pending. -/
structure Ended (w : World) : Prop where
  pending : w.pending = []
  connects : w.trace.count .startConnect ≤ 1
  writes : w.trace.count .startWriteToServer ≤ 1

/-- `Shutdown` has been executed, as the last thing done. -/
structure Closed (w : World) : Prop extends Ended w where
  escaped : w.escaped = false
  overrun : w.overrun = false
  deleted : w.deleted = 1
  last : ∃ before, w.trace = before ++ [.deleteConnection] ∧ .deleteConnection ∉ before
  isShuttingDown : w.conn.isShuttingDown_ = true

/-- `Shutdown` has not been executed, and never will be. -/
structure Stalled (w : World) : Prop extends Ended w where
  deleted : w.deleted = 0
  isShuttingDown : w.conn.isShuttingDown_ = false

/-! ## 2. The pieces of a handler -/

@[simp] theorem act_conn (w : World) (a : Action) : (w.act a).conn = w.conn := rfl

/-- Two actions that are not the same are not counted for each other. -/
theorem count_concat_of_ne {a b : Action} (h : b ≠ a) (trace : List Action) :
    (trace ++ [b]).count a = trace.count a := by
  simp [List.count_append, h]

theorem count_concat_self (a : Action) (trace : List Action) :
    (trace ++ [a]).count a = trace.count a + 1 := by
  simp [List.count_append]

theorem SendsOnly.concat {hd : Head} {trace : List Action} (h : SendsOnly hd trace) {a : Action}
    (ha : ∀ b, a = .start (.serverWrite b) → b = hd.request) : SendsOnly hd (trace ++ [a]) := by
  intro b hb
  rcases List.mem_append.mp hb with hb | hb
  · exact h b hb
  · exact ha b (List.mem_singleton.mp hb).symm

/-- Whatever does not touch the response side leaves it unanswered. -/
theorem Unanswered.of {w w' : World} (h : Unanswered w)
    (hp : w'.conn.responseParser_ = w.conn.responseParser_)
    (hs : w'.conn.serverResponseState_ = w.conn.serverResponseState_)
    (ht : ∀ b, .start (.clientWrite b) ∈ w'.trace → .start (.clientWrite b) ∈ w.trace) :
    Unanswered w' :=
  ⟨hp.trans h.responseParser, hs.trans h.serverResponseState, fun b hb => h.silent b (ht b hb)⟩

/-- `Shutdown` of a running connection with nothing pending closes it. -/
theorem Shutdown_closed {w : World} (hr : Running w) (hp : w.pending = [])
    (hc : w.trace.count .startConnect ≤ 1) (hw : w.trace.count .startWriteToServer ≤ 1)
    (hu : .deleteConnection ∉ w.trace) : Closed (Shutdown w) := by
  have hgo : (!w.conn.isShuttingDown_) = true := by simp [hr.isShuttingDown]
  rw [Shutdown, if_pos hgo]
  exact
    { pending := hp
      connects := by rw [count_concat_of_ne (by decide)]; exact hc
      writes := by rw [count_concat_of_ne (by decide)]; exact hw
      escaped := hr.escaped
      overrun := hr.overrun
      deleted := by simp [hr.deleted]
      last := ⟨w.trace, rfl, hu⟩
      isShuttingDown := rfl }

/-- The trace of `Shutdown` sends nothing. -/
theorem Shutdown_sends {hd : Head} {w : World} (h : SendsOnly hd w.trace) :
    SendsOnly hd (Shutdown w).trace := by
  unfold Shutdown
  split
  · exact h.concat (by simp)
  · exact h

/-- `ParseUri` accepts the target. -/
def UriAccepted (uri : Bytes) : Prop :=
  ∃ host port, ParseUri sizeBits uri [] [] = some (true, host, port)

/-- **`StartConnect`**, entered for the first time: it starts a resolve, or the target is put on
record and an exception leaves it. -/
theorem StartConnect_cases {w : World} (ho : w.conn.isOpened = false) :
    (∃ host port c, ParseUri sizeBits w.conn.message_.destination_ [] [] = some (true, host, port) ∧
        c = { w.conn with fServer := host, fPort := port } ∧
        StartConnect w = ({ w.act .startConnect with conn := c }).start (.resolve host port)) ∨
      (¬ UriAccepted w.conn.message_.destination_ ∧
        StartConnect w = ((w.act .startConnect).log
          (.invalidUriFormat w.conn.message_.destination_)).throw) := by
  unfold StartConnect
  dsimp only
  rw [act_conn]
  rcases ParseUri_cases sizeBits w.conn.message_.destination_ with
    hrejects | ⟨host, port, -, haccepts⟩
  · rw [hrejects]
    refine Or.inr ⟨?_, rfl⟩
    rintro ⟨host, port, h⟩
    rw [hrejects] at h
    simp at h
  · rw [haccepts]
    refine Or.inl ⟨host, port, _, rfl, rfl, ?_⟩
    dsimp only
    rw [if_pos (by simp [ho])]

theorem memory_length (c : HttpConnection) : c.memory.length = 2048 := by
  rw [memory, List.length_append, c.bbuffer.size_eq, c.sbuffer.size_eq]

/-- The connection with the bytes of a read in `bbuffer`. -/
def received (c : HttpConnection) (data : Chunk) : HttpConnection :=
  { c with bbuffer := c.bbuffer.fill data }

@[simp] theorem received_newStart (c : HttpConnection) (data : Chunk) :
    (received c data).newStart_ = c.newStart_ := rfl

/-- The bytes that the read `data` makes the parser look at. -/
def parsed (c : HttpConnection) (data : Chunk) : Bytes :=
  reachable (received c data) data.bytes.length

/-- **In order, they are the bytes of the read from `newStart_` on.** -/
theorem parsed_of_le {c : HttpConnection} {data : Chunk} (h : c.newStart_ ≤ data.bytes.length) :
    parsed c data = data.bytes.drop c.newStart_ := by
  rw [parsed, reachable, received_newStart, Scan.available_of_le h, List.extract_eq_take_drop]
  simp only [memory, received, Buffer.fill, List.append_assoc]
  rw [List.drop_append_of_le_length h, List.take_left' (by rw [List.length_drop])]

theorem parsed_of_begin {c : HttpConnection} (h : c.newStart_ = 0) (data : Chunk) :
    parsed c data = data.bytes := by
  rw [parsed_of_le (by omega), h, List.drop_zero]

/-- The turns of the event loop: a pending operation completes, and its handler runs. -/
theorem step_handle {w w' : World} {e : Event} (hs : step w e = some w') :
    e.op ∈ w.pending ∧ w' = handle { w with pending := w.pending.erase e.op } e := by
  unfold step at hs
  split at hs
  · rename_i hc
    exact ⟨hc.2.2, (Option.some.inj hs).symm⟩
  · cases hs

/-- What is pending is what completes. -/
theorem step_eq_some {w w' : World} {e : Event} {op : AsyncOp} (hp : w.pending = [op])
    (hs : step w e = some w') : e.op = op ∧ w' = handle { w with pending := [] } e := by
  obtain ⟨hmem, rfl⟩ := step_handle hs
  rw [hp, List.mem_singleton] at hmem
  refine ⟨hmem, ?_⟩
  rw [hp, hmem]
  simp

/-- Where nothing is pending, nothing happens. -/
theorem step_eq_none {w : World} (hp : w.pending = []) (e : Event) : step w e = none := by
  simp [step, hp]

theorem step_ne_some {w w' : World} {e : Event} (hp : w.pending = []) : step w e ≠ some w' := by
  rw [step_eq_none hp]
  exact nofun

/-! ## 3. A turn while the head is read -/

/-- The tokens are this head. -/
def Head.Is (hd : Head) (tokens : List (RequestParser.StateType × Bytes)) : Prop :=
  ∃ version, tokens = [(MethodDone, hd.method), (UriDone, hd.destination),
    (VersionDone, version), (HeadersDone, hd.headers)]

/-- Tokens are one head at most. -/
theorem Head.Is.unique {hd hd' : Head} {tokens : List (RequestParser.StateType × Bytes)}
    (h : hd.Is tokens) (h' : hd'.Is tokens) : hd = hd' := by
  obtain ⟨version, rfl⟩ := h
  obtain ⟨version', heq⟩ := h'
  simp only [List.cons.injEq, Prod.mk.injEq, true_and, and_true] at heq
  obtain ⟨h1, h2, -, h3⟩ := heq
  cases hd
  cases hd'
  simp_all

/-- What a successful browser read leads to.  Which constructor it is depends on the bytes
parsed, on the order of the iterators and on `ParseUri`, and on nothing else. -/
inductive ReadTurn (w : World) (l : RequestLexing) (data : Chunk) : World → Prop
  | refused (w' : World) (line : ErrorLine)
      (feed : lexer.feed l (parsed w.conn data) = .refused) (stalled : Stalled w')
      (escaped : w'.escaped = false) (isError : IsRequestError line)
      (trace : w'.trace = w.trace ++ [.logError line]) : ReadTurn w l data w'
  | rejected (w' : World) (hd : Head) (tokens : List (RequestParser.StateType × Bytes))
      (rest : Bytes) (feed : lexer.feed l (parsed w.conn data) = .complete tokens rest)
      (isHead : hd.Is tokens) (uri : ¬ UriAccepted hd.destination) (stalled : Stalled w')
      (escaped : w'.escaped = true) (stored : hd.StoredIn w'.conn)
      (trace : w'.trace =
        w.trace ++ [.startConnect, .logError (.invalidUriFormat hd.destination)]) :
      ReadTurn w l data w'
  | connects (w' : World) (hd : Head) (tokens : List (RequestParser.StateType × Bytes))
      (rest : Bytes) (feed : lexer.feed l (parsed w.conn data) = .complete tokens rest)
      (isHead : hd.Is tokens) (uri : UriAccepted hd.destination) (serving : Serving hd w')
      (host port : Bytes)
      (trace : w'.trace = w.trace ++ [.startConnect, .start (.resolve host port)])
      (pending : w'.pending = [.resolve host port]) : ReadTurn w l data w'
  | continues (w' : World) (l' : RequestLexing)
      (feed : lexer.feed l (parsed w.conn data) = .reading l')
      (inOrder : w.conn.newStart_ ≤ data.bytes.length) (reading : Reading w' l')
      (newStart : w'.conn.newStart_ =
        if parsed w.conn data ≠ [] ∧ lexer.cut l'.state = true then data.bytes.length else 0)
      (memory : w'.conn.memory = (received w.conn data).memory)
      (trace : w'.trace = w.trace ++ [.start .browserRead]) : ReadTurn w l data w'
  | overruns (w' : World) (l' : RequestLexing)
      (feed : lexer.feed l (parsed w.conn data) = .reading l')
      (inverted : data.bytes.length < w.conn.newStart_) (stalled : Stalled w')
      (escaped : w'.escaped = false) (overrun : w'.overrun = true)
      (trace : w'.trace = w.trace) : ReadTurn w l data w'

theorem Reading.connects {w : World} {l : RequestLexing} (h : Reading w l) :
    w.trace.count .startConnect = 0 := by
  rw [List.count_eq_zero]
  exact fun hm => absurd (h.quiet _ hm) (by simp)

theorem Reading.writes {w : World} {l : RequestLexing} (h : Reading w l) :
    w.trace.count .startWriteToServer = 0 := by
  rw [List.count_eq_zero]
  exact fun hm => absurd (h.quiet _ hm) (by simp)

theorem Reading.undeleted {w : World} {l : RequestLexing} (h : Reading w l) :
    .deleteConnection ∉ w.trace :=
  fun hm => absurd (h.quiet _ hm) (by simp)

theorem Reading.sends {w : World} {l : RequestLexing} (h : Reading w l) (hd : Head) :
    SendsOnly hd w.trace :=
  fun _ hb => absurd (h.quiet _ hb) (by simp)

/-- **A complete head is served, or an exception escapes**, as `ParseUri` decides. -/
theorem connectAndClear_turn {w : World} {l : RequestLexing} {data : Chunk} {c : HttpConnection}
    {tokens : List (RequestParser.StateType × Bytes)} {rest : Bytes} (h : Reading w l)
    (honly : RequestOnly (received w.conn data) c) (hhead : HeadOf c tokens)
    (hf : lexer.feed l (parsed w.conn data) = .complete tokens rest) :
    ReadTurn w l data (connectAndClear { w with pending := [], conn := c }) := by
  have hconn := h.connects
  have hwrites := h.writes
  have hshut : c.isShuttingDown_ = false :=
    honly.isShuttingDown.trans h.running.isShuttingDown
  obtain ⟨version, htok⟩ := hhead
  have hopened : c.isOpened = false := honly.isOpened.trans h.isOpened
  rcases StartConnect_cases (w := { w with pending := [], conn := c }) hopened with
    ⟨host, port, c', hp, hc', hsc⟩ | ⟨hrej, hsc⟩
  · have hclear : connectAndClear { w with pending := [], conn := c } =
        ({ w.act .startConnect with
          pending := [], conn := { c' with partialParsed_ := [] } }).start
            (.resolve host port) := by
      rw [connectAndClear, hsc, if_neg (by simp [World.start, World.act, h.running.escaped])]
      rfl
    rw [hclear]
    refine .connects _ ⟨c.message_.method_, c.message_.destination_, c.reqHeaders_⟩ tokens rest hf
      ⟨version, htok⟩ ⟨host, port, hp⟩ ?_ host port (by simp [World.start, World.act]) rfl
    subst hc'
    exact
      { running := ⟨h.running.escaped, h.running.overrun, h.running.deleted, hshut⟩
        head := ⟨rfl, rfl, rfl⟩
        connects := by
          simp only [World.start, World.act]
          rw [count_concat_of_ne (by simp), count_concat_self, hconn]
        undeleted := by simpa [World.start, World.act] using h.undeleted
        sends := ((h.sends _).concat (by simp)).concat (by simp)
        pending := ⟨.resolve host port, rfl, by
          simp only [World.start, World.act]
          rw [count_concat_of_ne (by simp), count_concat_of_ne (by decide), hwrites],
          h.unanswered.of honly.responseParser honly.serverResponseState
            (by simp [World.start, World.act])⟩ }
  · have hclear : connectAndClear { w with pending := [], conn := c } =
        (({ w with pending := [], conn := c }.act .startConnect).log
          (.invalidUriFormat c.message_.destination_)).throw := by
      rw [connectAndClear, hsc]
      exact if_pos rfl
    rw [hclear]
    refine .rejected _ ⟨c.message_.method_, c.message_.destination_, c.reqHeaders_⟩ tokens rest hf
      ⟨version, htok⟩ hrej ?_ rfl ⟨rfl, rfl, rfl⟩
      (by simp [World.throw, World.log, World.act])
    exact
      { pending := rfl
        connects := by
          simp only [World.throw, World.log, World.act]
          rw [count_concat_of_ne (by simp), count_concat_self, hconn]
        writes := by
          simp only [World.throw, World.log, World.act]
          rw [count_concat_of_ne (by simp), count_concat_of_ne (by decide), hwrites]
          decide
        deleted := h.running.deleted
        isShuttingDown := hshut }

/-- What a read leads to, by the phase it leads to. -/
theorem ReadResult.turn {w w' : World} {l : RequestLexing} {data : Chunk} (h : Reading w l)
    (hres : ReadResult data.bytes.length { w with pending := [], conn := received w.conn data }
      (lexer.feed l (parsed w.conn data)) w') : ReadTurn w l data w' := by
  have hconn := h.connects
  have hwrites := h.writes
  have hshut : ∀ c, RequestOnly (received w.conn data) c → c.isShuttingDown_ = false :=
    fun c honly => honly.isShuttingDown.trans h.running.isShuttingDown
  cases hf : lexer.feed l (parsed w.conn data) with
  | refused =>
    rw [hf] at hres
    obtain ⟨c, line, honly, hline, rfl⟩ := hres
    refine .refused _ line hf ?_ h.running.escaped hline rfl
    exact
      { pending := rfl
        connects := by
          rw [World.log, World.act, count_concat_of_ne (by simp), hconn]; decide
        writes := by
          rw [World.log, World.act, count_concat_of_ne (by simp), hwrites]; decide
        deleted := h.running.deleted
        isShuttingDown := hshut c honly }
  | complete tokens rest =>
    rw [hf] at hres
    obtain ⟨c, honly, hhead, rfl⟩ := hres
    exact connectAndClear_turn h honly hhead hf
  | reading l' =>
    rw [hf] at hres
    obtain ⟨c, honly, ⟨hle, hin, hstart, rfl⟩ | ⟨hlt, rfl⟩⟩ := hres
    · refine .continues _ l' hf hle ?_ hstart honly.memory rfl
      exact
        { running := ⟨h.running.escaped, h.running.overrun, h.running.deleted, hshut c honly⟩
          pending := rfl
          inStep := hin
          newStart := by
            have h1 := data.le
            change c.newStart_ ≤ 1024
            rw [hstart]
            split <;> omega
          isOpened := honly.isOpened.trans h.isOpened
          unanswered := h.unanswered.of honly.responseParser honly.serverResponseState
            (by simp [ReadMoreFromBrowser, World.start])
          quiet := by
            intro a ha
            rcases List.mem_append.mp ha with ha | ha
            · exact h.quiet a ha
            · exact List.mem_singleton.mp ha }
    · refine .overruns _ l' hf hlt ?_ h.running.escaped rfl rfl
      exact
        { pending := rfl
          connects := by rw [World.outOfRange]; simp [hconn]
          writes := by rw [World.outOfRange]; simp [hwrites]
          deleted := h.running.deleted
          isShuttingDown := hshut c honly }

/-- `Connection::Start` leaves the first read pending. -/
theorem started_reading (bbuffer sbuffer : Buffer) (newStart_ newServerReadStart_ : Nat) :
    Reading (started bbuffer sbuffer newStart_ newServerReadStart_) (.start MethodStart) where
  running := ⟨rfl, rfl, rfl, rfl⟩
  pending := rfl
  inStep := ⟨rfl, rfl, show RequestParser.Before MethodDone MethodStart by decide, rfl⟩
  newStart := Nat.zero_le _
  isOpened := rfl
  unanswered := ⟨rfl, rfl, by simp [started, Start, World.start, World.init]⟩
  quiet := fun _ ha => List.mem_singleton.mp ha

/-- **One turn of the event loop while the head is read.** -/
theorem reading_step {w w' : World} {l : RequestLexing} {e : Event} (h : Reading w l)
    (hs : step w e = some w') :
    (e = .browserRead none ∧ Closed w' ∧ w'.trace = w.trace ++ [.deleteConnection]) ∨
      ∃ data, e = .browserRead (some data) ∧ ReadTurn w l data w' := by
  obtain ⟨hop, rfl⟩ := step_eq_some h.pending hs
  cases e with
  | resolve host port r => exact absurd hop (by simp [Event.op])
  | connect ep it err => exact absurd hop (by simp [Event.op])
  | serverWrite b err => exact absurd hop (by simp [Event.op])
  | serverRead r => exact absurd hop (by simp [Event.op])
  | clientWrite b err => exact absurd hop (by simp [Event.op])
  | browserRead r =>
    cases r with
    | none =>
      have hgo : (!w.conn.isShuttingDown_) = true := by simp [h.running.isShuttingDown]
      refine Or.inl ⟨rfl, Shutdown_closed ⟨h.running.escaped, h.running.overrun,
        h.running.deleted, h.running.isShuttingDown⟩ rfl (by simp [h.connects])
        (by simp [h.writes]) h.undeleted, ?_⟩
      simp [handle, HandleBrowserReadHeaders, Shutdown, hgo]
    | some data =>
      refine Or.inr ⟨data, rfl, ?_⟩
      have hspec := HandleBrowserReadHeaders_spec data.bytes.length
        (w := { w with pending := [], conn := received w.conn data }) (l := l)
        h.running.isShuttingDown
        ⟨h.inStep.state, h.inStep.part, h.inStep.before, h.inStep.stored⟩
        (by rw [memory_length]; have := h.newStart; exact this.trans (by decide))
        (by rw [memory_length]; have := data.le; omega)
      change ReadResult _ _ (lexer.feed l (parsed w.conn data)) _ at hspec
      exact ReadResult.turn h hspec

/-- A read can always complete while the head is read. -/
theorem Reading.delivers {w : World} {l : RequestLexing} (h : Reading w l) (c : Chunk) :
    ∃ w', step w (.browserRead (some c)) = some w' ∧ ReadTurn w l c w' := by
  have hs : step w (.browserRead (some c)) = some
      (handle { w with pending := w.pending.erase .browserRead } (.browserRead (some c))) := by
    rw [step, if_pos ⟨h.running.escaped, h.running.overrun, by simp [h.pending, Event.op]⟩]
    rfl
  refine ⟨_, hs, ?_⟩
  rcases reading_step h hs with ⟨hno, -⟩ | ⟨data, heq, hturn⟩
  · simp at hno
  · simp only [Event.browserRead.injEq, Option.some.injEq] at heq
    exact heq ▸ hturn

/-! ## 4. A turn while the head is served -/

/-- The connection with the bytes of a server read in `sbuffer`. -/
def served (c : HttpConnection) (data : Chunk) : HttpConnection :=
  { c with sbuffer := c.sbuffer.fill data }

@[simp] theorem served_newServerReadStart (c : HttpConnection) (data : Chunk) :
    (served c data).newServerReadStart_ = c.newServerReadStart_ := rfl

@[simp] theorem served_serverResponseState (c : HttpConnection) (data : Chunk) :
    (served c data).serverResponseState_ = c.serverResponseState_ := rfl

@[simp] theorem served_responseParser (c : HttpConnection) (data : Chunk) :
    (served c data).responseParser_ = c.responseParser_ := rfl

/-- The event is a server read whose bytes, where the iterators put them, the response
parser refuses. -/
def RefusedBy (c : HttpConnection) : Event → Prop
  | .serverRead (some data) => Refuses (served c data) data.bytes.length
  | _ => False

/-- What a completion leads to while the head is served. -/
inductive ServingTurn (hd : Head) (w : World) (e : Event) : World → Prop
  | serves (w' : World) (accepted : ¬ RefusedBy w.conn e) (serving : Serving hd w') :
      ServingTurn hd w e w'
  | closes (w' : World) (accepted : ¬ RefusedBy w.conn e) (closed : Closed w')
      (sends : SendsOnly hd w'.trace) : ServingTurn hd w e w'
  | stalls (w' : World) (refused : RefusedBy w.conn e) (stalled : Stalled w')
      (escaped : w'.escaped = false) (sends : SendsOnly hd w'.trace) : ServingTurn hd w e w'

theorem Serving.writes {hd : Head} {w : World} (h : Serving hd w) :
    w.trace.count .startWriteToServer ≤ 1 := by
  obtain ⟨op, -, hop⟩ := h.pending
  cases op with
  | browserRead => exact hop.elim
  | resolve host port => exact hop.1.le.trans (by decide)
  | connect ep it => exact hop.1.le.trans (by decide)
  | serverWrite b => exact hop.1.le
  | serverRead => exact hop.1.le
  | clientWrite b => exact (show _ = 1 from hop).le

/-- No browser read is pending while the head is served. -/
theorem Serving.browserRead_notMem {hd : Head} {w : World} (h : Serving hd w) :
    .browserRead ∉ w.pending := by
  obtain ⟨op, hp, hop⟩ := h.pending
  rw [hp, List.mem_singleton]
  rintro rfl
  exact hop

/-- Shutting down ends the service. -/
theorem Serving.closes {hd : Head} {w w₀ : World} {e : Event} (h : Serving hd w)
    (hacc : ¬ RefusedBy w.conn e) (hconn : w₀.conn = w.conn) (hp : w₀.pending = [])
    (hd0 : w₀.deleted = w.deleted) (he : w₀.escaped = w.escaped) (ho : w₀.overrun = w.overrun)
    (ht : w₀.trace = w.trace ∨ ∃ line, w₀.trace = w.trace ++ [.logError line]) :
    ServingTurn hd w e (Shutdown w₀) := by
  have hr : Running w₀ := ⟨he.trans h.running.escaped, ho.trans h.running.overrun,
    hd0.trans h.running.deleted, by rw [hconn]; exact h.running.isShuttingDown⟩
  have hcount : ∀ a, (∀ line, a ≠ Action.logError line) →
      w₀.trace.count a = w.trace.count a := by
    intro a ha
    rcases ht with ht | ⟨line, ht⟩
    · rw [ht]
    · rw [ht, count_concat_of_ne (ha line).symm]
  have hsends : SendsOnly hd w₀.trace := by
    rcases ht with ht | ⟨line, ht⟩
    · exact ht ▸ h.sends
    · exact ht ▸ h.sends.concat (by simp)
  have hundel : .deleteConnection ∉ w₀.trace := by
    rcases ht with ht | ⟨line, ht⟩
    · exact ht ▸ h.undeleted
    · simpa [ht] using h.undeleted
  refine .closes _ hacc (Shutdown_closed hr hp ?_ ?_ hundel) (Shutdown_sends hsends)
  · rw [hcount _ (by simp), h.connects]
  · rw [hcount _ (by simp)]
    exact h.writes

/-- Starting the next operation continues the service. -/
theorem Serving.continue {hd : Head} {w : World} (h : Serving hd w) {c : HttpConnection}
    {op : AsyncOp} (hc : hd.StoredIn c) (hs : c.isShuttingDown_ = false)
    (hop : ServingOp hd (({ w with pending := [], conn := c }).start op) op)
    (hb : ∀ b, op = .serverWrite b → b = hd.request) :
    Serving hd (({ w with pending := [], conn := c }).start op) where
  running := ⟨h.running.escaped, h.running.overrun, h.running.deleted, hs⟩
  head := hc
  connects := by
    simp only [World.start]
    rw [count_concat_of_ne (by simp), h.connects]
  undeleted := by simpa [World.start] using h.undeleted
  sends := h.sends.concat (fun b e => hb b (Action.start.inj e))
  pending := ⟨op, rfl, hop⟩

/-- The request is written once. -/
theorem Serving.write {hd : Head} {w : World} (h : Serving hd w)
    (hw : w.trace.count .startWriteToServer = 0) (hu : Unanswered w) :
    Serving hd (StartWriteToServer
      { w with pending := [], conn := { w.conn with isOpened := true } }) := by
  rw [StartWriteToServer]
  dsimp only [World.act]
  rw [h.head.request]
  exact
    { running := ⟨h.running.escaped, h.running.overrun, h.running.deleted,
        h.running.isShuttingDown⟩
      head := ⟨h.head.method, h.head.destination, h.head.headers⟩
      connects := by
        simp only [World.start]
        rw [count_concat_of_ne (by simp), count_concat_of_ne (by decide), h.connects]
      undeleted := by simpa [World.start] using h.undeleted
      sends := (h.sends.concat (by simp)).concat (by
        intro b hb
        exact (AsyncOp.serverWrite.inj (Action.start.inj hb)).symm)
      pending := ⟨.serverWrite hd.request, rfl, by
        simp only [World.start]
        rw [count_concat_of_ne (by simp), count_concat_self, hw],
        hu.of rfl rfl (by simp [World.start]), rfl⟩ }

/-- A server read, forwarded or refused. -/
theorem Serving.serverRead {hd : Head} {w : World} (h : Serving hd w)
    (hw : w.trace.count .startWriteToServer = 1)
    (hstart : w.conn.newServerReadStart_ ≤ 1024) (data : Chunk) :
    ServingTurn hd w (.serverRead (some data)) (HandleServerRead false data.bytes.length
      { w with pending := [], conn := served w.conn data }) := by
  have hlen : 1024 + data.bytes.length ≤ (served w.conn data).memory.length := by
    rw [memory_length]
    have := data.le
    omega
  rcases HandleServerRead_spec data.bytes.length
      (w := { w with pending := [], conn := served w.conn data })
      h.running.isShuttingDown hstart hlen with
    ⟨href, c, honly, hres⟩ | ⟨hacc, c, honly, -, -, hres⟩
  · rw [hres]
    refine .stalls _ href ?_ h.running.escaped (h.sends.concat (by simp))
    exact
      { pending := rfl
        connects := by
          simp only [World.log, World.act]
          rw [count_concat_of_ne (by simp), h.connects]
        writes := by
          simp only [World.log, World.act]
          rw [count_concat_of_ne (by simp), hw]
        deleted := h.running.deleted
        isShuttingDown := honly.isShuttingDown.trans h.running.isShuttingDown }
  · rw [hres]
    refine .serves _ hacc (h.continue
      ⟨by rw [honly.message]; exact h.head.method,
        by rw [honly.message]; exact h.head.destination,
        by rw [honly.reqHeaders]; exact h.head.headers⟩
      (honly.isShuttingDown.trans h.running.isShuttingDown) ?_ (by simp))
    change List.count _ _ = 1
    simp only [World.start]
    rw [count_concat_of_ne (by simp), hw]

/-- The next server read, started with the iterator re-armed. -/
theorem Serving.readServer {hd : Head} {w w' : World} (h : Serving hd w)
    (hw : w.trace.count .startWriteToServer = 1) {start : Nat} (hstart : start = 0 ∨ start = 1024)
    (hres : w' = { World.start { w with pending := [] } .serverRead with
      conn := { w.conn with newServerReadStart_ := start } }) : Serving hd w' := by
  rw [hres]
  refine h.continue (c := { w.conn with newServerReadStart_ := start })
    ⟨h.head.method, h.head.destination, h.head.headers⟩ h.running.isShuttingDown
    ⟨?_, hstart⟩ (by simp)
  simp only [World.start]
  rw [count_concat_of_ne (by simp), hw]

/-- **One turn of the event loop while the head is served.** -/
theorem serving_step {hd : Head} {w w' : World} {e : Event} (h : Serving hd w)
    (hs : step w e = some w') : ServingTurn hd w e w' := by
  obtain ⟨op, hp, hop⟩ := h.pending
  obtain ⟨he, rfl⟩ := step_eq_some hp hs
  have hgo : (!w.conn.isShuttingDown_) = true := by simp [h.running.isShuttingDown]
  subst he
  cases e with
  | browserRead r => exact hop.elim
  | resolve host port r =>
    cases r with
    | none => exact h.closes id rfl rfl rfl rfl rfl (Or.inr ⟨_, rfl⟩)
    | some r =>
      refine .serves _ id (h.continue h.head h.running.isShuttingDown
        ⟨?_, hop.2.of rfl rfl (by simp [World.start])⟩ (by simp))
      simp only [World.start]
      rw [count_concat_of_ne (by simp)]
      exact hop.1
  | connect ep it err =>
    cases err with
    | false => exact .serves _ id (h.write hop.1 hop.2)
    | true =>
      cases it with
      | nil => exact h.closes id rfl rfl rfl rfl rfl (Or.inr ⟨_, rfl⟩)
      | cons ep' rest =>
        refine .serves _ id (h.continue h.head h.running.isShuttingDown
          ⟨?_, hop.2.of rfl rfl (by simp [World.start])⟩ (by simp))
        simp only [World.start]
        rw [count_concat_of_ne (by simp)]
        exact hop.1
  | serverWrite b err =>
    cases err with
    | true => exact h.closes id rfl rfl rfl rfl rfl (Or.inr ⟨_, rfl⟩)
    | false => exact .serves _ id (h.readServer hop.1 (Or.inr rfl) (if_pos hgo))
  | serverRead r =>
    cases r with
    | none => exact h.closes id rfl rfl rfl rfl rfl (Or.inl rfl)
    | some data => exact h.serverRead hop.1 (by rcases hop.2 with h2 | h2 <;> omega) data
  | clientWrite b err =>
    cases err with
    | true => exact h.closes id rfl rfl rfl rfl rfl (Or.inl rfl)
    | false => exact .serves _ id (h.readServer hop (Or.inl rfl) (if_pos hgo))

theorem Serving.kept_or_ended {hd : Head} {w w' : World} {e : Event} (h : Serving hd w)
    (hs : step w e = some w') : Serving hd w' ∨ w'.pending = [] := by
  cases serving_step h hs with
  | serves accepted hserv => exact Or.inl hserv
  | closes accepted hc => exact Or.inr hc.pending
  | stalls refused hst => exact Or.inr hst.pending

end HttpConnection

end TwoProxy
