/-
# The turns of a connection, exit by exit

`reading_step` and `serving_step` say which phase a turn of the event loop leads to.  This
module says which world: one constructor for each exit of each handler, with the condition
under which it is taken and the world it leaves behind, written with the model's own
functions.  What a turn starts, logs or throws is read off it, and a result that depends on
more than the phase needs no other case analysis of the handlers.
-/
import TwoProxy.HttpConnection.Lifetime

namespace TwoProxy

namespace HttpConnection

open RequestParser (lexer)
open Lexer (Lexing Progress)
open Transition

/-! ## 1. While the head is read -/

/-- The world in which a handler runs: what has completed is not pending any more, and the
members of the connection are these. -/
def resuming (w : World) (c : HttpConnection) : World := { w with pending := [], conn := c }

/-- The exits of `HandleBrowserReadHeaders`. -/
inductive ReadingMove (w : World) (l : RequestLexing) : Event → World → Prop
  | hangsUp : ReadingMove w l (.browserRead none) (Shutdown (resuming w w.conn))
  | refuses (data : Chunk) (c : HttpConnection) (line : ErrorLine)
      (only : RequestOnly (received w.conn data) c) (isError : IsRequestError line)
      (feed : lexer.feed l (parsed w.conn data) = .refused) :
      ReadingMove w l (.browserRead (some data)) ((resuming w c).log line)
  | connects (data : Chunk) (c : HttpConnection)
      (tokens : List (RequestParser.StateType × Bytes)) (rest host port : Bytes)
      (only : RequestOnly (received w.conn data) c)
      (feed : lexer.feed l (parsed w.conn data) = .complete tokens rest)
      (head : HeadOf c tokens)
      (uri : ParseUri sizeBits c.message_.destination_ [] [] = some (true, host, port)) :
      ReadingMove w l (.browserRead (some data))
        (((resuming w { c with fServer := host, fPort := port, partialParsed_ := [] }).act
          .startConnect).start (.resolve host port))
  | throws (data : Chunk) (c : HttpConnection)
      (tokens : List (RequestParser.StateType × Bytes)) (rest : Bytes)
      (only : RequestOnly (received w.conn data) c)
      (feed : lexer.feed l (parsed w.conn data) = .complete tokens rest)
      (head : HeadOf c tokens) (uri : ¬ UriAccepted c.message_.destination_) :
      ReadingMove w l (.browserRead (some data))
        (((resuming w c).act .startConnect).log
          (.invalidUriFormat c.message_.destination_)).throw
  | continues (data : Chunk) (c : HttpConnection) (l' : RequestLexing)
      (only : RequestOnly (received w.conn data) c)
      (feed : lexer.feed l (parsed w.conn data) = .reading l')
      (inOrder : w.conn.newStart_ ≤ data.bytes.length) :
      ReadingMove w l (.browserRead (some data)) (ReadMoreFromBrowser (resuming w c))
  | overruns (data : Chunk) (c : HttpConnection) (l' : RequestLexing)
      (only : RequestOnly (received w.conn data) c)
      (feed : lexer.feed l (parsed w.conn data) = .reading l')
      (inverted : data.bytes.length < w.conn.newStart_) :
      ReadingMove w l (.browserRead (some data)) (resuming w c).outOfRange

/-- A complete head leaves `StartConnect` in one of its two ways. -/
theorem connectAndClear_move {w : World} {l : RequestLexing} {data : Chunk} {c : HttpConnection}
    {tokens : List (RequestParser.StateType × Bytes)} {rest : Bytes} (h : Reading w l)
    (honly : RequestOnly (received w.conn data) c) (hhead : HeadOf c tokens)
    (hf : lexer.feed l (parsed w.conn data) = .complete tokens rest) :
    ReadingMove w l (.browserRead (some data)) (connectAndClear (resuming w c)) := by
  have hopened : c.isOpened = false := honly.isOpened.trans h.isOpened
  rcases StartConnect_cases (w := resuming w c) hopened with
    ⟨host, port, c', hp, rfl, hsc⟩ | ⟨hrej, hsc⟩
  · have hclear : connectAndClear (resuming w c) =
        ((resuming w { c with fServer := host, fPort := port, partialParsed_ := [] }).act
          .startConnect).start (.resolve host port) := by
      rw [connectAndClear, hsc,
        if_neg (by simp [World.start, World.act, resuming, h.running.escaped])]
      rfl
    rw [hclear]
    exact .connects data c tokens rest host port honly hf hhead hp
  · have hclear : connectAndClear (resuming w c) = (((resuming w c).act .startConnect).log
        (.invalidUriFormat c.message_.destination_)).throw := by
      rw [connectAndClear, hsc]
      exact if_pos rfl
    rw [hclear]
    exact .throws data c tokens rest honly hf hhead hrej

/-- A successful read, by what it makes of the tokenisation. -/
theorem ReadResult.move {w w' : World} {l : RequestLexing} {data : Chunk} (h : Reading w l)
    (hres : ReadResult data.bytes.length (resuming w (received w.conn data))
      (lexer.feed l (parsed w.conn data)) w') :
    ReadingMove w l (.browserRead (some data)) w' := by
  cases hf : lexer.feed l (parsed w.conn data) with
  | refused =>
    rw [hf] at hres
    obtain ⟨c, line, honly, hline, rfl⟩ := hres
    exact .refuses data c line honly hline hf
  | complete tokens rest =>
    rw [hf] at hres
    obtain ⟨c, honly, hhead, rfl⟩ := hres
    exact connectAndClear_move h honly hhead hf
  | reading l' =>
    rw [hf] at hres
    rcases hres with ⟨c, honly, ⟨hle, -, -, rfl⟩ | ⟨hlt, rfl⟩⟩
    · exact .continues data c l' honly hf hle
    · exact .overruns data c l' honly hf hlt

/-- **Every turn while the head is read.** -/
theorem Reading.move {w w' : World} {l : RequestLexing} {e : Event} (h : Reading w l)
    (hs : step w e = some w') : ReadingMove w l e w' := by
  obtain ⟨hop, rfl⟩ := step_eq_some h.pending hs
  cases e with
  | resolve host port r => exact absurd hop (by simp [Event.op])
  | connect ep it err => exact absurd hop (by simp [Event.op])
  | serverWrite b err => exact absurd hop (by simp [Event.op])
  | serverRead r => exact absurd hop (by simp [Event.op])
  | clientWrite b err => exact absurd hop (by simp [Event.op])
  | browserRead r =>
    cases r with
    | none => exact .hangsUp
    | some data =>
      have hspec := HandleBrowserReadHeaders_spec data.bytes.length
        (w := resuming w (received w.conn data)) (l := l) h.running.isShuttingDown
        ⟨h.inStep.state, h.inStep.part, h.inStep.before, h.inStep.stored⟩
        (by rw [memory_length]; have := h.newStart; exact this.trans (by decide))
        (by rw [memory_length]; have := data.le; omega)
      exact ReadResult.move h hspec

/-! ## 2. While the head is served -/

/-- The exits of the handlers from `HandleResolve` on. -/
inductive ServingMove (w : World) : Event → World → Prop
  | resolved (host port : Bytes) (endpoint : Endpoint) (rest : List Endpoint) :
      ServingMove w (.resolve host port (some (endpoint, rest)))
        ((resuming w w.conn).start (.connect endpoint rest))
  | unresolved (host port : Bytes) :
      ServingMove w (.resolve host port none)
        (Shutdown ((resuming w w.conn).log .handleResolveFailed))
  | connected (endpoint : Endpoint) (ahead : List Endpoint) :
      ServingMove w (.connect endpoint ahead false)
        (StartWriteToServer (resuming w { w.conn with isOpened := true }))
  | retries (endpoint next : Endpoint) (rest : List Endpoint) :
      ServingMove w (.connect endpoint (next :: rest) true)
        ((resuming w w.conn).start (.connect next rest))
  | exhausted (endpoint : Endpoint) :
      ServingMove w (.connect endpoint [] true)
        (Shutdown ((resuming w w.conn).log .handleConnectFailed))
  | written (buffer : Bytes) :
      ServingMove w (.serverWrite buffer false)
        ((resuming w { w.conn with newServerReadStart_ := 1024 }).start .serverRead)
  | unwritten (buffer : Bytes) :
      ServingMove w (.serverWrite buffer true)
        (Shutdown ((resuming w w.conn).log .handleServerWriteFailed))
  | forwards (data : Chunk) (c : HttpConnection) (only : ResponseOnly (served w.conn data) c)
      (accepted : ¬ Refuses (served w.conn data) data.bytes.length) :
      ServingMove w (.serverRead (some data))
        ((resuming w c).start (.clientWrite data.bytes))
  | refuses (data : Chunk) (c : HttpConnection) (only : ResponseOnly (served w.conn data) c)
      (refused : Refuses (served w.conn data) data.bytes.length) :
      ServingMove w (.serverRead (some data)) ((resuming w c).log .processingReadUntilBody)
  | ends : ServingMove w (.serverRead none) (Shutdown (resuming w w.conn))
  | delivered (buffer : Bytes) :
      ServingMove w (.clientWrite buffer false)
        ((resuming w { w.conn with newServerReadStart_ := 0 }).start .serverRead)
  | undelivered (buffer : Bytes) :
      ServingMove w (.clientWrite buffer true) (Shutdown (resuming w w.conn))

/-- A server read. -/
theorem Serving.serverRead_move {hd : Head} {w : World} (h : Serving hd w)
    (hstart : w.conn.newServerReadStart_ ≤ 1024) (data : Chunk) :
    ServingMove w (.serverRead (some data)) (HandleServerRead false data.bytes.length
      (resuming w (served w.conn data))) := by
  have hlen : 1024 + data.bytes.length ≤ (served w.conn data).memory.length := by
    rw [memory_length]
    have := data.le
    omega
  rcases HandleServerRead_spec data.bytes.length (w := resuming w (served w.conn data))
      h.running.isShuttingDown hstart hlen with
    ⟨href, c, honly, hres⟩ | ⟨hacc, c, honly, -, -, hres⟩
  · exact hres ▸ .refuses data c honly href
  · have hbuffer : c.sbuffer.bytes.take data.bytes.length = data.bytes := by
      rw [honly.sbuffer]
      simp [resuming, served, Buffer.fill]
    have hsend : SendDataToClient data.bytes.length (resuming w c) =
        (resuming w c).start (.clientWrite data.bytes) :=
      congrArg (fun b => (resuming w c).start (.clientWrite b)) hbuffer
    exact hres ▸ hsend ▸ .forwards data c honly hacc

/-- **Every turn while the head is served.** -/
theorem Serving.move {hd : Head} {w w' : World} {e : Event} (h : Serving hd w)
    (hs : step w e = some w') : ServingMove w e w' := by
  obtain ⟨op, hp, hop⟩ := h.pending
  obtain ⟨he, rfl⟩ := step_eq_some hp hs
  have hgo : (!false && !IsStopped (resuming w w.conn)) = true := by
    simp [IsStopped, resuming, h.running.isShuttingDown]
  subst he
  cases e with
  | browserRead r => exact hop.elim
  | resolve host port r =>
    cases r with
    | none => exact .unresolved host port
    | some r => exact .resolved host port r.1 r.2
  | connect ep it err =>
    cases err with
    | false => exact .connected ep it
    | true =>
      cases it with
      | nil => exact .exhausted ep
      | cons next rest => exact .retries ep next rest
  | serverWrite b err =>
    cases err with
    | true => exact .unwritten b
    | false =>
      have hw : handle (resuming w w.conn) (.serverWrite b false) =
          (resuming w { w.conn with newServerReadStart_ := 1024 }).start .serverRead := if_pos hgo
      exact hw ▸ .written b
  | serverRead r =>
    cases r with
    | none => exact .ends
    | some data => exact h.serverRead_move (by rcases hop.2 with h2 | h2 <;> omega) data
  | clientWrite b err =>
    cases err with
    | true => exact .undelivered b
    | false =>
      have hw : handle (resuming w w.conn) (.clientWrite b false) =
          (resuming w { w.conn with newServerReadStart_ := 0 }).start .serverRead := if_pos hgo
      exact hw ▸ .delivered b

/-! ## 3. What `Shutdown` leaves alone -/

@[simp] theorem Shutdown_pending (w : World) : (Shutdown w).pending = w.pending := by
  unfold Shutdown
  split <;> rfl

@[simp] theorem Shutdown_escaped (w : World) : (Shutdown w).escaped = w.escaped := by
  unfold Shutdown
  split <;> rfl

@[simp] theorem Shutdown_overrun (w : World) : (Shutdown w).overrun = w.overrun := by
  unfold Shutdown
  split <;> rfl

end HttpConnection

end TwoProxy
