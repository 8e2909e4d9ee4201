/-
# A connection on its sockets

In `HttpConnection.lean` a write carries its bytes.  `ba::async_write` carries none: it is
given `ba::buffer(fReq)` or `ba::buffer(sbuffer, len)`, a pointer and a length, and takes the
bytes from there piece by piece until it completes, each piece as the memory is at that
moment.  A `Wired` connection is one with its sockets: it writes from the memory of the
connection, and keeps what has gone over `ssocket_` and `bsocket_`.

Nothing of this can be seen from the handlers (`wire_refines_iff`): no handler runs while a
write is pending, so the memory that the write points at stays what it was.  Each direction
is a pump, and in every reachable state the server has a part of the one request and the
browser a part of what the server sent (`wire_integrity`).
-/
import TwoProxy.HttpConnection.Turns
import TwoProxy.HttpConnection.Relay
import TwoProxy.Lib.Pump

namespace TwoProxy

namespace HttpConnection

open Transition

/-! ## 1. The sockets -/

/-- A connection, the bytes read from `ssocket_`, and for each socket the bytes taken for the
writes on it and those of the writes that are complete.  One write at most is pending, and
`progress` is what has been taken for it. -/
structure Wired where
  world : World
  fromServer : Bytes
  toServer : Bytes
  serverCompleted : Bytes
  toBrowser : Bytes
  browserCompleted : Bytes
  progress : Nat

/-- The bytes that the buffer of a write points at. -/
def pointed (c : HttpConnection) : AsyncOp → Bytes
  | .serverWrite b => c.fReq.take b.length
  | .clientWrite b => c.sbuffer.bytes.take b.length
  | _ => []

/-- The bytes that a write was started with. -/
def handedOver : AsyncOp → Bytes
  | .serverWrite b => b
  | .clientWrite b => b
  | _ => []

/-- `n` more bytes are taken for a write, or an operation completes. -/
inductive WireEvent
  | transfer (op : AsyncOp) (n : Nat)
  | complete (e : Event)
  deriving DecidableEq

namespace Wired

/-- Before anything has gone over the sockets. -/
def start (w : World) : Wired := ⟨w, [], [], [], [], [], 0⟩

def transfer (v : Wired) (op : AsyncOp) (n : Nat) : Wired :=
  let piece := ((pointed v.world.conn op).drop v.progress).take n
  match op with
  | .serverWrite _ => { v with toServer := v.toServer ++ piece, progress := v.progress + n }
  | .clientWrite _ => { v with toBrowser := v.toBrowser ++ piece, progress := v.progress + n }
  | _ => v

/-- A write succeeds when all of it has been taken. -/
def Allows (v : Wired) : Event → Prop
  | .serverWrite b false => v.progress = b.length
  | .clientWrite b false => v.progress = b.length
  | _ => True

instance (v : Wired) : (e : Event) → Decidable (v.Allows e)
  | .serverWrite b false => inferInstanceAs (Decidable (v.progress = b.length))
  | .clientWrite b false => inferInstanceAs (Decidable (v.progress = b.length))
  | .serverWrite _ true => inferInstanceAs (Decidable True)
  | .clientWrite _ true => inferInstanceAs (Decidable True)
  | .browserRead _ => inferInstanceAs (Decidable True)
  | .resolve _ _ _ => inferInstanceAs (Decidable True)
  | .connect _ _ _ => inferInstanceAs (Decidable True)
  | .serverRead _ => inferInstanceAs (Decidable True)

/-- The handler of the event has left `w`. -/
def resume (v : Wired) (w : World) : Event → Wired
  | .serverRead (some data) =>
    { v with world := w, fromServer := v.fromServer ++ data.bytes, progress := 0 }
  | .serverWrite _ false => { v with world := w, serverCompleted := v.toServer, progress := 0 }
  | .clientWrite _ false => { v with world := w, browserCompleted := v.toBrowser, progress := 0 }
  | _ => { v with world := w, progress := 0 }

def step (v : Wired) : WireEvent → Option Wired
  | .transfer op n =>
    if op ∈ v.world.pending ∧ 0 < n ∧ v.progress + n ≤ (pointed v.world.conn op).length then
      some (v.transfer op n)
    else none
  | .complete e =>
    if v.Allows e then (HttpConnection.step v.world e).map fun w => v.resume w e else none

end Wired

/-- The completions among the events: what the handlers see. -/
def delivered (es : List WireEvent) : List Event :=
  es.filterMap fun
    | .transfer _ _ => none
    | .complete e => some e

/-- The events lead from `Connection::Start` to this connection. -/
def WireReaches (es : List WireEvent) (v : Wired) : Prop :=
  ∃ bbuffer sbuffer newStart_ newServerReadStart_, Run Wired.step
    (Wired.start (started bbuffer sbuffer newStart_ newServerReadStart_)) es v

@[simp] theorem delivered_nil : delivered [] = [] := rfl

@[simp] theorem delivered_transfer (op : AsyncOp) (n : Nat) (es : List WireEvent) :
    delivered (.transfer op n :: es) = delivered es := rfl

@[simp] theorem delivered_complete (e : Event) (es : List WireEvent) :
    delivered (.complete e :: es) = e :: delivered es := rfl

theorem delivered_append (es es' : List WireEvent) :
    delivered (es ++ es') = delivered es ++ delivered es' :=
  List.filterMap_append

@[simp] theorem Wired.resume_world (v : Wired) (w : World) (e : Event) :
    (v.resume w e).world = w := by
  unfold Wired.resume
  split <;> rfl

@[simp] theorem Wired.transfer_world (v : Wired) (op : AsyncOp) (n : Nat) :
    (v.transfer op n).world = v.world := by
  cases op <;> rfl

/-- What a step is. -/
theorem Wired.step_cases {v v' : Wired} {a : WireEvent} (hs : v.step a = some v') :
    (∃ op n, a = .transfer op n ∧ op ∈ v.world.pending ∧ 0 < n ∧
        v.progress + n ≤ (pointed v.world.conn op).length ∧ v' = v.transfer op n) ∨
      ∃ e w, a = .complete e ∧ v.Allows e ∧ HttpConnection.step v.world e = some w ∧
        v' = v.resume w e := by
  cases a with
  | transfer op n =>
    rw [Wired.step, Option.ite_none_right_eq_some] at hs
    obtain ⟨⟨hop, hn, hle⟩, hs⟩ := hs
    exact Or.inl ⟨op, n, rfl, hop, hn, hle, (Option.some.inj hs).symm⟩
  | complete e =>
    rw [Wired.step, Option.ite_none_right_eq_some, Option.map_eq_some_iff] at hs
    obtain ⟨hall, w, hw, rfl⟩ := hs
    exact Or.inr ⟨e, w, rfl, hall, hw, rfl⟩

/-- **The handlers see a run of the connection.** -/
theorem Wired.run_delivered {v v' : Wired} {es : List WireEvent} (h : Run Wired.step v es v') :
    Run HttpConnection.step v.world (delivered es) v'.world := by
  induction h with
  | nil v => exact .nil _
  | cons hs _ ih =>
    rcases Wired.step_cases hs with ⟨op, n, rfl, -, -, -, rfl⟩ | ⟨e, w, rfl, -, hw, rfl⟩
    · rw [Wired.transfer_world] at ih
      exact ih
    · rw [Wired.resume_world] at ih
      exact .cons hw ih

/-! ## 2. Two pumps -/

namespace Wired

/-- The bytes that the pending operation points at, if it is this kind of write. -/
def chunk (v : Wired) (isWrite : AsyncOp → Bool) : Bytes :=
  match v.world.pending with
  | [op] => if isWrite op then pointed v.world.conn op else []
  | _ => []

/-- How much of them has been taken. -/
def taken (v : Wired) (isWrite : AsyncOp → Bool) : Nat :=
  match v.world.pending with
  | [op] => if isWrite op then v.progress else 0
  | _ => 0

def isServerWrite : AsyncOp → Bool
  | .serverWrite _ => true
  | _ => false

def isClientWrite : AsyncOp → Bool
  | .clientWrite _ => true
  | _ => false

/-- The request, from `fReq` to the server. -/
def query (v : Wired) : Pump Byte where
  received := v.world.conn.fReq
  transferred := v.toServer
  completed := v.serverCompleted
  chunk := v.chunk isServerWrite
  progress := v.taken isServerWrite

/-- The response, from the server to the browser. -/
def answer (v : Wired) : Pump Byte where
  received := v.fromServer
  transferred := v.toBrowser
  completed := v.browserCompleted
  chunk := v.chunk isClientWrite
  progress := v.taken isClientWrite

/-- Nothing has been written or read on either socket. -/
structure Silent (v : Wired) : Prop where
  fReq : v.world.conn.fReq = []
  fromServer : v.fromServer = []
  toServer : v.toServer = []
  serverCompleted : v.serverCompleted = []
  toBrowser : v.toBrowser = []
  browserCompleted : v.browserCompleted = []

/-- What the pending operation says of the sockets. -/
def Stage (v : Wired) : AsyncOp → Prop
  | .serverWrite b => v.world.conn.fReq = b ∧ v.fromServer = []
  | .serverRead => v.serverCompleted = v.world.conn.fReq
  | .clientWrite b =>
    v.serverCompleted = v.world.conn.fReq ∧ v.world.conn.sbuffer.bytes.take b.length = b
  | _ => v.Silent

/-- An operation is pending. -/
structure Flowing (v : Wired) : Prop where
  query : v.query.Balanced
  answer : v.answer.Balanced
  pending : ∃ op, v.world.pending = [op] ∧ v.Stage op

/-- What holds of the sockets at any time. -/
structure Settled (v : Wired) : Prop where
  query : v.toServer <+: v.world.conn.fReq
  answer : v.toBrowser <+: v.fromServer
  order : v.fromServer ≠ [] → v.toServer = v.world.conn.fReq

end Wired

/-- A wired connection between two events. -/
structure Intact (v : Wired) : Prop where
  phase : Phase v.world
  settled : v.Settled
  flowing : v.world.pending ≠ [] → v.Flowing

namespace Wired

variable {v : Wired} {op : AsyncOp} {b : Bytes}

theorem Stage.pointed (h : v.Stage op) : pointed v.world.conn op = handedOver op := by
  cases op with
  | serverWrite b =>
    obtain ⟨rfl, -⟩ := h
    exact List.take_length
  | clientWrite b => exact h.2
  | _ => rfl

theorem chunk_of_pending (hp : v.world.pending = [op]) (f : AsyncOp → Bool) :
    v.chunk f = if f op then HttpConnection.pointed v.world.conn op else [] := by
  simp only [chunk, hp]

theorem taken_of_pending (hp : v.world.pending = [op]) (f : AsyncOp → Bool) :
    v.taken f = if f op then v.progress else 0 := by
  simp only [taken, hp]

/-- Before the request is written nothing flows. -/
theorem Silent.flowing (h : v.Silent) (hp : v.world.pending = [op])
    (hq : isServerWrite op = false) (ha : isClientWrite op = false) (hop : v.Stage op) :
    v.Flowing where
  query := Pump.balanced_of_idle ((chunk_of_pending hp _).trans (if_neg (by simp [hq])))
    ((taken_of_pending hp _).trans (if_neg (by simp [hq])))
    (h.serverCompleted.trans h.fReq.symm) (h.toServer.trans h.fReq.symm)
  answer := Pump.balanced_of_idle ((chunk_of_pending hp _).trans (if_neg (by simp [ha])))
    ((taken_of_pending hp _).trans (if_neg (by simp [ha])))
    (h.browserCompleted.trans h.fromServer.symm) (h.toBrowser.trans h.fromServer.symm)
  pending := ⟨op, hp, hop⟩

theorem Silent.settled (h : v.Silent) : v.Settled where
  query := by rw [h.toServer]; exact List.nil_prefix
  answer := by rw [h.toBrowser]; exact List.nil_prefix
  order := fun hne => absurd h.fromServer hne

theorem Flowing.stage (h : v.Flowing) (hp : v.world.pending = [op]) : v.Stage op := by
  obtain ⟨op', hp', hop⟩ := h.pending
  rw [hp] at hp'
  cases hp'
  exact hop

/-- While no server write is pending, the server has all of `fReq`. -/
theorem Flowing.query_idle (h : v.Flowing) (hp : v.world.pending = [op])
    (hq : isServerWrite op = false) : v.toServer = v.world.conn.fReq :=
  h.query.transferred_of_idle ((chunk_of_pending hp _).trans (if_neg (by simp [hq])))

/-- While no client write is pending, the browser has all that the server has sent. -/
theorem Flowing.answer_idle (h : v.Flowing) (hp : v.world.pending = [op])
    (ha : isClientWrite op = false) : v.toBrowser = v.fromServer :=
  h.answer.transferred_of_idle ((chunk_of_pending hp _).trans (if_neg (by simp [ha])))

theorem Flowing.settled (h : v.Flowing) : v.Settled where
  query := h.query.transferred_isPrefix
  answer := h.answer.transferred_isPrefix
  order := by
    intro hne
    obtain ⟨op, hp, hop⟩ := h.pending
    cases op with
    | serverWrite b => exact absurd hop.2 hne
    | serverRead => exact h.query_idle hp rfl
    | clientWrite b => exact h.query_idle hp rfl
    | browserRead => exact absurd hop.fromServer hne
    | resolve host port => exact absurd hop.fromServer hne
    | connect ep it => exact absurd hop.fromServer hne

/-! ## 3. One step -/

/-- More bytes are taken for the pending write. -/
theorem Flowing.transfer {n : Nat} (h : v.Flowing) (hmem : op ∈ v.world.pending)
    (hpos : 0 < n) (hle : v.progress + n ≤ (HttpConnection.pointed v.world.conn op).length) :
    (v.transfer op n).Flowing := by
  obtain ⟨op', hp, hop⟩ := h.pending
  obtain rfl : op = op' := by simpa [hp] using hmem
  cases op with
  | serverWrite b =>
    refine ⟨?_, ?_, ⟨.serverWrite b, hp, hop⟩⟩
    · have hle' : v.query.progress + n ≤ v.query.chunk.length := by
        simpa [Wired.query, chunk, taken, hp, isServerWrite] using hle
      refine (congrArg Pump.Balanced ?_).mp ((Pump.Step.transfer _ n hle').balanced h.query)
      simp [Wired.query, chunk, taken, Wired.transfer, hp, isServerWrite]
    · refine (congrArg Pump.Balanced ?_).mp h.answer
      simp [Wired.answer, chunk, taken, Wired.transfer, hp, isClientWrite]
  | clientWrite b =>
    refine ⟨?_, ?_, ⟨.clientWrite b, hp, hop⟩⟩
    · refine (congrArg Pump.Balanced ?_).mp h.query
      simp [Wired.query, chunk, taken, Wired.transfer, hp, isServerWrite]
    · have hle' : v.answer.progress + n ≤ v.answer.chunk.length := by
        simpa [Wired.answer, chunk, taken, hp, isClientWrite] using hle
      refine (congrArg Pump.Balanced ?_).mp ((Pump.Step.transfer _ n hle').balanced h.answer)
      simp [Wired.answer, chunk, taken, Wired.transfer, hp, isClientWrite]
  | browserRead => exact absurd hle (by simp [HttpConnection.pointed]; omega)
  | resolve host port => exact absurd hle (by simp [HttpConnection.pointed]; omega)
  | connect ep it => exact absurd hle (by simp [HttpConnection.pointed]; omega)
  | serverRead => exact absurd hle (by simp [HttpConnection.pointed]; omega)

/-- A handler that leaves `fReq` alone leaves the sockets settled, whatever it does next. -/
theorem Settled.resume {w : World} {e : Event} (h : v.Settled)
    (hf : w.conn.fReq = v.world.conn.fReq)
    (hread : ∀ data, e = .serverRead (some data) → v.toServer = v.world.conn.fReq) :
    (v.resume w e).Settled := by
  have hsame : ({ v with world := w, progress := 0 } : Wired).Settled :=
    ⟨by rw [hf]; exact h.query, h.answer, fun hne => (h.order hne).trans hf.symm⟩
  cases e with
  | serverRead r =>
    cases r with
    | none => exact hsame
    | some data =>
      exact ⟨hsame.query, h.answer.trans (List.prefix_append _ _),
        fun _ => (hread data rfl).trans hf.symm⟩
  | serverWrite b err => cases err <;> exact ⟨hsame.query, hsame.answer, hsame.order⟩
  | clientWrite b err => cases err <;> exact ⟨hsame.query, hsame.answer, hsame.order⟩
  | browserRead r => exact hsame
  | resolve host port r => exact hsame
  | connect ep it err => exact hsame

/-- Nothing is written or read before the request is. -/
theorem Silent.resume {w : World} (h : v.Silent) (hf : w.conn.fReq = v.world.conn.fReq) :
    ({ v with world := w, progress := 0 } : Wired).Silent :=
  ⟨hf.trans h.fReq, h.fromServer, h.toServer, h.serverCompleted, h.toBrowser,
    h.browserCompleted⟩

end Wired

@[simp] theorem Shutdown_fReq (w : World) : (Shutdown w).conn.fReq = w.conn.fReq := by
  unfold Shutdown
  split <;> rfl

/-- No handler of the request side touches `fReq`. -/
theorem ReadingMove.fReq {w w' : World} {l : RequestLexing} {e : Event} (h : ReadingMove w l e w') :
    w'.conn.fReq = w.conn.fReq := by
  cases h with
  | hangsUp => exact Shutdown_fReq _
  | refuses data c line only feed => exact only.fReq
  | connects data c tokens rest host port only feed head uri => exact only.fReq
  | throws data c tokens rest only feed head uri => exact only.fReq
  | continues data c l' only feed inOrder => exact only.fReq
  | overruns data c l' only feed inverted => exact only.fReq

/-- What is pending after a handler of the request side. -/
theorem ReadingMove.pending {w w' : World} {l : RequestLexing} {e : Event}
    (h : ReadingMove w l e w') :
    w'.pending = [] ∨ w'.pending = [.browserRead] ∨
      ∃ host port, w'.pending = [.resolve host port] := by
  cases h with
  | hangsUp => exact Or.inl (Shutdown_pending _)
  | refuses => exact Or.inl rfl
  | connects data c tokens rest host port => exact Or.inr (Or.inr ⟨host, port, rfl⟩)
  | throws => exact Or.inl rfl
  | continues => exact Or.inr (Or.inl rfl)
  | overruns => exact Or.inl rfl

namespace Wired

variable {v : Wired} {op : AsyncOp} {w : World} {e : Event}

/-- **While the head is read**, nothing flows. -/
theorem Flowing.reads {l : RequestLexing} (h : v.Flowing) (hr : Reading v.world l)
    (hs : HttpConnection.step v.world e = some w) :
    (v.resume w e).Settled ∧ (w.pending ≠ [] → (v.resume w e).Flowing) := by
  have hmove := hr.move hs
  have hsilent : v.Silent := h.stage hr.pending
  have hsame : v.resume w e = { v with world := w, progress := 0 } := by
    obtain ⟨hop, -⟩ := step_eq_some hr.pending hs
    cases e with
    | browserRead r => rfl
    | _ => exact absurd hop (by simp [Event.op])
  have hnext := hsilent.resume hmove.fReq
  rw [hsame]
  refine ⟨hnext.settled, fun hne => ?_⟩
  rcases hmove.pending with hp | hp | ⟨host, port, hp⟩
  · exact absurd hp hne
  · exact hnext.flowing hp rfl rfl hnext
  · exact hnext.flowing hp rfl rfl hnext

/-- The request is handed to the write. -/
theorem Flowing.connected {endpoint : Endpoint} {ahead : List Endpoint} (h : v.Flowing)
    (hp : v.world.pending = [.connect endpoint ahead]) :
    (v.resume (StartWriteToServer (resuming v.world { v.world.conn with isOpened := true }))
      (.connect endpoint ahead false)).Flowing := by
  have hsilent : v.Silent := h.stage hp
  have hidle : v.query.chunk = [] := chunk_of_pending hp _
  refine ⟨?_, ?_, ⟨_, rfl, rfl, hsilent.fromServer⟩⟩
  · refine (congrArg Pump.Balanced ?_).mp
      ((Pump.Step.receive _ (request v.world.conn.message_.method_
        v.world.conn.message_.destination_ v.world.conn.reqHeaders_) hidle).balanced h.query)
    simp [Wired.query, chunk, taken, Wired.resume, StartWriteToServer, World.start, World.act,
      resuming, isServerWrite, HttpConnection.pointed, hsilent.fReq]
  · refine (congrArg Pump.Balanced ?_).mp h.answer
    simp [Wired.answer, chunk, taken, Wired.resume, StartWriteToServer, World.start, World.act,
      resuming, isClientWrite, hp]

/-- The write of the request is complete. -/
theorem Flowing.written {b : Bytes} (h : v.Flowing) (hp : v.world.pending = [.serverWrite b])
    (hall : v.progress = b.length) :
    (v.resume ((resuming v.world { v.world.conn with newServerReadStart_ := 1024 }).start
      .serverRead) (.serverWrite b false)).Flowing := by
  have hpointed : HttpConnection.pointed v.world.conn (.serverWrite b) = b := (h.stage hp).pointed
  have hchunk : v.query.chunk = b :=
    (chunk_of_pending hp isServerWrite).trans ((if_pos rfl).trans hpointed)
  have hfull : v.query.progress = v.query.chunk.length := by
    rw [hchunk, ← hall]
    exact (taken_of_pending hp isServerWrite).trans (if_pos rfl)
  have hquery := (Pump.Step.complete _ hfull).balanced h.query
  refine ⟨?_, ?_, ⟨.serverRead, rfl, hquery.of_idle rfl⟩⟩
  · refine (congrArg Pump.Balanced ?_).mp hquery
    simp [Wired.query, chunk, taken, Wired.resume, World.start, resuming, isServerWrite]
  · refine (congrArg Pump.Balanced ?_).mp h.answer
    simp [Wired.answer, chunk, taken, Wired.resume, World.start, resuming, isClientWrite, hp]

/-- A read of the server is handed to the write. -/
theorem Flowing.forwards {data : Chunk} {c : HttpConnection} (h : v.Flowing)
    (hp : v.world.pending = [.serverRead]) (honly : ResponseOnly (served v.world.conn data) c) :
    (v.resume ((resuming v.world c).start (.clientWrite data.bytes))
      (.serverRead (some data))).Flowing := by
  have hidle : v.answer.chunk = [] := chunk_of_pending hp _
  have hbuffer : c.sbuffer.bytes.take data.bytes.length = data.bytes := by
    rw [honly.sbuffer]
    simp [served, Buffer.fill]
  have hfReq : c.fReq = v.world.conn.fReq := honly.fReq
  have hcompleted : v.serverCompleted = v.world.conn.fReq := h.stage hp
  refine ⟨?_, ?_, ⟨.clientWrite data.bytes, rfl, hcompleted.trans hfReq.symm, hbuffer⟩⟩
  · refine (congrArg Pump.Balanced ?_).mp h.query
    simp [Wired.query, chunk, taken, Wired.resume, World.start, resuming, isServerWrite, hp, hfReq]
  · refine (congrArg Pump.Balanced ?_).mp
      ((Pump.Step.receive _ data.bytes hidle).balanced h.answer)
    simp [Wired.answer, chunk, taken, Wired.resume, World.start, resuming, isClientWrite,
      HttpConnection.pointed, hbuffer]

/-- The write of a read is complete. -/
theorem Flowing.delivered {b : Bytes} (h : v.Flowing) (hp : v.world.pending = [.clientWrite b])
    (hall : v.progress = b.length) :
    (v.resume ((resuming v.world { v.world.conn with newServerReadStart_ := 0 }).start
      .serverRead) (.clientWrite b false)).Flowing := by
  have hpointed : HttpConnection.pointed v.world.conn (.clientWrite b) = b := (h.stage hp).pointed
  have hchunk : v.answer.chunk = b :=
    (chunk_of_pending hp isClientWrite).trans ((if_pos rfl).trans hpointed)
  have hfull : v.answer.progress = v.answer.chunk.length := by
    rw [hchunk, ← hall]
    exact (taken_of_pending hp isClientWrite).trans (if_pos rfl)
  refine ⟨?_, ?_, ⟨.serverRead, rfl, (h.stage hp).1⟩⟩
  · refine (congrArg Pump.Balanced ?_).mp h.query
    simp [Wired.query, chunk, taken, Wired.resume, World.start, resuming, isServerWrite, hp]
  · refine (congrArg Pump.Balanced ?_).mp ((Pump.Step.complete _ hfull).balanced h.answer)
    simp [Wired.answer, chunk, taken, Wired.resume, World.start, resuming, isClientWrite]

/-- **While the head is served**, a handler moves one pump at most. -/
theorem Flowing.serves {hd : Head} (h : v.Flowing) (hr : Serving hd v.world)
    (hall : v.Allows e) (hs : HttpConnection.step v.world e = some w) :
    (v.resume w e).Settled ∧ (w.pending ≠ [] → (v.resume w e).Flowing) := by
  obtain ⟨op, hp, -⟩ := hr.pending
  obtain ⟨hop, -⟩ := step_eq_some hp hs
  cases hr.move hs with
  | resolved host port endpoint rest =>
    subst hop
    have hnext := Silent.resume
      (w := (resuming v.world v.world.conn).start (.connect endpoint rest)) (h.stage hp) rfl
    exact ⟨hnext.settled, fun _ => hnext.flowing rfl rfl rfl hnext⟩
  | retries endpoint next rest =>
    subst hop
    have hnext := Silent.resume
      (w := (resuming v.world v.world.conn).start (.connect next rest)) (h.stage hp) rfl
    exact ⟨hnext.settled, fun _ => hnext.flowing rfl rfl rfl hnext⟩
  | connected endpoint ahead =>
    subst hop
    have hnext := h.connected hp
    exact ⟨hnext.settled, fun _ => hnext⟩
  | written buffer =>
    subst hop
    have hnext := h.written hp hall
    exact ⟨hnext.settled, fun _ => hnext⟩
  | forwards data c only accepted =>
    subst hop
    have hnext := h.forwards hp only
    exact ⟨hnext.settled, fun _ => hnext⟩
  | delivered buffer =>
    subst hop
    have hnext := h.delivered hp hall
    exact ⟨hnext.settled, fun _ => hnext⟩
  | refuses data c only refused =>
    subst hop
    exact ⟨h.settled.resume only.fReq (fun _ _ => h.query_idle hp rfl), fun hne => absurd rfl hne⟩
  | unresolved host port =>
    exact ⟨h.settled.resume (Shutdown_fReq _) (by simp), fun hne => absurd (Shutdown_pending _) hne⟩
  | exhausted endpoint =>
    exact ⟨h.settled.resume (Shutdown_fReq _) (by simp), fun hne => absurd (Shutdown_pending _) hne⟩
  | unwritten buffer =>
    exact ⟨h.settled.resume (Shutdown_fReq _) (by simp), fun hne => absurd (Shutdown_pending _) hne⟩
  | ends =>
    exact ⟨h.settled.resume (Shutdown_fReq _) (by simp), fun hne => absurd (Shutdown_pending _) hne⟩
  | undelivered buffer =>
    exact ⟨h.settled.resume (Shutdown_fReq _) (by simp), fun hne => absurd (Shutdown_pending _) hne⟩

end Wired

/-- **Every step keeps a wired connection intact.** -/
theorem Intact.step {v v' : Wired} {a : WireEvent} (h : Intact v) (hs : v.step a = some v') :
    Intact v' := by
  rcases Wired.step_cases hs with ⟨op, n, rfl, hmem, hpos, hle, rfl⟩ | ⟨e, w, rfl, hall, hw, rfl⟩
  · have hnext := (h.flowing (List.ne_nil_of_mem hmem)).transfer hmem hpos hle
    exact ⟨by rw [Wired.transfer_world]; exact h.phase, hnext.settled, fun _ => hnext⟩
  · have hflow : v.Flowing := h.flowing (List.ne_nil_of_mem (step_handle hw).1)
    have hnext : (v.resume w e).Settled ∧ (w.pending ≠ [] → (v.resume w e).Flowing) := by
      cases h.phase with
      | reading l hr => exact hflow.reads hr hw
      | serving hd hr => exact hflow.serves hr hall hw
      | closed hr => exact absurd hw (step_ne_some hr.pending)
      | stalled hr => exact absurd hw (step_ne_some hr.pending)
    exact ⟨by rw [Wired.resume_world]; exact h.phase.kept hw, hnext.1,
      by rw [Wired.resume_world]; exact hnext.2⟩

/-- A started connection is intact. -/
theorem start_intact (bbuffer sbuffer : Buffer) (newStart_ newServerReadStart_ : Nat) :
    Intact (Wired.start (started bbuffer sbuffer newStart_ newServerReadStart_)) := by
  have hsilent : (Wired.start (started bbuffer sbuffer newStart_ newServerReadStart_)).Silent :=
    ⟨rfl, rfl, rfl, rfl, rfl, rfl⟩
  exact ⟨.reading _ (started_reading _ _ _ _), hsilent.settled,
    fun _ => hsilent.flowing rfl rfl rfl hsilent⟩

theorem WireReaches.intact {es : List WireEvent} {v : Wired} (h : WireReaches es v) :
    Intact v := by
  obtain ⟨bbuffer, sbuffer, newStart_, newServerReadStart_, hrun⟩ := h
  exact hrun.invariant (fun _ _ _ hi hs => hi.step hs) (start_intact _ _ _ _)

/-! ## 4. What is on the sockets -/

/-- While the next read of the server is pending, everything is where it should be. -/
theorem Intact.idle {v : Wired} (h : Intact v) (hmem : .serverRead ∈ v.world.pending) :
    v.toServer = v.world.conn.fReq ∧ v.toBrowser = v.fromServer := by
  have hflow := h.flowing (List.ne_nil_of_mem hmem)
  obtain ⟨op, hp, -⟩ := hflow.pending
  obtain rfl : .serverRead = op := by simpa [hp] using hmem
  exact ⟨hflow.query_idle hp rfl, hflow.answer_idle hp rfl⟩

/-- It stays there when that read ends the connection. -/
theorem Intact.ended {v v' : Wired} (h : Intact v)
    (hs : v.step (.complete (.serverRead none)) = some v') :
    v'.world.deleted = 1 ∧ v'.toServer = v'.world.conn.fReq ∧ v'.toBrowser = v'.fromServer := by
  rcases Wired.step_cases hs with ⟨op, n, ha, -⟩ | ⟨e, w, ha, -, hw, rfl⟩
  · simp at ha
  obtain rfl : .serverRead none = e := WireEvent.complete.inj ha
  have hmem : .serverRead ∈ v.world.pending := (step_handle hw).1
  obtain ⟨hserver, hbrowser⟩ := h.idle hmem
  cases h.phase with
  | reading l hr => exact absurd hmem (by simp [hr.pending])
  | closed hr => exact absurd hmem (by simp [hr.pending])
  | stalled hr => exact absurd hmem (by simp [hr.pending])
  | serving hd hr =>
    cases hr.move hw with
    | ends =>
      have hfReq := Shutdown_fReq (resuming v.world v.world.conn)
      refine ⟨?_, hserver.trans hfReq.symm, hbrowser⟩
      have hgo : (!(resuming v.world v.world.conn).conn.isShuttingDown_) = true := by
        simp [resuming, hr.running.isShuttingDown]
      rw [Wired.resume_world, Shutdown, if_pos hgo]
      simp [resuming, hr.running.deleted]

/-- **Integrity on the wire.**  In every reachable state the server has a prefix of the one
request and the browser a prefix of what the server sent, and the server has sent nothing
before it had the whole request.  While the next read of the server is pending both have
everything, and they keep it when that read ends the connection.  A pending write finds in
the memory of the connection the bytes it was started with. -/
theorem wire_integrity (es : List WireEvent) (v : Wired) (h : WireReaches es v) :
    v.toServer <+: v.world.conn.fReq ∧ v.toBrowser <+: v.fromServer ∧
      (v.fromServer ≠ [] → v.toServer = v.world.conn.fReq) ∧
      (.serverRead ∈ v.world.pending →
        v.toServer = v.world.conn.fReq ∧ v.toBrowser = v.fromServer) ∧
      (∀ before, es = before ++ [.complete (.serverRead none)] →
        v.world.deleted = 1 ∧ v.toServer = v.world.conn.fReq ∧ v.toBrowser = v.fromServer) ∧
      ∀ op ∈ v.world.pending, pointed v.world.conn op = handedOver op := by
  have hintact := h.intact
  refine ⟨hintact.settled.query, hintact.settled.answer, hintact.settled.order, hintact.idle,
    ?_, ?_⟩
  · rintro before rfl
    obtain ⟨bbuffer, sbuffer, newStart_, newServerReadStart_, hrun⟩ := h
    obtain ⟨u, hbefore, hlast⟩ := hrun.split_last
    have hu : Intact u := WireReaches.intact ⟨bbuffer, sbuffer, newStart_, newServerReadStart_,
      hbefore⟩
    exact hu.ended hlast
  · intro op hmem
    obtain ⟨op', hp, hop⟩ := (hintact.flowing (List.ne_nil_of_mem hmem)).pending
    obtain rfl : op = op' := by simpa [hp] using hmem
    exact hop.pointed

/-- The request in two pieces, and a response. -/
def inPieces : List WireEvent :=
  [.complete (.browserRead (some absoluteForm)),
    .complete (.resolve (ascii "a") (ascii "80") (some (origin, []))),
    .complete (.connect origin [] false), .transfer (.serverWrite sent) 10,
    .transfer (.serverWrite sent) (sent.length - 10), .complete (.serverWrite sent false),
    .complete (.serverRead none)]

theorem wire_integrity_inPieces :
    let v := follow Wired.step (Wired.start fresh) inPieces
    v.toServer = sent ∧ v.toServer <+: v.world.conn.fReq ∧ v.toBrowser <+: v.fromServer ∧
      (v.fromServer ≠ [] → v.toServer = v.world.conn.fReq) ∧
      (.serverRead ∈ v.world.pending →
        v.toServer = v.world.conn.fReq ∧ v.toBrowser = v.fromServer) ∧
      (∀ before, inPieces = before ++ [.complete (.serverRead none)] →
        v.world.deleted = 1 ∧ v.toServer = v.world.conn.fReq ∧ v.toBrowser = v.fromServer) ∧
      ∀ op ∈ v.world.pending, pointed v.world.conn op = handedOver op :=
  ⟨by decide +kernel, wire_integrity inPieces _
    ⟨blank, blank, 0, 0, run_follow (by decide +kernel)⟩⟩

/-! ## 5. What the handlers see of the sockets -/

@[simp] theorem Wired.resume_progress (v : Wired) (w : World) (e : Event) :
    (v.resume w e).progress = 0 := by
  unfold Wired.resume
  split <;> rfl

/-- A write that has not been taken at all can be taken at once. -/
theorem Intact.takesAll {v : Wired} {op : AsyncOp} (h : Intact v) (h0 : v.progress = 0)
    (hmem : op ∈ v.world.pending) (hpos : 0 < (handedOver op).length) :
    v.step (.transfer op (handedOver op).length) =
      some (v.transfer op (handedOver op).length) := by
  obtain ⟨op', hp, hop⟩ := (h.flowing (List.ne_nil_of_mem hmem)).pending
  obtain rfl : op = op' := by simpa [hp] using hmem
  rw [Wired.step, if_pos ⟨hmem, hpos, by rw [h0, Nat.zero_add, hop.pointed]⟩]

/-- Only the success of a write has to wait for the sockets. -/
theorem Wired.allows_or_writes (v : Wired) (e : Event) :
    v.Allows e ∨ ((∃ b, e = .serverWrite b false) ∨ ∃ b, e = .clientWrite b false) := by
  cases e with
  | serverWrite b err =>
    cases err with
    | true => exact Or.inl trivial
    | false => exact Or.inr (Or.inl ⟨b, rfl⟩)
  | clientWrite b err =>
    cases err with
    | true => exact Or.inl trivial
    | false => exact Or.inr (Or.inr ⟨b, rfl⟩)
  | _ => exact Or.inl trivial

/-- After a transfer of the whole buffer the write may succeed. -/
theorem Wired.transfer_allows {v : Wired} {e : Event} (h0 : v.progress = 0)
    (he : (∃ b, e = .serverWrite b false) ∨ ∃ b, e = .clientWrite b false) :
    (v.transfer e.op (handedOver e.op).length).Allows e := by
  rcases he with ⟨b, rfl⟩ | ⟨b, rfl⟩ <;>
    simp [Wired.transfer, Wired.Allows, Event.op, handedOver, h0]

/-- **The sockets never stand in the way of a handler.** -/
theorem Intact.exists_wiring {v : Wired} {e : Event} {w : World} (h : Intact v)
    (h0 : v.progress = 0) (hs : HttpConnection.step v.world e = some w) :
    ∃ ws v', Run Wired.step v ws v' ∧ delivered ws = [e] ∧ v'.world = w ∧ v'.progress = 0 := by
  have hcomplete : ∀ u : Wired, u.world = v.world → u.Allows e →
      u.step (.complete e) = some (u.resume w e) := by
    intro u hu hall
    rw [Wired.step, if_pos hall, hu, hs]
    rfl
  rcases v.allows_or_writes e with hall | hwrite
  · exact ⟨[.complete e], _, .single (hcomplete v rfl hall), rfl, v.resume_world w e,
      v.resume_progress w e⟩
  · by_cases hempty : (handedOver e.op).length = 0
    · have hall : v.Allows e := by
        rcases hwrite with ⟨b, rfl⟩ | ⟨b, rfl⟩ <;> exact h0.trans hempty.symm
      exact ⟨[.complete e], _, .single (hcomplete v rfl hall), rfl, v.resume_world w e,
        v.resume_progress w e⟩
    · have hfirst := h.takesAll h0 (step_handle hs).1 (Nat.pos_of_ne_zero hempty)
      exact ⟨[.transfer e.op (handedOver e.op).length, .complete e], _,
        .cons hfirst (.single (hcomplete _ (Wired.transfer_world _ _ _)
          (Wired.transfer_allows h0 hwrite))), rfl, Wired.resume_world _ _ _,
        Wired.resume_progress _ _ _⟩

/-- A run of the handlers is a run on the sockets. -/
theorem exists_wiring {s w : World} {es : List Event} (hrun : Run step s es w) :
    ∀ u : Wired, Intact u → u.progress = 0 → u.world = s →
      ∃ ws v, Run Wired.step u ws v ∧ delivered ws = es ∧ v.world = w := by
  induction hrun with
  | nil s => exact fun u _ _ hu => ⟨[], u, .nil u, rfl, hu⟩
  | cons hs _ ih =>
    rintro u hi h0 rfl
    obtain ⟨ws, u', hrun', hws, hu', h0'⟩ := hi.exists_wiring h0 hs
    have hi' : Intact u' := hrun'.invariant (fun _ _ _ hi hs => hi.step hs) hi
    obtain ⟨ws', v, hrun'', hws', hv⟩ := ih u' hi' h0' hu'
    exact ⟨ws ++ ws', v, hrun'.append hrun'', by rw [delivered_append, hws, hws']; rfl, hv⟩

/-- **The sockets cannot be seen from the handlers.**  What the handlers go through, when the
bytes of a write are taken from the memory of the connection piece by piece, is what they go
through when each write carries its bytes: no more runs, and no fewer. -/
theorem wire_refines_iff (bbuffer sbuffer : Buffer) (newStart_ newServerReadStart_ : Nat)
    (es : List Event) (w : World) :
    (∃ ws v, Run Wired.step (Wired.start (started bbuffer sbuffer newStart_ newServerReadStart_))
        ws v ∧ delivered ws = es ∧ v.world = w) ↔
      Run step (started bbuffer sbuffer newStart_ newServerReadStart_) es w := by
  constructor
  · rintro ⟨ws, v, hrun, rfl, rfl⟩
    exact Wired.run_delivered hrun
  · exact fun hrun => exists_wiring hrun _ (start_intact _ _ _ _) rfl rfl

end HttpConnection

end TwoProxy
