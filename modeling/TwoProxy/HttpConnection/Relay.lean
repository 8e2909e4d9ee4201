/-
# The response, on its way to the browser

The loop `HandleServerRead`, `SendDataToClient`, `HandleClientWrite`, `ReadMoreFromServer`
forwards a read if the response parser has not refused the bytes between its two iterators.
`HandleServerWrite` starts that range at `sbuffer.begin()`; `ReadMoreFromServer` starts it at
`bbuffer.begin()`, so that from the second read on the parser is first shown the 1024 bytes
of `bbuffer`, where the request of the browser is.

So what decides whether a response is relayed is not the response but `examined`: the first
read, and then `bbuffer` and the next read, time and again.  `relay_verbatim_iff` says that
it is relayed byte for byte exactly if a fresh parser does not refuse that.  In terms of what
is sent (`first_read_decides`): a response whose head is in the first read is relayed, however
long it is and however it is cut; and of one whose head is not, it is the request of the
browser that decides.
-/
import TwoProxy.HttpConnection.Lifetime
import TwoProxy.ResponseParser.Grammar

namespace TwoProxy

namespace HttpConnection

open ResponseParser.StateType
open Transition

/-! ## 1. What is relayed -/

/-- The buffers written to `bsocket_`, one after the other. -/
def clientBytes (trace : List Action) : Bytes :=
  trace.flatMap fun
    | .start (.clientWrite b) => b
    | _ => []

@[simp] theorem clientBytes_append (trace trace' : List Action) :
    clientBytes (trace ++ trace') = clientBytes trace ++ clientBytes trace' :=
  List.flatMap_append

@[simp] theorem clientBytes_nil : clientBytes [] = [] := rfl

@[simp] theorem clientBytes_cons (a : Action) (trace : List Action) :
    clientBytes (a :: trace) = (match a with
      | .start (.clientWrite b) => b
      | _ => []) ++ clientBytes trace := rfl

/-- The server reads and the client writes of a response, all successful. -/
def replies (reads : List Chunk) : List Event :=
  reads.flatMap fun c => [.serverRead (some c), .clientWrite c.bytes false]

/-- A whole response: the server closes the connection after it. -/
def response (reads : List Chunk) : List Event := replies reads ++ [.serverRead none]

/-- From `w` on, the response goes to the browser byte for byte, and then the connection is
shut down. -/
def Forwards (w : World) (reads : List Chunk) : Prop :=
  clientBytes (follow step w (response reads)).trace = clientBytes w.trace ++ streamOf reads ∧
    (follow step w (response reads)).deleted = 1

/-- The bytes that the parser is shown after the first read. -/
def reexamined (bbuffer : Buffer) (reads : List Chunk) : Bytes :=
  (reads.map fun c => bbuffer.bytes ++ c.bytes).flatten

/-- The bytes that the parser is shown. -/
def examined (bbuffer : Buffer) : List Chunk → Bytes
  | [] => []
  | c :: reads => c.bytes ++ reexamined bbuffer reads

/-- The response parser, from `s` on, refuses the bytes before the head is complete. -/
def RefusesFrom (s : ResponseParser.StateType) (bytes : Bytes) : Prop :=
  (Scan.scan ResponseParser.next HttpHeadersDone s bytes).verdict = .ParsedFailed

/-! ## 2. One read -/

/-- A server read is pending, with the start of its range at `start`. -/
structure Relaying (start : Nat) (w : World) : Prop where
  running : Running w
  pending : w.pending = [.serverRead]
  start : w.conn.newServerReadStart_ = start
  body : w.conn.serverResponseState_ = .Body → w.conn.responseParser_ = HttpHeadersDone

theorem served_memory (c : HttpConnection) (data : Chunk) : (served c data).memory =
    c.bbuffer.bytes ++ (data.bytes ++ c.sbuffer.bytes.drop data.bytes.length) := rfl

/-- The range that `HandleServerWrite` starts. -/
theorem answered_sbuffer {c : HttpConnection} (h : c.newServerReadStart_ = 1024) (data : Chunk) :
    answered (served c data) data.bytes.length = data.bytes := by
  have hb := c.bbuffer.size_eq
  rw [answered, served_newServerReadStart, h, served_memory,
    List.extract_eq_take_drop, List.drop_append, List.drop_eq_nil_of_le hb.le, hb]
  simp

/-- The range that `ReadMoreFromServer` starts. -/
theorem answered_bbuffer {c : HttpConnection} (h : c.newServerReadStart_ = 0) (data : Chunk) :
    answered (served c data) data.bytes.length = c.bbuffer.bytes ++ data.bytes := by
  have hb := c.bbuffer.size_eq
  rw [answered, served_newServerReadStart, h, served_memory,
    List.extract_eq_take_drop, List.drop_zero, Nat.sub_zero, List.take_append,
    List.take_of_length_le (hb.le.trans (Nat.le_add_right _ _)), hb, Nat.add_sub_cancel_left]
  simp

/-- Once the head is complete the parser is in its stop state and refuses nothing, whether
or not the `case` has been left for `Body`. -/
theorem Relaying.refuses_iff {start : Nat} {w : World} (h : Relaying start w) (data : Chunk) :
    Refuses (served w.conn data) data.bytes.length ↔
      RefusesFrom w.conn.responseParser_ (answered (served w.conn data) data.bytes.length) := by
  unfold Refuses RefusesFrom
  constructor
  · exact fun hr => hr.2
  · intro hr
    refine ⟨?_, hr⟩
    cases hs : w.conn.serverResponseState_ with
    | ReadUntilBody => exact hs
    | Body =>
      rw [h.body hs, Scan.scan_stop] at hr
      cases hr

theorem Relaying.answerState {start : Nat} {w : World} (h : Relaying start w) (data : Chunk) :
    answerState (served w.conn data) data.bytes.length =
      (Scan.scan ResponseParser.next HttpHeadersDone w.conn.responseParser_
        (answered (served w.conn data) data.bytes.length)).state := by
  unfold HttpConnection.answerState
  cases hs : w.conn.serverResponseState_ with
  | ReadUntilBody =>
    rw [served_serverResponseState, hs]
    rfl
  | Body =>
    rw [served_serverResponseState, hs]
    dsimp only
    rw [served_responseParser, h.body hs, Scan.scan_stop]

theorem step_of_pending {w : World} {e : Event} (h : Running w) (hp : w.pending = [e.op]) :
    step w e = some (handle { w with pending := [] } e) := by
  rw [step, if_pos ⟨h.escaped, h.overrun, by simp [hp]⟩, hp]
  simp

/-- A client write that succeeds asks for the next read. -/
theorem step_clientWrite {w : World} {b : Bytes} (h : Running w)
    (hp : w.pending = [.clientWrite b]) :
    step w (.clientWrite b false) = some (ReadMoreFromServer { w with pending := [] }) := by
  rw [step_of_pending (e := .clientWrite b false) h hp]
  exact congrArg some (if_pos (by simp [IsStopped, h.isShuttingDown]))

/-- **One server read.**  It is refused and forwards nothing, or it goes to the browser and
the next one is asked for. -/
theorem Relaying.read {start : Nat} {w : World} (h : Relaying start w) (hstart : start ≤ 1024)
    (c : Chunk) :
    (RefusesFrom w.conn.responseParser_ (answered (served w.conn c) c.bytes.length) ∧
      ∃ w', step w (.serverRead (some c)) = some w' ∧ w'.pending = [] ∧
        clientBytes w'.trace = clientBytes w.trace) ∨
    (¬ RefusesFrom w.conn.responseParser_ (answered (served w.conn c) c.bytes.length) ∧
      ∃ w', Run step w [.serverRead (some c), .clientWrite c.bytes false] w' ∧ Relaying 0 w' ∧
        clientBytes w'.trace = clientBytes w.trace ++ c.bytes ∧
        w'.conn.bbuffer = w.conn.bbuffer ∧
        w'.conn.responseParser_ = (Scan.scan ResponseParser.next HttpHeadersDone
          w.conn.responseParser_ (answered (served w.conn c) c.bytes.length)).state) := by
  have hlen : 1024 + c.bytes.length ≤ (served w.conn c).memory.length := by
    rw [memory_length]
    have := c.le
    omega
  have hs : step w (.serverRead (some c)) = some (HandleServerRead false c.bytes.length
      { w with pending := [], conn := served w.conn c }) :=
    step_of_pending (e := .serverRead (some c)) h.running h.pending
  rw [← h.refuses_iff]
  rcases HandleServerRead_spec c.bytes.length
      (w := { w with pending := [], conn := served w.conn c })
      h.running.isShuttingDown (h.start.le.trans hstart) hlen with
    ⟨href, c', honly, hres⟩ | ⟨hacc, c', honly, hstate, hbody, hres⟩
  · exact Or.inl ⟨href, _, hs, by rw [hres]; rfl, by rw [hres]; simp [World.log, World.act]⟩
  · refine Or.inr ⟨hacc, ?_⟩
    have hbuf : c'.sbuffer.bytes.take c.bytes.length = c.bytes := by
      rw [honly.sbuffer]
      simp [served, Buffer.fill]
    rw [hres, SendDataToClient, hbuf] at hs
    have hshut : c'.isShuttingDown_ = false :=
      honly.isShuttingDown.trans h.running.isShuttingDown
    have hw := step_clientWrite
      (w := World.start { w with pending := [], conn := c' } (.clientWrite c.bytes))
      ⟨h.running.escaped, h.running.overrun, h.running.deleted, hshut⟩ rfl
    refine ⟨_, .cons hs (.single hw), ?_, ?_, honly.bbuffer, ?_⟩
    · exact
        { running := ⟨h.running.escaped, h.running.overrun, h.running.deleted, hshut⟩
          pending := rfl
          start := rfl
          body := by
            intro hb
            rcases hbody hb with hb' | hb'
            · have hread : w.conn.serverResponseState_ = .Body := hb'
              change c'.responseParser_ = _
              rw [hstate, HttpConnection.answerState, served_serverResponseState, hread]
              exact h.body hread
            · exact hb' }
    · simp [ReadMoreFromServer, World.start]
    · rw [← h.answerState]
      exact hstate

/-- The end of the response shuts the connection down. -/
theorem Relaying.forwards_nil {start : Nat} {w : World} (h : Relaying start w) :
    Forwards w [] := by
  have hs : step w (.serverRead none) = some (Shutdown { w with pending := [] }) :=
    step_of_pending (e := .serverRead none) h.running h.pending
  have hw : follow step w (response []) = Shutdown { w with pending := [] } :=
    follow_cons_some hs
  have hgo : (!w.conn.isShuttingDown_) = true := by simp [h.running.isShuttingDown]
  rw [Forwards, hw, Shutdown, if_pos hgo]
  simp [h.running.deleted]

/-- **One read, and then the rest of the response.** -/
theorem Relaying.forwards_cons {start : Nat} {w : World} (h : Relaying start w)
    (hstart : start ≤ 1024) (c : Chunk) {reads : List Chunk} (rest : Bytes)
    (hrest : ∀ w', Relaying 0 w' → w'.conn.bbuffer = w.conn.bbuffer →
      (Forwards w' reads ↔ ¬ RefusesFrom w'.conn.responseParser_ rest)) :
    Forwards w (c :: reads) ↔ ¬ RefusesFrom w.conn.responseParser_
      (answered (served w.conn c) c.bytes.length ++ rest) := by
  rw [RefusesFrom, Scan.scan_append_failed_iff]
  rcases h.read hstart c with ⟨href, w', hs, hp, hbytes⟩ | ⟨hacc, w', hrun, hr, hbytes, hbb, hst⟩
  · refine iff_of_false ?_ (not_not_intro (Or.inl href))
    rintro ⟨hall, -⟩
    have hw : follow step w (response (c :: reads)) = w' := by
      rw [response, replies, List.flatMap_cons, List.append_assoc, List.cons_append,
        follow_cons_some hs, follow_stuck (fun e _ => step_eq_none hp e)]
    rw [hw, hbytes, streamOf_cons, List.self_eq_append_right, List.append_eq_nil_iff] at hall
    exact absurd (congrArg List.length hall.1) c.pos.ne'
  · have hw : follow step w (response (c :: reads)) = follow step w' (response reads) := by
      rw [response, replies, List.flatMap_cons, List.append_assoc, follow_append hrun]
      rfl
    have hiff := hrest w' hr hbb
    rw [Forwards, hbytes, hst] at hiff
    rw [Forwards, hw, streamOf_cons, ← List.append_assoc, hiff, RefusesFrom]
    simp only [RefusesFrom] at hacc
    simp [hacc]

/-! ## 3. A whole response -/

/-- From the second read on. -/
theorem Relaying.forwards_iff (reads : List Chunk) :
    ∀ {w : World}, Relaying 0 w →
      (Forwards w reads ↔
        ¬ RefusesFrom w.conn.responseParser_ (reexamined w.conn.bbuffer reads)) := by
  induction reads with
  | nil =>
    intro w h
    exact iff_of_true h.forwards_nil (by simp [reexamined, RefusesFrom])
  | cons c reads ih =>
    intro w h
    have hcons := h.forwards_cons (by decide) c (reexamined w.conn.bbuffer reads)
      (fun w' hr hbb => by rw [ih hr, hbb])
    rw [hcons, answered_bbuffer h.start]
    simp [reexamined]

/-- The state in which `HandleServerWrite` leaves the connection. -/
theorem Reaches.relaying {es : List Event} {b : Bytes} {w : World}
    (h : Reaches (es ++ [.serverWrite b false]) w) :
    Relaying 1024 w ∧ w.conn.responseParser_ = HttpResponseBegin ∧ clientBytes w.trace = [] := by
  obtain ⟨bbuffer, sbuffer, newStart_, newServerReadStart_, hrun⟩ := h
  obtain ⟨v, hrun', hs⟩ := hrun.split_last
  have hphase : Phase v := Reaches.phase ⟨bbuffer, sbuffer, newStart_, newServerReadStart_, hrun'⟩
  cases hphase with
  | reading l h => exact absurd (step_eq_some h.pending hs).1 (by simp [Event.op])
  | closed h => exact absurd hs (step_ne_some h.pending)
  | stalled h => exact absurd hs (step_ne_some h.pending)
  | serving hd h =>
    obtain ⟨op, hp, hop⟩ := h.pending
    obtain ⟨rfl, rfl⟩ := step_eq_some hp hs
    obtain ⟨-, hun, -⟩ := hop
    have hgo : (!false && !IsStopped { v with pending := [] }) = true := by
      simp [IsStopped, h.running.isShuttingDown]
    have hw : handle { v with pending := [] } (.serverWrite b false) =
        { World.start { v with pending := [] } .serverRead with
          conn := { v.conn with newServerReadStart_ := 1024 } } := if_pos hgo
    rw [hw]
    refine ⟨⟨⟨h.running.escaped, h.running.overrun, h.running.deleted,
      h.running.isShuttingDown⟩, rfl, rfl, ?_⟩, hun.responseParser, ?_⟩
    · intro hbody
      have hread : v.conn.serverResponseState_ = .ReadUntilBody := hun.serverResponseState
      exact absurd (hread.symm.trans hbody) (by decide)
    · rw [clientBytes, List.flatMap_eq_nil_iff]
      intro a ha
      rcases List.mem_append.mp ha with ha | ha
      · cases a with
        | start op =>
          cases op with
          | clientWrite b' => exact absurd ha (hun.silent b')
          | _ => rfl
        | _ => rfl
      · rw [List.mem_singleton.mp ha]

/-- The response reaches the browser byte for byte, and then the connection is shut down. -/
def Verbatim (w : World) (reads : List Chunk) : Prop :=
  clientBytes (follow step w (response reads)).trace = streamOf reads ∧
    (follow step w (response reads)).deleted = 1

/-- **When a response is relayed.**  From every state in which the request has just been
written, the reads of the response go to the browser byte for byte exactly if a fresh
response parser does not refuse the first of them followed by, for each later one, the 1024
bytes of `bbuffer` and the read. -/
theorem relay_verbatim_iff (es : List Event) (b : Bytes) (w : World)
    (h : Reaches (es ++ [.serverWrite b false]) w) (reads : List Chunk) :
    Verbatim w reads ↔ ¬ RefusesFrom HttpResponseBegin (examined w.conn.bbuffer reads) := by
  obtain ⟨hr, hparser, hsilent⟩ := h.relaying
  have hforwards : Verbatim w reads ↔ Forwards w reads := by
    rw [Verbatim, Forwards, hsilent, List.nil_append]
  rw [hforwards]
  cases reads with
  | nil => exact iff_of_true hr.forwards_nil (by simp [examined, RefusesFrom])
  | cons c reads =>
    rw [hr.forwards_cons (by decide) c (reexamined w.conn.bbuffer reads)
      (fun w' hr' hbb => by rw [hr'.forwards_iff, hbb]), answered_sbuffer hr.start, hparser,
      examined]

/-- An origin server. -/
def origin : Endpoint := ⟨ascii "10.0.0.1", 80⟩

/-- The request in absolute form, as it is sent on. -/
def sent : Bytes := request (ascii "GET ") (ascii "http://a/ ") (ascii "\r\n")

/-- The completions up to the end of the write to the server. -/
def untilWritten : List Event :=
  [.browserRead (some absoluteForm), .resolve (ascii "a") (ascii "80") (some (origin, [])),
    .connect origin [] false, .serverWrite sent false]

/-- A response whose head comes in two reads. -/
def splitHead : List Chunk :=
  [⟨ascii "HTTP/1.0 ", by decide, by decide⟩, ⟨ascii "200 OK\r\n\r\n", by decide, by decide⟩]

theorem relay_verbatim_iff_splitHead :
    Verbatim (follow step fresh untilWritten) splitHead ↔
      ¬ RefusesFrom HttpResponseBegin
        (examined (follow step fresh untilWritten).conn.bbuffer splitHead) :=
  relay_verbatim_iff (untilWritten.take 3) sent _
    ⟨blank, blank, 0, 0, run_follow (by decide +kernel)⟩ splitHead

/-- **A head in two reads is cut off after the first**, although a fresh parser accepts it. -/
theorem splitHead_truncated :
    Reaches untilWritten (follow step fresh untilWritten) ∧
      (Scan.scan ResponseParser.next HttpHeadersDone HttpResponseBegin
        (streamOf splitHead)).verdict = .ParsedOK ∧
      ¬ Verbatim (follow step fresh untilWritten) splitHead :=
  ⟨⟨blank, blank, 0, 0, run_follow (by decide +kernel)⟩, by decide,
    fun h => absurd h.1 (by decide +kernel)⟩

/-! ## 4. The first read -/

open Grammar Scan in
/-- The first read of a response and the rest of it. -/
theorem Reaches.verbatim_cons_iff {es : List Event} {b : Bytes} {w : World}
    (h : Reaches (es ++ [.serverWrite b false]) w) (c : Chunk) (reads : List Chunk) :
    Verbatim w (c :: reads) ↔
      ¬ (scan ResponseParser.next HttpHeadersDone HttpResponseBegin c.bytes).verdict
          = .ParsedFailed ∧
        ¬ RefusesFrom (scan ResponseParser.next HttpHeadersDone HttpResponseBegin c.bytes).state
          (reexamined w.conn.bbuffer reads) := by
  obtain ⟨hr, hparser, hsilent⟩ := h.relaying
  have hforwards : Verbatim w (c :: reads) ↔ Forwards w (c :: reads) := by
    rw [Verbatim, Forwards, hsilent, List.nil_append]
  rw [hforwards, hr.forwards_cons (by decide) c (reexamined w.conn.bbuffer reads)
    (fun w' hr' hbb => by rw [hr'.forwards_iff, hbb]), answered_sbuffer hr.start, hparser,
    RefusesFrom, RefusesFrom, scan_append_failed_iff, not_or]

/-- A parser that is done refuses nothing. -/
theorem not_refusesFrom_done (bytes : Bytes) : ¬ RefusesFrom HttpHeadersDone bytes := by
  rw [RefusesFrom, Scan.scan_stop]
  exact nofun

/-- Where `bbuffer` decides, what is read next does not. -/
theorem refusesFrom_reexamined {s : ResponseParser.StateType} {bbuffer : Buffer} {c : Chunk}
    {reads : List Chunk}
    (hdecided : (Scan.scan ResponseParser.next HttpHeadersDone s bbuffer.bytes).verdict
      ≠ .Indeterminate) :
    RefusesFrom s (reexamined bbuffer (c :: reads)) ↔
      (Scan.scan ResponseParser.next HttpHeadersDone s bbuffer.bytes).verdict = .ParsedFailed := by
  have happend : reexamined bbuffer (c :: reads) =
      bbuffer.bytes ++ (c.bytes ++ reexamined bbuffer reads) := by
    simp [reexamined]
  rw [RefusesFrom, happend, Scan.scan_append_of_decided _ hdecided]

/-- A first read that is refused is the last one. -/
theorem Relaying.refused {start : Nat} {w : World} (h : Relaying start w) (hstart : start ≤ 1024)
    {c : Chunk}
    (href : RefusesFrom w.conn.responseParser_ (answered (served w.conn c) c.bytes.length))
    (reads : List Chunk) :
    clientBytes (follow step w (response (c :: reads))).trace = clientBytes w.trace := by
  rcases h.read hstart c with ⟨-, w', hs, hp, hbytes⟩ | ⟨hacc, -⟩
  · rw [response, replies, List.flatMap_cons, List.append_assoc, List.cons_append,
      follow_cons_some hs, follow_stuck (fun e _ => step_eq_none hp e), hbytes]
  · exact absurd href hacc

open Grammar ResponseParser in
/-- **What the first read decides.**  In every run in which the request has just been written,
and for every response: if the first read has a head in it, then the response is relayed byte
for byte, whatever else there is and however it is cut.  If no head begins with it, then
nothing of the response is relayed.  If it holds the beginning of a head, then the response
is relayed when that read is the last; and when it is not, and the state of the parser
decides over the 1024 bytes of `bbuffer`, then these decide, and nothing that the server
sends makes any difference. -/
theorem first_read_decides (es : List Event) (b : Bytes) (w : World)
    (h : Reaches (es ++ [.serverWrite b false]) w) (c : Chunk) (reads : List Chunk) :
    ((∃ v, v <+: c.bytes ∧ v ∈ many isLeading * acceptedHead) → Verbatim w (c :: reads)) ∧
    ((∀ t v, v <+: c.bytes ++ t → v ∉ many isLeading * acceptedHead) →
      clientBytes (follow step w (response (c :: reads))).trace = []) ∧
    ((∀ v, v <+: c.bytes → v ∉ many isLeading * acceptedHead) →
      (∃ t, c.bytes ++ t ∈ many isLeading * acceptedHead) →
        Verbatim w [c] ∧
          let s := (Scan.scan next HttpHeadersDone HttpResponseBegin c.bytes).state
          let answer := (Scan.scan next HttpHeadersDone s w.conn.bbuffer.bytes).verdict
          answer ≠ .Indeterminate → reads ≠ [] →
            (Verbatim w (c :: reads) ↔ answer = .ParsedOK)) := by
  have hne : HttpResponseBegin ≠ HttpHeadersDone := by decide
  rw [← accepted_HttpResponseBegin]
  refine ⟨fun hhead => ?_, fun hhopeless => ?_, fun hno hopen => ?_⟩
  · have hok := (Scan.scan_ok_iff_exists hne).mpr hhead
    rw [h.verbatim_cons_iff, Scan.scan_state_of_ok hok, hok]
    exact ⟨by simp, not_refusesFrom_done _⟩
  · obtain ⟨hr, hparser, hsilent⟩ := h.relaying
    have href : RefusesFrom w.conn.responseParser_
        (answered (served w.conn c) c.bytes.length) := by
      rw [hparser, answered_sbuffer hr.start, RefusesFrom, Scan.scan_failed_iff completable hne]
      intro t hok
      obtain ⟨v, hv, hword⟩ := (Scan.scan_ok_iff_exists hne).mp hok
      exact hhopeless t v hv hword
    rw [hr.refused (by decide) href, hsilent]
  · have hwaits := (Scan.scan_indeterminate_iff completable hne).mpr ⟨hno, hopen⟩
    refine ⟨?_, fun hdecided hreads => ?_⟩
    · rw [h.verbatim_cons_iff, hwaits]
      exact ⟨by simp, by simp [reexamined, RefusesFrom]⟩
    · obtain ⟨c', reads, rfl⟩ := List.exists_cons_of_ne_nil hreads
      rw [h.verbatim_cons_iff, hwaits, refusesFrom_reexamined hdecided]
      generalize (Scan.scan next HttpHeadersDone _ w.conn.bbuffer.bytes).verdict = answer
        at hdecided ⊢
      cases answer <;> simp_all

/-- A response whose head is in the first read. -/
def wholeHead : Chunk := ⟨ascii "HTTP/1.0 200 OK\r\n\r\nbody", by decide, by decide⟩

open Grammar ResponseParser in
theorem first_read_decides_wholeHead :
    let w := follow step fresh untilWritten
    (Scan.scan next HttpHeadersDone HttpResponseBegin wholeHead.bytes).verdict = .ParsedOK ∧
    ((∃ v, v <+: wholeHead.bytes ∧ v ∈ many isLeading * acceptedHead) →
      Verbatim w [wholeHead, wholeHead]) ∧
    ((∀ t v, v <+: wholeHead.bytes ++ t → v ∉ many isLeading * acceptedHead) →
      clientBytes (follow step w (response [wholeHead, wholeHead])).trace = []) ∧
    ((∀ v, v <+: wholeHead.bytes → v ∉ many isLeading * acceptedHead) →
      (∃ t, wholeHead.bytes ++ t ∈ many isLeading * acceptedHead) →
        Verbatim w [wholeHead] ∧
          let s := (Scan.scan next HttpHeadersDone HttpResponseBegin wholeHead.bytes).state
          let answer := (Scan.scan next HttpHeadersDone s w.conn.bbuffer.bytes).verdict
          answer ≠ .Indeterminate → [wholeHead] ≠ [] →
            (Verbatim w [wholeHead, wholeHead] ↔ answer = .ParsedOK)) :=
  ⟨by decide, first_read_decides (untilWritten.take 3) sent _
    ⟨blank, blank, 0, 0, run_follow (by decide +kernel)⟩ wholeHead [wholeHead]⟩

end HttpConnection

end TwoProxy
