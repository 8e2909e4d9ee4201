/-
# What the client sends after its head

`HandleBrowserReadHeaders` stops at the end of the head.  What else the read held stays in
`bbuffer`, where nobody looks at it again, and no browser read is started any more: all that is
ever written to the origin is the head, printed from its tokens (`Exchange.writes`).

So the bytes of the client reach the origin exactly if there are none after the head, and the
head that the parser was shown is the one that was sent (`forwarded_iff_shownHead`), that is, if
no read but the last ends where a token ends (`body_forwarded_iff`).
-/
import TwoProxy.HttpConnection.Calls
import TwoProxy.HttpConnection.Shown

namespace TwoProxy

namespace HttpConnection

open RequestParser (lexer)
open RequestParser.StateType
open Lexer (Lexing Progress)
open Transition

/-! ## 1. Runs without an error -/

/-- The buffers of the writes to the origin that have been started. -/
def serverWrites (trace : List Action) : List Bytes :=
  trace.filterMap fun
    | .start (.serverWrite b) => some b
    | _ => none

/-- The bytes written to the origin. -/
def written (w : World) : Bytes := (serverWrites w.trace).flatten

/-- The completion reports no error on a socket; a server read may report the end of the
response. -/
def NoError : Event → Prop
  | .browserRead data => data ≠ none
  | .resolve _ _ endpoints => endpoints ≠ none
  | .connect _ _ err => err = false
  | .serverWrite _ err => err = false
  | .serverRead _ => True
  | .clientWrite _ err => err = false

/-- An operation on the way of the request. -/
def OfRequest : AsyncOp → Prop
  | .browserRead | .resolve _ _ | .connect _ _ | .serverWrite _ => True
  | .serverRead | .clientWrite _ => False

/-- A run without an error in which the client sends these reads and nothing more, and which is
over for the request: an operation of it that is still pending waits for the client. -/
structure Exchange (reads : List Chunk) (s : World) (es : List Event) (w : World) : Prop where
  run : Run step s es w
  noError : ∀ e ∈ es, NoError e
  sends : browserReads es <+: reads
  finished : ∀ op ∈ w.pending, OfRequest op → op = .browserRead ∧ browserReads es = reads

/-- In every run without an error these bytes are written to the origin. -/
def Forwarded (s : World) (reads : List Chunk) (bytes : Bytes) : Prop :=
  ∀ es w, Exchange reads s es w → written w = bytes

/-! ## 2. Heads, printed -/

/-- **Two heads are not printed alike**, not even the beginning of one of them: a head ends
where its last token ends. -/
theorem request_prefix_free {hd hd' : Head}
    {tokens tokens' : List (RequestParser.StateType × Bytes)} (h : hd.Is tokens)
    (h' : hd'.Is tokens') (hl : Lexer.Linked lexer MethodStart tokens)
    (hl' : Lexer.Linked lexer MethodStart tokens') {b : Bytes}
    (heq : hd'.request = hd.request ++ b) : hd' = hd ∧ b = [] := by
  obtain ⟨hmethod, hdest, -, hheaders⟩ := h.tokens hl
  obtain ⟨hmethod', hdest', -, hheaders'⟩ := h'.tokens hl'
  have hprinted : ∀ (hd : Head) (rest : Bytes), hd.request ++ rest = hd.method ++ (ascii " " ++
      (hd.destination ++ (ascii " HTTP/" ++ (ascii "1.0" ++ (ascii "\r\n" ++
        (hd.headers ++ rest)))))) := by
    intro hd rest
    simp [Head.request, request]
  rw [← List.append_nil hd'.request, hprinted, hprinted] at heq
  obtain ⟨h1, heq⟩ := hmethod'.eq_of_append hmethod heq
  obtain ⟨h2, heq⟩ := hdest'.eq_of_append hdest (List.append_cancel_left heq)
  simp only [List.append_cancel_left_eq] at heq
  obtain ⟨h3, h4⟩ := hheaders'.eq_of_append hheaders heq
  refine ⟨?_, h4.symm⟩
  cases hd
  cases hd'
  simp_all

theorem request_ne_nil (hd : Head) : hd.request ≠ [] := by
  intro h
  have hlength := congrArg List.length h
  simp [Head.request, request, ascii] at hlength

/-! ## 3. What is written -/

@[simp] theorem serverWrites_append (trace trace' : List Action) :
    serverWrites (trace ++ trace') = serverWrites trace ++ serverWrites trace' :=
  List.filterMap_append

/-- An action that starts no write to the origin. -/
theorem serverWrites_concat {a : Action} (ha : ∀ b, a ≠ .start (.serverWrite b))
    (trace : List Action) : serverWrites (trace ++ [a]) = serverWrites trace := by
  rw [serverWrites_append]
  cases a with
  | start op =>
    cases op with
    | serverWrite b => exact absurd rfl (ha b)
    | _ => simp [serverWrites]
  | _ => simp [serverWrites]

theorem NothingSent.serverWrites {w : World} (h : NothingSent w) : serverWrites w.trace = [] := by
  unfold HttpConnection.serverWrites
  rw [List.filterMap_eq_nil_iff]
  intro a ha
  cases a with
  | start op =>
    cases op with
    | serverWrite b => exact absurd ha (h b)
    | _ => rfl
  | _ => rfl

theorem Reading.written_eq_nil {w : World} {l : RequestLexing} (h : Reading w l) :
    serverWrites w.trace = [] :=
  h.nothingSent.serverWrites

/-- Nothing of the request is done between the two. -/
structure Silent (w w' : World) : Prop where
  writes : serverWrites w'.trace = serverWrites w.trace
  pending : ∀ op ∈ w'.pending, op ∈ w.pending ∨ ¬ OfRequest op

theorem Silent.act {w w' : World} {a : Action} (ha : ∀ b, a ≠ .start (.serverWrite b))
    (htrace : w'.trace = w.trace ++ [a]) (hpending : w'.pending = w.pending) : Silent w w' :=
  ⟨by rw [htrace, serverWrites_concat ha], fun op hop => Or.inl (hpending ▸ hop)⟩

theorem Silent.start {w w' : World} {op : AsyncOp} (hop : ¬ OfRequest op)
    (htrace : w'.trace = w.trace ++ [.start op]) (hpending : w'.pending = w.pending ++ [op]) :
    Silent w w' := by
  refine ⟨?_, fun op' hmem => ?_⟩
  · rw [htrace, serverWrites_concat]
    rintro b hb
    exact hop (Action.start.inj hb ▸ trivial)
  · rw [hpending, List.mem_append, List.mem_singleton] at hmem
    rcases hmem with hmem | rfl
    · exact Or.inl hmem
    · exact Or.inr hop

theorem Silent.shutdown {w w' : World} (h : Silent w w') : Silent w (Shutdown w') := by
  unfold Shutdown
  split
  · exact ⟨by rw [serverWrites_concat (by simp), h.writes], h.pending⟩
  · exact h

theorem Silent.refl (w : World) : Silent w w := ⟨rfl, fun _ hop => Or.inl hop⟩

theorem silent_caseReadUntilBody (len : Nat) (w : World) :
    Silent w (caseReadUntilBody len w) := by
  unfold caseReadUntilBody
  split
  · exact ⟨rfl, fun _ hop => Or.inl hop⟩
  · split
    · exact .act (by simp) rfl rfl
    · dsimp only
      split <;> exact .start id rfl rfl
    · exact .start id rfl rfl

/-- **The response side does nothing for the request**, nor does the completion of the write
that precedes it. -/
theorem silent_handle {w : World} {e : Event}
    (h : ¬ OfRequest e.op ∨ ∃ b, e.op = .serverWrite b) : Silent w (handle w e) := by
  cases e with
  | browserRead r => simp [Event.op, OfRequest] at h
  | resolve host port r => simp [Event.op, OfRequest] at h
  | connect ep it err => simp [Event.op, OfRequest] at h
  | serverWrite b err =>
    simp only [handle, HandleServerWrite]
    split
    · exact .start id rfl rfl
    · exact Silent.shutdown (.act (a := .logError .handleServerWriteFailed) (by simp) rfl rfl)
  | serverRead r =>
    cases r with
    | none => exact (Silent.refl w).shutdown
    | some data =>
      simp only [handle, HandleServerRead]
      split
      · split
        · have h := silent_caseReadUntilBody data.bytes.length
            { w with conn := { w.conn with sbuffer := w.conn.sbuffer.fill data } }
          exact ⟨h.writes, h.pending⟩
        · exact .start id rfl rfl
      · exact Silent.shutdown ⟨rfl, fun _ hop => Or.inl hop⟩
  | clientWrite b err =>
    simp only [handle, HandleClientWrite]
    split
    · exact .start id rfl rfl
    · exact (Silent.refl w).shutdown

/-- The request is on its way to the origin, or has been written to it. -/
inductive Delivering (hd : Head) (w : World) : Prop
  | before (h : Serving hd w) (op : AsyncOp) (pending : w.pending = [op])
      (ofRequest : OfRequest op) (ne : ∀ b, op ≠ .serverWrite b)
      (nothing : serverWrites w.trace = [])
  | after (h : Serving hd w ∨ w.pending = [])
      (ops : ∀ op ∈ w.pending, ¬ OfRequest op ∨ ∃ b, op = .serverWrite b)
      (sent : serverWrites w.trace = [hd.request])

/-- A step on the way to the write: the resolver answers, or the server accepts and the request
is written. -/
theorem Serving.delivering {hd : Head} {w w' : World} {e : Event} (h : Serving hd w)
    {op : AsyncOp} (hp : w.pending = [op]) (hof : OfRequest op) (hne : ∀ b, op ≠ .serverWrite b)
    (hnothing : serverWrites w.trace = []) (he : NoError e) (hs : step w e = some w') :
    Delivering hd w' := by
  obtain ⟨rfl, hw'⟩ := step_eq_some hp hs
  have hserv : w'.pending ≠ [] → Serving hd w' := (h.kept_or_ended hs).resolve_right
  subst hw'
  cases e with
  | browserRead r => exact absurd (by simp [hp, Event.op]) h.browserRead_notMem
  | serverRead r => exact hof.elim
  | clientWrite b err => exact hof.elim
  | serverWrite b err => exact absurd rfl (hne b)
  | resolve host port r =>
    cases r with
    | none => exact absurd rfl he
    | some r =>
      refine .before (hserv (by simp [handle, HandleResolve, World.start])) (.connect r.1 r.2)
        rfl trivial (by simp) ?_
      simp only [handle, HandleResolve, World.start, Bool.not_false, if_true]
      rw [serverWrites_concat (by simp), hnothing]
  | connect ep it err =>
    obtain rfl : err = false := he
    refine .after (Or.inl (hserv (by simp [handle, HandleConnect, StartWriteToServer,
      World.start]))) ?_ ?_
    · intro op hop
      exact Or.inr ⟨_, List.mem_singleton.mp hop⟩
    · simp only [handle, HandleConnect, StartWriteToServer, World.start, World.act,
        Bool.not_false, if_true]
      rw [← h.head.request, serverWrites_append, serverWrites_concat (by simp), hnothing]
      rfl

/-- One step of it. -/
theorem Delivering.kept {hd : Head} {w w' : World} {e : Event} (h : Delivering hd w)
    (he : NoError e) (hs : step w e = some w') : Delivering hd w' := by
  cases h with
  | before h op hp hof hne hnothing => exact h.delivering hp hof hne hnothing he hs
  | after h hops hsent =>
    obtain ⟨hmem, rfl⟩ := step_handle hs
    have hsilent := silent_handle (w := { w with pending := w.pending.erase e.op })
      (hops _ hmem)
    refine .after ?_ ?_ (hsilent.writes.trans hsent)
    · rcases h with h | hp
      · exact h.kept_or_ended hs
      · rw [hp] at hmem
        cases hmem
    · intro op hop
      rcases hsilent.pending op hop with hop | hop
      · exact hops op (List.mem_of_mem_erase hop)
      · exact Or.inl hop

/-- A run of it that is over has written the request. -/
theorem Delivering.written {hd : Head} {w u : World} {es : List Event} (h : Delivering hd w)
    (hrun : Run step w es u) (hes : ∀ e ∈ es, NoError e)
    (hover : ∀ op ∈ u.pending, OfRequest op → op = .browserRead) : written u = hd.request := by
  have hdelivering : Delivering hd u := by
    clear hover
    induction hrun with
    | nil => exact h
    | cons hs _ ih =>
      rw [List.forall_mem_cons] at hes
      exact ih (h.kept hes.1 hs) hes.2
  cases hdelivering with
  | before h op hp hof =>
    obtain rfl : op = .browserRead := hover op (by simp [hp]) hof
    exact absurd (by simp [hp]) h.browserRead_notMem
  | after h ops sent => rw [HttpConnection.written, sent, List.flatten_singleton]

/-! ## 4. What the parser is shown -/

/-- The bytes that a read makes the parser look at, in terms of the buffers. -/
theorem parsed_eq (c : HttpConnection) (data : Chunk) :
    parsed c data = Scan.available ((c.bbuffer.fill data).bytes ++ c.sbuffer.bytes) c.newStart_
      data.bytes.length := rfl

/-- The memory is the two buffers. -/
theorem buffers_of_memory {c c' : HttpConnection} (h : c.memory = c'.memory) :
    c.bbuffer = c'.bbuffer ∧ c.sbuffer = c'.sbuffer := by
  have hext : ∀ b b' : Buffer, b.bytes = b'.bytes → b = b' := by
    rintro ⟨bytes, hsize⟩ ⟨bytes', hsize'⟩ rfl
    rfl
  obtain ⟨h1, h2⟩ := List.append_inj h (c.bbuffer.size_eq.trans c'.bbuffer.size_eq.symm)
  exact ⟨hext _ _ h1, hext _ _ h2⟩

/-- What a connection that reads the head writes, given what it is going to be shown. -/
def Writes (shown : Option (List (RequestParser.StateType × Bytes))) (bytes : Bytes) : Prop :=
  (∃ tokens, ∃ hd : Head, shown = some tokens ∧ hd.Is tokens ∧ UriAccepted hd.destination ∧
      bytes = hd.request) ∨
    ((∀ tokens, ∀ hd : Head, shown = some tokens → hd.Is tokens →
        ¬ UriAccepted hd.destination) ∧ bytes = [])

/-- Where nothing is pending, a run is over. -/
theorem run_of_ended {w u : World} {es : List Event} (hp : w.pending = [])
    (hrun : Run step w es u) : u = w := by
  cases hrun with
  | nil => rfl
  | cons hs _ => exact absurd hs (step_ne_some hp)

/-- **A run that is over has written the head that the parser was shown.** -/
theorem Exchange.writes {w u : World} {es : List Event} {reads : List Chunk}
    (hex : Exchange reads w es u) :
    ∀ {l : RequestLexing}, Reading w l →
      Writes (shownHead w.conn.sbuffer w.conn.bbuffer w.conn.newStart_ l reads) (written u) := by
  obtain ⟨hrun, hno, hsends, hover⟩ := hex
  induction hrun generalizing reads with
  | nil s =>
    intro l h
    obtain ⟨-, hnil⟩ := hover .browserRead (by simp [h.pending]) trivial
    refine Or.inr ⟨fun tokens hd heq => ?_, ?_⟩
    · rw [← hnil] at heq
      cases heq
    · rw [written, h.written_eq_nil, List.flatten_nil]
  | @cons s t u e es hs hrun ih =>
    intro l h
    rw [List.forall_mem_cons] at hno
    rcases reading_step h hs with ⟨rfl, -, -⟩ | ⟨data, rfl, hturn⟩
    · exact absurd rfl hno.1
    obtain ⟨reads', rfl⟩ : ∃ reads', reads = data :: reads' := by
      obtain ⟨more, rfl⟩ := hsends
      exact ⟨browserReads es ++ more, rfl⟩
    have hsends' : browserReads es <+: reads' := (List.cons_prefix_cons.mp hsends).2
    have hover' : ∀ op ∈ u.pending, OfRequest op → op = .browserRead ∧ browserReads es = reads' :=
      fun op hop hof => (hover op hop hof).imp_right fun heq => (List.cons.inj heq).2
    rw [shownHead, ← parsed_eq]
    cases hturn with
    | refused line feed hst hesc isError trace =>
      rw [run_of_ended hst.pending hrun, feed, written, trace, serverWrites_concat (by simp),
        h.written_eq_nil]
      exact Or.inr ⟨by simp, rfl⟩
    | rejected hd tokens rest feed isHead uri hst hesc stored trace =>
      rw [run_of_ended hst.pending hrun, feed, written, trace, List.append_cons,
        serverWrites_concat (by simp), serverWrites_concat (by simp), h.written_eq_nil]
      refine Or.inr ⟨fun tokens' hd' heq his => ?_, rfl⟩
      obtain rfl := Option.some.inj heq
      exact isHead.unique his ▸ uri
    | overruns l' feed inverted hst hesc overrun trace =>
      rw [run_of_ended hst.pending hrun, feed, written, trace, h.written_eq_nil]
      refine Or.inr ⟨fun tokens' hd' heq => ?_, rfl⟩
      dsimp only at heq
      rw [if_neg (by omega)] at heq
      cases heq
    | connects hd tokens rest feed isHead uri hserv host port trace pending =>
      rw [feed]
      refine Or.inl ⟨tokens, hd, rfl, isHead, uri, ?_⟩
      refine Delivering.written (.before hserv _ pending trivial (by simp) ?_) hrun hno.2
        (fun op hop hof => (hover' op hop hof).1)
      rw [trace, List.append_cons, serverWrites_concat (by simp), serverWrites_concat (by simp),
        h.written_eq_nil]
    | continues l' feed inOrder hread newStart memory =>
      obtain ⟨hb, hs⟩ := buffers_of_memory memory
      rw [feed]
      dsimp only
      rw [if_pos inOrder, ← newStart, show s.conn.sbuffer = t.conn.sbuffer from hs.symm,
        show s.conn.bbuffer.fill data = t.conn.bbuffer from hb.symm]
      exact ih hno.2 hsends' hover' hread

/-- The request can be written: the name resolves, the server accepts, the write succeeds. -/
theorem Serving.delivers {hd : Head} {w : World} (h : Serving hd w) {host port : Bytes}
    (hp : w.pending = [.resolve host port]) :
    ∃ es u, Run step w es u ∧ (∀ e ∈ es, NoError e) ∧ browserReads es = [] ∧
      ∀ op ∈ u.pending, ¬ OfRequest op := by
  have hrunning : ∀ w' : World, w'.escaped = w.escaped → w'.overrun = w.overrun →
      w'.deleted = w.deleted → w'.conn.isShuttingDown_ = w.conn.isShuttingDown_ → Running w' :=
    fun w' h1 h2 h3 h4 => ⟨h1.trans h.running.escaped, h2.trans h.running.overrun,
      h3.trans h.running.deleted, h4.trans h.running.isShuttingDown⟩
  set b := request w.conn.message_.method_ w.conn.message_.destination_ w.conn.reqHeaders_
  have hs₁ := step_of_pending (e := .resolve host port (some (⟨[], 80⟩, []))) h.running hp
  have hs₂ := step_of_pending (e := .connect ⟨[], 80⟩ [] false)
    (hrunning (handle { w with pending := [] } (.resolve host port (some (⟨[], 80⟩, []))))
      rfl rfl rfl rfl) rfl
  have hs₃ := step_of_pending (e := .serverWrite b false)
    (hrunning (handle { handle { w with pending := [] }
      (.resolve host port (some (⟨[], 80⟩, []))) with pending := [] }
        (.connect ⟨[], 80⟩ [] false)) rfl rfl rfl rfl) rfl
  refine ⟨_, _, .cons hs₁ (.cons hs₂ (.single hs₃)), ?_, rfl, ?_⟩
  · intro e he
    simp only [List.mem_cons, List.not_mem_nil, or_false] at he
    rcases he with rfl | rfl | rfl
    · exact nofun
    · rfl
    · rfl
  · intro op hop
    have hgo : (!w.conn.isShuttingDown_) = true := by simp [h.running.isShuttingDown]
    have hpending : op ∈ [AsyncOp.serverRead] := by
      simpa [handle, HandleServerWrite, HandleConnect, HandleResolve, StartWriteToServer,
        World.start, World.act, IsStopped, h.running.isShuttingDown] using hop
    rw [List.mem_singleton.mp hpending]
    exact id

/-- **There is such a run**, whatever the client sends. -/
theorem Reading.exchanges (reads : List Chunk) :
    ∀ {w : World} {l : RequestLexing}, Reading w l → ∃ es u, Exchange reads w es u := by
  induction reads with
  | nil =>
    intro w l h
    refine ⟨[], w, .nil w, nofun, List.prefix_refl _, fun op hop _ => ?_⟩
    rw [h.pending, List.mem_singleton] at hop
    exact ⟨hop, rfl⟩
  | cons data reads ih =>
    intro w l h
    obtain ⟨w', hs, hturn⟩ := h.delivers data
    -- whatever happens after the read is put behind it
    have hcons : ∀ es u, Run step w' es u → (∀ e ∈ es, NoError e) → browserReads es <+: reads →
        (∀ op ∈ u.pending, OfRequest op → op = .browserRead ∧ browserReads es = reads) →
          ∃ es u, Exchange (data :: reads) w es u := by
      intro es u hrun hno hsends hover
      refine ⟨.browserRead (some data) :: es, u, .cons hs hrun, ?_, ?_, ?_⟩
      · exact List.forall_mem_cons.mpr ⟨nofun, hno⟩
      · exact List.cons_prefix_cons.mpr ⟨rfl, hsends⟩
      · exact fun op hop hof => (hover op hop hof).imp_right (congrArg (data :: ·))
    have hended : w'.pending = [] → ∃ es u, Exchange (data :: reads) w es u := fun hp =>
      hcons [] w' (.nil w') nofun (List.nil_prefix) fun op hop => by simp [hp] at hop
    cases hturn with
    | refused line feed hst => exact hended hst.pending
    | rejected hd tokens rest feed isHead uri hst => exact hended hst.pending
    | overruns l' feed inverted hst => exact hended hst.pending
    | connects hd tokens rest feed isHead uri hserv host port trace pending =>
      obtain ⟨es, u, hrun, hno, hreads, hover⟩ := hserv.delivers pending
      exact hcons es u hrun hno (hreads ▸ List.nil_prefix) fun op hop hof =>
        absurd hof (hover op hop)
    | continues l' feed inOrder hread =>
      obtain ⟨es, u, hrun, hno, hsends, hover⟩ := ih hread
      exact hcons es u hrun hno hsends hover

/-- **The bytes of the client reach the origin** exactly if nothing follows the head and the
head that the parser is shown is the one that was sent. -/
theorem forwarded_iff_shownHead {bbuffer sbuffer : Buffer} {newStart_ newServerReadStart_ : Nat}
    {reads : List Chunk} {tokens : List (RequestParser.StateType × Bytes)} {hd : Head}
    (hl : Lexer.Linked lexer MethodStart tokens) (hhd : hd.Is tokens)
    (huri : UriAccepted hd.destination) (b : Bytes) :
    Forwarded (started bbuffer sbuffer newStart_ newServerReadStart_) reads (hd.request ++ b) ↔
      b = [] ∧ ∃ tokens', shownHead sbuffer bbuffer 0 (.start MethodStart) reads = some tokens' ∧
        hd.Is tokens' := by
  have hreading := started_reading bbuffer sbuffer newStart_ newServerReadStart_
  have hwrites : ∀ {es u}, Exchange reads (started bbuffer sbuffer newStart_ newServerReadStart_)
      es u → Writes (shownHead sbuffer bbuffer 0 (.start MethodStart) reads) (written u) :=
    fun hex => hex.writes hreading
  constructor
  · intro hforwarded
    obtain ⟨es, u, hex⟩ := hreading.exchanges reads
    have hbytes := hforwarded es u hex
    rcases hwrites hex with ⟨tokens', hd', hshown, his, -, hw⟩ | ⟨-, hw⟩
    · have hl' := shownHead_linked reads (Lexer.wellLinked_start _) hshown
      obtain ⟨rfl, rfl⟩ := request_prefix_free hhd his hl hl' (hw.symm.trans hbytes)
      exact ⟨rfl, tokens', hshown, his⟩
    · rw [hw] at hbytes
      exact absurd (List.append_eq_nil_iff.mp hbytes.symm).1 (request_ne_nil hd)
  · rintro ⟨rfl, tokens', hshown, his⟩ es u hex
    rw [List.append_nil]
    rcases hwrites hex with ⟨tokens'', hd', hshown', his', -, hw⟩ | ⟨hnone, -⟩
    · rw [hshown] at hshown'
      obtain rfl := Option.some.inj hshown'
      rw [hw, his.unique his']
    · exact absurd huri (hnone tokens' hd hshown his)

/-- **When the bytes of the client reach the origin.**  In every run without an error, whatever
the buffers of the connection hold at first, the head and all that follows it is written to the
origin exactly if nothing follows it and no read but the last ends where a token ends. -/
theorem body_forwarded_iff (reads : List Chunk) (tokens : List (RequestParser.StateType × Bytes))
    (hd : Head) (b : Bytes)
    (hstream : lexer.feed (.start MethodStart) (streamOf reads) = .complete tokens b)
    (hhd : hd.Is tokens) (huri : UriAccepted hd.destination) :
    (∀ bbuffer sbuffer newStart_ newServerReadStart_,
        Forwarded (started bbuffer sbuffer newStart_ newServerReadStart_) reads
          (hd.request ++ b)) ↔
      b = [] ∧ CutFree (.start MethodStart) reads := by
  have hl : Lexer.Linked lexer MethodStart tokens := Lexer.feed_start_complete hstream
  constructor
  · intro hforwarded
    obtain ⟨rfl, tokens', hshown, his⟩ :=
      (forwarded_iff_shownHead hl hhd huri b).mp (hforwarded blank blank 0 0)
    obtain ⟨version, hwell, htokens⟩ := hhd.wellFormed hl
    have hreceived : hd.bytes version = streamOf reads := by
      have hflat := Lexer.feed_complete_bytes hstream
      rw [htokens] at hflat
      simpa [Head.bytes, Lexer.Lexing.consumed, Lexer.Lexing.start] using hflat
    have hfollows : Follows hd version [] (blank.bytes ++ blank.bytes) 0 (.start MethodStart) :=
      ⟨Lexer.wellLinked_start _, overlaid_blank, Nat.le_refl _, fun hne => absurd rfl hne⟩
    exact ⟨rfl, cutFree_of_shownHead hwell reads hfollows hreceived tokens' hshown his⟩
  · rintro ⟨rfl, hfree⟩ bbuffer sbuffer newStart_ newServerReadStart_
    exact (forwarded_iff_shownHead hl hhd huri []).mpr
      ⟨rfl, tokens, shownHead_of_cutFree reads hfree hstream, hhd⟩

theorem body_forwarded_iff_absoluteForm :
    (∀ bbuffer sbuffer newStart_ newServerReadStart_,
        Forwarded (started bbuffer sbuffer newStart_ newServerReadStart_) [absoluteForm]
          (sent ++ [])) ↔
      ([] : Bytes) = [] ∧ CutFree (.start MethodStart) [absoluteForm] :=
  body_forwarded_iff [absoluteForm] absoluteTokens
    ⟨ascii "GET ", ascii "http://a/ ", ascii "\r\n"⟩ [] (by decide) ⟨_, rfl⟩
    ⟨ascii "a", ascii "80", by decide⟩

/-- A request with a body of two bytes, in one read. -/
def postHi : Chunk :=
  ⟨ascii "POST http://a/ HTTP/1.0\r\nContent-Length: 2\r\n\r\nhi", by decide, by decide⟩

/-- Its head. -/
def postHead : Head :=
  ⟨ascii "POST ", ascii "http://a/ ", ascii "Content-Length: 2\r\n\r\n"⟩

/-- **The body is not written**, though the head that announces it is. -/
theorem postHi_body_lost :
    ∃ tokens, lexer.feed (.start MethodStart) (streamOf [postHi]) = .complete tokens (ascii "hi") ∧
      postHead.Is tokens ∧ UriAccepted postHead.destination ∧
      ¬ Forwarded fresh [postHi] (postHead.request ++ ascii "hi") := by
  have hfeed : lexer.feed (.start MethodStart) (streamOf [postHi]) = .complete
      [(MethodDone, postHead.method), (UriDone, postHead.destination),
        (VersionDone, ascii "HTTP/1.0\r\n"), (HeadersDone, postHead.headers)] (ascii "hi") := by
    decide
  have huri : UriAccepted postHead.destination := ⟨ascii "a", ascii "80", by decide⟩
  refine ⟨_, hfeed, ⟨_, rfl⟩, huri, fun hforwarded => ?_⟩
  have hnil := (forwarded_iff_shownHead (Lexer.feed_start_complete hfeed) ⟨_, rfl⟩ huri
    (ascii "hi")).mp hforwarded
  exact absurd hnil.1 (by decide)

end HttpConnection

end TwoProxy
