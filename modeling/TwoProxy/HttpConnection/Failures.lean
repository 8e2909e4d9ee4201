/-
# How a connection fails, and what the log says of it

Not every handler that fails writes to the log, and not every failure that is logged ends the
connection.  The two are told apart by the last completion.  A connection is deleted exactly by
a completion that is fatal: one with an error, unless it is that of a connect with an endpoint
still ahead.  Then the log has the one line of the handlers that write one, and for three of
the six nothing.  A connection that has been brought to a stop by anything else stays.  The log
then has one line if a parser has refused the bytes or `ParseUri` the target, whose exception
leaves the handler, and none if an iterator has taken the handler down (`failures_reported`).
-/
import TwoProxy.HttpConnection.Turns

namespace TwoProxy

namespace HttpConnection

open RequestParser (lexer)
open Transition

/-! ## 1. Failures -/

/-- The lines in the log. -/
def errorLines (trace : List Action) : List ErrorLine :=
  trace.filterMap fun
    | .logError line => some line
    | _ => none

namespace Event

/-- The completion carries an error, and there is nothing to fall back on. -/
def isFatal : Event → Bool
  | .browserRead none => true
  | .resolve _ _ none => true
  | .connect _ ahead err => err && ahead.isEmpty
  | .serverWrite _ err => err
  | .serverRead none => true
  | .clientWrite _ err => err
  | _ => false

/-- What is logged of it. -/
def errorLine : Event → Option ErrorLine
  | .resolve _ _ none => some .handleResolveFailed
  | .connect _ [] true => some .handleConnectFailed
  | .serverWrite _ true => some .handleServerWriteFailed
  | _ => none

end Event

/-- Where a run has led, by what its events were. -/
inductive Outcome (es : List Event) (w : World) : Prop
  | underway (calm : ∀ e ∈ es, e.isFatal = false) (pending : w.pending ≠ [])
      (deleted : w.deleted = 0) (going : w.escaped = false) (lines : errorLines w.trace = [])
  | failed (before : List Event) (e : Event) (events : es = before ++ [e])
      (calm : ∀ e ∈ before, e.isFatal = false) (fatal : e.isFatal = true)
      (pending : w.pending = []) (deleted : w.deleted = 1)
      (lines : errorLines w.trace = e.errorLine.toList)
  | refused (calm : ∀ e ∈ es, e.isFatal = false) (pending : w.pending = [])
      (deleted : w.deleted = 0) (going : w.escaped = false ∧ w.overrun = false)
      (line : ErrorLine) (ofParser : ∀ uri, line ≠ .invalidUriFormat uri)
      (lines : errorLines w.trace = [line])
  | escaped (calm : ∀ e ∈ es, e.isFatal = false) (pending : w.pending = [])
      (deleted : w.deleted = 0) (escaped : w.escaped = true) (inRange : w.overrun = false)
      (lines : errorLines w.trace = [.invalidUriFormat w.conn.message_.destination_])
  | overran (calm : ∀ e ∈ es, e.isFatal = false) (pending : w.pending = [])
      (deleted : w.deleted = 0) (contained : w.escaped = false) (overrun : w.overrun = true)
      (lines : errorLines w.trace = [])

/-! ## 2. Every turn -/

variable {w w' : World} {e : Event} {es : List Event}

@[simp] theorem errorLines_append (trace trace' : List Action) :
    errorLines (trace ++ trace') = errorLines trace ++ errorLines trace' :=
  List.filterMap_append

@[simp] theorem errorLines_log (w : World) (line : ErrorLine) :
    errorLines (w.log line).trace = errorLines w.trace ++ [line] :=
  errorLines_append _ _

@[simp] theorem errorLines_start (w : World) (op : AsyncOp) :
    errorLines (w.start op).trace = errorLines w.trace :=
  (errorLines_append _ _).trans (List.append_nil _)

@[simp] theorem errorLines_startConnect (w : World) :
    errorLines (w.act .startConnect).trace = errorLines w.trace :=
  (errorLines_append _ _).trans (List.append_nil _)

@[simp] theorem errorLines_StartWriteToServer (w : World) :
    errorLines (StartWriteToServer w).trace = errorLines w.trace :=
  (errorLines_start _ _).trans ((errorLines_append _ _).trans (List.append_nil _))

@[simp] theorem errorLines_resuming (w : World) (c : HttpConnection) :
    errorLines (resuming w c).trace = errorLines w.trace := rfl

@[simp] theorem errorLines_Shutdown (w : World) :
    errorLines (Shutdown w).trace = errorLines w.trace := by
  unfold Shutdown
  split
  · exact (errorLines_append _ _).trans (List.append_nil _)
  · rfl

theorem Running.shutdown (h : Running w) {w₀ : World} (hd : w₀.deleted = w.deleted)
    (hs : w₀.conn.isShuttingDown_ = w.conn.isShuttingDown_) : (Shutdown w₀).deleted = 1 := by
  rw [Shutdown, if_pos (by simp [hs, h.isShuttingDown])]
  simp [hd, h.deleted]

theorem calm_concat (h : ∀ e ∈ es, e.isFatal = false) (he : e.isFatal = false) :
    ∀ e' ∈ es ++ [e], e'.isFatal = false := by
  intro e' hmem
  rcases List.mem_append.mp hmem with hmem | hmem
  · exact h e' hmem
  · rw [List.mem_singleton.mp hmem, he]

theorem Reading.outcome {l : RequestLexing} (h : Reading w l)
    (hcalm : ∀ e ∈ es, e.isFatal = false) (hs : HttpConnection.step w e = some w') :
    Outcome (es ++ [e]) w' := by
  have hlines : errorLines w.trace = [] := by
    rw [errorLines, List.filterMap_eq_nil_iff]
    intro a ha
    rw [h.quiet a ha]
  have hdeleted := h.running.deleted
  cases h.move hs with
  | hangsUp =>
    exact .failed es _ rfl hcalm rfl (Shutdown_pending _) (h.running.shutdown rfl rfl)
      ((errorLines_Shutdown _).trans hlines)
  | refuses data c line only isError =>
    have hline : ∀ uri, line ≠ .invalidUriFormat uri := by
      rintro uri rfl
      exact isError
    exact .refused (calm_concat hcalm rfl) rfl hdeleted ⟨h.running.escaped, h.running.overrun⟩
      line hline (by simp [hlines])
  | connects =>
    exact .underway (calm_concat hcalm rfl) (by simp [World.start]) hdeleted h.running.escaped
      (by simp [hlines])
  | throws data c =>
    have hlogged : errorLines (((resuming w c).act .startConnect).log
        (.invalidUriFormat c.message_.destination_)).trace =
          [.invalidUriFormat c.message_.destination_] := by
      simp [hlines]
    exact .escaped (calm_concat hcalm rfl) rfl hdeleted rfl h.running.overrun hlogged
  | continues =>
    exact .underway (calm_concat hcalm rfl) (by simp [ReadMoreFromBrowser, World.start]) hdeleted
      h.running.escaped (by simp [ReadMoreFromBrowser, hlines])
  | overruns =>
    exact .overran (calm_concat hcalm rfl) rfl hdeleted h.running.escaped rfl hlines

theorem Serving.outcome {hd : Head} (h : Serving hd w) (hcalm : ∀ e ∈ es, e.isFatal = false)
    (hlines : errorLines w.trace = []) (hs : HttpConnection.step w e = some w') :
    Outcome (es ++ [e]) w' := by
  have hdeleted := h.running.deleted
  cases h.move hs with
  | resolved | retries | connected | written | forwards | delivered =>
    exact .underway (calm_concat hcalm rfl) (by simp [StartWriteToServer, World.start]) hdeleted
      h.running.escaped (by simp [hlines])
  | unresolved | exhausted | unwritten =>
    exact .failed es _ rfl hcalm rfl (Shutdown_pending _) (h.running.shutdown rfl rfl)
      (by simp [hlines, Event.errorLine])
  | ends | undelivered =>
    exact .failed es _ rfl hcalm rfl (Shutdown_pending _) (h.running.shutdown rfl rfl)
      ((errorLines_Shutdown _).trans hlines)
  | refuses data c =>
    exact .refused (calm_concat hcalm rfl) rfl hdeleted ⟨h.running.escaped, h.running.overrun⟩
      .processingReadUntilBody (by simp) (by simp [hlines])

theorem Outcome.step (h : Outcome es w) (hphase : Phase w)
    (hs : HttpConnection.step w e = some w') : Outcome (es ++ [e]) w' := by
  cases h with
  | underway calm pending deleted going lines =>
    cases hphase with
    | reading l hr => exact hr.outcome calm hs
    | serving hd hr => exact hr.outcome calm lines hs
    | closed hr => exact absurd hr.pending pending
    | stalled hr => exact absurd hr.pending pending
  | failed before e events calm fatal pending => exact absurd hs (step_ne_some pending)
  | refused calm pending => exact absurd hs (step_ne_some pending)
  | escaped calm pending => exact absurd hs (step_ne_some pending)
  | overran calm pending => exact absurd hs (step_ne_some pending)

theorem Reaches.outcome (h : Reaches es w) : Outcome es w := by
  obtain ⟨bbuffer, sbuffer, newStart_, newServerReadStart_, hrun⟩ := h
  have hstart : Outcome [] (started bbuffer sbuffer newStart_ newServerReadStart_) :=
    .underway nofun (by simp [started, Start, World.start]) rfl rfl rfl
  exact (hrun.invariant_events (R := fun es w => Phase w ∧ Outcome es w)
    (fun _ _ _ _ hi hs => ⟨hi.1.kept hs, hi.2.step hi.1 hs⟩) []
    ⟨.reading _ (started_reading _ _ _ _), hstart⟩).2

/-! ## 3. What is reported -/

/-- A calm list has no fatal event in it. -/
theorem calm_split {before after : List Event} (h : ∀ e ∈ es, e.isFatal = false)
    (hes : es = before ++ e :: after) : e.isFatal = false :=
  h e (by simp [hes])

/-- Either nothing was fatal, and nothing has been deleted, or the last event was. -/
theorem Outcome.calm_or_failed (h : Outcome es w) :
    ((∀ e ∈ es, e.isFatal = false) ∧ w.deleted = 0) ∨
      ∃ before e, es = before ++ [e] ∧ (∀ e ∈ before, e.isFatal = false) ∧ e.isFatal = true ∧
        w.deleted = 1 ∧ errorLines w.trace = e.errorLine.toList := by
  cases h with
  | underway calm pending deleted => exact Or.inl ⟨calm, deleted⟩
  | refused calm pending deleted => exact Or.inl ⟨calm, deleted⟩
  | escaped calm pending deleted => exact Or.inl ⟨calm, deleted⟩
  | overran calm pending deleted => exact Or.inl ⟨calm, deleted⟩
  | failed before e events calm fatal pending deleted lines =>
    exact Or.inr ⟨before, e, events, calm, fatal, deleted, lines⟩

/-- What is logged of a connection that has not been deleted. -/
theorem Outcome.lines_of_kept (h : Outcome es w) (hd : w.deleted = 0) :
    (errorLines w.trace = [] ↔ w.pending ≠ [] ∨ w.overrun = true) ∧
      (w.escaped = true ↔
        errorLines w.trace = [.invalidUriFormat w.conn.message_.destination_]) ∧
      (errorLines w.trace).length ≤ 1 := by
  cases h with
  | underway calm pending deleted going lines => simp [lines, pending, going]
  | failed before e events calm fatal pending deleted => omega
  | refused calm pending deleted going line ofParser lines =>
    simp [lines, pending, going, ofParser]
  | escaped calm pending deleted escaped inRange lines => simp [lines, pending, escaped, inRange]
  | overran calm pending deleted contained overrun lines => simp [lines, contained, overrun]

/-- **What ends a connection, and what is logged of it.**  In every run: the connection has
been deleted exactly if the last completion was fatal, and no completion follows a fatal one;
of a connection that has been deleted the log has the line for that completion, if there is
one, and nothing else; and of one that has not, the log has a line exactly if it has come to a
stop without an overrun, and then it has one line, which is the one on the format of the stored
target exactly if an exception has left the handler. -/
theorem failures_reported (es : List Event) (w : World) (h : Reaches es w) :
    (w.deleted = 1 ↔ ∃ before e, es = before ++ [e] ∧ e.isFatal = true) ∧
      (∀ before e after, es = before ++ e :: after → e.isFatal = true → after = []) ∧
      (w.deleted = 1 → errorLines w.trace = (es.getLast?.bind Event.errorLine).toList) ∧
      (w.deleted = 0 →
        (errorLines w.trace = [] ↔ w.pending ≠ [] ∨ w.overrun = true) ∧
          (w.escaped = true ↔
            errorLines w.trace = [.invalidUriFormat w.conn.message_.destination_]) ∧
          (errorLines w.trace).length ≤ 1) := by
  have hout := h.outcome
  rcases hout.calm_or_failed with
    ⟨hcalm, hdeleted⟩ | ⟨before, e, hes, hcalm, hfatal, hdeleted, hlines⟩
  · refine ⟨iff_of_false (by omega) ?_, ?_, by omega, hout.lines_of_kept⟩
    · rintro ⟨before, e, hes, hfatal⟩
      rw [calm_split hcalm hes] at hfatal
      cases hfatal
    · intro before e after hes hfatal
      rw [calm_split hcalm hes] at hfatal
      cases hfatal
  · refine ⟨iff_of_true hdeleted ⟨before, e, hes, hfatal⟩, ?_, fun _ => ?_, by omega⟩
    · intro before' e' after hes' hfatal'
      rcases List.eq_nil_or_concat after with hnil | ⟨after, last, rfl⟩
      · exact hnil
      · -- the fatal event would be among those before the last one
        rw [hes, List.concat_eq_append, ← List.cons_append, ← List.append_assoc] at hes'
        have hmem : e' ∈ before := by
          rw [(List.append_inj' hes' rfl).1]
          simp
        rw [hcalm e' hmem] at hfatal'
        cases hfatal'
    · rw [hlines, hes, List.getLast?_concat]
      rfl

/-- The name of the server is not resolved. -/
def unresolvedName : List Event :=
  [.browserRead (some absoluteForm), .resolve (ascii "a") (ascii "80") none]

theorem failures_reported_unresolvedName :
    let w := follow step fresh unresolvedName
    w.deleted = 1 ∧ errorLines w.trace = [.handleResolveFailed] ∧
      (w.deleted = 1 ↔ ∃ before e, unresolvedName = before ++ [e] ∧ e.isFatal = true) ∧
      (∀ before e after, unresolvedName = before ++ e :: after → e.isFatal = true → after = []) ∧
      (w.deleted = 1 →
        errorLines w.trace = (unresolvedName.getLast?.bind Event.errorLine).toList) ∧
      (w.deleted = 0 →
        (errorLines w.trace = [] ↔ w.pending ≠ [] ∨ w.overrun = true) ∧
          (w.escaped = true ↔
            errorLines w.trace = [.invalidUriFormat w.conn.message_.destination_]) ∧
          (errorLines w.trace).length ≤ 1) :=
  ⟨by decide +kernel, by decide +kernel, failures_reported unresolvedName _
    ⟨blank, blank, 0, 0, run_follow (by decide +kernel)⟩⟩

end HttpConnection

end TwoProxy
