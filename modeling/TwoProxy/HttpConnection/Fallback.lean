/-
# Falling back from one endpoint to the next

The loop over the endpoints of a name is spread over the completions: `HandleResolve` starts
the first attempt, and each `HandleConnect` that fails starts the next.  Both read the endpoint
out of the iterator and advance it inside the arguments of the `bind`, so that the handler of an
attempt is given what lies behind the endpoint attempted.

Whatever the attempts come to, they are made in the order of the list, each once, up to the
first that succeeds; then the request is written, once.  If none succeeds the connection is shut
down.  The iterator is never dereferenced at the end (`fallback_complete`).
-/
import TwoProxy.HttpConnection.Relay

namespace TwoProxy

namespace HttpConnection

open Transition

/-! ## 1. Attempts -/

/-- An endpoint, and whether connecting to it fails. -/
abbrev Attempt := Endpoint × Bool

def endpointsOf (attempts : List Attempt) : List Endpoint := attempts.map Prod.fst

/-- The completions of the attempts, each with the iterator bound to its handler. -/
def completions : List Attempt → List Event
  | [] => []
  | (endpoint, err) :: attempts =>
    .connect endpoint (endpointsOf attempts) err :: completions attempts

/-- An attempt at every endpoint, in order. -/
def starts : List Endpoint → List Action
  | [] => []
  | endpoint :: rest => .start (.connect endpoint rest) :: starts rest

/-- How many attempts fail before one succeeds. -/
def failures (attempts : List Attempt) : Nat := (attempts.takeWhile Prod.snd).length

/-- What is done after the last attempt: the connection is shut down if all of them fail, and
the request is written if one succeeds. -/
def afterAttempts (c : HttpConnection) (attempts : List Attempt) : List Action :=
  if attempts.all Prod.snd = true then [.logError .handleConnectFailed, .deleteConnection]
  else
    [.startWriteToServer,
      .start (.serverWrite (request c.message_.method_ c.message_.destination_ c.reqHeaders_))]

/-- The attempts `made` are started from `w` on and lead to `w'`. -/
structure FallsBack (attempts : List Attempt) (made : List Action) (w w' : World) : Prop where
  trace : w'.trace = w.trace ++ made ++ afterAttempts w.conn attempts
  deleted : w'.deleted = if attempts.all Prod.snd = true then 1 else 0
  overrun : w'.overrun = false

@[simp] theorem failures_failed (endpoint : Endpoint) (attempts : List Attempt) :
    failures ((endpoint, true) :: attempts) = failures attempts + 1 := by
  simp [failures]

@[simp] theorem failures_succeeded (endpoint : Endpoint) (attempts : List Attempt) :
    failures ((endpoint, false) :: attempts) = 0 := by
  simp [failures]

/-- An attempt that fails before others leaves the outcome to them. -/
theorem afterAttempts_failed (c : HttpConnection) (endpoint : Endpoint)
    (attempts : List Attempt) :
    afterAttempts c ((endpoint, true) :: attempts) = afterAttempts c attempts := rfl

/-- No completion of an attempt is possible while another operation is pending. -/
theorem completions_stuck {w : World} (op : AsyncOp) (hp : w.pending = [op])
    (hop : ∀ endpoint rest, op ≠ .connect endpoint rest) (attempts : List Attempt) :
    follow step w (completions attempts) = w := by
  cases attempts with
  | nil => rfl
  | cons a attempts =>
    refine follow_cons_none ?_
    rw [step, if_neg]
    rintro ⟨-, -, hmem⟩
    rw [hp, List.mem_singleton] at hmem
    exact hop _ _ hmem.symm

/-! ## 2. The chain of completions -/

/-- The attempt succeeds: the request is written, and no further attempt completes. -/
theorem connect_succeeds {w : World} {endpoint : Endpoint} {attempts : List Attempt}
    (hr : Running w) (hp : w.pending = [.connect endpoint (endpointsOf attempts)]) :
    FallsBack ((endpoint, false) :: attempts) [] w
      (follow step w (completions ((endpoint, false) :: attempts))) := by
  have hs := step_of_pending (e := .connect endpoint (endpointsOf attempts) false) hr hp
  rw [completions, follow_cons_some hs, completions_stuck (.serverWrite _) rfl (by simp)]
  exact
    { trace := by
        simp [handle, HandleConnect, StartWriteToServer, World.act, World.start, afterAttempts]
      deleted := by
        rw [if_neg (by simp)]
        exact hr.deleted
      overrun := hr.overrun }

/-- The last attempt fails. -/
theorem connect_exhausted {w : World} {endpoint : Endpoint} (hr : Running w)
    (hp : w.pending = [.connect endpoint []]) :
    FallsBack [(endpoint, true)] [] w (follow step w (completions [(endpoint, true)])) := by
  have hs := step_of_pending (e := .connect endpoint [] true) hr hp
  have hend : follow step w (completions [(endpoint, true)])
      = handle { w with pending := [] } (.connect endpoint [] true) := follow_cons_some hs
  have hgo : (!w.conn.isShuttingDown_) = true := by simp [hr.isShuttingDown]
  have hclosed : handle { w with pending := [] } (.connect endpoint [] true) =
      { w with
        pending := []
        conn := { w.conn with isShuttingDown_ := true }
        deleted := w.deleted + 1
        trace := w.trace ++ [.logError .handleConnectFailed] ++ [.deleteConnection] } := if_pos hgo
  rw [hend, hclosed]
  exact
    { trace := by simp [afterAttempts]
      deleted := by simp [hr.deleted]
      overrun := hr.overrun }

/-- **The chain of `HandleConnect` completions**, once the first attempt is under way.  The
induction is on the endpoints that lie ahead of the iterator. -/
theorem connect_chain (attempts : List Attempt) :
    ∀ {w : World} {endpoint : Endpoint} (err : Bool), Running w →
      w.pending = [.connect endpoint (endpointsOf attempts)] →
      FallsBack ((endpoint, err) :: attempts)
        ((starts (endpointsOf attempts)).take (failures ((endpoint, err) :: attempts))) w
        (follow step w (completions ((endpoint, err) :: attempts))) := by
  induction attempts with
  | nil =>
    intro w endpoint err hr hp
    cases err with
    | false => exact connect_succeeds hr hp
    | true => exact connect_exhausted hr hp
  | cons a attempts ih =>
    intro w endpoint err hr hp
    obtain ⟨endpoint', err'⟩ := a
    cases err with
    | false =>
      rw [failures_succeeded, List.take_zero]
      exact connect_succeeds hr hp
    | true =>
      have hs := step_of_pending
        (e := .connect endpoint (endpointsOf ((endpoint', err') :: attempts)) true) hr hp
      have hnext := ih
        (w := World.start { w with pending := [] } (.connect endpoint' (endpointsOf attempts)))
        err' ⟨hr.escaped, hr.overrun, hr.deleted, hr.isShuttingDown⟩ rfl
      rw [completions, follow_cons_some hs]
      exact
        { trace := by
            refine hnext.trace.trans ?_
            rw [failures_failed, afterAttempts_failed]
            simp [World.start, starts, endpointsOf]
          deleted := hnext.deleted
          overrun := hnext.overrun }

/-! ## 3. From the resolver on -/

/-- A connection that waits for the resolver is running, and has written nothing. -/
theorem Reaches.resolving {es : List Event} {w : World} {host port : Bytes} (h : Reaches es w)
    (hp : .resolve host port ∈ w.pending) :
    Running w ∧ w.pending = [.resolve host port] ∧ w.trace.count .startWriteToServer = 0 := by
  cases h.phase with
  | reading l h => rw [h.pending] at hp; simp at hp
  | closed h => rw [h.pending] at hp; cases hp
  | stalled h => rw [h.pending] at hp; cases hp
  | serving hd h =>
    obtain ⟨op, hop, hserving⟩ := h.pending
    rw [hop, List.mem_singleton] at hp
    subst hp
    exact ⟨h.running, hop, hserving.1⟩

theorem count_starts (endpoints : List Endpoint) (n : Nat) :
    ((starts endpoints).take n).count .startWriteToServer = 0 := by
  induction endpoints generalizing n with
  | nil => simp [starts]
  | cons endpoint rest ih =>
    cases n with
    | zero => rfl
    | succ n =>
      rw [starts, List.take_succ_cons, List.count_cons_of_ne (by simp)]
      exact ih n

/-- **Fallback is complete and ordered.**  For every non-empty list of endpoints that the
resolver returns and every outcome of the attempts: the attempts that are made are those at the
endpoints up to the first that succeeds, in the order of the list; `StartWriteToServer` is then
run once, unless all fail; the connection is shut down if and only if all fail; and no iterator
is dereferenced at the end of the list. -/
theorem fallback_complete (es : List Event) (w : World) (host port : Bytes)
    (h : Reaches es w) (hp : .resolve host port ∈ w.pending) (endpoint : Endpoint) (err : Bool)
    (others : List Attempt) :
    let attempts := (endpoint, err) :: others
    let w' := follow step w
      (.resolve host port (some (endpoint, endpointsOf others)) :: completions attempts)
    w'.trace = w.trace ++ (starts (endpointsOf attempts)).take (failures attempts + 1) ++
        afterAttempts w.conn attempts ∧
      w'.trace.count .startWriteToServer = (if ∀ a ∈ attempts, a.2 = true then 0 else 1) ∧
      (w'.deleted = 1 ↔ ∀ a ∈ attempts, a.2 = true) ∧ w'.overrun = false := by
  intro attempts w'
  obtain ⟨hr, hpending, hunwritten⟩ := h.resolving hp
  have hs := step_of_pending
    (e := .resolve host port (some (endpoint, endpointsOf others))) hr hpending
  have hchain := connect_chain others
    (w := World.start { w with pending := [] } (.connect endpoint (endpointsOf others)))
    err ⟨hr.escaped, hr.overrun, hr.deleted, hr.isShuttingDown⟩ rfl
  have hw : w' = follow step
      (World.start { w with pending := [] } (.connect endpoint (endpointsOf others)))
      (completions attempts) := follow_cons_some hs
  rw [← hw] at hchain
  have htrace : w'.trace = w.trace ++ (starts (endpointsOf attempts)).take (failures attempts + 1)
      ++ afterAttempts w.conn attempts := by
    refine hchain.trace.trans ?_
    simp [World.start, attempts, starts, endpointsOf]
  have hall : attempts.all Prod.snd = true ↔ ∀ a ∈ attempts, a.2 = true := List.all_eq_true
  refine ⟨htrace, ?_, ?_, hchain.overrun⟩
  · rw [htrace, List.count_append, List.count_append, hunwritten, count_starts, afterAttempts]
    by_cases hfail : ∀ a ∈ attempts, a.2 = true
    · rw [if_pos hfail, if_pos (hall.mpr hfail)]
      rfl
    · rw [if_neg hfail, if_neg (fun hb => hfail (hall.mp hb))]
      rfl
  · rw [hchain.deleted, ← hall]
    by_cases hfail : attempts.all Prod.snd = true
    · exact iff_of_true (if_pos hfail) hfail
    · exact iff_of_false (by rw [if_neg hfail]; decide) hfail

/-- The first of two endpoints fails and the second one answers. -/
theorem fallback_complete_second :
    let w := follow step fresh [.browserRead (some absoluteForm)]
    let attempts := [((⟨ascii "10.0.0.1", 80⟩ : Endpoint), true), (⟨ascii "10.0.0.2", 80⟩, false)]
    let w' := follow step w
      (.resolve (ascii "a") (ascii "80")
        (some (⟨ascii "10.0.0.1", 80⟩, [⟨ascii "10.0.0.2", 80⟩])) :: completions attempts)
    w'.trace = w.trace ++ (starts (endpointsOf attempts)).take (failures attempts + 1) ++
        afterAttempts w.conn attempts ∧
      w'.trace.count .startWriteToServer = (if ∀ a ∈ attempts, a.2 = true then 0 else 1) ∧
      (w'.deleted = 1 ↔ ∀ a ∈ attempts, a.2 = true) ∧ w'.overrun = false :=
  fallback_complete [.browserRead (some absoluteForm)] _ (ascii "a") (ascii "80")
    ⟨blank, blank, 0, 0, run_follow (by decide +kernel)⟩ (by decide +kernel)
    ⟨ascii "10.0.0.1", 80⟩ true [(⟨ascii "10.0.0.2", 80⟩, false)]

end HttpConnection

end TwoProxy
