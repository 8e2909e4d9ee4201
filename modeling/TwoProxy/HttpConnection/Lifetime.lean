/-
# The lifetime of a connection

What holds of every run, whatever completes, in whatever order and with whatever outcome.

* One operation at most is pending, and the connection is deleted at most once, as the last
  thing its handlers do (`linear_lifetime`).
* A connection that is neither waiting nor deleted is one whose parser has refused its bytes,
  whose exception has left the handler, or whose iterators were inverted
  (`never_abandoned_iff`).
* An exception leaves a handler exactly when a complete head has a target that `ParseUri`
  rejects (`contained_iff`): `Connection::Start` has returned, with its `try` block, before
  the first completion.

The last two are conditions on every step of the run, each read off the state before the step
and the event.  They come out of `reading_step` and `serving_step`.
-/
import TwoProxy.HttpConnection.Phases

namespace TwoProxy

namespace HttpConnection

open RequestParser (lexer)
open RequestParser.StateType
open Lexer (Lexing Progress)
open Transition

/-! ## 1. Every run is in one of the phases -/

/-- Where a connection can be between two handlers. -/
inductive Phase (w : World) : Prop
  | reading (l : RequestLexing) (h : Reading w l)
  | serving (hd : Head) (h : Serving hd w)
  | closed (h : Closed w)
  | stalled (h : Stalled w)

/-- One step keeps a connection in the phases. -/
theorem Phase.kept {w w' : World} {e : Event} (h : Phase w) (hs : step w e = some w') :
    Phase w' := by
  cases h with
  | reading l h =>
    rcases reading_step h hs with ⟨-, hc, -⟩ | ⟨data, -, hturn⟩
    · exact .closed hc
    · cases hturn with
      | refused line feed hst => exact .stalled hst
      | rejected hd tokens rest feed isHead uri hst => exact .stalled hst
      | connects hd tokens rest feed isHead uri hserv => exact .serving hd hserv
      | continues l' feed inOrder hread => exact .reading l' hread
      | overruns l' feed inverted hst => exact .stalled hst
  | serving hd h =>
    cases serving_step h hs with
    | serves accepted hserv => exact .serving hd hserv
    | closes accepted hc => exact .closed hc
    | stalls refused hst => exact .stalled hst
  | closed h => exact absurd hs (step_ne_some h.pending)
  | stalled h => exact absurd hs (step_ne_some h.pending)

theorem Reaches.phase {es : List Event} {w : World} (h : Reaches es w) : Phase w := by
  obtain ⟨bbuffer, sbuffer, newStart_, newServerReadStart_, hrun⟩ := h
  exact hrun.invariant (fun _ _ _ hi hs => hi.kept hs) (.reading _ (started_reading _ _ _ _))

/-! ## 2. At most one of everything -/

/-- What holds of a connection between two handlers, however it got there. -/
structure Linear (w : World) : Prop where
  onePending : w.pending.length ≤ 1
  connectOnce : w.trace.count .startConnect ≤ 1
  writeOnce : w.trace.count .startWriteToServer ≤ 1
  exclusive : .serverRead ∈ w.pending → ∀ b, .clientWrite b ∉ w.pending
  deletedOnce : w.deleted ≤ 1
  /-- No handler is pending after the deletion, and `delete this` was the last action. -/
  afterDelete : w.deleted ≠ 0 → w.pending = [] ∧
    ∃ before, w.trace = before ++ [.deleteConnection] ∧ .deleteConnection ∉ before

theorem Linear.of_pending {w : World} {op : AsyncOp} (hp : w.pending = [op])
    (hc : w.trace.count .startConnect ≤ 1) (hw : w.trace.count .startWriteToServer ≤ 1)
    (hd : w.deleted = 0) : Linear w where
  onePending := by simp [hp]
  connectOnce := hc
  writeOnce := hw
  exclusive := by
    intro h1 b h2
    rw [hp, List.mem_singleton] at h1 h2
    rw [← h1] at h2
    exact absurd h2 (by simp)
  deletedOnce := by omega
  afterDelete := fun h => absurd hd h

theorem Linear.of_ended {w : World} (h : Ended w) (hd : w.deleted ≤ 1)
    (hlast : w.deleted ≠ 0 →
      ∃ before, w.trace = before ++ [.deleteConnection] ∧ .deleteConnection ∉ before) :
    Linear w where
  onePending := by simp [h.pending]
  connectOnce := h.connects
  writeOnce := h.writes
  exclusive := by simp [h.pending]
  deletedOnce := hd
  afterDelete := fun hne => ⟨h.pending, hlast hne⟩

theorem Phase.linear {w : World} (h : Phase w) : Linear w := by
  cases h with
  | reading l h =>
    exact .of_pending h.pending (by simp [h.connects]) (by simp [h.writes]) h.running.deleted
  | serving hd h =>
    obtain ⟨op, hp, -⟩ := h.pending
    exact .of_pending hp h.connects.le h.writes h.running.deleted
  | closed h => exact .of_ended h.toEnded h.deleted.le (fun _ => h.last)
  | stalled h => exact .of_ended h.toEnded (by simp [h.deleted]) (fun hne => absurd h.deleted hne)

/-- **Linearity and lifetime.**  In every reachable state one operation at most is pending,
so that a handler runs with none; `StartConnect`, `StartWriteToServer` and the deletion each
happen once at most; and after the deletion nothing is pending, nothing was started, and
nothing more can happen. -/
theorem linear_lifetime (es : List Event) (w : World) (h : Reaches es w) :
    Linear w ∧ (∀ e w', step w e = some w' → w.pending.erase e.op = [] ∧ Linear w') ∧
      (w.deleted ≠ 0 → ∀ e, step w e = none) := by
  have hphase := h.phase
  have hlin := hphase.linear
  refine ⟨hlin, ?_, ?_⟩
  · intro e w' hs
    refine ⟨?_, (hphase.kept hs).linear⟩
    have h1 := List.length_erase_of_mem (step_handle hs).1
    have h2 := hlin.onePending
    exact List.eq_nil_of_length_eq_zero (by omega)
  · intro hd e
    exact step_eq_none (hlin.afterDelete hd).1 e

/-- A browser that hangs up at once. -/
theorem linear_lifetime_hangUp :
    let w := follow step fresh [.browserRead none]
    w.deleted = 1 ∧ Linear w ∧
      (∀ e w', step w e = some w' → w.pending.erase e.op = [] ∧ Linear w') ∧
      (w.deleted ≠ 0 → ∀ e, step w e = none) :=
  ⟨by decide +kernel, linear_lifetime [.browserRead none] _
    ⟨blank, blank, 0, 0, run_follow (by decide +kernel)⟩⟩

/-! ## 3. What a connection has read, from its own fields -/

/-- The tokenisation that a connection stands for.  The version is not kept, and what it was
makes no difference to what is read next. -/
def lexingOf (c : HttpConnection) : RequestLexing where
  state := c.parser_
  tokens :=
    match c.clientRequestState_ with
    | .Method => []
    | .Uri => [(MethodDone, c.message_.method_)]
    | .Version => [(MethodDone, c.message_.method_), (UriDone, c.message_.destination_)]
    | .Headers =>
      [(MethodDone, c.message_.method_), (UriDone, c.message_.destination_), (VersionDone, [])]
  part := c.partialParsed_

theorem InStep.lexingOf {c : HttpConnection} {l : RequestLexing}
    (h : InStep c.clientRequestState_ c l) : InStep c.clientRequestState_ c (lexingOf c) := by
  refine ⟨rfl, rfl, ?_, ?_⟩
  · rw [HttpConnection.lexingOf, h.state]
    exact h.before
  unfold HttpConnection.lexingOf
  cases c.clientRequestState_ with
  | Method => rfl
  | Uri => rfl
  | Version => rfl
  | Headers => exact ⟨[], rfl⟩

theorem Reading.lexingOf {w : World} {l : RequestLexing} (h : Reading w l) :
    Reading w (lexingOf w.conn) :=
  { h with inStep := h.inStep.lexingOf }

/-- The target among the tokens of a head. -/
def targetOf (tokens : List (RequestParser.StateType × Bytes)) : Bytes :=
  (tokens.lookup UriDone).getD []

theorem Head.Is.targetOf {hd : Head} {tokens : List (RequestParser.StateType × Bytes)}
    (h : hd.Is tokens) : targetOf tokens = hd.destination := by
  obtain ⟨version, rfl⟩ := h
  rfl

/-- The target contains `http` and, from seven bytes after its first occurrence on, a `/`. -/
def HasAuthority (target : Bytes) : Prop :=
  ∃ pos j, find target (ascii "http") 0 = some pos ∧
    find target (ascii "/") (sizeAdd sizeBits pos (8 - 1)) = some j

theorem uriAccepted_iff {target : Bytes} : UriAccepted target ↔ HasAuthority target :=
  ParseUri_accepts_iff

/-! ## 4. Exceptions -/

/-- If the event is a read that completes a head, the target of that head has an
authority. -/
def TargetAccepted (w : World) : Event → Prop
  | .browserRead (some data) => ∀ tokens rest,
    lexer.feed (lexingOf w.conn) (parsed w.conn data) = .complete tokens rest →
      HasAuthority (targetOf tokens)
  | _ => True

/-- One turn of the event loop ends with an exception exactly if the read completes a head
with the wrong kind of target. -/
theorem Phase.escaped_step {w w' : World} {e : Event} (h : Phase w) (hs : step w e = some w') :
    w'.escaped = false ↔ TargetAccepted w e := by
  cases h with
  | reading l h =>
    rcases reading_step h.lexingOf hs with ⟨rfl, hc, -⟩ | ⟨data, rfl, hturn⟩
    · exact iff_of_true hc.escaped trivial
    · cases hturn with
      | refused line feed hst hesc =>
        exact iff_of_true hesc (fun tokens rest hf => by rw [feed] at hf; cases hf)
      | rejected hd tokens rest feed isHead uri hst hesc =>
        refine iff_of_false (by simp [hesc]) (fun hok => uri ?_)
        rw [uriAccepted_iff, ← isHead.targetOf]
        exact hok tokens rest feed
      | connects hd tokens rest feed isHead uri hserv =>
        refine iff_of_true hserv.running.escaped (fun tokens' rest' hf => ?_)
        rw [feed] at hf
        cases hf
        rw [isHead.targetOf]
        exact uriAccepted_iff.mp uri
      | continues l' feed inOrder hread =>
        exact iff_of_true hread.running.escaped (fun tokens rest hf => by rw [feed] at hf; cases hf)
      | overruns l' feed inverted hst hesc =>
        exact iff_of_true hesc (fun tokens rest hf => by rw [feed] at hf; cases hf)
  | serving hd h =>
    have hok : TargetAccepted w e := by
      obtain ⟨op, hp, hop⟩ := h.pending
      obtain ⟨rfl, -⟩ := step_eq_some hp hs
      cases e with
      | browserRead r => exact hop.elim
      | _ => trivial
    refine iff_of_true ?_ hok
    cases serving_step h hs with
    | serves accepted hserv => exact hserv.running.escaped
    | closes accepted hc => exact hc.escaped
    | stalls refused hst hesc => exact hesc
  | closed h => exact absurd hs (step_ne_some h.pending)
  | stalled h => exact absurd hs (step_ne_some h.pending)

/-- What is asked of a handler: no exception leaves it, and a target without an authority
ends in `Shutdown`. -/
def Contained (w : World) (e : Event) : Prop :=
  ∀ w', step w e = some w' → w'.escaped = false ∧ (¬ TargetAccepted w e → w'.deleted = 1)

/-- **When no exception leaves a handler.**  The handlers of a run are all contained exactly
if every read that completes a head completes one whose target has an authority: a rejected
target is thrown out of the completion handler, past the `Connection` that could shut down. -/
theorem contained_iff (bbuffer sbuffer : Buffer) (newStart_ newServerReadStart_ : Nat)
    (es : List Event) (w : World)
    (h : Run step (started bbuffer sbuffer newStart_ newServerReadStart_) es w) :
    EveryStep step Contained (started bbuffer sbuffer newStart_ newServerReadStart_) es ↔
      EveryStep step TargetAccepted
        (started bbuffer sbuffer newStart_ newServerReadStart_) es := by
  refine everyStep_congr (I := Phase) (fun _ _ _ hi hs => hi.kept hs) ?_ h
    (.reading _ (started_reading _ _ _ _))
  intro s e t hi hs
  have hesc := hi.escaped_step hs
  constructor
  · exact fun hc => hesc.mp (hc t hs).1
  · intro hok t' ht'
    rw [hs] at ht'
    obtain rfl := Option.some.inj ht'
    exact ⟨hesc.mpr hok, fun hno => absurd hok hno⟩

/-- A request in origin form. -/
def originForm : Chunk := ⟨ascii "GET /index.html HTTP/1.0\r\n\r\n", by decide, by decide⟩

theorem contained_iff_absoluteForm :
    EveryStep step Contained fresh [.browserRead (some absoluteForm)] ↔
      EveryStep step TargetAccepted fresh [.browserRead (some absoluteForm)] :=
  contained_iff blank blank 0 0 _ (follow step fresh [.browserRead (some absoluteForm)])
    (run_follow (by decide +kernel))

/-- **A request in origin form takes the event loop down.** -/
theorem originForm_escapes :
    ¬ EveryStep step Contained fresh [.browserRead (some originForm)] := by
  intro h
  have hstep : step fresh (.browserRead (some originForm)) =
      some ((step fresh (.browserRead (some originForm))).get (by decide +kernel)) :=
    (Option.some_get _).symm
  have hsafe := (h [] _ _ (List.prefix_refl _) (.nil _) _ hstep).1
  exact absurd hsafe (by decide +kernel)

/-! ## 5. Abandoned connections -/

/-- A completion is on its way, or the connection has been deleted. -/
def Alive (w : World) : Prop := w.pending ≠ [] ∨ w.deleted = 1

/-- What keeps a connection alive.  A browser read must not make the request parser refuse,
must find the authority in the target if it completes the head, and must find the iterators
in order if it does not; the bytes of a server read must not be refused by the response
parser. -/
def KeepsAlive (w : World) : Event → Prop
  | .browserRead (some data) =>
    match lexer.feed (lexingOf w.conn) (parsed w.conn data) with
    | .refused => False
    | .complete tokens _ => HasAuthority (targetOf tokens)
    | .reading _ => w.conn.newStart_ ≤ data.bytes.length
  | .serverRead (some data) => ¬ RefusedBy w.conn (.serverRead (some data))
  | _ => True

theorem Serving.alive {hd : Head} {w : World} (h : Serving hd w) : Alive w := by
  obtain ⟨op, hp, -⟩ := h.pending
  exact Or.inl (by simp [hp])

theorem Closed.alive {w : World} (h : Closed w) : Alive w := Or.inr h.deleted

theorem Stalled.not_alive {w : World} (h : Stalled w) : ¬ Alive w := by
  rintro (hp | hd)
  · exact hp h.pending
  · simp [h.deleted] at hd

theorem Phase.alive_step {w w' : World} {e : Event} (h : Phase w) (hs : step w e = some w') :
    Alive w' ↔ KeepsAlive w e := by
  cases h with
  | reading l h =>
    rcases reading_step h.lexingOf hs with ⟨rfl, hc, -⟩ | ⟨data, rfl, hturn⟩
    · exact iff_of_true hc.alive trivial
    · cases hturn with
      | refused line feed hst =>
        exact iff_of_false hst.not_alive (by simp [KeepsAlive, feed])
      | rejected hd tokens rest feed isHead uri hst =>
        refine iff_of_false hst.not_alive ?_
        simp only [KeepsAlive, feed, isHead.targetOf]
        exact fun hok => uri (uriAccepted_iff.mpr hok)
      | connects hd tokens rest feed isHead uri hserv =>
        refine iff_of_true hserv.alive ?_
        simp only [KeepsAlive, feed, isHead.targetOf]
        exact uriAccepted_iff.mp uri
      | continues l' feed inOrder hread =>
        refine iff_of_true (Or.inl (by simp [hread.pending])) ?_
        simpa only [KeepsAlive, feed] using inOrder
      | overruns l' feed inverted hst =>
        refine iff_of_false hst.not_alive ?_
        simpa only [KeepsAlive, feed, not_le] using inverted
  | serving hd h =>
    have hiff : KeepsAlive w e ↔ ¬ RefusedBy w.conn e := by
      obtain ⟨op, hp, hop⟩ := h.pending
      obtain ⟨rfl, -⟩ := step_eq_some hp hs
      cases e with
      | browserRead r => exact hop.elim
      | serverRead r => cases r <;> simp [KeepsAlive, RefusedBy]
      | _ => simp [KeepsAlive, RefusedBy]
    rw [hiff]
    cases serving_step h hs with
    | serves accepted hserv => exact iff_of_true hserv.alive accepted
    | closes accepted hc => exact iff_of_true hc.alive accepted
    | stalls refused hst => exact iff_of_false hst.not_alive (not_not_intro refused)
  | closed h => exact absurd hs (step_ne_some h.pending)
  | stalled h => exact absurd hs (step_ne_some h.pending)

/-- **When a connection is never abandoned.**  A run passes through no state in which nothing
is pending and nothing has been deleted exactly if each of its steps keeps the connection
alive. -/
theorem never_abandoned_iff (bbuffer sbuffer : Buffer) (newStart_ newServerReadStart_ : Nat)
    (es : List Event) (w : World)
    (h : Run step (started bbuffer sbuffer newStart_ newServerReadStart_) es w) :
    EveryState step Alive (started bbuffer sbuffer newStart_ newServerReadStart_) es ↔
      EveryStep step KeepsAlive (started bbuffer sbuffer newStart_ newServerReadStart_) es :=
  everyState_iff_everyStep (I := Phase) (fun _ _ _ hi hs => hi.kept hs)
    (fun _ _ _ hi _ hs => hi.alive_step hs) h (.reading _ (started_reading _ _ _ _))
    (Or.inl (by simp [started, Start, World.start]))

theorem never_abandoned_iff_absoluteForm :
    EveryState step Alive fresh [.browserRead (some absoluteForm)] ↔
      EveryStep step KeepsAlive fresh [.browserRead (some absoluteForm)] :=
  never_abandoned_iff blank blank 0 0 _ (follow step fresh [.browserRead (some absoluteForm)])
    (run_follow (by decide +kernel))

/-- A request whose method is not in upper case. -/
def lowerCase : Chunk := ⟨ascii "get http://a/ HTTP/1.0\r\n\r\n", by decide, by decide⟩

/-- **A refused method abandons the connection**: nothing is pending, and nothing has been
deleted. -/
theorem lowerCase_abandoned :
    ¬ EveryState step Alive fresh [.browserRead (some lowerCase)] := by
  intro h
  have hrun : Run step fresh [.browserRead (some lowerCase)]
      (follow step fresh [.browserRead (some lowerCase)]) := run_follow (by decide +kernel)
  have halive := h _ _ (List.prefix_refl _) hrun
  rcases halive with hp | hd
  · exact hp (by decide +kernel)
  · exact absurd hd (by decide +kernel)

end HttpConnection

end TwoProxy
