/-
# The stage of the handler and the state of the parser

`clientRequestState_` says which `case` the next read enters, `parser_` how far the head has
been parsed, and `partialParsed_` holds what has been parsed of the token under way.  Inside the
handler they drift apart, since a `case` that falls through sets nothing; each of the exits that
read more brings them together again.

Whenever a browser read is pending, the state of the parser is one of the stage, and
`partialParsed_` holds the bytes that the parser has consumed since it entered the first state
of that stage, which it does once only (`stages_in_step`).  The bytes consumed are those of the
calls of `Calls.lean`.
-/
import TwoProxy.HttpConnection.Calls

namespace TwoProxy

namespace HttpConnection

open RequestParser (lexer next stageEnd Before)
open RequestParser.StateType
open Lexer (Lexing Progress)
open Transition

/-! ## 1. Stages -/

/-- The states that the parser can be in when a `case` is entered. -/
def statesOf : ClientRequestState → List RequestParser.StateType
  | .Method => [MethodStart, MethodChar]
  | .Uri => [MethodDone, UriChar]
  | .Version =>
    [UriDone, VersionH, VersionT1, VersionT2, VersionP, VersionSlash, VersionD1, VersionDot,
      VersionD2, VersionCr]
  | .Headers =>
    [VersionDone, HeaderName, HeaderColon, HeaderValue, HeaderCr, HeaderLineDone, HeadersCr]

/-- The first of them. -/
def firstState : ClientRequestState → RequestParser.StateType
  | .Method => MethodStart
  | .Uri => MethodDone
  | .Version => UriDone
  | .Headers => VersionDone

theorem before_iff {stage : ClientRequestState} {s : RequestParser.StateType} :
    Before (stopOf stage) s ↔ s ∈ statesOf stage := by
  cases stage <;> cases s <;> decide

/-- The tokens stored when a `case` is entered end in its first state. -/
theorem InStep.endState {stage : ClientRequestState} {c : HttpConnection} {l : RequestLexing}
    (h : InStep stage c l) : Lexer.endState MethodStart l.tokens = firstState stage := by
  have hstored := h.stored
  cases stage with
  | Method => rw [show l.tokens = [] from hstored]; rfl
  | Uri => rw [show l.tokens = _ from hstored]; rfl
  | Version => rw [show l.tokens = _ from hstored]; rfl
  | Headers =>
    obtain ⟨version, htokens⟩ := hstored
    rw [htokens]
    rfl

/-! ## 2. The first state of a stage is entered once -/

/-- The number of the stage that a state belongs to. -/
def stageIndex (s : RequestParser.StateType) : Nat :=
  match stageEnd s with
  | MethodDone => 0
  | UriDone => 1
  | VersionDone => 2
  | _ => 3

/-- A step leads to a later stage if it leads to a first state. -/
theorem next_stageIndex {s t : RequestParser.StateType} {c : Byte} (h : next s c = some t) :
    stageIndex s ≤ stageIndex t ∧ ∀ stage, t = firstState stage → stageIndex s < stageIndex t := by
  cases s <;> simp only [next] at h <;> (repeat' split at h) <;> cases h <;>
    exact ⟨by decide, fun stage => by cases stage <;> decide⟩

/-- **A run from a first state never returns to it.** -/
theorem path_firstState {stage : ClientRequestState} {xs : Bytes}
    (h : Scan.path next (firstState stage) xs = some (firstState stage)) : xs = [] := by
  rcases List.eq_nil_or_concat xs with rfl | ⟨init, c, rfl⟩
  · rfl
  · rw [List.concat_eq_append] at h
    obtain ⟨u, hu, hn⟩ := Scan.path_concat_eq_some.mp h
    have hlater : stageIndex (firstState stage) ≤ stageIndex u :=
      (Scan.path_invariant (I := fun u => stageIndex (firstState stage) ≤ stageIndex u)
        (P := fun _ => True)
        (fun _ _ _ hs hn => ⟨hs.trans (next_stageIndex hn).1, trivial⟩) init (le_refl _) hu).1
    have hback := (next_stageIndex hn).2 stage rfl
    omega

/-- So the bytes before it are determined. -/
theorem entered_once {stage : ClientRequestState} {bytes : Bytes} {m n : Nat} (hmn : m ≤ n)
    (hn : n ≤ bytes.length)
    (hm : Scan.path next MethodStart (bytes.take m) = some (firstState stage))
    (hpath : Scan.path next MethodStart (bytes.take n) = some (firstState stage)) : m = n := by
  have hsplit : bytes.take n = bytes.take m ++ (bytes.take n).drop m := by
    have h := (List.take_append_drop m (bytes.take n)).symm
    rwa [List.take_take, Nat.min_eq_left hmn] at h
  rw [hsplit] at hpath
  obtain ⟨t, ht, hrest⟩ := Scan.path_append_eq_some.mp hpath
  rw [hm] at ht
  obtain rfl := Option.some.inj ht
  have hlength := congrArg List.length (path_firstState hrest)
  rw [List.length_drop, List.length_take, List.length_nil] at hlength
  omega

/-! ## 3. What has been consumed -/

/-- The calls made while the events complete. -/
def callsAlong : World → List Event → List ParseCall
  | _, [] => []
  | w, e :: es =>
    callsOf w e ++
      match step w e with
      | some w' => callsAlong w' es
      | none => []

/-- The bytes that the parser has consumed. -/
def consumedAlong (w : World) (es : List Event) : Bytes :=
  (callsAlong w es).flatMap ParseCall.consumed

theorem consumedAlong_cons {w w' : World} {e : Event} (hs : step w e = some w')
    (es : List Event) : consumedAlong w (e :: es) =
      (callsOf w e).flatMap ParseCall.consumed ++ consumedAlong w' es := by
  simp [consumedAlong, callsAlong, hs]

/-- `part` is what has been consumed since the parser, now in `state`, entered `first`: there is
one moment at which it was in `first`, and the rest of the bytes is `part`. -/
def ConsumedSince (first state : RequestParser.StateType) (bytes part : Bytes) : Prop :=
  Scan.path next MethodStart bytes = some state ∧
    ∃ n ≤ bytes.length, part = bytes.drop n ∧ ∀ m ≤ bytes.length,
      (Scan.path next MethodStart (bytes.take m) = some first ↔ m = n)

/-- While the head is read, the tokenisation accounts for all the bytes consumed. -/
theorem Reading.consumed {s u : World} {es : List Event} (hrun : Run step s es u) :
    ∀ {l : RequestLexing}, Reading s l → Lexer.WellLinked lexer MethodStart l →
      .browserRead ∈ u.pending → ∃ l', Reading u l' ∧ Lexer.WellLinked lexer MethodStart l' ∧
        l'.consumed = l.consumed ++ consumedAlong s es := by
  induction hrun with
  | nil => exact fun h hl _ => ⟨_, h, hl, by simp [consumedAlong, callsAlong]⟩
  | @cons s t u e es hs hrun ih =>
    intro l h hl hp
    rcases reading_step h hs with ⟨-, hc, -⟩ | ⟨data, rfl, hturn⟩
    · exact absurd hp (PastHead.run hrun (Or.inr hc.pending)).1.not_pending
    · rcases hturn.pastHead with hpast | ⟨l', hfeed, hread, hle, -⟩
      · exact absurd hp (PastHead.run hrun hpast).1.not_pending
      · have hl' : Lexer.WellLinked lexer MethodStart l' := by
          have hprogress := hl.feed (parsed s.conn data)
          rw [hfeed] at hprogress
          exact hprogress
        obtain ⟨l'', hu, hl'', hbytes⟩ := ih hread hl' hp
        refine ⟨l'', hu, hl'', ?_⟩
        have hread : (callsOf s (.browserRead (some data))).flatMap ParseCall.consumed
            = parsed s.conn data := (h.calls data).consumed hle l' hfeed
        rw [hbytes, consumedAlong_cons hs, hread, Lexer.feed_reading_consumed hfeed,
          List.append_assoc]

/-- **Stage and state are in step.**  In every run after which a browser read is pending, the
parser is in a state of the stage, and `partialParsed_` is what the parser has consumed since
it entered the first state of that stage. -/
theorem stages_in_step (bbuffer sbuffer : Buffer) (newStart_ newServerReadStart_ : Nat)
    (es : List Event) (w : World)
    (h : Run step (started bbuffer sbuffer newStart_ newServerReadStart_) es w)
    (hp : .browserRead ∈ w.pending) :
    w.conn.parser_ ∈ statesOf w.conn.clientRequestState_ ∧
      ConsumedSince (firstState w.conn.clientRequestState_) w.conn.parser_
        (consumedAlong (started bbuffer sbuffer newStart_ newServerReadStart_) es)
        w.conn.partialParsed_ := by
  obtain ⟨l, hread, hl, hbytes⟩ :=
    Reading.consumed h (started_reading _ _ _ _) (Lexer.wellLinked_start _) hp
  have hin := hread.inStep
  have hconsumed : consumedAlong (started bbuffer sbuffer newStart_ newServerReadStart_) es
      = Lexer.bytesOf l.tokens ++ l.part := hbytes.symm
  have hfirst : Scan.path next MethodStart (Lexer.bytesOf l.tokens)
      = some (firstState w.conn.clientRequestState_) := by
    rw [← hin.endState]
    exact Lexer.linked_path _ hl.tokens
  have htake : Scan.path next MethodStart
      ((Lexer.bytesOf l.tokens ++ l.part).take (Lexer.bytesOf l.tokens).length)
        = some (firstState w.conn.clientRequestState_) := by
    rw [List.take_left]
    exact hfirst
  rw [hin.state, hin.part, hconsumed]
  refine ⟨before_iff.mp hin.before, hl.path, (Lexer.bytesOf l.tokens).length, by simp, ?_, ?_⟩
  · exact List.drop_left.symm
  · intro m hm
    constructor
    · intro hpath
      rcases Nat.le_total m (Lexer.bytesOf l.tokens).length with hle | hle
      · exact entered_once hle (by simp) hpath htake
      · exact (entered_once hle hm htake hpath).symm
    · rintro rfl
      exact htake

/-- After a read that ends inside the target. -/
theorem stages_in_step_target :
    let es := [.browserRead (some ⟨ascii "GET ht", by decide, by decide⟩)]
    let w := follow step fresh es
    w.conn.parser_ ∈ statesOf w.conn.clientRequestState_ ∧
      ConsumedSince (firstState w.conn.clientRequestState_) w.conn.parser_
        (consumedAlong fresh es) w.conn.partialParsed_ :=
  stages_in_step blank blank 0 0 _ _ (run_follow (by decide +kernel)) (by decide +kernel)

end HttpConnection

end TwoProxy
