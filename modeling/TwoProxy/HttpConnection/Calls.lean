/-
# The calls to `ParseUntil`

`HandleBrowserReadHeaders` calls the request parser once for each `case` it goes through, on
the range from `newStart_` to the end of the read.  It returns these calls next to the world it
leaves behind, and they are looked at here.

`newStart_` outlives the read it points into.  It is left at the end of a token when the token
ends exactly where the read ends, and the range of the next call begins there, however short
the next read is.  So the ranges are those of received bytes in exactly the runs in which such a
read is followed by one that is no shorter (`ranges_valid_iff`).
-/
import TwoProxy.HttpConnection.Cuts
import TwoProxy.HttpConnection.Lifetime

namespace TwoProxy

namespace HttpConnection

open RequestParser (lexer)
open RequestParser.StateType
open Lexer (Lexing Progress)
open Transition

/-! ## 1. The calls of a handler -/

/-- The bytes that a call consumes, which run to the end of the memory if it does not return. -/
def ParseCall.consumed (call : ParseCall) : Bytes :=
  match call.result with
  | none => call.memory.drop call.range.1
  | some resultRange => call.memory.extract resultRange.first resultRange.second

/-- The calls that the handler of an event makes. -/
def callsOf (w : World) : Event → List ParseCall
  | .browserRead (some data) =>
    (HandleBrowserReadHeaders false data.bytes.length
      { w with conn := received w.conn data }).2
  | .browserRead none => (HandleBrowserReadHeaders true 0 w).2
  | _ => []

/-! ## 2. The calls of one read -/

/-- What the calls of a read of `len` bytes are: the first is on the range from `newStart_`, all
of them end at `len`, and with the iterators in order none of them begins behind its end, and
together they consume the bytes of the read if it does not decide the head. -/
structure CallsSpec (len : Nat) (w : World) (l : RequestLexing) (calls : List ParseCall) :
    Prop where
  first : ∃ call ∈ calls, call.range = (w.conn.newStart_, len)
  inOrder : w.conn.newStart_ ≤ len → ∀ call ∈ calls, call.range.1 ≤ call.range.2 ∧
    call.range.2 = len ∧ call.consumed <+: w.conn.memory.extract call.range.1 len
  consumed : w.conn.newStart_ ≤ len → ∀ l', lexer.feed l (reachable w.conn len) = .reading l' →
    calls.flatMap ParseCall.consumed = reachable w.conn len

/-- What `CallsSpec` says of a `case`. -/
def CaseCalls (stage : ClientRequestState) (f : Nat → World → List ParseCall) : Prop :=
  ∀ (len : Nat) (w : World) (l : RequestLexing),
    InStep stage w.conn l → w.conn.newStart_ ≤ w.conn.memory.length →
      len ≤ w.conn.memory.length → CallsSpec len w l (f len w)

/-- With the iterators in order, a call stays inside its range. -/
theorem parseCall_prefix (stop : RequestParser.StateType) {c : HttpConnection} {len : Nat}
    (hle : c.newStart_ ≤ len) (hlen : len ≤ c.memory.length) :
    (parseCall stop len c).consumed <+: c.memory.extract c.newStart_ len := by
  rcases RequestParser.ParseUntil_cases stop c.parser_ (hle.trans hlen) hlen with
    ⟨-, hlt, -⟩ | ⟨r, hr, hp, -⟩
  · omega
  · have hused : r.used ≤ (reachable c len).length := hr ▸ Scan.scan_used_le _ _
    rw [ParseCall.consumed, parseCall_result, hp]
    change c.memory.extract c.newStart_ (c.newStart_ + r.used) <+: _
    rw [reachable_used hused, ← Scan.available_of_le hle]
    exact List.take_prefix _ _

/-- A single call, when the `case` makes no other. -/
theorem CallsSpec.single {len : Nat} {w : World} {l : RequestLexing}
    {stop : RequestParser.StateType} (hlen : len ≤ w.conn.memory.length)
    (h : w.conn.newStart_ ≤ len → ∀ l', lexer.feed l (reachable w.conn len) = .reading l' →
      (parseCall stop len w.conn).consumed = reachable w.conn len) :
    CallsSpec len w l [parseCall stop len w.conn] where
  first := ⟨_, List.mem_singleton_self _, rfl⟩
  inOrder hle call hcall := by
    obtain rfl := List.mem_singleton.mp hcall
    exact ⟨hle, rfl, parseCall_prefix stop hle hlen⟩
  consumed hle l' hf := by simpa using h hle l' hf

theorem parseCall_consumed {stop state : RequestParser.StateType} {c : HttpConnection}
    {len first second : Nat} {verdict : Scan.Verdict}
    (h : (parseCall stop len c).result = some ⟨verdict, state, first, second⟩) :
    (parseCall stop len c).consumed = c.memory.extract first second := by
  rw [ParseCall.consumed, h]
  rfl

/-- `case Headers` makes one call, whatever comes of it. -/
theorem caseHeaders_snd (len : Nat) (w : World) :
    (caseHeaders len w).2 = [parseCall HeadersDone len w.conn] := by
  rw [caseHeaders]
  dsimp only
  cases (parseCall HeadersDone len w.conn).result with
  | none => rfl
  | some resultRange =>
    obtain ⟨verdict, state, first, second⟩ := resultRange
    cases verdict <;> rfl

theorem caseHeaders_calls : CaseCalls .Headers fun len w => (caseHeaders len w).2 := by
  intro len w l hin hstart hlen
  dsimp only
  rw [caseHeaders_snd]
  refine CallsSpec.single hlen fun hle l' hf => ?_
  have hcall := call_spec hin hstart hlen
  rw [stopOf] at hcall
  cases hparse : (parseCall HeadersDone len w.conn).result with
  | none =>
    rw [hparse] at hcall
    cases hcall with
    | leaves l' inverted feed => omega
  | some resultRange =>
    rw [hparse] at hcall
    cases hcall with
    | failed t second feed => rw [hf] at feed; cases feed
    | ok n used le token accepts uses =>
      rw [stopOf] at accepts
      rw [(RequestParser.stage_before HeadersDone).feed_final _ hin.before accepts] at hf
      cases hf
    | indeterminate t second inOrder token before cut feed =>
      rw [parseCall_consumed hparse]
      rw [hin.part] at token
      exact List.append_cancel_left token

/-- **A `case` that falls through**, given the calls of the `case` below it. -/
theorem tokenCase_calls {stage nextStage : ClientRequestState} {line : ErrorLine}
    {store : Bytes → BasicMessage → BasicMessage}
    {fallThrough : Nat → World → World × List ParseCall}
    (hcut : lexer.cut (stopOf stage) = true) (hfin : stopOf stage ≠ HeadersDone)
    (hnext : RequestParser.Before (stopOf nextStage) (stopOf stage))
    (hstore : ∀ m token tokens, Stored m stage tokens →
      Stored (store token m) nextStage (tokens ++ [(stopOf stage, token)]))
    (hfall : CaseCalls nextStage fun len w => (fallThrough len w).2) :
    CaseCalls stage fun len w =>
      (tokenCase (stopOf stage) stage nextStage line store fallThrough len w).2 := by
  intro len w l hin hstart hlen
  have hcall := call_spec hin hstart hlen
  unfold tokenCase
  dsimp only
  cases hparse : (parseCall (stopOf stage) len w.conn).result with
  | none =>
    rw [hparse] at hcall
    cases hcall with
    | leaves l' inverted feed => exact CallsSpec.single hlen fun hle => by omega
  | some resultRange =>
    rw [hparse] at hcall
    cases hcall with
    | failed t second feed =>
      exact CallsSpec.single hlen fun _ l' hf => by rw [hf] at feed; cases feed
    | indeterminate t second inOrder token before cut feed =>
      refine CallsSpec.single hlen fun _ l' hf => ?_
      rw [parseCall_consumed hparse]
      rw [hin.part] at token
      exact List.append_cancel_left token
    | ok n used le token accepts uses =>
      have hS := RequestParser.stage_before (stopOf stage)
      have hfeed := hS.feed_cut hcut hfin _ hin.before accepts
      rw [uses] at hfeed
      have htake : (parseCall (stopOf stage) len w.conn).consumed
          = (reachable w.conn len).take n := by
        rw [parseCall_consumed hparse]
        exact reachable_used le
      dsimp only
      by_cases hend : w.conn.newStart_ + n = len
      · rw [if_pos hend]
        refine CallsSpec.single hlen fun hle l' hf => ?_
        have hlength := reachable_length hle hlen
        rw [htake, List.take_of_length_le (by omega)]
      · rw [if_neg hend]
        rw [← token] at hfeed
        have hin' := hin.tokenStored hnext hstore (w.conn.partialParsed_ ++
          w.conn.memory.extract w.conn.newStart_ (w.conn.newStart_ + n)) n
        set c := tokenStored (stopOf stage) store (w.conn.partialParsed_ ++
          w.conn.memory.extract w.conn.newStart_ (w.conn.newStart_ + n)) n w.conn
        have honly : RequestOnly w.conn c := tokenStored_only _ _ _ _ _
        obtain ⟨hrest, hbound, horder⟩ := reachable_advance honly.memory rfl le hstart hlen
        have hbelow := hfall len { w with conn := c } _ hin' hbound
          (by rw [honly.memory]; exact hlen)
        exact
          { first := ⟨_, List.mem_cons_self, rfl⟩
            inOrder := by
              intro hle call hmem
              rcases List.mem_cons.mp hmem with rfl | hmem
              · exact ⟨hle, rfl, parseCall_prefix _ hle hlen⟩
              · rw [← honly.memory]
                exact hbelow.inOrder (horder.mp hle) call hmem
            consumed := by
              intro hle l' hf
              rw [hfeed, ← hrest] at hf
              have hconsumed := hbelow.consumed (horder.mp hle) l' hf
              rw [List.flatMap_cons, htake]
              refine (congrArg (List.take n (reachable w.conn len) ++ ·) hconsumed).trans ?_
              change List.take n (reachable w.conn len) ++ reachable c len = _
              rw [hrest, List.take_append_drop] }

theorem caseVersion_calls : CaseCalls .Version fun len w => (caseVersion len w).2 := by
  refine tokenCase_calls (by decide) (by decide) (by decide) ?_ caseHeaders_calls
  rintro m token _ rfl
  exact ⟨token, rfl⟩

theorem caseUri_calls : CaseCalls .Uri fun len w => (caseUri len w).2 := by
  refine tokenCase_calls (by decide) (by decide) (by decide) ?_ caseVersion_calls
  rintro m token _ rfl
  rfl

theorem caseMethod_calls : CaseCalls .Method fun len w => (caseMethod len w).2 := by
  refine tokenCase_calls (by decide) (by decide) (by decide) ?_ caseUri_calls
  rintro m token _ rfl
  rfl

/-- **The calls of a read**, whatever `case` it enters. -/
theorem Reading.calls {w : World} {l : RequestLexing} (h : Reading w l) (data : Chunk) :
    CallsSpec data.bytes.length { w with conn := received w.conn data } l
      (callsOf w (.browserRead (some data))) := by
  have hgo : (!false && !IsStopped { w with conn := received w.conn data }) = true := by
    simp [IsStopped, received, h.running.isShuttingDown]
  have hin : InStep w.conn.clientRequestState_ (received w.conn data) l :=
    ⟨h.inStep.state, h.inStep.part, h.inStep.before, h.inStep.stored⟩
  have hstart : (received w.conn data).newStart_ ≤ (received w.conn data).memory.length := by
    rw [memory_length]
    exact h.newStart.trans (by decide)
  have hlen : data.bytes.length ≤ (received w.conn data).memory.length := by
    rw [memory_length]
    exact data.le.trans (by decide)
  have hcase : (received w.conn data).clientRequestState_ = w.conn.clientRequestState_ := rfl
  rw [callsOf, HandleBrowserReadHeaders, if_pos hgo]
  dsimp only
  rw [hcase]
  cases hs : w.conn.clientRequestState_ with
  | Method => exact caseMethod_calls _ _ l (hs ▸ hin) hstart hlen
  | Uri => exact caseUri_calls _ _ l (hs ▸ hin) hstart hlen
  | Version => exact caseVersion_calls _ _ l (hs ▸ hin) hstart hlen
  | Headers => exact caseHeaders_calls _ _ l (hs ▸ hin) hstart hlen

/-! ## 3. Ranges inside the read -/

/-- Every call of the handler is on a range of the read, from `newStart_` to its end, and
consumes bytes of that range. -/
def RangesValid (w : World) : Event → Prop
  | .browserRead (some data) => ∀ call ∈ callsOf w (.browserRead (some data)),
    call.range.1 ≤ call.range.2 ∧ call.range.2 = data.bytes.length ∧
      call.consumed <+: data.bytes.drop call.range.1
  | _ => True

/-- **One read.**  Its ranges are valid exactly if it is no shorter than `newStart_` is. -/
theorem Reading.rangesValid_iff {w : World} {l : RequestLexing} (h : Reading w l)
    (data : Chunk) :
    RangesValid w (.browserRead (some data)) ↔ w.conn.newStart_ ≤ data.bytes.length := by
  have hcalls := h.calls data
  constructor
  · intro hvalid
    obtain ⟨call, hmem, hrange⟩ := hcalls.first
    obtain ⟨h1, h2, -⟩ := hvalid call hmem
    rw [hrange] at h1
    exact h1
  · intro hle call hmem
    obtain ⟨h1, h2, h3⟩ := hcalls.inOrder hle call hmem
    refine ⟨h1, h2, ?_⟩
    -- the range lies in the part of the memory that the read has filled
    have hextract : (received w.conn data).memory.extract call.range.1 data.bytes.length
        = data.bytes.drop call.range.1 :=
      parsed_of_le (c := { w.conn with newStart_ := call.range.1 }) (h2 ▸ h1) ▸
        (Scan.available_of_le (h2 ▸ h1)).symm
    rw [← hextract]
    exact h3

/-- The browser reads among the events. -/
def browserReads (es : List Event) : List Chunk :=
  es.filterMap fun
    | .browserRead (some c) => some c
    | _ => none

/-- The connection no longer reads the head. -/
def PastHead (w : World) : Prop := (∃ hd, Serving hd w) ∨ w.pending = []

/-- Past the head, no browser read completes. -/
theorem PastHead.kept {w w' : World} {e : Event} (h : PastHead w) (hs : step w e = some w') :
    PastHead w' ∧ ∀ r, e ≠ .browserRead r := by
  rcases h with ⟨hd, h⟩ | hp
  · refine ⟨(h.kept_or_ended hs).imp_left fun hserv => ⟨hd, hserv⟩, ?_⟩
    rintro r rfl
    exact h.browserRead_notMem (step_handle hs).1
  · exact absurd hs (step_ne_some hp)

/-- Past the head, a run calls the parser no more. -/
theorem PastHead.run {w u : World} {es : List Event} (hrun : Run step w es u) (h : PastHead w) :
    PastHead u ∧ browserReads es = [] ∧ EveryStep step RangesValid w es := by
  induction hrun with
  | nil => exact ⟨h, rfl, everyStep_nil⟩
  | @cons s t u e es hs _ ih =>
    obtain ⟨ht, hne⟩ := h.kept hs
    obtain ⟨hu, hreads, hvalid⟩ := ih ht
    refine ⟨hu, ?_, (everyStep_cons hs).mpr ⟨?_, hvalid⟩⟩
    · cases e with
      | browserRead r => exact absurd rfl (hne r)
      | _ => exact hreads
    · cases e with
      | browserRead r => exact absurd rfl (hne r)
      | _ => trivial

theorem PastHead.not_pending {w : World} (h : PastHead w) : .browserRead ∉ w.pending := by
  rcases h with ⟨hd, h⟩ | hp
  · exact h.browserRead_notMem
  · simp [hp]

/-- A read that does not go on reading is the last. -/
theorem ReadTurn.pastHead {w w' : World} {l : RequestLexing} {data : Chunk}
    (h : ReadTurn w l data w') :
    PastHead w' ∨ ∃ l', lexer.feed l (parsed w.conn data) = .reading l' ∧ Reading w' l' ∧
      w.conn.newStart_ ≤ data.bytes.length ∧ w'.conn.newStart_ =
        if parsed w.conn data ≠ [] ∧ lexer.cut l'.state = true then data.bytes.length else 0 := by
  cases h with
  | refused line feed hst => exact Or.inl (Or.inr hst.pending)
  | rejected hd tokens rest feed isHead uri hst => exact Or.inl (Or.inr hst.pending)
  | connects hd tokens rest feed isHead uri hserv => exact Or.inl (Or.inl ⟨hd, hserv⟩)
  | overruns l' feed inverted hst => exact Or.inl (Or.inr hst.pending)
  | continues l' feed inOrder hread newStart =>
    exact Or.inr ⟨l', feed, hread, inOrder, newStart⟩

/-- **Cuts are covered.**  `n` is the length of the read before if that read ended exactly where
the method, the target or the version ended, and 0 otherwise.  The next read is no shorter, its
bytes from `n` on are the ones that are parsed, and so on for the reads after it, for as long as
the head goes on. -/
def CutsCovered : RequestLexing → Nat → List Chunk → Prop
  | _, _, [] => True
  | l, n, data :: reads => n ≤ data.bytes.length ∧
    ∀ l', lexer.feed l (data.bytes.drop n) = .reading l' →
      CutsCovered l'
        (if data.bytes.drop n ≠ [] ∧ lexer.cut l'.state = true then data.bytes.length else 0)
        reads

theorem Reading.rangesValid_run {s u : World} {es : List Event} (hrun : Run step s es u) :
    ∀ {l : RequestLexing}, Reading s l →
      (EveryStep step RangesValid s es ↔ CutsCovered l s.conn.newStart_ (browserReads es)) := by
  induction hrun with
  | nil s => exact fun _ => iff_of_true everyStep_nil trivial
  | @cons s t u e es hs hrun ih =>
    intro l h
    rw [everyStep_cons hs]
    rcases reading_step h hs with ⟨rfl, hc, -⟩ | ⟨data, rfl, hturn⟩
    · obtain ⟨-, hreads, hvalid⟩ := PastHead.run hrun (Or.inr hc.pending)
      refine iff_of_true ⟨trivial, hvalid⟩ ?_
      change CutsCovered l s.conn.newStart_ (browserReads es)
      rw [hreads]
      trivial
    · change _ ↔ CutsCovered l s.conn.newStart_ (data :: browserReads es)
      rw [CutsCovered, h.rangesValid_iff]
      refine and_congr_right fun hle => ?_
      rw [← parsed_of_le hle]
      rcases hturn.pastHead with hpast | ⟨l', hfeed, hread, -, hstart⟩
      · obtain ⟨-, hreads, hvalid⟩ := PastHead.run hrun hpast
        refine iff_of_true hvalid fun l' _ => ?_
        rw [hreads]
        trivial
      · rw [ih hread, hstart, hfeed]
        constructor
        · rintro hcovered _ heq
          obtain rfl := Progress.reading.inj heq
          exact hcovered
        · exact fun hcovered => hcovered l' rfl

/-- **When the parser is given received bytes only.**  In every run, each range handed to
`ParseUntil` begins in the buffer, not behind its end, and ends with the read, exactly if every
read that follows a cut at the end of a token covers it. -/
theorem ranges_valid_iff (bbuffer sbuffer : Buffer) (newStart_ newServerReadStart_ : Nat)
    (es : List Event) (w : World)
    (h : Run step (started bbuffer sbuffer newStart_ newServerReadStart_) es w) :
    EveryStep step RangesValid (started bbuffer sbuffer newStart_ newServerReadStart_) es ↔
      CutsCovered (.start MethodStart) 0 (browserReads es) :=
  (started_reading _ _ _ _).rangesValid_run h

theorem ranges_valid_iff_absoluteForm :
    EveryStep step RangesValid fresh [.browserRead (some absoluteForm)] ↔
      CutsCovered (.start MethodStart) 0 [absoluteForm] :=
  ranges_valid_iff blank blank 0 0 [.browserRead (some absoluteForm)]
    (follow step fresh [.browserRead (some absoluteForm)]) (run_follow (by decide +kernel))

/-- A read that ends with the method, `GET `, and a read of one byte. -/
def cutThenOne : List Event := (twoReads.take 1 ++ [single (ch 'h')]).map delivery

/-- **The second read is parsed from its fourth byte on**, to its first. -/
theorem cutThenOne_inverted :
    possible step fresh cutThenOne = true ∧ ¬ EveryStep step RangesValid fresh cutThenOne := by
  refine ⟨by decide +kernel, fun h => ?_⟩
  have hrun : Run step fresh cutThenOne (follow step fresh cutThenOne) :=
    run_follow (by decide +kernel)
  have hcovered := ((started_reading blank blank 0 0).rangesValid_run hrun).mp h
  have hsecond := (hcovered.2 ⟨MethodDone, [(MethodDone, ascii "GET ")], []⟩ (by decide)).1
  exact absurd hsecond (by decide)

end HttpConnection

end TwoProxy
