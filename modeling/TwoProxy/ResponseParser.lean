/-
# `ResponseParser`: the response head, one byte at a time

The same loop as `RequestParser` around another `switch` (`HttpProtocol/ResponseParser.h`).
Two things differ.  Whitespace before the status line is skipped, and the start of the
returned range is moved along with it (`moveStart`); and `HttpHeadersDone` has no case of its
own, so it falls to `default` and refuses.
-/
import TwoProxy.Bytes
import TwoProxy.Lib.Scan

namespace TwoProxy

namespace ResponseParser

inductive StateType
  | HttpResponseBegin
  | HttpVersionH
  | HttpVersionT1
  | HttpVersionT2
  | HttpVersionP
  | HttpVersionSlash
  | HttpVersionD1
  | HttpVersionDot
  | HttpVersionD2
  | HttpVersionDone
  | HttpStatusDigit
  | HttpStatusDone
  | HttpStatusMessageChar
  | HttpStatusMessageCr
  | HttpStatusMessageDone
  | HttpHeaderNameChar
  | HttpHeaderColon
  | HttpHeaderValueChar
  | HttpHeaderCr
  | HttpHeaderLineDone
  | HttpHeadersEndCr
  | HttpHeadersDone
  deriving DecidableEq, Repr

open StateType

/-- The `switch` of `ParseUntil`: the next `internalState_`, or `none` for
`parsedOK = false`. -/
def next : StateType → Byte → Option StateType
  | HttpResponseBegin, c =>
    -- valid leading whitespace is skipped
    if c = ch ' ' ∨ c = CR ∨ c = LF then some HttpResponseBegin
    else if c = ch 'H' then some HttpVersionH
    else none
  | HttpVersionH, c => if c = ch 'T' then some HttpVersionT1 else none
  | HttpVersionT1, c => if c = ch 'T' then some HttpVersionT2 else none
  | HttpVersionT2, c => if c = ch 'P' then some HttpVersionP else none
  | HttpVersionP, c => if c = ch '/' then some HttpVersionSlash else none
  | HttpVersionSlash, c => if is_digit c then some HttpVersionD1 else none
  | HttpVersionD1, c => if c = ch '.' then some HttpVersionDot else none
  | HttpVersionDot, c => if is_digit c then some HttpVersionD2 else none
  | HttpVersionD2, c => if c = ch ' ' then some HttpVersionDone else none
  | HttpVersionDone, c => if is_digit c then some HttpStatusDigit else none
  | HttpStatusDigit, c =>
    if c = ch ' ' then some HttpStatusDone
    else if !is_digit c then none
    else some HttpStatusDigit
  | HttpStatusDone, c => if is_alnum c then some HttpStatusMessageChar else none
  | HttpStatusMessageChar, c =>
    if is_alnum c || is_punct c || c == ch ' ' then some HttpStatusMessageChar
    else if c = CR then some HttpStatusMessageCr
    else none
  | HttpStatusMessageCr, c => if c = LF then some HttpStatusMessageDone else none
  | HttpStatusMessageDone, c | HttpHeaderLineDone, c =>
    if is_alnum c then some HttpHeaderNameChar
    else if c = CR then some HttpHeadersEndCr
    else none
  | HttpHeaderNameChar, c =>
    if c = ch ':' then some HttpHeaderColon
    else if is_alnum c || is_space c || is_punct c then some HttpHeaderNameChar
    else none
  | HttpHeaderColon, c =>
    if is_space c then some HttpHeaderColon
    else if is_alnum c || is_punct c then some HttpHeaderValueChar
    else none
  | HttpHeaderValueChar, c =>
    if c = CR then some HttpHeaderCr
    else if is_cntrl c then none
    else some HttpHeaderValueChar
  | HttpHeaderCr, c => if c = LF then some HttpHeaderLineDone else none
  | HttpHeadersEndCr, c => if c = LF then some HttpHeadersDone else none
  | HttpHeadersDone, _ => none

/-- What the body of the loop does to `start`: `++start` on leading whitespace, and
`start = current` at the first byte of the status line. -/
def moveStart : StateType → Byte → Nat → Nat → Nat
  | HttpResponseBegin, c, start, current =>
    if c = ch ' ' ∨ c = CR ∨ c = LF then start + 1
    else if c = ch 'H' then current
    else start
  | _, _, start, _ => start

/-- `ParseUntil` on the range `[range.1, range.2)` of `memory`; `none` when the iterator is
dereferenced past the end of `memory`. -/
def ParseUntil (stopState : StateType) (memory : Bytes) (range : Nat × Nat)
    (internalState_ : StateType) : Option (Scan.Parsed StateType) :=
  Scan.parseRange next moveStart stopState memory range.1 range.2 internalState_

/-- A call with its iterators in order is the scan of the range. -/
theorem ParseUntil_of_le (stopState s : StateType) {memory : Bytes} {first second : Nat}
    (h : first ≤ second) (hs : second ≤ memory.length) :
    ∃ start, ParseUntil stopState memory (first, second) s =
      some ⟨(Scan.scan next stopState s (memory.extract first second)).verdict,
        (Scan.scan next stopState s (memory.extract first second)).state, start,
        first + (Scan.scan next stopState s (memory.extract first second)).used⟩ := by
  have hnone : ParseUntil stopState memory (first, second) s = none ↔
      s ≠ stopState ∧ second < first ∧
        (Scan.scan next stopState s (Scan.available memory first second)).verdict
          = .Indeterminate := Scan.parseRange_eq_none_iff (Nat.le_trans h hs) hs
  cases hp : ParseUntil stopState memory (first, second) s with
  | none =>
    have := (hnone.mp hp).2.1
    omega
  | some p =>
    obtain ⟨h1, h2, h3⟩ := Scan.parseRange_eq_some hp
    rw [Scan.available_of_le h] at h1 h2 h3
    refine ⟨p.first, ?_⟩
    rw [← h1, ← h2, ← h3]

end ResponseParser

end TwoProxy
