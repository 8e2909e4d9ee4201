/-
# `ResponseParser` in pieces

As with `RequestParser` a call may be cut anywhere, but here the beginning of the range moves:
`++start` on leading whitespace, and `start = current` at the `H`.  What carries the law about
ranges is that in `HttpResponseBegin` the two iterators are together (`trims`), so that the
range of a call is what it consumed without the leading whitespace, wherever the cuts are.

`ParseUntil_viable` is the other half of what a caller relies on: no state is a dead end, so
a refused text is beyond repair and an undecided one is worth waiting for.
-/
import TwoProxy.Lib.Grammar
import TwoProxy.Lib.Range
import TwoProxy.ResponseParser

namespace TwoProxy

namespace ResponseParser

open Scan StateType

/-! ## 1. The range of a call -/

/-- `ParseUntil` over a byte string that fills its memory. -/
def ParseOver (stopState : StateType) (s : Bytes) (internalState_ : StateType) :
    Option (Parsed StateType) :=
  ParseUntil stopState s (0, s.length) internalState_

/-- A space, CR or LF: what is skipped before the status line. -/
def isLeading (c : Byte) : Bool := c == ch ' ' || c == CR || c == LF

theorem isLeading_iff {c : Byte} : isLeading c = true ↔ c = ch ' ' ∨ c = CR ∨ c = LF := by
  simp [isLeading, or_assoc]

theorem moveStart_equivariant : Equivariant moveStart := by
  intro s c n start current
  cases s <;> simp only [moveStart]
  split
  · rw [Nat.add_assoc]
  · split <;> rfl

/-- Nothing outside its range matters to a call. -/
theorem ParseUntil_eq_ParseOver (stopState s : StateType) {memory : Bytes} {first second : Nat}
    (h : first ≤ second) (hs : second ≤ memory.length) :
    ParseUntil stopState memory (first, second) s =
      (ParseOver stopState (memory.extract first second) s).map (Parsed.shift first) :=
  parseRange_frame moveStart_equivariant h hs

/-- `HttpResponseBegin` is left for good with the first byte that is no leading whitespace,
and the range begins there. -/
theorem trims : Trims next moveStart HttpResponseBegin isLeading where
  skip c h := by simp only [next, if_pos (isLeading_iff.mp h)]
  skip_start c start current h := by simp only [moveStart, if_pos (isLeading_iff.mp h)]
  leave c t h hn := by
    have hc : ¬ (c = ch ' ' ∨ c = CR ∨ c = LF) := fun e => by
      rw [isLeading_iff.mpr e] at h
      cases h
    simp only [next, if_neg hc] at hn
    split at hn
    · rintro rfl
      cases hn
    · cases hn
  leave_start c t start current h hn := by
    have hc : ¬ (c = ch ' ' ∨ c = CR ∨ c = LF) := fun e => by
      rw [isLeading_iff.mpr e] at h
      cases h
    simp only [next, if_neg hc] at hn
    split at hn
    · rename_i hH
      simp only [moveStart, if_neg hc, if_pos hH]
    · cases hn
  fixed :=
    { stays := by
        rintro s c t hs hn rfl
        cases s <;> simp only [next] at hn <;> (repeat' split at hn) <;> simp_all
      start := by
        intro s c start current hs
        cases s
        case HttpResponseBegin => exact absurd rfl hs
        all_goals rfl }

/-- The bytes of a range, out of the bytes consumed from a state. -/
abbrev matched (s : StateType) (consumed : Bytes) : Bytes :=
  trimmed HttpResponseBegin isLeading s consumed

/-- **What a call returns**: the scan, and the bytes it consumed without the leading
whitespace. -/
theorem ParseOver_spec (stopState : StateType) (xs : Bytes) (s : StateType) :
    ∃ r, ParseOver stopState xs s = some r ∧
      r.verdict = (scan next stopState s xs).verdict ∧
      r.state = (scan next stopState s xs).state ∧
      r.second = (scan next stopState s xs).used ∧
      r.range xs = matched s (xs.take (scan next stopState s xs).used) :=
  trims.parseRange stopState s xs

/-! ## 2. Pieces -/

/-- Hand a text over in pieces, for as long as no call has decided: each piece with what its
call returned. -/
def ParsePieces (stopState : StateType) :
    List Bytes → StateType → Option (List (Bytes × Parsed StateType))
  | [], _ => some []
  | a :: as, s =>
    (ParseOver stopState a s).bind fun r =>
      if r.verdict = .Indeterminate then
        (ParsePieces stopState as r.state).map ((a, r) :: ·)
      else some [(a, r)]

/-- What the calls consumed, put together. -/
def consumedOf (calls : List (Bytes × Parsed StateType)) : Bytes :=
  calls.flatMap fun call => call.1.take call.2.second

/-- Their ranges, put together. -/
def rangesOf (calls : List (Bytes × Parsed StateType)) : Bytes :=
  calls.flatMap fun call => call.2.range call.1

theorem take_used_of_indeterminate {q s : StateType} {xs : Bytes} (hs : s ≠ q)
    (h : (scan next q s xs).verdict = .Indeterminate) :
    xs.take (scan next q s xs).used = xs := by
  rw [(scan_of_indeterminate hs h).2, List.take_length]

/-- **The ranges of the pieces**, by induction on the pieces that are left. -/
theorem ParsePieces_ranges (q : StateType) (pieces : List Bytes) :
    ∀ s : StateType, ∃ calls, ParsePieces q pieces s = some calls ∧
      rangesOf calls = matched s (consumedOf calls) := by
  induction pieces with
  | nil =>
    intro s
    exact ⟨[], rfl, by simp [rangesOf, consumedOf, matched, trimmed]⟩
  | cons a as ih =>
    intro s
    obtain ⟨r, hr, hv, hst, hu, hrange⟩ := ParseOver_spec q a s
    rw [ParsePieces, hr, Option.bind_some]
    by_cases hind : r.verdict = .Indeterminate
    · obtain ⟨calls, hcalls, heq⟩ := ih r.state
      refine ⟨(a, r) :: calls, by rw [if_pos hind, hcalls]; rfl, ?_⟩
      have hcons : consumedOf ((a, r) :: calls) =
          a.take (scan next q s a).used ++ consumedOf calls := by
        rw [← hu]
        rfl
      have hran : rangesOf ((a, r) :: calls) = r.range a ++ rangesOf calls := rfl
      rw [hran, hcons, heq, hrange]
      by_cases hs : s = q
      · subst hs
        rw [hst, scan_stop]
        simp [trimmed]
      · rw [hv] at hind
        rw [take_used_of_indeterminate hs hind, hst]
        exact (trims.trimmed_append hs hind _).symm
    · refine ⟨[(a, r)], by rw [if_neg hind], ?_⟩
      rw [← hu] at hrange
      simpa [rangesOf, consumedOf] using hrange

/-- **`ResponseParser` is incremental, and so is its trimming.**  A decided call is not changed
by what follows; an undecided one is continued, and the range of the whole is made of the
ranges of the parts.  And from `HttpResponseBegin`, however the text is cut, the ranges are
the bytes consumed without the leading spaces, CRs and LFs. -/
theorem ParseUntil_trims_incrementally :
    (∀ (p q : StateType) (a b : Bytes), ∃ ra rab,
      ParseOver q a p = some ra ∧ ParseOver q (a ++ b) p = some rab ∧
        (ra.verdict ≠ .Indeterminate → rab = ra) ∧
        (ra.verdict = .Indeterminate → ∃ rb, ParseOver q b ra.state = some rb ∧
          rab.verdict = rb.verdict ∧ rab.state = rb.state ∧
          rab.range (a ++ b) = ra.range a ++ rb.range b)) ∧
    (∀ (q : StateType) (pieces : List Bytes), ∃ calls,
      ParsePieces q pieces HttpResponseBegin = some calls ∧
        rangesOf calls = (consumedOf calls).dropWhile isLeading) := by
  refine ⟨fun p q a b => ?_, fun q pieces => ?_⟩
  · obtain ⟨ra, hra, hva, hsa, hua, hrange⟩ := ParseOver_spec q a p
    obtain ⟨rab, hrab, hvab, hsab, huab, hrange'⟩ := ParseOver_spec q (a ++ b) p
    refine ⟨ra, rab, hra, hrab, fun hv => ?_, fun hv => ?_⟩
    · have := parseRange_append_of_decided hra hv b
      exact Option.some.inj (hrab.symm.trans this)
    · obtain ⟨rb, hrb, hvb, hsb, hub, hrangeb⟩ := ParseOver_spec q b ra.state
      rw [hva] at hv
      rw [scan_append_of_indeterminate b hv] at hvab hsab hrange'
      refine ⟨rb, hrb, by rw [hvab, hvb, hsa]; rfl, by rw [hsab, hsb, hsa]; rfl, ?_⟩
      rw [hrange', hrange, hrangeb, hsa, Outcome.shift_used]
      by_cases hp : p = q
      · subst hp
        simp [trimmed]
      · have hall := (scan_of_indeterminate hp hv).2
        rw [take_used_of_indeterminate hp hv, hall, List.take_length_add_append]
        exact trims.trimmed_append hp hv _
  · obtain ⟨calls, hcalls, heq⟩ := ParsePieces_ranges q pieces HttpResponseBegin
    exact ⟨calls, hcalls, by rw [heq, matched, trimmed, if_pos rfl]⟩

/-! ## 3. No dead ends -/

/-- A word that completes the head from a state. -/
def completion : StateType → Bytes
  | HttpResponseBegin => ascii "HTTP/1.1 200 O" ++ [CR, LF, CR, LF]
  | HttpVersionH => ascii "TTP/1.1 200 O" ++ [CR, LF, CR, LF]
  | HttpVersionT1 => ascii "TP/1.1 200 O" ++ [CR, LF, CR, LF]
  | HttpVersionT2 => ascii "P/1.1 200 O" ++ [CR, LF, CR, LF]
  | HttpVersionP => ascii "/1.1 200 O" ++ [CR, LF, CR, LF]
  | HttpVersionSlash => ascii "1.1 200 O" ++ [CR, LF, CR, LF]
  | HttpVersionD1 => ascii ".1 200 O" ++ [CR, LF, CR, LF]
  | HttpVersionDot => ascii "1 200 O" ++ [CR, LF, CR, LF]
  | HttpVersionD2 => ascii " 200 O" ++ [CR, LF, CR, LF]
  | HttpVersionDone => ascii "200 O" ++ [CR, LF, CR, LF]
  | HttpStatusDigit => ascii " O" ++ [CR, LF, CR, LF]
  | HttpStatusDone => ascii "O" ++ [CR, LF, CR, LF]
  | HttpStatusMessageChar => [CR, LF, CR, LF]
  | HttpStatusMessageCr => [LF, CR, LF]
  | HttpStatusMessageDone => [CR, LF]
  | HttpHeaderNameChar => ascii ":x" ++ [CR, LF, CR, LF]
  | HttpHeaderColon => ascii "x" ++ [CR, LF, CR, LF]
  | HttpHeaderValueChar => [CR, LF, CR, LF]
  | HttpHeaderCr => [LF, CR, LF]
  | HttpHeaderLineDone => [CR, LF]
  | HttpHeadersEndCr => [LF]
  | HttpHeadersDone => []

/-- No state is a dead end. -/
theorem completable : Completable next HttpHeadersDone := by
  refine completable_of_scan completion fun s hs => ?_
  revert hs
  cases s <;> decide

/-- **`ResponseParser` never waits on a hopeless text and never refuses a viable one.** -/
theorem ParseUntil_viable (s : Bytes) :
    ∃ r, ParseOver HttpHeadersDone s HttpResponseBegin = some r ∧
      (r.verdict = .ParsedFailed ↔
        ¬ ∃ t r', ParseOver HttpHeadersDone (s ++ t) HttpResponseBegin = some r' ∧
          r'.verdict = .ParsedOK) ∧
      (r.verdict = .Indeterminate ↔
        r.state ≠ HttpHeadersDone ∧
          ∃ t, t ≠ [] ∧ ∃ r', ParseOver HttpHeadersDone (s ++ t) HttpResponseBegin = some r' ∧
            r'.verdict = .ParsedOK) := by
  have hne : HttpResponseBegin ≠ HttpHeadersDone := by decide
  have hcall : ∀ t, (∃ r', ParseOver HttpHeadersDone (s ++ t) HttpResponseBegin = some r' ∧
      r'.verdict = .ParsedOK) ↔
        (scan next HttpHeadersDone HttpResponseBegin (s ++ t)).verdict = .ParsedOK := by
    intro t
    obtain ⟨r', hr', hv', -⟩ := ParseOver_spec HttpHeadersDone (s ++ t) HttpResponseBegin
    simp only [hr', Option.some.injEq, exists_eq_left', hv']
  obtain ⟨r, hr, hv, hst, -⟩ := ParseOver_spec HttpHeadersDone s HttpResponseBegin
  refine ⟨r, hr, ?_, ?_⟩
  · rw [hv, scan_failed_iff completable hne]
    simp only [hcall, not_exists, Ne]
  · rw [hv, hst]
    simp only [hcall]
    constructor
    · intro h
      obtain ⟨hstate, -⟩ := scan_of_indeterminate hne h
      obtain ⟨t, ht⟩ := exists_append_mem_accepted completable hne h
      have hok := (scan_ok_iff_exists hne).mpr ⟨_, List.prefix_refl _, ht⟩
      refine ⟨hstate, t, ?_, hok⟩
      rintro rfl
      rw [List.append_nil, h] at hok
      cases hok
    · rintro ⟨hstate, t, -, hok⟩
      cases hver : (scan next HttpHeadersDone HttpResponseBegin s).verdict with
      | Indeterminate => rfl
      | ParsedOK => exact absurd (scan_state_of_ok hver) hstate
      | ParsedFailed => exact absurd hok ((scan_failed_iff completable hne).mp hver t)

end ResponseParser

end TwoProxy
