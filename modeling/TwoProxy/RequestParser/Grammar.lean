/-
# The language of `RequestParser`

`requestHead` is the request head as a grammar would write it.  The 22 states of the `switch`
give one equation each for the words that lead from them to `HeadersDone`, and the equations
of the three loops (target, header value and header lines) are closed by Arden's lemma, so
that the words accepted from `MethodStart` come out as `requestHead` (`accepted_MethodStart`).

The three verdicts of a call are then questions about that language
(`ParseUntil_decides_requestHead`): it accepts a head, and nothing more; it waits for a text
that can still become one; and it refuses only what no continuation can save.
-/
import TwoProxy.Lib.Grammar
import TwoProxy.Lib.Range
import TwoProxy.RequestParser

open scoped Computability

namespace TwoProxy

namespace RequestParser

open Grammar Scan StateType

/-! ## 1. A call on a byte string of its own -/

/-- `ParseUntil` over a byte string that fills its memory. -/
def ParseOver (stopState : StateType) (s : Bytes) (internalState_ : StateType) :
    Option (Parsed StateType) :=
  ParseUntil stopState s (0, s.length) internalState_

/-- Nothing outside its range matters to a call. -/
theorem ParseUntil_eq_ParseOver (stopState s : StateType) {memory : Bytes} {first second : Nat}
    (h : first ≤ second) (hs : second ≤ memory.length) :
    ParseUntil stopState memory (first, second) s =
      (ParseOver stopState (memory.extract first second) s).map (Parsed.shift first) :=
  parseRange_frame (fun _ _ _ _ _ => rfl) h hs

theorem ParseOver_eq (stopState : StateType) (xs : Bytes) (s : StateType) :
    ParseOver stopState xs s =
      some ⟨(scan next stopState s xs).verdict, (scan next stopState s xs).state, 0,
        (scan next stopState s xs).used⟩ :=
  parseRange_fixed (I := fun _ => True) ⟨fun _ _ _ _ _ => trivial, fun _ _ _ _ _ => rfl⟩
    trivial xs

/-! ## 2. The grammar -/

def crlf : Bytes := [CR, LF]

/-- A byte of the request target. -/
def targetByte (c : Byte) : Bool := !is_cntrl c && !is_space c

/-- A byte of a header name after the first. -/
def nameByte (c : Byte) : Bool := (is_alnum c || is_punct c) && c != ch ':'

/-- A byte of a header value. -/
def valueByte (c : Byte) : Bool := !is_cntrl c

/-- `Name: value CRLF` -/
def headerLine : Language Byte :=
  one is_alnum * many nameByte * word (ascii ": ") * many valueByte * word crlf

/-- `METHOD target HTTP/d.d CRLF`, the header lines, and an empty line. -/
def requestHead : Language Byte :=
  one is_upper * many is_upper * one is_space
    * (one targetByte * many targetByte) * word [SP]
    * word (ascii "HTTP/") * one is_digit * word [ch '.'] * one is_digit * word crlf
    * headerLine∗ * word crlf

theorem nil_notMem_headerLine : [] ∉ headerLine := by
  simp only [headerLine, mul_assoc]
  exact nil_notMem_one_mul

/-! ## 3. One equation for each state -/

/-- The words that lead from a state to `HeadersDone`. -/
abbrev residual (s : StateType) : Language Byte := accepted next HeadersDone s

theorem residual_HeadersCr : residual HeadersCr = word [LF] := by
  have h : residual HeadersCr = word [LF] * residual HeadersDone :=
    accepted_eq_word (by decide) fun _ => rfl
  rw [h, residual, accepted_stop, mul_one]

theorem residual_HeaderCr : residual HeaderCr = word [LF] * residual HeaderLineDone :=
  accepted_eq_word (by decide) fun _ => rfl

theorem residual_HeaderValue :
    residual HeaderValue = many valueByte * (word crlf * residual HeaderLineDone) := by
  have h : residual HeaderValue = many valueByte * (one (· == CR) * residual HeaderCr) := by
    refine accepted_eq_many (by decide) fun c u => ?_
    have hCR : is_cntrl CR = true := by decide
    simp only [next, valueByte]
    grind
  rw [h, ← word_eq_one, residual_HeaderCr, word_mul_word_mul]
  rfl

theorem residual_HeaderName :
    residual HeaderName = many nameByte *
      (word (ascii ": ") * (many valueByte * (word crlf * residual HeaderLineDone))) := by
  have h : residual HeaderName = many nameByte * (one (· == ch ':') * residual HeaderColon) := by
    refine accepted_eq_many (by decide) fun c u => ?_
    simp only [next, nameByte]
    grind
  have hcolon : residual HeaderColon = word [ch ' '] * residual HeaderValue :=
    accepted_eq_word (by decide) fun _ => rfl
  rw [h, ← word_eq_one, hcolon, word_mul_word_mul, residual_HeaderValue]
  rfl

/-- Both states between two lines of the head. -/
theorem residual_lineStart {s : StateType} (hs : s ≠ HeadersDone)
    (h : ∀ c u, next s c = some u ↔
      (is_alnum c = true ∧ u = HeaderName) ∨ ((c == CR) = true ∧ u = HeadersCr)) :
    residual s = headerLine * residual HeaderLineDone + word crlf := by
  have hadd : residual s =
      one is_alnum * residual HeaderName + one (· == CR) * residual HeadersCr :=
    accepted_eq_add hs h
  rw [hadd, residual_HeaderName, residual_HeadersCr, ← word_eq_one, word_mul_word]
  simp only [headerLine, mul_assoc]
  rfl

theorem residual_HeaderLineDone : residual HeaderLineDone = headerLine∗ * word crlf := by
  refine (Language.self_eq_mul_add_iff nil_notMem_headerLine).mp
    (residual_lineStart (by decide) fun c u => ?_)
  have hCR : is_alnum CR = false := by decide
  simp only [next]
  grind

theorem residual_VersionDone : residual VersionDone = headerLine∗ * word crlf := by
  have h : residual VersionDone = headerLine * residual HeaderLineDone + word crlf := by
    refine residual_lineStart (by decide) fun c u => ?_
    have hCR : is_alnum CR = false := by decide
    simp only [next]
    grind
  rw [h, residual_HeaderLineDone]
  exact ((Language.self_eq_mul_add_iff nil_notMem_headerLine).mpr rfl).symm

/-- `HTTP/d.d CRLF` and what follows it. -/
theorem residual_UriDone :
    residual UriDone = word (ascii "HTTP/") * (one is_digit * (word [ch '.'] *
      (one is_digit * (word crlf * residual VersionDone)))) := by
  have hH : residual UriDone = word [ch 'H'] * residual VersionH :=
    accepted_eq_word (by decide) fun _ => rfl
  have hT1 : residual VersionH = word [ch 'T'] * residual VersionT1 :=
    accepted_eq_word (by decide) fun _ => rfl
  have hT2 : residual VersionT1 = word [ch 'T'] * residual VersionT2 :=
    accepted_eq_word (by decide) fun _ => rfl
  have hP : residual VersionT2 = word [ch 'P'] * residual VersionP :=
    accepted_eq_word (by decide) fun _ => rfl
  have hSlash : residual VersionP = word [ch '/'] * residual VersionSlash :=
    accepted_eq_word (by decide) fun _ => rfl
  have hD1 : residual VersionSlash = one is_digit * residual VersionD1 :=
    accepted_eq_one (by decide) fun _ => rfl
  have hDot : residual VersionD1 = word [ch '.'] * residual VersionDot :=
    accepted_eq_word (by decide) fun _ => rfl
  have hD2 : residual VersionDot = one is_digit * residual VersionD2 :=
    accepted_eq_one (by decide) fun _ => rfl
  have hCr : residual VersionD2 = word [CR] * residual VersionCr :=
    accepted_eq_word (by decide) fun _ => rfl
  have hLf : residual VersionCr = word [LF] * residual VersionDone :=
    accepted_eq_word (by decide) fun _ => rfl
  rw [hH, hT1, hT2, hP, hSlash, hD1, hDot, hD2, hCr, hLf]
  simp only [word_mul_word_mul]
  rfl

theorem residual_MethodDone :
    residual MethodDone =
      one targetByte * (many targetByte * (word [SP] * residual UriDone)) := by
  have h : residual MethodDone = one targetByte * residual UriChar := by
    refine accepted_eq_one (by decide) fun c => ?_
    simp only [next, targetByte]
    grind
  have hchar : residual UriChar = many targetByte * (one (· == SP) * residual UriDone) := by
    refine accepted_eq_many (by decide) fun c u => ?_
    have hSP : is_cntrl SP = false ∧ is_space SP = true := by decide
    have hc : is_cntrl c = false → is_space c = true → c = SP := fun h1 h2 =>
      eq_SP_of_is_space h2 h1
    simp only [next, targetByte]
    grind
  rw [h, hchar, ← word_eq_one]

theorem residual_MethodStart :
    residual MethodStart =
      one is_upper * (many is_upper * (one is_space * residual MethodDone)) := by
  have h : residual MethodStart = one is_upper * residual MethodChar :=
    accepted_eq_one (by decide) fun _ => rfl
  have hchar : residual MethodChar = many is_upper * (one is_space * residual MethodDone) := by
    refine accepted_eq_many (by decide) fun c u => ?_
    have hc := is_upper_of_is_space (c := c)
    simp only [next]
    grind
  rw [h, hchar]

/-- **The words accepted from `MethodStart` are the request heads.** -/
theorem accepted_MethodStart : accepted next HeadersDone MethodStart = requestHead := by
  have h := residual_MethodStart
  rw [residual_MethodDone, residual_UriDone, residual_VersionDone] at h
  refine h.trans ?_
  simp only [requestHead, mul_assoc]

/-! ## 4. What a call decides -/

/-- A word that completes the head from a state. -/
def completion : StateType → Bytes
  | MethodStart => ascii "G / HTTP/1.1" ++ crlf ++ crlf
  | MethodChar => ascii " / HTTP/1.1" ++ crlf ++ crlf
  | MethodDone => ascii "/ HTTP/1.1" ++ crlf ++ crlf
  | UriChar => ascii " HTTP/1.1" ++ crlf ++ crlf
  | UriDone => ascii "HTTP/1.1" ++ crlf ++ crlf
  | VersionH => ascii "TTP/1.1" ++ crlf ++ crlf
  | VersionT1 => ascii "TP/1.1" ++ crlf ++ crlf
  | VersionT2 => ascii "P/1.1" ++ crlf ++ crlf
  | VersionP => ascii "/1.1" ++ crlf ++ crlf
  | VersionSlash => ascii "1.1" ++ crlf ++ crlf
  | VersionD1 => ascii ".1" ++ crlf ++ crlf
  | VersionDot => ascii "1" ++ crlf ++ crlf
  | VersionD2 => crlf ++ crlf
  | VersionCr => [LF] ++ crlf
  | VersionDone => crlf
  | HeaderName => ascii ": " ++ crlf ++ crlf
  | HeaderColon => ascii " " ++ crlf ++ crlf
  | HeaderValue => crlf ++ crlf
  | HeaderCr => [LF] ++ crlf
  | HeaderLineDone => crlf
  | HeadersCr => [LF]
  | HeadersDone => []

/-- No state is a dead end. -/
theorem completable : Completable next HeadersDone := by
  refine completable_of_scan completion fun s hs => ?_
  revert hs
  cases s <;> decide

/-- **`ParseUntil` decides the grammar of request heads.**  It accepts with `n` bytes consumed
exactly when the first `n` bytes are a head, for which there is one `n` at most; it waits,
everything consumed, exactly when no prefix is a head and some extension is; and it refuses
exactly when no extension has a head for a prefix. -/
theorem ParseUntil_decides_requestHead (s : Bytes) :
    ∃ r, ParseOver HeadersDone s MethodStart = some r ∧ r.first = 0 ∧
      (∀ n, r.verdict = .ParsedOK ∧ r.second = n ↔
        n ≤ s.length ∧ s.take n ∈ requestHead) ∧
      (∀ m n, m ≤ s.length → n ≤ s.length → s.take m ∈ requestHead → s.take n ∈ requestHead →
        m = n) ∧
      (r.verdict = .Indeterminate ↔
        (∀ w, w <+: s → w ∉ requestHead) ∧ ∃ t, s ++ t ∈ requestHead) ∧
      (r.verdict = .Indeterminate → r.second = s.length) ∧
      (r.verdict = .ParsedFailed ↔ ∀ t w, w <+: s ++ t → w ∉ requestHead) := by
  have hne : MethodStart ≠ HeadersDone := by decide
  have hok : ∀ n, (scan next HeadersDone MethodStart s).verdict = .ParsedOK ∧
      (scan next HeadersDone MethodStart s).used = n ↔
        n ≤ s.length ∧ s.take n ∈ requestHead := by
    intro n
    rw [← accepted_MethodStart]
    exact scan_ok_iff hne
  refine ⟨_, ParseOver_eq _ _ _, rfl, hok, ?_, ?_, ?_, ?_⟩
  · intro m n hm hn h1 h2
    rw [← ((hok m).mpr ⟨hm, h1⟩).2, ← ((hok n).mpr ⟨hn, h2⟩).2]
  · rw [← accepted_MethodStart]
    exact scan_indeterminate_iff completable hne
  · exact fun h => (scan_of_indeterminate hne h).2
  · rw [scan_failed_iff completable hne, ← accepted_MethodStart]
    refine forall_congr' fun t => ?_
    rw [Ne, scan_ok_iff_exists hne]
    simp only [not_exists, not_and]

end RequestParser

end TwoProxy
