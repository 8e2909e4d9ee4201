/-
# The language of `ResponseParser`

What the 22 states of the `switch` accept, by the same equations as for `RequestParser`.  The
expression that comes out (`acceptedHead`) is that of the code, which is not that of a
response head: a name may hold any whitespace, CR and LF included, and so may what stands
between the colon and the value, which cannot be empty.  `Heads.lean` and `Contained.lean`
are about the two ways in which that differs from what a head is.

That expression is all there is to the parser: `ParseUntil_decides_acceptedHead` says for
every text which of the three answers it gets, and which bytes are returned with it.
-/
import TwoProxy.ResponseParser.Pieces

open scoped Computability

namespace TwoProxy

namespace ResponseParser

open Grammar Scan StateType

def crlf : Bytes := [CR, LF]

/-! ## 1. The classes and the grammar of the code -/

/-- A byte of the reason after the first. -/
def reasonByte (c : Byte) : Bool := is_alnum c || is_punct c || c == ch ' '

/-- A byte of a name after the first, as the code has it. -/
def looseNameByte (c : Byte) : Bool :=
  (is_alnum c || is_space c || is_punct c) && c != ch ':'

/-- The first byte of a value, as the code has it. -/
def valueStart (c : Byte) : Bool := is_alnum c || is_punct c

/-- A byte of a value after the first. -/
def valueByte (c : Byte) : Bool := !is_cntrl c

/-- `HTTP/d.d code reason` -/
def statusLine : Language Byte :=
  word (ascii "HTTP/") * one is_digit * word [ch '.'] * one is_digit * word [ch ' ']
    * (one is_digit * many is_digit) * word [ch ' '] * (one is_alnum * many reasonByte)

/-- A header line, as the code has it. -/
def looseLine : Language Byte :=
  one is_alnum * many looseNameByte * word [ch ':'] * many is_space
    * (one valueStart * many valueByte) * word crlf

/-- A response head, as the code has it. -/
def acceptedHead : Language Byte := statusLine * word crlf * looseLine∗ * word crlf

/-! ## 2. One equation for each state -/

/-- The words that lead from a state to `HttpHeadersDone`. -/
abbrev residual (s : StateType) : Language Byte := accepted next HttpHeadersDone s

theorem residual_HttpHeadersEndCr : residual HttpHeadersEndCr = word [LF] := by
  have h : residual HttpHeadersEndCr = word [LF] * residual HttpHeadersDone :=
    accepted_eq_word (by decide) fun _ => rfl
  rw [h, residual, accepted_stop, mul_one]

theorem residual_HttpHeaderColon :
    residual HttpHeaderColon = many is_space * (one valueStart *
      (many valueByte * (word crlf * residual HttpHeaderLineDone))) := by
  have hcr : residual HttpHeaderCr = word [LF] * residual HttpHeaderLineDone :=
    accepted_eq_word (by decide) fun _ => rfl
  have hvalue : residual HttpHeaderValueChar =
      many valueByte * (one (· == CR) * residual HttpHeaderCr) := by
    refine accepted_eq_many (by decide) fun c u => ?_
    have hCR : is_cntrl CR = true := by decide
    simp only [next, valueByte]
    grind
  have h : residual HttpHeaderColon =
      many is_space * (one valueStart * residual HttpHeaderValueChar) := by
    refine accepted_eq_many (by decide) fun c u => ?_
    have hc : valueStart c = true → is_space c = false := by
      simp only [valueStart, is_alnum, is_upper, is_lower, is_digit, is_punct, is_space]
      grind
    simp only [next]
    simp only [valueStart] at hc ⊢
    grind
  rw [h, hvalue, ← word_eq_one, hcr, word_mul_word_mul]
  rfl

/-- Both states between two lines of the head. -/
theorem residual_lineStart {s : StateType} (hs : s ≠ HttpHeadersDone)
    (h : ∀ c u, next s c = some u ↔
      (is_alnum c = true ∧ u = HttpHeaderNameChar) ∨ ((c == CR) = true ∧ u = HttpHeadersEndCr)) :
    residual s = looseLine * residual HttpHeaderLineDone + word crlf := by
  have hadd : residual s =
      one is_alnum * residual HttpHeaderNameChar + one (· == CR) * residual HttpHeadersEndCr :=
    accepted_eq_add hs h
  have hname : residual HttpHeaderNameChar =
      many looseNameByte * (one (· == ch ':') * residual HttpHeaderColon) := by
    refine accepted_eq_many (by decide) fun c u => ?_
    simp only [next, looseNameByte]
    grind
  rw [hadd, hname, residual_HttpHeaderColon, residual_HttpHeadersEndCr, ← word_eq_one,
    ← word_eq_one, word_mul_word]
  simp only [looseLine, mul_assoc]
  rfl

theorem nil_notMem_looseLine : [] ∉ looseLine := by
  simp only [looseLine, mul_assoc]
  exact nil_notMem_one_mul

theorem next_lineStart {s : StateType} (hs : s = HttpStatusMessageDone ∨ s = HttpHeaderLineDone)
    (c : Byte) (u : StateType) :
    next s c = some u ↔
      (is_alnum c = true ∧ u = HttpHeaderNameChar) ∨ ((c == CR) = true ∧ u = HttpHeadersEndCr) := by
  have hCR : is_alnum CR = false := by decide
  rcases hs with rfl | rfl <;> simp only [next] <;> grind

theorem residual_HttpHeaderLineDone :
    residual HttpHeaderLineDone = looseLine∗ * word crlf :=
  (Language.self_eq_mul_add_iff nil_notMem_looseLine).mp
    (residual_lineStart (by decide) (next_lineStart (Or.inr rfl)))

theorem residual_HttpStatusMessageDone :
    residual HttpStatusMessageDone = looseLine∗ * word crlf := by
  rw [residual_lineStart (by decide) (next_lineStart (Or.inl rfl)), residual_HttpHeaderLineDone]
  exact ((Language.self_eq_mul_add_iff nil_notMem_looseLine).mpr rfl).symm

/-- `d.d code reason CRLF` and what follows it. -/
theorem residual_HttpVersionSlash :
    residual HttpVersionSlash = one is_digit * (word [ch '.'] * (one is_digit * (word [ch ' '] *
      (one is_digit * (many is_digit * (word [ch ' '] * (one is_alnum * (many reasonByte *
        (word crlf * residual HttpStatusMessageDone))))))))) := by
  have hD1 : residual HttpVersionSlash = one is_digit * residual HttpVersionD1 :=
    accepted_eq_one (by decide) fun _ => rfl
  have hDot : residual HttpVersionD1 = word [ch '.'] * residual HttpVersionDot :=
    accepted_eq_word (by decide) fun _ => rfl
  have hD2 : residual HttpVersionDot = one is_digit * residual HttpVersionD2 :=
    accepted_eq_one (by decide) fun _ => rfl
  have hSp : residual HttpVersionD2 = word [ch ' '] * residual HttpVersionDone :=
    accepted_eq_word (by decide) fun _ => rfl
  have hDigit : residual HttpVersionDone = one is_digit * residual HttpStatusDigit :=
    accepted_eq_one (by decide) fun _ => rfl
  have hCode : residual HttpStatusDigit =
      many is_digit * (one (· == ch ' ') * residual HttpStatusDone) := by
    refine accepted_eq_many (by decide) fun c u => ?_
    have hSP : is_digit (ch ' ') = false := by decide
    simp only [next]
    grind
  have hAlnum : residual HttpStatusDone = one is_alnum * residual HttpStatusMessageChar :=
    accepted_eq_one (by decide) fun _ => rfl
  have hReason : residual HttpStatusMessageChar =
      many reasonByte * (one (· == CR) * residual HttpStatusMessageCr) := by
    refine accepted_eq_many (by decide) fun c u => ?_
    have hCR : (is_alnum CR || is_punct CR || CR == ch ' ') = false := by decide
    simp only [next, reasonByte]
    grind
  have hLf : residual HttpStatusMessageCr = word [LF] * residual HttpStatusMessageDone :=
    accepted_eq_word (by decide) fun _ => rfl
  rw [hD1, hDot, hD2, hSp, hDigit, hCode, hAlnum, hReason, ← word_eq_one, ← word_eq_one, hLf,
    word_mul_word_mul]
  rfl

theorem residual_HttpResponseBegin :
    residual HttpResponseBegin =
      many isLeading * (word (ascii "HTTP/") * residual HttpVersionSlash) := by
  have h : residual HttpResponseBegin =
      many isLeading * (one (· == ch 'H') * residual HttpVersionH) := by
    refine accepted_eq_many (by decide) fun c u => ?_
    have hH : ¬ (ch 'H' = ch ' ' ∨ ch 'H' = CR ∨ ch 'H' = LF) := by decide
    rw [isLeading_iff]
    simp only [next]
    grind
  have hT1 : residual HttpVersionH = word [ch 'T'] * residual HttpVersionT1 :=
    accepted_eq_word (by decide) fun _ => rfl
  have hT2 : residual HttpVersionT1 = word [ch 'T'] * residual HttpVersionT2 :=
    accepted_eq_word (by decide) fun _ => rfl
  have hP : residual HttpVersionT2 = word [ch 'P'] * residual HttpVersionP :=
    accepted_eq_word (by decide) fun _ => rfl
  have hSlash : residual HttpVersionP = word [ch '/'] * residual HttpVersionSlash :=
    accepted_eq_word (by decide) fun _ => rfl
  rw [h, ← word_eq_one, hT1, hT2, hP, hSlash]
  simp only [word_mul_word_mul]
  rfl

/-- **The words accepted from `HttpResponseBegin`**: leading whitespace, and a head as the
code has it. -/
theorem accepted_HttpResponseBegin :
    accepted next HttpHeadersDone HttpResponseBegin = many isLeading * acceptedHead := by
  have h := residual_HttpResponseBegin
  rw [residual_HttpVersionSlash, residual_HttpStatusMessageDone] at h
  refine h.trans ?_
  simp only [acceptedHead, statusLine, mul_assoc]

/-! ## 3. What a call decides -/

/-- Every head begins with the `H` of its status line. -/
theorem acceptedHead_cons {head : Bytes} (h : head ∈ acceptedHead) :
    ∃ rest, head = ch 'H' :: rest := by
  simp only [acceptedHead, statusLine, mul_assoc] at h
  obtain ⟨rest, -, rfl⟩ := mem_word_mul.mp h
  exact ⟨ascii "TTP/" ++ rest, rfl⟩

/-- So it begins where the leading whitespace ends. -/
theorem takeWhile_isLeading {leading head : Bytes} (hl : leading ∈ many isLeading)
    (hh : head ∈ acceptedHead) (rest : Bytes) :
    (leading ++ head ++ rest).takeWhile isLeading = leading := by
  obtain ⟨tail, rfl⟩ := acceptedHead_cons hh
  have hH : ¬ isLeading (ch 'H') = true := by decide
  rw [List.append_assoc, List.takeWhile_append_of_pos (mem_many.mp hl), List.cons_append,
    List.takeWhile_cons_of_neg hH, List.append_nil]

/-- What is accepted, taken apart. -/
theorem mem_many_mul_acceptedHead {w : Bytes} :
    w ∈ many isLeading * acceptedHead ↔
      ∃ leading head, leading ∈ many isLeading ∧ head ∈ acceptedHead ∧ leading ++ head = w :=
  ⟨fun ⟨leading, hl, head, hh, hw⟩ => ⟨leading, head, hl, hh, hw⟩,
    fun ⟨leading, head, hl, hh, hw⟩ => ⟨leading, hl, head, hh, hw⟩⟩

/-- **`ParseUntil` decides the heads of the code.**  It accepts exactly the texts that begin
with leading whitespace and a head, and returns that head and nothing before or behind it; it
waits, everything consumed, exactly when no prefix is of that form and some extension is; and
it refuses exactly when no extension has a prefix of that form. -/
theorem ParseUntil_decides_acceptedHead (s : Bytes) :
    ∃ r, ParseOver HttpHeadersDone s HttpResponseBegin = some r ∧
      (∀ m n, r = ⟨.ParsedOK, HttpHeadersDone, m, n⟩ ↔
        ∃ leading head, leading ∈ many isLeading ∧ head ∈ acceptedHead ∧
          leading ++ head <+: s ∧ leading.length = m ∧ leading.length + head.length = n) ∧
      (r.verdict = .Indeterminate ↔
        (∀ w, w <+: s → w ∉ many isLeading * acceptedHead) ∧
          ∃ t, s ++ t ∈ many isLeading * acceptedHead) ∧
      (r.verdict = .Indeterminate → r.second = s.length) ∧
      (r.verdict = .ParsedFailed ↔
        ∀ t w, w <+: s ++ t → w ∉ many isLeading * acceptedHead) := by
  have hne : HttpResponseBegin ≠ HttpHeadersDone := by decide
  refine ⟨_, parseRange_trim trims hne s, fun m n => ?_, ?_, ?_, ?_⟩
  · constructor
    · intro hr
      obtain ⟨hv, -, hm, hn⟩ := Parsed.mk.injEq .. ▸ hr
      have hword := take_mem_accepted hv
      rw [accepted_HttpResponseBegin, mem_many_mul_acceptedHead] at hword
      obtain ⟨leading, head, hl, hh, hw⟩ := hword
      have hpre : leading ++ head <+: s := hw ▸ List.take_prefix _ _
      obtain ⟨rest, hrest⟩ := hpre
      refine ⟨leading, head, hl, hh, ⟨rest, hrest⟩, ?_, ?_⟩
      · rw [← hm, ← hrest, takeWhile_isLeading hl hh]
      · have hlen := congrArg List.length hw
        have hle : (scan next HttpHeadersDone HttpResponseBegin s).used ≤ s.length :=
          scan_used_le s HttpResponseBegin
        rw [List.length_append, List.length_take, Nat.min_eq_left hle] at hlen
        exact hlen.trans hn
    · rintro ⟨leading, head, hl, hh, ⟨rest, rfl⟩, rfl, rfl⟩
      have hword : leading ++ head ∈ accepted next HttpHeadersDone HttpResponseBegin := by
        rw [accepted_HttpResponseBegin]
        exact mem_many_mul_acceptedHead.mpr ⟨leading, head, hl, hh, rfl⟩
      rw [scan_of_mem_accepted rest hne hword, takeWhile_isLeading hl hh, List.length_append]
  · rw [← accepted_HttpResponseBegin]
    exact scan_indeterminate_iff completable hne
  · exact fun h => (scan_of_indeterminate hne h).2
  · rw [scan_failed_iff completable hne, ← accepted_HttpResponseBegin]
    refine forall_congr' fun t => ?_
    rw [Ne, scan_ok_iff_exists hne]
    simp only [not_exists, not_and]

end ResponseParser

end TwoProxy
