/-
# Which response heads `ResponseParser` accepts

`ResponseHead` is the head of a response as a server writes it: header values may be empty, and
may start with any byte that is neither a control byte nor a space.  The parser reads a value
from the state `HttpHeaderColon`, and that state differs from the one of `RequestParser` in two
ways: it skips every kind of whitespace, CR and LF included, and it has no branch for a byte
that is in no class.

* A value that starts with a byte from `0x80` on is refused.
* After an empty value the end of the line is skipped, and the next line is read as the value:
  another header line is swallowed, and the empty line at the end of the head is not seen.

`ParseUntil_accepts_iff` says that this is all: the heads accepted, to the byte, are those
whose lines are `Readable`.
-/
import TwoProxy.ResponseParser.Grammar

namespace TwoProxy

namespace ResponseParser

open Grammar Scan StateType

/-! ## 1. Response heads -/

/-- `HTTP/d.d code reason` -/
structure StatusLine where
  major : Byte
  minor : Byte
  codeHead : Byte
  codeTail : Bytes
  reasonHead : Byte
  reasonTail : Bytes
  major_digit : is_digit major = true
  minor_digit : is_digit minor = true
  codeHead_digit : is_digit codeHead = true
  codeTail_digit : ∀ c ∈ codeTail, is_digit c = true
  reasonHead_alnum : is_alnum reasonHead = true
  reasonTail_byte : ∀ c ∈ reasonTail, reasonByte c = true

def StatusLine.bytes (l : StatusLine) : Bytes :=
  ascii "HTTP/" ++ l.major :: ch '.' :: l.minor :: ch ' ' :: l.codeHead :: l.codeTail
    ++ ch ' ' :: l.reasonHead :: l.reasonTail

/-- A byte of a name after the first. -/
def nameByte (c : Byte) : Bool := (is_alnum c || is_punct c) && c != ch ':'

/-- `name: value` -/
structure HeaderLine where
  nameHead : Byte
  nameTail : Bytes
  spaces : Nat
  value : Bytes
  nameHead_alnum : is_alnum nameHead = true
  nameTail_byte : ∀ c ∈ nameTail, nameByte c = true
  value_byte : ∀ c ∈ value, is_cntrl c = false
  value_head : value.head? ≠ some (ch ' ')

/-- The line without its end. -/
def HeaderLine.text (l : HeaderLine) : Bytes :=
  l.nameHead :: l.nameTail ++ ch ':' :: List.replicate l.spaces (ch ' ') ++ l.value

def HeaderLine.bytes (l : HeaderLine) : Bytes := l.text ++ crlf

/-- A status line, header lines and an empty line. -/
structure ResponseHead where
  status : StatusLine
  lines : List HeaderLine

def ResponseHead.bytes (h : ResponseHead) : Bytes :=
  h.status.bytes ++ crlf ++ (h.lines.map HeaderLine.bytes).flatten ++ crlf

/-- **What the parser asks of header lines**: a value that it reads starts with a byte below
`0x80`, and an empty value is followed by another line, which is not read. -/
def Readable : List HeaderLine → Bool
  | [] => true
  | [l] =>
    match l.value with
    | [] => false
    | c :: _ => c < 128
  | l :: l' :: lines =>
    match l.value with
    | [] => Readable lines
    | c :: _ => c < 128 && Readable (l' :: lines)

/-! ## 2. The runs over the parts of a head -/

theorem path_status (l : StatusLine) (ys : Bytes) :
    path next HttpResponseBegin (l.bytes ++ crlf ++ ys) = path next HttpStatusMessageDone ys := by
  have hcode : ∀ c ∈ l.codeTail, next HttpStatusDigit c = some HttpStatusDigit := by
    intro c hc
    have hSP : is_digit (ch ' ') = false := by decide
    have := l.codeTail_digit c hc
    simp only [next]
    grind
  have hreason : ∀ c ∈ l.reasonTail, next HttpStatusMessageChar c = some HttpStatusMessageChar := by
    intro c hc
    have := l.reasonTail_byte c hc
    simp only [reasonByte] at this
    simp only [next, if_pos this]
  have hhttp : path next HttpResponseBegin (ascii "HTTP/") = some HttpVersionSlash := by decide
  have hhead : path next HttpVersionSlash (l.major :: ch '.' :: l.minor :: ch ' ' :: l.codeHead ::
      (l.codeTail ++ (ch ' ' :: l.reasonHead :: (l.reasonTail ++ (crlf ++ ys))))) =
        path next HttpStatusDigit
          (l.codeTail ++ (ch ' ' :: l.reasonHead :: (l.reasonTail ++ (crlf ++ ys)))) := by
    rw [path_cons_some (t := HttpVersionD1) (by simp [next, l.major_digit]),
      path_cons_some (t := HttpVersionDot) (by simp [next]),
      path_cons_some (t := HttpVersionD2) (by simp [next, l.minor_digit]),
      path_cons_some (t := HttpVersionDone) (by simp [next]),
      path_cons_some (t := HttpStatusDigit) (by simp [next, l.codeHead_digit])]
  have hbytes : l.bytes ++ crlf ++ ys = ascii "HTTP/" ++ (l.major :: ch '.' :: l.minor ::
      ch ' ' :: l.codeHead :: (l.codeTail ++
        (ch ' ' :: l.reasonHead :: (l.reasonTail ++ (crlf ++ ys))))) := by
    simp [StatusLine.bytes]
  rw [hbytes, path_append, hhttp, Option.bind_some, hhead, path_stay hcode,
    path_cons_some (t := HttpStatusDone) (by simp [next]),
    path_cons_some (t := HttpStatusMessageChar) (by simp [next, l.reasonHead_alnum]),
    path_stay hreason]
  rfl

/-- The two states between lines go on alike. -/
theorem path_lineStart {xs : Bytes} (h : xs ≠ []) :
    path next HttpStatusMessageDone xs = path next HttpHeaderLineDone xs := by
  cases xs with
  | nil => exact absurd rfl h
  | cons c xs => rfl

variable (l : HeaderLine) (ys : Bytes)

/-- A name and the spaces after its colon. -/
theorem path_name :
    path next HttpHeaderLineDone (l.bytes ++ ys) =
      path next HttpHeaderColon (l.value ++ (crlf ++ ys)) := by
  have hname : ∀ c ∈ l.nameTail, next HttpHeaderNameChar c = some HttpHeaderNameChar := by
    intro c hc
    have := l.nameTail_byte c hc
    simp only [nameByte] at this
    simp only [next]
    grind
  have hspaces : ∀ c ∈ List.replicate l.spaces (ch ' '),
      next HttpHeaderColon c = some HttpHeaderColon := by
    intro c hc
    rw [(List.mem_replicate.mp hc).2]
    decide
  have hbytes : l.bytes ++ ys = l.nameHead :: (l.nameTail ++ (ch ':' ::
      (List.replicate l.spaces (ch ' ') ++ (l.value ++ (crlf ++ ys))))) := by
    simp [HeaderLine.bytes, HeaderLine.text]
  rw [hbytes, path_cons_some (t := HttpHeaderNameChar) (by simp [next, l.nameHead_alnum]),
    path_stay hname, path_cons_some (t := HttpHeaderColon) (by simp [next]), path_stay hspaces]

/-- Bytes that are not control bytes, read as a value. -/
theorem path_value {xs : Bytes} (h : ∀ c ∈ xs, is_cntrl c = false) :
    path next HttpHeaderValueChar (xs ++ (crlf ++ ys)) = path next HttpHeaderLineDone ys := by
  have hvalue : ∀ c ∈ xs, next HttpHeaderValueChar c = some HttpHeaderValueChar := by
    intro c hc
    have hCR : is_cntrl CR = true := by decide
    have := h c hc
    simp only [next]
    grind
  rw [path_stay hvalue]
  rfl

theorem path_line_ascii {c : Byte} {value : Bytes} (hv : l.value = c :: value) (hc : c < 128) :
    path next HttpHeaderLineDone (l.bytes ++ ys) = path next HttpHeaderLineDone ys := by
  have hcntrl : ∀ b ∈ c :: value, is_cntrl b = false := hv ▸ l.value_byte
  have hstart : next HttpHeaderColon c = some HttpHeaderValueChar := by
    have hhead : c ≠ 32 := by
      rintro rfl
      exact l.value_head (by rw [hv]; rfl)
    have := hcntrl c (by simp)
    simp only [next, is_space, is_cntrl, is_alnum, is_punct] at *
    grind
  rw [path_name, hv, List.cons_append, path_cons_some hstart,
    path_value ys fun b hb => hcntrl b (by simp [hb])]

theorem path_line_high {c : Byte} {value : Bytes} (hv : l.value = c :: value) (hc : ¬ c < 128) :
    path next HttpHeaderLineDone (l.bytes ++ ys) = none := by
  rw [path_name, hv, List.cons_append]
  refine path_cons_none ?_ _
  simp only [next, is_space, is_punct, is_alnum, is_upper, is_lower, is_digit]
  grind

/-- After an empty value the parser is still at the colon. -/
theorem path_line_empty (hv : l.value = []) :
    path next HttpHeaderLineDone (l.bytes ++ ys) = path next HttpHeaderColon ys := by
  rw [path_name, hv]
  rfl

/-- A header line read as a value. -/
theorem path_swallowed :
    path next HttpHeaderColon (l.bytes ++ ys) = path next HttpHeaderLineDone ys := by
  have hcntrl : ∀ c ∈ l.nameTail ++ ch ':' :: List.replicate l.spaces (ch ' ') ++ l.value,
      is_cntrl c = false := by
    intro c hc
    simp only [List.mem_append, List.mem_cons, List.mem_replicate] at hc
    rcases hc with (hc | rfl | ⟨-, rfl⟩) | hc
    · have := l.nameTail_byte c hc
      simp only [nameByte, is_cntrl, is_alnum, is_upper, is_lower, is_digit, is_punct] at *
      grind
    · decide
    · decide
    · exact l.value_byte c hc
  have hstart : next HttpHeaderColon l.nameHead = some HttpHeaderValueChar := by
    have := l.nameHead_alnum
    simp only [next, is_alnum, is_upper, is_lower, is_digit, is_space, is_punct] at *
    grind
  have hbytes : l.bytes ++ ys = l.nameHead ::
      ((l.nameTail ++ ch ':' :: List.replicate l.spaces (ch ' ') ++ l.value) ++ (crlf ++ ys)) := by
    simp [HeaderLine.bytes, HeaderLine.text]
  rw [hbytes, path_cons_some hstart, path_value ys hcntrl]

/-! ## 3. Which heads are accepted -/

theorem headersEnd_ne (lines : List HeaderLine) :
    (lines.map HeaderLine.bytes).flatten ++ crlf ≠ [] := by
  simp [crlf]

/-- **The lines that lead back to between two lines**, by induction two lines at a time: a
line with an empty value takes the next one with it. -/
theorem path_lines_iff (lines : List HeaderLine) :
    path next HttpHeaderLineDone ((lines.map HeaderLine.bytes).flatten ++ crlf)
      = some HttpHeadersDone ↔ Readable lines = true := by
  induction lines using Readable.induct with
  | case1 => simp only [Readable, iff_true]; decide
  | case2 l hv =>
    have hend : path next HttpHeaderColon crlf ≠ some HttpHeadersDone := by decide
    rw [List.map_singleton, List.flatten_singleton, path_line_empty l _ hv]
    simp [Readable, hv, hend]
  | case3 l c value hv =>
    have hend : path next HttpHeaderLineDone crlf = some HttpHeadersDone := by decide
    rw [List.map_singleton, List.flatten_singleton]
    by_cases hc : c < 128
    · rw [path_line_ascii l _ hv hc]
      simp [Readable, hv, hend, hc]
    · rw [path_line_high l _ hv hc]
      simp [Readable, hv, hc]
  | case4 l l' lines hv ih =>
    rw [List.map_cons, List.map_cons, List.flatten_cons, List.flatten_cons, List.append_assoc,
      List.append_assoc, path_line_empty l _ hv, path_swallowed, ih]
    simp [Readable, hv]
  | case5 l l' lines c value hv ih =>
    rw [List.map_cons, List.flatten_cons, List.append_assoc]
    by_cases hc : c < 128
    · rw [path_line_ascii l _ hv hc, ih]
      simp [Readable, hv, hc]
    · rw [path_line_high l _ hv hc]
      simp [Readable, hv, hc]

/-- A head as a word of the parser. -/
theorem bytes_mem_accepted_iff (h : ResponseHead) :
    h.bytes ∈ accepted next HttpHeadersDone HttpResponseBegin ↔ Readable h.lines = true := by
  rw [← path_eq_stop_iff (fun _ => rfl), ← path_lines_iff, ResponseHead.bytes, List.append_assoc,
    path_status, path_lineStart (headersEnd_ne _)]

/-- A head starts with the `H` of its status line, so nothing is skipped in front of it. -/
theorem takeWhile_isLeading_bytes (h : ResponseHead) (following : Bytes) :
    (h.bytes ++ following).takeWhile isLeading = [] := by
  have hH : isLeading (ch 'H') = false := by decide
  have hascii : ascii "HTTP/" = ch 'H' :: ascii "TTP/" := by decide
  rw [ResponseHead.bytes, StatusLine.bytes, hascii]
  simp only [List.cons_append]
  rw [List.takeWhile_cons_of_neg (by simp [hH])]

/-- **`ResponseParser` accepts a response head, to the byte, exactly when its lines are
readable.** -/
theorem ParseUntil_accepts_iff (h : ResponseHead) (following : Bytes) :
    ParseOver HttpHeadersDone (h.bytes ++ following) HttpResponseBegin
        = some ⟨.ParsedOK, HttpHeadersDone, 0, h.bytes.length⟩ ↔
      Readable h.lines = true := by
  have hne : HttpResponseBegin ≠ HttpHeadersDone := by decide
  have hcall : ParseOver HttpHeadersDone (h.bytes ++ following) HttpResponseBegin = some _ :=
    parseRange_trim trims hne (h.bytes ++ following)
  have hword : (scan next HttpHeadersDone HttpResponseBegin (h.bytes ++ following)).verdict
        = .ParsedOK ∧
      (scan next HttpHeadersDone HttpResponseBegin (h.bytes ++ following)).used
        = h.bytes.length ↔ _ := scan_ok_iff hne
  rw [List.take_left, bytes_mem_accepted_iff] at hword
  rw [hcall, takeWhile_isLeading_bytes, Option.some.injEq, Parsed.mk.injEq]
  constructor
  · rintro ⟨hv, -, -, hu⟩
    exact (hword.mp ⟨hv, hu⟩).2
  · intro hr
    obtain ⟨hv, hu⟩ := hword.mpr ⟨by simp, hr⟩
    exact ⟨hv, scan_state_of_ok hv, rfl, hu⟩

/-! ### A head that is not accepted -/

/-- `HTTP/1.1 200 OK` and one header with an empty value. -/
def emptyValueHead : ResponseHead where
  status :=
    { major := ch '1', minor := ch '1', codeHead := ch '2', codeTail := ascii "00"
      reasonHead := ch 'O', reasonTail := ascii "K"
      major_digit := by decide, minor_digit := by decide, codeHead_digit := by decide
      codeTail_digit := List.all_eq_true.mp (by decide)
      reasonHead_alnum := by decide
      reasonTail_byte := List.all_eq_true.mp (by decide) }
  lines :=
    [{ nameHead := ch 'V', nameTail := ascii "ary", spaces := 1, value := []
       nameHead_alnum := by decide
       nameTail_byte := List.all_eq_true.mp (by decide)
       value_byte := by simp
       value_head := by simp }]

/-- The parser is still waiting for the value when the head is over. -/
theorem emptyValueHead_waits :
    ParseOver HttpHeadersDone (emptyValueHead.bytes ++ []) HttpResponseBegin
        = some ⟨.Indeterminate, HttpHeaderColon, 0, emptyValueHead.bytes.length⟩ ∧
      ¬ ∀ (h : ResponseHead) (following : Bytes),
        ParseOver HttpHeadersDone (h.bytes ++ following) HttpResponseBegin
          = some ⟨.ParsedOK, HttpHeadersDone, 0, h.bytes.length⟩ := by
  have hwaits : ParseOver HttpHeadersDone (emptyValueHead.bytes ++ []) HttpResponseBegin
      = some ⟨.Indeterminate, HttpHeaderColon, 0, emptyValueHead.bytes.length⟩ := by
    decide +kernel
  refine ⟨hwaits, fun hall => ?_⟩
  have := hwaits.symm.trans (hall emptyValueHead [])
  simp at this

end ResponseParser

end TwoProxy
