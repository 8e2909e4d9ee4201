/-
# Whether `ResponseParser` stays inside the head

A range is `Contained` when it is one head and no more: a status line, lines `name ':' value`
and an empty line, with no other CR or LF, and no empty line before its end.  The parser reads
whitespace of every kind in the state of a name and in the state of a colon, CR and LF
included, and so it may return a range that is not.

* A name without a colon goes on in the next line, and past the empty line into the body.
* An empty value is looked for in the next line, and past the empty line too.

`ParseUntil_contained_iff` says when that does not happen, for every text that is accepted:
each name, and each stretch of whitespace after a colon, stays in its line; or the whitespace
holds the one CRLF after an empty value, and the line that is swallowed is itself a header
line.
-/
import TwoProxy.Lib.Fields
import TwoProxy.ResponseParser.Heads

open scoped Computability

namespace TwoProxy

namespace ResponseParser

open Fields Grammar Scan StateType

/-! ## 1. What is accepted -/

/-- A header line as the parser reads it. -/
structure LooseField where
  nameHead : Byte
  nameTail : Bytes
  gap : Bytes
  valueHead : Byte
  valueTail : Bytes
  nameHead_alnum : is_alnum nameHead = true
  nameTail_byte : ∀ c ∈ nameTail, looseNameByte c = true
  gap_space : ∀ c ∈ gap, is_space c = true
  valueHead_byte : valueStart valueHead = true
  valueTail_byte : ∀ c ∈ valueTail, valueByte c = true

def LooseField.bytes (f : LooseField) : Bytes :=
  f.nameHead :: f.nameTail ++ ch ':' :: f.gap ++ f.valueHead :: f.valueTail ++ crlf

/-- A head as the parser reads it, what was skipped before it and what comes after it. -/
structure AcceptedText where
  leading : Bytes
  status : StatusLine
  fields : List LooseField
  following : Bytes
  leading_byte : ∀ c ∈ leading, isLeading c = true

def AcceptedText.head (x : AcceptedText) : Bytes :=
  x.status.bytes ++ crlf ++ (x.fields.map LooseField.bytes).flatten ++ crlf

def AcceptedText.bytes (x : AcceptedText) : Bytes := x.leading ++ x.head ++ x.following

theorem mem_statusLine {w : Bytes} : w ∈ statusLine ↔ ∃ l : StatusLine, l.bytes = w := by
  simp only [statusLine, mul_assoc, mem_one_mul, mem_many_mul, mem_word_mul, mem_many]
  constructor
  · rintro ⟨_, ⟨d₁, _, hd₁, ⟨_, ⟨d₂, _, hd₂, ⟨_, ⟨c, _, hc, ⟨cs, _, hcs, ⟨_, ⟨r, rs, hr, hrs, rfl⟩,
      rfl⟩, rfl⟩, rfl⟩, rfl⟩, rfl⟩, rfl⟩, rfl⟩, rfl⟩
    exact ⟨⟨d₁, d₂, c, cs, r, rs, hd₁, hd₂, hc, hcs, hr, hrs⟩, by simp [StatusLine.bytes]⟩
  · rintro ⟨l, rfl⟩
    exact ⟨_, ⟨_, _, l.major_digit, ⟨_, ⟨_, _, l.minor_digit, ⟨_, ⟨_, _, l.codeHead_digit,
      ⟨_, _, l.codeTail_digit, ⟨_, ⟨_, _, l.reasonHead_alnum, l.reasonTail_byte, rfl⟩, rfl⟩, rfl⟩,
      rfl⟩, rfl⟩, rfl⟩, rfl⟩, rfl⟩, by simp [StatusLine.bytes]⟩

theorem mem_looseLine {w : Bytes} : w ∈ looseLine ↔ ∃ f : LooseField, f.bytes = w := by
  simp only [looseLine, mul_assoc, mem_one_mul, mem_many_mul, mem_word_mul, mem_word]
  constructor
  · rintro ⟨n, _, hn, ⟨ns, _, hns, ⟨_, ⟨gap, _, hgap, ⟨v, _, hv, ⟨vs, _, hvs, rfl, rfl⟩, rfl⟩,
      rfl⟩, rfl⟩, rfl⟩, rfl⟩
    exact ⟨⟨n, ns, gap, v, vs, hn, hns, hgap, hv, hvs⟩, by simp [LooseField.bytes]⟩
  · rintro ⟨f, rfl⟩
    exact ⟨_, _, f.nameHead_alnum, ⟨_, _, f.nameTail_byte, ⟨_, ⟨_, _, f.gap_space,
      ⟨_, _, f.valueHead_byte, ⟨_, _, f.valueTail_byte, rfl, rfl⟩, rfl⟩, rfl⟩, rfl⟩, rfl⟩,
      by simp [LooseField.bytes]⟩

theorem mem_kstar_looseLine {w : Bytes} :
    w ∈ looseLine∗ ↔ ∃ fields : List LooseField, (fields.map LooseField.bytes).flatten = w := by
  have h : ∀ v, v ∈ looseLine ↔ ∃ f : LooseField, True ∧ f.bytes = v := by
    simpa using fun v => mem_looseLine
  simpa using mem_kstar_iff h

/-- **The words of the parser**: leading whitespace and a head as the parser reads it. -/
theorem mem_accepted_iff {w : Bytes} :
    w ∈ accepted next HttpHeadersDone HttpResponseBegin ↔
      ∃ x : AcceptedText, x.leading ++ x.head = w := by
  rw [accepted_HttpResponseBegin, mem_many_mul]
  constructor
  · rintro ⟨lead, _, hlead, ⟨_, ⟨_, ⟨_, hst, _, rfl, rfl⟩, _, hfields, rfl⟩, _, rfl, rfl⟩, rfl⟩
    obtain ⟨l, rfl⟩ := mem_statusLine.mp hst
    obtain ⟨fields, rfl⟩ := mem_kstar_looseLine.mp hfields
    exact ⟨⟨lead, l, fields, [], hlead⟩, rfl⟩
  · rintro ⟨x, rfl⟩
    exact ⟨_, _, x.leading_byte, ⟨_, ⟨_, ⟨_, mem_statusLine.mpr ⟨_, rfl⟩, _, rfl, rfl⟩,
      _, mem_kstar_looseLine.mpr ⟨_, rfl⟩, rfl⟩, _, rfl, rfl⟩, rfl⟩

/-- A call accepts the texts that begin so, and no others. -/
theorem ParseOver_ok_iff (s : Bytes) :
    (∃ r, ParseOver HttpHeadersDone s HttpResponseBegin = some r ∧ r.verdict = .ParsedOK) ↔
      ∃ x : AcceptedText, x.bytes = s := by
  have hne : HttpResponseBegin ≠ HttpHeadersDone := by decide
  obtain ⟨r, hr, hv, -⟩ := ParseOver_spec HttpHeadersDone s HttpResponseBegin
  rw [hr]
  simp only [Option.some.injEq, exists_eq_left', hv, scan_ok_iff_exists hne]
  constructor
  · rintro ⟨w, ⟨following, rfl⟩, hw⟩
    obtain ⟨x, rfl⟩ := mem_accepted_iff.mp hw
    exact ⟨{ x with following }, rfl⟩
  · rintro ⟨x, rfl⟩
    exact ⟨x.leading ++ x.head, List.prefix_append _ _, mem_accepted_iff.mpr ⟨x, rfl⟩⟩

/-- The range that is returned is the head. -/
theorem ParseOver_range (x : AcceptedText) :
    ∃ r, ParseOver HttpHeadersDone x.bytes HttpResponseBegin = some r ∧
      r.verdict = .ParsedOK ∧ r.range x.bytes = x.head := by
  have hne : HttpResponseBegin ≠ HttpHeadersDone := by decide
  obtain ⟨r, hr, hv, -, -, hrange⟩ := ParseOver_spec HttpHeadersDone x.bytes HttpResponseBegin
  have hscan : scan next HttpHeadersDone HttpResponseBegin x.bytes = _ :=
    scan_of_mem_accepted x.following hne (mem_accepted_iff.mpr ⟨x, rfl⟩)
  have hhead : x.head.dropWhile isLeading = x.head := by
    have hH : isLeading (ch 'H') = false := by decide
    have hascii : ascii "HTTP/" = ch 'H' :: ascii "TTP/" := by decide
    rw [AcceptedText.head, StatusLine.bytes, hascii]
    simp only [List.cons_append]
    rw [List.dropWhile_cons_of_neg (by simp [hH])]
  refine ⟨r, hr, by rw [hv, hscan], ?_⟩
  rw [hrange, hscan, AcceptedText.bytes, List.take_left, matched, trimmed, if_pos rfl,
    List.dropWhile_append_of_pos x.leading_byte, hhead]

/-! ## 2. One head and no more -/

/-- **A contained range**: it ends with its first empty line, and every CR and LF in it ends
the status line, a line `name ':' value`, or the head. -/
structure Contained (range : Bytes) : Prop where
  ends : ∃ init, range = init ++ [CR, LF, CR, LF]
  once : ∀ before after, range = before ++ [CR, LF, CR, LF] ++ after → after = []
  lines : IsBlock CR LF (ch ':') range

theorem contained_iff_isBlock {range : Bytes} : Contained range ↔ IsBlock CR LF (ch ':') range := by
  constructor
  · exact Contained.lines
  · intro h
    have hclean := clean_of_isBlock (by decide) (by decide) h
    exact ⟨hclean.ends, hclean.first, h⟩

/-- **A field that stays in its lines.**  Its name does; and the whitespace after its colon
does too, or is what stands around the end of a line with an empty value, and the line after
it has a name and a colon. -/
def LooseField.Proper (f : LooseField) : Prop :=
  Plain CR LF f.nameTail ∧
    (Plain CR LF f.gap ∨ ∃ gap₁ gap₂, f.gap = gap₁ ++ crlf ++ gap₂ ∧
      Plain CR LF gap₁ ∧ Plain CR LF gap₂ ∧
      (gap₂ ++ f.valueHead :: f.valueTail).head? ≠ some (ch ':') ∧
      ch ':' ∈ gap₂ ++ f.valueHead :: f.valueTail)

/-- A line with a colon that is not its first byte. -/
theorem isField_of_mem {line : Bytes} (hplain : Plain CR LF line) (hmem : ch ':' ∈ line)
    (hhead : line.head? ≠ some (ch ':')) : IsField CR LF (ch ':') line := by
  obtain ⟨name, value, rfl, hname⟩ := List.eq_append_cons_of_mem hmem
  refine ⟨name, value, rfl, ?_, hname, fun c hc => hplain c (by simp [hc]),
    fun c hc => hplain c (by simp [hc])⟩
  rintro rfl
  exact hhead rfl

variable (f : LooseField)

theorem LooseField.value_plain : Plain CR LF (f.valueHead :: f.valueTail) := by
  intro c hc
  rcases List.mem_cons.mp hc with rfl | hc
  · exact ne_lineEnd (p := valueStart) (by decide) (by decide) f.valueHead_byte
  · exact ne_lineEnd (p := valueByte) (by decide) (by decide) (f.valueTail_byte c hc)

theorem LooseField.nameHead_plain : f.nameHead ≠ CR ∧ f.nameHead ≠ LF :=
  ne_lineEnd (p := is_alnum) (by decide) (by decide) f.nameHead_alnum

theorem LooseField.nameHead_ne : f.nameHead ≠ ch ':' := by
  have hcolon : is_alnum (ch ':') = false := by decide
  intro h
  have := f.nameHead_alnum
  rw [h, hcolon] at this
  cases this

theorem LooseField.colon_notMem : ch ':' ∉ f.nameHead :: f.nameTail := by
  intro h
  rcases List.mem_cons.mp h with h | h
  · exact f.nameHead_ne h.symm
  · have := f.nameTail_byte _ h
    simp [looseNameByte] at this

theorem LooseField.colon_notMem_gap {gap : Bytes} (h : ∀ c ∈ gap, c ∈ f.gap) : ch ':' ∉ gap := by
  intro hc
  have hcolon : is_space (ch ':') = false := by decide
  have := f.gap_space _ (h _ hc)
  rw [hcolon] at this
  cases this

/-- A proper field is one line, or two. -/
theorem LooseField.path_of_proper (h : f.Proper) (rest : Bytes) :
    path (step CR LF (ch ':')) .lineStart (f.bytes ++ rest) =
      path (step CR LF (ch ':')) .lineStart rest := by
  have hsep : ch ':' ≠ CR ∧ ch ':' ≠ LF := by decide
  have hname : Plain CR LF (f.nameHead :: f.nameTail) := by
    intro c hc
    rcases List.mem_cons.mp hc with rfl | hc
    · exact f.nameHead_plain
    · exact h.1 c hc
  rcases h.2 with hgap | ⟨gap₁, gap₂, hgap, h₁, h₂, hhead, hmem⟩
  · have hline : IsField CR LF (ch ':') (f.nameHead :: f.nameTail ++ ch ':' ::
        (f.gap ++ f.valueHead :: f.valueTail)) := by
      refine ⟨_, _, rfl, by simp, f.colon_notMem, hname, fun c hc => ?_⟩
      rcases List.mem_append.mp hc with hc | hc
      · exact hgap c hc
      · exact f.value_plain c hc
    have := path_field hsep hline rest
    simpa [LooseField.bytes, crlf] using this
  · have hline₁ : IsField CR LF (ch ':') (f.nameHead :: f.nameTail ++ ch ':' :: gap₁) :=
      ⟨_, _, rfl, by simp, f.colon_notMem, hname, h₁⟩
    have hline₂ : IsField CR LF (ch ':') (gap₂ ++ f.valueHead :: f.valueTail) := by
      refine isField_of_mem (fun c hc => ?_) hmem hhead
      rcases List.mem_append.mp hc with hc | hc
      · exact h₂ c hc
      · exact f.value_plain c hc
    have hfirst := path_field hsep hline₁
      (gap₂ ++ f.valueHead :: f.valueTail ++ CR :: LF :: rest)
    rw [path_field hsep hline₂] at hfirst
    simpa [LooseField.bytes, crlf, hgap] using hfirst

/-- What is skipped after a colon and the value, read as a line: its first colon is in the
value, so the two parts are plain when the line is. -/
theorem LooseField.plain_of_split {gap name value : Bytes} (hcolon : ch ':' ∉ gap)
    (hplain : Plain CR LF name)
    (hsplit : gap ++ f.valueHead :: f.valueTail = name ++ ch ':' :: value) :
    Plain CR LF gap ∧ Plain CR LF value := by
  rcases List.append_eq_append_iff.mp hsplit with ⟨as, rfl, hv⟩ | ⟨cs, rfl, hv⟩
  · refine ⟨fun c hc => hplain c (by simp [hc]), fun c hc => f.value_plain c ?_⟩
    rw [hv]
    simp [hc]
  · cases cs with
    | nil =>
      rw [List.append_nil]
      refine ⟨hplain, fun c hc => f.value_plain c ?_⟩
      rw [← List.nil_append (f.valueHead :: _), ← hv]
      simp [hc]
    | cons c cs =>
      obtain ⟨rfl, -⟩ := List.cons.inj hv
      exact absurd (by simp) hcolon

/-- **A field that is got over is proper.**  The name ends at its colon; what is skipped after
it is in the line, or holds one line end, and then the value is a line with a name. -/
theorem LooseField.proper_of_path {rest : Bytes}
    (h : path (step CR LF (ch ':')) .lineStart (f.bytes ++ rest) = some .done) :
    f.Proper ∧ path (step CR LF (ch ':')) .lineStart rest = some .done := by
  have hbytes : f.bytes ++ rest = (f.nameHead :: f.nameTail ++ ch ':' ::
      (f.gap ++ f.valueHead :: f.valueTail)) ++ CR :: LF :: rest := by
    simp [LooseField.bytes, crlf]
  rw [hbytes] at h
  obtain ⟨name, value, hsplit, -, hname, hplain, h⟩ := of_path_line _ (by simp) h
  obtain ⟨rfl, rfl⟩ := eq_of_append_sep _ f.colon_notMem hname hsplit
  have htail : Plain CR LF f.nameTail := fun c hc => hplain c (by simp [hc])
  rw [List.append_assoc] at h
  rcases of_path_value f.gap h with ⟨hgap, h⟩ | ⟨gap₁, zs, hgap, h₁, h⟩
  · rw [path_value_line f.value_plain] at h
    exact ⟨⟨htail, Or.inl hgap⟩, h⟩
  · cases zs with
    | nil =>
      -- the value does not start with the LF of the line end
      have hLF := (f.value_plain f.valueHead (by simp)).2
      exact absurd (of_path_afterCr h).1 hLF
    | cons c gap₂ =>
      rw [List.cons_append] at h
      obtain ⟨rfl, h⟩ := of_path_afterCr h
      rw [← List.append_assoc] at h
      obtain ⟨name₂, value₂, hsplit₂, hne₂, hname₂, hplain₂, h⟩ := of_path_line _ (by simp) h
      have hcolon : ch ':' ∉ gap₂ := f.colon_notMem_gap fun c hc => by rw [hgap]; simp [hc]
      obtain ⟨hgap₂, hvalue₂⟩ := f.plain_of_split hcolon hplain₂ hsplit₂
      rw [path_value_line hvalue₂] at h
      refine ⟨⟨htail, Or.inr ⟨gap₁, gap₂, by rw [hgap]; simp [crlf], h₁, hgap₂, ?_, ?_⟩⟩, h⟩
      · rw [hsplit₂]
        cases name₂ with
        | nil => exact absurd rfl hne₂
        | cons c name₂ =>
          intro e
          exact hname₂ (by rw [← Option.some.inj e]; simp)
      · rw [hsplit₂]
        simp

/-! ## 3. When the range is contained -/

theorem path_fields_iff (fields : List LooseField) :
    path (step CR LF (ch ':')) .lineStart ((fields.map LooseField.bytes).flatten ++ crlf)
      = some .done ↔ ∀ f ∈ fields, f.Proper := by
  induction fields with
  | nil => simp only [List.not_mem_nil, false_implies, implies_true, iff_true]; decide
  | cons f fields ih =>
    rw [List.map_cons, List.flatten_cons, List.append_assoc, List.forall_mem_cons, ← ih]
    constructor
    · exact f.proper_of_path
    · rintro ⟨hf, h⟩
      rw [f.path_of_proper hf, h]

theorem StatusLine.plain (l : StatusLine) : Plain CR LF l.bytes := by
  intro c hc
  simp only [StatusLine.bytes, List.mem_append, List.mem_cons] at hc
  rcases hc with (hc | rfl | rfl | rfl | rfl | rfl | hc) | rfl | rfl | hc
  · constructor <;> (rintro rfl; revert hc; decide)
  · exact ne_lineEnd (p := is_digit) (by decide) (by decide) l.major_digit
  · decide
  · exact ne_lineEnd (p := is_digit) (by decide) (by decide) l.minor_digit
  · decide
  · exact ne_lineEnd (p := is_digit) (by decide) (by decide) l.codeHead_digit
  · exact ne_lineEnd (p := is_digit) (by decide) (by decide) (l.codeTail_digit c hc)
  · decide
  · exact ne_lineEnd (p := is_alnum) (by decide) (by decide) l.reasonHead_alnum
  · exact ne_lineEnd (p := reasonByte) (by decide) (by decide) (l.reasonTail_byte c hc)

/-- A head is one head when its fields are proper. -/
theorem contained_head_iff (x : AcceptedText) :
    Contained x.head ↔ ∀ f ∈ x.fields, f.Proper := by
  have hstatus : path (step CR LF (ch ':')) .first x.head =
      path (step CR LF (ch ':')) .lineStart ((x.fields.map LooseField.bytes).flatten ++ crlf) := by
    rw [AcceptedText.head, List.append_assoc, List.append_assoc,
      path_stay fun c hc => step_first (x.status.plain c hc)]
    rfl
  rw [contained_iff_isBlock, ← path_step_iff (by decide), hstatus, path_fields_iff]

/-- **Whether the range stays in the head.**  The texts accepted are those that hold, after
leading whitespace, a head as the parser reads it; that head is the range that is returned,
and it is one head, with each CR and LF in its place, exactly when each of its fields stays in
its lines. -/
theorem ParseUntil_contained_iff (s : Bytes) :
    ((∃ r, ParseOver HttpHeadersDone s HttpResponseBegin = some r ∧ r.verdict = .ParsedOK) ↔
      ∃ x : AcceptedText, x.bytes = s) ∧
    ∀ x : AcceptedText, ∃ r, ParseOver HttpHeadersDone x.bytes HttpResponseBegin = some r ∧
      r.verdict = .ParsedOK ∧ r.range x.bytes = x.head ∧
      (Contained (r.range x.bytes) ↔ ∀ f ∈ x.fields, f.Proper) := by
  refine ⟨ParseOver_ok_iff s, fun x => ?_⟩
  obtain ⟨r, hr, hv, hrange⟩ := ParseOver_range x
  exact ⟨r, hr, hv, hrange, by rw [hrange, contained_head_iff]⟩

/-! ### A range that is not contained -/

/-- A header line without a colon, the end of the head, and a body with a colon in it. -/
def swallowedBody : Bytes :=
  ascii "HTTP/1.0 200 OK" ++ crlf ++ ascii "X" ++ crlf ++ crlf ++ ascii "Y: z" ++ crlf ++ crlf

/-- The range runs on through the body to its next empty line. -/
theorem swallowedBody_not_contained :
    ParseOver HttpHeadersDone swallowedBody HttpResponseBegin
        = some ⟨.ParsedOK, HttpHeadersDone, 0, swallowedBody.length⟩ ∧
      ¬ ∀ (s : Bytes) (r : Parsed StateType),
        ParseOver HttpHeadersDone s HttpResponseBegin = some r → r.verdict = .ParsedOK →
          Contained (r.range s) := by
  have hcall : ParseOver HttpHeadersDone swallowedBody HttpResponseBegin
      = some ⟨.ParsedOK, HttpHeadersDone, 0, swallowedBody.length⟩ := by
    decide +kernel
  refine ⟨hcall, fun hall => ?_⟩
  have honce := (hall _ _ hcall rfl).once (ascii "HTTP/1.0 200 OK" ++ crlf ++ ascii "X")
    (ascii "Y: z" ++ crlf ++ crlf) (by decide +kernel)
  revert honce
  decide

end ResponseParser

end TwoProxy
