/-
# Texts of a first line, fields and an empty line

The shape of a message head, over an alphabet with three distinguished symbols: a first line,
any number of fields `name sep value`, and an empty line, each line ended by `cr lf`.  A text
of that shape (`IsBlock`) is what a reader that works line by line sees one head in.

* `mem_block` and `path_step_iff`: the shape as an expression over languages, and the monitor
  `step` that recognises it.
* `clean_of_isBlock`: the monitor follows the one of `Lib/Lines.lean`, so that a block is clean:
  its first empty line is its end.
-/
import TwoProxy.Lib.Grammar
import TwoProxy.Lib.Lines

open scoped Computability

namespace Fields

open Grammar Scan

variable {α : Type} [DecidableEq α]

/-! ## 1. The shape -/

/-- No line ends inside. -/
def Plain (cr lf : α) (line : List α) : Prop := ∀ a ∈ line, a ≠ cr ∧ a ≠ lf

/-- A line `name sep value`, with a name. -/
def IsField (cr lf sep : α) (line : List α) : Prop :=
  ∃ name value, line = name ++ sep :: value ∧ name ≠ [] ∧ sep ∉ name ∧
    Plain cr lf name ∧ Plain cr lf value

/-- A first line, fields, and an empty line. -/
def IsBlock (cr lf sep : α) (text : List α) : Prop :=
  ∃ (first : List α) (fields : List (List α)), text =
      first ++ [cr, lf] ++ (fields.map fun line => line ++ [cr, lf]).flatten ++ [cr, lf] ∧
    Plain cr lf first ∧ ∀ line ∈ fields, IsField cr lf sep line

variable (cr lf sep : α)

/-- A symbol of a line. -/
def textSymbol (a : α) : Bool := a != cr && a != lf

/-- A symbol of a name. -/
def nameSymbol (a : α) : Bool := textSymbol cr lf a && a != sep

/-- A field, with the end of its line. -/
def field : Language α :=
  one (nameSymbol cr lf sep) * many (nameSymbol cr lf sep) * word [sep]
    * many (textSymbol cr lf) * word [cr, lf]

/-- The shape as a language. -/
def block : Language α :=
  many (textSymbol cr lf) * word [cr, lf] * (field cr lf sep)∗ * word [cr, lf]

variable {cr lf sep} {text line : List α}

theorem mem_many_textSymbol : line ∈ many (textSymbol cr lf) ↔ Plain cr lf line := by
  simp [mem_many, textSymbol, Plain]

theorem mem_field :
    text ∈ field cr lf sep ↔ ∃ line, IsField cr lf sep line ∧ line ++ [cr, lf] = text := by
  simp only [field, mul_assoc, mem_one_mul, mem_many_mul, mem_word_mul, mem_word]
  constructor
  · rintro ⟨a, _, ha, ⟨name, _, hname, ⟨_, ⟨value, _, hvalue, rfl, rfl⟩, rfl⟩, rfl⟩, rfl⟩
    have hall : ∀ b ∈ a :: name, nameSymbol cr lf sep b = true := by
      intro b hb
      rcases List.mem_cons.mp hb with rfl | hb
      · exact ha
      · exact hname b hb
    refine ⟨(a :: name) ++ sep :: value, ⟨a :: name, value, rfl, by simp, fun h => ?_,
      fun b hb => ?_, mem_many_textSymbol.mp (mem_many.mpr hvalue)⟩, by simp⟩
    · simpa [nameSymbol] using hall sep h
    · have := hall b hb
      simp only [nameSymbol, textSymbol, Bool.and_eq_true, bne_iff_ne] at this
      exact this.1
  · rintro ⟨_, ⟨name, value, rfl, hne, hsep, hname, hvalue⟩, rfl⟩
    have hall : ∀ b ∈ name, nameSymbol cr lf sep b = true := by
      intro b hb
      have hb' : b ≠ sep := by rintro rfl; exact hsep hb
      simp [nameSymbol, textSymbol, hname b hb, hb']
    cases name with
    | nil => exact absurd rfl hne
    | cons a name =>
      refine ⟨a, _, hall a (by simp), ⟨name, _, fun b hb => hall b (by simp [hb]), ⟨_,
        ⟨value, _, mem_many.mp (mem_many_textSymbol.mpr hvalue), rfl, rfl⟩, rfl⟩, rfl⟩, by simp⟩

/-- **The shape and its expression.** -/
theorem mem_block : text ∈ block cr lf sep ↔ IsBlock cr lf sep text := by
  simp only [block, mul_assoc, mem_many_mul, mem_word_mul]
  constructor
  · rintro ⟨first, _, hfirst, ⟨_, ⟨_, hrest, _, rfl, rfl⟩, rfl⟩, rfl⟩
    obtain ⟨fields, hf, rfl⟩ := (mem_kstar_iff fun _ => mem_field).mp hrest
    exact ⟨first, fields, by simp, mem_many_textSymbol.mp (mem_many.mpr hfirst), hf⟩
  · rintro ⟨first, fields, rfl, hfirst, hf⟩
    exact ⟨first, _, mem_many.mp (mem_many_textSymbol.mpr hfirst), ⟨_, ⟨_,
      (mem_kstar_iff fun _ => mem_field).mpr ⟨fields, hf, rfl⟩, _, rfl, rfl⟩, rfl⟩, by simp⟩

/-! ## 2. The monitor -/

/-- What the monitor remembers of what it has read. -/
inductive State
  | first
  | afterCr
  | lineStart
  | name
  | value
  | blankCr
  | done
  deriving DecidableEq, Repr

open State

/-- The monitor. -/
def step (cr lf sep : α) : State → α → Option State
  | first, a => if a = cr then some afterCr else if a = lf then none else some first
  | afterCr, a => if a = lf then some lineStart else none
  | lineStart, a =>
    if a = cr then some blankCr
    else if a = lf then none
    else if a = sep then none
    else some name
  | name, a =>
    if a = cr then none
    else if a = lf then none
    else if a = sep then some value
    else some name
  | value, a => if a = cr then some afterCr else if a = lf then none else some value
  | blankCr, a => if a = lf then some done else none
  | done, _ => none

/-- **The monitor recognises the shape**: one equation for each of its states. -/
theorem path_step_iff (hsep : sep ≠ cr ∧ sep ≠ lf) :
    path (step cr lf sep) first text = some done ↔ IsBlock cr lf sep text := by
  have hafter : accepted (step cr lf sep) done afterCr =
      word [lf] * accepted (step cr lf sep) done lineStart :=
    accepted_eq_word (by decide) fun _ => rfl
  have hblank : accepted (step cr lf sep) done blankCr = word [lf] := by
    have h : accepted (step cr lf sep) done blankCr =
        word [lf] * accepted (step cr lf sep) done done :=
      accepted_eq_word (by decide) fun _ => rfl
    rw [h, accepted_stop, mul_one]
  have hline : ∀ s, s = first ∨ s = value → accepted (step cr lf sep) done s =
      many (textSymbol cr lf) * (word [cr] * accepted (step cr lf sep) done afterCr) := by
    intro s hs
    rw [word_eq_one]
    refine accepted_eq_many (by rcases hs with rfl | rfl <;> decide) fun a v => ?_
    rcases hs with rfl | rfl <;> simp only [step, textSymbol] <;> grind
  have hname : accepted (step cr lf sep) done name =
      many (nameSymbol cr lf sep) * (word [sep] * accepted (step cr lf sep) done value) := by
    rw [word_eq_one]
    refine accepted_eq_many (by decide) fun a v => ?_
    simp only [step, nameSymbol, textSymbol]
    grind
  have hstart : accepted (step cr lf sep) done lineStart =
      one (nameSymbol cr lf sep) * accepted (step cr lf sep) done name +
        word [cr] * accepted (step cr lf sep) done blankCr := by
    rw [word_eq_one]
    refine accepted_eq_add (by decide) fun a v => ?_
    simp only [step, nameSymbol, textSymbol]
    grind
  have hfields : accepted (step cr lf sep) done lineStart =
      (field cr lf sep)∗ * word [cr, lf] := by
    refine (Language.self_eq_mul_add_iff ?_).mp ?_
    · simp only [field, mul_assoc]
      exact nil_notMem_one_mul
    · refine hstart.trans ?_
      rw [hname, hline value (Or.inr rfl), hafter, hblank, word_mul_word_mul, word_mul_word]
      simp only [field, mul_assoc]
      rfl
  rw [← mem_block, path_eq_stop_iff fun _ => rfl, hline first (Or.inl rfl), hafter, hfields,
    word_mul_word_mul, block]
  simp only [mul_assoc]
  rfl

/-! ### What the monitor does in a line -/

theorem step_first {a : α} (h : a ≠ cr ∧ a ≠ lf) : step cr lf sep first a = some first := by
  simp only [step, if_neg h.1, if_neg h.2]

theorem step_value {a : α} (h : a ≠ cr ∧ a ≠ lf) : step cr lf sep value a = some value := by
  simp only [step, if_neg h.1, if_neg h.2]

theorem step_name {a : α} (h : a ≠ cr ∧ a ≠ lf) (hs : a ≠ sep) :
    step cr lf sep name a = some name := by
  simp only [step, if_neg h.1, if_neg h.2, if_neg hs]

theorem step_lineStart {a : α} (h : a ≠ cr ∧ a ≠ lf) (hs : a ≠ sep) :
    step cr lf sep lineStart a = some name := by
  simp only [step, if_neg h.1, if_neg h.2, if_neg hs]

/-- The end of a value. -/
theorem path_value_end (rest : List α) :
    path (step cr lf sep) value (cr :: lf :: rest) = path (step cr lf sep) lineStart rest := by
  rw [path_cons_some (t := afterCr) (by simp [step]),
    path_cons_some (t := lineStart) (by simp [step])]

theorem path_value_line (h : Plain cr lf line) (rest : List α) :
    path (step cr lf sep) value (line ++ cr :: lf :: rest) =
      path (step cr lf sep) lineStart rest := by
  rw [path_stay (fun a ha => step_value (h a ha)), path_value_end]

/-- A field leads from the start of its line to the start of the next one. -/
theorem path_field (hsep : sep ≠ cr ∧ sep ≠ lf)
    (h : IsField cr lf sep line) (rest : List α) :
    path (step cr lf sep) lineStart (line ++ cr :: lf :: rest) =
      path (step cr lf sep) lineStart rest := by
  obtain ⟨nm, val, rfl, hnm, hmem, hplain, hval⟩ := h
  have hsym : ∀ a ∈ nm, a ≠ sep := by
    rintro a ha rfl
    exact hmem ha
  cases nm with
  | nil => exact absurd rfl hnm
  | cons a nm =>
    have hstay : ∀ b ∈ nm, step cr lf sep name b = some name := fun b hb =>
      step_name (hplain b (by simp [hb])) (hsym b (by simp [hb]))
    rw [List.append_assoc, List.cons_append, List.cons_append,
      path_cons_some (step_lineStart (hplain a (by simp)) (hsym a (by simp))), path_stay hstay,
      path_cons_some (t := value) (by simp [step, hsep.1, hsep.2]), path_value_line hval]

/-- A line end that is got over is a whole one. -/
theorem of_path_afterCr {a : α} {rest : List α}
    (h : path (step cr lf sep) afterCr (a :: rest) = some done) :
    a = lf ∧ path (step cr lf sep) lineStart rest = some done := by
  obtain ⟨t, ht, h⟩ := path_cons_eq_some.mp h
  simp only [step] at ht
  split at ht
  · obtain rfl := Option.some.inj ht
    exact ⟨by assumption, h⟩
  · cases ht

/-- After the `cr` of the empty line there is its `lf`, and no more. -/
theorem of_path_blankCr (h : path (step cr lf sep) blankCr line = some done) : line = [lf] := by
  cases line with
  | nil => cases h
  | cons a rest =>
    obtain ⟨t, ht, h⟩ := path_cons_eq_some.mp h
    simp only [step] at ht
    split at ht
    · obtain rfl := Option.some.inj ht
      cases rest with
      | nil => simp_all
      | cons b rest => rw [path_cons_none rfl] at h; cases h
    · cases ht

/-- **A name that is got over** ends with the first separator, and no line ends in it. -/
theorem of_path_name (xs : List α) {rest : List α}
    (h : path (step cr lf sep) name (xs ++ cr :: rest) = some done) :
    ∃ nm val, xs = nm ++ sep :: val ∧ sep ∉ nm ∧ Plain cr lf nm ∧
      path (step cr lf sep) value (val ++ cr :: rest) = some done := by
  induction xs with
  | nil =>
    rw [List.nil_append, path_cons_none (by simp [step])] at h
    cases h
  | cons a xs ih =>
    rw [List.cons_append] at h
    by_cases ha : a ≠ cr ∧ a ≠ lf
    · by_cases hs : a = sep
      · subst hs
        rw [path_cons_some (t := value) (by simp [step, ha.1, ha.2])] at h
        exact ⟨[], xs, rfl, by simp, by simp [Plain], h⟩
      · rw [path_cons_some (step_name ha hs)] at h
        obtain ⟨nm, val, rfl, h1, h2, h3⟩ := ih h
        refine ⟨a :: nm, val, rfl, ?_, ?_, h3⟩
        · simpa [Ne.symm hs] using h1
        · simpa [Plain] using ⟨ha, h2⟩
    · rw [path_cons_none ?_] at h
      · cases h
      · simp only [step]
        grind

/-- **What follows in a value**: the line goes on to the end of `xs`, or is ended in it. -/
theorem of_path_value (xs : List α) {rest : List α}
    (h : path (step cr lf sep) value (xs ++ rest) = some done) :
    (Plain cr lf xs ∧ path (step cr lf sep) value rest = some done) ∨
      ∃ ys zs, xs = ys ++ cr :: zs ∧ Plain cr lf ys ∧
        path (step cr lf sep) afterCr (zs ++ rest) = some done := by
  induction xs with
  | nil => exact Or.inl ⟨by simp [Plain], h⟩
  | cons a xs ih =>
    rw [List.cons_append] at h
    by_cases hcr : a = cr
    · subst hcr
      rw [path_cons_some (t := afterCr) (by simp [step])] at h
      exact Or.inr ⟨[], xs, rfl, by simp [Plain], h⟩
    · by_cases hlf : a = lf
      · rw [path_cons_none (by simp only [step, if_neg hcr, if_pos hlf])] at h
        cases h
      · rw [path_cons_some (step_value ⟨hcr, hlf⟩)] at h
        rcases ih h with ⟨h1, h2⟩ | ⟨ys, zs, rfl, h1, h2⟩
        · exact Or.inl ⟨by simpa [Plain] using ⟨⟨hcr, hlf⟩, h1⟩, h2⟩
        · exact Or.inr ⟨a :: ys, zs, rfl, by simpa [Plain] using ⟨⟨hcr, hlf⟩, h1⟩, h2⟩

/-- **A line that is got over**: it is not the empty one, and its name is followed by a
separator. -/
theorem of_path_line (xs : List α) {rest : List α} (hxs : xs ≠ [])
    (h : path (step cr lf sep) lineStart (xs ++ cr :: lf :: rest) = some done) :
    ∃ nm val, xs = nm ++ sep :: val ∧ nm ≠ [] ∧ sep ∉ nm ∧ Plain cr lf nm ∧
      path (step cr lf sep) value (val ++ cr :: lf :: rest) = some done := by
  cases xs with
  | nil => exact absurd rfl hxs
  | cons a xs =>
    rw [List.cons_append] at h
    by_cases ha : a ≠ cr ∧ a ≠ lf ∧ a ≠ sep
    · rw [path_cons_some (step_lineStart ⟨ha.1, ha.2.1⟩ ha.2.2)] at h
      obtain ⟨nm, val, rfl, h1, h2, h3⟩ := of_path_name xs h
      refine ⟨a :: nm, val, rfl, by simp, ?_, ?_, h3⟩
      · simpa [ha.2.2.symm] using h1
      · simpa [Plain] using ⟨⟨ha.1, ha.2.1⟩, h2⟩
    · -- a line end, or a separator with no name: only `cr lf` could be read on, as the end
      exfalso
      by_cases hcr : a = cr
      · rw [path_cons_some (t := blankCr) (by simp [step, hcr])] at h
        have hlength := congrArg List.length (of_path_blankCr h)
        simp only [List.length_append, List.length_cons, List.length_nil] at hlength
        omega
      · rw [path_cons_none ?_] at h
        · cases h
        · simp only [step]
          grind

omit [DecidableEq α] in
/-- There is one first separator. -/
theorem eq_of_append_sep {val val' : List α} (nm : List α) :
    ∀ {nm' : List α}, sep ∉ nm → sep ∉ nm' → nm ++ sep :: val = nm' ++ sep :: val' →
      nm = nm' ∧ val = val' := by
  induction nm with
  | nil =>
    intro nm' _ h' h
    cases nm' with
    | nil => exact ⟨rfl, (List.cons.inj h).2⟩
    | cons b nm' => exact absurd (List.cons.inj h).1 (by rintro rfl; simp at h')
  | cons a nm ih =>
    intro nm' h0 h' h
    cases nm' with
    | nil => exact absurd (List.cons.inj h).1 (by rintro rfl; simp at h0)
    | cons b nm' =>
      obtain ⟨rfl, htail⟩ := List.cons.inj h
      obtain ⟨rfl, rfl⟩ := ih (fun e => h0 (by simp [e])) (fun e => h' (by simp [e])) htail
      exact ⟨rfl, rfl⟩

/-- The monitor of `Lib/Lines.lean` does not tell the parts of a line apart. -/
def lineState : State → Lines.State
  | first | name | value => .text
  | afterCr => .afterCr
  | lineStart => .lineStart
  | blankCr => .blankCr
  | done => .done

/-- **A block is clean.** -/
theorem clean_of_isBlock (hne : cr ≠ lf) (hsep : sep ≠ cr ∧ sep ≠ lf)
    (h : IsBlock cr lf sep text) : Lines.Clean cr lf text := by
  refine Lines.clean_of_path hne ?_
  refine (path_simulates (φ := lineState) (I := fun _ => True) ?_ text trivial
    ((path_step_iff hsep).mpr h)).2
  intro s a t _ hn
  refine ⟨trivial, ?_⟩
  cases s <;> simp only [step] at hn <;> (repeat' split at hn) <;> cases hn <;>
    simp_all [Lines.step, lineState]

end Fields
