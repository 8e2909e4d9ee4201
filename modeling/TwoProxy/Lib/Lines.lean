/-
# Texts made of terminated lines

A text over an alphabet with two distinguished symbols `cr` and `lf` is `Clean` when the two
occur as the pair `cr lf` only, and when the first empty line is its end.  That is what a
reader that works line by line needs in order to see one message, and no more.

`step` is a monitor for it: an automaton with five states that reads the text once.
`clean_of_path` says that what the monitor accepts is clean, so that a producer shows it by
following the monitor through what it writes.
-/
import TwoProxy.Lib.Scan

namespace Lines

open Scan

variable {α : Type} [DecidableEq α]

/-- Every `lf` follows a `cr`, every `cr` is followed by an `lf`, and the first empty line is
the end. -/
structure Clean (cr lf : α) (text : List α) : Prop where
  lf_after_cr : ∀ before after, text = before ++ lf :: after → ∃ init, before = init ++ [cr]
  cr_before_lf : ∀ before after, text = before ++ cr :: after → ∃ rest, after = lf :: rest
  ends : ∃ init, text = init ++ [cr, lf, cr, lf]
  first : ∀ before after, text = before ++ [cr, lf, cr, lf] ++ after → after = []

/-- What the monitor remembers of what it has read. -/
inductive State
  | text
  | afterCr
  | lineStart
  | blankCr
  | done
  deriving DecidableEq, Repr

open State

/-- The monitor. -/
def step (cr lf : α) : State → α → Option State
  | text, a => if a = cr then some afterCr else if a = lf then none else some text
  | afterCr, a => if a = lf then some lineStart else none
  | lineStart, a => if a = cr then some blankCr else if a = lf then none else some text
  | blankCr, a => if a = lf then some done else none
  | done, _ => none

variable {cr lf : α} {s t : State} {a : α} {xs : List α}

/-- The states after a `cr`. -/
theorem eq_cr_of_step (h : step cr lf s a = some t) (ht : t = afterCr ∨ t = blankCr) : a = cr := by
  rcases ht with rfl | rfl <;> cases s <;> simp only [step] at h <;> (repeat' split at h) <;>
    simp_all

/-- The states in which an `lf` is accepted are the states after a `cr`. -/
theorem of_step_lf (hne : cr ≠ lf) (h : step cr lf s lf = some t) : s = afterCr ∨ s = blankCr := by
  cases s <;> simp_all [step, hne.symm]

theorem of_step_cr (hne : cr ≠ lf) (h : step cr lf s cr = some t) :
    t = afterCr ∨ t = blankCr := by
  cases s <;> simp only [step] at h <;> (repeat' split at h) <;> simp_all

/-- A prefix that leads to a state after a `cr` ends with one. -/
theorem concat_cr_of_path (h : path (step cr lf) text xs = some s)
    (hs : s = afterCr ∨ s = blankCr) : ∃ init, xs = init ++ [cr] := by
  rcases List.eq_nil_or_concat xs with rfl | ⟨init, a, rfl⟩
  · obtain rfl := Option.some.inj h
    rcases hs with hs | hs <;> cases hs
  · rw [List.concat_eq_append] at h ⊢
    obtain ⟨u, -, hu⟩ := path_concat_eq_some.mp h
    exact ⟨init, by rw [eq_cr_of_step hu hs]⟩

/-- From a state after a `cr` nothing but an `lf` leads on. -/
theorem cons_lf_of_path (h : path (step cr lf) s xs = some done)
    (hs : s = afterCr ∨ s = blankCr) : ∃ rest, xs = lf :: rest := by
  cases xs with
  | nil =>
    obtain rfl := Option.some.inj h
    rcases hs with hs | hs <;> cases hs
  | cons a rest =>
    obtain ⟨u, hu, -⟩ := path_cons_eq_some.mp h
    refine ⟨rest, ?_⟩
    rcases hs with rfl | rfl <;> simp only [step] at hu <;> split at hu <;> simp_all

/-- The symbol by which a state other than `text` is entered, and where from. -/
theorem step_eq_done (h : step cr lf s a = some done) : s = blankCr ∧ a = lf := by
  cases s <;> simp only [step] at h <;> (repeat' split at h) <;> simp_all

theorem step_eq_blankCr (h : step cr lf s a = some blankCr) : s = lineStart ∧ a = cr := by
  cases s <;> simp only [step] at h <;> (repeat' split at h) <;> simp_all

theorem step_eq_lineStart (h : step cr lf s a = some lineStart) : s = afterCr ∧ a = lf := by
  cases s <;> simp only [step] at h <;> (repeat' split at h) <;> simp_all

/-- An accepted text ends with an empty line. -/
theorem ends_of_path (h : path (step cr lf) text xs = some done) :
    ∃ init, xs = init ++ [cr, lf, cr, lf] := by
  have hlast : ∀ {ys : List α} {t : State}, t ≠ text →
      path (step cr lf) text ys = some t → ∃ init a u, ys = init ++ [a] ∧
        path (step cr lf) text init = some u ∧ step cr lf u a = some t := by
    intro ys t ht hp
    rcases List.eq_nil_or_concat ys with rfl | ⟨init, a, rfl⟩
    · exact absurd (Option.some.inj hp).symm ht
    · rw [List.concat_eq_append] at hp ⊢
      obtain ⟨u, h1, h2⟩ := path_concat_eq_some.mp hp
      exact ⟨init, a, u, rfl, h1, h2⟩
  obtain ⟨i₁, a₁, u₁, rfl, h₁, hs₁⟩ := hlast (by simp) h
  obtain ⟨rfl, rfl⟩ := step_eq_done hs₁
  obtain ⟨i₂, a₂, u₂, rfl, h₂, hs₂⟩ := hlast (by simp) h₁
  obtain ⟨rfl, rfl⟩ := step_eq_blankCr hs₂
  obtain ⟨i₃, a₃, u₃, rfl, h₃, hs₃⟩ := hlast (by simp) h₂
  obtain ⟨rfl, rfl⟩ := step_eq_lineStart hs₃
  obtain ⟨i₄, rfl⟩ := concat_cr_of_path h₃ (Or.inl rfl)
  exact ⟨i₄, by simp⟩

/-- Wherever the monitor is, an empty line is the end. -/
theorem path_emptyLine (hne : cr ≠ lf) (h : path (step cr lf) s [cr, lf, cr, lf] = some t) :
    t = done := by
  cases s <;> simp_all [path, step]

/-- **What the monitor accepts is clean.** -/
theorem clean_of_path (hne : cr ≠ lf) (h : path (step cr lf) text xs = some done) :
    Clean cr lf xs where
  lf_after_cr := by
    rintro before after rfl
    obtain ⟨s, hb, ha⟩ := path_append_eq_some.mp h
    obtain ⟨t, ht, -⟩ := path_cons_eq_some.mp ha
    exact concat_cr_of_path hb (of_step_lf hne ht)
  cr_before_lf := by
    rintro before after rfl
    obtain ⟨s, -, ha⟩ := path_append_eq_some.mp h
    obtain ⟨t, ht, ha⟩ := path_cons_eq_some.mp ha
    exact cons_lf_of_path ha (of_step_cr hne ht)
  ends := ends_of_path h
  first := by
    rintro before after rfl
    rw [List.append_assoc] at h
    obtain ⟨s, -, h⟩ := path_append_eq_some.mp h
    obtain ⟨t, ht, h⟩ := path_append_eq_some.mp h
    obtain rfl := path_emptyLine hne ht
    cases after with
    | nil => rfl
    | cons a after => simp [path_cons, step] at h

/-- An accepted text in which an empty line begins ends with it. -/
theorem eq_lf_of_path (hne : cr ≠ lf) {before after : List α}
    (h : path (step cr lf) s (before ++ [cr, lf, cr] ++ after) = some done) : after = [lf] := by
  obtain ⟨u, hu, hafter⟩ := path_append_eq_some.mp h
  obtain ⟨v, -, hu⟩ := path_append_eq_some.mp hu
  obtain rfl : u = blankCr := by
    cases v <;> simp_all [path, step]
  obtain ⟨rest, rfl⟩ := cons_lf_of_path hafter (Or.inr rfl)
  obtain ⟨t, ht, hrest⟩ := path_cons_eq_some.mp hafter
  obtain rfl : done = t := by simpa [step] using ht
  cases rest with
  | nil => rfl
  | cons a rest => simp [path_cons, step] at hrest

/-- Lines that are accepted are an empty line, or end with one. -/
theorem emptyLine_or_ends_of_path (hne : cr ≠ lf)
    (h : path (step cr lf) lineStart xs = some done) :
    xs = [cr, lf] ∨ ∃ init, xs = init ++ [cr, lf, cr, lf] := by
  have htext : path (step cr lf) text ([cr, lf] ++ xs) = some done :=
    path_append_eq_some.mpr ⟨lineStart, by simp [path, step], h⟩
  obtain ⟨init, hinit⟩ := ends_of_path htext
  match init with
  | [] => exact Or.inl (by simpa using hinit)
  | [a] => simp_all
  | a :: b :: init => exact Or.inr ⟨init, by simpa using (List.cons.inj (List.cons.inj hinit).2).2⟩

/-- Ordinary symbols leave the monitor in the text. -/
theorem path_text (h : ∀ a ∈ xs, a ≠ cr ∧ a ≠ lf) :
    path (step cr lf) text xs = some text := by
  have hstay : ∀ a ∈ xs, step cr lf text a = some text := by
    intro a ha
    rw [step, if_neg (h a ha).1, if_neg (h a ha).2]
  rw [← List.append_nil xs, path_stay hstay, path_nil]

end Lines
