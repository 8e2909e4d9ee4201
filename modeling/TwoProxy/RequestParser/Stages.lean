/-
# `RequestParser` in pieces and in stages

The parser keeps its state between calls, so that a caller may hand it the head in pieces, and
`HandleBrowserReadHeaders` also parses it in four stages, one for each token.  Neither shows
in what is parsed.

* `ParseUntil_incremental`, first half: a call over `a ++ b` is the call over `a`, resumed over
  `b` where that one has not decided.
* Second half: the four stages, each resumed where the last one ended, come to the verdict,
  the state and the consumption of one call to `HeadersDone`, and their ranges cover the bytes
  consumed.  The stop states are unavoidable (`stage_before`), so a stage is the beginning of
  the whole run, or all of it (`Lexer.Stage.scan_final`).
-/
import Mathlib.Algebra.GroupWithZero.Nat
import TwoProxy.RequestParser.Grammar

namespace TwoProxy

namespace RequestParser

open Scan StateType

/-! ## 1. The stages -/

/-- Parse `memory` up to `second` in stages.  Each call resumes where the last one ended, in
the state it ended in; the first one that does not end its stage is the last one made. -/
def ParseStages (memory : Bytes) (second : Nat) :
    List StateType → Nat → StateType → Option (List (Parsed StateType))
  | [], _, _ => some []
  | stop :: stops, first, s =>
    (ParseUntil stop memory (first, second) s).bind fun r =>
      if r.verdict = .ParsedOK then
        (ParseStages memory second stops r.second r.state).map (r :: ·)
      else some [r]

/-- The stop states a run from `s` to `HeadersDone` meets, in order. -/
def Staged : StateType → List StateType → Prop
  | _, [] => False
  | s, [stop] => Before stop s ∧ stop = HeadersDone
  | s, stop :: stops => Before stop s ∧ stop ≠ HeadersDone ∧ Staged stop stops

theorem staged_MethodStart :
    Staged MethodStart [MethodDone, UriDone, VersionDone, HeadersDone] := by
  simp only [Staged]
  decide

/-- A call on what is left of the memory. -/
theorem ParseUntil_drop (stop s : StateType) {xs : Bytes} {first : Nat}
    (h : first ≤ xs.length) :
    ParseUntil stop xs (first, xs.length) s =
      some ⟨(scan next stop s (xs.drop first)).verdict,
        (scan next stop s (xs.drop first)).state, first,
        first + (scan next stop s (xs.drop first)).used⟩ := by
  have hrange : xs.extract first xs.length = xs.drop first := by
    rw [List.extract_eq_take_drop]
    exact List.take_of_length_le (by rw [List.length_drop])
  rw [ParseUntil_eq_ParseOver stop s h (Nat.le_refl _), hrange, ParseOver_eq]
  rfl

theorem extract_drop (xs : Bytes) (first n : Nat) :
    xs.extract first (first + n) = (xs.drop first).take n := by
  rw [List.extract_eq_take_drop, Nat.add_sub_cancel_left]

/-- What the calls made come to: the last one has the verdict, the state and the end of the
scan, and together they cover the symbols it used. -/
structure Covers (xs : Bytes) (first : Nat) (whole : Outcome StateType)
    (rs : List (Parsed StateType)) (final : Parsed StateType) : Prop where
  final_mem : rs.getLast? = some final
  verdict : final.verdict = whole.verdict
  state : final.state = whole.state
  second : final.second = first + whole.used
  consumed : (rs.map Parsed.length).sum = whole.used
  ranges : (rs.map fun r => r.range xs).flatten = (xs.drop first).take whole.used

/-- A stage that is not ended is the only call. -/
theorem covers_single (xs : Bytes) (first : Nat) (r : Outcome StateType) :
    Covers xs first r [⟨r.verdict, r.state, first, first + r.used⟩]
      ⟨r.verdict, r.state, first, first + r.used⟩ where
  final_mem := rfl
  verdict := rfl
  state := rfl
  second := rfl
  consumed := by simp [Parsed.length]
  ranges := by simp [Parsed.range, List.extract_eq_take_drop]

/-- A stage that is ended, and the calls after it. -/
theorem Covers.cons {xs : Bytes} {first used : Nat} {whole : Outcome StateType}
    {rs : List (Parsed StateType)} {final : Parsed StateType} (v : Verdict) (s : StateType)
    (h : Covers xs (first + used) whole rs final) :
    Covers xs first (whole.shift used) (⟨v, s, first, first + used⟩ :: rs) final where
  final_mem := by
    rw [List.getLast?_cons, h.final_mem]
    rfl
  verdict := h.verdict
  state := h.state
  second := by rw [h.second, Outcome.shift_used, Nat.add_assoc]
  consumed := by
    rw [List.map_cons, List.sum_cons, h.consumed]
    simp [Parsed.length]
  ranges := by
    rw [List.map_cons, List.flatten_cons, h.ranges, Parsed.range, extract_drop,
      Outcome.shift_used, ← List.drop_drop, List.take_add]

/-- **Parsing in stages**, by induction on the stages that are left. -/
theorem ParseStages_covers {xs : Bytes} (stops : List StateType) :
    ∀ {s : StateType} {first : Nat}, Staged s stops → first ≤ xs.length →
      ∃ rs final, ParseStages xs xs.length stops first s = some rs ∧
        Covers xs first (scan next HeadersDone s (xs.drop first)) rs final := by
  induction stops with
  | nil => intro s first h _; exact h.elim
  | cons stop stops ih =>
    intro s first h hfirst
    have hcall := ParseUntil_drop stop s hfirst
    have hused : (scan next stop s (xs.drop first)).used ≤ xs.length - first := by
      rw [← List.length_drop]
      exact scan_used_le _ _
    rw [ParseStages, hcall, Option.bind_some]
    cases stops with
    | nil =>
      obtain ⟨-, rfl⟩ := h
      refine ⟨_, _, ?_, covers_single xs first _⟩
      split <;> rfl
    | cons stop' stops =>
      obtain ⟨hb, hstop, hrest⟩ := h
      obtain ⟨hopen, hended⟩ :=
        (stage_before stop).scan_final hstop (xs.drop first) hb hb.1
      by_cases hv : (scan next stop s (xs.drop first)).verdict = .ParsedOK
      · have hle : first + (scan next stop s (xs.drop first)).used ≤ xs.length := by omega
        obtain ⟨rs, final, hrs, hc⟩ := ih hrest hle
        rw [if_pos hv]
        refine ⟨_, final, by rw [scan_state_of_ok hv, hrs]; rfl, ?_⟩
        have hwhole := hended hv
        rw [List.drop_drop] at hwhole
        rw [lexer_next, lexer_final] at hwhole
        rw [hwhole]
        exact hc.cons _ _
      · have hwhole := hopen hv
        rw [lexer_next, lexer_final] at hwhole
        rw [if_neg hv, hwhole]
        exact ⟨_, _, rfl, covers_single xs first _⟩

/-! ## 2. Pieces and stages -/

/-- **`RequestParser` is incremental, and its stages compose.**  A decided call is not changed
by what follows; an undecided one is continued.  And from `MethodStart` the four stages come
to what one call to `HeadersDone` comes to, over the same bytes. -/
theorem ParseUntil_incremental :
    (∀ (p q : StateType) (a b : Bytes), ∃ ra rab,
      ParseOver q a p = some ra ∧ ParseOver q (a ++ b) p = some rab ∧
        (ra.verdict ≠ .Indeterminate → rab = ra) ∧
        (ra.verdict = .Indeterminate → ∃ rb, ParseOver q b ra.state = some rb ∧
          rab.verdict = rb.verdict ∧ rab.state = rb.state ∧
          rab.length = ra.length + rb.length)) ∧
    (∀ s : Bytes, ∃ r rs final, ParseOver HeadersDone s MethodStart = some r ∧
      ParseStages s s.length [MethodDone, UriDone, VersionDone, HeadersDone] 0 MethodStart
        = some rs ∧
      rs.getLast? = some final ∧ final.verdict = r.verdict ∧ final.state = r.state ∧
      (rs.map Parsed.length).sum = r.length ∧
      (rs.map fun p => p.range s).flatten = r.range s) := by
  refine ⟨fun p q a b => ?_, fun s => ?_⟩
  · refine ⟨_, _, ParseOver_eq q a p, ParseOver_eq q (a ++ b) p, fun hv => ?_, fun hv => ?_⟩
    · rw [scan_append_of_decided b hv]
    · refine ⟨_, ParseOver_eq q b _, ?_⟩
      rw [scan_append_of_indeterminate b hv]
      simp [Parsed.length]
  · obtain ⟨rs, final, hrs, hc⟩ :=
      ParseStages_covers _ staged_MethodStart (Nat.zero_le s.length)
    rw [List.drop_zero] at hc
    refine ⟨_, rs, final, ParseOver_eq HeadersDone s MethodStart, hrs, hc.final_mem, hc.verdict,
      hc.state, ?_, ?_⟩
    · rw [hc.consumed]
      rfl
    · rw [hc.ranges]
      simp [Parsed.range, List.extract_eq_take_drop]

end RequestParser

end TwoProxy
