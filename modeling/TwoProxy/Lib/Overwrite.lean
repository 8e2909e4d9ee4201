/-
# A memory that is written from its start

`overwrite xs mem` is what a memory holds after `xs` has been put at its start: `xs`, and behind
it what was there before.  So after a number of writes it is made of pieces of all of them, the
last one first, and may hold texts that nobody has written.

* `countP_overwrite_le`: no symbol is there more often than it has been written.
* `EndsAt.overwrite`: where a pattern can come from.  It was written as a whole, or it was there
  before, or it begins in what was written and ends in what was there (`Joined`).
-/
import Mathlib.Data.List.Basic
import Mathlib.Tactic.Common

namespace Overwrite

variable {α : Type}

/-- Put `xs` at the start of the memory. -/
def overwrite (xs mem : List α) : List α := xs ++ mem.drop xs.length

variable {xs mem pattern : List α} {n : Nat}

/-- Behind what is written nothing changes. -/
theorem drop_overwrite (h : xs.length ≤ n) : (overwrite xs mem).drop n = mem.drop n := by
  unfold overwrite
  rw [List.drop_append, List.drop_eq_nil_of_le h, List.nil_append, List.drop_drop,
    Nat.add_sub_cancel' h]

/-- Nothing is there more often than it was there and is written. -/
theorem countP_overwrite_le (p : α → Bool) (xs mem : List α) :
    (overwrite xs mem).countP p ≤ xs.countP p + mem.countP p := by
  unfold overwrite
  rw [List.countP_append]
  have := (List.drop_sublist xs.length mem).countP_le (p := p)
  omega

/-- The pattern is in the memory, and ends at `e`. -/
def EndsAt (pattern mem : List α) (e : Nat) : Prop :=
  ∃ before after, mem = before ++ pattern ++ after ∧ e = before.length + pattern.length

/-- A pattern behind the position `n`. -/
theorem endsAt_of_drop {before after : List α} (h : mem.drop n = before ++ pattern ++ after)
    (hn : n ≤ mem.length) : EndsAt pattern mem (n + before.length + pattern.length) := by
  refine ⟨mem.take n ++ before, after, ?_, ?_⟩
  · rw [List.append_assoc, List.append_assoc, ← List.append_assoc before, ← h,
      List.take_append_drop]
  · rw [List.length_append, List.length_take, Nat.min_eq_left hn]

/-- The pattern begins in `xs`, at its end, and goes on behind `xs` in the memory. -/
structure Joined (pattern xs mem front back : List α) : Prop where
  split : pattern = front ++ back
  front_ne : front ≠ []
  back_ne : back ≠ []
  front_suffix : front <:+ xs
  back_prefix : back <+: mem.drop xs.length

/-- **Where a pattern comes from.** -/
theorem EndsAt.overwrite {e : Nat} (h : EndsAt pattern (overwrite xs mem) e)
    (hlen : xs.length ≤ mem.length) :
    pattern <:+: xs ∨ (xs.length + pattern.length ≤ e ∧ EndsAt pattern mem e) ∨
      ∃ front back, Joined pattern xs mem front back ∧ e = xs.length + back.length := by
  obtain ⟨before, after, heq, rfl⟩ := h
  have hbehind : ∀ gap, before = xs ++ gap → mem.drop xs.length = gap ++ pattern ++ after →
      xs.length + pattern.length ≤ before.length + pattern.length ∧
        EndsAt pattern mem (before.length + pattern.length) := by
    intro gap hbefore hdrop
    have hends := endsAt_of_drop hdrop hlen
    rw [hbefore, List.length_append]
    exact ⟨by omega, hends⟩
  rw [Overwrite.overwrite, List.append_assoc] at heq
  rcases List.append_eq_append_iff.mp heq with ⟨gap, hbefore, hdrop⟩ | ⟨front, hxs, hfront⟩
  · exact Or.inr (Or.inl (hbehind gap hbefore (by rw [hdrop, List.append_assoc])))
  rcases List.append_eq_append_iff.mp hfront with ⟨more, hfront, -⟩ | ⟨back, hsplit, hback⟩
  · exact Or.inl ⟨before, more, by rw [hxs, hfront, List.append_assoc]⟩
  by_cases hf : front = []
  · subst hf
    exact Or.inr (Or.inl (hbehind [] (by simpa using hxs.symm) (by simp [hback, hsplit])))
  by_cases hb : back = []
  · subst hb
    exact Or.inl ⟨before, [], by rw [hsplit, hxs]; simp⟩
  · have hjoined : Joined pattern xs mem front back :=
      ⟨hsplit, hf, hb, ⟨before, hxs.symm⟩, after, hback.symm⟩
    refine Or.inr (Or.inr ⟨front, back, hjoined, ?_⟩)
    rw [hsplit, hxs, List.length_append, List.length_append, Nat.add_assoc]

end Overwrite
