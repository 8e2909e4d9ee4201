/-
# Scanning with a partial automaton, up to a stop state

A parser that can be handed its input in pieces is a partial automaton `next` and a stop
state: it consumes one symbol at a time until it enters the stop state, until `next` refuses
a symbol, or until the piece is used up.  `scan` is that run over a list, with the number of
symbols it used.

* `scan_append_of_decided`, `scan_append_of_indeterminate`: a scan may be cut anywhere.
* `loop` is the same run the way pointer code writes it: two cursors into one block of
  memory, and a `while` loop whose only bound is `current ≠ end`.  `loop_eq_none_iff` and
  `loop_eq_some` say what it does for EVERY pair of cursors, an inverted pair included: the
  loop then reads on to the end of the block (`reach`).  `parseRange` is a whole call on a
  range of the block.
-/
import Mathlib.Data.List.TakeDrop
import Mathlib.Tactic.Common

namespace Scan

/-- What one call to a stoppable parser reports. -/
inductive Verdict
  | ParsedFailed
  | Indeterminate
  | ParsedOK
  deriving DecidableEq, Repr

/-- The report, the state the automaton is left in, and how many symbols were used.  A
refused symbol counts as used; the state is then the one that refused it. -/
structure Outcome (σ : Type) where
  verdict : Verdict
  state : σ
  used : Nat
  deriving DecidableEq, Repr

/-- The same outcome, seen from `n` symbols earlier. -/
def Outcome.shift {σ : Type} (n : Nat) (r : Outcome σ) : Outcome σ :=
  { r with used := n + r.used }

@[simp] theorem Outcome.shift_verdict {σ : Type} (n : Nat) (r : Outcome σ) :
    (r.shift n).verdict = r.verdict := rfl

@[simp] theorem Outcome.shift_state {σ : Type} (n : Nat) (r : Outcome σ) :
    (r.shift n).state = r.state := rfl

@[simp] theorem Outcome.shift_used {σ : Type} (n : Nat) (r : Outcome σ) :
    (r.shift n).used = n + r.used := rfl

variable {σ α : Type} [DecidableEq σ]

/-! ## 1. The scan -/

/-- Run `next` from `s` over the symbols until the state is `stop`. -/
def scan (next : σ → α → Option σ) (stop : σ) : σ → List α → Outcome σ
  | s, [] => ⟨.Indeterminate, s, 0⟩
  | s, a :: as =>
    if s = stop then ⟨.Indeterminate, s, 0⟩
    else match next s a with
      | none => ⟨.ParsedFailed, s, 1⟩
      | some t => if t = stop then ⟨.ParsedOK, t, 1⟩ else (scan next stop t as).shift 1

variable {next : σ → α → Option σ} {stop s : σ}

@[simp] theorem scan_nil : scan next stop s ([] : List α) = ⟨.Indeterminate, s, 0⟩ := rfl

/-- A scan that starts in its stop state uses nothing, and says so with `Indeterminate`. -/
@[simp] theorem scan_stop (xs : List α) : scan next stop stop xs = ⟨.Indeterminate, stop, 0⟩ := by
  cases xs <;> simp [scan]

theorem scan_cons_none {a : α} (hs : s ≠ stop) (h : next s a = none) (as : List α) :
    scan next stop s (a :: as) = ⟨.ParsedFailed, s, 1⟩ := by
  simp [scan, hs, h]

theorem scan_cons_stop {a : α} (hs : s ≠ stop) (h : next s a = some stop) (as : List α) :
    scan next stop s (a :: as) = ⟨.ParsedOK, stop, 1⟩ := by
  simp [scan, hs, h]

theorem scan_cons_some {a : α} {t : σ} (hs : s ≠ stop) (h : next s a = some t) (ht : t ≠ stop)
    (as : List α) : scan next stop s (a :: as) = (scan next stop t as).shift 1 := by
  simp [scan, hs, h, ht]

theorem scan_used_le (xs : List α) : ∀ s, (scan next stop s xs).used ≤ xs.length := by
  induction xs with
  | nil => intro s; simp
  | cons a as ih =>
    intro s
    by_cases hs : s = stop
    · subst hs; simp
    · cases h : next s a with
      | none => simp [scan_cons_none hs h]
      | some t =>
        by_cases ht : t = stop
        · subst ht; simp [scan_cons_stop hs h]
        · rw [scan_cons_some hs h ht]
          have := ih t
          simp only [Outcome.shift_used, List.length_cons]
          omega

/-- A scan that accepts is left in its stop state. -/
theorem scan_state_of_ok {xs : List α} :
    ∀ {s}, (scan next stop s xs).verdict = .ParsedOK → (scan next stop s xs).state = stop := by
  induction xs with
  | nil => intro s h; simp at h
  | cons a as ih =>
    intro s h
    by_cases hs : s = stop
    · subst hs; simp at h
    · cases hn : next s a with
      | none => rw [scan_cons_none hs hn] at h; exact absurd h (by simp)
      | some t =>
        by_cases ht : t = stop
        · subst ht; rw [scan_cons_stop hs hn]
        · rw [scan_cons_some hs hn ht] at h ⊢
          exact ih h

/-- A scan that accepts has used a symbol: it does not start in its stop state. -/
theorem scan_used_pos_of_ok {xs : List α} (h : (scan next stop s xs).verdict = .ParsedOK) :
    0 < (scan next stop s xs).used := by
  cases xs with
  | nil => simp at h
  | cons a as =>
    by_cases hs : s = stop
    · subst hs; simp at h
    · cases hn : next s a with
      | none => rw [scan_cons_none hs hn] at h; exact absurd h (by simp)
      | some t =>
        by_cases ht : t = stop
        · subst ht; simp [scan_cons_stop hs hn]
        · simp only [scan_cons_some hs hn ht, Outcome.shift_used]
          omega

/-- A scan that neither accepts nor refuses has used the whole piece and is still short of
its stop state, unless it was in the stop state to begin with. -/
theorem scan_of_indeterminate {xs : List α} :
    ∀ {s}, s ≠ stop → (scan next stop s xs).verdict = .Indeterminate →
      (scan next stop s xs).state ≠ stop ∧ (scan next stop s xs).used = xs.length := by
  induction xs with
  | nil => intro s hs _; exact ⟨hs, rfl⟩
  | cons a as ih =>
    intro s hs h
    cases hn : next s a with
    | none => rw [scan_cons_none hs hn] at h; exact absurd h (by simp)
    | some t =>
      by_cases ht : t = stop
      · subst ht; rw [scan_cons_stop hs hn] at h; exact absurd h (by simp)
      · rw [scan_cons_some hs hn ht] at h ⊢
        obtain ⟨h1, h2⟩ := ih ht h
        exact ⟨h1, by simp [h2, Nat.add_comm]⟩

/-! ## 2. A scan may be cut anywhere -/

/-- **A decided scan ignores what follows.**  Once a piece has been accepted or refused,
appending symbols changes nothing. -/
theorem scan_append_of_decided {xs : List α} (ys : List α) :
    ∀ {s}, (scan next stop s xs).verdict ≠ .Indeterminate →
      scan next stop s (xs ++ ys) = scan next stop s xs := by
  induction xs with
  | nil => intro s h; simp at h
  | cons a as ih =>
    intro s h
    by_cases hs : s = stop
    · subst hs; simp at h
    · rw [List.cons_append]
      cases hn : next s a with
      | none => rw [scan_cons_none hs hn, scan_cons_none hs hn]
      | some t =>
        by_cases ht : t = stop
        · subst ht; rw [scan_cons_stop hs hn, scan_cons_stop hs hn]
        · rw [scan_cons_some hs hn ht] at h
          rw [scan_cons_some hs hn ht, scan_cons_some hs hn ht, ih h]

/-- **An undecided scan resumes.**  Appending symbols continues from the state reached, and
the two counts add up. -/
theorem scan_append_of_indeterminate {xs : List α} (ys : List α) :
    ∀ {s}, (scan next stop s xs).verdict = .Indeterminate →
      scan next stop s (xs ++ ys) =
        (scan next stop (scan next stop s xs).state ys).shift (scan next stop s xs).used := by
  induction xs with
  | nil => intro s _; simp [Outcome.shift]
  | cons a as ih =>
    intro s h
    by_cases hs : s = stop
    · subst hs; simp [Outcome.shift]
    · rw [List.cons_append]
      cases hn : next s a with
      | none => rw [scan_cons_none hs hn] at h; exact absurd h (by simp)
      | some t =>
        by_cases ht : t = stop
        · subst ht; rw [scan_cons_stop hs hn] at h; exact absurd h (by simp)
        · rw [scan_cons_some hs hn ht] at h
          rw [scan_cons_some hs hn ht, scan_cons_some hs hn ht, ih h]
          simp [Outcome.shift, Nat.add_assoc]

/-- **A scan refuses two pieces** when it refuses the first, or gets through it and refuses
the second. -/
theorem scan_append_failed_iff {xs : List α} (ys : List α) :
    (scan next stop s (xs ++ ys)).verdict = .ParsedFailed ↔
      (scan next stop s xs).verdict = .ParsedFailed ∨
        (scan next stop (scan next stop s xs).state ys).verdict = .ParsedFailed := by
  cases hv : (scan next stop s xs).verdict with
  | ParsedFailed => rw [scan_append_of_decided _ (by simp [hv]), hv]; simp
  | ParsedOK => rw [scan_append_of_decided _ (by simp [hv]), hv, scan_state_of_ok hv]; simp
  | Indeterminate => rw [scan_append_of_indeterminate _ hv]; simp

/-- A run of `next` over a whole list, with no stop state. -/
def path (next : σ → α → Option σ) : σ → List α → Option σ
  | s, [] => some s
  | s, a :: as => (next s a).bind fun t => path next t as

omit [DecidableEq σ] in
@[simp] theorem path_nil : path next s ([] : List α) = some s := rfl

omit [DecidableEq σ] in
theorem path_cons {a : α} {as : List α} :
    path next s (a :: as) = (next s a).bind fun t => path next t as := rfl

omit [DecidableEq σ] in
theorem path_cons_eq_some {a : α} {as : List α} {u : σ} :
    path next s (a :: as) = some u ↔ ∃ t, next s a = some t ∧ path next t as = some u := by
  rw [path_cons, Option.bind_eq_some_iff]

omit [DecidableEq σ] in
theorem path_cons_some {a : α} {t : σ} (h : next s a = some t) (as : List α) :
    path next s (a :: as) = path next t as := by
  rw [path_cons, h, Option.bind_some]

omit [DecidableEq σ] in
theorem path_cons_none {a : α} (h : next s a = none) (as : List α) :
    path next s (a :: as) = none := by
  rw [path_cons, h, Option.bind_none]

omit [DecidableEq σ] in
/-- Symbols that lead back to the state they are read in. -/
theorem path_stay {xs : List α} (h : ∀ a ∈ xs, next s a = some s) (ys : List α) :
    path next s (xs ++ ys) = path next s ys := by
  induction xs with
  | nil => rfl
  | cons a xs ih =>
    rw [List.cons_append, path_cons_some (h a (by simp))]
    exact ih fun b hb => h b (by simp [hb])

omit [DecidableEq σ] in
theorem path_append (xs ys : List α) :
    ∀ s, path next s (xs ++ ys) = (path next s xs).bind fun t => path next t ys := by
  induction xs with
  | nil => intro s; rfl
  | cons a as ih =>
    intro s
    rw [List.cons_append, path_cons, path_cons, Option.bind_assoc]
    exact congrArg _ (funext fun t => ih t)

omit [DecidableEq σ] in
theorem path_append_eq_some {xs ys : List α} {u : σ} :
    path next s (xs ++ ys) = some u ↔ ∃ t, path next s xs = some t ∧ path next t ys = some u := by
  rw [path_append, Option.bind_eq_some_iff]

omit [DecidableEq σ] in
/-- The last symbol of a run, split off. -/
theorem path_concat_eq_some {xs : List α} {a : α} {u : σ} :
    path next s (xs ++ [a]) = some u ↔ ∃ t, path next s xs = some t ∧ next t a = some u := by
  rw [path_append_eq_some]
  simp [path_cons]

omit [DecidableEq σ] in
/-- **A run inside a set of states**, over symbols that have what each step needs. -/
theorem path_invariant {I : σ → Prop} {P : α → Prop}
    (hstep : ∀ s a t, I s → next s a = some t → I t ∧ P a) (xs : List α) :
    ∀ {s t}, I s → path next s xs = some t → I t ∧ ∀ a ∈ xs, P a := by
  induction xs with
  | nil =>
    intro s t hs h
    obtain rfl := Option.some.inj h
    exact ⟨hs, by simp⟩
  | cons a as ih =>
    intro s t hs h
    obtain ⟨u, hu, h⟩ := path_cons_eq_some.mp h
    obtain ⟨h1, h2⟩ := hstep _ _ _ hs hu
    obtain ⟨h3, h4⟩ := ih h1 h
    exact ⟨h3, by simpa using ⟨h2, h4⟩⟩

omit [DecidableEq σ] in
/-- **A run of one automaton, seen by another** that follows each of its steps. -/
theorem path_simulates {τ : Type} {next' : τ → α → Option τ} {φ : σ → τ} {I : σ → Prop}
    (hstep : ∀ s a t, I s → next s a = some t → I t ∧ next' (φ s) a = some (φ t))
    (xs : List α) :
    ∀ {s t}, I s → path next s xs = some t → I t ∧ path next' (φ s) xs = some (φ t) := by
  induction xs with
  | nil =>
    intro s t hs h
    obtain rfl := Option.some.inj h
    exact ⟨hs, rfl⟩
  | cons a as ih =>
    intro s t hs h
    obtain ⟨u, hu, h⟩ := path_cons_eq_some.mp h
    obtain ⟨h1, h2⟩ := hstep _ _ _ hs hu
    obtain ⟨h3, h4⟩ := ih h1 h
    exact ⟨h3, by rw [path_cons, h2, Option.bind_some, h4]⟩

/-! ## 3. The same run with two cursors and a `while` loop -/

/-- The local variables of the loop. -/
structure Cursor (σ : Type) where
  state : σ
  start : Nat
  current : Nat
  parsedOK : Bool
  parsedComplete : Bool

/-- What the flags say after the loop. -/
def Cursor.verdict (c : Cursor σ) : Verdict :=
  if c.parsedComplete then .ParsedOK
  else if c.parsedOK then .Indeterminate
  else .ParsedFailed

/-- One round of the loop body on the symbol under `current`.  `moveStart` is what the body
does to the start of the range it will return. -/
def Cursor.round (next : σ → α → Option σ) (moveStart : σ → α → Nat → Nat → Nat) (stop : σ)
    (c : Cursor σ) (a : α) : Cursor σ :=
  match next c.state a with
  | none => { c with current := c.current + 1, parsedOK := false }
  | some t =>
    { state := t
      start := moveStart c.state a c.start c.current
      current := c.current + 1
      parsedOK := true
      parsedComplete := if t = stop then true else c.parsedComplete }

/-- The loop, over the symbols of the block from `current` on.  `none`: `current` is
dereferenced past the end of the block. -/
def loop (next : σ → α → Option σ) (moveStart : σ → α → Nat → Nat → Nat) (stop : σ)
    (fin : Nat) : List α → Cursor σ → Option (Cursor σ)
  | [], c =>
    if c.current ≠ fin ∧ stop ≠ c.state ∧ c.parsedOK = true then none else some c
  | a :: as, c =>
    if c.current ≠ fin ∧ stop ≠ c.state ∧ c.parsedOK = true
    then loop next moveStart stop fin as (c.round next moveStart stop a)
    else some c

/-- The symbols the loop can reach: up to `fin` when it lies ahead, and otherwise all of
them, since `current ≠ fin` never fails. -/
def reach (fin current : Nat) (bytes : List α) : List α :=
  if current ≤ fin then bytes.take (fin - current) else bytes

omit [DecidableEq σ] in
@[simp] theorem reach_self (n : Nat) (bytes : List α) : reach n n bytes = [] := by
  simp [reach]

theorem reach_cons {fin current : Nat} (h : current ≠ fin) (a : α) (as : List α) :
    reach fin current (a :: as) = a :: reach fin (current + 1) as := by
  unfold reach
  by_cases hle : current ≤ fin
  · have h1 : current + 1 ≤ fin := by omega
    have h2 : fin - current = (fin - (current + 1)) + 1 := by omega
    rw [if_pos hle, if_pos h1, h2, List.take_succ_cons]
  · rw [if_neg hle, if_neg (by omega)]

theorem reach_drop {fin current n : Nat} (bytes : List α)
    (h : current ≤ fin → current + n ≤ fin) :
    (reach fin current bytes).drop n = reach fin (current + n) (bytes.drop n) := by
  unfold reach
  by_cases hle : current ≤ fin
  · rw [if_pos hle, if_pos (h hle), List.drop_take, Nat.sub_sub]
  · rw [if_neg hle, if_neg (by omega)]

variable {moveStart : σ → α → Nat → Nat → Nat} {fin : Nat}

theorem round_of_none {c : Cursor σ} {a : α} (hn : next c.state a = none) :
    c.round next moveStart stop a = { c with current := c.current + 1, parsedOK := false } := by
  simp only [Cursor.round, hn]

theorem round_of_some {c : Cursor σ} {a : α} (hn : next c.state a = some t) :
    c.round next moveStart stop a =
      ⟨t, moveStart c.state a c.start c.current, c.current + 1, true,
        if t = stop then true else c.parsedComplete⟩ := by
  simp only [Cursor.round, hn]

@[simp] theorem round_current (c : Cursor σ) (a : α) :
    (c.round next moveStart stop a).current = c.current + 1 := by
  unfold Cursor.round
  split <;> rfl

theorem loop_done {c : Cursor σ} (h : ¬ (c.current ≠ fin ∧ stop ≠ c.state ∧ c.parsedOK = true))
    (bytes : List α) : loop next moveStart stop fin bytes c = some c := by
  cases bytes <;> simp only [loop, if_neg h]

/-- **When the loop leaves the block**: the cursors are inverted, or the end lies past the
block, and nothing it can reach decides the scan. -/
theorem loop_eq_none_iff (bytes : List α) :
    ∀ c : Cursor σ, c.parsedOK = true →
      (loop next moveStart stop fin bytes c = none ↔
        c.state ≠ stop ∧ (fin < c.current ∨ c.current + bytes.length < fin) ∧
          (scan next stop c.state (reach fin c.current bytes)).verdict = .Indeterminate) := by
  induction bytes with
  | nil =>
    intro c hok
    have hr : reach fin c.current ([] : List α) = [] := by unfold reach; split <;> simp
    rw [hr]
    simp only [loop, hok, and_true, scan_nil, List.length_nil, Nat.add_zero]
    constructor
    · intro h
      split at h
      · rename_i hc; exact ⟨fun e => hc.2 e.symm, by omega⟩
      · exact absurd h (by simp)
    · rintro ⟨h1, h2⟩
      rw [if_pos ⟨by omega, fun e => h1 e.symm⟩]
  | cons a as ih =>
    intro c hok
    by_cases hc : c.current ≠ fin ∧ stop ≠ c.state ∧ c.parsedOK = true
    · obtain ⟨hcur, hst, -⟩ := hc
      have hs : c.state ≠ stop := fun e => hst e.symm
      rw [loop, if_pos ⟨hcur, hst, hok⟩, reach_cons hcur]
      cases hn : next c.state a with
      | none =>
        rw [round_of_none hn, loop_done (by simp), scan_cons_none hs hn]
        simp
      | some t =>
        rw [round_of_some hn]
        by_cases ht : t = stop
        · subst ht
          rw [loop_done (by simp), scan_cons_stop hs hn]
          simp
        · rw [ih _ rfl, scan_cons_some hs hn ht]
          simp only [Outcome.shift_verdict, List.length_cons]
          constructor
          · rintro ⟨-, h2, h3⟩; exact ⟨hs, by omega, h3⟩
          · rintro ⟨-, h2, h3⟩; exact ⟨ht, by omega, h3⟩
    · rw [loop_done hc]
      simp only [reduceCtorEq, false_iff, not_and]
      intro hs hfin
      exact absurd ⟨by simp only [List.length_cons] at hfin; omega, fun e => hs e.symm, hok⟩ hc

/-- **What the loop computes otherwise**: the scan of the symbols it can reach. -/
theorem loop_eq_some {c' : Cursor σ} (bytes : List α) :
    ∀ c : Cursor σ, c.parsedOK = true → c.parsedComplete = false →
      loop next moveStart stop fin bytes c = some c' →
      c'.state = (scan next stop c.state (reach fin c.current bytes)).state ∧
        c'.current = c.current + (scan next stop c.state (reach fin c.current bytes)).used ∧
        c'.verdict = (scan next stop c.state (reach fin c.current bytes)).verdict := by
  induction bytes with
  | nil =>
    intro c hok hcomp h
    have hr : reach fin c.current ([] : List α) = [] := by unfold reach; split <;> simp
    simp only [loop] at h
    split at h
    · exact absurd h (by simp)
    · simp only [Option.some.injEq] at h
      subst h
      simp [hr, Cursor.verdict, hok, hcomp]
  | cons a as ih =>
    intro c hok hcomp h
    by_cases hc : c.current ≠ fin ∧ stop ≠ c.state ∧ c.parsedOK = true
    · have hs : c.state ≠ stop := fun e => hc.2.1 e.symm
      rw [loop, if_pos hc] at h
      rw [reach_cons hc.1]
      cases hn : next c.state a with
      | none =>
        rw [round_of_none hn, loop_done (by simp)] at h
        simp only [Option.some.injEq] at h
        subst h
        simp [scan_cons_none hs hn, Cursor.verdict, hcomp]
      | some t =>
        rw [round_of_some hn] at h
        by_cases ht : t = stop
        · subst ht
          rw [loop_done (by simp)] at h
          simp only [Option.some.injEq] at h
          subst h
          simp [scan_cons_stop hs hn, Cursor.verdict]
        · obtain ⟨h1, h2, h3⟩ := ih _ rfl (by simp [ht, hcomp]) h
          rw [scan_cons_some hs hn ht]
          exact ⟨h1, by simp only [h2, Outcome.shift_used]; omega, h3⟩
    · rw [loop_done hc] at h
      simp only [Option.some.injEq] at h
      subst h
      have hstop : scan next stop c.state (reach fin c.current (a :: as)) =
          ⟨.Indeterminate, c.state, 0⟩ := by
        by_cases hs : c.state = stop
        · rw [hs]; simp
        · have : c.current = fin := by
            by_contra hne
            exact hc ⟨hne, fun e => hs e.symm, hok⟩
          rw [this]; simp
      simp [hstop, Cursor.verdict, hok, hcomp]

/-- The states from which the beginning of the range stays where it is. -/
structure Fixed (next : σ → α → Option σ) (moveStart : σ → α → Nat → Nat → Nat)
    (I : σ → Prop) : Prop where
  stays : ∀ s a t, I s → next s a = some t → I t
  start : ∀ s a start current, I s → moveStart s a start current = start

/-- A body that leaves the start of the range alone returns it as it was given. -/
theorem Fixed.loop_start {c' : Cursor σ} {I : σ → Prop} (hI : Fixed next moveStart I)
    (bytes : List α) :
    ∀ c : Cursor σ, I c.state → loop next moveStart stop fin bytes c = some c' →
      c'.start = c.start := by
  induction bytes with
  | nil =>
    intro c _ h
    simp only [loop] at h
    split at h
    · exact absurd h (by simp)
    · rw [← Option.some.inj h]
  | cons a as ih =>
    intro c hc h
    simp only [loop] at h
    split at h
    · cases hn : next c.state a with
      | none =>
        rw [round_of_none hn, loop_done (by simp)] at h
        rw [← Option.some.inj h]
      | some t =>
        rw [round_of_some hn] at h
        have hstart := ih _ (hI.stays _ _ _ hc hn) h
        rw [hstart]
        exact hI.start _ _ _ _ hc
    · rw [← Option.some.inj h]

/-- The start of the range, for a body that never moves it. -/
theorem loop_start {c' : Cursor σ} (bytes : List α) (c : Cursor σ)
    (h : loop next (fun _ _ start _ => start) stop fin bytes c = some c') : c'.start = c.start :=
  Fixed.loop_start (I := fun _ => True) ⟨fun _ _ _ _ _ => trivial, fun _ _ _ _ _ => rfl⟩
    bytes c trivial h

/-! ## 4. A call on a range of a block of memory -/

/-- What a call returns: the report, the state, and the range it matched. -/
structure Parsed (σ : Type) where
  verdict : Verdict
  state : σ
  first : Nat
  second : Nat
  deriving DecidableEq, Repr

/-- The call: the loop from `first` towards `second` in `memory`, and the flags read after
it. -/
def parseRange (next : σ → α → Option σ) (moveStart : σ → α → Nat → Nat → Nat) (stop : σ)
    (memory : List α) (first second : Nat) (s : σ) : Option (Parsed σ) :=
  (loop next moveStart stop second (memory.drop first) ⟨s, first, first, true, false⟩).map
    fun c => ⟨c.verdict, c.state, c.start, c.current⟩

/-- The symbols a call on `[first, second)` can reach. -/
def available (memory : List α) (first second : Nat) : List α :=
  reach second first (memory.drop first)

variable {memory : List α} {first second : Nat}

theorem available_of_le (h : first ≤ second) :
    available memory first second = memory.extract first second := by
  rw [available, reach, if_pos h, List.extract_eq_take_drop]

theorem available_of_lt (h : second < first) :
    available memory first second = memory.drop first := by
  rw [available, reach, if_neg (by omega)]

omit [DecidableEq σ] in
theorem available_drop {n : Nat} (h : first ≤ second → first + n ≤ second) :
    (available memory first second).drop n = available memory (first + n) second := by
  rw [available, reach_drop _ h, List.drop_drop, available]

/-- What was matched is a prefix of what could be reached. -/
theorem take_available {n : Nat} (h : n ≤ (available memory first second).length) :
    memory.extract first (first + n) = (available memory first second).take n := by
  rw [List.extract_eq_take_drop, Nat.add_sub_cancel_left]
  unfold available reach at h ⊢
  split
  · rename_i hle
    rw [if_pos hle, List.length_take] at h
    rw [List.take_take, Nat.min_eq_left (by omega)]
  · rfl

/-- **When a call leaves the block.** -/
theorem parseRange_eq_none_iff (hf : first ≤ memory.length) (hs : second ≤ memory.length) :
    parseRange next moveStart stop memory first second s = none ↔
      s ≠ stop ∧ second < first ∧
        (scan next stop s (available memory first second)).verdict = .Indeterminate := by
  rw [parseRange, Option.map_eq_none_iff, loop_eq_none_iff _ _ rfl, List.length_drop]
  have hlen : second < first ∨ first + (memory.length - first) < second ↔ second < first := by
    omega
  rw [hlen, available]

/-- **What a call returns otherwise.** -/
theorem parseRange_eq_some {p : Parsed σ}
    (h : parseRange next moveStart stop memory first second s = some p) :
    p.verdict = (scan next stop s (available memory first second)).verdict ∧
      p.state = (scan next stop s (available memory first second)).state ∧
      p.second = first + (scan next stop s (available memory first second)).used := by
  obtain ⟨c, hc, rfl⟩ := Option.map_eq_some_iff.mp h
  obtain ⟨h1, h2, h3⟩ := loop_eq_some _ _ rfl rfl hc
  exact ⟨h3, h1, h2⟩

/-- In the stop state the loop is not entered, whatever the two cursors are. -/
theorem parseRange_stop (moveStart : σ → α → Nat → Nat → Nat) (memory : List α)
    (first second : Nat) :
    parseRange next moveStart stop memory first second stop
      = some ⟨.Indeterminate, stop, first, first⟩ := by
  rw [parseRange, loop_done (by simp)]
  rfl

/-- The start of the range, for a body that leaves it alone. -/
theorem parseRange_first {p : Parsed σ}
    (h : parseRange next (fun _ _ start _ => start) stop memory first second s = some p) :
    p.first = first := by
  obtain ⟨c, hc, rfl⟩ := Option.map_eq_some_iff.mp h
  exact loop_start _ _ hc

end Scan
