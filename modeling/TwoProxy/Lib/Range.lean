/-
# The range a call returns

`Scan.parseRange` returns a range next to its verdict.  Its end is the number of symbols used
(`Scan.parseRange_eq_some`); this module is about its beginning, and about what of the block of
memory a call depends on.

* `parseRange_frame`: a call with its cursors in order is the call on a block that holds the
  range and nothing else, moved to where the range lies.
* `parseRange_fixed`: a body that leaves the beginning alone returns it as it was given.
* `parseRange_trim`: a body that moves the beginning past the leading symbols of a class
  returns the symbols used without those.
-/
import TwoProxy.Lib.Scan

namespace Scan

variable {σ α : Type} [DecidableEq σ] {next : σ → α → Option σ} {stop s : σ}
  {moveStart : σ → α → Nat → Nat → Nat} {fin : Nat}

/-! ## 1. Where the range lies -/

/-- The same cursor in a block with `n` more symbols in front. -/
def Cursor.shift (n : Nat) (c : Cursor σ) : Cursor σ :=
  { c with start := n + c.start, current := n + c.current }

/-- The same result in a block with `n` more symbols in front. -/
def Parsed.shift (n : Nat) (p : Parsed σ) : Parsed σ :=
  { p with first := n + p.first, second := n + p.second }

/-- How many symbols a range has. -/
def Parsed.length (p : Parsed σ) : Nat := p.second - p.first

/-- The symbols of the range. -/
def Parsed.range (p : Parsed σ) (memory : List α) : List α := memory.extract p.first p.second

/-- A body that moves the beginning by positions, wherever the block begins. -/
def Equivariant (moveStart : σ → α → Nat → Nat → Nat) : Prop :=
  ∀ s a n start current,
    moveStart s a (n + start) (n + current) = n + moveStart s a start current

theorem round_shift (hm : Equivariant moveStart) (n : Nat) (c : Cursor σ) (a : α) :
    (c.shift n).round next moveStart stop a = (c.round next moveStart stop a).shift n := by
  unfold Cursor.round Cursor.shift
  dsimp only
  cases next c.state a with
  | none => simp [Nat.add_assoc]
  | some t => simp [hm c.state a n, Nat.add_assoc]

/-- A loop whose end lies ahead sees the symbols up to it, and nothing else. -/
theorem loop_frame (hm : Equivariant moveStart) (n : Nat) (bytes : List α) :
    ∀ c : Cursor σ, c.current ≤ fin → fin ≤ c.current + bytes.length →
      loop next moveStart stop (n + fin) bytes (c.shift n) =
        (loop next moveStart stop fin (bytes.take (fin - c.current)) c).map (Cursor.shift n) := by
  induction bytes with
  | nil =>
    intro c h1 h2
    have hc : c.current = fin := by simp only [List.length_nil] at h2; omega
    rw [loop_done (by simp [Cursor.shift, hc]), loop_done (by simp [hc])]
    rfl
  | cons a as ih =>
    intro c h1 h2
    by_cases hc : c.current ≠ fin ∧ stop ≠ c.state ∧ c.parsedOK = true
    · have htake : fin - c.current = (fin - (c.current + 1)) + 1 := by omega
      rw [htake, List.take_succ_cons, loop, loop, if_pos hc,
        if_pos ⟨by simp only [Cursor.shift]; omega, hc.2⟩, round_shift hm,
        ih _ (by rw [round_current]; omega)
          (by rw [round_current]; simp only [List.length_cons] at h2; omega), round_current]
    · rw [loop_done hc, loop_done ?_]
      · rfl
      · intro h
        exact hc ⟨by have := h.1; simp only [Cursor.shift] at this; omega, h.2⟩

/-- **A call depends on its range only.** -/
theorem parseRange_frame (hm : Equivariant moveStart) {memory : List α} {first second : Nat}
    (h : first ≤ second) (hs : second ≤ memory.length) :
    parseRange next moveStart stop memory first second s =
      (parseRange next moveStart stop (memory.extract first second) 0
        (memory.extract first second).length s).map (Parsed.shift first) := by
  have hlen : (memory.extract first second).length = second - first := by
    rw [List.extract_eq_take_drop, List.length_take, List.length_drop]
    omega
  have hsec : second = first + (second - first) := by omega
  have hframe : loop next moveStart stop (first + (second - first)) (memory.drop first) _ = _ :=
    loop_frame hm first (memory.drop first) ⟨s, 0, 0, true, false⟩ (Nat.zero_le _)
      (by rw [List.length_drop]; omega)
  rw [parseRange, parseRange, hlen, List.drop_zero, List.extract_eq_take_drop, Option.map_map]
  rw [← hsec, Nat.sub_zero] at hframe
  have hcursor : (⟨s, first, first, true, false⟩ : Cursor σ) =
      (⟨s, 0, 0, true, false⟩ : Cursor σ).shift first := rfl
  rw [hcursor, hframe, Option.map_map]
  rfl

/-- A call whose range is the whole block comes back, with what the scan says. -/
theorem parseRange_self (next : σ → α → Option σ) (moveStart : σ → α → Nat → Nat → Nat)
    (stop : σ) (xs : List α) (s : σ) :
    ∃ first, parseRange next moveStart stop xs 0 xs.length s =
      some ⟨(scan next stop s xs).verdict, (scan next stop s xs).state, first,
        (scan next stop s xs).used⟩ := by
  have havail : available xs 0 xs.length = xs := by
    rw [available_of_le (Nat.zero_le _), List.extract_eq_take_drop]
    simp
  cases hp : parseRange next moveStart stop xs 0 xs.length s with
  | none =>
    have := (parseRange_eq_none_iff (Nat.zero_le _) (Nat.le_refl _)).mp hp
    exact absurd this.2.1 (Nat.not_lt_zero _)
  | some p =>
    obtain ⟨h1, h2, h3⟩ := parseRange_eq_some hp
    rw [havail] at h1 h2 h3
    exact ⟨p.first, by rw [← h1, ← h2, ← Nat.zero_add (scan next stop s xs).used, ← h3]⟩

/-- A loop that has decided does not look further.  The flag `parsedComplete` is set in the
stop state only, which is what makes it stop there. -/
theorem loop_append_of_decided {c' : Cursor σ} (ys : List α) (bytes : List α) :
    ∀ c : Cursor σ, c.current + bytes.length = fin →
      (c.parsedComplete = true → c.state = stop) →
      loop next moveStart stop fin bytes c = some c' → c'.verdict ≠ .Indeterminate →
      loop next moveStart stop (fin + ys.length) (bytes ++ ys) c = some c' := by
  induction bytes with
  | nil =>
    intro c hfin hinv h hv
    rw [loop_done (by simpa using fun hne => absurd hfin hne)] at h
    obtain rfl := Option.some.inj h
    refine loop_done ?_ _
    rintro ⟨-, hstop, hok⟩
    have hcomplete : c.parsedComplete = false :=
      Bool.eq_false_iff.mpr fun e => hstop (hinv e).symm
    exact hv (by simp [Cursor.verdict, hok, hcomplete])
  | cons a as ih =>
    intro c hfin hinv h hv
    rw [List.length_cons] at hfin
    rw [List.cons_append]
    by_cases hc : stop ≠ c.state ∧ c.parsedOK = true
    · rw [loop, if_pos ⟨by omega, hc⟩] at h ⊢
      refine ih _ ?_ ?_ h hv
      · rw [round_current]
        omega
      · cases hn : next c.state a with
        | none => rw [round_of_none hn]; exact hinv
        | some t =>
          rw [round_of_some hn]
          intro e
          by_contra ht
          rw [if_neg ht] at e
          exact hc.1 (hinv e).symm
    · rw [loop_done fun e => hc e.2] at h
      rw [loop_done fun e => hc e.2, h]

/-- **A decided call ignores what follows its range.** -/
theorem parseRange_append_of_decided {xs : List α} {p : Parsed σ}
    (h : parseRange next moveStart stop xs 0 xs.length s = some p)
    (hv : p.verdict ≠ .Indeterminate) (ys : List α) :
    parseRange next moveStart stop (xs ++ ys) 0 (xs ++ ys).length s = some p := by
  obtain ⟨c, hc, rfl⟩ := Option.map_eq_some_iff.mp h
  rw [List.drop_zero] at hc
  rw [parseRange, List.drop_zero, List.length_append,
    loop_append_of_decided ys xs _ (by simp) (by simp) hc hv]
  rfl

/-! ## 2. Where the range begins -/

variable {I : σ → Prop}

/-- **A beginning that stays.** -/
theorem parseRange_fixed (hI : Fixed next moveStart I) (hs : I s) (xs : List α) :
    parseRange next moveStart stop xs 0 xs.length s =
      some ⟨(scan next stop s xs).verdict, (scan next stop s xs).state, 0,
        (scan next stop s xs).used⟩ := by
  obtain ⟨first, hp⟩ := parseRange_self next moveStart stop xs s
  obtain ⟨c, hc, he⟩ := Option.map_eq_some_iff.mp hp
  have hfirst : c.start = first := congrArg Parsed.first he
  rw [hp, ← hfirst, hI.loop_start _ _ hs hc]

/-- In the state `s₀` the symbols of the class `lead` are passed over, and the beginning of
the range with them; any other symbol leaves the state for good, and the range begins with
it. -/
structure Trims (next : σ → α → Option σ) (moveStart : σ → α → Nat → Nat → Nat) (s₀ : σ)
    (lead : α → Bool) : Prop where
  skip : ∀ a, lead a = true → next s₀ a = some s₀
  skip_start : ∀ a start current, lead a = true → moveStart s₀ a start current = start + 1
  leave : ∀ a t, lead a = false → next s₀ a = some t → t ≠ s₀
  leave_start : ∀ a t start current, lead a = false → next s₀ a = some t →
    moveStart s₀ a start current = current
  fixed : Fixed next moveStart (· ≠ s₀)

variable {s₀ : σ} {lead : α → Bool}

/-- While the state is `s₀` the two cursors are together. -/
theorem Trims.loop_start {c' : Cursor σ} (hT : Trims next moveStart s₀ lead) (hstop : s₀ ≠ stop)
    (bytes : List α) :
    ∀ c : Cursor σ, c.state = s₀ → c.start = c.current → c.parsedOK = true →
      c.current + bytes.length = fin → loop next moveStart stop fin bytes c = some c' →
      c'.start = c.start + (bytes.takeWhile lead).length := by
  induction bytes with
  | nil =>
    intro c _ _ _ hfin h
    rw [loop_done (by simpa using fun hne => absurd hfin hne)] at h
    rw [← Option.some.inj h]
    rfl
  | cons a as ih =>
    intro c hc hcur hok hfin h
    rw [List.length_cons] at hfin
    rw [loop, if_pos ⟨by omega, by rw [hc]; exact fun e => hstop e.symm, hok⟩] at h
    cases hl : lead a with
    | true =>
      rw [round_of_some (hc ▸ hT.skip a hl), hc, hT.skip_start a _ _ hl, if_neg hstop] at h
      have hstart := ih _ rfl (by simp [hcur]) rfl (by simp only; omega) h
      rw [hstart, List.takeWhile_cons, if_pos hl, List.length_cons]
      simp only
      omega
    | false =>
      rw [List.takeWhile_cons, if_neg (by simp [hl])]
      cases hn : next s₀ a with
      | none =>
        rw [round_of_none (hc ▸ hn), loop_done (by simp)] at h
        rw [← Option.some.inj h]
        rfl
      | some t =>
        rw [round_of_some (hc ▸ hn), hc, hT.leave_start a t _ _ hl hn] at h
        have hstart := hT.fixed.loop_start _ _ (hT.leave a t hl hn) h
        rw [hstart, hcur]
        rfl

/-- **A beginning that is trimmed.** -/
theorem parseRange_trim (hT : Trims next moveStart s₀ lead) (hstop : s₀ ≠ stop)
    (xs : List α) :
    parseRange next moveStart stop xs 0 xs.length s₀ =
      some ⟨(scan next stop s₀ xs).verdict, (scan next stop s₀ xs).state,
        (xs.takeWhile lead).length, (scan next stop s₀ xs).used⟩ := by
  obtain ⟨first, hp⟩ := parseRange_self next moveStart stop xs s₀
  obtain ⟨c, hc, he⟩ := Option.map_eq_some_iff.mp hp
  have hfirst : c.start = first := congrArg Parsed.first he
  rw [hp, ← hfirst, hT.loop_start hstop _ _ rfl rfl rfl (by simp) hc, List.drop_zero, Nat.zero_add]

/-! ## 3. Trimming in pieces -/

/-- What a call from `s` returns of the symbols it used. -/
def trimmed (s₀ : σ) (lead : α → Bool) (s : σ) (xs : List α) : List α :=
  if s = s₀ then xs.dropWhile lead else xs

theorem Fixed.scan_state (hI : Fixed next moveStart I) (xs : List α) :
    ∀ {s}, I s → I (scan next stop s xs).state := by
  induction xs with
  | nil => intro s hs; exact hs
  | cons a as ih =>
    intro s hs
    by_cases hst : s = stop
    · subst hst; simpa using hs
    · cases hn : next s a with
      | none => rw [scan_cons_none hst hn]; exact hs
      | some t =>
        have ht := hI.stays _ _ _ hs hn
        by_cases hts : t = stop
        · subst hts; rw [scan_cons_stop hst hn]; exact ht
        · rw [scan_cons_some hst hn hts]; exact ih ht

/-- A piece leaves the state `s₀` when it holds a symbol that is not passed over. -/
theorem Trims.scan_state_iff (hT : Trims next moveStart s₀ lead) (hstop : s₀ ≠ stop)
    {xs : List α} (h : (scan next stop s₀ xs).verdict = .Indeterminate) :
    (scan next stop s₀ xs).state = s₀ ↔ xs.dropWhile lead = [] := by
  induction xs with
  | nil => simp
  | cons a as ih =>
    cases hl : lead a with
    | true =>
      have hn := hT.skip a hl
      rw [scan_cons_some hstop hn hstop] at h ⊢
      rw [List.dropWhile_cons_of_pos hl]
      exact ih h
    | false =>
      rw [List.dropWhile_cons_of_neg (by simp [hl])]
      cases hn : next s₀ a with
      | none => rw [scan_cons_none hstop hn] at h; exact absurd h (by simp)
      | some t =>
        by_cases ht : t = stop
        · subst ht; rw [scan_cons_stop hstop hn] at h; exact absurd h (by simp)
        · rw [scan_cons_some hstop hn ht]
          exact iff_of_false (hT.fixed.scan_state as (hT.leave a t hl hn)) (by simp)

/-- **What is returned of two pieces** is what is returned of the first, and of the second
from the state the first one leads to. -/
theorem Trims.trimmed_append (hT : Trims next moveStart s₀ lead) {s : σ} (hstop : s ≠ stop)
    {xs : List α} (h : (scan next stop s xs).verdict = .Indeterminate) (ys : List α) :
    trimmed s₀ lead s (xs ++ ys) =
      trimmed s₀ lead s xs ++ trimmed s₀ lead (scan next stop s xs).state ys := by
  unfold trimmed
  by_cases hs : s = s₀
  · subst hs
    have hstate := hT.scan_state_iff hstop h
    rw [if_pos rfl, if_pos rfl, List.dropWhile_append]
    by_cases hall : xs.dropWhile lead = []
    · rw [if_pos (hstate.mpr hall), hall]
      rfl
    · rw [if_neg (fun e => hall (hstate.mp e)), if_neg (by simpa using hall)]
  · rw [if_neg hs, if_neg hs, if_neg (hT.fixed.scan_state xs hs)]

/-- The leading symbols are used. -/
theorem Trims.takeWhile_le_used (hT : Trims next moveStart s₀ lead) (hstop : s₀ ≠ stop)
    (xs : List α) : (xs.takeWhile lead).length ≤ (scan next stop s₀ xs).used := by
  induction xs with
  | nil => simp
  | cons a as ih =>
    cases hl : lead a with
    | true =>
      rw [scan_cons_some hstop (hT.skip a hl) hstop, List.takeWhile_cons_of_pos hl]
      simp only [List.length_cons, Outcome.shift_used]
      omega
    | false => rw [List.takeWhile_cons_of_neg (by simp [hl])]; exact Nat.zero_le _

theorem drop_takeWhile_length (lead : α → Bool) (xs : List α) :
    ∀ n, (xs.takeWhile lead).length ≤ n →
      (xs.take n).drop (xs.takeWhile lead).length = (xs.take n).dropWhile lead := by
  induction xs with
  | nil => simp
  | cons a as ih =>
    intro n hn
    cases hl : lead a with
    | true =>
      rw [List.takeWhile_cons_of_pos hl, List.length_cons] at hn ⊢
      obtain ⟨n, rfl⟩ := Nat.exists_eq_add_one_of_ne_zero (show n ≠ 0 by omega)
      rw [List.take_succ_cons, List.drop_succ_cons, List.dropWhile_cons_of_pos hl]
      exact ih n (by omega)
    | false =>
      rw [List.takeWhile_cons_of_neg (by simp [hl])]
      cases n with
      | zero => rfl
      | succ n =>
        rw [List.take_succ_cons, List.dropWhile_cons_of_neg (by simp [hl])]
        rfl

/-- **A call on a block of its own**, whatever state it starts from. -/
theorem Trims.parseRange (hT : Trims next moveStart s₀ lead) (stop s : σ) (xs : List α) :
    ∃ r, Scan.parseRange next moveStart stop xs 0 xs.length s = some r ∧
      r.verdict = (scan next stop s xs).verdict ∧ r.state = (scan next stop s xs).state ∧
      r.second = (scan next stop s xs).used ∧
      r.range xs = trimmed s₀ lead s (xs.take (scan next stop s xs).used) := by
  by_cases hs : s = s₀
  · subst hs
    by_cases hstop : s = stop
    · subst hstop
      refine ⟨⟨.Indeterminate, s, 0, 0⟩, ?_, by simp, by simp, by simp, ?_⟩
      · rw [Scan.parseRange, loop_done (by simp)]
        rfl
      · simp [Parsed.range, trimmed, List.extract_eq_take_drop]
    · refine ⟨_, parseRange_trim hT hstop xs, rfl, rfl, rfl, ?_⟩
      rw [trimmed, if_pos rfl, ← drop_takeWhile_length lead xs _ (hT.takeWhile_le_used hstop xs),
        Parsed.range, List.extract_eq_take_drop, List.drop_take]
  · refine ⟨_, parseRange_fixed hT.fixed hs xs, rfl, rfl, rfl, ?_⟩
    simp [Parsed.range, trimmed, hs, List.extract_eq_take_drop]

end Scan
