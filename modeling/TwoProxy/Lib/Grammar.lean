/-
# What a scan accepts, as a language

A partial automaton with a stop state accepts a word when it enters the stop state with the
last symbol of it.  `accepted s` is the language of those words from the state `s`, and a
verdict about a text is a question about it:

* `scan_ok_iff`: the scan accepts, having used `n` symbols, exactly when the first `n` symbols
  are a word of the language.
* `scan_failed_iff`, `scan_indeterminate_iff`: where every state can still be completed, a
  refused text is one that no continuation can save, and an undecided one is a text that has
  no word yet and can be continued to one.

The automaton gives one equation for each state (`accepted_eq_one`, `accepted_eq_add`), and a
loop of it is closed by Arden's lemma, so that the language of the start state comes out as
an expression over `one`, `many` and `word`.
-/
import Mathlib.Computability.Language
import TwoProxy.Lib.Scan

open scoped Computability

/-! ## 1. Expressions -/

namespace Grammar

variable {α : Type} {p : α → Bool} {a : α} {w : List α} {K : Language α}

/-- One symbol of a class. -/
def one (p : α → Bool) : Language α := {w | ∃ a, p a = true ∧ w = [a]}

/-- Any number of symbols of a class. -/
def many (p : α → Bool) : Language α := (one p)∗

/-- The one word `w`. -/
def word (w : List α) : Language α := {w}

theorem mem_one : w ∈ one p ↔ ∃ a, p a = true ∧ w = [a] := Iff.rfl

theorem mem_word {v : List α} : v ∈ word w ↔ v = w := Iff.rfl

/-- The words of a star, when the words of the language are known. -/
theorem mem_kstar_iff {β : Type} {P : β → Prop} {f : β → List α} {L : Language α}
    (h : ∀ w, w ∈ L ↔ ∃ x, P x ∧ f x = w) :
    w ∈ L∗ ↔ ∃ xs : List β, (∀ x ∈ xs, P x) ∧ (xs.map f).flatten = w := by
  rw [Language.mem_kstar]
  constructor
  · rintro ⟨ws, rfl, hws⟩
    induction ws with
    | nil => exact ⟨[], by simp, rfl⟩
    | cons v ws ih =>
      obtain ⟨xs, hxs, heq⟩ := ih fun u hu => hws u (by simp [hu])
      obtain ⟨x, hx, rfl⟩ := (h v).mp (hws v (by simp))
      exact ⟨x :: xs, by simpa using ⟨hx, hxs⟩, by simp [heq]⟩
  · rintro ⟨xs, hxs, rfl⟩
    refine ⟨_, rfl, fun v hv => ?_⟩
    obtain ⟨x, hx, rfl⟩ := List.mem_map.mp hv
    exact (h _).mpr ⟨x, hxs x hx, rfl⟩

theorem mem_many : w ∈ many p ↔ ∀ a ∈ w, p a = true := by
  have h : ∀ v, v ∈ one p ↔ ∃ a, p a = true ∧ [a] = v := fun v => by
    simp only [mem_one, eq_comm (b := v)]
  have hflatten : ∀ xs : List α, (xs.map fun a => [a]).flatten = xs := fun xs => by
    rw [← List.flatMap_def, List.flatMap_singleton']
  simp only [many, mem_kstar_iff h, hflatten, exists_eq_right]

theorem nil_notMem_one : [] ∉ one p := by
  rintro ⟨a, -, h⟩
  cases h

theorem nil_notMem_one_mul : [] ∉ one p * K := by
  rintro ⟨u, ⟨a, -, rfl⟩, v, -, h⟩
  cases h

theorem cons_mem_one_mul : a :: w ∈ one p * K ↔ p a = true ∧ w ∈ K := by
  constructor
  · rintro ⟨u, ⟨b, hb, rfl⟩, v, hv, h⟩
    obtain ⟨rfl, rfl⟩ := List.cons.inj h
    exact ⟨hb, hv⟩
  · rintro ⟨ha, hw⟩
    exact ⟨[a], ⟨a, ha, rfl⟩, w, hw, rfl⟩

/-! ### A word of a product, taken apart from the left -/

theorem mem_one_mul : w ∈ one p * K ↔ ∃ a v, p a = true ∧ v ∈ K ∧ w = a :: v := by
  rw [Language.mem_mul]
  constructor
  · rintro ⟨_, ⟨a, ha, rfl⟩, v, hv, rfl⟩
    exact ⟨a, v, ha, hv, rfl⟩
  · rintro ⟨a, v, ha, hv, rfl⟩
    exact ⟨[a], ⟨a, ha, rfl⟩, v, hv, rfl⟩

theorem mem_many_mul :
    w ∈ many p * K ↔ ∃ u v, (∀ a ∈ u, p a = true) ∧ v ∈ K ∧ w = u ++ v := by
  rw [Language.mem_mul]
  constructor
  · rintro ⟨u, hu, v, hv, rfl⟩
    exact ⟨u, v, mem_many.mp hu, hv, rfl⟩
  · rintro ⟨u, v, hu, hv, rfl⟩
    exact ⟨u, mem_many.mpr hu, v, hv, rfl⟩

theorem mem_word_mul {u : List α} : w ∈ word u * K ↔ ∃ v, v ∈ K ∧ w = u ++ v := by
  rw [Language.mem_mul]
  constructor
  · rintro ⟨_, rfl, v, hv, rfl⟩
    exact ⟨v, hv, rfl⟩
  · rintro ⟨v, hv, rfl⟩
    exact ⟨u, rfl, v, hv, rfl⟩

theorem word_eq_one [BEq α] [LawfulBEq α] : word [a] = one (· == a) := by
  ext v
  simp [mem_word, mem_one]

theorem word_mul_word (u v : List α) : word u * word v = word (u ++ v) := by
  ext x
  rw [Language.mem_mul, mem_word]
  constructor
  · rintro ⟨a, rfl, b, rfl, rfl⟩
    rfl
  · rintro rfl
    exact ⟨u, rfl, v, rfl, rfl⟩

theorem word_mul_word_mul (u v : List α) : word u * (word v * K) = word (u ++ v) * K := by
  rw [← mul_assoc, word_mul_word]

end Grammar

namespace Scan

open Grammar

variable {σ α : Type} [DecidableEq σ] {next : σ → α → Option σ} {stop s t u : σ}

/-! ## 2. The words accepted from a state -/

/-- The run over the whole of a word, into the stop state with its last symbol. -/
def Accepts (next : σ → α → Option σ) (stop : σ) : σ → List α → Prop
  | s, [] => s = stop
  | s, a :: w => s ≠ stop ∧ ∃ t, next s a = some t ∧ Accepts next stop t w

/-- The language of a state. -/
def accepted (next : σ → α → Option σ) (stop s : σ) : Language α := {w | Accepts next stop s w}

omit [DecidableEq σ] in
theorem nil_mem_accepted : [] ∈ accepted next stop s ↔ s = stop := Iff.rfl

omit [DecidableEq σ] in
theorem cons_mem_accepted {a : α} {w : List α} :
    a :: w ∈ accepted next stop s ↔
      s ≠ stop ∧ ∃ t, next s a = some t ∧ w ∈ accepted next stop t := Iff.rfl

omit [DecidableEq σ] in
theorem accepted_stop : accepted next stop stop = 1 := by
  ext w
  cases w with
  | nil => simp [nil_mem_accepted]
  | cons a w => simp [cons_mem_accepted]

omit [DecidableEq σ] in
/-- A state is left through one class of symbols. -/
theorem accepted_eq_one {p : α → Bool} (hs : s ≠ stop)
    (h : ∀ a, next s a = if p a = true then some t else none) :
    accepted next stop s = one p * accepted next stop t := by
  ext w
  cases w with
  | nil => exact iff_of_false hs nil_notMem_one_mul
  | cons a w =>
    rw [cons_mem_accepted, cons_mem_one_mul, h]
    cases p a <;> simp [hs]

omit [DecidableEq σ] in
/-- A state is left through either of two classes of symbols. -/
theorem accepted_eq_add {p q : α → Bool} (hs : s ≠ stop)
    (h : ∀ a v, next s a = some v ↔ (p a = true ∧ v = t) ∨ (q a = true ∧ v = u)) :
    accepted next stop s = one p * accepted next stop t + one q * accepted next stop u := by
  ext w
  rw [Language.mem_add]
  cases w with
  | nil => exact iff_of_false hs (fun h => h.elim nil_notMem_one_mul nil_notMem_one_mul)
  | cons a w =>
    rw [cons_mem_accepted, cons_mem_one_mul, cons_mem_one_mul]
    constructor
    · rintro ⟨-, v, hv, hw⟩
      rcases (h a v).mp hv with ⟨ha, rfl⟩ | ⟨ha, rfl⟩
      · exact Or.inl ⟨ha, hw⟩
      · exact Or.inr ⟨ha, hw⟩
    · rintro (⟨ha, hw⟩ | ⟨ha, hw⟩)
      · exact ⟨hs, t, (h a t).mpr (Or.inl ⟨ha, rfl⟩), hw⟩
      · exact ⟨hs, u, (h a u).mpr (Or.inr ⟨ha, rfl⟩), hw⟩

omit [DecidableEq σ] in
/-- A state is left through one symbol. -/
theorem accepted_eq_word [DecidableEq α] {b : α} (hs : s ≠ stop)
    (h : ∀ a, next s a = if a = b then some t else none) :
    accepted next stop s = word [b] * accepted next stop t := by
  rw [word_eq_one]
  exact accepted_eq_one hs fun a => by rw [h]; simp only [beq_iff_eq]

omit [DecidableEq σ] in
/-- A state that a class of symbols leads back to, and another leads out of. -/
theorem accepted_eq_many {p q : α → Bool} (hs : s ≠ stop)
    (h : ∀ a v, next s a = some v ↔ (p a = true ∧ v = s) ∨ (q a = true ∧ v = t)) :
    accepted next stop s = many p * (one q * accepted next stop t) :=
  (Language.self_eq_mul_add_iff nil_notMem_one).mp (accepted_eq_add hs h)

omit [DecidableEq σ] in
/-- In an automaton that cannot leave its stop state, the words are the runs into it. -/
theorem path_eq_stop_iff (hstop : ∀ a, next stop a = none) (w : List α) :
    ∀ {s}, path next s w = some stop ↔ w ∈ accepted next stop s := by
  induction w with
  | nil => intro s; rw [path_nil, nil_mem_accepted, Option.some.injEq]
  | cons a w ih =>
    intro s
    rw [path_cons_eq_some, cons_mem_accepted]
    constructor
    · rintro ⟨t, hn, hp⟩
      refine ⟨?_, t, hn, ih.mp hp⟩
      rintro rfl
      rw [hstop] at hn
      cases hn
    · rintro ⟨-, t, hn, hw⟩
      exact ⟨t, hn, ih.mpr hw⟩

/-! ## 3. Verdicts about a text -/

theorem scan_of_mem_accepted {w : List α} (ys : List α) :
    ∀ {s}, s ≠ stop → w ∈ accepted next stop s →
      scan next stop s (w ++ ys) = ⟨.ParsedOK, stop, w.length⟩ := by
  induction w with
  | nil => intro s hs h; exact absurd h hs
  | cons a w ih =>
    intro s hs h
    obtain ⟨-, t, hn, hw⟩ := cons_mem_accepted.mp h
    rw [List.cons_append]
    by_cases ht : t = stop
    · subst ht
      rw [accepted_stop, Language.mem_one] at hw
      rw [scan_cons_stop hs hn, hw]
      rfl
    · rw [scan_cons_some hs hn ht, ih ht hw, Outcome.shift, List.length_cons, Nat.add_comm]

theorem take_mem_accepted {xs : List α} :
    ∀ {s}, (scan next stop s xs).verdict = .ParsedOK →
      xs.take (scan next stop s xs).used ∈ accepted next stop s := by
  induction xs with
  | nil => intro s h; simp at h
  | cons a as ih =>
    intro s h
    by_cases hs : s = stop
    · subst hs; simp at h
    · cases hn : next s a with
      | none => rw [scan_cons_none hs hn] at h; exact absurd h (by simp)
      | some t =>
        by_cases ht : t = stop
        · subst ht
          rw [scan_cons_stop hs hn]
          exact cons_mem_accepted.mpr ⟨hs, t, hn, nil_mem_accepted.mpr rfl⟩
        · rw [scan_cons_some hs hn ht] at h ⊢
          rw [Outcome.shift_used, Nat.add_comm, List.take_succ_cons]
          exact cons_mem_accepted.mpr ⟨hs, t, hn, ih h⟩

/-- **A scan accepts the words of its language**, and uses them up. -/
theorem scan_ok_iff (hs : s ≠ stop) {xs : List α} {n : Nat} :
    (scan next stop s xs).verdict = .ParsedOK ∧ (scan next stop s xs).used = n ↔
      n ≤ xs.length ∧ xs.take n ∈ accepted next stop s := by
  constructor
  · rintro ⟨h, rfl⟩
    exact ⟨scan_used_le xs s, take_mem_accepted h⟩
  · rintro ⟨hn, h⟩
    have := scan_of_mem_accepted (xs.drop n) hs h
    rw [List.take_append_drop, List.length_take, Nat.min_eq_left hn] at this
    rw [this]
    exact ⟨rfl, rfl⟩

/-- The verdict alone. -/
theorem scan_ok_iff_exists (hs : s ≠ stop) {xs : List α} :
    (scan next stop s xs).verdict = .ParsedOK ↔ ∃ w, w <+: xs ∧ w ∈ accepted next stop s := by
  constructor
  · intro h
    exact ⟨_, List.take_prefix _ _, take_mem_accepted h⟩
  · rintro ⟨w, ⟨ys, rfl⟩, hw⟩
    rw [scan_of_mem_accepted ys hs hw]

/-- Every state is the start of some word. -/
def Completable (next : σ → α → Option σ) (stop : σ) : Prop :=
  ∀ s, ∃ w, w ∈ accepted next stop s

/-- It is enough to name a text for each state that the scan accepts from there. -/
theorem completable_of_scan (completion : σ → List α)
    (h : ∀ s, s ≠ stop → (scan next stop s (completion s)).verdict = .ParsedOK) :
    Completable next stop := by
  intro s
  by_cases hs : s = stop
  · exact ⟨[], hs⟩
  · exact ⟨_, take_mem_accepted (h s hs)⟩

/-- An undecided text can be continued to a word. -/
theorem exists_append_mem_accepted (hc : Completable next stop) {xs : List α} :
    ∀ {s}, s ≠ stop → (scan next stop s xs).verdict = .Indeterminate →
      ∃ ys, xs ++ ys ∈ accepted next stop s := by
  induction xs with
  | nil => intro s _ _; exact hc s
  | cons a as ih =>
    intro s hs h
    cases hn : next s a with
    | none => rw [scan_cons_none hs hn] at h; exact absurd h (by simp)
    | some t =>
      by_cases ht : t = stop
      · subst ht; rw [scan_cons_stop hs hn] at h; exact absurd h (by simp)
      · rw [scan_cons_some hs hn ht] at h
        obtain ⟨ys, hys⟩ := ih ht h
        exact ⟨ys, cons_mem_accepted.mpr ⟨hs, t, hn, hys⟩⟩

/-- **A refused text is beyond repair**, and only such a text is refused. -/
theorem scan_failed_iff (hc : Completable next stop) (hs : s ≠ stop) {xs : List α} :
    (scan next stop s xs).verdict = .ParsedFailed ↔
      ∀ ys, (scan next stop s (xs ++ ys)).verdict ≠ .ParsedOK := by
  constructor
  · intro h ys
    rw [scan_append_of_decided ys (by simp [h]), h]
    simp
  · intro h
    cases hv : (scan next stop s xs).verdict with
    | ParsedFailed => rfl
    | ParsedOK => exact absurd (by rw [List.append_nil, hv]) (h [])
    | Indeterminate =>
      obtain ⟨ys, hys⟩ := exists_append_mem_accepted hc hs hv
      have := scan_of_mem_accepted [] hs hys
      rw [List.append_nil] at this
      exact absurd (by rw [this]) (h ys)

/-- **An undecided text** holds no word yet and is the start of one, and only such a text is
undecided. -/
theorem scan_indeterminate_iff (hc : Completable next stop) (hs : s ≠ stop) {xs : List α} :
    (scan next stop s xs).verdict = .Indeterminate ↔
      (∀ w, w <+: xs → w ∉ accepted next stop s) ∧ ∃ ys, xs ++ ys ∈ accepted next stop s := by
  constructor
  · intro h
    refine ⟨fun w hw hm => ?_, exists_append_mem_accepted hc hs h⟩
    have := (scan_ok_iff_exists hs).mpr ⟨w, hw, hm⟩
    rw [h] at this
    cases this
  · rintro ⟨hno, ys, hys⟩
    cases hv : (scan next stop s xs).verdict with
    | Indeterminate => rfl
    | ParsedOK => exact absurd (take_mem_accepted hv) (hno _ (List.take_prefix _ _))
    | ParsedFailed =>
      have h1 := scan_of_mem_accepted [] hs hys
      rw [List.append_nil, scan_append_of_decided ys (by simp [hv])] at h1
      rw [h1] at hv
      cases hv

end Scan
