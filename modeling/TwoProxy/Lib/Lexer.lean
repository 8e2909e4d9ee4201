/-
# Cutting a stream into tokens, one symbol at a time

A `Lexer` is a partial automaton with some states marked `cut` and one marked `final`.
Entering a cut state ends a token, entering the final state ends the whole input; the symbol
that is consumed on the way in belongs to the token it ends.  `feed` is the run over a list:
`Lexing` is what it carries from one piece of the input to the next.

* `feed_append`: feeding two pieces is feeding their concatenation, for every cut.
* `feed_flatten`: nothing is lost, duplicated or reordered.
* `WellLinked`: each token leads from the state that ended the one before it to the state
  that ended it, so what a token can look like is a question about `Scan.path` alone.
* `Stage.feed_refused` and its companions: feeding is what a chain of `Scan.scan`s to the
  successive cut states computes, so a program that parses stage by stage refines `feed`.
-/
import TwoProxy.Lib.Scan

/-- A partial automaton that cuts its input into tokens. -/
structure Lexer (σ α : Type) where
  next : σ → α → Option σ
  cut : σ → Bool
  final : σ

namespace Lexer

open Scan

/-- A tokenisation under way: the state, the tokens ended so far, each with the state that
ended it, and the symbols of the token that is not ended yet. -/
structure Lexing (σ α : Type) where
  state : σ
  tokens : List (σ × List α)
  part : List α
  deriving DecidableEq

/-- What has become of the input so far. -/
inductive Progress (σ α : Type)
  | reading (l : Lexing σ α)
  | refused
  | complete (tokens : List (σ × List α)) (rest : List α)
  deriving DecidableEq

variable {σ α : Type} [DecidableEq σ]

/-- Before the first symbol. -/
def Lexing.start (s : σ) : Lexing σ α := ⟨s, [], []⟩

/-- End the token under way with the symbol `a`, entering `t`. -/
def Lexing.emit (l : Lexing σ α) (t : σ) (a : α) : List (σ × List α) :=
  l.tokens ++ [(t, l.part ++ [a])]

/-- Feed symbols to a tokenisation under way. -/
def feed (L : Lexer σ α) : Lexing σ α → List α → Progress σ α
  | l, [] => .reading l
  | l, a :: as =>
    match L.next l.state a with
    | none => .refused
    | some t =>
      if t = L.final then .complete (l.emit t a) as
      else if L.cut t = true then feed L ⟨t, l.emit t a, []⟩ as
      else feed L ⟨t, l.tokens, l.part ++ [a]⟩ as

variable {L : Lexer σ α} {l l' : Lexing σ α} {xs ys : List α}

@[simp] theorem feed_nil : L.feed l [] = .reading l := rfl

theorem feed_cons_none {a : α} (h : L.next l.state a = none) (as : List α) :
    L.feed l (a :: as) = .refused := by
  simp [feed, h]

theorem feed_cons_final {a : α} (h : L.next l.state a = some L.final) (as : List α) :
    L.feed l (a :: as) = .complete (l.emit L.final a) as := by
  simp [feed, h]

theorem feed_cons_cut {a : α} {t : σ} (h : L.next l.state a = some t) (hf : t ≠ L.final)
    (hc : L.cut t = true) (as : List α) :
    L.feed l (a :: as) = L.feed ⟨t, l.emit t a, []⟩ as := by
  simp [feed, h, hf, hc]

theorem feed_cons_some {a : α} {t : σ} (h : L.next l.state a = some t) (hf : t ≠ L.final)
    (hc : L.cut t = false) (as : List α) :
    L.feed l (a :: as) = L.feed ⟨t, l.tokens, l.part ++ [a]⟩ as := by
  simp [feed, h, hf, hc]

/-! ## 1. Pieces -/

/-- What the next piece of the input makes of the progress so far. -/
def resume (L : Lexer σ α) (p : Progress σ α) (ys : List α) : Progress σ α :=
  match p with
  | .reading l => L.feed l ys
  | .refused => .refused
  | .complete tokens rest => .complete tokens (rest ++ ys)

@[simp] theorem resume_reading : L.resume (.reading l) ys = L.feed l ys := rfl

@[simp] theorem resume_refused : L.resume .refused ys = .refused := rfl

@[simp] theorem resume_complete {tokens : List (σ × List α)} :
    L.resume (.complete tokens xs) ys = .complete tokens (xs ++ ys) := rfl

/-- **Feeding two pieces is feeding their concatenation.** -/
theorem feed_append (xs ys : List α) :
    ∀ l : Lexing σ α, L.feed l (xs ++ ys) = L.resume (L.feed l xs) ys := by
  induction xs with
  | nil => intro l; rfl
  | cons a as ih =>
    intro l
    rw [List.cons_append]
    cases hn : L.next l.state a with
    | none => rw [feed_cons_none hn, feed_cons_none hn, resume_refused]
    | some t =>
      by_cases hf : t = L.final
      · subst hf
        rw [feed_cons_final hn, feed_cons_final hn, resume_complete]
      · cases hc : L.cut t with
        | true => rw [feed_cons_cut hn hf hc, feed_cons_cut hn hf hc, ih]
        | false => rw [feed_cons_some hn hf hc, feed_cons_some hn hf hc, ih]

/-! ## 2. Nothing is lost -/

/-- The symbols of a list of tokens, in order. -/
def bytesOf (tokens : List (σ × List α)) : List α := (tokens.map Prod.snd).flatten

omit [DecidableEq σ] in
@[simp] theorem bytesOf_nil : bytesOf ([] : List (σ × List α)) = [] := rfl

omit [DecidableEq σ] in
@[simp] theorem bytesOf_cons (t : σ) (tok : List α) (toks : List (σ × List α)) :
    bytesOf ((t, tok) :: toks) = tok ++ bytesOf toks := by
  simp [bytesOf]

omit [DecidableEq σ] in
@[simp] theorem bytesOf_append (toks toks' : List (σ × List α)) :
    bytesOf (toks ++ toks') = bytesOf toks ++ bytesOf toks' := by
  simp [bytesOf]

/-- The symbols consumed by a tokenisation so far. -/
def Lexing.consumed (l : Lexing σ α) : List α := bytesOf l.tokens ++ l.part

/-- The symbols a progress report accounts for. -/
def Progress.bytes : Progress σ α → Option (List α)
  | .reading l => some l.consumed
  | .refused => none
  | .complete tokens rest => some (bytesOf tokens ++ rest)

/-- **Nothing is lost, duplicated or reordered.** -/
theorem feed_flatten (xs : List α) :
    ∀ (l : Lexing σ α) (bs : List α), (L.feed l xs).bytes = some bs → bs = l.consumed ++ xs := by
  induction xs with
  | nil => intro l bs h; simpa [Progress.bytes] using h.symm
  | cons a as ih =>
    intro l bs h
    cases hn : L.next l.state a with
    | none => rw [feed_cons_none hn] at h; exact absurd h (by simp [Progress.bytes])
    | some t =>
      by_cases hf : t = L.final
      · subst hf
        rw [feed_cons_final hn] at h
        simp only [Progress.bytes, Option.some.injEq] at h
        simp [← h, Lexing.emit, Lexing.consumed]
      · cases hc : L.cut t with
        | true =>
          rw [feed_cons_cut hn hf hc] at h
          simp [ih _ _ h, Lexing.emit, Lexing.consumed]
        | false =>
          rw [feed_cons_some hn hf hc] at h
          simp [ih _ _ h, Lexing.consumed]

theorem feed_reading_consumed (h : L.feed l xs = .reading l') :
    l'.consumed = l.consumed ++ xs :=
  feed_flatten xs l _ (by rw [h]; rfl)

theorem feed_complete_bytes {tokens : List (σ × List α)} (h : L.feed l xs = .complete tokens ys) :
    bytesOf tokens ++ ys = l.consumed ++ xs :=
  feed_flatten xs l _ (by rw [h]; rfl)

/-! ## 3. What the tokens can look like -/

/-- A step inside a token: it enters neither a cut state nor the final one. -/
def inner (L : Lexer σ α) (s : σ) (a : α) : Option σ :=
  match L.next s a with
  | none => none
  | some t => if t = L.final ∨ L.cut t = true then none else some t

theorem inner_eq_some {s t : σ} {a : α} :
    L.inner s a = some t ↔ L.next s a = some t ∧ t ≠ L.final ∧ L.cut t = false := by
  unfold inner
  cases hn : L.next s a with
  | none => simp
  | some u =>
    dsimp only
    split
    · rename_i h
      simp only [reduceCtorEq, Option.some.injEq, false_iff, not_and]
      rintro rfl h1
      simpa [h1] using h
    · rename_i h
      simp only [Option.some.injEq]
      constructor
      · rintro rfl
        exact ⟨rfl, fun e => h (Or.inl e), by simpa using fun e => h (Or.inr e)⟩
      · exact fun h1 => h1.1

/-- `tok` leads from `s` to the state `t` that ends it, and nothing ends it before. -/
def IsToken (L : Lexer σ α) (s t : σ) (tok : List α) : Prop :=
  ∃ init a u, tok = init ++ [a] ∧ path L.inner s init = some u ∧ L.next u a = some t ∧
    (t = L.final ∨ L.cut t = true)

/-- The state that ended the last token, or `s` before the first one. -/
def endState (s : σ) : List (σ × List α) → σ
  | [] => s
  | (t, _) :: toks => endState t toks

/-- Each token leads from the state that ended the one before it to its own. -/
def Linked (L : Lexer σ α) : σ → List (σ × List α) → Prop
  | _, [] => True
  | s, (t, tok) :: toks => IsToken L s t tok ∧ Linked L t toks

omit [DecidableEq σ] in
theorem endState_concat (t : σ) (tok : List α) (toks : List (σ × List α)) :
    ∀ s, endState s (toks ++ [(t, tok)]) = t := by
  induction toks with
  | nil => intro s; rfl
  | cons p toks ih => intro s; exact ih p.1

theorem linked_concat {t : σ} {tok : List α} (toks : List (σ × List α)) :
    ∀ {s}, Linked L s toks → IsToken L (endState s toks) t tok →
      Linked L s (toks ++ [(t, tok)]) := by
  induction toks with
  | nil => intro s _ hp; exact ⟨hp, trivial⟩
  | cons p toks ih => intro s h hp; exact ⟨h.1, ih h.2 hp⟩

/-- A tokenisation from `s` whose tokens are linked and whose unfinished one leads to its
state. -/
structure WellLinked (L : Lexer σ α) (s : σ) (l : Lexing σ α) : Prop where
  tokens : Linked L s l.tokens
  part : path L.inner (endState s l.tokens) l.part = some l.state

theorem wellLinked_start (s : σ) : WellLinked L s (.start s) := ⟨trivial, rfl⟩

theorem WellLinked.emit {s t : σ} {a : α} (h : WellLinked L s l)
    (hn : L.next l.state a = some t) (he : t = L.final ∨ L.cut t = true) :
    Linked L s (l.emit t a) :=
  linked_concat _ h.tokens ⟨_, a, _, rfl, h.part, hn, he⟩

/-- Inside a token the automaton runs as it always does. -/
theorem path_of_inner {s t : σ} {xs : List α} (h : path L.inner s xs = some t) :
    path L.next s xs = some t :=
  (path_simulates (φ := id) (I := fun _ => True)
    (fun _ _ _ _ hin => ⟨trivial, (inner_eq_some.mp hin).1⟩) xs trivial h).2

theorem IsToken.path {s t : σ} {tok : List α} (h : IsToken L s t tok) :
    path L.next s tok = some t := by
  obtain ⟨init, a, u, rfl, hp, hn, -⟩ := h
  exact path_concat_eq_some.mpr ⟨u, path_of_inner hp, hn⟩

/-- The first symbol of a token ends it, or leads on inside it. -/
theorem IsToken.first {s t : σ} {tok : List α} (h : IsToken L s t tok) :
    (∃ a, tok = [a] ∧ L.next s a = some t) ∨
      ∃ a u rest, tok = a :: rest ∧ L.inner s a = some u ∧ IsToken L u t rest := by
  obtain ⟨init, a, u, rfl, hp, hn, hend⟩ := h
  cases init with
  | nil =>
    obtain rfl := Option.some.inj hp
    exact Or.inl ⟨a, rfl, hn⟩
  | cons b init =>
    obtain ⟨v, hv, hp⟩ := path_cons_eq_some.mp hp
    exact Or.inr ⟨b, v, init ++ [a], rfl, hv, init, a, u, rfl, hp, hn, hend⟩

/-- A token is not continued by another from the same state. -/
theorem IsToken.length_le {s t t' : σ} {tok tok' rest rest' : List α} (h : IsToken L s t tok)
    (h' : IsToken L s t' tok') (heq : tok ++ rest = tok' ++ rest') :
    tok'.length ≤ tok.length := by
  obtain ⟨init, a, u, rfl, hp, hn, hend⟩ := h
  obtain ⟨init', a', u', rfl, hp', -, -⟩ := h'
  by_contra hlt
  -- the symbol that ends the first token would be inside the second
  have hpre : init ++ [a] <+: init' := by
    refine List.prefix_of_prefix_length_le (List.prefix_append (init ++ [a]) rest)
      ⟨[a'] ++ rest', by rw [heq]; simp⟩ ?_
    simp only [List.length_append, List.length_singleton] at hlt ⊢
    omega
  obtain ⟨more, rfl⟩ := hpre
  obtain ⟨v, hv, -⟩ := path_append_eq_some.mp hp'
  obtain ⟨u₁, hu, hin⟩ := path_concat_eq_some.mp hv
  rw [hp] at hu
  obtain rfl := Option.some.inj hu
  obtain ⟨hv, hf, hc⟩ := inner_eq_some.mp hin
  rw [hn] at hv
  obtain rfl := Option.some.inj hv
  rcases hend with hend | hend
  · exact hf hend
  · simp [hc] at hend

/-- **Tokens are a prefix code**: what begins with a token begins with one only. -/
theorem IsToken.eq_of_append {s t t' : σ} {tok tok' rest rest' : List α} (h : IsToken L s t tok)
    (h' : IsToken L s t' tok') (heq : tok ++ rest = tok' ++ rest') :
    tok = tok' ∧ rest = rest' :=
  List.append_inj heq (Nat.le_antisymm (h'.length_le h heq.symm) (h.length_le h' heq))

/-- **The tokens of a linked list are one run**, to the state that ended the last of them. -/
theorem linked_path (toks : List (σ × List α)) :
    ∀ {s : σ}, Linked L s toks → path L.next s (bytesOf toks) = some (endState s toks) := by
  induction toks with
  | nil => intro s _; rfl
  | cons p toks ih =>
    intro s h
    rw [bytesOf_cons]
    exact path_append_eq_some.mpr ⟨p.1, h.1.path, ih h.2⟩

theorem WellLinked.path {s : σ} (h : WellLinked L s l) :
    path L.next s l.consumed = some l.state :=
  path_append_eq_some.mpr ⟨_, linked_path _ h.tokens, path_of_inner h.part⟩

/-- In a cut state no token is under way. -/
theorem WellLinked.part_eq_nil {s : σ} (h : WellLinked L s l) (hcut : L.cut l.state = true) :
    l.part = [] := by
  rcases List.eq_nil_or_concat l.part with hnil | ⟨init, a, hconcat⟩
  · exact hnil
  · have hpart := h.part
    rw [hconcat, List.concat_eq_append] at hpart
    obtain ⟨u, -, hu⟩ := path_concat_eq_some.mp hpart
    rw [(inner_eq_some.mp hu).2.2] at hcut
    cases hcut

/-- What a well-linked tokenisation can become. -/
def Progress.Linked (L : Lexer σ α) (s : σ) : Progress σ α → Prop
  | .reading l => WellLinked L s l
  | .refused => True
  | .complete tokens _ => Lexer.Linked L s tokens

/-- **Every token is a run of the automaton** between the states around it. -/
theorem WellLinked.feed {s : σ} (xs : List α) :
    ∀ {l : Lexing σ α}, WellLinked L s l → (L.feed l xs).Linked L s := by
  induction xs with
  | nil => intro l h; exact h
  | cons a as ih =>
    intro l h
    cases hn : L.next l.state a with
    | none => rw [feed_cons_none hn]; trivial
    | some t =>
      by_cases hf : t = L.final
      · subst hf
        rw [feed_cons_final hn]
        exact h.emit hn (Or.inl rfl)
      · cases hc : L.cut t with
        | true =>
          rw [feed_cons_cut hn hf hc]
          refine ih ⟨h.emit hn (Or.inr hc), ?_⟩
          rw [Lexing.emit, endState_concat]
          rfl
        | false =>
          rw [feed_cons_some hn hf hc]
          exact ih ⟨h.tokens, path_concat_eq_some.mpr ⟨_, h.part, inner_eq_some.mpr ⟨hn, hf, hc⟩⟩⟩

theorem feed_start_reading {s : σ} (h : L.feed (.start s) xs = .reading l) : WellLinked L s l := by
  have := (wellLinked_start (L := L) (α := α) s).feed xs
  rw [h] at this
  exact this

theorem feed_start_complete {s : σ} {tokens : List (σ × List α)}
    (h : L.feed (.start s) xs = .complete tokens ys) : Linked L s tokens := by
  have := (wellLinked_start (L := L) (α := α) s).feed xs
  rw [h] at this
  exact this

/-- What a piece of the input becomes keeps the tokens there were. -/
def Progress.Extends (toks : List (σ × List α)) : Progress σ α → Prop
  | .reading l => toks <+: l.tokens
  | .refused => True
  | .complete tokens _ => toks <+: tokens

/-- **Tokens are only ever added.** -/
theorem feed_extends (xs : List α) :
    ∀ l : Lexing σ α, (L.feed l xs).Extends l.tokens := by
  induction xs with
  | nil => intro l; exact List.prefix_refl _
  | cons a as ih =>
    intro l
    cases hn : L.next l.state a with
    | none => rw [feed_cons_none hn]; trivial
    | some t =>
      by_cases hf : t = L.final
      · subst hf
        rw [feed_cons_final hn]
        exact List.prefix_append _ _
      · cases hc : L.cut t with
        | false => rw [feed_cons_some hn hf hc]; exact ih ⟨t, l.tokens, l.part ++ [a]⟩
        | true =>
          rw [feed_cons_cut hn hf hc]
          have hext := ih ⟨t, l.emit t a, []⟩
          have hpre : l.tokens <+: l.emit t a := List.prefix_append _ _
          cases hp : L.feed ⟨t, l.emit t a, []⟩ as with
          | reading l' => rw [hp] at hext; exact hpre.trans hext
          | refused => trivial
          | complete tokens rest => rw [hp] at hext; exact hpre.trans hext

/-! ### The converse: tokens are what feeding cuts off -/

/-- Feeding a run that ends nothing. -/
theorem feed_inner {t : σ} (ys : List α) :
    ∀ (xs : List α) {l : Lexing σ α}, path L.inner l.state xs = some t →
      L.feed l (xs ++ ys) = L.feed ⟨t, l.tokens, l.part ++ xs⟩ ys := by
  intro xs
  induction xs with
  | nil =>
    intro l h
    obtain rfl := Option.some.inj h
    simp
  | cons a as ih =>
    intro l h
    obtain ⟨u, hu, h⟩ := path_cons_eq_some.mp h
    obtain ⟨hn, hf, hc⟩ := inner_eq_some.mp hu
    rw [List.cons_append, feed_cons_some hn hf hc, ih h]
    simp

/-- **Feeding a token and what follows it.** -/
theorem feed_token {s t : σ} {tok : List α} (h : IsToken L s t tok) (hf : t ≠ L.final)
    (toks : List (σ × List α)) (ys : List α) :
    L.feed ⟨s, toks, []⟩ (tok ++ ys) = L.feed ⟨t, toks ++ [(t, tok)], []⟩ ys := by
  obtain ⟨init, a, u, rfl, hp, hn, he⟩ := h
  have hc : L.cut t = true := he.resolve_left hf
  rw [List.append_assoc, feed_inner _ _ hp, List.cons_append, feed_cons_cut hn hf hc]
  rfl

theorem feed_last_token {s : σ} {tok : List α} (h : IsToken L s L.final tok)
    (toks : List (σ × List α)) (ys : List α) :
    L.feed ⟨s, toks, []⟩ (tok ++ ys) = .complete (toks ++ [(L.final, tok)]) ys := by
  obtain ⟨init, a, u, rfl, hp, hn, -⟩ := h
  rw [List.append_assoc, feed_inner _ _ hp, List.cons_append, feed_cons_final hn]
  rfl

/-! ## 4. Feeding, stage by stage -/

/-- The states of one stage: from them the automaton either stays inside, meeting no cut, or
enters `stop`. -/
structure Stage (L : Lexer σ α) (stop : σ) (I : σ → Prop) : Prop where
  ne_stop : ∀ s, I s → s ≠ stop
  stays : ∀ s a t, I s → L.next s a = some t → t ≠ stop →
    I t ∧ L.cut t = false ∧ t ≠ L.final

variable {stop : σ} {I : σ → Prop}

/-- A refused stage refuses the input. -/
theorem Stage.feed_refused (hS : Stage L stop I) (xs : List α) :
    ∀ {l : Lexing σ α}, I l.state → (scan L.next stop l.state xs).verdict = .ParsedFailed →
      L.feed l xs = .refused := by
  induction xs with
  | nil => intro l _ h; simp at h
  | cons a as ih =>
    intro l hin h
    have hs := hS.ne_stop _ hin
    cases hn : L.next l.state a with
    | none => exact feed_cons_none hn as
    | some t =>
      by_cases ht : t = stop
      · subst ht; rw [scan_cons_stop hs hn] at h; exact absurd h (by simp)
      · obtain ⟨hin', hc, hf⟩ := hS.stays _ _ _ hin hn ht
        rw [scan_cons_some hs hn ht] at h
        rw [feed_cons_some hn hf hc]
        exact ih hin' h

/-- A stage that is not decided yet only adds to the token under way.  Once it has used a
symbol it is no longer in a cut state. -/
theorem Stage.feed_indeterminate (hS : Stage L stop I) (xs : List α) :
    ∀ {l : Lexing σ α}, I l.state → (scan L.next stop l.state xs).verdict = .Indeterminate →
      I (scan L.next stop l.state xs).state ∧
        (xs ≠ [] → L.cut (scan L.next stop l.state xs).state = false) ∧
        L.feed l xs = .reading ⟨(scan L.next stop l.state xs).state, l.tokens, l.part ++ xs⟩ := by
  induction xs with
  | nil => intro l hin _; exact ⟨hin, fun h => absurd rfl h, by simp⟩
  | cons a as ih =>
    intro l hin h
    have hs := hS.ne_stop _ hin
    cases hn : L.next l.state a with
    | none => rw [scan_cons_none hs hn] at h; exact absurd h (by simp)
    | some t =>
      by_cases ht : t = stop
      · subst ht; rw [scan_cons_stop hs hn] at h; exact absurd h (by simp)
      · obtain ⟨hin', hc, hf⟩ := hS.stays _ _ _ hin hn ht
        rw [scan_cons_some hs hn ht] at h ⊢
        rw [feed_cons_some hn hf hc]
        obtain ⟨h1, h2, h3⟩ := ih (l := ⟨t, l.tokens, l.part ++ [a]⟩) hin' h
        refine ⟨h1, fun _ => ?_, by simpa using h3⟩
        cases as with
        | nil => exact hc
        | cons b bs => exact h2 (by simp)

/-- A stage that ends in a cut state hands the rest of the input to the next one. -/
theorem Stage.feed_cut (hS : Stage L stop I) (hcut : L.cut stop = true)
    (hfin : stop ≠ L.final) (xs : List α) :
    ∀ {l : Lexing σ α}, I l.state → (scan L.next stop l.state xs).verdict = .ParsedOK →
      L.feed l xs =
        L.feed ⟨stop, l.tokens ++
            [(stop, l.part ++ xs.take (scan L.next stop l.state xs).used)], []⟩
          (xs.drop (scan L.next stop l.state xs).used) := by
  induction xs with
  | nil => intro l _ h; simp at h
  | cons a as ih =>
    intro l hin h
    have hs := hS.ne_stop _ hin
    cases hn : L.next l.state a with
    | none => rw [scan_cons_none hs hn] at h; exact absurd h (by simp)
    | some t =>
      by_cases ht : t = stop
      · subst ht
        rw [scan_cons_stop hs hn, feed_cons_cut hn hfin hcut]
        simp [Lexing.emit]
      · obtain ⟨hin', hc, hf⟩ := hS.stays _ _ _ hin hn ht
        rw [scan_cons_some hs hn ht] at h ⊢
        rw [feed_cons_some hn hf hc, ih (l := ⟨t, l.tokens, l.part ++ [a]⟩) hin' h]
        simp [Nat.add_comm 1]

/-- A stage that ends in the final state completes the input. -/
theorem Stage.feed_final (hS : Stage L L.final I) (xs : List α) :
    ∀ {l : Lexing σ α}, I l.state → (scan L.next L.final l.state xs).verdict = .ParsedOK →
      L.feed l xs =
        .complete (l.tokens ++
            [(L.final, l.part ++ xs.take (scan L.next L.final l.state xs).used)])
          (xs.drop (scan L.next L.final l.state xs).used) := by
  induction xs with
  | nil => intro l _ h; simp at h
  | cons a as ih =>
    intro l hin h
    have hs := hS.ne_stop _ hin
    cases hn : L.next l.state a with
    | none => rw [scan_cons_none hs hn] at h; exact absurd h (by simp)
    | some t =>
      by_cases ht : t = L.final
      · subst ht
        rw [scan_cons_stop hs hn, feed_cons_final hn]
        simp [Lexing.emit]
      · obtain ⟨hin', hc, hf⟩ := hS.stays _ _ _ hin hn ht
        rw [scan_cons_some hs hn ht] at h ⊢
        rw [feed_cons_some hn hf hc, ih (l := ⟨t, l.tokens, l.part ++ [a]⟩) hin' h]
        simp [Nat.add_comm 1]

/-- **A stage of the scan of the whole input.**  A stage that is not ended is all there is of
that scan; one that is ended is its beginning. -/
theorem Stage.scan_final (hS : Stage L stop I) (hstop : stop ≠ L.final) (xs : List α) :
    ∀ {s : σ}, I s → s ≠ L.final →
      ((scan L.next stop s xs).verdict ≠ .ParsedOK →
        scan L.next L.final s xs = scan L.next stop s xs) ∧
      ((scan L.next stop s xs).verdict = .ParsedOK →
        scan L.next L.final s xs =
          (scan L.next L.final stop (xs.drop (scan L.next stop s xs).used)).shift
            (scan L.next stop s xs).used) := by
  induction xs with
  | nil => intro s _ _; simp
  | cons a as ih =>
    intro s hin hf
    have hs := hS.ne_stop _ hin
    cases hn : L.next s a with
    | none => simp [scan_cons_none hs hn, scan_cons_none hf hn]
    | some t =>
      by_cases ht : t = stop
      · subst ht
        rw [scan_cons_stop hs hn, scan_cons_some hf hn hstop]
        simp
      · obtain ⟨hin', -, hf'⟩ := hS.stays _ _ _ hin hn ht
        obtain ⟨h1, h2⟩ := ih hin' hf'
        rw [scan_cons_some hs hn ht, scan_cons_some hf hn hf']
        refine ⟨fun h => by rw [h1 h], fun h => ?_⟩
        rw [h2 h]
        simp [Outcome.shift, Nat.add_comm 1, Nat.add_assoc]

end Lexer
