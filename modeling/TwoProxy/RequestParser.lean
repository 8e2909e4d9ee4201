/-
# `RequestParser`: the request head, one byte at a time

`HttpProtocol/RequestParser.h` holds one `switch` over 22 states inside a `while` loop.  The
`switch` is `RequestParser.next` here (`none` is `parsedOK = false`), and the loop is the
cursor loop of `Lib/Scan.lean`, which treats every pair of iterators the way the `!=` in the
loop condition does.

The four states a caller may stop in, `MethodDone`, `UriDone`, `VersionDone` and
`HeadersDone`, cut the head into four tokens (`lexer`); `next_stageEnd` is the fact that no
run can get round one of them.
-/
import TwoProxy.Bytes
import TwoProxy.Lib.Lexer

namespace TwoProxy

namespace RequestParser

inductive StateType
  | MethodStart
  | MethodChar
  | MethodDone
  | UriChar
  | UriDone
  | VersionH
  | VersionT1
  | VersionT2
  | VersionP
  | VersionSlash
  | VersionD1
  | VersionDot
  | VersionD2
  | VersionCr
  | VersionDone
  | HeaderName
  | HeaderColon
  | HeaderValue
  | HeaderCr
  | HeaderLineDone
  | HeadersCr
  | HeadersDone
  deriving DecidableEq, Repr

open StateType

/-- The `switch` of `ParseUntil`: the next `internalState_`, or `none` for
`parsedOK = false`. -/
def next : StateType → Byte → Option StateType
  | MethodStart, c => if is_upper c then some MethodChar else none
  | MethodChar, c =>
    if is_upper c then some MethodChar
    else if is_space c then some MethodDone
    else none
  | MethodDone, c =>
    if is_cntrl c then none
    else if is_space c then none
    else some UriChar
  | UriChar, c =>
    if is_cntrl c then none
    else if is_space c then some UriDone
    else some UriChar
  | UriDone, c => if c = ch 'H' then some VersionH else none
  | VersionH, c => if c = ch 'T' then some VersionT1 else none
  | VersionT1, c => if c = ch 'T' then some VersionT2 else none
  | VersionT2, c => if c = ch 'P' then some VersionP else none
  | VersionP, c => if c = ch '/' then some VersionSlash else none
  | VersionSlash, c => if is_digit c then some VersionD1 else none
  | VersionD1, c => if c = ch '.' then some VersionDot else none
  | VersionDot, c => if is_digit c then some VersionD2 else none
  | VersionD2, c => if c = CR then some VersionCr else none
  | VersionCr, c => if c = LF then some VersionDone else none
  | VersionDone, c =>
    if is_alnum c then some HeaderName
    else if c = CR then some HeadersCr
    else none
  | HeaderName, c =>
    if c = ch ':' then some HeaderColon
    else if is_alnum c || is_punct c then some HeaderName
    else none
  | HeaderColon, c => if c = ch ' ' then some HeaderValue else none
  | HeaderValue, c =>
    if c = CR then some HeaderCr
    else if is_cntrl c then none
    else some HeaderValue
  | HeaderCr, c => if c = LF then some HeaderLineDone else none
  | HeaderLineDone, c =>
    if c = CR then some HeadersCr
    else if is_alnum c then some HeaderName
    else none
  | HeadersCr, c => if c = LF then some HeadersDone else none
  -- anything that follows after `HeadersDone` is allowed
  | HeadersDone, _ => some HeadersDone

/-- `ParseUntil` on the range `[range.1, range.2)` of `memory`; `none` when the iterator is
dereferenced past the end of `memory`. -/
def ParseUntil (stopState : StateType) (memory : Bytes) (range : Nat × Nat)
    (internalState_ : StateType) : Option (Scan.Parsed StateType) :=
  Scan.parseRange next (fun _ _ start _ => start) stopState memory range.1 range.2
    internalState_

/-- A call leaves `memory` or is the scan of the bytes it can reach. -/
theorem ParseUntil_cases (stopState s : StateType) {memory : Bytes} {first second : Nat}
    (hf : first ≤ memory.length) (hs : second ≤ memory.length) :
    (ParseUntil stopState memory (first, second) s = none ∧ second < first ∧
        (Scan.scan next stopState s (Scan.available memory first second)).verdict
          = .Indeterminate) ∨
      (∃ r, r = Scan.scan next stopState s (Scan.available memory first second) ∧
        ParseUntil stopState memory (first, second) s
          = some ⟨r.verdict, r.state, first, first + r.used⟩ ∧
        (r.verdict = .Indeterminate → s ≠ stopState → first ≤ second)) := by
  have hnone : ParseUntil stopState memory (first, second) s = none ↔
      s ≠ stopState ∧ second < first ∧
        (Scan.scan next stopState s (Scan.available memory first second)).verdict
          = .Indeterminate := Scan.parseRange_eq_none_iff hf hs
  cases h : ParseUntil stopState memory (first, second) s with
  | none =>
    obtain ⟨-, h2, h3⟩ := hnone.mp h
    exact Or.inl ⟨rfl, h2, h3⟩
  | some p =>
    obtain ⟨h1, h2, h3⟩ := Scan.parseRange_eq_some h
    have h4 := Scan.parseRange_first h
    refine Or.inr ⟨_, rfl, ?_, ?_⟩
    · dsimp only at h1 h2 h3 h4
      rw [← h1, ← h2, ← h3, ← h4]
    · intro hv hne
      by_contra hlt
      exact absurd (hnone.mpr ⟨hne, by omega, hv⟩) (by simp [h])

/-! ## 1. The four tokens -/

/-- The head as a token stream: method, target, version and headers. -/
def lexer : Lexer StateType Byte where
  next := next
  cut := fun s => s == MethodDone || s == UriDone || s == VersionDone
  final := HeadersDone

@[simp] theorem lexer_next : lexer.next = next := rfl

@[simp] theorem lexer_final : lexer.final = HeadersDone := rfl

@[simp] theorem lexer_cut (s : StateType) :
    lexer.cut s = true ↔ s = MethodDone ∨ s = UriDone ∨ s = VersionDone := by
  simp [lexer, or_assoc]

/-- The stop state of the stage that a state belongs to. -/
def stageEnd : StateType → StateType
  | MethodStart | MethodChar => MethodDone
  | MethodDone | UriChar => UriDone
  | UriDone | VersionH | VersionT1 | VersionT2 | VersionP | VersionSlash | VersionD1
  | VersionDot | VersionD2 | VersionCr => VersionDone
  | VersionDone | HeaderName | HeaderColon | HeaderValue | HeaderCr | HeaderLineDone
  | HeadersCr | HeadersDone => HeadersDone

/-- **No run gets round a stop state**: a step stays in its stage, or ends it. -/
theorem next_stageEnd {s t : StateType} {c : Byte} (h : next s c = some t) :
    t = stageEnd s ∨ (stageEnd t = stageEnd s ∧ lexer.cut t = false ∧ t ≠ HeadersDone) := by
  cases s <;> simp only [next] at h <;> (repeat' split at h) <;> cases h <;> decide

theorem ne_stageEnd {s : StateType} (h : s ≠ HeadersDone) : s ≠ stageEnd s := by
  cases s <;> simp_all [stageEnd]

/-- The states from which a call that stops in `stop` is made or resumed. -/
def Before (stop s : StateType) : Prop := s ≠ HeadersDone ∧ stageEnd s = stop

instance (stop s : StateType) : Decidable (Before stop s) :=
  inferInstanceAs (Decidable (s ≠ HeadersDone ∧ stageEnd s = stop))

theorem stage_before (stop : StateType) : Lexer.Stage lexer stop (Before stop) where
  ne_stop s h := h.2 ▸ ne_stageEnd h.1
  stays s a t h hn ht := by
    rcases next_stageEnd hn with rfl | ⟨h1, h2, h3⟩
    · exact absurd h.2 ht
    · exact ⟨⟨h3, h1.trans h.2⟩, h2, h3⟩

/-! ## 2. The shape of the tokens -/

/-- A token is ended by the stop state of its stage. -/
theorem isToken_stageEnd {s t : StateType} {tok : Bytes} (h : lexer.IsToken s t tok) :
    t = stageEnd s := by
  obtain ⟨init, a, u, -, hp, hn, he⟩ := h
  have hu : stageEnd u = stageEnd s := by
    refine (Scan.path_invariant (I := fun u => stageEnd u = stageEnd s) (P := fun _ => True)
      ?_ init rfl hp).1
    intro u' b t' hu' hin
    obtain ⟨hn', hf', hc'⟩ := Lexer.inner_eq_some.mp hin
    rcases next_stageEnd hn' with rfl | ⟨h1, -, -⟩
    · cases u' <;> simp [stageEnd, lexer] at hf' hc'
    · exact ⟨h1.trans hu', trivial⟩
  rcases next_stageEnd hn with rfl | ⟨-, hc, hf⟩
  · exact hu
  · exact absurd he (by simp [hc, hf])

/-- Inside the method every byte is an upper-case letter. -/
theorem method_step (s : StateType) (c : Byte) (t : StateType)
    (hs : s = MethodStart ∨ s = MethodChar) (hin : lexer.inner s c = some t) :
    (t = MethodStart ∨ t = MethodChar) ∧ is_upper c = true := by
  obtain ⟨hn, -, hc⟩ := Lexer.inner_eq_some.mp hin
  rcases hs with rfl | rfl <;> simp only [lexer_next, next] at hn <;>
    (repeat' split at hn) <;> cases hn <;> simp_all [lexer]

/-- Inside the target no byte is a control or a space character. -/
theorem target_step (s : StateType) (c : Byte) (t : StateType)
    (hs : s = MethodDone ∨ s = UriChar) (hin : lexer.inner s c = some t) :
    (t = MethodDone ∨ t = UriChar) ∧ is_cntrl c = false ∧ is_space c = false := by
  obtain ⟨hn, -, hc⟩ := Lexer.inner_eq_some.mp hin
  rcases hs with rfl | rfl <;> simp only [lexer_next, next] at hn <;>
    (repeat' split at hn) <;> cases hn <;> simp_all [lexer]

/-- **The method** is a non-empty run of upper-case letters, and then the space character
that ended it, whichever of the six that is. -/
theorem isToken_method {t : StateType} {tok : Bytes} (h : lexer.IsToken MethodStart t tok) :
    ∃ letters sep, tok = letters ++ [sep] ∧ letters ≠ [] ∧
      (∀ c ∈ letters, is_upper c = true) ∧ is_space sep = true := by
  obtain rfl := isToken_stageEnd h
  obtain ⟨letters, sep, u, rfl, hp, hn, -⟩ := h
  have hin := Scan.path_invariant method_step letters (Or.inl rfl) hp
  have hu : u = MethodChar ∧ is_space sep = true := by
    rcases hin.1 with rfl | rfl <;> simp only [lexer_next, next] at hn <;>
      (repeat' split at hn) <;> simp_all [stageEnd]
  refine ⟨letters, sep, rfl, ?_, hin.2, hu.2⟩
  rintro rfl
  obtain ⟨rfl, -⟩ := hu
  simp [Scan.path] at hp

/-- **The target** is a non-empty run of bytes that are neither control nor space
characters, and then one blank. -/
theorem isToken_target {t : StateType} {tok : Bytes} (h : lexer.IsToken MethodDone t tok) :
    ∃ target, tok = target ++ [SP] ∧ target ≠ [] ∧
      ∀ c ∈ target, is_cntrl c = false ∧ is_space c = false := by
  obtain rfl := isToken_stageEnd h
  obtain ⟨target, sep, u, rfl, hp, hn, -⟩ := h
  have hin := Scan.path_invariant target_step target (Or.inl rfl) hp
  have hu : u = UriChar ∧ sep = SP := by
    rcases hin.1 with rfl | rfl <;> simp only [lexer_next, next] at hn <;>
      (repeat' split at hn) <;> simp_all [stageEnd]
    exact eq_SP_of_is_space (by assumption) (by assumption)
  refine ⟨target, by rw [hu.2], ?_, hin.2⟩
  rintro rfl
  obtain ⟨rfl, -⟩ := hu
  simp [Scan.path] at hp

/-- A state with one successor, inside a token. -/
theorem isToken_only {s t stop : StateType} {p : Byte → Prop} {tok : Bytes}
    (hnext : ∀ c u, next s c = some u → p c ∧ u = t) (hne : t ≠ stop)
    (h : lexer.IsToken s stop tok) :
    ∃ c rest, tok = c :: rest ∧ p c ∧ lexer.IsToken t stop rest := by
  rcases h.first with ⟨c, -, hn⟩ | ⟨c, u, rest, htok, hin, hrest⟩
  · exact absurd (hnext c stop hn).2.symm hne
  · obtain ⟨hp, rfl⟩ := hnext c u (Lexer.inner_eq_some.mp hin).1
    exact ⟨c, rest, htok, hp, hrest⟩

/-- **The version** has one form, up to its two digits. -/
theorem isToken_version {t : StateType} {tok : Bytes} (h : lexer.IsToken UriDone t tok) :
    ∃ major minor, tok = ascii "HTTP/" ++ [major, ch '.', minor] ++ [CR, LF] ∧
      is_digit major = true ∧ is_digit minor = true := by
  obtain rfl := isToken_stageEnd h
  have hword : ∀ {s t : StateType} {b : Byte} {tok : Bytes}, t ≠ VersionDone →
      (∀ c, next s c = if c = b then some t else none) → lexer.IsToken s VersionDone tok →
        ∃ rest, tok = b :: rest ∧ lexer.IsToken t VersionDone rest := by
    intro s t b tok hne hnext h
    obtain ⟨c, rest, rfl, rfl, hrest⟩ := isToken_only (p := fun c => c = b) (t := t)
      (fun c u hc => by rw [hnext] at hc; split at hc <;> simp_all) hne h
    exact ⟨rest, rfl, hrest⟩
  have hdigit : ∀ {s t : StateType} {tok : Bytes}, t ≠ VersionDone →
      (∀ c, next s c = if is_digit c then some t else none) → lexer.IsToken s VersionDone tok →
        ∃ d rest, tok = d :: rest ∧ is_digit d = true ∧ lexer.IsToken t VersionDone rest :=
    fun hne hnext h => isToken_only (p := fun c => is_digit c = true)
      (fun c u hc => by rw [hnext] at hc; split at hc <;> simp_all) hne h
  obtain ⟨_, rfl, h₁⟩ := hword (t := VersionH) (by decide) (fun _ => rfl) h
  obtain ⟨_, rfl, h₂⟩ := hword (t := VersionT1) (by decide) (fun _ => rfl) h₁
  obtain ⟨_, rfl, h₃⟩ := hword (t := VersionT2) (by decide) (fun _ => rfl) h₂
  obtain ⟨_, rfl, h₄⟩ := hword (t := VersionP) (by decide) (fun _ => rfl) h₃
  obtain ⟨_, rfl, h₅⟩ := hword (t := VersionSlash) (by decide) (fun _ => rfl) h₄
  obtain ⟨major, _, rfl, hmajor, h₆⟩ := hdigit (t := VersionD1) (by decide) (fun _ => rfl) h₅
  obtain ⟨_, rfl, h₇⟩ := hword (t := VersionDot) (by decide) (fun _ => rfl) h₆
  obtain ⟨minor, _, rfl, hminor, h₈⟩ := hdigit (t := VersionD2) (by decide) (fun _ => rfl) h₇
  obtain ⟨_, rfl, h₉⟩ := hword (t := VersionCr) (by decide) (fun _ => rfl) h₈
  refine ⟨major, minor, ?_, hmajor, hminor⟩
  rcases h₉.first with ⟨c, rfl, hn⟩ | ⟨c, u, rest, rfl, hin, -⟩
  · simp only [lexer_next, next] at hn
    split at hn
    · rename_i hc
      rw [hc]
      rfl
    · cases hn
  · obtain ⟨hn, -, hcut⟩ := Lexer.inner_eq_some.mp hin
    simp only [lexer_next, next] at hn
    split at hn
    · obtain rfl := Option.some.inj hn
      exact absurd hcut (by decide)
    · cases hn

end RequestParser

end TwoProxy
