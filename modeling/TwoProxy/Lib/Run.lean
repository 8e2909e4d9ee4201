/-
# Runs of an event-driven system

A system is a partial function `step : σ → ε → Option σ`: `none` says the event cannot happen
in that state.  `Run` is a run over a list of events.

* `Run.invariant`: what every step keeps, every run keeps.
* `Run.length_le`: a run whose steps are paid for by its events is no longer than they allow.
* `everyState_iff_everyStep`: the rule behind an EXACT condition.  If, inside an invariant,
  a step from a good state leads to a good state precisely when a condition on the state and
  the event holds, then a run passes through good states only precisely when each of its
  steps meets the condition.
-/
import Mathlib.Algebra.GroupWithZero.Nat
import Mathlib.Data.List.Infix
import Mathlib.Tactic.Common

namespace Transition

variable {σ ε : Type}

/-- `Run step s es t`: the events `es` lead from `s` to `t`. -/
inductive Run (step : σ → ε → Option σ) : σ → List ε → σ → Prop
  | nil (s : σ) : Run step s [] s
  | cons {s t u : σ} {e : ε} {es : List ε} :
      step s e = some t → Run step t es u → Run step s (e :: es) u

variable {step : σ → ε → Option σ} {s t u : σ} {es es' : List ε}

theorem Run.append (h : Run step s es t) : Run step t es' u → Run step s (es ++ es') u := by
  induction h with
  | nil => exact id
  | cons hs _ ih => exact fun h' => .cons hs (ih h')

theorem Run.single {e : ε} (h : step s e = some t) : Run step s [e] t := .cons h (.nil t)

/-- A run is cut at any point of its events. -/
theorem Run.split (h : Run step s (es ++ es') u) :
    ∃ t, Run step s es t ∧ Run step t es' u := by
  induction es generalizing s with
  | nil => exact ⟨s, .nil s, h⟩
  | cons e es ih =>
    cases h with
    | cons hs h =>
      obtain ⟨t, h1, h2⟩ := ih h
      exact ⟨t, .cons hs h1, h2⟩

/-- The events lead to one state at most. -/
theorem Run.unique (h : Run step s es t) : Run step s es u → t = u := by
  induction h with
  | nil => rintro ⟨⟩; rfl
  | cons hs _ ih =>
    rintro (_ | ⟨hs', h'⟩)
    rw [hs] at hs'
    obtain rfl := Option.some.inj hs'
    exact ih h'

/-- The last step of a run, split off. -/
theorem Run.split_last {e : ε} (h : Run step s (es ++ [e]) u) :
    ∃ t, Run step s es t ∧ step t e = some u := by
  obtain ⟨t, h1, h2⟩ := h.split
  cases h2 with
  | cons hs h3 => cases h3; exact ⟨t, h1, hs⟩

/-- **What every step keeps, every run keeps.** -/
theorem Run.invariant {I : σ → Prop}
    (hstep : ∀ s e t, I s → step s e = some t → I t)
    (h : Run step s es t) : I s → I t := by
  induction h with
  | nil => exact id
  | cons hs _ ih => exact fun hi => ih (hstep _ _ _ hi hs)

/-- The same for a relation between a state and the events that led to it. -/
theorem Run.invariant_events {R : List ε → σ → Prop}
    (hstep : ∀ es s e t, R es s → step s e = some t → R (es ++ [e]) t)
    (h : Run step s es t) : ∀ es₀, R es₀ s → R (es₀ ++ es) t := by
  induction h with
  | nil => intro es₀ hR; simpa using hR
  | cons hs _ ih =>
    intro es₀ hR
    simpa using ih _ (hstep _ _ _ _ hR hs)

/-- **What pays for a run.**  If every step costs one and is paid from what is owed before it
and what its event brings in, then no run is longer than what it is paid for. -/
theorem Run.length_le {I : σ → Prop} {owed : σ → Nat} {income : ε → Nat}
    (hinv : ∀ s e t, I s → step s e = some t → I t)
    (hpays : ∀ s e t, I s → step s e = some t → owed t + 1 ≤ owed s + income e)
    (h : Run step s es t) (hi : I s) : es.length + owed t ≤ owed s + (es.map income).sum := by
  induction h with
  | nil => simp
  | cons hs _ ih =>
    have hfirst := hpays _ _ _ hi hs
    have hrest := ih (hinv _ _ _ hi hs)
    rw [List.length_cons, List.map_cons, List.sum_cons]
    omega

/-- Let the events happen for as long as they can: where the first one cannot, the run
ends. -/
def follow (step : σ → ε → Option σ) : σ → List ε → σ
  | s, [] => s
  | s, e :: es =>
    match step s e with
    | some t => follow step t es
    | none => s

@[simp] theorem follow_nil : follow step s [] = s := rfl

theorem follow_cons_some {e : ε} (h : step s e = some t) :
    follow step s (e :: es) = follow step t es := by
  simp [follow, h]

theorem follow_cons_none {e : ε} (h : step s e = none) : follow step s (e :: es) = s := by
  simp [follow, h]

/-- Where an event cannot happen, `follow` stays. -/
theorem follow_stuck (h : ∀ e ∈ es, step s e = none) : follow step s es = s := by
  cases es with
  | nil => rfl
  | cons e es => exact follow_cons_none (h e (by simp))

theorem follow_append (h : Run step s es t) : follow step s (es ++ es') = follow step t es' := by
  induction h with
  | nil => rfl
  | cons hs _ ih => rw [List.cons_append, follow_cons_some hs, ih]

/-- Each event can happen where the ones before it lead. -/
def possible (step : σ → ε → Option σ) : σ → List ε → Bool
  | _, [] => true
  | s, e :: es =>
    match step s e with
    | some t => possible step t es
    | none => false

/-- Events that can all happen are a run to where they lead. -/
theorem run_follow (h : possible step s es = true) : Run step s es (follow step s es) := by
  induction es generalizing s with
  | nil => exact .nil s
  | cons e es ih =>
    cases hs : step s e with
    | none => simp [possible, hs] at h
    | some t =>
      rw [follow_cons_some hs]
      exact .cons hs (ih (by simpa [possible, hs] using h))

/-- `P` holds of every state the events lead through. -/
def EveryState (step : σ → ε → Option σ) (P : σ → Prop) (s : σ) (es : List ε) : Prop :=
  ∀ es₁ t, es₁ <+: es → Run step s es₁ t → P t

/-- `Ok` holds of every state the events lead through and the event that happens there. -/
def EveryStep (step : σ → ε → Option σ) (Ok : σ → ε → Prop) (s : σ) (es : List ε) : Prop :=
  ∀ es₁ e t, es₁ ++ [e] <+: es → Run step s es₁ t → Ok t e

theorem everyStep_nil {Ok : σ → ε → Prop} : EveryStep step Ok s [] :=
  fun _ _ _ hpre _ => absurd hpre.length_le (by simp)

theorem everyStep_cons {Ok : σ → ε → Prop} {e : ε} (hs : step s e = some t) :
    EveryStep step Ok s (e :: es) ↔ Ok s e ∧ EveryStep step Ok t es := by
  constructor
  · intro h
    refine ⟨h [] e s (by simp) (.nil s), ?_⟩
    intro es₁ e' u hp hr
    exact h (e :: es₁) e' u (by simpa using hp) (.cons hs hr)
  · rintro ⟨h1, h2⟩ es₁ e' u hp hr
    cases hr with
    | nil =>
      obtain rfl : e' = e := by simpa using hp
      exact h1
    | @cons _ t' _ e'' es₂ hs' hr =>
      rw [List.cons_append, List.cons_prefix_cons] at hp
      obtain ⟨rfl, hp⟩ := hp
      rw [hs] at hs'
      obtain rfl := Option.some.inj hs'
      exact h2 es₂ e' u hp hr

theorem everyState_cons {P : σ → Prop} {e : ε} (hs : step s e = some t) :
    EveryState step P s (e :: es) ↔ P s ∧ EveryState step P t es := by
  constructor
  · intro h
    refine ⟨h [] s (by simp) (.nil s), ?_⟩
    intro es₁ u hp hr
    exact h (e :: es₁) u (by simpa using hp) (.cons hs hr)
  · rintro ⟨h1, h2⟩ es₁ u hp hr
    cases hr with
    | nil => exact h1
    | @cons _ t' _ e'' es₂ hs' hr =>
      rw [List.cons_prefix_cons] at hp
      obtain ⟨rfl, hp⟩ := hp
      rw [hs] at hs'
      obtain rfl := Option.some.inj hs'
      exact h2 es₂ u hp hr

/-- Two conditions that agree on the steps of a run. -/
theorem everyStep_congr {I : σ → Prop} {Ok Ok' : σ → ε → Prop}
    (hinv : ∀ s e t, I s → step s e = some t → I t)
    (hiff : ∀ s e t, I s → step s e = some t → (Ok s e ↔ Ok' s e))
    (h : Run step s es t) (hi : I s) : EveryStep step Ok s es ↔ EveryStep step Ok' s es := by
  induction h with
  | nil s => exact iff_of_true everyStep_nil everyStep_nil
  | cons hs _ ih =>
    rw [everyStep_cons hs, everyStep_cons hs, hiff _ _ _ hi hs, ih (hinv _ _ _ hi hs)]

/-- **An exact condition on steps is an exact condition on runs.** -/
theorem everyState_iff_everyStep {I P : σ → Prop} {Ok : σ → ε → Prop}
    (hinv : ∀ s e t, I s → step s e = some t → I t)
    (hok : ∀ s e t, I s → P s → step s e = some t → (P t ↔ Ok s e))
    (h : Run step s es t) (hi : I s) (hp : P s) :
    EveryState step P s es ↔ EveryStep step Ok s es := by
  induction h with
  | nil s =>
    constructor
    · exact fun _ => everyStep_nil
    · intro _ es₁ u hpre hr
      obtain rfl := List.prefix_nil.mp hpre
      cases hr
      exact hp
  | @cons s t u e es hs hr ih =>
    rw [everyState_cons hs, everyStep_cons hs, ← hok s e t hi hp hs]
    constructor
    · rintro ⟨-, h2⟩
      have hpt : P t := h2 [] t (by simp) (.nil t)
      exact ⟨hpt, (ih (hinv _ _ _ hi hs) hpt).mp h2⟩
    · rintro ⟨hpt, h2⟩
      exact ⟨hp, (ih (hinv _ _ _ hi hs) hpt).mpr h2⟩

end Transition
