/-
# Triples for programs that block and throw

A program that does blocking input and output reads and changes a state, and an exception
ends it with the state as it was at that moment: `EStateM`, whose `error` keeps the state.
A triple has a postcondition for each of the two ways out.

The rules follow the program: `Triple.pure`, `Triple.bind` and `Triple.ite`.  `Keeps` is the
triple of an invariant.
-/
import Mathlib.Tactic.Common

namespace Blocking

variable {ε σ α β : Type}

/-- From a state with `P`, the program returns `a` in a state with `Q a`, or throws in a state
with `E`. -/
def Triple (P : σ → Prop) (m : EStateM ε σ α) (Q : α → σ → Prop) (E : σ → Prop) : Prop :=
  ∀ s, P s → match m s with
    | .ok a s' => Q a s'
    | .error _ s' => E s'

variable {P : σ → Prop} {Q : α → σ → Prop} {R : β → σ → Prop} {E : σ → Prop}

theorem Triple.pure {a : α} (h : ∀ s, P s → Q a s) :
    Triple P (Pure.pure a : EStateM ε σ α) Q E :=
  fun s hs => h s hs

/-- **Sequencing.**  What the first part throws, the whole throws. -/
theorem Triple.bind {m : EStateM ε σ α} {f : α → EStateM ε σ β} (hm : Triple P m Q E)
    (hf : ∀ a, Triple (Q a) (f a) R E) : Triple P (m >>= f) R E := by
  intro s hs
  have h1 := hm s hs
  change match EStateM.bind m f s with
    | .ok b s' => R b s'
    | .error _ s' => E s'
  unfold EStateM.bind
  cases hr : m s with
  | ok a s' =>
    rw [hr] at h1
    exact hf a s' h1
  | error e s' =>
    rw [hr] at h1
    exact h1

theorem Triple.ite {c : Prop} [Decidable c] {m n : EStateM ε σ α} (hm : c → Triple P m Q E)
    (hn : ¬ c → Triple P n Q E) : Triple P (if c then m else n) Q E := by
  split
  · exact hm ‹_›
  · exact hn ‹_›

/-! ## Running a program -/

/-- A first part that returns. -/
theorem bind_ok {m : EStateM ε σ α} {f : α → EStateM ε σ β} {s s' : σ} {a : α}
    (h : m s = .ok a s') : (m >>= f) s = f a s' := by
  change EStateM.bind m f s = f a s'
  rw [EStateM.bind, h]

/-- A first part that throws. -/
theorem bind_error {m : EStateM ε σ α} {f : α → EStateM ε σ β} {s s' : σ} {e : ε}
    (h : m s = .error e s') : (m >>= f) s = .error e s' := by
  change EStateM.bind m f s = .error e s'
  rw [EStateM.bind, h]

/-- A sequence returns exactly if both of its parts do. -/
theorem bind_eq_ok_iff {m : EStateM ε σ α} {f : α → EStateM ε σ β} {s s' : σ} {b : β} :
    (m >>= f) s = .ok b s' ↔ ∃ a s₁, m s = .ok a s₁ ∧ f a s₁ = .ok b s' := by
  constructor
  · intro h
    cases hm : m s with
    | ok a s₁ => exact ⟨a, s₁, rfl, (bind_ok hm).symm.trans h⟩
    | error e s₁ =>
      rw [bind_error hm] at h
      cases h
  · rintro ⟨a, s₁, hm, hf⟩
    rw [bind_ok hm, hf]

theorem pure_eq_ok_iff {s s' : σ} {a b : α} :
    (Pure.pure a : EStateM ε σ α) s = .ok b s' ↔ a = b ∧ s = s' := by
  change EStateM.Result.ok a s = .ok b s' ↔ _
  rw [EStateM.Result.ok.injEq]

/-- The state a program ends in, whichever way it ends. -/
def final (m : EStateM ε σ α) (s : σ) : σ :=
  match m s with
  | .ok _ s' => s'
  | .error _ s' => s'

theorem final_ok {m : EStateM ε σ α} {s s' : σ} {a : α} (h : m s = .ok a s') :
    final m s = s' := by
  rw [final, h]

theorem final_error {m : EStateM ε σ α} {s s' : σ} {e : ε} (h : m s = .error e s') :
    final m s = s' := by
  rw [final, h]

theorem final_congr {m n : EStateM ε σ α} {s s' : σ} (h : m s = n s') :
    final m s = final n s' := by
  rw [final, final, h]

/-! ## Invariants -/

/-- The program keeps an invariant, whichever way it ends. -/
abbrev Keeps (I : σ → Prop) (m : EStateM ε σ α) : Prop := Triple I m (fun _ => I) I

end Blocking
