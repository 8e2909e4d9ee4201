/-
# Components under one event loop

A system made of components.  Of an event each component sees its own side, or nothing, in
which case it rests; an event that several components see moves them together.  The loop may
stop (`ok` fails), and then nothing happens any more.

`jointRun_iff` takes a run of the whole apart and puts it together again: it is a run of each
component over what that component has seen, with the loop going at every event.  So nothing
that one component sees has an effect on another, and how the components interleave is free.

A system that is not written as a family of components is one through a view of its states
(`JointRun.of_run`, `JointRun.exists_run`).
-/
import TwoProxy.Lib.Run

namespace Parallel

open Transition

/-- The components of a system: what each of them sees of an event, and how it takes it. -/
structure Components (ι ε : Type) (τ η : ι → Type) where
  sees : (i : ι) → ε → Option (η i)
  step : (i : ι) → τ i → η i → Option (τ i)

variable {ι ε : Type} {τ η : ι → Type} (C : Components ι ε τ η)

/-- What a component sees of a list of events. -/
def Components.seen (i : ι) (es : List ε) : List (η i) := es.filterMap (C.sees i)

/-- A component takes its side of an event, or rests. -/
def Components.Moves (i : ι) (a : τ i) (e : ε) (b : τ i) : Prop :=
  match C.sees i e with
  | some x => C.step i a x = some b
  | none => b = a

/-- Every component moves or rests. -/
def Components.Joint (s : ∀ i, τ i) (e : ε) (t : ∀ i, τ i) : Prop :=
  ∀ i, C.Moves i (s i) e (t i)

/-- A run of the whole, with the loop going at every event. -/
inductive JointRun (ok : (∀ i, τ i) → Prop) : (∀ i, τ i) → List ε → (∀ i, τ i) → Prop
  | nil (s : ∀ i, τ i) : JointRun ok s [] s
  | cons {s t u : ∀ i, τ i} {e : ε} {es : List ε} (going : ok s) (first : C.Joint s e t)
      (rest : JointRun ok t es u) : JointRun ok s (e :: es) u

variable {C} {ok : (∀ i, τ i) → Prop} {i : ι} {s t u : ∀ i, τ i} {e : ε} {es es' : List ε}

/-! ## 1. One component -/

@[simp] theorem Components.seen_nil : C.seen i [] = [] := rfl

theorem Components.seen_cons_some {x : η i} (h : C.sees i e = some x) :
    C.seen i (e :: es) = x :: C.seen i es := List.filterMap_cons_some h

theorem Components.seen_cons_none (h : C.sees i e = none) :
    C.seen i (e :: es) = C.seen i es := List.filterMap_cons_none h

@[simp] theorem Components.seen_append (i : ι) (es es' : List ε) :
    C.seen i (es ++ es') = C.seen i es ++ C.seen i es' := List.filterMap_append

theorem Components.moves_of_some {a b : τ i} {x : η i} (h : C.sees i e = some x) :
    C.Moves i a e b ↔ C.step i a x = some b := by
  rw [Components.Moves, h]

theorem Components.moves_of_none {a b : τ i} (h : C.sees i e = none) :
    C.Moves i a e b ↔ b = a := by
  rw [Components.Moves, h]

/-- A move is a run over what is seen of one event. -/
theorem Components.moves_iff_run {a b : τ i} :
    C.Moves i a e b ↔ Run (C.step i) a (C.seen i [e]) b := by
  cases h : C.sees i e with
  | none =>
    rw [Components.moves_of_none h, Components.seen_cons_none h, Components.seen_nil]
    constructor
    · rintro rfl
      exact .nil _
    · rintro ⟨⟩
      rfl
  | some x =>
    rw [Components.moves_of_some h, Components.seen_cons_some h, Components.seen_nil]
    constructor
    · exact fun hs => .single hs
    · rintro (_ | ⟨hs, ⟨⟩⟩)
      exact hs

/-- A run of a component, its first event split off. -/
theorem Components.run_cons_iff {a c : τ i} :
    Run (C.step i) a (C.seen i (e :: es)) c ↔
      ∃ b, C.Moves i a e b ∧ Run (C.step i) b (C.seen i es) c := by
  rw [← List.singleton_append, Components.seen_append]
  constructor
  · intro h
    obtain ⟨b, h1, h2⟩ := h.split
    exact ⟨b, Components.moves_iff_run.mpr h1, h2⟩
  · rintro ⟨b, h1, h2⟩
    exact (Components.moves_iff_run.mp h1).append h2

/-! ## 2. The whole and its components -/

/-- Each component runs over what it sees. -/
def Apart (C : Components ι ε τ η) (s : ∀ i, τ i) (es : List ε) (t : ∀ i, τ i) : Prop :=
  ∀ i, Run (C.step i) (s i) (C.seen i es) (t i)

theorem apart_nil_iff : Apart C s [] t ↔ t = s := by
  constructor
  · intro h
    funext i
    exact (h i).unique (.nil _)
  · rintro rfl i
    exact .nil _

theorem apart_cons_iff : Apart C s (e :: es) u ↔ ∃ t, C.Joint s e t ∧ Apart C t es u := by
  constructor
  · intro h
    choose t ht using fun i => Components.run_cons_iff.mp (h i)
    exact ⟨t, fun i => (ht i).1, fun i => (ht i).2⟩
  · rintro ⟨t, hj, ht⟩ i
    exact Components.run_cons_iff.mpr ⟨t i, hj i, ht i⟩

/-- A run of every component is cut at any point of the events. -/
theorem Apart.split (h : Apart C s (es ++ es') u) :
    ∃ t, Apart C s es t ∧ Apart C t es' u := by
  have hcut : ∀ i, ∃ b, Run (C.step i) (s i) (C.seen i es) b ∧
      Run (C.step i) b (C.seen i es') (u i) := by
    intro i
    have hi := h i
    rw [Components.seen_append] at hi
    exact hi.split
  choose t ht using hcut
  exact ⟨t, fun i => (ht i).1, fun i => (ht i).2⟩

/-- A joint step leads to one state at most. -/
theorem Components.Joint.unique (h : C.Joint s e t) (h' : C.Joint s e u) : t = u := by
  funext i
  exact (Components.moves_iff_run.mp (h i)).unique (Components.moves_iff_run.mp (h' i))

/-- The loop is going at every event. -/
def Going (C : Components ι ε τ η) (ok : (∀ i, τ i) → Prop) (s : ∀ i, τ i) (es : List ε) :
    Prop :=
  ∀ es₁ e t, es₁ ++ [e] <+: es → Apart C s es₁ t → ok t

theorem going_cons_iff (hj : C.Joint s e t) :
    Going C ok s (e :: es) ↔ ok s ∧ Going C ok t es := by
  constructor
  · intro h
    refine ⟨h [] e s (by simp) (apart_nil_iff.mpr rfl), fun es₁ e' u hpre hu => ?_⟩
    exact h (e :: es₁) e' u (by simpa using hpre) (apart_cons_iff.mpr ⟨t, hj, hu⟩)
  · rintro ⟨hs, h⟩ es₁ e' u hpre hu
    cases es₁ with
    | nil => exact apart_nil_iff.mp hu ▸ hs
    | cons e₁ es₁ =>
      rw [List.cons_append, List.cons_prefix_cons] at hpre
      obtain ⟨rfl, hpre⟩ := hpre
      obtain ⟨t', hj', hu⟩ := apart_cons_iff.mp hu
      exact h es₁ e' u hpre (hj.unique hj' ▸ hu)

/-- The loop goes on as long as each component allows it. -/
theorem going_forall_iff {good : ∀ i, τ i → Prop} (h : Apart C s es u) :
    Going C (fun t => ∀ i, good i (t i)) s es ↔
      ∀ es₁ e, es₁ ++ [e] <+: es → ∀ i a, Run (C.step i) (s i) (C.seen i es₁) a → good i a := by
  constructor
  · rintro hgoing es₁ e ⟨es₂, rfl⟩ i a ha
    rw [List.append_assoc] at h
    obtain ⟨t, ht, -⟩ := h.split
    rw [ha.unique (ht i)]
    exact hgoing es₁ e t (List.prefix_append _ _) ht i
  · exact fun hall es₁ e t hpre ht i => hall es₁ e hpre i (t i) (ht i)

/-- **A run of the whole is a run of each component**, interleaved in any way, with the loop
going at every event. -/
theorem jointRun_iff : JointRun C ok s es u ↔ Apart C s es u ∧ Going C ok s es := by
  induction es generalizing s with
  | nil =>
    rw [apart_nil_iff]
    constructor
    · rintro ⟨⟩
      exact ⟨rfl, fun es₁ e t hpre => absurd hpre.length_le (by simp)⟩
    · rintro ⟨rfl, -⟩
      exact .nil _
  | cons e es ih =>
    rw [apart_cons_iff]
    constructor
    · rintro (_ | ⟨hgoing, hj, hrest⟩)
      obtain ⟨hapart, hrest⟩ := ih.mp hrest
      exact ⟨⟨_, hj, hapart⟩, (going_cons_iff hj).mpr ⟨hgoing, hrest⟩⟩
    · rintro ⟨⟨t, hj, hapart⟩, h⟩
      obtain ⟨hgoing, hrest⟩ := (going_cons_iff hj).mp h
      exact .cons hgoing hj (ih.mpr ⟨hapart, hrest⟩)

/-! ## 3. A system seen as components -/

section View

variable {σ : Type} {step : σ → ε → Option σ} {I : σ → Prop} {view : σ → ∀ i, τ i} {a b : σ}

/-- Every step of the system is a joint step of the components. -/
theorem JointRun.of_run (hinv : ∀ a e b, I a → step a e = some b → I b)
    (hstep : ∀ a e b, I a → step a e = some b → ok (view a) ∧ C.Joint (view a) e (view b))
    (h : Run step a es b) (ha : I a) : JointRun C ok (view a) es (view b) := by
  induction h with
  | nil => exact .nil _
  | cons hs _ ih =>
    obtain ⟨hgoing, hj⟩ := hstep _ _ _ ha hs
    exact .cons hgoing hj (ih (hinv _ _ _ ha hs))

/-- Every joint step of the components is a step of the system. -/
theorem JointRun.exists_run (hinv : ∀ a e b, I a → step a e = some b → I b)
    (hback : ∀ a e t, I a → ok (view a) → C.Joint (view a) e t →
      ∃ b, step a e = some b ∧ view b = t)
    (h : JointRun C ok s es t) (ha : I a) (hview : view a = s) :
    ∃ b, Run step a es b ∧ view b = t := by
  induction h generalizing a with
  | nil s => exact ⟨a, .nil _, hview⟩
  | cons going first rest ih =>
    subst hview
    obtain ⟨b, hs, hb⟩ := hback _ _ _ ha going first
    obtain ⟨c, hrun, hc⟩ := ih (hinv _ _ _ ha hs) hb
    exact ⟨c, .cons hs hrun, hc⟩

end View

end Parallel
