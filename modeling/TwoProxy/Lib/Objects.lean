/-
# Objects of a class, against plain values

A program constructs objects, copies, assigns and swaps them, and calls setters on them.  What
it sees of an object is a `view`, the tuple of its getters.  The class is a value type if a
program sees what it would see of plain values of the type of the view, where a copy is the
value itself, an assignment replaces and a swap exchanges.

A class whose members are right one by one except for its copy constructor (`Faithful`; an
assignment by value and swap inherits it) is a value type in exactly the programs whose copies
and assignments are from objects that the copy constructor does copy: `agree_iff`.
-/
import TwoProxy.Lib.Run

namespace Objects

open Transition

variable {σ τ μ : Type}

/-- The members of a class: `σ` is an object and `μ` a call of a setter with its argument.
`assign x y` is what becomes of `x`, and `swap x y` what becomes of the two. -/
structure Members (σ μ : Type) where
  default : σ
  copy : σ → σ
  assign : σ → σ → σ
  swap : σ → σ → σ × σ
  call : μ → σ → σ

/-- Plain values. -/
def plain (default : τ) (call : μ → τ → τ) : Members τ μ where
  default := default
  copy := id
  assign _ y := y
  swap x y := (y, x)
  call := call

/-- One statement of a program; objects are numbered in the order of their construction.  The
argument of a setter may depend on what the getters return. -/
inductive Statement (τ μ : Type)
  | construct
  | copyOf (i : Nat)
  | assign (i j : Nat)
  | swap (i j : Nat)
  | call (i : Nat) (setter : List τ → μ)

/-- Execute a statement.  It is stuck if it names an object that does not exist. -/
def exec (M : Members σ μ) (view : σ → τ) (objects : List σ) :
    Statement τ μ → Option (List σ)
  | .construct => some (objects ++ [M.default])
  | .copyOf i => objects[i]?.map fun x => objects ++ [M.copy x]
  | .assign i j =>
    match objects[i]?, objects[j]? with
    | some x, some y => some (objects.set i (M.assign x y))
    | _, _ => none
  | .swap i j =>
    match objects[i]?, objects[j]? with
    | some x, some y => some ((objects.set i (M.swap x y).1).set j (M.swap x y).2)
    | _, _ => none
  | .call i setter =>
    objects[i]?.map fun x => objects.set i (M.call (setter (objects.map view)) x)

/-- The program on the objects and, beside it, on plain values. -/
def beside (M : Members σ μ) (view : σ → τ) (P : Members τ μ) (s : List σ × List τ)
    (c : Statement τ μ) : Option (List σ × List τ) :=
  match exec M view s.1 c, exec P id s.2 c with
  | some objects, some values => some (objects, values)
  | _, _ => none

/-- Every getter of every object returns what the plain value holds. -/
def Agree (view : σ → τ) (s : List σ × List τ) : Prop := s.1.map view = s.2

/-- A copy or an assignment is from an object that the copy constructor copies. -/
def CopiesWell (M : Members σ μ) (view : σ → τ) (s : List σ × List τ) : Statement τ μ → Prop
  | .copyOf i => ∀ x ∈ s.1[i]?, view (M.copy x) = view x
  | .assign _ j => ∀ y ∈ s.1[j]?, view (M.copy y) = view y
  | _ => True

/-- Every member but the copy constructor does to the view what it should, and assignment does
what the copy constructor does. -/
structure Faithful (M : Members σ μ) (view : σ → τ) (default : τ) (call : μ → τ → τ) : Prop where
  default : view M.default = default
  call : ∀ m x, view (M.call m x) = call m (view x)
  swap : ∀ x y, view (M.swap x y).1 = view y ∧ view (M.swap x y).2 = view x
  assign : ∀ x y, view (M.assign x y) = view (M.copy y)

/-- Replacing one element makes two lists equal only if the replacements are. -/
theorem set_eq_set_iff {l : List τ} {i : Nat} {a b c : τ} (h : l[i]? = some c) :
    l.set i a = l.set i b ↔ a = b := by
  refine ⟨fun heq => ?_, fun heq => heq ▸ rfl⟩
  have hi : i < l.length := (List.getElem?_eq_some_iff.mp h).1
  have hget := congrArg (fun xs => xs[i]?) heq
  simpa [List.getElem?_set_self hi] using hget

variable {M : Members σ μ} {view : σ → τ} {default : τ} {call : μ → τ → τ}

/-- **One statement.**  It keeps the two sides in agreement exactly if it copies well. -/
theorem agree_step (hM : Faithful M view default call) {s t : List σ × List τ}
    {c : Statement τ μ} (h : Agree view s) (hs : beside M view (plain default call) s c = some t) :
    Agree view t ↔ CopiesWell M view s c := by
  obtain ⟨objects, values⟩ := s
  obtain rfl : objects.map view = values := h
  unfold beside at hs
  dsimp only at hs
  split at hs
  · rename_i objects' values' h1 h2
    obtain rfl := Option.some.inj hs
    unfold Agree
    dsimp only
    cases c with
    | construct =>
      obtain rfl := Option.some.inj h1
      obtain rfl := Option.some.inj h2
      refine iff_of_true ?_ trivial
      simp [plain, hM.default]
    | copyOf i =>
      cases hi : objects[i]? with
      | none => simp [exec, hi] at h1
      | some x =>
        simp only [exec, hi, List.getElem?_map, Option.map_some, Option.some.injEq] at h1 h2
        subst h1 h2
        simp [CopiesWell, plain, hi]
    | assign i j =>
      cases hi : objects[i]? with
      | none => simp [exec, hi] at h1
      | some x =>
        cases hj : objects[j]? with
        | none => simp [exec, hj] at h1
        | some y =>
          simp only [exec, hi, hj, List.getElem?_map, Option.map_some, Option.some.injEq]
            at h1 h2
          subst h1 h2
          have hget : (objects.map view)[i]? = some (view x) := by simp [hi]
          rw [List.map_set, hM.assign, set_eq_set_iff hget]
          simp [CopiesWell, plain, hj]
    | swap i j =>
      cases hi : objects[i]? with
      | none => simp [exec, hi] at h1
      | some x =>
        cases hj : objects[j]? with
        | none => simp [exec, hj] at h1
        | some y =>
          simp only [exec, hi, hj, List.getElem?_map, Option.map_some, Option.some.injEq]
            at h1 h2
          subst h1 h2
          refine iff_of_true ?_ trivial
          rw [List.map_set, List.map_set, (hM.swap x y).1, (hM.swap x y).2]
          rfl
    | call i setter =>
      cases hi : objects[i]? with
      | none => simp [exec, hi] at h1
      | some x =>
        simp only [exec, hi, List.getElem?_map, Option.map_some, Option.some.injEq,
          List.map_id] at h1 h2
        subst h1 h2
        refine iff_of_true ?_ trivial
        rw [List.map_set, hM.call]
        rfl
  · cases hs

/-- **When a class is a value type.**  A program goes only through states in which the objects
are the plain values exactly if each of its copies and assignments copies well. -/
theorem agree_iff (hM : Faithful M view default call) {s t : List σ × List τ}
    {program : List (Statement τ μ)} (hs : Agree view s)
    (hrun : Run (beside M view (plain default call)) s program t) :
    EveryState (beside M view (plain default call)) (Agree view) s program ↔
      EveryStep (beside M view (plain default call)) (CopiesWell M view) s program :=
  everyState_iff_everyStep (I := fun _ => True) (fun _ _ _ _ _ => trivial)
    (fun _ _ _ _ h hs => agree_step hM h hs) hrun trivial hs

end Objects
