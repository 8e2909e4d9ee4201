/-
# A run of the server is an interleaving of runs of connections

The connections share the event loop and nothing else.  Seen as components (`Lib/Parallel.lean`)
the server consists of an acceptor, which numbers the accepts, and of one connection for each
number, whose first event is its accept.  An accept is seen by the two it concerns, and any
other event by one connection.

`interleaving_iff` is exact: the runs of the server are the interleavings of runs of
connections, accepted in order, up to the first exception.  What is proved of a connection on
its own (`HttpConnection.Reaches`) so holds of each connection of a server, whatever the
others do.
-/
import TwoProxy.Lib.Parallel
import TwoProxy.Server

namespace TwoProxy

namespace Server

open Parallel Transition

/-! ## 1. One turn -/

/-- A connection by its number; the ones that are still to be created wait too. -/
def World.slot (w : World) (i : Nat) : Slot := w.connections[i]?.getD .waiting

/-- No connection has ended the event loop. -/
def Going (w : World) : Prop := ∀ i, (w.slot i).halts = false

theorem going_iff {w : World} : Going w ↔ w.connections.any Slot.halts = false := by
  rw [List.any_eq_false]
  constructor
  · intro h s hs
    obtain ⟨i, hi⟩ := List.mem_iff_getElem?.mp hs
    have := h i
    rw [World.slot, hi] at this
    simp [show s.halts = false from this]
  · intro h i
    unfold World.slot
    cases hi : w.connections[i]? with
    | none => rfl
    | some s => simpa using h s (List.mem_of_getElem? hi)

/-- What the event loop can do, and what it leads to. -/
theorem step_cases {w w' : World} {e : Event} (hs : step w e = some w') :
    Going w ∧
      ((∃ n error memory, e = .accept n error memory ∧ n ∈ w.accepts ∧
          w' = HandleAccept n error memory { w with accepts := w.accepts.erase n }) ∨
        ∃ i e' c c', e = .connection i e' ∧ w.connections[i]? = some (.started c) ∧
          HttpConnection.step c e' = some c' ∧
          w' = { w with connections := w.connections.set i (.started c') }) := by
  unfold step at hs
  split at hs
  · cases hs
  · rename_i hgoing
    refine ⟨going_iff.mpr (by simpa using hgoing), ?_⟩
    cases e with
    | accept n error memory =>
      dsimp only at hs
      split at hs
      · exact Or.inl ⟨n, error, memory, rfl, ‹_›, (Option.some.inj hs).symm⟩
      · cases hs
    | connection i e' =>
      dsimp only at hs
      split at hs
      · rename_i c hc
        obtain ⟨c', hc', rfl⟩ := Option.map_eq_some_iff.mp hs
        exact Or.inr ⟨i, e', c, c', rfl, hc, hc', rfl⟩
      · cases hs

/-- The last connection waits, with an accept pending for it, and the others have been
started or refused. -/
structure Listening (w : World) (front : List Slot) : Prop where
  connections : w.connections = front ++ [.waiting]
  accepts : w.accepts = [front.length]
  busy : ∀ s ∈ front, s ≠ .waiting

theorem create_listening : Listening create [] := ⟨rfl, rfl, by simp⟩

/-- The connection that `HandleAccept` leaves behind. -/
def handled (error : Bool) (memory : Uninitialised) : Slot :=
  if !error then Start memory else .refused

theorem handled_ne_waiting (error : Bool) (memory : Uninitialised) :
    handled error memory ≠ .waiting := by
  cases error <;> simp [handled, Start]

variable {w w' : World} {front : List Slot}

theorem Listening.slot (h : Listening w front) (i : Nat) :
    w.slot i = front[i]?.getD .waiting := by
  rw [World.slot, h.connections, List.getElem?_append]
  split
  · rfl
  · rename_i hi
    rw [List.getElem?_eq_none (Nat.le_of_not_lt hi)]
    cases i - front.length <;> rfl

/-- An accept starts or refuses the connection that waited, and another one waits. -/
theorem Listening.accept (h : Listening w front) (error : Bool) (memory : Uninitialised) :
    Listening (HandleAccept front.length error memory
        { w with accepts := w.accepts.erase front.length })
      (front ++ [handled error memory]) := by
  have hset : w.connections.set front.length (handled error memory) =
      front ++ [handled error memory] := by
    rw [h.connections, List.set_append_right _ _ le_rfl, Nat.sub_self, List.set_cons_zero]
  have hw : HandleAccept front.length error memory
      { w with accepts := w.accepts.erase front.length } =
        StartAccept ⟨front ++ [handled error memory], []⟩ := by
    rw [← hset, HandleAccept, h.accepts]
    cases error <;> simp [handled]
  rw [hw]
  refine ⟨rfl, rfl, fun s hs => ?_⟩
  rcases List.mem_append.mp hs with hs | hs
  · exact h.busy s hs
  · rw [List.mem_singleton.mp hs]
    exact handled_ne_waiting error memory

theorem Listening.lt {c : TwoProxy.World} {i : Nat} (h : Listening w front)
    (hi : w.connections[i]? = some (.started c)) : i < front.length := by
  rw [h.connections] at hi
  by_contra hle
  rw [List.getElem?_append_right (Nat.le_of_not_lt hle)] at hi
  cases hj : i - front.length <;> simp [hj] at hi

/-- A turn of a connection. -/
theorem Listening.connection {c c' : TwoProxy.World} {i : Nat} (h : Listening w front)
    (hi : w.connections[i]? = some (.started c)) :
    Listening { w with connections := w.connections.set i (.started c') }
      (front.set i (.started c')) where
  connections := by
    dsimp only
    rw [h.connections, List.set_append_left _ _ (h.lt hi)]
  accepts := by rw [List.length_set, h.accepts]
  busy := by
    intro s hs
    rcases List.mem_or_eq_of_mem_set hs with hs | rfl
    · exact h.busy s hs
    · simp

theorem Listening.step {e : Event} (h : Listening w front) (hs : step w e = some w') :
    ∃ front', Listening w' front' := by
  rcases step_cases hs with
    ⟨-, ⟨n, error, memory, rfl, hn, rfl⟩ | ⟨i, e', c, c', rfl, hc, -, rfl⟩⟩
  · rw [h.accepts, List.mem_singleton] at hn
    exact ⟨_, hn ▸ h.accept error memory⟩
  · exact ⟨_, h.connection hc⟩

theorem Listening.slot_accept (h : Listening w front) (error : Bool) (memory : Uninitialised)
    (i : Nat) :
    (HandleAccept front.length error memory
        { w with accepts := w.accepts.erase front.length }).slot i =
      if i = front.length then handled error memory else w.slot i := by
  rw [(h.accept error memory).slot, h.slot]
  rcases lt_trichotomy i front.length with hlt | rfl | hgt
  · rw [if_neg hlt.ne, List.getElem?_append_left hlt]
  · rw [if_pos rfl, List.getElem?_concat_length]
    rfl
  · rw [if_neg hgt.ne', List.getElem?_eq_none (by rw [List.length_append]; exact hgt),
      List.getElem?_eq_none hgt.le]

theorem Listening.slot_connection {c c' : TwoProxy.World} {i : Nat} (h : Listening w front)
    (hi : w.connections[i]? = some (.started c)) (j : Nat) :
    World.slot { w with connections := w.connections.set i (.started c') } j =
      if j = i then .started c' else w.slot j := by
  rw [(h.connection hi).slot, h.slot]
  by_cases hj : j = i
  · subst hj
    rw [if_pos rfl, List.getElem?_set_self (h.lt hi)]
    rfl
  · rw [if_neg hj, List.getElem?_set_ne (Ne.symm hj)]

/-- A server with an accept pending for its last connection. -/
def Listens (w : World) : Prop := ∃ front, Listening w front

theorem create_listens : Listens create := ⟨[], create_listening⟩

theorem Listens.step {e : Event} (h : Listens w) (hs : step w e = some w') : Listens w' := by
  obtain ⟨front, h⟩ := h
  exact h.step hs

/-! ## 2. The components -/

/-- What a connection sees of an event. -/
inductive OwnEvent
  | accept (error : Bool) (memory : Uninitialised)
  | own (e : HttpConnection.Event)

/-- A connection on its own. -/
def Slot.step : Slot → OwnEvent → Option Slot
  | .waiting, .accept error memory => some (handled error memory)
  | .started c, .own e => (HttpConnection.step c e).map .started
  | _, _ => none

/-- The acceptor has numbered `n` accepts. -/
def numberStep (n k : Nat) : Option Nat := if k = n then some (n + 1) else none

/-- The states of the acceptor and of the connections. -/
abbrev PartState : Option Nat → Type
  | none => Nat
  | some _ => Slot

abbrev PartEvent : Option Nat → Type
  | none => Nat
  | some _ => OwnEvent

def sees : (i : Option Nat) → Event → Option (PartEvent i)
  | none, .accept k _ _ => some k
  | none, .connection _ _ => none
  | some i, .accept k error memory => if k = i then some (.accept error memory) else none
  | some i, .connection k e => if k = i then some (.own e) else none

def parts : Components (Option Nat) Event PartState PartEvent where
  sees := sees
  step
    | none => numberStep
    | some _ => Slot.step

/-- The numbers of the accepts that have completed. -/
def accepted (es : List Event) : List Nat := parts.seen none es

/-- What a connection sees of a run. -/
def own (i : Nat) (es : List Event) : List OwnEvent := parts.seen (some i) es

/-- The acceptor and the connections of a server. -/
def view (w : World) : (i : Option Nat) → PartState i
  | none => w.connections.length - 1
  | some i => w.slot i

/-- A part does not end the event loop. -/
def good : (i : Option Nat) → PartState i → Prop
  | none, _ => True
  | some _, s => s.halts = false

theorem going_iff_good : Going w ↔ ∀ i, good i (view w i) := by
  constructor
  · rintro h (_ | i)
    · trivial
    · exact h i
  · exact fun h i => h (some i)

/-! ## 3. The server and its components -/

/-- The view of a server with its last connection waiting. -/
theorem Listening.view_none (h : Listening w front) : view w none = front.length := by
  simp [view, h.connections]

/-- **An accept**, seen by the acceptor and by the connection it numbers. -/
theorem Listening.joint_accept (h : Listening w front) (error : Bool)
    (memory : Uninitialised) :
    parts.Joint (view w) (.accept front.length error memory)
      (view (HandleAccept front.length error memory
        { w with accepts := w.accepts.erase front.length })) := by
  have h' := h.accept error memory
  rintro (_ | i)
  · change numberStep (view w none) front.length = some (view _ none)
    rw [h.view_none, h'.view_none, numberStep, if_pos rfl, List.length_append]
    rfl
  · by_cases hi : front.length = i
    · subst hi
      have hwaits : w.slot front.length = .waiting := by
        rw [h.slot, List.getElem?_eq_none le_rfl]
        rfl
      refine (Components.moves_of_some (if_pos rfl)).mpr ?_
      change Slot.step (w.slot front.length) _ = some (World.slot _ front.length)
      rw [h.slot_accept, if_pos rfl, hwaits]
      rfl
    · refine (Components.moves_of_none (if_neg hi)).mpr ?_
      exact (h.slot_accept error memory i).trans (if_neg (Ne.symm hi))

/-- **A turn of a connection**, seen by that connection. -/
theorem Listening.joint_connection {c c' : TwoProxy.World} {i : Nat} {e : HttpConnection.Event}
    (h : Listening w front) (hi : w.connections[i]? = some (.started c))
    (hc : HttpConnection.step c e = some c') :
    parts.Joint (view w) (.connection i e)
      (view { w with connections := w.connections.set i (.started c') }) := by
  have h' : Listening { w with connections := w.connections.set i (.started c') }
      (front.set i (.started c')) := h.connection hi
  rintro (_ | j)
  · change view _ none = view w none
    rw [h.view_none, h'.view_none, List.length_set]
  · by_cases hij : i = j
    · subst hij
      have hslot : w.slot i = .started c := by rw [World.slot, hi]; rfl
      refine (Components.moves_of_some (if_pos rfl)).mpr ?_
      change Slot.step (w.slot i) (.own e) = some (World.slot _ i)
      rw [h.slot_connection hi, if_pos rfl, hslot]
      exact congrArg (Option.map Slot.started) hc
    · refine (Components.moves_of_none (if_neg hij)).mpr ?_
      exact (h.slot_connection hi j).trans (if_neg (Ne.symm hij))

theorem Listens.joint {e : Event} (h : Listens w) (hs : Server.step w e = some w') :
    (∀ i, good i (view w i)) ∧ parts.Joint (view w) e (view w') := by
  obtain ⟨front, h⟩ := h
  rcases step_cases hs with
    ⟨hgoing, ⟨n, error, memory, rfl, hn, rfl⟩ | ⟨i, e', c, c', rfl, hi, hc, rfl⟩⟩
  · rw [h.accepts, List.mem_singleton] at hn
    subst hn
    exact ⟨going_iff_good.mp hgoing, h.joint_accept error memory⟩
  · exact ⟨going_iff_good.mp hgoing, h.joint_connection hi hc⟩

/-- What the components can do together, the server can. -/
theorem Listens.exists_step {e : Event} {t : ∀ i, PartState i} (h : Listens w)
    (hgood : ∀ i, good i (view w i)) (hj : parts.Joint (view w) e t) :
    ∃ w', Server.step w e = some w' ∧ view w' = t := by
  suffices ∃ w', Server.step w e = some w' by
    obtain ⟨w', hs⟩ := this
    exact ⟨w', hs, (h.joint hs).2.unique hj⟩
  obtain ⟨front, hf⟩ := h
  have hgoing : w.connections.any Slot.halts = false := going_iff.mp (going_iff_good.mpr hgood)
  cases e with
  | accept n error memory =>
    have hnumber : numberStep (view w none) n = some (t none) := hj none
    have hn : n ∈ w.accepts := by
      rw [hf.view_none, numberStep] at hnumber
      split at hnumber
      · rename_i heq
        rw [hf.accepts, heq]
        exact List.mem_singleton_self _
      · cases hnumber
    rw [Server.step, if_neg (by simp [hgoing])]
    exact ⟨_, if_pos hn⟩
  | connection i e' =>
    have hown : Slot.step (w.slot i) (.own e') = some (t (some i)) :=
      (Components.moves_of_some (if_pos rfl)).mp (hj (some i))
    cases hslot : w.slot i with
    | waiting => rw [hslot] at hown; cases hown
    | refused => rw [hslot] at hown; cases hown
    | started c =>
      rw [hslot] at hown
      obtain ⟨c', hc, -⟩ := Option.map_eq_some_iff.mp hown
      have hi : w.connections[i]? = some (.started c) := by
        unfold World.slot at hslot
        cases hi : w.connections[i]? with
        | none => rw [hi] at hslot; cases hslot
        | some s => rw [hi] at hslot; exact congrArg some hslot
      rw [Server.step, if_neg (by simp [hgoing])]
      simp only [hi, hc]
      exact ⟨_, rfl⟩

/-! ## 4. Runs -/

theorem view_create : view create = fun
    | none => 0
    | some _ => .waiting := by
  funext i
  cases i with
  | none => rfl
  | some i => exact create_listening.slot i

/-- The acceptor numbers the accepts in order. -/
theorem run_numberStep_iff {ks : List Nat} {m n : Nat} :
    Run numberStep m ks n ↔ n = m + ks.length ∧ ks = List.range' m ks.length := by
  induction ks generalizing m with
  | nil =>
    constructor
    · rintro ⟨⟩
      exact ⟨rfl, rfl⟩
    · rintro ⟨rfl, -⟩
      exact .nil _
  | cons k ks ih =>
    rw [List.length_cons, List.range'_succ, List.cons.injEq]
    constructor
    · rintro (_ | ⟨hs, h⟩)
      unfold numberStep at hs
      split at hs
      · rename_i hk
        obtain rfl := Option.some.inj hs
        obtain ⟨hn, hks⟩ := ih.mp h
        exact ⟨by omega, hk, hks⟩
      · cases hs
    · rintro ⟨hn, hk, hks⟩
      exact .cons (if_pos hk) (ih.mpr ⟨by omega, hks⟩)

/-- The events are those of connections on their own, accepted in order, with no connection
ending the event loop before the last of them. -/
structure Interleaves (es : List Event) (slots : Nat → Slot) : Prop where
  inOrder : accepted es = List.range (accepted es).length
  apart : ∀ i, Run Slot.step .waiting (own i es) (slots i)
  going : ∀ es₁ e, es₁ ++ [e] <+: es → ∀ i s, Run Slot.step .waiting (own i es₁) s →
    s.halts = false

/-- The server and its parts have the same runs. -/
theorem reaches_iff_jointRun {es : List Event} {t : ∀ i, PartState i} :
    (∃ w, Reaches es w ∧ view w = t) ↔
      JointRun parts (fun u => ∀ i, good i (u i)) (view create) es t := by
  constructor
  · rintro ⟨w, h, rfl⟩
    exact JointRun.of_run (fun _ _ _ hi hs => Listens.step hi hs) (fun _ _ _ hi hs => hi.joint hs) h
      create_listens
  · exact fun h => h.exists_run (fun _ _ _ hi hs => Listens.step hi hs)
      (fun _ _ _ hi hgood hj => hi.exists_step hgood hj) create_listens rfl

/-- What the connections of a run have done, each on its own. -/
theorem Reaches.interleaves {es : List Event} (h : Reaches es w) : Interleaves es w.slot := by
  obtain ⟨hapart, hgoing⟩ := jointRun_iff.mp (reaches_iff_jointRun.mp ⟨w, h, rfl⟩)
  have hnumber := hapart none
  rw [going_forall_iff hapart] at hgoing
  rw [view_create] at hapart hgoing hnumber
  refine ⟨?_, fun i => hapart (some i), fun es₁ e hpre i => hgoing es₁ e hpre (some i)⟩
  rw [List.range_eq_range']
  exact (run_numberStep_iff.mp hnumber).2

/-- Connections that can each do their part can do it together. -/
theorem Interleaves.exists_reaches {es : List Event} {slots : Nat → Slot}
    (h : Interleaves es slots) : ∃ w, Reaches es w ∧ ∀ i, w.slot i = slots i := by
  have hapart : Apart parts (view create) es fun
      | none => (accepted es).length
      | some i => slots i := by
    rw [view_create]
    rintro (_ | i)
    · refine run_numberStep_iff.mpr ⟨(Nat.zero_add _).symm, ?_⟩
      rw [← List.range_eq_range']
      exact h.inOrder
    · exact h.apart i
  have hgoing : Parallel.Going parts (fun u => ∀ i, good i (u i)) (view create) es := by
    rw [going_forall_iff hapart, view_create]
    rintro es₁ e hpre (_ | i) s hs
    · trivial
    · exact h.going es₁ e hpre i s hs
  obtain ⟨w, hreach, hview⟩ := reaches_iff_jointRun.mpr (jointRun_iff.mpr ⟨hapart, hgoing⟩)
  exact ⟨w, hreach, fun i => congrFun hview (some i)⟩

/-- **A run of the server is an interleaving of runs of connections.**  A list of events can
happen, and leaves these connections behind, exactly if the accepts in it are numbered in
order, what each connection sees of it is a run of that connection alone, from the accept on,
and no connection has ended the event loop before the last event. -/
theorem interleaving_iff (es : List Event) (slots : Nat → Slot) :
    (∃ w, Reaches es w ∧ ∀ i, w.slot i = slots i) ↔ Interleaves es slots := by
  constructor
  · rintro ⟨w, h, hslots⟩
    obtain rfl : w.slot = slots := funext hslots
    exact h.interleaves
  · exact Interleaves.exists_reaches

end Server

end TwoProxy
