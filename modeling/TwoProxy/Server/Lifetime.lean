/-
# The connections of a server, over a whole run

What happens to the `Connection`s that `Server` creates, whatever clients and origin servers
do and however the completions of different connections interleave.

* One accept is pending, for the connection created last; the others have been started or
  refused, none is deleted twice, and what is alive is busy, abandoned, or the one that waits
  (`connections_accounted`).
* A connection that has been abandoned stays where it is for as long as the server runs
  (`abandoned_forever`).
* The server goes on accepting exactly as long as no client sends what takes a handler down
  (`accepting_iff`).
-/
import TwoProxy.HttpConnection.Turns
import TwoProxy.Server.Interleaving

namespace TwoProxy

namespace HttpConnection

open RequestParser (lexer)

/-! ## 1. What takes a handler down -/

/-- What keeps a handler from ending the event loop: a browser read that completes a head must
find the authority in its target, and one that leaves it unfinished must find the iterators in
order.  A read that the parser refuses never ends it, wherever the iterators point. -/
def Survives (w : World) : Event → Prop
  | .browserRead (some data) =>
    match lexer.feed (lexingOf w.conn) (parsed w.conn data) with
    | .refused => True
    | .complete tokens _ => HasAuthority (targetOf tokens)
    | .reading _ => w.conn.newStart_ ≤ data.bytes.length
  | _ => True

/-- The target of a complete head is the destination that the connection stores. -/
theorem HeadOf.targetOf {c : HttpConnection} {tokens : List (RequestParser.StateType × Bytes)}
    (h : HeadOf c tokens) : targetOf tokens = c.message_.destination_ := by
  obtain ⟨version, rfl⟩ := h.tokens
  rfl

theorem Reading.goes_iff {w w' : World} {e : Event} (h : Reading w (HttpConnection.lexingOf w.conn))
    (hs : step w e = some w') :
    (w'.escaped = false ∧ w'.overrun = false) ↔ Survives w e := by
  have hesc := h.running.escaped
  have hover := h.running.overrun
  cases h.move hs with
  | hangsUp => simp [Survives, resuming, hesc, hover]
  | refuses data c line only isError feed =>
    simp [Survives, feed, World.log, World.act, resuming, hesc, hover]
  | connects data c tokens rest host port only feed head uri =>
    have hok : HasAuthority (targetOf tokens) := by
      rw [head.targetOf]
      exact uriAccepted_iff.mp ⟨host, port, uri⟩
    simp [Survives, feed, hok, World.start, World.act, resuming, hesc, hover]
  | throws data c tokens rest only feed head uri =>
    have hno : ¬ HasAuthority (targetOf tokens) := by
      rw [head.targetOf]
      exact fun hok => uri (uriAccepted_iff.mpr hok)
    simp [Survives, feed, hno, World.throw]
  | continues data c l' only feed inOrder =>
    simp [Survives, feed, inOrder, ReadMoreFromBrowser, World.start, resuming, hesc, hover]
  | overruns data c l' only feed inverted =>
    simp [Survives, feed, inverted, World.outOfRange]

theorem Serving.goes {hd : Head} {w w' : World} {e : Event} (h : Serving hd w)
    (hs : step w e = some w') : w'.escaped = false ∧ w'.overrun = false := by
  have hesc := h.running.escaped
  have hover := h.running.overrun
  cases h.move hs <;>
    simp [StartWriteToServer, World.start, World.log, World.act, resuming, hesc, hover]

/-- **A turn leaves the event loop going exactly if the read it handles lets it.** -/
theorem Phase.goes_iff {w w' : World} {e : Event} (h : Phase w) (hs : step w e = some w') :
    (w'.escaped = false ∧ w'.overrun = false) ↔ Survives w e := by
  cases h with
  | reading l h => exact h.lexingOf.goes_iff hs
  | serving hd h =>
    refine iff_of_true (h.goes hs) ?_
    have hop := (step_handle hs).1
    cases e with
    | browserRead r => exact absurd hop h.browserRead_notMem
    | _ => trivial
  | closed h => exact absurd hs (step_ne_some h.pending)
  | stalled h => exact absurd hs (step_ne_some h.pending)

end HttpConnection

namespace Server

open Transition

variable {w w' : World} {e : Event} {es : List Event}

/-! ## 2. Every connection is in one of its phases -/

/-- A server with an accept pending, whose started connections are in one of their phases. -/
structure Sound (w : World) : Prop where
  listens : Listens w
  phase : ∀ i c, w.slot i = .started c → HttpConnection.Phase c

theorem slot_of_getElem? {i : Nat} {s : Slot} (h : w.connections[i]? = some s) :
    w.slot i = s := by
  rw [World.slot, h]
  rfl

theorem handled_phase {error : Bool} {memory : Uninitialised} {c : TwoProxy.World}
    (h : handled error memory = .started c) : HttpConnection.Phase c := by
  cases error with
  | true => cases h
  | false =>
    obtain rfl := Slot.started.inj h
    exact .reading _ (HttpConnection.started_reading _ _ _ _)

theorem Sound.step (h : Sound w) (hs : Server.step w e = some w') : Sound w' := by
  refine ⟨h.listens.step hs, fun j c hj => ?_⟩
  obtain ⟨front, hf⟩ := h.listens
  rcases step_cases hs with
    ⟨-, ⟨n, error, memory, rfl, hn, rfl⟩ | ⟨i, e', c₀, c', rfl, hi, hc, rfl⟩⟩
  · rw [hf.accepts, List.mem_singleton] at hn
    subst hn
    rw [hf.slot_accept] at hj
    split at hj
    · exact handled_phase hj
    · exact h.phase j c hj
  · rw [hf.slot_connection hi] at hj
    split at hj
    · obtain rfl := Slot.started.inj hj
      exact (h.phase i c₀ (slot_of_getElem? hi)).kept hc
    · exact h.phase j c hj

theorem create_sound : Sound create where
  listens := create_listens
  phase := by
    intro i c hi
    rw [create_listening.slot] at hi
    cases hi

theorem Reaches.sound (h : Reaches es w) : Sound w :=
  Run.invariant (fun _ _ _ hi hs => Sound.step hi hs) h create_sound

/-! ## 3. The event loop -/

/-- Any accept that completes next can be handled. -/
def Accepting (w : World) : Prop :=
  ∃ n, ∀ error memory, ∃ w', step w (.accept n error memory) = some w'

/-- The event takes no handler down. -/
def Harmless (w : World) : Event → Prop
  | .accept _ _ _ => True
  | .connection i e => ∀ c, w.slot i = .started c → HttpConnection.Survives c e

theorem Listens.accepting_iff_going (h : Listens w) : Accepting w ↔ Going w := by
  obtain ⟨front, hf⟩ := h
  constructor
  · rintro ⟨n, hn⟩
    obtain ⟨w', hs⟩ := hn true ⟨blank, blank, 0, 0⟩
    exact (step_cases hs).1
  · intro hgoing
    have hn : front.length ∈ w.accepts := by
      rw [hf.accepts]
      exact List.mem_singleton_self _
    refine ⟨front.length, fun error memory => ?_⟩
    rw [Server.step, if_neg (by simp [going_iff.mp hgoing])]
    exact ⟨_, if_pos hn⟩

/-- Once a handler has been taken down nothing happens any more, to any connection. -/
theorem step_of_not_going (h : ¬ Going w) (e : Event) : step w e = none := by
  cases hs : step w e with
  | none => rfl
  | some w' => exact absurd (step_cases hs).1 h

theorem Slot.halts_started (c : TwoProxy.World) :
    Slot.halts (.started c) = false ↔ c.escaped = false ∧ c.overrun = false := by
  rw [Slot.halts, Bool.or_eq_false_iff]

theorem handled_halts (error : Bool) (memory : Uninitialised) :
    (handled error memory).halts = false := by
  cases error <;> rfl

/-- **A turn leaves the event loop going exactly if it is harmless.** -/
theorem Sound.going_iff (h : Sound w) (hgoing : Going w) (hs : Server.step w e = some w') :
    Going w' ↔ Harmless w e := by
  obtain ⟨front, hf⟩ := h.listens
  rcases step_cases hs with
    ⟨-, ⟨n, error, memory, rfl, hn, rfl⟩ | ⟨i, e', c, c', rfl, hi, hc, rfl⟩⟩
  · rw [hf.accepts, List.mem_singleton] at hn
    subst hn
    refine iff_of_true (fun j => ?_) trivial
    rw [hf.slot_accept]
    split
    · exact handled_halts error memory
    · exact hgoing j
  · have hslot := slot_of_getElem? hi
    have hturn := (h.phase i c hslot).goes_iff hc
    have hharmless : Harmless w (.connection i e') ↔ HttpConnection.Survives c e' := by
      constructor
      · exact fun hall => hall c hslot
      · intro hok c₁ hc₁
        obtain rfl := Slot.started.inj (hslot.symm.trans hc₁)
        exact hok
    rw [hharmless, ← hturn, ← Slot.halts_started]
    constructor
    · intro hall
      have := hall i
      rwa [hf.slot_connection hi, if_pos rfl] at this
    · intro hok j
      rw [hf.slot_connection hi]
      split
      · exact hok
      · exact hgoing j

/-- **How long a server accepts clients.**  The states that a run leads through can all accept
the next client exactly if, in each of its turns, a browser read that completes a head
completes one whose target has an authority, and one that leaves it unfinished, so that it is
not refused either, finds the iterators in order; and in a state that cannot accept, no
connection can do anything any more. -/
theorem accepting_iff (es : List Event) (w : World) (h : Reaches es w) :
    (EveryState step Accepting create es ↔ EveryStep step Harmless create es) ∧
      (¬ Accepting w → ∀ e, step w e = none) := by
  refine ⟨everyState_iff_everyStep (I := Sound) (fun _ _ _ hi hs => Sound.step hi hs) ?_ h
    create_sound ?_, fun hno => step_of_not_going ?_⟩
  · intro s e t hi haccepts hs
    rw [(Sound.step hi hs).listens.accepting_iff_going]
    exact hi.going_iff (hi.listens.accepting_iff_going.mp haccepts) hs
  · refine create_listens.accepting_iff_going.mpr fun i => ?_
    rw [create_listening.slot]
    rfl
  · rwa [h.sound.listens.accepting_iff_going] at hno

/-- Two clients; the second one asks for `http://a/`. -/
def twoClients : List Event :=
  [.accept 0 false ⟨blank, blank, 0, 0⟩, .accept 1 false ⟨blank, blank, 0, 0⟩,
    .connection 1 (.browserRead (some HttpConnection.absoluteForm))]

theorem accepting_iff_twoClients :
    (EveryState step Accepting create twoClients ↔ EveryStep step Harmless create twoClients) ∧
      (¬ Accepting (follow step create twoClients) →
        ∀ e, step (follow step create twoClients) e = none) :=
  accepting_iff twoClients _ (run_follow (by decide +kernel))

/-! ## 4. What is alive -/

/-- How often `delete` has been executed on a connection. -/
def Slot.deletions : Slot → Nat
  | .waiting => 0
  | .started c => c.deleted
  | .refused => 1

/-- A completion is on its way. -/
def Slot.isBusy : Slot → Bool
  | .started c => !c.pending.isEmpty
  | _ => false

/-- Nothing is pending, and nothing has been deleted. -/
def Slot.isAbandoned : Slot → Bool
  | .started c => c.pending.isEmpty && c.deleted == 0
  | _ => false

/-- It has not been deleted. -/
def Slot.isAlive (s : Slot) : Bool := s.deletions == 0

def World.count (w : World) (p : Slot → Bool) : Nat := w.connections.countP p

/-- What a started connection is, by its phase. -/
theorem started_linear {c : TwoProxy.World} (h : HttpConnection.Phase c) :
    (Slot.started c).deletions ≤ 1 ∧ c.pending.length ≤ 1 ∧
      (c.pending ≠ [] → c.deleted = 0) := by
  have hlin := h.linear
  refine ⟨hlin.deletedOnce, hlin.onePending, fun hp => ?_⟩
  by_contra hd
  exact hp (hlin.afterDelete hd).1

/-- Started or refused, a connection is alive if it is busy or abandoned, and not both. -/
theorem alive_cases {s : Slot} (hw : s ≠ .waiting)
    (h : ∀ c, s = .started c → HttpConnection.Phase c) :
    (if s.isAlive then 1 else 0) =
      (if s.isBusy then 1 else 0) + if s.isAbandoned then 1 else 0 := by
  cases s with
  | waiting => exact absurd rfl hw
  | refused => rfl
  | started c =>
    obtain ⟨-, -, hlive⟩ := started_linear (h c rfl)
    by_cases hp : c.pending = []
    · simp [Slot.isAlive, Slot.deletions, Slot.isBusy, Slot.isAbandoned, hp]
    · simp [Slot.isAlive, Slot.deletions, Slot.isBusy, Slot.isAbandoned, hp, hlive hp]

theorem countP_alive {front : List Slot} (hw : ∀ s ∈ front, s ≠ .waiting)
    (h : ∀ s ∈ front, ∀ c, s = .started c → HttpConnection.Phase c) :
    front.countP Slot.isAlive = front.countP Slot.isBusy + front.countP Slot.isAbandoned := by
  induction front with
  | nil => rfl
  | cons s front ih =>
    have hrest := ih (fun s' hs' => hw s' (List.mem_cons_of_mem _ hs'))
      (fun s' hs' => h s' (List.mem_cons_of_mem _ hs'))
    have hfirst := alive_cases (hw s (by simp)) (h s (by simp))
    simp only [List.countP_cons]
    omega

theorem Sound.mem_front {front : List Slot} (h : Sound w) (hf : Listening w front) :
    ∀ s ∈ front, ∀ c, s = .started c → HttpConnection.Phase c := by
  rintro s hs c rfl
  obtain ⟨i, hi⟩ := List.mem_iff_getElem?.mp hs
  refine h.phase i c ?_
  rw [hf.slot, hi]
  rfl

theorem Listening.count {front : List Slot} (h : Listening w front) (p : Slot → Bool) :
    w.count p = front.countP p + if p .waiting then 1 else 0 := by
  rw [World.count, h.connections, List.countP_append, List.countP_singleton]

/-- What is alive waits, is busy, or has been abandoned. -/
theorem Sound.alive (h : Sound w) :
    w.count Slot.isAlive = 1 + w.count Slot.isBusy + w.count Slot.isAbandoned := by
  obtain ⟨front, hf⟩ := h.listens
  have hfront := countP_alive hf.busy (h.mem_front hf)
  have halive : Slot.isAlive .waiting = true := rfl
  have hbusy : Slot.isBusy .waiting = false := rfl
  have habandoned : Slot.isAbandoned .waiting = false := rfl
  simp only [hf.count, hfront, halive, hbusy, habandoned, if_true, Bool.false_eq_true, if_false]
  omega

/-- The accepts that have completed are the connections that wait no more. -/
theorem accepts_length (h : Reaches es w) {front : List Slot} (hf : Listening w front) :
    (accepted es).length = front.length := by
  have hjoint := reaches_iff_jointRun.mp ⟨w, h, rfl⟩
  have hnumber := (Parallel.jointRun_iff.mp hjoint).1 none
  rw [view_create] at hnumber
  have hlen := (run_numberStep_iff.mp hnumber).1
  rw [hf.view_none] at hlen
  exact ((Nat.zero_add _).symm.trans hlen.symm)

/-- What holds of the connections of a server after some events. -/
structure Accounted (es : List Event) (w : World) : Prop where
  /-- An accept has been asked for once more than one has completed, and it is the only one
  that is pending. -/
  accepting : w.accepts = [(accepted es).length]
  created : w.connections.length = (accepted es).length + 1
  /-- The connection that was created last is the one that has not been started. -/
  waiting : ∀ i < w.connections.length, w.slot i = .waiting ↔ i = (accepted es).length
  onePending : ∀ i c, w.slot i = .started c → c.pending.length ≤ 1
  deletedOnce : ∀ i, (w.slot i).deletions ≤ 1
  /-- Nothing is pending on a connection that has been deleted. -/
  deleted : ∀ i, (w.slot i).deletions = 1 → (w.slot i).isBusy = false
  alive : w.count Slot.isAlive = 1 + w.count Slot.isBusy + w.count Slot.isAbandoned

/-- **Every `Connection` is accounted for.**  In every reachable state of the server one accept
is pending, for the connection created last; every other one has been started or refused; none
has been deleted twice or is deleted with an operation pending; and what has not been deleted
is that one, the busy ones and the abandoned ones. -/
theorem connections_accounted (es : List Event) (w : World) (h : Reaches es w) :
    Accounted es w := by
  have hsound := h.sound
  obtain ⟨front, hf⟩ := hsound.listens
  have hlen := accepts_length h hf
  have hslot : ∀ i, w.slot i = .waiting ∨ w.slot i = .refused ∨
      ∃ c, w.slot i = .started c ∧ HttpConnection.Phase c := by
    intro i
    cases hi : w.slot i with
    | waiting => exact Or.inl rfl
    | refused => exact Or.inr (Or.inl rfl)
    | started c => exact Or.inr (Or.inr ⟨c, rfl, hsound.phase i c hi⟩)
  constructor
  · rw [hf.accepts, hlen]
  · rw [hf.connections, List.length_append, hlen]
    rfl
  · intro i hi
    rw [hf.connections, List.length_append] at hi
    rw [hf.slot, hlen]
    constructor
    · intro hwait
      by_contra hne
      have hlt : i < front.length := by
        simp only [List.length_singleton] at hi
        omega
      rw [List.getElem?_eq_getElem hlt] at hwait
      exact hf.busy _ (List.getElem_mem hlt) hwait
    · rintro rfl
      rw [List.getElem?_eq_none le_rfl]
      rfl
  · exact fun i c hi => (started_linear (hsound.phase i c hi)).2.1
  · intro i
    rcases hslot i with hi | hi | ⟨c, hi, hphase⟩
    · simp [hi, Slot.deletions]
    · simp [hi, Slot.deletions]
    · rw [hi]
      exact (started_linear hphase).1
  · intro i hd
    rcases hslot i with hi | hi | ⟨c, hi, hphase⟩
    · rw [hi]; rfl
    · rw [hi]; rfl
    · rw [hi] at hd ⊢
      have hidle : c.pending = [] := by
        by_contra hp
        have hone : c.deleted = 1 := hd
        have hzero := (started_linear hphase).2.2 hp
        omega
      simp [Slot.isBusy, hidle]
  · exact hsound.alive

theorem connections_accounted_twoClients :
    Accounted twoClients (follow step create twoClients) :=
  connections_accounted twoClients _ (run_follow (by decide +kernel))

/-! ## 5. What is abandoned -/

/-- Replacing an element that does not count. -/
theorem countP_set_le {p : Slot → Bool} {l : List Slot} {i : Nat} {a b : Slot}
    (h : l[i]? = some a) (ha : p a = false) : l.countP p ≤ (l.set i b).countP p := by
  induction l generalizing i with
  | nil => exact le_rfl
  | cons x l ih =>
    cases i with
    | zero =>
      obtain rfl := Option.some.inj h
      simp only [List.set_cons_zero, List.countP_cons, ha, Bool.false_eq_true, if_false]
      omega
    | succ i =>
      have := ih h
      simp only [List.set_cons_succ, List.countP_cons]
      omega

/-- A connection that can do something has not been abandoned. -/
theorem isAbandoned_of_step {c c' : TwoProxy.World} {e : HttpConnection.Event}
    (hs : HttpConnection.step c e = some c') : (Slot.started c).isAbandoned = false := by
  have hp : c.pending ≠ [] := List.ne_nil_of_mem (HttpConnection.step_handle hs).1
  cases hc : c.pending with
  | nil => exact absurd hc hp
  | cons op ops => simp [Slot.isAbandoned, hc]

/-- No turn of the event loop touches an abandoned connection, or makes fewer of them. -/
theorem Listens.abandoned_step (h : Listens w) (hs : Server.step w e = some w') :
    (∀ i, (w.slot i).isAbandoned = true → w'.slot i = w.slot i) ∧
      w.count Slot.isAbandoned ≤ w'.count Slot.isAbandoned := by
  obtain ⟨front, hf⟩ := h
  rcases step_cases hs with
    ⟨-, ⟨n, error, memory, rfl, hn, rfl⟩ | ⟨i, e', c, c', rfl, hi, hc, rfl⟩⟩
  · rw [hf.accepts, List.mem_singleton] at hn
    subst hn
    constructor
    · intro j hj
      rw [hf.slot_accept]
      split
      · rename_i heq
        rw [hf.slot, heq, List.getElem?_eq_none le_rfl] at hj
        cases hj
      · rfl
    · rw [hf.count, (hf.accept error memory).count, List.countP_append]
      omega
  · have hno := isAbandoned_of_step hc
    constructor
    · intro j hj
      rw [hf.slot_connection hi]
      split
      · rename_i heq
        rw [heq, slot_of_getElem? hi, hno] at hj
        cases hj
      · rfl
    · exact countP_set_le hi hno

/-- **An abandoned connection is never reclaimed.**  However the server goes on, a connection on
which nothing is pending and which has not been deleted stays what it is, and their number,
which bounds from below what is alive, never falls. -/
theorem abandoned_forever (es es' : List Event) (w w' : World) (h : Reaches es w)
    (hrun : Run step w es' w') :
    (∀ i, (w.slot i).isAbandoned = true → w'.slot i = w.slot i) ∧
      w.count Slot.isAbandoned ≤ w'.count Slot.isAbandoned ∧
      w'.count Slot.isAbandoned < w'.count Slot.isAlive := by
  have hkept : Listens w → (∀ i, (w.slot i).isAbandoned = true → w'.slot i = w.slot i) ∧
      w.count Slot.isAbandoned ≤ w'.count Slot.isAbandoned := by
    clear h
    induction hrun with
    | nil => exact fun _ => ⟨fun _ _ => rfl, le_rfl⟩
    | cons hs _ ih =>
      intro hl
      obtain ⟨hstay, hle⟩ := hl.abandoned_step hs
      obtain ⟨hstay', hle'⟩ := ih (hl.step hs)
      refine ⟨fun i hi => ?_, hle.trans hle'⟩
      have hone := hstay i hi
      rw [hstay' i (hone ▸ hi), hone]
  obtain ⟨hstay, hle⟩ := hkept h.sound.listens
  refine ⟨hstay, hle, ?_⟩
  have hsound : Sound w' := Run.invariant (fun _ _ _ hi hs => Sound.step hi hs) hrun h.sound
  have halive := hsound.alive
  omega

/-- A client whose method is refused. -/
def refusedClient : List Event :=
  [.accept 0 false ⟨blank, blank, 0, 0⟩,
    .connection 0 (.browserRead (some HttpConnection.lowerCase))]

theorem abandoned_forever_refusedClient :
    let w := follow step create refusedClient
    let w' := follow step w [.accept 1 false ⟨blank, blank, 0, 0⟩]
    w.count Slot.isAbandoned = 1 ∧
      (∀ i, (w.slot i).isAbandoned = true → w'.slot i = w.slot i) ∧
      w.count Slot.isAbandoned ≤ w'.count Slot.isAbandoned ∧
      w'.count Slot.isAbandoned < w'.count Slot.isAlive :=
  ⟨by decide +kernel, abandoned_forever refusedClient [.accept 1 false ⟨blank, blank, 0, 0⟩] _ _
    (run_follow (by decide +kernel)) (run_follow (by decide +kernel))⟩

end Server

end TwoProxy
