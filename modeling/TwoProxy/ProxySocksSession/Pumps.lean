/-
# A session is two pumps

`Streams.lean` simulates each direction of a session by a pump.  Until the session is shut
down the converse holds as well: whatever the two pumps can do, each on its own and in any
order, the session can do.  So the flag, the four buffers and the handlers that the directions
share have no effect on what goes over the sockets, and how the event loop interleaves the
directions makes no difference to it (`relays_independently_iff`).
-/
import TwoProxy.Lib.Parallel
import TwoProxy.ProxySocksSession.Streams

namespace TwoProxy

namespace ProxySocksSession

open Parallel Transition

/-! ## 1. A direction on its own -/

/-- A pump that takes the events of a session: the length of a write is that of the chunk, and
there are no errors. -/
def relay (p : Pump Byte) : Event → Option (Pump Byte)
  | .read _ (some c) => p.take (.receive c.bytes)
  | .read _ none => none
  | .transfer _ len n => if p.chunk.length = len then p.take (.transfer n) else none
  | .write _ len false => if p.chunk.length = len then p.take .complete else none
  | .write _ _ true => none

/-- What a direction takes is a step of its pump. -/
theorem relay_step {p q : Pump Byte} {e : Event} (h : relay p e = some q) : Pump.Step p q := by
  cases e with
  | read d data =>
    cases data with
    | none => cases h
    | some c =>
      rw [relay] at h
      exact .of_take h
  | transfer d len n =>
    rw [relay, Option.ite_none_right_eq_some] at h
    exact .of_take h.2
  | write d len error =>
    cases error with
    | true => cases h
    | false =>
      rw [relay, Option.ite_none_right_eq_some] at h
      exact .of_take h.2

/-- A direction on its own loses, duplicates and reorders nothing. -/
theorem relay_balanced {p : Pump Byte} {es : List Event} (h : Run relay Pump.start es p) :
    p.Balanced :=
  h.invariant (fun _ _ _ hi hs => (relay_step hs).balanced hi) Pump.balanced_start

/-- The two directions, each of which sees its own events. -/
def directions : Components Direction Event (fun _ => Pump Byte) (fun _ => Event) where
  sees d e := if e.direction = d then some e else none
  step _ := relay

/-- The events of a direction. -/
def own (d : Direction) (es : List Event) : List Event := directions.seen d es

variable {w w' : World} {d : Direction} {e : Event} {es : List Event}

/-- The chunk of a direction that writes. -/
theorem chunk_length {len : Nat} (hp : w.pending d = [.write len]) (hlen : len ≤ 1024) :
    (pump w d).chunk.length = len := by
  have hsize := (w.session.writtenData d).size_eq
  simp only [pump, chunk, hp, List.length_take]
  omega

theorem progress_of_write {len : Nat} (hp : w.pending d = [.write len]) :
    (pump w d).progress = (w.wire d).progress := by
  simp only [pump, progress, hp]

/-- A direction without a chunk waits for a read. -/
theorem Live.pending_of_idle (h : Live w) (hidle : (pump w d).chunk = []) :
    w.pending d = [.read] := by
  rcases h.pending d with hp | ⟨len, hp, hpos, hle⟩
  · exact hp
  · have hlen := chunk_length hp hle
    rw [hidle, List.length_nil] at hlen
    omega

/-- A direction with a chunk writes it. -/
theorem Live.pending_of_chunk (h : Live w) (hpos : 0 < (pump w d).chunk.length) :
    w.pending d = [.write (pump w d).chunk.length] := by
  rcases h.pending d with hp | ⟨len, hp, -, hle⟩
  · simp [pump, chunk, hp] at hpos
  · rw [chunk_length hp hle, hp]

/-! ## 2. One turn -/

/-- **A turn without an error is taken by the pump of its direction.** -/
theorem Live.relays (h : Live w) (hs : ProxySocksSession.step w e = some w') (he : ¬ e.IsError) :
    relay (pump w e.direction) e = some (pump w' e.direction) := by
  obtain ⟨hen, rfl⟩ := step_eq_some hs
  cases e with
  | read d data =>
    cases data with
    | none => exact absurd rfl he
    | some c =>
      have hp := h.reads hen
      have hidle : (pump w d).chunk = [] := by simp [pump, chunk, hp]
      have hgo : (!false && !(arrive w (.read d (some c))).session.shutdownInProgress_) = true := by
        simp [arrive, h.shutdownInProgress]
      rw [relay, Event.direction, Pump.take_receive hidle c.pos, handle_read, HandleProxyRead,
        if_pos hgo]
      dsimp only
      rw [if_pos c.pos]
      simp [pump, chunk, progress, World.startWrite, arrive, hp, copied_filled_take]
  | transfer d len n =>
    obtain ⟨-, hmem, hpos, hn⟩ := hen
    obtain ⟨hp, -, hle⟩ := h.writes hmem
    have hlen := chunk_length hp hle
    have htake : 0 < n ∧ (pump w d).progress + n ≤ (pump w d).chunk.length := by
      rw [hlen, progress_of_write hp]
      exact ⟨hpos, hn⟩
    rw [relay, Event.direction, if_pos hlen, Pump.take, if_pos htake]
    simp [pump, chunk, progress, arrive, handle, hp]
  | write d len error =>
    cases error with
    | true => exact absurd rfl he
    | false =>
      obtain ⟨hp, hpos, hle⟩ := h.writes hen.1
      have hlen := chunk_length hp hle
      have hall : (w.wire d).progress = len := hen.2 rfl
      have htake : 0 < (pump w d).chunk.length ∧
          (pump w d).progress = (pump w d).chunk.length := by
        rw [hlen, progress_of_write hp]
        exact ⟨hpos, hall⟩
      have hgo : ¬ (false ||
          (arrive w (.write d len false)).session.shutdownInProgress_) = true := by
        simp [arrive, h.shutdownInProgress]
      rw [relay, Event.direction, if_pos hlen, Pump.take, if_pos htake, handle_write,
        HandleProxyWrite, if_neg hgo]
      simp [pump, chunk, progress, World.startRead, arrive, hp]

/-- **What the pump of a direction takes, the session can do.** -/
theorem Live.enabled (h : Live w) {q : Pump Byte}
    (hq : relay (pump w e.direction) e = some q) : Enabled w e ∧ ¬ e.IsError := by
  cases e with
  | read d data =>
    cases data with
    | none => cases hq
    | some c =>
      rw [relay, Event.direction, Pump.take, Option.ite_none_right_eq_some] at hq
      simp only [Bool.and_eq_true, List.isEmpty_iff] at hq
      refine ⟨?_, by simp [Event.IsError]⟩
      rw [Enabled, h.pending_of_idle hq.1.1]
      exact List.mem_singleton_self _
  | transfer d len n =>
    rw [relay, Event.direction, Option.ite_none_right_eq_some] at hq
    obtain ⟨hlen, hq⟩ := hq
    rw [Pump.take, Option.ite_none_right_eq_some] at hq
    obtain ⟨⟨hpos, hn⟩, -⟩ := hq
    have hp := h.pending_of_chunk (show 0 < (pump w d).chunk.length by omega)
    rw [progress_of_write hp] at hn
    refine ⟨⟨h.deleted, ?_, hpos, hlen ▸ hn⟩, id⟩
    rw [hp, hlen]
    exact List.mem_singleton_self _
  | write d len error =>
    cases error with
    | true => cases hq
    | false =>
      rw [relay, Event.direction, Option.ite_none_right_eq_some] at hq
      obtain ⟨hlen, hq⟩ := hq
      rw [Pump.take, Option.ite_none_right_eq_some] at hq
      obtain ⟨⟨hpos, hall⟩, -⟩ := hq
      have hp := h.pending_of_chunk hpos
      rw [progress_of_write hp] at hall
      refine ⟨⟨?_, fun _ => hall.trans hlen⟩, by simp [Event.IsError]⟩
      rw [hp, hlen]
      exact List.mem_singleton_self _

/-! ## 3. Runs -/

/-- The turns without an error. -/
def quietStep (w : World) (e : Event) : Option World :=
  match e with
  | .read _ none => none
  | .write _ _ true => none
  | e => step w e

theorem quietStep_eq_some_iff : quietStep w e = some w' ↔ ¬ e.IsError ∧ step w e = some w' := by
  cases e with
  | read d data => cases data <;> simp [quietStep, Event.IsError]
  | transfer d len n => simp [quietStep, Event.IsError]
  | write d len error => cases error <;> simp [quietStep, Event.IsError]

theorem Live.quietStep (h : Live w) (hs : quietStep w e = some w') : Live w' := by
  obtain ⟨he, hs⟩ := quietStep_eq_some_iff.mp hs
  cases h.step hs with
  | lives noError live => exact live
  | ends isError => exact absurd isError he

/-- A turn without an error moves one pump and lets the other one rest. -/
theorem Live.joint (h : Live w) (hs : ProxySocksSession.quietStep w e = some w') :
    directions.Joint (pump w) e (pump w') := by
  obtain ⟨he, hs⟩ := quietStep_eq_some_iff.mp hs
  intro d
  by_cases hd : e.direction = d
  · subst hd
    exact (Components.moves_of_some (if_pos rfl)).mpr (h.relays hs he)
  · refine (Components.moves_of_none (if_neg hd)).mpr ?_
    cases h.step hs with
    | lives noError live moves rests => exact rests d (Ne.symm hd)
    | ends isError => exact absurd isError he

theorem Live.exists_quietStep {t : Direction → Pump Byte} (h : Live w)
    (hj : directions.Joint (pump w) e t) :
    ∃ w', ProxySocksSession.quietStep w e = some w' ∧ pump w' = t := by
  have hq : relay (pump w e.direction) e = some (t e.direction) :=
    (Components.moves_of_some (if_pos rfl)).mp (hj e.direction)
  obtain ⟨hen, he⟩ := h.enabled hq
  have hs : ProxySocksSession.quietStep w e = some (handle (arrive w e) e) :=
    quietStep_eq_some_iff.mpr ⟨he, if_pos hen⟩
  exact ⟨_, hs, (h.joint hs).unique hj⟩

/-- A run that has not shut the session down is one without errors. -/
theorem Live.run_iff (h : Live w) :
    (Run ProxySocksSession.step w es w' ∧ w'.deleted = 0) ↔
      Run ProxySocksSession.quietStep w es w' := by
  constructor
  · rintro ⟨hrun, hdel⟩
    induction hrun with
    | nil => exact .nil _
    | @cons s t u e es hs hrun ih =>
      cases h.step hs with
      | lives noError live =>
        exact .cons (quietStep_eq_some_iff.mpr ⟨noError, hs⟩) (ih live hdel)
      | ends isError hover =>
        have hdeleted := (hrun.invariant (fun _ _ _ hi hs => (Over.step hi hs).1) hover).deleted
        rw [hdel] at hdeleted
        cases hdeleted
  · intro hrun
    refine ⟨?_, (hrun.invariant (fun _ _ _ hi hs => Live.quietStep hi hs) h).deleted⟩
    clear h
    induction hrun with
    | nil => exact .nil _
    | cons hs _ ih => exact .cons (quietStep_eq_some_iff.mp hs).2 ih

/-- **A session relays each direction as if the other one were not there.**  A list of events
leads a started session to these two pumps without shutting it down exactly if the events of
each direction lead a pump of its own there, in whatever order the two are interleaved. -/
theorem relays_independently_iff
    (dataClient_ dataClientCopy_ dataRemote_ dataRemoteCopy_ : Data) (es : List Event)
    (pumps : Direction → Pump Byte) :
    (∃ w, Run step (Start (create dataClient_ dataClientCopy_ dataRemote_ dataRemoteCopy_)) es w ∧
        w.deleted = 0 ∧ pump w = pumps) ↔
      ∀ d, Run relay Pump.start (own d es) (pumps d) := by
  have hlive := start_live (create dataClient_ dataClientCopy_ dataRemote_ dataRemoteCopy_) rfl
  generalize hw : Start (create dataClient_ dataClientCopy_ dataRemote_ dataRemoteCopy_) = w₀
    at hlive ⊢
  have hstart : pump w₀ = fun _ => Pump.start := by
    subst hw
    funext d
    cases d <;> rfl
  have hjoint : (∃ w, Run ProxySocksSession.quietStep w₀ es w ∧ pump w = pumps) ↔
      JointRun directions (fun _ => True) (pump w₀) es pumps := by
    constructor
    · rintro ⟨w, hrun, rfl⟩
      exact JointRun.of_run (fun _ _ _ hi hs => Live.quietStep hi hs)
        (fun _ _ _ hi hs => ⟨trivial, Live.joint hi hs⟩) hrun hlive
    · exact fun h => h.exists_run (fun _ _ _ hi hs => Live.quietStep hi hs)
        (fun _ _ _ hi _ hj => Live.exists_quietStep hi hj) hlive rfl
  simp only [← and_assoc, hlive.run_iff]
  rw [hjoint, jointRun_iff, hstart]
  exact and_iff_left fun _ _ _ _ _ => trivial

end ProxySocksSession

end TwoProxy
