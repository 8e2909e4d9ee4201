/-
# The two streams of a session

Seen from one direction a session is a pump (`Lib/Pump.lean`): it reads a chunk, writes it,
and reads the next one.  `Live.step` is the simulation.  A turn of the event loop that leaves
the session running is a step of the pump of the direction it belongs to, and does not touch
the other one, whose buffers are different ones.

What the pumps keep, the streams have: `stream_integrity`.  The end is another matter.  The
first completion with an error destroys both sockets, whatever the other direction is doing:
the direction that met the error has nothing left to write, and the other one may be in the
middle of a chunk (`teardown_loses_at_most_a_chunk`).
-/
import TwoProxy.ProxySocksSession
import TwoProxy.Lib.Pump

namespace TwoProxy

namespace ProxySocksSession

open Transition

/-! ## 1. A direction as a pump -/

/-- The chunk that a direction is writing. -/
def chunk (w : World) (d : Direction) : Bytes :=
  match w.pending d with
  | [.write len] => (w.session.writtenData d).bytes.take len
  | _ => []

/-- How much of it has been transferred. -/
def progress (w : World) (d : Direction) : Nat :=
  match w.pending d with
  | [.write _] => (w.wire d).progress
  | _ => 0

def pump (w : World) (d : Direction) : Pump Byte where
  received := (w.wire d).received
  transferred := (w.wire d).transferred
  completed := (w.wire d).completed
  chunk := chunk w d
  progress := progress w d

/-- One operation is pending in the direction, a read or the write of a chunk. -/
def OnePending (w : World) (d : Direction) : Prop :=
  w.pending d = [.read] ∨ ∃ len, w.pending d = [.write len] ∧ 1 ≤ len ∧ len ≤ 1024

/-- The session has not been shut down. -/
structure Live (w : World) : Prop where
  shutdownInProgress : w.session.shutdownInProgress_ = false
  deleted : w.deleted = 0
  undeleted : .deleteConnection ∉ w.trace
  pending : ∀ d, OnePending w d
  balanced : ∀ d, (pump w d).Balanced

/-- The session has been shut down. -/
structure Over (w : World) : Prop where
  shutdownInProgress : w.session.shutdownInProgress_ = true
  deleted : w.deleted = 1
  last : ∃ before, w.trace = before ++ [.deleteConnection] ∧ .deleteConnection ∉ before

theorem start_live (s : ProxySocksSession) (h : s.shutdownInProgress_ = false) :
    Live (Start s) where
  shutdownInProgress := h
  deleted := rfl
  undeleted := by simp [Start, World.startRead]
  pending d := by cases d <;> exact Or.inl rfl
  balanced d := by cases d <;> exact Pump.balanced_start

/-! ## 2. The pieces of a turn -/

@[simp] theorem filled_shutdownInProgress (s : ProxySocksSession) (c : Chunk) (d : Direction) :
    (s.filled c d).shutdownInProgress_ = s.shutdownInProgress_ := by
  cases d <;> rfl

@[simp] theorem copied_shutdownInProgress (s : ProxySocksSession) (n : Nat) (d : Direction) :
    (s.copied n d).shutdownInProgress_ = s.shutdownInProgress_ := by
  cases d <;> rfl

/-- The buffers of the two directions are different ones. -/
theorem filled_writtenData (s : ProxySocksSession) (c : Chunk) {d d' : Direction} (h : d' ≠ d) :
    (s.filled c d).writtenData d' = s.writtenData d' := by
  cases d <;> cases d' <;> first | rfl | exact absurd rfl h

theorem copied_writtenData (s : ProxySocksSession) (n : Nat) {d d' : Direction} (h : d' ≠ d) :
    (s.copied n d).writtenData d' = s.writtenData d' := by
  cases d <;> cases d' <;> first | rfl | exact absurd rfl h

/-- **What a read handler hands to its write is the chunk it was given**, by way of the copy
or not. -/
theorem copied_filled_take (s : ProxySocksSession) (c : Chunk) (d : Direction) :
    (((s.filled c d).copied c.bytes.length d).writtenData d).bytes.take c.bytes.length
      = c.bytes := by
  cases d <;> simp [filled, copied, writtenData, copy_n, Data.fill]

/-- A turn of the event loop is an enabled event and its handler. -/
theorem step_eq_some {w w' : World} {e : Event} (hs : step w e = some w') :
    Enabled w e ∧ w' = handle (arrive w e) e := by
  unfold step at hs
  split at hs
  · exact ⟨‹_›, (Option.some.inj hs).symm⟩
  · cases hs

/-- The handlers of both directions, by their direction. -/
theorem handle_read (w : World) (d : Direction) (c : Chunk) :
    handle w (.read d (some c)) = HandleProxyRead d false c.bytes.length w := by
  cases d <;> rfl

theorem handle_read_none (w : World) (d : Direction) :
    handle w (.read d none) = HandleProxyRead d true 0 w := by
  cases d <;> rfl

theorem handle_write (w : World) (d : Direction) (len : Nat) (error : Bool) :
    handle w (.write d len error) = HandleProxyWrite d error w := by
  cases d <;> rfl

/-- `Shutdown` of a live session. -/
theorem Shutdown_over {w : World} (hs : w.session.shutdownInProgress_ = false)
    (hd : w.deleted = 0) (hu : .deleteConnection ∉ w.trace) : Over (Shutdown w) := by
  have hgo : (!w.session.shutdownInProgress_) = true := by simp [hs]
  rw [Shutdown, if_pos hgo]
  exact ⟨rfl, by simp [hd], w.trace, rfl, hu⟩

/-- The other direction is what it was, if its operations, its streams and its buffer are. -/
theorem pump_congr {w w' : World} {d : Direction} (hp : w'.pending d = w.pending d)
    (hw : w'.wire d = w.wire d) (hs : w'.session.writtenData d = w.session.writtenData d) :
    pump w' d = pump w d := by
  simp only [pump, chunk, progress, hp, hw, hs]

/-! ## 3. One turn -/

/-- What a turn of the event loop does to a live session. -/
inductive Turn (w : World) (e : Event) (w' : World) : Prop
  | lives (noError : ¬ e.IsError) (live : Live w')
      (moves : (pump w e.direction).Step (pump w' e.direction))
      (rests : ∀ d, d ≠ e.direction → pump w' d = pump w d)
  | ends (isError : e.IsError) (ended : Over w') (completed : ∀ d, w'.wire d = w.wire d)

/-- A live session in which one direction moved. -/
theorem Live.moved {w w' : World} {e : Event} (h : Live w) (he : ¬ e.IsError)
    (hs : w'.session.shutdownInProgress_ = false) (hd : w'.deleted = 0)
    (hu : .deleteConnection ∉ w'.trace) (hone : OnePending w' e.direction)
    (hmoves : (pump w e.direction).Step (pump w' e.direction))
    (hp : ∀ d, d ≠ e.direction → w'.pending d = w.pending d)
    (hw : ∀ d, d ≠ e.direction → w'.wire d = w.wire d)
    (hb : ∀ d, d ≠ e.direction → w'.session.writtenData d = w.session.writtenData d) :
    Turn w e w' := by
  have hrests : ∀ d, d ≠ e.direction → pump w' d = pump w d :=
    fun d hne => pump_congr (hp d hne) (hw d hne) (hb d hne)
  refine .lives he ⟨hs, hd, hu, fun d => ?_, fun d => ?_⟩ hmoves hrests
  · by_cases hde : d = e.direction
    · exact hde ▸ hone
    · rw [OnePending, hp d hde]
      exact h.pending d
  · by_cases hde : d = e.direction
    · rw [hde]
      exact hmoves.balanced (h.balanced _)
    · rw [hrests d hde]
      exact h.balanced d

/-- A read is pending alone. -/
theorem Live.reads {w : World} (h : Live w) {d : Direction} (hr : .read ∈ w.pending d) :
    w.pending d = [.read] := by
  rcases h.pending d with hp | ⟨len, hp, -⟩
  · exact hp
  · rw [hp] at hr
    simp at hr

/-- A write is pending alone. -/
theorem Live.writes {w : World} (h : Live w) {d : Direction} {len : Nat}
    (hr : .write len ∈ w.pending d) : w.pending d = [.write len] ∧ 1 ≤ len ∧ len ≤ 1024 := by
  rcases h.pending d with hp | ⟨len', hp, hlen⟩
  · rw [hp] at hr
    simp at hr
  · rw [hp, List.mem_singleton, Op.write.injEq] at hr
    subst hr
    exact ⟨hp, hlen⟩

/-- A chunk arrives and is handed to a write. -/
theorem Live.receive {w : World} (h : Live w) {d : Direction} {c : Chunk}
    (hp : w.pending d = [.read]) :
    Turn w (.read d (some c)) (handle (arrive w (.read d (some c))) (.read d (some c))) := by
  have hgo : (!false && !(arrive w (.read d (some c))).session.shutdownInProgress_) = true := by
    simp [arrive, h.shutdownInProgress]
  rw [handle_read, HandleProxyRead, if_pos hgo]
  dsimp only
  rw [if_pos c.pos]
  refine h.moved (by simp [Event.IsError])
    (by simp [World.startWrite, arrive, h.shutdownInProgress]) h.deleted
    (by simpa [World.startWrite, arrive] using h.undeleted) ?_ ?_ ?_ ?_ ?_
  · exact Or.inr ⟨c.bytes.length, by simp [World.startWrite, arrive, Event.direction, hp],
      c.pos, c.le⟩
  · have hidle : (pump w d).chunk = [] := by simp [pump, chunk, hp]
    refine (congrArg (pump w d).Step ?_).mp (Pump.Step.receive (pump w d) c.bytes hidle)
    simp [Event.direction, pump, chunk, progress, World.startWrite, arrive, hp, copied_filled_take]
  · intro d' hne
    have hne : d' ≠ d := hne
    simp [World.startWrite, arrive, Function.update_of_ne hne]
  · intro d' hne
    have hne : d' ≠ d := hne
    simp [World.startWrite, arrive, Function.update_of_ne hne]
  · intro d' hne
    have hne : d' ≠ d := hne
    simp [World.startWrite, arrive, copied_writtenData _ _ hne, filled_writtenData _ _ hne]

/-- A piece of the chunk is transferred. -/
theorem Live.transfer {w : World} (h : Live w) {d : Direction} {len n : Nat}
    (hp : w.pending d = [.write len]) (hlen : 1 ≤ len ∧ len ≤ 1024)
    (hn : (w.wire d).progress + n ≤ len) :
    Turn w (.transfer d len n) (arrive w (.transfer d len n)) := by
  refine h.moved (by simp [Event.IsError]) h.shutdownInProgress h.deleted h.undeleted
    (Or.inr ⟨len, hp, hlen⟩) ?_ (fun _ _ => rfl) ?_ (fun _ _ => rfl)
  · have hsize := (w.session.writtenData d).size_eq
    have hle : (pump w d).progress + n ≤ (pump w d).chunk.length := by
      simp only [pump, chunk, progress, hp, List.length_take]
      omega
    refine (congrArg (pump w d).Step ?_).mp (Pump.Step.transfer (pump w d) n hle)
    simp [Event.direction, pump, chunk, progress, arrive, hp]
  · intro d' hne
    have hne : d' ≠ d := hne
    simp [arrive, Function.update_of_ne hne]

/-- The chunk is written, and the next one is waited for. -/
theorem Live.complete {w : World} (h : Live w) {d : Direction} {len : Nat}
    (hp : w.pending d = [.write len]) (hlen : 1 ≤ len ∧ len ≤ 1024)
    (hall : (w.wire d).progress = len) :
    Turn w (.write d len false) (handle (arrive w (.write d len false)) (.write d len false)) := by
  have hgo : ¬ (false || (arrive w (.write d len false)).session.shutdownInProgress_) = true := by
    simp [arrive, h.shutdownInProgress]
  rw [handle_write, HandleProxyWrite, if_neg hgo]
  refine h.moved (by simp [Event.IsError]) h.shutdownInProgress h.deleted
    (by simpa [World.startRead, arrive] using h.undeleted) (Or.inl ?_) ?_ ?_ ?_ (fun _ _ => rfl)
  · simp [World.startRead, arrive, Event.direction, hp]
  · have hsize := (w.session.writtenData d).size_eq
    have hfull : (pump w d).progress = (pump w d).chunk.length := by
      simp only [pump, chunk, progress, hp, List.length_take]
      omega
    refine (congrArg (pump w d).Step ?_).mp (Pump.Step.complete (pump w d) hfull)
    simp [Event.direction, pump, chunk, progress, World.startRead, arrive, hp]
  · intro d' hne
    have hne : d' ≠ d := hne
    simp [World.startRead, arrive, Function.update_of_ne hne]
  · intro d' hne
    have hne : d' ≠ d := hne
    simp [World.startRead, arrive, Function.update_of_ne hne]

/-- **One turn of the event loop.** -/
theorem Live.step {w w' : World} {e : Event} (h : Live w) (hs : step w e = some w') :
    Turn w e w' := by
  obtain ⟨hen, rfl⟩ := step_eq_some hs
  cases e with
  | read d data =>
    cases data with
    | some c => exact h.receive (h.reads hen)
    | none =>
      rw [handle_read_none]
      exact .ends rfl (Shutdown_over h.shutdownInProgress h.deleted h.undeleted)
        (fun d' => by simp [HandleProxyRead, Shutdown, arrive, h.shutdownInProgress])
  | transfer d len n =>
    obtain ⟨-, hmem, -, hn⟩ := hen
    obtain ⟨hp, hlen⟩ := h.writes hmem
    exact h.transfer hp hlen hn
  | write d len error =>
    obtain ⟨hp, hlen⟩ := h.writes hen.1
    cases error with
    | false => exact h.complete hp hlen (hen.2 rfl)
    | true =>
      rw [handle_write]
      exact .ends rfl (Shutdown_over h.shutdownInProgress h.deleted h.undeleted)
        (fun d' => by simp [HandleProxyWrite, Shutdown, arrive, h.shutdownInProgress])

/-! ## 4. After the shutdown -/

@[simp] theorem arrive_shutdownInProgress (w : World) (e : Event) :
    (arrive w e).session.shutdownInProgress_ = w.session.shutdownInProgress_ := by
  cases e with
  | read d data => cases data <;> simp [arrive]
  | transfer d len n => rfl
  | write d len error => cases error <;> rfl

@[simp] theorem arrive_deleted (w : World) (e : Event) : (arrive w e).deleted = w.deleted := by
  cases e with
  | read d data => cases data <;> rfl
  | transfer d len n => rfl
  | write d len error => cases error <;> rfl

@[simp] theorem arrive_trace (w : World) (e : Event) : (arrive w e).trace = w.trace := by
  cases e with
  | read d data => cases data <;> rfl
  | transfer d len n => rfl
  | write d len error => cases error <;> rfl

/-- **A late completion handler leaves everything as it is**, error or not. -/
theorem Over.handle {w : World} (h : Over w) (e : Event) : handle (arrive w e) e = arrive w e := by
  have hflag := h.shutdownInProgress
  have hshut : Shutdown (arrive w e) = arrive w e := by
    rw [Shutdown, if_neg (by simp [hflag])]
  cases e with
  | read d data =>
    cases data with
    | some c => rw [handle_read, HandleProxyRead, if_neg (by simp [hflag]), hshut]
    | none => rw [handle_read_none, HandleProxyRead, if_neg (by simp), hshut]
  | transfer d len n => rfl
  | write d len error => rw [handle_write, HandleProxyWrite, if_pos (by simp [hflag]), hshut]

theorem Over.step {w w' : World} {e : Event} (h : Over w) (hs : step w e = some w') :
    Over w' ∧ w' = arrive w e := by
  obtain ⟨-, rfl⟩ := step_eq_some hs
  rw [h.handle e]
  exact ⟨⟨by rw [arrive_shutdownInProgress, h.shutdownInProgress],
    by rw [arrive_deleted, h.deleted], by rw [arrive_trace]; exact h.last⟩, rfl⟩

/-- A session is live as long as every completion succeeds, and over from the first error
on. -/
inductive History (es : List Event) (w : World) : Prop
  | live (noError : ∀ e ∈ es, ¬ e.IsError) (h : Live w)
  | ended (error : ∃ e ∈ es, e.IsError) (h : Over w)

theorem History.step {es : List Event} {w w' : World} {e : Event} (h : History es w)
    (hs : step w e = some w') : History (es ++ [e]) w' := by
  cases h with
  | live noError h =>
    cases h.step hs with
    | lives hno hlive =>
      refine .live (fun e' he => ?_) hlive
      rcases List.mem_append.mp he with he | he
      · exact noError e' he
      · rw [List.mem_singleton.mp he]
        exact hno
    | ends isError hover => exact .ended ⟨e, by simp, isError⟩ hover
  | ended error h =>
    obtain ⟨e', he, herr⟩ := error
    exact .ended ⟨e', List.mem_append_left _ he, herr⟩ (h.step hs).1

theorem Reaches.history {es : List Event} {w : World} (h : Reaches es w) : History es w := by
  obtain ⟨dataClient_, dataClientCopy_, dataRemote_, dataRemoteCopy_, hrun⟩ := h
  exact hrun.invariant_events (R := History) (fun _ _ _ _ hi hs => hi.step hs) []
    (.live (by simp) (start_live _ rfl))

theorem Reaches.live_or_over {es : List Event} {w : World} (h : Reaches es w) :
    Live w ∨ Over w := by
  cases h.history with
  | live noError h => exact Or.inl h
  | ended error h => exact Or.inr h

/-! ## 5. Integrity -/

/-- The streams of a direction, in a state between two handlers. -/
structure Intact (w : World) (d : Direction) : Prop where
  onePending : (w.pending d).length = 1
  /-- What has been written is a prefix of what has been read, in order. -/
  completed : (w.wire d).completed <+: (w.wire d).received
  /-- What is missing is the chunk being written. -/
  difference : (w.wire d).received = (w.wire d).completed ++ chunk w d
  inFlight : chunk w d = [] ∨
    ∃ len, w.pending d = [.write len] ∧ len ≤ 1024 ∧ (chunk w d).length = len
  /-- Not even a write under way has put anything else on the wire. -/
  transferred : (w.wire d).transferred <+: (w.wire d).received

theorem Live.intact {w : World} (h : Live w) (d : Direction) : Intact w d where
  onePending := by
    rcases h.pending d with hp | ⟨len, hp, -⟩
    · rw [hp]; rfl
    · rw [hp]; rfl
  completed := (h.balanced d).completed_isPrefix
  difference := (h.balanced d).received
  transferred := (h.balanced d).transferred_isPrefix
  inFlight := by
    rcases h.pending d with hp | ⟨len, hp, -, hle⟩
    · exact Or.inl (by simp [chunk, hp])
    · have hsize := (w.session.writtenData d).size_eq
      refine Or.inr ⟨len, hp, hle, ?_⟩
      simp only [chunk, hp, List.length_take]
      omega

@[simp] theorem Shutdown_writtenData (w : World) (d : Direction) :
    (Shutdown w).session.writtenData d = w.session.writtenData d := by
  unfold Shutdown
  split
  · cases d <;> rfl
  · rfl

/-- The buffer of a direction is modified by the reads of that direction only. -/
theorem step_writtenData {w w' : World} {e : Event} (hs : step w e = some w') {d : Direction}
    (hread : .read ∉ w.pending d) : w'.session.writtenData d = w.session.writtenData d := by
  obtain ⟨hen, rfl⟩ := step_eq_some hs
  cases e with
  | read d' data =>
    have hne : d ≠ d' := by
      rintro rfl
      exact hread hen
    cases data with
    | none =>
      rw [handle_read_none, HandleProxyRead, if_neg (by simp), Shutdown_writtenData]
      rfl
    | some c =>
      rw [handle_read, HandleProxyRead]
      split
      · dsimp only
        rw [if_pos c.pos]
        change ((w.session.filled c d').copied c.bytes.length d').writtenData d = _
        rw [copied_writtenData _ _ hne, filled_writtenData _ _ hne]
      · rw [Shutdown_writtenData]
        exact filled_writtenData _ _ hne
  | transfer d' len n => rfl
  | write d' len error =>
    have harr : (arrive w (.write d' len error)).session = w.session := by cases error <;> rfl
    rw [handle_write, HandleProxyWrite]
    split
    · rw [Shutdown_writtenData, harr]
    · exact congrArg (fun s => writtenData s d) harr

/-- **Stream integrity.**  In every reachable state of a session that has not been shut down,
each direction has one pending operation, and what it has written is what it has read but for
the chunk being written; and no turn of the event loop modifies the buffer of a pending
write. -/
theorem stream_integrity (es : List Event) (w : World) (h : Reaches es w)
    (hlive : w.session.shutdownInProgress_ = false) :
    (∀ d, Intact w d) ∧
      ∀ e w', step w e = some w' → ∀ d len, .write len ∈ w.pending d →
        w'.session.writtenData d = w.session.writtenData d := by
  rcases h.live_or_over with h | h
  · refine ⟨h.intact, fun e w' hs d len hmem => step_writtenData hs ?_⟩
    rw [(h.writes hmem).1]
    simp
  · rw [h.shutdownInProgress] at hlive
    cases hlive

/-- A buffer of zeros. -/
def zeros : Data := ⟨List.replicate 10000 0, List.length_replicate⟩

/-- A session whose buffers are blank, started. -/
def fresh : World := Start (create zeros zeros zeros zeros)

/-- One byte of data. -/
def oneByte : Chunk := ⟨[120], by decide, by decide⟩

/-- The remote sends a byte, and the client socket has taken it when the client sends one. -/
def bothWays : List Event :=
  [.read .toClient (some oneByte), .transfer .toClient 1 1, .read .toRemote (some oneByte)]

theorem stream_integrity_bothWays :
    (∀ d, Intact (follow step fresh bothWays) d) ∧
      ∀ e w', step (follow step fresh bothWays) e = some w' →
        ∀ d len, .write len ∈ (follow step fresh bothWays).pending d →
          w'.session.writtenData d = (follow step fresh bothWays).session.writtenData d :=
  stream_integrity bothWays _ ⟨zeros, zeros, zeros, zeros, run_follow (by decide +kernel)⟩
    (by decide +kernel)

/-! ## 6. The end of a session -/

/-- The end of the file in one direction: that direction was waiting for a read, and what is
pending in the other one stays. -/
theorem Live.endOfFile {w w' : World} {d : Direction} (h : Live w)
    (hs : ProxySocksSession.step w (.read d none) = some w') :
    w.pending d = [.read] ∧ ∀ d', d' ≠ d → w'.pending d' = w.pending d' := by
  obtain ⟨hen, rfl⟩ := step_eq_some hs
  refine ⟨h.reads hen, fun d' hne => ?_⟩
  rw [handle_read_none]
  simp [HandleProxyRead, Shutdown, arrive, h.shutdownInProgress, Function.update_of_ne hne]

/-- **What is lost when one direction ends.**  At the moment the end of the file in one
direction destroys the sockets, that direction has written everything it has read, and the
other one everything but the one chunk whose write is still pending. -/
theorem teardown_loses_at_most_a_chunk (es : List Event) (w w' : World) (e : Event)
    (h : Reaches es w) (hlive : w.deleted = 0) (hs : step w e = some w') (hend : w'.deleted = 1)
    (heof : ∀ d len, e ≠ .write d len true) :
    ∃ d, e = .read d none ∧ (w'.wire d).completed = (w'.wire d).received ∧
      ∀ d', d' ≠ d → ∃ lost, (w'.wire d').received = (w'.wire d').completed ++ lost ∧
        (lost = [] ∨ (w'.pending d' = [.write lost.length] ∧ lost.length ≤ 1024)) := by
  rcases h.live_or_over with h | h
  · cases h.step hs with
    | lives noError live =>
      rw [live.deleted] at hend
      cases hend
    | ends isError hover wire =>
      cases e with
      | transfer d len n => exact isError.elim
      | write d len error => exact absurd (congrArg _ isError) (heof d len)
      | read d data =>
        obtain rfl : data = none := isError
        obtain ⟨hread, hpending⟩ := h.endOfFile hs
        refine ⟨d, rfl, ?_, fun d' hne => ⟨chunk w d', ?_, ?_⟩⟩
        · rw [wire]
          exact (h.balanced d).of_idle (by simp [pump, chunk, hread])
        · rw [wire]
          exact (h.intact d').difference
        · rcases (h.intact d').inFlight with hc | ⟨len, hp, hle, hlen⟩
          · exact Or.inl hc
          · exact Or.inr ⟨by rw [hpending d' hne, hp, hlen], hlen ▸ hle⟩
  · rw [h.deleted] at hlive
    cases hlive

/-- The client hangs up while the byte of the remote is being written to it. -/
def halfClose : List Event := [.read .toClient (some oneByte), .read .toRemote none]

theorem teardown_loses_at_most_a_chunk_halfClose :
    ∃ d, Event.read .toRemote none = .read d none ∧
      ((follow step fresh halfClose).wire d).completed
        = ((follow step fresh halfClose).wire d).received ∧
      ∀ d', d' ≠ d → ∃ lost, ((follow step fresh halfClose).wire d').received
          = ((follow step fresh halfClose).wire d').completed ++ lost ∧
        (lost = [] ∨ ((follow step fresh halfClose).pending d' = [.write lost.length] ∧
          lost.length ≤ 1024)) :=
  teardown_loses_at_most_a_chunk [.read .toClient (some oneByte)]
    (follow step fresh [.read .toClient (some oneByte)]) (follow step fresh halfClose)
    (.read .toRemote none) ⟨zeros, zeros, zeros, zeros, run_follow (by decide +kernel)⟩
    (by decide +kernel) rfl (by decide +kernel) (by simp)

/-- **The byte of the remote is lost** with the sockets. -/
theorem halfClose_loses :
    Reaches halfClose (follow step fresh halfClose) ∧
      (follow step fresh halfClose).deleted = 1 ∧
      ((follow step fresh halfClose).wire .toClient).completed
        ≠ ((follow step fresh halfClose).wire .toClient).received :=
  ⟨⟨zeros, zeros, zeros, zeros, run_follow (by decide +kernel)⟩, by decide +kernel,
    by decide +kernel⟩

end ProxySocksSession

end TwoProxy
