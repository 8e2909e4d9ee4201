/-
# What a session does is paid for by what it receives

A read handler starts a write at most, a write handler a read, and a write takes its buffer in
pieces of a byte at least.  So each chunk pays for itself: for the read that delivers it, for
the pieces it is taken in, and for the completion of its write.  What is pending then is again
one operation in each direction, or less after the shutdown, when every completion that is
late takes its operation away and starts none (`relaying_pays`).
-/
import TwoProxy.ProxySocksSession.Streams
import Mathlib.Algebra.BigOperators.Group.List.Basic

namespace TwoProxy

namespace ProxySocksSession

open Transition

/-! ## 1. What comes in, and what is owed -/

/-- What a pending operation leads to if nothing more comes in: a read to its completion, and a
write to a piece for each byte that is left, to its completion and to a read. -/
def Op.owed (progress : Nat) : Op → Nat
  | .read => 1
  | .write len => len - progress + 2

def owedIn (w : World) (d : Direction) : Nat :=
  ((w.pending d).map (Op.owed (w.wire d).progress)).sum

def owed (w : World) : Nat := owedIn w .toRemote + owedIn w .toClient

/-- What a completion brings in. -/
def Event.income : Event → Nat
  | .read _ (some c) => c.bytes.length + 2
  | _ => 0

variable {w w' : World} {e : Event} {d : Direction}

theorem owedIn_of_pending {op : Op} (hp : w.pending d = [op]) :
    owedIn w d = op.owed (w.wire d).progress := by
  simp [owedIn, hp]

/-- What a completion takes away is what its operation owed. -/
theorem owedIn_erase {op : Op} (hmem : op ∈ w.pending d)
    (hp : w'.pending d = (w.pending d).erase op)
    (hw : (w'.wire d).progress = (w.wire d).progress) :
    op.owed (w.wire d).progress + owedIn w' d = owedIn w d := by
  rw [owedIn, owedIn, hp, hw]
  exact List.sum_map_erase _ hmem

/-- Every operation owes its completion. -/
theorem Op.owed_pos (progress : Nat) (op : Op) : 0 < op.owed progress := by
  cases op <;> simp [Op.owed]

/-- A change in one direction is paid for if it is paid for there. -/
theorem owed_of_direction {n : Nat} (hd : owedIn w' d + 1 ≤ owedIn w d + n)
    (hrest : ∀ d', d' ≠ d → w'.pending d' = w.pending d' ∧ w'.wire d' = w.wire d') :
    owed w' + 1 ≤ owed w + n := by
  have hsame : ∀ d', d' ≠ d → owedIn w' d' = owedIn w d' := by
    intro d' hne
    rw [owedIn, owedIn, (hrest d' hne).1, (hrest d' hne).2]
  cases d with
  | toRemote =>
    have := hsame .toClient (by decide)
    simp only [owed]
    omega
  | toClient =>
    have := hsame .toRemote (by decide)
    simp only [owed]
    omega

/-! ## 2. Every turn is paid for -/

@[simp] theorem Shutdown_pending (w : World) : (Shutdown w).pending = w.pending := by
  unfold Shutdown
  split <;> rfl

@[simp] theorem Shutdown_wire (w : World) : (Shutdown w).wire = w.wire := by
  unfold Shutdown
  split <;> rfl

/-- A turn of one direction leaves the operations and the streams of the other one alone. -/
theorem step_rests (hs : step w e = some w') {d : Direction} (hne : d ≠ e.direction) :
    w'.pending d = w.pending d ∧ w'.wire d = w.wire d := by
  obtain ⟨-, rfl⟩ := step_eq_some hs
  cases e with
  | read d' data =>
    have hother : d ≠ d' := hne
    cases data with
    | none =>
      rw [handle_read_none, HandleProxyRead, if_neg (by simp)]
      simp [arrive, Function.update_of_ne hother]
    | some c =>
      rw [handle_read, HandleProxyRead]
      dsimp only
      split
      · rw [if_pos c.pos]
        simp [arrive, World.startWrite, Function.update_of_ne hother]
      · simp [arrive, Function.update_of_ne hother]
  | transfer d' len n =>
    have hother : d ≠ d' := hne
    simp [handle, arrive, Function.update_of_ne hother]
  | write d' len error =>
    have hother : d ≠ d' := hne
    rw [handle_write, HandleProxyWrite]
    split <;> cases error <;> simp [arrive, World.startRead, Function.update_of_ne hother]

/-- What a turn of a running session owes in its direction. -/
theorem Live.paid (h : Live w) (hs : ProxySocksSession.step w e = some w') :
    owed w' + 1 ≤ owed w + e.income := by
  refine owed_of_direction (d := e.direction) ?_ fun d' hne => step_rests hs hne
  obtain ⟨hen, rfl⟩ := step_eq_some hs
  cases e with
  | read d data =>
    have hp := h.reads hen
    have hbefore : owedIn w d = 1 := owedIn_of_pending hp
    cases data with
    | none =>
      have hafter : owedIn (handle (arrive w (.read d none)) (.read d none)) d = 0 := by
        rw [handle_read_none, HandleProxyRead, if_neg (by simp)]
        simp [owedIn, arrive, hp]
      simp only [Event.direction]
      omega
    | some c =>
      have hgo : (!false && !(arrive w (.read d (some c))).session.shutdownInProgress_) = true := by
        simp [arrive, h.shutdownInProgress]
      have hafter : owedIn (handle (arrive w (.read d (some c))) (.read d (some c))) d =
          c.bytes.length + 2 := by
        rw [handle_read, HandleProxyRead, if_pos hgo]
        dsimp only
        rw [if_pos c.pos]
        simp [owedIn, arrive, World.startWrite, Op.owed, hp]
      simp only [Event.direction, Event.income]
      omega
  | transfer d len n =>
    obtain ⟨-, hmem, hpos, hn⟩ := hen
    obtain ⟨hp, -⟩ := h.writes hmem
    have hbefore : owedIn w d = len - (w.wire d).progress + 2 := owedIn_of_pending hp
    have hafter : owedIn (handle (arrive w (.transfer d len n)) (.transfer d len n)) d =
        len - ((w.wire d).progress + n) + 2 := by
      simp [owedIn, handle, arrive, Op.owed, hp]
    simp only [Event.direction]
    omega
  | write d len error =>
    obtain ⟨hp, -⟩ := h.writes hen.1
    have hbefore : owedIn w d = len - (w.wire d).progress + 2 := owedIn_of_pending hp
    have hafter : owedIn (handle (arrive w (.write d len error)) (.write d len error)) d ≤ 1 := by
      rw [handle_write, HandleProxyWrite]
      split <;> cases error <;> simp [owedIn, arrive, World.startRead, Op.owed, hp]
    simp only [Event.direction]
    omega

/-- Nor does a late completion cost more than its operation owed. -/
theorem Over.paid (h : Over w) (hs : ProxySocksSession.step w e = some w') :
    owed w' + 1 ≤ owed w + e.income := by
  refine owed_of_direction (d := e.direction) ?_ fun d' hne => step_rests hs hne
  obtain ⟨-, rfl⟩ := h.step hs
  obtain ⟨hen, -⟩ := step_eq_some hs
  cases e with
  | read d data =>
    have hdone : Op.read.owed (w.wire d).progress + owedIn (arrive w (.read d data)) d =
        owedIn w d := by
      refine owedIn_erase hen ?_ ?_ <;> cases data <;> simp [arrive]
    have hpos := Op.read.owed_pos (w.wire d).progress
    simp only [Event.direction]
    omega
  | transfer d len n => exact absurd hen.1 (by simp [h.deleted])
  | write d len error =>
    have hdone : (Op.write len).owed (w.wire d).progress +
        owedIn (arrive w (.write d len error)) d = owedIn w d := by
      refine owedIn_erase hen.1 ?_ ?_ <;> cases error <;> simp [arrive]
    have hpos := (Op.write len).owed_pos (w.wire d).progress
    simp only [Event.direction]
    omega

/-- **Nothing is relayed for nothing.**  However a session goes on, before and after its
shutdown, the turns of the event loop that it takes, and what it still owes then, are covered
by what it owed and by what comes in: for a chunk one turn for each byte, and two. -/
theorem relaying_pays (es es' : List Event) (w w' : World) (h : Reaches es w)
    (hrun : Run step w es' w') :
    es'.length + owed w' ≤ owed w + (es'.map Event.income).sum := by
  refine hrun.length_le (I := fun w => Live w ∨ Over w) ?_ ?_ h.live_or_over
  · rintro s e t (hi | hi) hs
    · cases hi.step hs with
      | lives _ hlive => exact Or.inl hlive
      | ends _ hover => exact Or.inr hover
    · exact Or.inr (hi.step hs).1
  · rintro s e t (hi | hi) hs
    · exact hi.paid hs
    · exact hi.paid hs

/-- The byte of the client is written too, both writes complete, and both sockets end. -/
def untilBothEnd : List Event :=
  [.write .toClient 1 false, .transfer .toRemote 1 1, .write .toRemote 1 false,
    .read .toClient none, .read .toRemote none]

/-- The bound is met: everything owed is settled, and nothing came in. -/
theorem relaying_pays_untilBothEnd :
    let w := follow step fresh bothWays
    let w' := follow step w untilBothEnd
    owed w = 5 ∧ (untilBothEnd.map Event.income).sum = 0 ∧
      untilBothEnd.length + owed w' ≤ owed w + (untilBothEnd.map Event.income).sum :=
  ⟨by decide +kernel, by decide, relaying_pays bothWays untilBothEnd _ _
    ⟨zeros, zeros, zeros, zeros, run_follow (by decide +kernel)⟩
    (run_follow (by decide +kernel))⟩

end ProxySocksSession

end TwoProxy
