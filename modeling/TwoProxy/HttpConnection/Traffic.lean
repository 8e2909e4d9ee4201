/-
# What a connection does is paid for by what it receives

A handler starts one operation at most, and the operation completes once.  So a connection is
never busy by itself.  Each completion is charged to what has come in: a byte from the client,
an endpoint from the resolver, a byte from the server, which pays for the read that delivers it
and for the write that passes it on.

`owed` is what a pending operation may still cost when nothing comes in any more: after a
browser read a resolve, after a resolve a write of the request, after the write a read that
fails.  `Phase.paid` says that every turn is covered.
-/
import TwoProxy.HttpConnection.Turns

namespace TwoProxy

/-! ## 1. What comes in, and what is owed -/

/-- The completions that an operation leads to, itself included, if nothing more comes in.  A
connect may fail once for each endpoint ahead. -/
def AsyncOp.owed : AsyncOp → Nat
  | .browserRead => 3
  | .resolve _ _ => 3
  | .connect _ ahead => ahead.length + 3
  | .serverWrite _ => 2
  | .serverRead => 1
  | .clientWrite _ => 2

namespace HttpConnection

def owed (w : World) : Nat := (w.pending.map AsyncOp.owed).sum

/-- What a completion brings in. -/
def Event.income : Event → Nat
  | .browserRead (some data) => data.bytes.length
  | .resolve _ _ (some (_, rest)) => rest.length + 1
  | .serverRead (some data) => 2 * data.bytes.length
  | _ => 0

variable {w w' : World} {e : Event}

theorem owed_of_pending {op : AsyncOp} (hp : w.pending = [op]) : owed w = op.owed := by
  simp [owed, hp]

@[simp] theorem owed_resuming (w : World) (c : HttpConnection) : owed (resuming w c) = 0 := rfl

@[simp] theorem owed_start (w : World) (op : AsyncOp) :
    owed (w.start op) = owed w + op.owed := by
  simp [owed, World.start]

@[simp] theorem owed_act (w : World) (a : Action) : owed (w.act a) = owed w := rfl

@[simp] theorem owed_log (w : World) (line : ErrorLine) : owed (w.log line) = owed w := rfl

@[simp] theorem owed_throw (w : World) : owed w.throw = owed w := rfl

@[simp] theorem owed_outOfRange (w : World) : owed w.outOfRange = owed w := rfl

@[simp] theorem owed_Shutdown (w : World) : owed (Shutdown w) = owed w := by
  rw [owed, owed, Shutdown_pending]

@[simp] theorem owed_StartWriteToServer (w : World) :
    owed (StartWriteToServer w) = owed w + 2 :=
  owed_start _ _

@[simp] theorem owed_ReadMoreFromBrowser (w : World) :
    owed (ReadMoreFromBrowser w) = owed w + 3 :=
  owed_start _ _

/-! ## 2. Every turn is paid for -/

/-- An exit that starts nothing is covered by what was pending. -/
theorem paid_of_idle (h' : owed w' = 0) (hpos : 0 < owed w) :
    owed w' + 1 ≤ owed w + e.income := by
  omega

theorem Reading.paid {l : RequestLexing} (h : Reading w l)
    (hs : HttpConnection.step w e = some w') : owed w' + 1 ≤ owed w + e.income := by
  have howed : owed w = 3 := owed_of_pending h.pending
  cases h.move hs with
  | hangsUp | refuses | throws | overruns => exact paid_of_idle (by simp) (by omega)
  | connects data | continues data =>
    have hpos := data.pos
    simp only [howed, owed_resuming, owed_act, owed_start, owed_ReadMoreFromBrowser,
      AsyncOp.owed, Event.income]
    omega

theorem Serving.paid {hd : Head} (h : Serving hd w)
    (hs : HttpConnection.step w e = some w') : owed w' + 1 ≤ owed w + e.income := by
  obtain ⟨op, hp, -⟩ := h.pending
  obtain ⟨rfl, -⟩ := step_eq_some hp hs
  have howed := owed_of_pending hp
  cases h.move hs with
  | unresolved | exhausted | unwritten | refuses | ends | undelivered =>
    exact paid_of_idle (by simp) (by simp [howed, Event.op, AsyncOp.owed])
  | resolved | retries | connected | written | delivered =>
    simp only [howed, owed_resuming, owed_start, owed_StartWriteToServer, Event.op,
      AsyncOp.owed, Event.income, List.length_cons]
    omega
  | forwards data =>
    have hpos := data.pos
    simp only [howed, owed_resuming, owed_start, Event.op, AsyncOp.owed, Event.income]
    omega

/-- **Every turn is paid for.** -/
theorem Phase.paid (h : Phase w) (hs : HttpConnection.step w e = some w') :
    owed w' + 1 ≤ owed w + e.income := by
  cases h with
  | reading l h => exact h.paid hs
  | serving hd h => exact h.paid hs
  | closed h => exact absurd hs (step_ne_some h.pending)
  | stalled h => exact absurd hs (step_ne_some h.pending)

end HttpConnection

end TwoProxy
