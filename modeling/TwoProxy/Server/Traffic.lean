/-
# What a server does is paid for by what comes in

The event loop is shared, and a handler that kept it busy by itself would starve every other
connection.  None does: in every run of the server, with any number of connections and in any
interleaving, the completions that are handled are paid for by what comes in
(`traffic_pays`).  An accepted client pays for its accept and for what its connection does if
the client hangs up, or if the name is not resolved, or if the server says nothing; what is
beyond that is paid for byte by byte, and endpoint by endpoint.  A client or a server that has
stopped sending is not served any more after a number of turns that is known in advance.

An accept that fails counts as coming in, too, and pays for itself only: `HandleAccept` starts
the next one, whatever the error was, and nothing bounds how many of them fail in a row.
-/
import TwoProxy.HttpConnection.Traffic
import TwoProxy.Server.Lifetime

namespace TwoProxy

namespace Server

open Transition

/-! ## 1. What comes in, and what is owed -/

/-- A client that is accepted brings in its accept and what a started connection owes, and an
accept that fails brings in itself. -/
def Event.income : Event → Nat
  | .accept _ false _ => 4
  | .accept _ true _ => 1
  | .connection _ e => e.income

def Slot.owed : Slot → Nat
  | .started c => HttpConnection.owed c
  | _ => 0

def World.owed (w : World) : Nat := (w.connections.map Slot.owed).sum

/-- Replacing one element replaces its part of a sum. -/
theorem sum_map_set {f : Slot → Nat} {l : List Slot} {i : Nat} {a b : Slot}
    (h : l[i]? = some a) : ((l.set i b).map f).sum + f a = (l.map f).sum + f b := by
  induction l generalizing i with
  | nil => cases h
  | cons x l ih =>
    cases i with
    | zero =>
      obtain rfl := Option.some.inj h
      simp only [List.set_cons_zero, List.map_cons, List.sum_cons]
      omega
    | succ i =>
      have hrest := ih h
      simp only [List.set_cons_succ, List.map_cons, List.sum_cons]
      omega

theorem Listening.owed {w : World} {front : List Slot} (h : Listening w front) :
    w.owed = (front.map Slot.owed).sum := by
  simp [World.owed, h.connections, Slot.owed]

/-! ## 2. Every turn is paid for -/

variable {w w' : World} {e : Event}

/-- What a new connection owes, and its accept, are what an accepted client brings in. -/
theorem handled_owed (n : Nat) (error : Bool) (memory : Uninitialised) :
    (handled error memory).owed + 1 = (Event.accept n error memory).income := by
  cases error <;> rfl

theorem Sound.paid (h : Sound w) (hs : Server.step w e = some w') :
    w'.owed + 1 ≤ w.owed + e.income := by
  obtain ⟨front, hf⟩ := h.listens
  rcases step_cases hs with
    ⟨-, ⟨n, error, memory, rfl, hn, rfl⟩ | ⟨i, e', c, c', rfl, hi, hc, rfl⟩⟩
  · rw [hf.accepts, List.mem_singleton] at hn
    subst hn
    have hnew := handled_owed front.length error memory
    rw [(hf.accept error memory).owed, hf.owed, List.map_append, List.sum_append,
      List.map_singleton, List.sum_singleton]
    omega
  · have hpaid := (h.phase i c (slot_of_getElem? hi)).paid hc
    have hset := sum_map_set (f := Slot.owed) (b := .started c') hi
    simp only [World.owed, Slot.owed, Event.income] at hset ⊢
    omega

/-- **Every completion is paid for by what comes in.**  However a server goes on from a
reachable state, the completions that are handled, and what is still owed then, are covered by
what was owed and by what comes in: four for a client that is accepted, one for each byte from a
client and each endpoint from the resolver, two for each byte from an origin server, and one for
an accept that fails, which so pays for itself. -/
theorem traffic_pays (es es' : List Event) (w w' : World) (h : Reaches es w)
    (hrun : Run step w es' w') :
    es'.length + w'.owed ≤ w.owed + (es'.map Event.income).sum :=
  hrun.length_le (fun _ _ _ hi hs => Sound.step hi hs) (fun _ _ _ hi hs => Sound.paid hi hs)
    h.sound

/-- The name of the second client is resolved, and the first client hangs up. -/
def resolvedAndGone : List Event :=
  [.connection 1 (.resolve (ascii "a") (ascii "80") (some (⟨ascii "10.0.0.1", 80⟩, []))),
    .connection 0 (.browserRead none)]

theorem traffic_pays_resolvedAndGone :
    let w := follow step create twoClients
    let w' := follow step w resolvedAndGone
    w.owed = 6 ∧ w'.owed = 3 ∧
      resolvedAndGone.length + w'.owed ≤ w.owed + (resolvedAndGone.map Event.income).sum :=
  ⟨by decide +kernel, by decide +kernel, traffic_pays twoClients resolvedAndGone _ _
    (run_follow (by decide +kernel)) (run_follow (by decide +kernel))⟩

end Server

end TwoProxy
