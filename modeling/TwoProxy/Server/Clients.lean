/-
# Clients that share a server

`Transaction.lean` follows one client from end to end, alone with its connection.  On a server
its completions come between those of other clients.  Whatever the others do, short of taking a
handler down, and however their completions come in between, each client that keeps to a
transaction is served as if it were alone: its server is sent the request printed from its
tokens, and it gets the response (`clients_served`).
-/
import TwoProxy.HttpConnection.Transaction
import TwoProxy.Server.Lifetime

namespace TwoProxy

namespace Server

open HttpConnection (Head Wired CutFree delivered transaction)
open Transition

/-! ## 1. Clients -/

/-- A client with one request, the endpoints its target resolves to, of which one answers, and
the reads of the response; `memory` is what its connection finds uninitialised. -/
structure Client where
  memory : Uninitialised
  requestReads : List Chunk
  tokens : List (RequestParser.StateType × Bytes)
  head : Head
  host : Bytes
  port : Bytes
  failed : List Endpoint
  endpoint : Endpoint
  behind : List Endpoint
  firstRead : Chunk
  laterReads : List Chunk
  request : RequestParser.lexer.feed (.start .MethodStart) (streamOf requestReads) =
    .complete tokens []
  uncut : CutFree (.start .MethodStart) requestReads
  isHead : head.Is tokens
  target : ParseUri sizeBits head.destination [] [] = some (true, host, port)
  wholeHead : ∃ v, v <+: firstRead.bytes ∧
    v ∈ Grammar.many ResponseParser.isLeading * ResponseParser.acceptedHead

namespace Client

/-- The connection that is accepted for the client. -/
def connection (k : Client) : TwoProxy.World :=
  HttpConnection.started k.memory.bbuffer k.memory.sbuffer k.memory.newStart_
    k.memory.newServerReadStart_

/-- The completions of its transaction. -/
def completions (k : Client) : List HttpConnection.Event :=
  transaction k.requestReads k.host k.port k.failed k.endpoint k.behind k.head.request
    (k.firstRead :: k.laterReads)

/-- What its connection sees. -/
def events (k : Client) : List OwnEvent :=
  .accept false k.memory :: k.completions.map .own

/-- The connection has been deleted; whenever its writes have been taken from memory, in
whatever pieces, the server has been sent the request printed from the tokens of the client's,
and the client the bytes of the response. -/
structure Served (k : Client) (c : TwoProxy.World) : Prop where
  deleted : c.deleted = 1
  wired : ∃ ws v, Run Wired.step (Wired.start k.connection) ws v ∧ delivered ws = k.completions
  delivers : ∀ ws v, Run Wired.step (Wired.start k.connection) ws v →
    delivered ws = k.completions →
      v.world = c ∧ v.toServer = k.head.request ∧
        v.toBrowser = streamOf (k.firstRead :: k.laterReads)

/-- A client on its own is served. -/
theorem exists_served (k : Client) :
    ∃ c, Run HttpConnection.step k.connection k.completions c ∧ k.Served c := by
  have htarget : HttpConnection.HasAuthority (HttpConnection.targetOf k.tokens) := by
    rw [k.isHead.targetOf]
    exact HttpConnection.uriAccepted_iff.mp ⟨k.host, k.port, k.target⟩
  obtain ⟨hd, host, port, c, hhd, huri, hrun, hfReq⟩ := HttpConnection.transaction_runs k.request
    k.uncut htarget k.wholeHead k.failed k.endpoint k.behind k.laterReads k.memory.bbuffer
    k.memory.sbuffer k.memory.newStart_ k.memory.newServerReadStart_
  obtain rfl : hd = k.head := hhd.unique k.isHead
  have hsame := k.target.symm.trans huri
  simp only [Option.some.injEq, Prod.mk.injEq, true_and] at hsame
  obtain ⟨rfl, rfl⟩ := hsame
  obtain ⟨ws, v, hws, hes, hv⟩ := HttpConnection.exists_wiring hrun (Wired.start k.connection)
    (HttpConnection.start_intact _ _ _ _) rfl rfl
  have hdeleted := (HttpConnection.transaction_ends hrun hfReq hws hes).2.1
  refine ⟨c, hrun, hv ▸ hdeleted, ⟨ws, v, hws, hes⟩, fun ws' v' hws' hes' => ?_⟩
  obtain ⟨hworld, -, hsent⟩ := HttpConnection.transaction_ends hrun hfReq hws' hes'
  exact ⟨hworld, hsent⟩

end Client

/-! ## 2. Among others -/

/-- A connection sees its own completions. -/
theorem Slot.run_own {c c' : TwoProxy.World} {es : List HttpConnection.Event}
    (h : Run HttpConnection.step c es c') :
    Run Slot.step (.started c) (es.map .own) (.started c') := by
  induction h with
  | nil => exact .nil _
  | cons hs _ ih => exact .cons (congrArg (Option.map Slot.started) hs) ih

/-- A connection that has ended the event loop does nothing more. -/
theorem Slot.run_halts {s t : Slot} {es : List OwnEvent} (h : Run Slot.step s es t)
    (ht : t.halts = false) : s.halts = false := by
  cases h with
  | nil => exact ht
  | @cons _ u _ e es hs _ =>
    cases s with
    | waiting => rfl
    | refused => rfl
    | started c =>
      cases e with
      | accept error memory => cases hs
      | own e =>
        obtain ⟨c', hc, -⟩ := Option.map_eq_some_iff.mp hs
        obtain ⟨⟨hesc, hover, -⟩, -⟩ := Option.ite_none_right_eq_some.mp hc
        exact (Slot.halts_started c).mpr ⟨hesc, hover⟩

/-- A deleted connection has not ended the event loop. -/
theorem halts_of_deleted {c : TwoProxy.World} (h : HttpConnection.Phase c)
    (hd : c.deleted = 1) : Slot.halts (.started c) = false := by
  rw [Slot.halts_started]
  cases h with
  | reading l h => exact ⟨h.running.escaped, h.running.overrun⟩
  | serving hd' h => exact ⟨h.running.escaped, h.running.overrun⟩
  | closed h => exact ⟨h.escaped, h.overrun⟩
  | stalled h =>
    rw [h.deleted] at hd
    cases hd

/-- The events of these clients, and of others that take no handler down, each in its own
order, with the connections accepted in order. -/
structure Among (clients : Nat → Option Client) (es : List Event) : Prop where
  inOrder : accepted es = List.range (accepted es).length
  client : ∀ i k, clients i = some k → own i es = k.events
  other : ∀ i, clients i = none → ∃ s, Run Slot.step .waiting (own i es) s ∧ s.halts = false

/-- What a connection becomes, on its own. -/
theorem Among.exists_slot {clients : Nat → Option Client} {es : List Event}
    (h : Among clients es) (i : Nat) :
    ∃ s, Run Slot.step .waiting (own i es) s ∧ s.halts = false ∧
      ∀ k, clients i = some k → ∃ c, s = .started c ∧ k.Served c := by
  cases hi : clients i with
  | none =>
    obtain ⟨s, hrun, hs⟩ := h.other i hi
    exact ⟨s, hrun, hs, by simp⟩
  | some k =>
    obtain ⟨c, hrun, hserved⟩ := k.exists_served
    have hphase : HttpConnection.Phase c := HttpConnection.Reaches.phase ⟨_, _, _, _, hrun⟩
    refine ⟨.started c, ?_, halts_of_deleted hphase hserved.deleted, ?_⟩
    · rw [h.client i k hi]
      exact .cons rfl (Slot.run_own hrun)
    · rintro k' ⟨⟩
      exact ⟨c, rfl, hserved⟩

/-- **Every client is served as if it were alone.**  Take any number of clients that each keep
to a transaction, among others that take no handler down, and let all their completions come in
any order that is right for each of them.  The server can go through these events, can accept
the next client at any point of them, and leaves each of the clients served: with its request,
printed from its tokens, at the origin, and the response in its hands. -/
theorem clients_served (clients : Nat → Option Client) (es : List Event)
    (h : Among clients es) :
    EveryState step Accepting create es ∧
      ∃ w, Reaches es w ∧
        ∀ i k, clients i = some k → ∃ c, w.slot i = .started c ∧ k.Served c := by
  choose slots hrun hgoes hserved using h.exists_slot
  have hgoing : ∀ es₁ i s, es₁ <+: es → Run Slot.step .waiting (own i es₁) s →
      s.halts = false := by
    rintro es₁ i s ⟨es₂, rfl⟩ hs
    have hall := hrun i
    rw [own, Parallel.Components.seen_append] at hall
    obtain ⟨s', hs', hrest⟩ := hall.split
    rw [hs.unique hs']
    exact Slot.run_halts hrest (hgoes i)
  have hinterleaves : Interleaves es slots := ⟨h.inOrder, hrun, fun es₁ e hpre i s hs =>
    hgoing es₁ i s ((List.prefix_append _ _).trans hpre) hs⟩
  obtain ⟨w, hreach, hslots⟩ := hinterleaves.exists_reaches
  refine ⟨fun es₁ t hpre ht => ?_, w, hreach, fun i k hi => ?_⟩
  · have hreaches : Reaches es₁ t := ht
    exact hreaches.sound.listens.accepting_iff_going.mpr fun i =>
      hgoing es₁ i _ hpre (hreaches.interleaves.apart i)
  · rw [hslots]
    exact hserved i k hi

/-- A client for `http://a/`, at the second endpoint. -/
def pageClient : Client where
  memory := ⟨blank, blank, 0, 0⟩
  requestReads := HttpConnection.inTwoReads
  tokens := HttpConnection.absoluteTokens
  head := ⟨ascii "GET ", ascii "http://a/ ", ascii "\r\n"⟩
  host := ascii "a"
  port := ascii "80"
  failed := [HttpConnection.origin]
  endpoint := ⟨ascii "10.0.0.2", 80⟩
  behind := []
  firstRead := HttpConnection.wholeHead
  laterReads := [HttpConnection.wholeHead]
  request := by decide
  uncut := HttpConnection.inTwoReads_cutFree
  isHead := ⟨ascii "HTTP/1.0\r\n", by decide⟩
  target := by decide
  wholeHead := HttpConnection.wholeHead_accepted

/-- Two such clients, turn by turn, and a third one whose method is refused. -/
def inTurns : List Event :=
  [.accept 0 false pageClient.memory, .accept 1 false pageClient.memory,
    .accept 2 false pageClient.memory] ++
  (pageClient.completions.flatMap fun e => [.connection 0 e, .connection 1 e]) ++
  [.connection 2 (.browserRead (some HttpConnection.lowerCase))]

theorem inTurns_among : Among (fun i => if i < 2 then some pageClient else none) inTurns where
  inOrder := by rfl
  client := by
    rintro i k hi
    obtain ⟨hlt, ⟨⟩⟩ := Option.ite_none_right_eq_some.mp hi
    rcases (show i = 0 ∨ i = 1 by omega) with rfl | rfl
    · rfl
    · rfl
  other := by
    intro i hi
    have hge : ¬ i < 2 := fun hlt => absurd ((if_pos hlt).symm.trans hi) (by simp)
    by_cases h2 : i = 2
    · subst h2
      exact ⟨_, run_follow (by decide +kernel), by decide +kernel⟩
    · have hown : own i inTurns = [] := by
        rw [own, Parallel.Components.seen, List.filterMap_eq_nil_iff]
        intro e he
        simp only [inTurns, List.mem_append, List.mem_cons, List.mem_flatMap, List.not_mem_nil,
          or_false] at he
        rcases he with ((rfl | rfl | rfl) | ⟨e', -, rfl | rfl⟩) | rfl <;>
          exact if_neg (by omega)
      rw [hown]
      exact ⟨.waiting, .nil _, rfl⟩

theorem clients_served_inTurns :
    EveryState step Accepting create inTurns ∧
      ∃ w, Reaches inTurns w ∧ ∀ i k, (if i < 2 then some pageClient else none) = some k →
        ∃ c, w.slot i = .started c ∧ k.Served c :=
  clients_served _ inTurns inTurns_among

end Server

end TwoProxy
