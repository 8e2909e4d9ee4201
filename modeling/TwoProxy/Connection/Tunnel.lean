/-
# A tunnel, from the first byte to the last

The set-up and the session read from one socket.  `tunnelStep` is the event loop of a
connection whose client sends one stream: the blocking reads take the front of it, and what
the session reads from the client are the next bytes.

`tunnel_accounts` puts the parts together.  The stream of the client is the offer, the
request, what the session has read and what is still to come; the remote has been sent a part
of what the session has read and nothing of what came before; and the client has been sent
the two replies and a part of what the remote has sent.  So neither side of a tunnel sees
anything but what the other has put into it, in order.
-/
import TwoProxy.Connection.SetUp

namespace TwoProxy

namespace ProxySocksSession

/-! ## 1. What a session has read and written -/

/-- The bytes that an event reads in a direction. -/
def Event.readIn (d : Direction) : Event → Bytes
  | .read d' (some c) => if d = d' then c.bytes else []
  | _ => []

/-- Nothing but a part of what was read has been written. -/
def Delivers (w : World) : Prop := ∀ d, (w.wire d).transferred <+: (w.wire d).received

theorem Live.delivers {w : World} (h : Live w) : Delivers w :=
  fun d => (h.balanced d).transferred_isPrefix

/-- The handlers read nothing. -/
theorem handle_received (w : World) (e : Event) (d : Direction) :
    ((handle w e).wire d).received = (w.wire d).received := by
  have hshut : ((Shutdown w).wire d).received = (w.wire d).received := by
    unfold Shutdown
    split <;> rfl
  cases e with
  | read d' data =>
    cases data with
    | none =>
      rw [handle_read_none, HandleProxyRead, if_neg (by simp)]
      exact hshut
    | some c =>
      rw [handle_read, HandleProxyRead]
      split
      · dsimp only
        rw [if_pos c.pos]
        by_cases hd : d = d'
        · subst hd
          simp [World.startWrite]
        · simp [World.startWrite, Function.update_of_ne hd]
      · exact hshut
  | transfer d' len n => rfl
  | write d' len error =>
    rw [handle_write, HandleProxyWrite]
    split
    · exact hshut
    · rfl

theorem arrive_received (w : World) (e : Event) (d : Direction) :
    ((arrive w e).wire d).received = (w.wire d).received ++ e.readIn d := by
  cases e with
  | read d' data =>
    cases data with
    | none => simp [arrive, Event.readIn]
    | some c => by_cases hd : d = d' <;> simp [arrive, Event.readIn, hd]
  | transfer d' len n =>
    by_cases hd : d = d' <;> simp [arrive, Event.readIn, hd]
  | write d' len error =>
    cases error with
    | true => simp [arrive, Event.readIn]
    | false =>
      by_cases hd : d = d' <;> simp [arrive, Event.readIn, hd]

/-- **What a session has read grows by what it reads.** -/
theorem step_received {w w' : World} {e : Event} (hs : step w e = some w') (d : Direction) :
    (w'.wire d).received = (w.wire d).received ++ e.readIn d := by
  obtain ⟨-, rfl⟩ := step_eq_some hs
  rw [handle_received, arrive_received]

/-- After the shutdown nothing more is written. -/
theorem Over.transferred {w w' : World} {e : Event} (h : Over w)
    (hs : ProxySocksSession.step w e = some w') (d : Direction) :
    (w'.wire d).transferred = (w.wire d).transferred := by
  obtain ⟨hen, -⟩ := step_eq_some hs
  obtain ⟨-, rfl⟩ := h.step hs
  cases e with
  | transfer d' len n =>
    rw [Enabled, h.deleted] at hen
    exact absurd hen.1 (by decide)
  | read d' data =>
    cases data with
    | none => rfl
    | some c => by_cases hd : d = d' <;> simp [arrive, hd]
  | write d' len error =>
    cases error with
    | true => rfl
    | false => by_cases hd : d = d' <;> simp [arrive, hd]

/-- **A session delivers nothing but what it was given**, before the shutdown and after. -/
theorem Delivers.step {w w' : World} {e : Event} (hlive : Live w ∨ Over w) (h : Delivers w)
    (hs : ProxySocksSession.step w e = some w') : Delivers w' := by
  have hover : (∀ d, (w'.wire d).transferred = (w.wire d).transferred) → Delivers w' := by
    intro hsame d
    rw [hsame, step_received hs]
    exact (h d).trans (List.prefix_append _ _)
  rcases hlive with hlive | hdone
  · cases hlive.step hs with
    | lives noError live => exact live.delivers
    | ends isError ended wire => exact hover fun d => by rw [wire]
  · exact hover (hdone.transferred hs)

end ProxySocksSession

namespace Connection

open SocksConnection (Setup Network Call Ask Carried successReply)
open ProxySocksSession (Delivers Live Over)
open Transition

/-! ## 2. One stream -/

/-- The bytes that an event takes from the client. -/
def drawn : ProxySocksSession.Event → Bytes := ProxySocksSession.Event.readIn .toRemote

/-- The stream of the client after an event. -/
def World.draw (w : World) (e : ProxySocksSession.Event) : World :=
  { w with setup := { w.setup with input := w.setup.input.drop (drawn e).length } }

/-- One turn of the event loop, when what the session reads from the client are the next bytes
of the stream that the set-up read from. -/
def tunnelStep (w : World) (e : ProxySocksSession.Event) : Option World :=
  if drawn e <+: w.setup.input then (step w e).map fun w' => w'.draw e else none

/-- The bytes of the writes of the set-up. -/
def written (calls : List Call) : Bytes :=
  calls.flatMap fun
    | .write bytes => bytes
    | _ => []

/-- What the client has been sent. -/
def toClient (w : World) (r : ProxySocksSession.World) : Bytes :=
  written w.setup.calls ++ (r.wire .toClient).transferred

/-- What the remote has been sent. -/
def toRemote (r : ProxySocksSession.World) : Bytes := (r.wire .toRemote).transferred

/-- Dialling writes nothing to the client. -/
theorem written_carried {net : Network} {calls made : List Call} {ask : Ask}
    {socket : RemoteSocket} (h : Carried net calls ask made socket) : written made = [] := by
  cases h <;> rfl

theorem written_served {net : Network} {o : Offer} {ask : Ask} {made : List Call}
    {socket : RemoteSocket} (h : Carried net [.write [5, o.selected]] ask made socket) :
    written (servedCalls o made) = [5, o.selected] ++ successReply := by
  have hmade := written_carried h
  simp only [written] at hmade
  simp [written, servedCalls, List.flatMap_append, hmade]

/-- A turn is a turn of the session, and takes the next bytes of the client. -/
theorem tunnelStep_eq_some {w w' : World} {e : ProxySocksSession.Event}
    (hs : tunnelStep w e = some w') :
    ∃ r r', w.relay = some r ∧ ProxySocksSession.step r e = some r' ∧
      drawn e ++ w'.setup.input = w.setup.input ∧ w'.setup.calls = w.setup.calls ∧
      w'.setup.conn = w.setup.conn ∧ w'.relay = some r' := by
  unfold tunnelStep at hs
  split at hs
  · rename_i hpre
    obtain ⟨w₁, hw₁, rfl⟩ := Option.map_eq_some_iff.mp hs
    obtain ⟨r, r', hr, hstep, rfl⟩ := step_eq_some hw₁
    refine ⟨r, r', hr, hstep, ?_, rfl, rfl, rfl⟩
    obtain ⟨rest, hrest⟩ := hpre
    change drawn e ++ w.setup.input.drop (drawn e).length = _
    rw [← hrest, List.drop_left]
  · cases hs

/-! ## 3. The whole of a tunnel -/

/-- What holds of a connection, between two handlers: it has no session, or one that was
started for this stream and delivers what it is given. -/
inductive Tunnel (net : Network) (input : Bytes) (w : World) : Prop
  | failed (relay : w.relay = none)
  | relays (r : ProxySocksSession.World) (relay : w.relay = some r) (phase : Live r ∨ Over r)
      (delivers : Delivers r) (o : Offer) (ask : Ask) (made : List Call)
      (served : Served net input o ask made ((r.wire .toRemote).received ++ w.setup.input)
        w.setup.conn.remoteSocket_) (calls : w.setup.calls = servedCalls o made)

/-- `Start` opens the tunnel, or leaves no session. -/
theorem StartSocks_tunnel (net : Network) {session : ProxySocksSession} (buffer : Buffer)
    (input : Bytes) (hsession : session.shutdownInProgress_ = false) :
    Tunnel net input (StartSocks net session (created buffer input)) := by
  cases hr : (StartSocks net session (created buffer input)).relay with
  | none => exact .failed hr
  | some r =>
    obtain ⟨hstart, -, o, ask, made, hserved, hcalls⟩ := startSocks_served rfl hr
    have hlive : Live r := hstart ▸ ProxySocksSession.start_live session hsession
    have hnone : (r.wire .toRemote).received = [] := by rw [hstart]; rfl
    refine .relays r hr (Or.inl hlive) hlive.delivers o ask made ?_ hcalls
    rw [hnone]
    exact hserved

/-- **A turn keeps the tunnel.** -/
theorem Tunnel.step {net : Network} {input : Bytes} {w w' : World}
    {e : ProxySocksSession.Event} (h : Tunnel net input w) (hs : tunnelStep w e = some w') :
    Tunnel net input w' := by
  obtain ⟨r, r', hr, hstep, hinput, hcalls, hconn, hr'⟩ := tunnelStep_eq_some hs
  cases h with
  | failed relay =>
    rw [relay] at hr
    cases hr
  | relays r₀ relay phase delivers o ask made served calls =>
    obtain rfl : r₀ = r := Option.some.inj (relay.symm.trans hr)
    have hphase : Live r' ∨ Over r' := by
      rcases phase with hlive | hover
      · cases hlive.step hstep with
        | lives noError live => exact Or.inl live
        | ends isError ended => exact Or.inr ended
      · exact Or.inr (hover.step hstep).1
    refine .relays r' hr' hphase (delivers.step phase hstep) o ask made ?_ (hcalls.trans calls)
    have hsame : (r'.wire .toRemote).received ++ w'.setup.input =
        (r₀.wire .toRemote).received ++ w.setup.input := by
      rw [ProxySocksSession.step_received hstep, List.append_assoc]
      exact congrArg _ hinput
    rw [hsame, hconn]
    exact served

/-- A direction that waits for a read has written everything. -/
theorem Tunnel.idle {r : ProxySocksSession.World} (h : Live r ∨ Over r) (hdeleted : r.deleted = 0)
    {d : ProxySocksSession.Direction} (hread : r.pending d = [.read]) :
    (r.wire d).transferred = (r.wire d).received := by
  rcases h with hlive | hover
  · have hidle : (ProxySocksSession.pump r d).chunk = [] := by
      simp [ProxySocksSession.pump, ProxySocksSession.chunk, hread]
    exact (hlive.balanced d).transferred_of_idle hidle
  · rw [hover.deleted] at hdeleted
    cases hdeleted

/-- **A tunnel accounts for every byte.**  In every state of a connection with a session, for
every network, every stream of the client and every order of completions: the stream is the
offer, the request, what the session has read and what is still to come; the remote has been
sent a prefix of what the session has read; and the client has been sent the reply to the
offer, the reply to the request and a prefix of what the remote has sent.  A direction that
waits for a read, in a session that has not been shut down, has written everything. -/
theorem tunnel_accounts (net : Network)
    (dataClient_ dataClientCopy_ dataRemote_ dataRemoteCopy_ : Data) (buffer : Buffer)
    (input : Bytes) (es : List ProxySocksSession.Event) (w : World)
    (h : Run tunnelStep (StartSocks net
      (ProxySocksSession.create dataClient_ dataClientCopy_ dataRemote_ dataRemoteCopy_)
      (created buffer input)) es w)
    (r : ProxySocksSession.World) (hr : w.relay = some r) :
    ∃ (o : Offer) (ask : Ask) (made : List Call),
      Carried net [.write [5, o.selected]] ask made w.setup.conn.remoteSocket_ ∧
      input = o.bytes ++ (ask.bytes ++ ((r.wire .toRemote).received ++ w.setup.input)) ∧
      toRemote r <+: (r.wire .toRemote).received ∧
      (∃ got, toClient w r = [5, o.selected] ++ successReply ++ got ∧
        got <+: (r.wire .toClient).received) ∧
      (r.deleted = 0 → ∀ d, r.pending d = [.read] →
        (r.wire d).transferred = (r.wire d).received) := by
  have htunnel := h.invariant (fun _ _ _ hi hs => Tunnel.step hi hs)
    (StartSocks_tunnel net buffer input rfl)
  cases htunnel with
  | failed relay =>
    rw [relay] at hr
    cases hr
  | relays r₀ relay phase delivers o ask made served calls =>
    obtain rfl : r₀ = r := Option.some.inj (relay.symm.trans hr)
    refine ⟨o, ask, made, served.carried, served.input, delivers _, ⟨_, ?_, delivers _⟩,
      fun hdeleted _ hread => Tunnel.idle phase hdeleted hread⟩
    rw [toClient, calls, written_served served.carried]

/-- A client that sends one byte behind its request, and more later. -/
def talkative : World :=
  StartSocks SocksConnection.openNetwork freshSession
    (created blank (connectRequest ++ [120, 121, 122]))

/-- The byte goes to the remote. -/
def firstByte : List ProxySocksSession.Event :=
  [.read .toRemote (some ProxySocksSession.oneByte), .transfer .toRemote 1 1]

theorem tunnel_accounts_firstByte :
    ∃ r, (follow tunnelStep talkative firstByte).relay = some r ∧ toRemote r = [120] ∧
      ∃ (o : Offer) (ask : Ask) (made : List Call),
        Carried SocksConnection.openNetwork [.write [5, o.selected]] ask made
          (follow tunnelStep talkative firstByte).setup.conn.remoteSocket_ ∧
        connectRequest ++ [120, 121, 122] = o.bytes ++ (ask.bytes ++
          ((r.wire .toRemote).received ++ (follow tunnelStep talkative firstByte).setup.input)) ∧
        toRemote r <+: (r.wire .toRemote).received ∧
        (∃ got, toClient (follow tunnelStep talkative firstByte) r =
            [5, o.selected] ++ successReply ++ got ∧ got <+: (r.wire .toClient).received) ∧
        (r.deleted = 0 → ∀ d, r.pending d = [.read] →
          (r.wire d).transferred = (r.wire d).received) :=
  ⟨(follow tunnelStep talkative firstByte).relay.get (by decide +kernel),
    (Option.some_get _).symm, by decide +kernel,
    tunnel_accounts SocksConnection.openNetwork ProxySocksSession.zeros ProxySocksSession.zeros
      ProxySocksSession.zeros ProxySocksSession.zeros blank (connectRequest ++ [120, 121, 122])
      firstByte _ (run_follow (by decide +kernel)) _ (Option.some_get _).symm⟩

end Connection

end TwoProxy
