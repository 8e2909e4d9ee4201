/-
# `Connection`: set-up, relay and deletion

The SOCKS branch of `Connection::Start` runs the two blocking steps inside a `try` block and
shuts down when one of them fails or throws.  When both succeed a session is running, and it
is the session's handlers that shut the connection down.  `Shutdown` is `delete this`: it
destroys both sockets, and with them the `SocksConnection`, while the session lives on in the
handlers that are bound to it.

* `request_started`: a session has been started exactly when the set-up succeeded, so that the
  two ways to the deletion exclude each other.
* `socks_lifetime` puts the set-up and the session together.
-/
import TwoProxy.SocksConnection
import TwoProxy.ProxySocksSession.Streams

namespace TwoProxy

namespace Connection

open SocksConnection (Setup Network Program Call HandleHandshake HandleRequest)
open Blocking (Triple Keeps)
open Transition

/-! ## 1. The SOCKS branch -/

/-- A connection after `Start` has returned: what the set-up left behind, the session if one
has been started, and the deletions executed by `Start` itself. -/
structure World where
  setup : Setup
  relay : Option ProxySocksSession.World
  deletedByStart : Nat

/-- The executions of `delete this`. -/
def World.deleted (w : World) : Nat :=
  w.deletedByStart + (w.relay.map ProxySocksSession.World.deleted).getD 0

/-- `Shutdown` from inside `Start`. -/
def Shutdown (setup : Setup) : World := ⟨setup, none, 1⟩

/-- The SOCKS branch of `Start`, with the `catch` block.  `session` is the session that
`HandleRequest` constructs, if it gets that far. -/
def StartSocks (net : Network) (session : ProxySocksSession) (setup : Setup) : World :=
  match HandleHandshake net setup with
  | .ok true s =>
    match HandleRequest net s with
    | .ok true s => ⟨s, some (ProxySocksSession.Start session), 0⟩
    | .ok false s => Shutdown s
    | .error _ s => Shutdown s
  | .ok false s => Shutdown s
  | .error _ s => Shutdown s

/-- The connection as it is handed to the SOCKS branch. -/
def created (buffer : Buffer) (input : Bytes) : Setup := ⟨⟨buffer, .null, false⟩, input, []⟩

/-- One turn of the event loop.  Without a session no handler is bound. -/
def step (w : World) (e : ProxySocksSession.Event) : Option World :=
  match w.relay with
  | none => none
  | some r => (ProxySocksSession.step r e).map fun r' => { w with relay := some r' }

/-! ## 2. When a session has been started -/

/-- No session has been created. -/
def NoSession (s : Setup) : Prop :=
  s.conn.proxySocksSession_ = false ∧ .startSession ∉ s.calls

/-- A session has been created and started. -/
def HasSession (s : Setup) : Prop :=
  s.conn.proxySocksSession_ = true ∧ .startSession ∈ s.calls

theorem read_keeps (n : Nat) : Keeps NoSession (SocksConnection.read n) := by
  intro s hs
  unfold SocksConnection.read
  split <;> rename_i heq <;> split at heq <;> cases heq <;> exact hs

theorem readBuffer_keeps (n : Nat) : Keeps NoSession (SocksConnection.readBuffer n) := by
  intro s hs
  unfold SocksConnection.readBuffer
  split <;> rename_i heq <;> dsimp only at heq <;> split at heq <;> cases heq <;> exact hs

theorem getBuffer_keeps : Keeps NoSession SocksConnection.getBuffer := fun _ hs => hs

theorem resetRemoteSocket_keeps : Keeps NoSession SocksConnection.resetRemoteSocket :=
  fun _ hs => hs

theorem call_keeps (net : Network) {c : Call} (hc : c ≠ .startSession) :
    Keeps NoSession (SocksConnection.call net c) := by
  intro s hs
  have hcalls : .startSession ∉ s.calls ++ [c] := by simp [hs.2, hc.symm]
  unfold SocksConnection.call
  split <;> rename_i heq <;> split at heq <;> cases heq <;> exact ⟨hs.1, hcalls⟩

theorem resolveName_keeps (net : Network) (name port : Bytes) :
    Keeps NoSession (SocksConnection.resolveName net name port) := by
  intro s hs
  have hcalls : .startSession ∉ s.calls ++ [.resolve name port] := by simp [hs.2]
  unfold SocksConnection.resolveName
  split <;> rename_i heq <;> split at heq <;> cases heq <;> exact ⟨hs.1, hcalls⟩

theorem connectRemoteSocket_keeps (net : Network) (endpoint : Endpoint) :
    Keeps NoSession (SocksConnection.connectRemoteSocket net endpoint) :=
  (call_keeps net (by simp)).bind fun _ _ hs => hs

/-- **The handshake starts no session.** -/
theorem handshake_keeps (net : Network) : Keeps NoSession (HandleHandshake net) := by
  refine (read_keeps 1).bind fun b => ?_
  refine Triple.ite (fun _ => Triple.pure fun _ hs => hs) fun _ => ?_
  refine (readBuffer_keeps _).bind fun readSize => ?_
  refine Triple.ite (fun _ => Triple.pure fun _ hs => hs) fun _ => ?_
  refine getBuffer_keeps.bind fun buffer_ => ?_
  exact (call_keeps net (by simp)).bind fun _ => Triple.pure fun _ hs => hs

/-- What the answer of a request says. -/
def Answered (started : Bool) (s : Setup) : Prop :=
  if started then HasSession s else NoSession s

theorem replyAndStart_started (net : Network) :
    Triple NoSession (SocksConnection.replyAndStart net) Answered NoSession := by
  refine (call_keeps net (by simp)).bind fun _ => ?_
  refine Triple.bind (Q := fun _ => HasSession) (fun s _ => ⟨rfl, by simp⟩) fun _ => ?_
  exact Triple.pure fun s hs => hs

theorem requestIpv4_started (net : Network) (header : SOCKS5RequestHeader) :
    Triple NoSession (SocksConnection.requestIpv4 net header) Answered NoSession := by
  refine (read_keeps 6).bind fun body => Triple.ite (fun _ => ?_) fun _ => ?_
  · exact (connectRemoteSocket_keeps net _).bind fun _ => replyAndStart_started net
  · exact replyAndStart_started net

theorem requestDname_started (net : Network) :
    Triple NoSession (SocksConnection.requestDname net) Answered NoSession := by
  refine (readBuffer_keeps 1).bind fun _ => ?_
  refine getBuffer_keeps.bind fun buffer_ => ?_
  refine (readBuffer_keeps _).bind fun addrLen => ?_
  refine getBuffer_keeps.bind fun buffer_ => ?_
  refine (read_keeps 2).bind fun port => ?_
  refine (resolveName_keeps net _ _).bind fun iter => ?_
  refine resetRemoteSocket_keeps.bind fun _ => ?_
  exact (connectRemoteSocket_keeps net _).bind fun _ => replyAndStart_started net

/-- **A request starts a session exactly when it succeeds.** -/
theorem request_started (net : Network) :
    Triple NoSession (HandleRequest net) Answered NoSession := by
  refine (read_keeps 4).bind fun b => ?_
  refine Triple.ite (fun _ => Triple.pure fun _ hs => hs) fun _ => ?_
  refine resetRemoteSocket_keeps.bind fun _ => ?_
  refine Triple.ite (fun _ => requestIpv4_started net _) fun _ => ?_
  refine Triple.ite (fun _ => requestDname_started net) fun _ => ?_
  exact Triple.pure fun _ hs => hs

/-- The two steps of the set-up have both returned `true`. -/
def SetUp (net : Network) (setup : Setup) : Prop :=
  ∃ s s', HandleHandshake net setup = .ok true s ∧ HandleRequest net s = .ok true s'

theorem not_setUp {net : Network} {setup s : Setup}
    (hh : HandleHandshake net setup = .ok true s)
    (hr : ∀ s', HandleRequest net s ≠ .ok true s') : ¬ SetUp net setup := by
  rintro ⟨s₁, s₂, hh', hr'⟩
  rw [hh] at hh'
  cases hh'
  exact hr s₂ hr'

/-- How `Start` leaves a connection. -/
theorem startSocks_cases (net : Network) (session : ProxySocksSession) {setup : Setup}
    (h : NoSession setup) :
    (SetUp net setup ∧ ∃ s, HasSession s ∧
        StartSocks net session setup = ⟨s, some (ProxySocksSession.Start session), 0⟩) ∨
      (¬ SetUp net setup ∧ ∃ s, NoSession s ∧ StartSocks net session setup = Shutdown s) := by
  have h1 := handshake_keeps net setup h
  unfold StartSocks
  cases hh : HandleHandshake net setup with
  | error e s => rw [hh] at h1; exact Or.inr ⟨by simp [SetUp, hh], s, h1, rfl⟩
  | ok b s =>
    rw [hh] at h1
    cases b with
    | false => exact Or.inr ⟨by simp [SetUp, hh], s, h1, rfl⟩
    | true =>
      have h2 := request_started net s h1
      cases hr : HandleRequest net s with
      | error e s' =>
        rw [hr] at h2
        exact Or.inr ⟨not_setUp hh (by simp [hr]), s', h2, by simp [hr]⟩
      | ok b s' =>
        rw [hr] at h2
        cases b with
        | true => exact Or.inl ⟨⟨s, s', hh, hr⟩, s', h2, by simp [hr]⟩
        | false => exact Or.inr ⟨not_setUp hh (by simp [hr]), s', h2, by simp [hr]⟩

/-! ## 3. Lifetime -/

/-- A connection whose set-up failed, or one whose session has gone through the events. -/
inductive Phase (net : Network) (setup : Setup) (es : List ProxySocksSession.Event) (w : World) :
    Prop
  | failed (setUp : ¬ SetUp net setup) (noSession : NoSession w.setup) (relay : w.relay = none)
      (byStart : w.deletedByStart = 1)
  | relays (setUp : SetUp net setup) (hasSession : HasSession w.setup)
      (byStart : w.deletedByStart = 0) (r : ProxySocksSession.World) (relay : w.relay = some r)
      (history : ProxySocksSession.History es r)

theorem startSocks_phase (net : Network) {session : ProxySocksSession} {setup : Setup}
    (hsession : session.shutdownInProgress_ = false) (h : NoSession setup) :
    Phase net setup [] (StartSocks net session setup) := by
  rcases startSocks_cases net session h with ⟨hup, s, hs, hstart⟩ | ⟨hup, s, hs, hstart⟩
  · rw [hstart]
    exact .relays hup hs rfl _ rfl
      (.live (by simp) (ProxySocksSession.start_live session hsession))
  · rw [hstart]
    exact .failed hup hs rfl rfl

/-- A turn of the event loop is a turn of the session. -/
theorem step_eq_some {w w' : World} {e : ProxySocksSession.Event} (hs : step w e = some w') :
    ∃ r r', w.relay = some r ∧ ProxySocksSession.step r e = some r' ∧
      w' = { w with relay := some r' } := by
  unfold step at hs
  cases hr : w.relay with
  | none =>
    rw [hr] at hs
    cases hs
  | some r =>
    rw [hr] at hs
    obtain ⟨r', hstep, rfl⟩ := Option.map_eq_some_iff.mp hs
    exact ⟨r, r', rfl, hstep, rfl⟩

/-- A connection with a session is one that has been set up. -/
theorem Phase.running {net : Network} {setup : Setup} {es : List ProxySocksSession.Event}
    {w : World} {r : ProxySocksSession.World} (h : Phase net setup es w)
    (hr : w.relay = some r) :
    SetUp net setup ∧ HasSession w.setup ∧ w.deletedByStart = 0 ∧
      ProxySocksSession.History es r := by
  cases h with
  | failed setUp noSession relay byStart =>
    rw [relay] at hr
    cases hr
  | relays setUp hasSession byStart r₀ relay history =>
    obtain rfl : r₀ = r := Option.some.inj (relay ▸ hr)
    exact ⟨setUp, hasSession, byStart, history⟩

theorem Phase.kept {net : Network} {setup : Setup} {es : List ProxySocksSession.Event}
    {w w' : World} {e : ProxySocksSession.Event} (h : Phase net setup es w)
    (hs : step w e = some w') : Phase net setup (es ++ [e]) w' := by
  obtain ⟨r, r', hr, hstep, rfl⟩ := step_eq_some hs
  obtain ⟨hup, hsession, hstart, history⟩ := h.running hr
  exact .relays hup hsession hstart r' rfl (history.step hstep)

/-- What holds of a connection after some events, however its set-up went. -/
structure Accounted (net : Network) (setup : Setup) (es : List ProxySocksSession.Event)
    (w : World) : Prop where
  deletedOnce : w.deleted ≤ 1
  /-- `Start` deletes the connection exactly when the set-up failed and started no session. -/
  byStart : w.deletedByStart = 1 ↔ ¬ SetUp net setup ∧ .startSession ∉ w.setup.calls
  /-- A failed set-up leaves no session behind, and nothing that could happen. -/
  noSession : ¬ SetUp net setup → .startSession ∉ w.setup.calls ∧ ∀ e, step w e = none
  /-- A session deletes the connection at the first error, and for nothing else. -/
  bySession : SetUp net setup → .startSession ∈ w.setup.calls ∧ w.deletedByStart = 0 ∧
    (w.deleted = 1 ↔ ∃ e ∈ es, e.IsError)

theorem Phase.accounted {net : Network} {setup : Setup} {es : List ProxySocksSession.Event}
    {w : World} (h : Phase net setup es w) : Accounted net setup es w := by
  cases h with
  | failed setUp noSession relay byStart =>
    have hdel : w.deleted = 1 := by simp [World.deleted, relay, byStart]
    refine ⟨hdel.le, iff_of_true byStart ⟨setUp, noSession.2⟩, fun _ => ⟨noSession.2, fun e => ?_⟩,
      fun hup => absurd hup setUp⟩
    rw [step, relay]
  | relays setUp hasSession byStart r relay history =>
    have hdel : w.deleted = r.deleted := by simp [World.deleted, relay, byStart]
    have hno : w.deletedByStart = 1 ↔ ¬ SetUp net setup ∧ .startSession ∉ w.setup.calls :=
      iff_of_false (by simp [byStart]) (fun hno => hno.1 setUp)
    cases history with
    | live noError h =>
      refine ⟨by simp [hdel, h.deleted], hno, fun hup => absurd setUp hup,
        fun _ => ⟨hasSession.2, byStart, iff_of_false (by simp [hdel, h.deleted]) ?_⟩⟩
      rintro ⟨e, he, herr⟩
      exact noError e he herr
    | ended error h =>
      exact ⟨by simp [hdel, h.deleted], hno, fun hup => absurd setUp hup,
        fun _ => ⟨hasSession.2, byStart, iff_of_true (by rw [hdel, h.deleted]) error⟩⟩

/-- What a turn of the event loop may do.  A `start` is an entry of the trace, so that nothing
is started where the trace does not grow. -/
structure Sound (w : World) (e : ProxySocksSession.Event) (w' : World) : Prop where
  firstError : w.deleted = 0 → (w'.deleted = 1 ↔ e.IsError)
  unchanged : w.deleted = 1 → ∃ r, w.relay = some r ∧
    ProxySocksSession.handle (ProxySocksSession.arrive r e) e = ProxySocksSession.arrive r e ∧
    w' = { w with relay := some (ProxySocksSession.arrive r e) } ∧
    (ProxySocksSession.arrive r e).trace = r.trace ∧
    ∃ before, r.trace = before ++ [.deleteConnection] ∧ .deleteConnection ∉ before

theorem Phase.sound {net : Network} {setup : Setup} {es : List ProxySocksSession.Event}
    {w w' : World} {e : ProxySocksSession.Event} (h : Phase net setup es w)
    (hs : step w e = some w') : Sound w e w' := by
  obtain ⟨r, r', hr, hstep, rfl⟩ := step_eq_some hs
  obtain ⟨-, -, hstart, history⟩ := h.running hr
  have hdel : w.deleted = r.deleted := by simp [World.deleted, hr, hstart]
  have hdel' : World.deleted { w with relay := some r' } = r'.deleted := by
    simp [World.deleted, hstart]
  cases history with
  | live noError h =>
    refine ⟨fun _ => ?_, fun hone => by simp [hdel, h.deleted] at hone⟩
    rw [hdel']
    cases h.step hstep with
    | lives hno hlive => exact iff_of_false (by simp [hlive.deleted]) hno
    | ends isError hover => exact iff_of_true hover.deleted isError
  | ended error h =>
    refine ⟨fun hzero => by simp [hdel, h.deleted] at hzero, fun _ => ?_⟩
    obtain ⟨-, rfl⟩ := h.step hstep
    exact ⟨r, hr, h.handle e, rfl, ProxySocksSession.arrive_trace r e, h.last⟩

/-- **The lifetime of a SOCKS connection.**  Whatever the client sends, however the blocking
steps end and in whatever order the operations of the session complete: the connection is
deleted once at most, by `Start` exactly when the set-up failed and by the session at its
first error; and from the deletion on, a completion handler changes nothing and starts
nothing. -/
theorem socks_lifetime (net : Network)
    (dataClient_ dataClientCopy_ dataRemote_ dataRemoteCopy_ : Data) (buffer : Buffer)
    (input : Bytes) (es : List ProxySocksSession.Event) (w : World)
    (h : Run step (StartSocks net
      (ProxySocksSession.create dataClient_ dataClientCopy_ dataRemote_ dataRemoteCopy_)
      (created buffer input)) es w) :
    Accounted net (created buffer input) es w ∧
      ∀ e w', step w e = some w' → Sound w e w' := by
  have hphase : Phase net (created buffer input) es w :=
    h.invariant_events (R := Phase net (created buffer input))
      (fun _ _ _ _ hi hs => hi.kept hs) [] (startSocks_phase net rfl ⟨rfl, by simp [created]⟩)
  exact ⟨hphase.accounted, fun e w' hs => hphase.sound hs⟩

/-- One method, and the request to connect to 10.0.0.1:80. -/
def connectRequest : Bytes := [1, 0, 5, 1, 0, 1, 10, 0, 0, 1, 0, 80]

/-- A connection that has been set up. -/
def relayed : World :=
  StartSocks SocksConnection.openNetwork
    (ProxySocksSession.create ProxySocksSession.zeros ProxySocksSession.zeros
      ProxySocksSession.zeros ProxySocksSession.zeros)
    (created blank connectRequest)

/-- The client hangs up, and what the remote has sent is delivered after the deletion. -/
def lateRead : List ProxySocksSession.Event :=
  [.read .toRemote none, .read .toClient (some ProxySocksSession.oneByte)]

theorem socks_lifetime_lateRead :
    (follow step relayed lateRead).deleted = 1 ∧
      Accounted SocksConnection.openNetwork (created blank connectRequest) lateRead
        (follow step relayed lateRead) ∧
      ∀ e w', step (follow step relayed lateRead) e = some w' →
        Sound (follow step relayed lateRead) e w' :=
  ⟨by decide +kernel, socks_lifetime SocksConnection.openNetwork ProxySocksSession.zeros
    ProxySocksSession.zeros ProxySocksSession.zeros ProxySocksSession.zeros blank connectRequest
    lateRead _ (run_follow (by decide +kernel))⟩

end Connection

end TwoProxy
