/-
# After the head, the two response states are one

When the head of a response ends inside a read, `case ReadUntilBody` falls through to
`case Body` without setting `serverResponseState_`.  From then on every read of the body goes
through `ParseUntil` again, with a start iterator that `ReadMoreFromServer` has pointed into the
other buffer.

Nothing comes of it.  A parser in its stop state does not enter its loop, so that the iterators
are not looked at, and the read is forwarded as `case Body` would forward it.  Two connections
that differ in `serverResponseState_` and `newServerReadStart_` only stay like that, whatever
completes: `response_states_agree`.
-/
import TwoProxy.HttpConnection.Relay

namespace TwoProxy

namespace HttpConnection

open Transition

/-! ## 1. Handlers that do not look at the response side -/

/-- The same world with another response state and another start iterator. -/
def rearm (state : ServerResponseState) (start : Nat) (w : World) : World :=
  { w with conn := { w.conn with
      serverResponseState_ := state
      newServerReadStart_ := start } }

/-- The buffers of the client writes that have been started. -/
def clientWrites (trace : List Action) : List Bytes :=
  trace.filterMap fun
    | .start (.clientWrite b) => some b
    | _ => none

/-- From `w` to `w'` nothing is written to the client, the response parser and its accumulator
are left alone, and a connection that is shut down stays so. -/
structure Aside (w w' : World) : Prop where
  writes : clientWrites w'.trace = clientWrites w.trace
  responseParser : w'.conn.responseParser_ = w.conn.responseParser_
  partialParsedServer : w'.conn.partialParsedServer_ = w.conn.partialParsedServer_
  down : w.conn.isShuttingDown_ = true → w'.conn.isShuttingDown_ = true

theorem Aside.refl (w : World) : Aside w w := ⟨rfl, rfl, rfl, id⟩

theorem Aside.trans {w w' w'' : World} (h : Aside w w') (h' : Aside w' w'') : Aside w w'' where
  writes := h'.writes.trans h.writes
  responseParser := h'.responseParser.trans h.responseParser
  partialParsedServer := h'.partialParsedServer.trans h.partialParsedServer
  down := h'.down ∘ h.down

/-- A handler to which the two fields make no difference. -/
structure Blind (f : World → World) : Prop where
  rearm : ∀ state start w, f (rearm state start w) = HttpConnection.rearm state start (f w)
  aside : ∀ w, Aside w (f w)

@[simp] theorem clientWrites_append (trace trace' : List Action) :
    clientWrites (trace ++ trace') = clientWrites trace ++ clientWrites trace' :=
  List.filterMap_append

/-- An action that starts no client write. -/
theorem clientWrites_concat {a : Action} (ha : ∀ b, a ≠ .start (.clientWrite b))
    (trace : List Action) : clientWrites (trace ++ [a]) = clientWrites trace := by
  rw [clientWrites_append]
  cases a with
  | start op =>
    cases op with
    | clientWrite b => exact absurd rfl (ha b)
    | _ => simp [clientWrites]
  | _ => simp [clientWrites]

theorem Shutdown_blind : Blind Shutdown where
  rearm state start w := by
    by_cases h : (!w.conn.isShuttingDown_) = true
    · have hw : Shutdown w = _ := if_pos h
      have hrearmed : Shutdown (rearm state start w) = _ := if_pos h
      rw [hw, hrearmed]
      rfl
    · have hw : Shutdown w = w := if_neg h
      have hrearmed : Shutdown (rearm state start w) = rearm state start w := if_neg h
      rw [hw, hrearmed]
  aside w := by
    by_cases h : (!w.conn.isShuttingDown_) = true
    · rw [Shutdown, if_pos h]
      exact ⟨clientWrites_concat (by simp) _, rfl, rfl, fun _ => rfl⟩
    · rw [Shutdown, if_neg h]
      exact .refl w

theorem StartWriteToServer_blind : Blind StartWriteToServer where
  rearm _ _ _ := rfl
  aside w := by
    refine ⟨?_, rfl, rfl, id⟩
    simp only [StartWriteToServer, World.start, World.act]
    rw [clientWrites_concat (by simp), clientWrites_concat (by simp)]

theorem StartConnect_blind : Blind StartConnect where
  rearm state start w := by
    have hsame : ParseUri sizeBits
        ((rearm state start w).act .startConnect).conn.message_.destination_ [] [] =
      ParseUri sizeBits (w.act .startConnect).conn.message_.destination_ [] [] := rfl
    rw [StartConnect, StartConnect]
    dsimp only
    rw [hsame]
    cases ParseUri sizeBits (w.act .startConnect).conn.message_.destination_ [] [] with
    | none => rfl
    | some parsed =>
      obtain ⟨ok, host, port⟩ := parsed
      cases ok with
      | false => rfl
      | true =>
        change (if (!w.conn.isOpened) = true then _ else _) =
          rearm state start (if (!w.conn.isOpened) = true then _ else _)
        split <;> rfl
  aside w := by
    have hact : Aside w (w.act .startConnect) := ⟨clientWrites_concat (by simp) _, rfl, rfl, id⟩
    unfold StartConnect
    dsimp only
    split
    · split
      · exact hact.trans ⟨clientWrites_concat (by simp) _, rfl, rfl, id⟩
      · exact hact.trans (StartWriteToServer_blind.aside _)
    · exact hact.trans ⟨clientWrites_concat (by simp) _, rfl, rfl, id⟩
    · exact hact.trans ⟨rfl, rfl, rfl, id⟩

theorem connectAndClear_blind : Blind connectAndClear where
  rearm state start w := by
    simp only [connectAndClear, StartConnect_blind.rearm]
    change (if (StartConnect w).escaped = true then _ else _) =
      rearm state start (if (StartConnect w).escaped = true then _ else _)
    split <;> rfl
  aside w := by
    unfold connectAndClear
    split
    · exact StartConnect_blind.aside w
    · exact (StartConnect_blind.aside w).trans ⟨rfl, rfl, rfl, id⟩

/-- The two fields are not among what a call of the parser finds. -/
theorem parseCall_rearm (stop : RequestParser.StateType) (len : Nat) (state : ServerResponseState)
    (start : Nat) (w : World) :
    parseCall stop len (rearm state start w).conn = parseCall stop len w.conn := rfl

theorem caseHeaders_blind (len : Nat) : Blind fun w => (caseHeaders len w).1 where
  rearm state start w := by
    rw [caseHeaders, caseHeaders]
    dsimp only
    rw [parseCall_rearm]
    cases (parseCall .HeadersDone len w.conn).result with
    | none => rfl
    | some resultRange =>
      obtain ⟨verdict, state', first, second⟩ := resultRange
      cases verdict with
      | ParsedFailed => rfl
      | Indeterminate => rfl
      | ParsedOK =>
        let token := w.conn.partialParsed_ ++ w.conn.memory.extract first second
        exact connectAndClear_blind.rearm state start
          { w with conn := { w.conn with
            parser_ := state'
            partialParsed_ := token
            reqHeaders_ := token } }
  aside w := by
    rw [caseHeaders]
    dsimp only
    cases (parseCall .HeadersDone len w.conn).result with
    | none => exact ⟨rfl, rfl, rfl, id⟩
    | some resultRange =>
      obtain ⟨verdict, state', first, second⟩ := resultRange
      cases verdict with
      | ParsedFailed => exact ⟨clientWrites_concat (by simp) _, rfl, rfl, id⟩
      | Indeterminate => exact ⟨clientWrites_concat (by simp) _, rfl, rfl, id⟩
      | ParsedOK =>
        let token := w.conn.partialParsed_ ++ w.conn.memory.extract first second
        let v : World := { w with conn := { w.conn with
          parser_ := state'
          partialParsed_ := token
          reqHeaders_ := token } }
        have hstored : Aside w v := ⟨rfl, rfl, rfl, id⟩
        exact hstored.trans (connectAndClear_blind.aside v)

/-- A `case` is blind if the one below it is. -/
theorem tokenCase_blind {stop : RequestParser.StateType} {here next : ClientRequestState}
    {line : ErrorLine} {store : Bytes → BasicMessage → BasicMessage}
    {fallThrough : Nat → World → World × List ParseCall}
    (hfall : ∀ len, Blind fun w => (fallThrough len w).1) (len : Nat) :
    Blind fun w => (tokenCase stop here next line store fallThrough len w).1 where
  rearm state start w := by
    rw [tokenCase, tokenCase]
    dsimp only
    rw [parseCall_rearm]
    cases (parseCall stop len w.conn).result with
    | none => rfl
    | some resultRange =>
      obtain ⟨verdict, state', first, second⟩ := resultRange
      cases verdict with
      | ParsedFailed => rfl
      | Indeterminate => rfl
      | ParsedOK =>
        let v : World := { w with conn := { w.conn with
          parser_ := state'
          message_ := store (w.conn.partialParsed_ ++ w.conn.memory.extract first second)
            w.conn.message_
          newStart_ := second
          partialParsed_ := [] } }
        have hnext : (fallThrough len (rearm state start v)).1 =
            rearm state start (fallThrough len v).1 := (hfall len).rearm state start v
        dsimp only
        by_cases hend : second = len
        · rw [if_pos hend, if_pos hend]
          rfl
        · rw [if_neg hend, if_neg hend]
          exact hnext
  aside w := by
    rw [tokenCase]
    dsimp only
    cases (parseCall stop len w.conn).result with
    | none => exact ⟨rfl, rfl, rfl, id⟩
    | some resultRange =>
      obtain ⟨verdict, state', first, second⟩ := resultRange
      cases verdict with
      | ParsedFailed => exact ⟨clientWrites_concat (by simp) _, rfl, rfl, id⟩
      | Indeterminate => exact ⟨clientWrites_concat (by simp) _, rfl, rfl, id⟩
      | ParsedOK =>
        let v : World := { w with conn := { w.conn with
          parser_ := state'
          message_ := store (w.conn.partialParsed_ ++ w.conn.memory.extract first second)
            w.conn.message_
          newStart_ := second
          partialParsed_ := [] } }
        have hstored : Aside w v := ⟨rfl, rfl, rfl, id⟩
        dsimp only
        by_cases hend : second = len
        · rw [if_pos hend]
          exact ⟨clientWrites_concat (by simp) _, rfl, rfl, id⟩
        · rw [if_neg hend]
          exact hstored.trans ((hfall len).aside v)

theorem caseVersion_blind : ∀ len, Blind fun w => (caseVersion len w).1 :=
  tokenCase_blind caseHeaders_blind

theorem caseUri_blind : ∀ len, Blind fun w => (caseUri len w).1 :=
  tokenCase_blind caseVersion_blind

theorem caseMethod_blind : ∀ len, Blind fun w => (caseMethod len w).1 :=
  tokenCase_blind caseUri_blind

theorem HandleBrowserReadHeaders_blind (err : Bool) (len : Nat) :
    Blind fun w => (HandleBrowserReadHeaders err len w).1 where
  rearm state start w := by
    have hstopped : IsStopped (rearm state start w) = IsStopped w := rfl
    have hcase : (rearm state start w).conn.clientRequestState_ = w.conn.clientRequestState_ := rfl
    rw [HandleBrowserReadHeaders, HandleBrowserReadHeaders, hstopped, hcase]
    split
    · cases w.conn.clientRequestState_ with
      | Method => exact (caseMethod_blind len).rearm state start w
      | Uri => exact (caseUri_blind len).rearm state start w
      | Version => exact (caseVersion_blind len).rearm state start w
      | Headers => exact (caseHeaders_blind len).rearm state start w
    · exact Shutdown_blind.rearm state start w
  aside w := by
    rw [HandleBrowserReadHeaders]
    split
    · cases w.conn.clientRequestState_ with
      | Method => exact (caseMethod_blind len).aside w
      | Uri => exact (caseUri_blind len).aside w
      | Version => exact (caseVersion_blind len).aside w
      | Headers => exact (caseHeaders_blind len).aside w
    · exact Shutdown_blind.aside w

theorem log_aside (w : World) (line : ErrorLine) : Aside w (w.log line) :=
  ⟨clientWrites_concat (by simp) _, rfl, rfl, id⟩

/-- Starting anything but a client write. -/
theorem start_aside {op : AsyncOp} (hop : ∀ b, op ≠ .clientWrite b) (w : World) :
    Aside w (w.start op) :=
  ⟨clientWrites_concat (fun b h => hop b (Action.start.inj h)) _, rfl, rfl, id⟩

theorem HandleResolve_blind (err : Bool) (endpoints : List Endpoint) :
    Blind (HandleResolve err endpoints) where
  rearm state start w := by
    cases err with
    | true => exact Shutdown_blind.rearm state start (w.log .handleResolveFailed)
    | false => cases endpoints <;> rfl
  aside w := by
    cases err with
    | true => exact (log_aside w _).trans (Shutdown_blind.aside _)
    | false =>
      cases endpoints with
      | nil => exact ⟨rfl, rfl, rfl, id⟩
      | cons endpoint rest => exact start_aside (by simp) w

theorem HandleConnect_blind (err : Bool) (endpoints : List Endpoint) :
    Blind (HandleConnect err endpoints) where
  rearm state start w := by
    cases err with
    | false => rfl
    | true =>
      cases endpoints with
      | nil => exact Shutdown_blind.rearm state start (w.log .handleConnectFailed)
      | cons endpoint rest => rfl
  aside w := by
    cases err with
    | false =>
      have hopened : Aside w { w with conn := { w.conn with isOpened := true } } :=
        ⟨rfl, rfl, rfl, id⟩
      exact hopened.trans (StartWriteToServer_blind.aside _)
    | true =>
      cases endpoints with
      | nil => exact (log_aside w _).trans (Shutdown_blind.aside _)
      | cons endpoint rest => exact start_aside (by simp) w

/-! ## 2. One completion after the head -/

/-- The chunks that the server reads among the events deliver. -/
def chunksRead (es : List Event) : List Bytes :=
  es.filterMap fun
    | .serverRead (some c) => some c.bytes
    | _ => none

theorem chunksRead_cons (e : Event) (es : List Event) :
    chunksRead (e :: es) = chunksRead [e] ++ chunksRead es :=
  List.filterMap_append (l := [e])

/-- Equal but for the response state and the start iterator: the same operations have been
started and are pending, and both are shut down or neither is. -/
def Twin (w w' : World) : Prop := ∃ state start, w' = rearm state start w

theorem Twin.refl (w : World) : Twin w w :=
  ⟨w.conn.serverResponseState_, w.conn.newServerReadStart_, rfl⟩

/-- What a completion does once the head of the response is done. -/
structure AfterHead (w : World) (e : Event) (w' : World) : Prop where
  done : w'.conn.responseParser_ = .HttpHeadersDone
  partialParsedServer : w'.conn.partialParsedServer_ = w.conn.partialParsedServer_
  writes : clientWrites w'.trace = clientWrites w.trace ++
    if w.conn.isShuttingDown_ = true then [] else chunksRead [e]
  down : w.conn.isShuttingDown_ = true → w'.conn.isShuttingDown_ = true

/-- A completion that is no successful server read. -/
theorem Aside.afterHead {w w' : World} {e : Event} (h : Aside w w')
    (hdone : w.conn.responseParser_ = .HttpHeadersDone) (he : chunksRead [e] = []) :
    AfterHead w e w' where
  done := h.responseParser.trans hdone
  partialParsedServer := h.partialParsedServer
  writes := by rw [h.writes, he, ite_self, List.append_nil]
  down := h.down

/-- **`case ReadUntilBody` after the head** forwards the read and changes nothing: the loop of
`ParseUntil` is not entered, wherever the two iterators point. -/
theorem caseReadUntilBody_done {w : World} (hdone : w.conn.responseParser_ = .HttpHeadersDone)
    (hstate : w.conn.serverResponseState_ = .ReadUntilBody) (len : Nat) :
    caseReadUntilBody len w = SendDataToClient len w := by
  have hparse : ResponseParser.ParseUntil .HttpHeadersDone w.conn.memory
      (w.conn.newServerReadStart_, 1024 + len) w.conn.responseParser_ =
    some ⟨.Indeterminate, .HttpHeadersDone, w.conn.newServerReadStart_,
      w.conn.newServerReadStart_⟩ := by
    rw [hdone]
    exact Scan.parseRange_stop _ _ _ _
  rw [caseReadUntilBody, hparse]
  dsimp only
  rw [← hdone, ← hstate]
  simp

/-- So the two states do the same with a read. -/
theorem HandleServerRead_done {w : World} (hdone : w.conn.responseParser_ = .HttpHeadersDone)
    (len : Nat) : HandleServerRead false len w =
      if w.conn.isShuttingDown_ = true then w else SendDataToClient len w := by
  cases hdown : w.conn.isShuttingDown_ with
  | true => simp [HandleServerRead, IsStopped, Shutdown, hdown]
  | false =>
    have hgo : (!false && !IsStopped w) = true := by simp [IsStopped, hdown]
    rw [HandleServerRead, if_pos hgo]
    cases hstate : w.conn.serverResponseState_ with
    | ReadUntilBody => exact caseReadUntilBody_done hdone hstate len
    | Body => rfl

/-- Reading on from the server, and its failure, leave everything else alone. -/
theorem HandleServerWrite_aside (err : Bool) (w : World) : Aside w (HandleServerWrite err w) := by
  rw [HandleServerWrite]
  split
  · exact (start_aside (by simp) w).trans ⟨rfl, rfl, rfl, id⟩
  · exact (log_aside w _).trans (Shutdown_blind.aside _)

theorem HandleClientWrite_aside (err : Bool) (w : World) : Aside w (HandleClientWrite err w) := by
  rw [HandleClientWrite]
  split
  · exact (start_aside (by simp) w).trans ⟨rfl, rfl, rfl, id⟩
  · exact Shutdown_blind.aside w

/-- A successful server read starts one client write, of the whole read. -/
theorem serverRead_afterHead {w : World} (hdone : w.conn.responseParser_ = .HttpHeadersDone)
    (c : Chunk) : AfterHead w (.serverRead (some c)) (handle w (.serverRead (some c))) := by
  have hread : handle w (.serverRead (some c)) = _ :=
    HandleServerRead_done (w := { w with conn := served w.conn c }) hdone c.bytes.length
  rw [hread]
  cases hdown : w.conn.isShuttingDown_ with
  | true =>
    rw [if_pos (show (served w.conn c).isShuttingDown_ = true from hdown)]
    exact
      { done := hdone
        partialParsedServer := rfl
        writes := by simp [hdown]
        down := id }
  | false =>
    rw [if_neg (show ¬ (served w.conn c).isShuttingDown_ = true by simp [served, hdown])]
    exact
      { done := hdone
        partialParsedServer := rfl
        writes := by
          simp [SendDataToClient, World.start, served, Buffer.fill, clientWrites, chunksRead, hdown]
        down := id }

/-- **One completion after the head**, whatever it is. -/
theorem handle_afterHead {w : World} (hdone : w.conn.responseParser_ = .HttpHeadersDone)
    (e : Event) : AfterHead w e (handle w e) := by
  cases e with
  | browserRead r =>
    cases r with
    | none => exact ((HandleBrowserReadHeaders_blind true 0).aside w).afterHead hdone rfl
    | some data =>
      have hfill : Aside w { w with conn := received w.conn data } := ⟨rfl, rfl, rfl, id⟩
      have hread := (HandleBrowserReadHeaders_blind false data.bytes.length).aside
        { w with conn := received w.conn data }
      exact (hfill.trans hread).afterHead hdone rfl
  | resolve host port r =>
    cases r with
    | none => exact ((HandleResolve_blind true []).aside w).afterHead hdone rfl
    | some r => exact ((HandleResolve_blind false (r.1 :: r.2)).aside w).afterHead hdone rfl
  | connect endpoint endpoints err =>
    exact ((HandleConnect_blind err endpoints).aside w).afterHead hdone rfl
  | serverWrite buffer err => exact (HandleServerWrite_aside err w).afterHead hdone rfl
  | clientWrite buffer err => exact (HandleClientWrite_aside err w).afterHead hdone rfl
  | serverRead r =>
    cases r with
    | none => exact (Shutdown_blind.aside w).afterHead hdone rfl
    | some c => exact serverRead_afterHead hdone c

/-- A blind handler keeps twins. -/
theorem Blind.twin {f : World → World} (h : Blind f) {w w' : World} (ht : Twin w w') :
    Twin (f w) (f w') := by
  obtain ⟨state, start, rfl⟩ := ht
  exact ⟨state, start, h.rearm state start w⟩

/-- **Twins stay twins**, whatever completes. -/
theorem handle_twin {w w' : World} (ht : Twin w w')
    (hdone : w.conn.responseParser_ = .HttpHeadersDone) (e : Event) :
    Twin (handle w e) (handle w' e) := by
  obtain ⟨state, start, rfl⟩ := ht
  have htwin : ∀ v, Twin v (rearm state start v) := fun v => ⟨state, start, rfl⟩
  cases e with
  | browserRead r =>
    cases r with
    | none => exact (HandleBrowserReadHeaders_blind true 0).twin (htwin w)
    | some data =>
      exact (HandleBrowserReadHeaders_blind false data.bytes.length).twin
        (htwin { w with conn := received w.conn data })
  | resolve host port r =>
    cases r with
    | none => exact (HandleResolve_blind true []).twin (htwin w)
    | some r => exact (HandleResolve_blind false (r.1 :: r.2)).twin (htwin w)
  | connect endpoint endpoints err => exact (HandleConnect_blind err endpoints).twin (htwin w)
  | serverWrite buffer err =>
    change Twin (if (!err && !IsStopped w) = true then _ else _)
      (if (!err && !IsStopped w) = true then _ else _)
    split
    · exact ⟨state, 1024, rfl⟩
    · exact Shutdown_blind.twin (htwin (w.log .handleServerWriteFailed))
  | clientWrite buffer err =>
    change Twin (if (!err && !IsStopped w) = true then _ else _)
      (if (!err && !IsStopped w) = true then _ else _)
    split
    · exact ⟨state, 0, rfl⟩
    · exact Shutdown_blind.twin (htwin w)
  | serverRead r =>
    cases r with
    | none => exact Shutdown_blind.twin (htwin w)
    | some c =>
      let v : World := { w with conn := served w.conn c }
      have hleft : handle w (.serverRead (some c)) = _ :=
        HandleServerRead_done (w := v) hdone c.bytes.length
      have hright : handle (rearm state start w) (.serverRead (some c)) = _ :=
        HandleServerRead_done (w := rearm state start v) hdone c.bytes.length
      rw [hleft, hright]
      change Twin (if v.conn.isShuttingDown_ = true then _ else _)
        (if v.conn.isShuttingDown_ = true then _ else _)
      split
      · exact htwin v
      · exact htwin (SendDataToClient c.bytes.length v)

/-! ## 3. Runs -/

/-- The same events are possible for twins. -/
theorem step_twin {w w' : World} (ht : Twin w w')
    (hdone : w.conn.responseParser_ = .HttpHeadersDone) (e : Event) :
    (step w e = none ∧ step w' e = none) ∨
      ∃ v v', step w e = some v ∧ step w' e = some v' ∧ Twin v v' ∧ AfterHead w e v := by
  obtain ⟨state, start, rfl⟩ := ht
  by_cases h : w.escaped = false ∧ w.overrun = false ∧ e.op ∈ w.pending
  · let v : World := { w with pending := w.pending.erase e.op }
    have hafter : AfterHead v e (handle v e) :=
      handle_afterHead (w := v) hdone e
    have htwin : Twin (handle v e) (handle (rearm state start v) e) :=
      handle_twin (w := v) ⟨state, start, rfl⟩ hdone e
    exact Or.inr ⟨_, _, if_pos h, if_pos h, htwin, hafter.done, hafter.partialParsedServer,
      hafter.writes, hafter.down⟩
  · exact Or.inl ⟨if_neg h, if_neg h⟩

/-- What has been written to the client when the events are over: every read up to the end or
to the shutdown, each once, whole and in order. -/
def Relayed (w : World) (es : List Event) : Prop :=
  ∃ before after, es = before ++ after ∧
    clientWrites (follow step w es).trace = clientWrites w.trace ++ chunksRead before ∧
    (after = [] ∨ (follow step w before).conn.isShuttingDown_ = true)

/-- Once the connection is shut down, nothing more is written. -/
theorem writes_of_down (es : List Event) :
    ∀ {w : World}, w.conn.responseParser_ = .HttpHeadersDone → w.conn.isShuttingDown_ = true →
      clientWrites (follow step w es).trace = clientWrites w.trace := by
  induction es with
  | nil => intro w _ _; rfl
  | cons e es ih =>
    intro w hdone hdown
    rcases step_twin (.refl w) hdone e with ⟨hs, -⟩ | ⟨v, -, hs, -, -, hafter⟩
    · rw [follow_cons_none hs]
    · rw [follow_cons_some hs, ih hafter.done (hafter.down hdown), hafter.writes, if_pos hdown,
        List.append_nil]

/-- **Every read of a run is written to the client.** -/
theorem relayed_of_possible (es : List Event) :
    ∀ {w : World}, w.conn.responseParser_ = .HttpHeadersDone → possible step w es = true →
      Relayed w es := by
  induction es with
  | nil => intro w _ _; exact ⟨[], [], rfl, by simp [chunksRead], Or.inl rfl⟩
  | cons e es ih =>
    intro w hdone hposs
    rcases step_twin (.refl w) hdone e with ⟨hs, -⟩ | ⟨v, -, hs, -, -, hafter⟩
    · simp [possible, hs] at hposs
    · by_cases hdown : w.conn.isShuttingDown_ = true
      · exact ⟨[], e :: es, rfl, by simpa [chunksRead] using writes_of_down (e :: es) hdone hdown,
          Or.inr hdown⟩
      · have hrest : possible step v es = true := by simpa [possible, hs] using hposs
        obtain ⟨before, after, rfl, hwrites, hend⟩ := ih hafter.done hrest
        refine ⟨e :: before, after, rfl, ?_, ?_⟩
        · rw [follow_cons_some hs, hwrites, hafter.writes, if_neg hdown,
            chunksRead_cons e before, List.append_assoc]
        · rw [follow_cons_some hs]
          exact hend

/-- **Twins run in step**, and neither touches the accumulator. -/
theorem follow_twin (es : List Event) :
    ∀ {w w' : World}, Twin w w' → w.conn.responseParser_ = .HttpHeadersDone →
      possible step w es = possible step w' es ∧ Twin (follow step w es) (follow step w' es) ∧
        (follow step w es).conn.partialParsedServer_ = w.conn.partialParsedServer_ := by
  induction es with
  | nil => intro w w' ht _; exact ⟨rfl, ht, rfl⟩
  | cons e es ih =>
    intro w w' ht hdone
    rcases step_twin ht hdone e with ⟨hs, hs'⟩ | ⟨v, v', hs, hs', htv, hafter⟩
    · rw [follow_cons_none hs, follow_cons_none hs', possible, possible, hs, hs']
      exact ⟨rfl, ht, rfl⟩
    · obtain ⟨hposs, htwin, hpartial⟩ := ih htv hafter.done
      rw [follow_cons_some hs, follow_cons_some hs', possible, possible, hs, hs']
      exact ⟨hposs, htwin, hpartial.trans hafter.partialParsedServer⟩

/-- **The two response states agree once the head is done.**  Take any connection whose
response parser is in `HttpHeadersDone`, put it into either state with any start iterator, and
let any events complete.  The same events are possible; after them the two connections are equal
but for the two fields, so that the same operations have been started and the shutdown came at
the same step; the accumulator is what it was; and every read up to a shutdown has been written
to the client once, whole and in order. -/
theorem response_states_agree (w : World) (hdone : w.conn.responseParser_ = .HttpHeadersDone)
    (n m : Nat) (es : List Event) :
    let a := rearm .ReadUntilBody n w
    let b := rearm .Body m w
    possible step a es = possible step b es ∧ Twin (follow step a es) (follow step b es) ∧
      (follow step a es).conn.partialParsedServer_ = w.conn.partialParsedServer_ ∧
      (follow step b es).conn.partialParsedServer_ = w.conn.partialParsedServer_ ∧
      (possible step a es = true → Relayed a es ∧ Relayed b es) := by
  intro a b
  have htwin : Twin a b := ⟨.Body, m, rfl⟩
  obtain ⟨hposs, hfollow, hpartial⟩ := follow_twin es htwin hdone
  have hpartial' := (follow_twin es (.refl b) hdone).2.2
  refine ⟨hposs, hfollow, hpartial, hpartial', fun h => ⟨?_, ?_⟩⟩
  · exact relayed_of_possible es hdone h
  · exact relayed_of_possible es hdone (hposs ▸ h)

/-- The head of a response and the beginning of its body, in one read. -/
def headAndBody : Chunk := ⟨ascii "HTTP/1.0 200 OK\r\n\r\nhello", by decide, by decide⟩

/-- A second read, and the end of the response. -/
def restOfBody : List Event :=
  [.clientWrite headAndBody.bytes false, .serverRead (some ⟨ascii "world", by decide, by decide⟩),
    .clientWrite (ascii "world") false, .serverRead none]

theorem response_states_agree_restOfBody :
    let w := follow step fresh (untilWritten ++ [.serverRead (some headAndBody)])
    let a := rearm .ReadUntilBody 0 w
    let b := rearm .Body 1024 w
    possible step a restOfBody = possible step b restOfBody ∧
      Twin (follow step a restOfBody) (follow step b restOfBody) ∧
      (follow step a restOfBody).conn.partialParsedServer_ = w.conn.partialParsedServer_ ∧
      (follow step b restOfBody).conn.partialParsedServer_ = w.conn.partialParsedServer_ ∧
      (possible step a restOfBody = true → Relayed a restOfBody ∧ Relayed b restOfBody) :=
  response_states_agree _ (by decide +kernel) 0 1024 restOfBody

end HttpConnection

end TwoProxy
