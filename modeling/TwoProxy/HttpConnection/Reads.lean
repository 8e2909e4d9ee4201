/-
# One read, against the automata

`HandleBrowserReadHeaders` is four `case`s that fall through into each other, each with its
own call to `ParseUntil` and its own bookkeeping.  What a whole invocation does is simpler:
it feeds the bytes it can reach to `RequestParser.lexer`.

* `InStep` is the relation between a connection and a tokenisation: same automaton state,
  same unfinished token, and the tokens ended so far stored where the handler puts them.
* `ReadResult` says what a read leads to, in the three cases of `Lexer.Progress`.
* `HandleBrowserReadHeaders_spec` is the refinement, for every state that is in step and
  every pair of iterators.

A server read is one call to `ResponseParser::ParseUntil`, and everything it leads to is
decided by whether that call refuses the bytes between the iterators
(`HandleServerRead_spec`).
-/
import TwoProxy.HttpConnection

namespace TwoProxy

namespace HttpConnection

open RequestParser (lexer stageEnd Before)
open RequestParser.StateType
open Lexer (Lexing Progress)

abbrev RequestLexing := Lexing RequestParser.StateType Byte

abbrev RequestProgress := Progress RequestParser.StateType Byte

/-! ## 1. The relation -/

/-- The stop state of a `case`. -/
def stopOf : ClientRequestState → RequestParser.StateType
  | .Method => MethodDone
  | .Uri => UriDone
  | .Version => VersionDone
  | .Headers => HeadersDone

/-- The tokens that have been ended when a `case` is entered; the version is not kept. -/
def Stored (m : BasicMessage) : ClientRequestState → List (RequestParser.StateType × Bytes) → Prop
  | .Method, tokens => tokens = []
  | .Uri, tokens => tokens = [(MethodDone, m.method_)]
  | .Version, tokens => tokens = [(MethodDone, m.method_), (UriDone, m.destination_)]
  | .Headers, tokens => ∃ version,
      tokens = [(MethodDone, m.method_), (UriDone, m.destination_), (VersionDone, version)]

/-- The connection `c`, about to run the `case` `stage`, is where the tokenisation `l` is. -/
structure InStep (stage : ClientRequestState) (c : HttpConnection) (l : RequestLexing) :
    Prop where
  state : c.parser_ = l.state
  part : c.partialParsed_ = l.part
  before : Before (stopOf stage) l.state
  stored : Stored c.message_ stage l.tokens

/-- The fields that the request side leaves alone. -/
structure RequestOnly (c c' : HttpConnection) : Prop where
  isOpened : c'.isOpened = c.isOpened
  fServer : c'.fServer = c.fServer
  fPort : c'.fPort = c.fPort
  fReq : c'.fReq = c.fReq
  bbuffer : c'.bbuffer = c.bbuffer
  sbuffer : c'.sbuffer = c.sbuffer
  partialParsedServer : c'.partialParsedServer_ = c.partialParsedServer_
  newServerReadStart : c'.newServerReadStart_ = c.newServerReadStart_
  serverResponseState : c'.serverResponseState_ = c.serverResponseState_
  responseParser : c'.responseParser_ = c.responseParser_
  isShuttingDown : c'.isShuttingDown_ = c.isShuttingDown_

theorem RequestOnly.trans {c c' c'' : HttpConnection} (h : RequestOnly c c')
    (h' : RequestOnly c' c'') : RequestOnly c c'' where
  isOpened := h'.isOpened.trans h.isOpened
  fServer := h'.fServer.trans h.fServer
  fPort := h'.fPort.trans h.fPort
  fReq := h'.fReq.trans h.fReq
  bbuffer := h'.bbuffer.trans h.bbuffer
  sbuffer := h'.sbuffer.trans h.sbuffer
  partialParsedServer := h'.partialParsedServer.trans h.partialParsedServer
  newServerReadStart := h'.newServerReadStart.trans h.newServerReadStart
  serverResponseState := h'.serverResponseState.trans h.serverResponseState
  responseParser := h'.responseParser.trans h.responseParser
  isShuttingDown := h'.isShuttingDown.trans h.isShuttingDown

theorem RequestOnly.memory {c c' : HttpConnection} (h : RequestOnly c c') :
    c'.memory = c.memory := by
  rw [HttpConnection.memory, HttpConnection.memory, h.bbuffer, h.sbuffer]

/-- The bytes that a read of `len` bytes makes the parser look at. -/
def reachable (c : HttpConnection) (len : Nat) : Bytes :=
  Scan.available c.memory c.newStart_ len

/-- The error lines of the request side. -/
def IsRequestError : ErrorLine → Prop
  | .processingMethod | .processingUri | .processingHttpVersion | .processingHttpHeaders => True
  | _ => False

/-- The connection with a complete head, about to run `StartConnect`. -/
structure HeadOf (c : HttpConnection) (tokens : List (RequestParser.StateType × Bytes)) :
    Prop where
  tokens : ∃ version, tokens = [(MethodDone, c.message_.method_),
    (UriDone, c.message_.destination_), (VersionDone, version), (HeadersDone, c.reqHeaders_)]

/-- `StartConnect`, and what `case Headers` does after it. -/
def connectAndClear (w : World) : World :=
  if (StartConnect w).escaped then StartConnect w
  else { StartConnect w with conn := { (StartConnect w).conn with partialParsed_ := [] } }

/-- What a read of `len` bytes leads to, from `w`, when it takes the tokenisation to `p`.  A
tokenisation that is still reading asks for more bytes if the iterators are in order, and
leaves the buffers if they are not. -/
def ReadResult (len : Nat) (w : World) : RequestProgress → World → Prop
  | .refused, w' =>
    ∃ c line, RequestOnly w.conn c ∧ IsRequestError line ∧ w' = ({ w with conn := c }).log line
  | .complete tokens _, w' =>
    ∃ c, RequestOnly w.conn c ∧ HeadOf c tokens ∧ w' = connectAndClear { w with conn := c }
  | .reading l, w' =>
    ∃ c, RequestOnly w.conn c ∧
      ((w.conn.newStart_ ≤ len ∧ InStep c.clientRequestState_ c l ∧
          (c.newStart_ = if reachable w.conn len ≠ [] ∧ lexer.cut l.state = true then len
            else 0) ∧
          w' = ReadMoreFromBrowser { w with conn := c }) ∨
        (len < w.conn.newStart_ ∧ w' = ({ w with conn := c }).outOfRange))

/-- A `case` does what feeding the reachable bytes says. -/
def CaseSpec (stage : ClientRequestState) (f : Nat → World → World × List ParseCall) : Prop :=
  ∀ (len : Nat) (w : World) (l : RequestLexing),
    InStep stage w.conn l → w.conn.newStart_ ≤ w.conn.memory.length →
      len ≤ w.conn.memory.length →
      ReadResult len w (lexer.feed l (reachable w.conn len)) (f len w).1

/-! ## 2. The cases, from the last one up -/

theorem reachable_used {c : HttpConnection} {len n : Nat} (hn : n ≤ (reachable c len).length) :
    c.memory.extract c.newStart_ (c.newStart_ + n) = (reachable c len).take n :=
  Scan.take_available hn

/-- In order, the reachable bytes are the ones between the two iterators. -/
theorem reachable_length {c : HttpConnection} {len : Nat} (h : c.newStart_ ≤ len)
    (hlen : len ≤ c.memory.length) : (reachable c len).length = len - c.newStart_ := by
  rw [reachable, Scan.available_of_le h, List.extract_eq_take_drop, List.length_take,
    List.length_drop]
  omega

/-- What is left to a `case` after the one above it has used `n` bytes. -/
theorem reachable_advance {c c' : HttpConnection} {len n : Nat} (hm : c'.memory = c.memory)
    (hs : c'.newStart_ = c.newStart_ + n) (hn : n ≤ (reachable c len).length)
    (hstart : c.newStart_ ≤ c.memory.length) (hlen : len ≤ c.memory.length) :
    reachable c' len = (reachable c len).drop n ∧ c'.newStart_ ≤ c'.memory.length ∧
      (c.newStart_ ≤ len ↔ c'.newStart_ ≤ len) := by
  have hbound : (reachable c len).length ≤ c.memory.length - c.newStart_ := by
    rw [reachable, Scan.available, Scan.reach]
    split <;> simp only [List.length_take, List.length_drop] <;> omega
  have horder : c.newStart_ ≤ len → c.newStart_ + n ≤ len := fun hle => by
    have := reachable_length hle hlen
    omega
  refine ⟨?_, by rw [hm, hs]; omega, ?_⟩
  · rw [reachable, reachable, hm, hs]
    exact (Scan.available_drop horder).symm
  · rw [hs]
    exact ⟨horder, fun hle => by omega⟩

theorem parseCall_result (stop : RequestParser.StateType) (len : Nat) (c : HttpConnection) :
    (parseCall stop len c).result =
      RequestParser.ParseUntil stop c.memory (c.newStart_, len) c.parser_ := rfl

/-- What the call to `ParseUntil` in a `case` returns, and what that says of the
tokenisation.  `token` is the copy the `case` makes: the unfinished token and the range. -/
inductive Call (stage : ClientRequestState) (c : HttpConnection) (len : Nat)
    (l : RequestLexing) : Option (Scan.Parsed RequestParser.StateType) → Prop
  | leaves (l' : RequestLexing) (inverted : len < c.newStart_)
      (feed : lexer.feed l (reachable c len) = .reading l') : Call stage c len l none
  | failed (t : RequestParser.StateType) (second : Nat)
      (feed : lexer.feed l (reachable c len) = .refused) :
      Call stage c len l (some ⟨.ParsedFailed, t, c.newStart_, second⟩)
  | ok (n : Nat) (used : 0 < n) (le : n ≤ (reachable c len).length)
      (token : c.partialParsed_ ++ c.memory.extract c.newStart_ (c.newStart_ + n)
        = l.part ++ (reachable c len).take n)
      (accepts : (Scan.scan lexer.next (stopOf stage) l.state (reachable c len)).verdict
        = .ParsedOK)
      (uses : (Scan.scan lexer.next (stopOf stage) l.state (reachable c len)).used = n) :
      Call stage c len l (some ⟨.ParsedOK, stopOf stage, c.newStart_, c.newStart_ + n⟩)
  | indeterminate (t : RequestParser.StateType) (second : Nat) (inOrder : c.newStart_ ≤ len)
      (token : c.partialParsed_ ++ c.memory.extract c.newStart_ second
        = l.part ++ reachable c len)
      (before : Before (stopOf stage) t) (cut : reachable c len ≠ [] → lexer.cut t = false)
      (feed : lexer.feed l (reachable c len)
        = .reading ⟨t, l.tokens, l.part ++ reachable c len⟩) :
      Call stage c len l (some ⟨.Indeterminate, t, c.newStart_, second⟩)

theorem call_spec {stage : ClientRequestState} {c : HttpConnection} {len : Nat}
    {l : RequestLexing} (hin : InStep stage c l) (hstart : c.newStart_ ≤ c.memory.length)
    (hlen : len ≤ c.memory.length) :
    Call stage c len l (parseCall (stopOf stage) len c).result := by
  have hS := RequestParser.stage_before (stopOf stage)
  have hne : l.state ≠ stopOf stage := hS.ne_stop _ hin.before
  rw [parseCall_result, hin.state]
  rcases RequestParser.ParseUntil_cases (stopOf stage) l.state hstart hlen with
    ⟨hp, hlt, hv⟩ | ⟨r, hr, hp, hle⟩
  · obtain ⟨-, -, hf⟩ := hS.feed_indeterminate _ hin.before hv
    rw [hp]
    exact .leaves _ hlt hf
  · rw [hp]
    change r = Scan.scan lexer.next (stopOf stage) l.state (reachable c len) at hr
    have hused : r.used ≤ (reachable c len).length := hr ▸ Scan.scan_used_le _ _
    have htok : c.partialParsed_ ++ c.memory.extract c.newStart_ (c.newStart_ + r.used)
        = l.part ++ (reachable c len).take r.used := by
      rw [reachable_used hused, hin.part]
    cases hrv : r.verdict with
    | ParsedFailed => exact .failed _ _ (hS.feed_refused _ hin.before (hr ▸ hrv))
    | ParsedOK =>
      have hst : r.state = stopOf stage := by
        rw [hr] at hrv ⊢
        exact Scan.scan_state_of_ok hrv
      rw [hst]
      have hpos : 0 < r.used := hr ▸ Scan.scan_used_pos_of_ok (hr ▸ hrv)
      exact .ok r.used hpos hused htok (hr ▸ hrv) (hr ▸ rfl)
    | Indeterminate =>
      obtain ⟨h1, h2, hf⟩ := hS.feed_indeterminate _ hin.before (hr ▸ hrv)
      have hu := (Scan.scan_of_indeterminate hne (hr ▸ hrv)).2
      rw [← hr] at h1 h2 hf hu
      refine .indeterminate _ _ (hle hrv hne) ?_ h1 h2 hf
      rw [htok, hu, List.take_length]

/-- **`case Headers`.** -/
theorem caseHeaders_spec : CaseSpec .Headers caseHeaders := by
  intro len w l hin hstart hlen
  have hcall := call_spec hin hstart hlen
  unfold caseHeaders
  dsimp only
  rw [stopOf] at hcall
  revert hcall
  generalize (parseCall HeadersDone len w.conn).result = result
  intro hcall
  cases hcall with
  | leaves l' inverted feed =>
    rw [feed]
    exact ⟨w.conn, by constructor <;> rfl, Or.inr ⟨inverted, rfl⟩⟩
  | failed t second feed =>
    rw [feed]
    exact ⟨_, .processingHttpHeaders, by constructor <;> rfl, trivial, rfl⟩
  | ok n used le token accepts uses =>
    obtain ⟨version, hstored⟩ := hin.stored
    rw [stopOf] at accepts uses
    rw [(RequestParser.stage_before HeadersDone).feed_final _ hin.before accepts]
    refine ⟨_, by constructor <;> rfl, ⟨version, ?_⟩, rfl⟩
    dsimp only
    rw [hstored, token, RequestParser.lexer_final, uses]
    rfl
  | indeterminate t second inOrder token before cut feed =>
    rw [feed]
    refine ⟨_, by constructor <;> rfl, Or.inl ⟨inOrder, ⟨rfl, token, before, hin.stored⟩, ?_, rfl⟩⟩
    rw [if_neg (fun h => by simp [cut h.1] at h)]

/-- What a `case` leads to is what the one above it leads to, when that one falls through
with bytes to spare. -/
theorem ReadResult.of_fallThrough {len : Nat} {w : World} {c : HttpConnection}
    {p : RequestProgress} {w' : World} (honly : RequestOnly w.conn c)
    (horder : w.conn.newStart_ ≤ len ↔ c.newStart_ ≤ len)
    (hne : c.newStart_ ≤ len → reachable w.conn len ≠ [] ∧ reachable c len ≠ [])
    (h : ReadResult len { w with conn := c } p w') : ReadResult len w p w' := by
  cases p with
  | refused =>
    obtain ⟨c', line, h1, h2, h3⟩ := h
    exact ⟨c', line, honly.trans h1, h2, h3⟩
  | complete tokens rest =>
    obtain ⟨c', h1, h2, h3⟩ := h
    exact ⟨c', honly.trans h1, h2, h3⟩
  | reading l =>
    obtain ⟨c', h1, h2⟩ := h
    refine ⟨c', honly.trans h1, ?_⟩
    rcases h2 with ⟨hle, hin, hstart, hw⟩ | ⟨hlt, hw⟩
    · obtain ⟨h3, h4⟩ := hne hle
      refine Or.inl ⟨horder.mpr hle, hin, ?_, hw⟩
      rw [hstart]
      simp only [h3, h4, ne_eq, not_false_eq_true, true_and]
    · dsimp only at hlt
      exact Or.inr ⟨by omega, hw⟩

/-- The connection after a `case` has stored its token, `n` bytes further on. -/
def tokenStored (stopState : RequestParser.StateType)
    (store : Bytes → BasicMessage → BasicMessage) (token : Bytes) (n : Nat) (c : HttpConnection) :
    HttpConnection :=
  { c with
    parser_ := stopState
    message_ := store token c.message_
    newStart_ := c.newStart_ + n
    partialParsed_ := [] }

theorem tokenStored_only (stopState : RequestParser.StateType)
    (store : Bytes → BasicMessage → BasicMessage) (token : Bytes) (n : Nat) (c : HttpConnection) :
    RequestOnly c (tokenStored stopState store token n c) := by
  constructor <;> rfl

/-- The `case` below is in step with what is left. -/
theorem InStep.tokenStored {stage nextStage : ClientRequestState} {c : HttpConnection}
    {l : RequestLexing} {store : Bytes → BasicMessage → BasicMessage} (hin : InStep stage c l)
    (hnext : Before (stopOf nextStage) (stopOf stage))
    (hstore : ∀ m token tokens, Stored m stage tokens →
      Stored (store token m) nextStage (tokens ++ [(stopOf stage, token)]))
    (token : Bytes) (n : Nat) :
    InStep nextStage (tokenStored (stopOf stage) store token n c)
      ⟨stopOf stage, l.tokens ++ [(stopOf stage, token)], []⟩ :=
  ⟨rfl, rfl, hnext, hstore _ _ _ hin.stored⟩

/-- **A `case` that falls through**, given what the `case` below it does. -/
theorem tokenCase_spec {stage nextStage : ClientRequestState} {line : ErrorLine}
    {store : Bytes → BasicMessage → BasicMessage}
    {fallThrough : Nat → World → World × List ParseCall}
    (hcut : lexer.cut (stopOf stage) = true) (hfin : stopOf stage ≠ HeadersDone)
    (hline : IsRequestError line) (hnext : Before (stopOf nextStage) (stopOf stage))
    (hstore : ∀ m token tokens, Stored m stage tokens →
      Stored (store token m) nextStage (tokens ++ [(stopOf stage, token)]))
    (hfall : CaseSpec nextStage fallThrough) :
    CaseSpec stage (tokenCase (stopOf stage) stage nextStage line store fallThrough) := by
  intro len w l hin hstart hlen
  have hcall := call_spec hin hstart hlen
  unfold tokenCase
  dsimp only
  revert hcall
  generalize (parseCall (stopOf stage) len w.conn).result = result
  intro hcall
  cases hcall with
  | leaves l' inverted feed =>
    rw [feed]
    exact ⟨w.conn, by constructor <;> rfl, Or.inr ⟨inverted, rfl⟩⟩
  | failed t second feed =>
    rw [feed]
    exact ⟨_, line, by constructor <;> rfl, hline, rfl⟩
  | ok n used le token accepts uses =>
    have hS := RequestParser.stage_before (stopOf stage)
    rw [hS.feed_cut hcut hfin _ hin.before accepts, uses]
    dsimp only
    rw [token]
    have hin' := hin.tokenStored hnext hstore (l.part ++ (reachable w.conn len).take n) n
    set c := tokenStored (stopOf stage) store (l.part ++ (reachable w.conn len).take n) n w.conn
    have honly : RequestOnly w.conn c := tokenStored_only _ _ _ _ _
    obtain ⟨hrest, hbound, horder⟩ := reachable_advance honly.memory rfl le hstart hlen
    have hne : reachable w.conn len ≠ [] := by
      intro h
      rw [h] at le
      exact absurd le (by simp only [List.length_nil]; omega)
    rw [← hrest]
    by_cases hend : w.conn.newStart_ + n = len
    · -- the token ends exactly where the read ends
      rw [if_pos hend]
      have hnil : reachable c len = [] := by
        rw [reachable, Scan.available, show c.newStart_ = len from hend, Scan.reach_self]
      rw [hnil, Lexer.feed_nil]
      refine ⟨{ c with clientRequestState_ := nextStage }, by constructor <;> rfl,
        Or.inl ⟨by omega, ⟨hin'.state, hin'.part, hin'.before, hin'.stored⟩, ?_, rfl⟩⟩
      rw [if_pos ⟨hne, hcut⟩]
      exact hend
    · rw [if_neg hend]
      refine ReadResult.of_fallThrough honly horder (fun hle => ⟨hne, ?_⟩)
        (hfall len { w with conn := c } _ hin' hbound (by rw [honly.memory]; exact hlen))
      have h3 : c.newStart_ < len := lt_of_le_of_ne hle hend
      have h4 := reachable_length (c := c) hle (by rw [honly.memory]; exact hlen)
      intro h5
      rw [h5, List.length_nil] at h4
      omega
  | indeterminate t second inOrder token before cut feed =>
    rw [feed]
    refine ⟨_, by constructor <;> rfl, Or.inl ⟨inOrder, ⟨rfl, token, before, hin.stored⟩, ?_, rfl⟩⟩
    rw [if_neg (fun h => by simp [cut h.1] at h)]

theorem caseVersion_spec : CaseSpec .Version caseVersion := by
  refine tokenCase_spec (by decide) (by decide) trivial (by decide) ?_ caseHeaders_spec
  rintro m token _ rfl
  exact ⟨token, rfl⟩

theorem caseUri_spec : CaseSpec .Uri caseUri := by
  refine tokenCase_spec (by decide) (by decide) trivial (by decide) ?_ caseVersion_spec
  rintro m token _ rfl
  rfl

theorem caseMethod_spec : CaseSpec .Method caseMethod := by
  refine tokenCase_spec (by decide) (by decide) trivial (by decide) ?_ caseUri_spec
  rintro m token _ rfl
  rfl

/-! ## 3. The handler -/

/-- **A successful browser read feeds the bytes it can reach**, whatever `case` it enters. -/
theorem HandleBrowserReadHeaders_spec (len : Nat) {w : World} {l : RequestLexing}
    (hrun : w.conn.isShuttingDown_ = false)
    (hin : InStep w.conn.clientRequestState_ w.conn l)
    (hstart : w.conn.newStart_ ≤ w.conn.memory.length) (hlen : len ≤ w.conn.memory.length) :
    ReadResult len w (lexer.feed l (reachable w.conn len))
      (HandleBrowserReadHeaders false len w).1 := by
  have hgo : (!false && !IsStopped w) = true := by simp [IsStopped, hrun]
  rw [HandleBrowserReadHeaders, if_pos hgo]
  cases hs : w.conn.clientRequestState_ with
  | Method => exact caseMethod_spec len w l (hs ▸ hin) hstart hlen
  | Uri => exact caseUri_spec len w l (hs ▸ hin) hstart hlen
  | Version => exact caseVersion_spec len w l (hs ▸ hin) hstart hlen
  | Headers => exact caseHeaders_spec len w l (hs ▸ hin) hstart hlen

/-! ## 4. Server reads -/

/-- The bytes that a server read of `len` bytes makes the parser look at. -/
def answered (c : HttpConnection) (len : Nat) : Bytes :=
  c.memory.extract c.newServerReadStart_ (1024 + len)

/-- The response parser refuses them. -/
def Refuses (c : HttpConnection) (len : Nat) : Prop :=
  c.serverResponseState_ = .ReadUntilBody ∧
    (Scan.scan ResponseParser.next .HttpHeadersDone c.responseParser_ (answered c len)).verdict
      = .ParsedFailed

/-- The state of the response parser after a server read. -/
def answerState (c : HttpConnection) (len : Nat) : ResponseParser.StateType :=
  match c.serverResponseState_ with
  | .ReadUntilBody =>
    (Scan.scan ResponseParser.next .HttpHeadersDone c.responseParser_ (answered c len)).state
  | .Body => c.responseParser_

/-- The fields that the response side leaves alone. -/
structure ResponseOnly (c c' : HttpConnection) : Prop where
  message : c'.message_ = c.message_
  reqHeaders : c'.reqHeaders_ = c.reqHeaders_
  fReq : c'.fReq = c.fReq
  bbuffer : c'.bbuffer = c.bbuffer
  sbuffer : c'.sbuffer = c.sbuffer
  isShuttingDown : c'.isShuttingDown_ = c.isShuttingDown_

/-- **A successful server read** forwards the whole read or, when the bytes are refused,
forwards nothing. -/
theorem HandleServerRead_spec (len : Nat) {w : World}
    (hrun : w.conn.isShuttingDown_ = false)
    (hstart : w.conn.newServerReadStart_ ≤ 1024) (hlen : 1024 + len ≤ w.conn.memory.length) :
    (Refuses w.conn len ∧ ∃ c, ResponseOnly w.conn c ∧
        HandleServerRead false len w = ({ w with conn := c }).log .processingReadUntilBody) ∨
      (¬ Refuses w.conn len ∧ ∃ c, ResponseOnly w.conn c ∧
        c.responseParser_ = answerState w.conn len ∧
        (c.serverResponseState_ = .Body → w.conn.serverResponseState_ = .Body ∨
          c.responseParser_ = .HttpHeadersDone) ∧
        HandleServerRead false len w = SendDataToClient len { w with conn := c }) := by
  have hgo : (!false && !IsStopped w) = true := by simp [IsStopped, hrun]
  rw [HandleServerRead, if_pos hgo]
  cases hs : w.conn.serverResponseState_ with
  | Body =>
    refine Or.inr ⟨fun h => by simp [Refuses, hs] at h, w.conn, by constructor <;> rfl, ?_,
      fun _ => Or.inl rfl, rfl⟩
    simp [answerState, hs]
  | ReadUntilBody =>
    obtain ⟨start, hp⟩ := ResponseParser.ParseUntil_of_le .HttpHeadersDone w.conn.responseParser_
      (show w.conn.newServerReadStart_ ≤ 1024 + len by omega) hlen
    dsimp only
    rw [caseReadUntilBody, hp]
    dsimp only
    generalize hr : Scan.scan ResponseParser.next .HttpHeadersDone w.conn.responseParser_
      (w.conn.memory.extract w.conn.newServerReadStart_ (1024 + len)) = r
    have hstate : answerState w.conn len = r.state := by
      rw [← hr]
      simp [answerState, hs, answered]
    have hverdict : Refuses w.conn len ↔ r.verdict = .ParsedFailed := by
      rw [← hr]
      simp [Refuses, hs, answered]
    rw [hverdict, hstate]
    cases hv : r.verdict with
    | ParsedFailed => exact Or.inl ⟨rfl, _, by constructor <;> rfl, rfl⟩
    | ParsedOK =>
      have hdone : r.state = .HttpHeadersDone := by
        rw [← hr] at hv ⊢
        exact Scan.scan_state_of_ok hv
      refine Or.inr ⟨by simp, ?_⟩
      dsimp only
      split
      · exact ⟨_, by constructor <;> rfl, rfl, fun _ => Or.inr hdone, rfl⟩
      · exact ⟨_, by constructor <;> rfl, rfl, fun _ => Or.inr hdone, rfl⟩
    | Indeterminate =>
      exact Or.inr ⟨by simp, _, by constructor <;> rfl, rfl, fun h => by simp at h, rfl⟩

end HttpConnection

end TwoProxy
