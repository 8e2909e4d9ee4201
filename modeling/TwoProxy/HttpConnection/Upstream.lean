/-
# The request sent upstream

`StartWriteToServer` prints the three stored tokens.  Each of them still holds the separator
that ended it, since a stage's range includes it and the `trim`s are marked as to be done.

* The printer adds a blank after the method and one before `HTTP/`, so the request sent is
  never the one received, and no parser of the same kind takes it (`never_round_trip`).
* The separator of the method may be any of six space characters, carriage return and line
  feed among them.  Everywhere else the automaton admits the two in line ends only, so the
  request sent has the line structure of the one parsed exactly if that one byte, the first
  of the stream that is not an upper-case letter, is neither (`lineClean_iff`).

Both rest on `sent_of_reaches`: whatever is sent is printed from the tokens of a complete
head, and its method is the beginning of the stream, however the stream was cut.
-/
import TwoProxy.HttpConnection.Relay
import TwoProxy.Lib.Lines

namespace TwoProxy

namespace HttpConnection

open RequestParser (lexer)
open RequestParser.StateType
open Lexer (Lexing Progress)
open Transition

/-! ## 1. What has been received, and what is sent -/

/-- The bytes of the browser reads. -/
def clientStream (es : List Event) : Bytes :=
  es.flatMap fun
    | .browserRead (some c) => c.bytes
    | _ => []

@[simp] theorem clientStream_concat (es : List Event) (e : Event) :
    clientStream (es ++ [e]) = clientStream es ++ clientStream [e] :=
  List.flatMap_append

/-- No write to the server has been started. -/
def NothingSent (w : World) : Prop := ∀ b, .start (.serverWrite b) ∉ w.trace

/-- The method is the beginning of the stream.  While it is being read, `newStart_` is at
the start of the buffer, and no cut is lost on it. -/
structure MethodFrom (stream : Bytes) (w : World) (l : RequestLexing) : Prop where
  start : l.tokens = [] → w.conn.newStart_ = 0 ∧ l.part = stream
  method : ∀ t tok toks, l.tokens = (t, tok) :: toks → tok <+: stream

/-- What a connection sends is printed from the tokens of a head whose method is the
beginning of the stream. -/
structure Sends (stream : Bytes) (hd : Head) (w : World) : Prop where
  head : ∃ tokens, hd.Is tokens ∧ Lexer.Linked lexer MethodStart tokens
  method : hd.method <+: stream
  sends : SendsOnly hd w.trace

/-- The stream received so far, against the state. -/
inductive Received (stream : Bytes) (w : World) : Prop
  | reading (l : RequestLexing) (h : Reading w l) (linked : Lexer.WellLinked lexer MethodStart l)
      (method : MethodFrom stream w l)
  | serving (hd : Head) (h : Serving hd w) (sends : Sends stream hd w)
  | served (hd : Head) (ended : w.pending = []) (sends : Sends stream hd w)
  | unsent (ended : w.pending = []) (nothing : NothingSent w)

theorem Reading.nothingSent {w : World} {l : RequestLexing} (h : Reading w l) : NothingSent w :=
  fun _ hb => absurd (h.quiet _ hb) (by simp)

theorem NothingSent.append {w w' : World} (h : NothingSent w) {actions : List Action}
    (ht : w'.trace = w.trace ++ actions) (ha : ∀ b, .start (.serverWrite b) ∉ actions) :
    NothingSent w' := by
  intro b hb
  rw [ht, List.mem_append] at hb
  rcases hb with hb | hb
  · exact h b hb
  · exact ha b hb

/-- The token under way when the first one is not complete is inside the method. -/
theorem Reading.cut_eq_false {w : World} {l : RequestLexing} (h : Reading w l)
    (htok : l.tokens = []) : lexer.cut l.state = false := by
  have hin := h.inStep
  cases hs : w.conn.clientRequestState_ with
  | Method =>
    rw [hs] at hin
    obtain ⟨hne, hend⟩ := hin.before
    rw [stopOf] at hend
    generalize l.state = s at hne hend
    cases s <;> first | rfl | (exact absurd hend (by decide))
  | Uri => rw [hs] at hin; have := hin.stored; rw [htok] at this; cases this
  | Version => rw [hs] at hin; have := hin.stored; rw [htok] at this; cases this
  | Headers => rw [hs] at hin; obtain ⟨v, this⟩ := hin.stored; rw [htok] at this; cases this

/-- The first token of what a read leads to is the beginning of the stream. -/
theorem MethodFrom.isPrefix {stream : Bytes} {w : World} {l : RequestLexing} {data : Chunk}
    (h : MethodFrom stream w l) {tokens : List (RequestParser.StateType × Bytes)} {rest : Bytes}
    (hext : l.tokens <+: tokens)
    (hbytes : l.consumed ++ parsed w.conn data = Lexer.bytesOf tokens ++ rest)
    {t : RequestParser.StateType} {tok : Bytes} {toks : List (RequestParser.StateType × Bytes)}
    (htokens : tokens = (t, tok) :: toks) : tok <+: stream ++ data.bytes := by
  cases htok : l.tokens with
  | nil =>
    obtain ⟨h0, hpart⟩ := h.start htok
    rw [parsed_of_begin h0] at hbytes
    refine ⟨Lexer.bytesOf toks ++ rest, ?_⟩
    rw [← hpart]
    simpa [Lexer.Lexing.consumed, htok, htokens] using hbytes.symm
  | cons p toks' =>
    obtain ⟨t', tok'⟩ := p
    rw [htok, htokens, List.cons_prefix_cons] at hext
    obtain ⟨heq, -⟩ := hext
    obtain ⟨rfl, rfl⟩ := Prod.mk.inj heq
    exact (h.method _ _ _ htok).trans (List.prefix_append _ _)

theorem MethodFrom.continues {stream : Bytes} {w w' : World} {l l' : RequestLexing}
    {data : Chunk} (h : MethodFrom stream w l)
    (hf : lexer.feed l (parsed w.conn data) = .reading l') (hread : Reading w' l')
    (hstart : w'.conn.newStart_ =
      if parsed w.conn data ≠ [] ∧ lexer.cut l'.state = true then data.bytes.length else 0) :
    MethodFrom (stream ++ data.bytes) w' l' := by
  have hext : l.tokens <+: l'.tokens := by
    have := Lexer.feed_extends (L := lexer) (parsed w.conn data) l
    rw [hf] at this
    exact this
  have hbytes := (Lexer.feed_reading_consumed hf).symm
  refine ⟨fun htok => ?_, fun t tok toks htok => h.isPrefix hext hbytes htok⟩
  have hnil : l.tokens = [] := List.prefix_nil.mp (htok ▸ hext)
  obtain ⟨h0, hpart⟩ := h.start hnil
  refine ⟨by rw [hstart, if_neg (by simp [hread.cut_eq_false htok])], ?_⟩
  rw [parsed_of_begin h0] at hbytes
  simpa [Lexer.Lexing.consumed, htok, hnil, hpart] using hbytes.symm

/-- A read, against the stream. -/
theorem ReadTurn.received {stream : Bytes} {w w' : World} {l : RequestLexing} {data : Chunk}
    (h : Reading w l) (hlinked : Lexer.WellLinked lexer MethodStart l)
    (hmethod : MethodFrom stream w l) (hturn : ReadTurn w l data w') :
    Received (stream ++ data.bytes) w' := by
  have hprogress := hlinked.feed (parsed w.conn data)
  cases hturn with
  | refused line feed hst hesc isError trace =>
    exact .unsent hst.pending (h.nothingSent.append trace (by simp))
  | rejected hd tokens rest feed isHead uri hst hesc stored trace =>
    exact .unsent hst.pending (h.nothingSent.append trace (by simp))
  | overruns l' feed inverted hst hesc overrun trace =>
    exact .unsent hst.pending (fun b hb => h.nothingSent b (trace ▸ hb))
  | continues l' feed inOrder hread newStart =>
    rw [feed] at hprogress
    exact .reading l' hread hprogress (hmethod.continues feed hread newStart)
  | connects hd tokens rest feed isHead uri hserv =>
    rw [feed] at hprogress
    refine .serving hd hserv ⟨⟨tokens, isHead, hprogress⟩, ?_, hserv.sends⟩
    have hext : l.tokens <+: tokens := by
      have := Lexer.feed_extends (L := lexer) (parsed w.conn data) l
      rw [feed] at this
      exact this
    obtain ⟨version, htok⟩ := isHead
    exact hmethod.isPrefix hext (Lexer.feed_complete_bytes feed).symm htok

/-- One step keeps the stream and the state together. -/
theorem Received.kept {es : List Event} {w w' : World} {e : Event}
    (h : Received (clientStream es) w) (hs : step w e = some w') :
    Received (clientStream (es ++ [e])) w' := by
  rw [clientStream_concat]
  cases h with
  | reading l h linked method =>
    rcases reading_step h hs with ⟨rfl, hc, htrace⟩ | ⟨data, rfl, hturn⟩
    · exact .unsent hc.pending (h.nothingSent.append htrace (by simp))
    · have hdata : clientStream [.browserRead (some data)] = data.bytes := by simp [clientStream]
      rw [hdata]
      exact hturn.received h linked method
  | serving hd h sends =>
    have hpre : hd.method <+: clientStream es ++ clientStream [e] :=
      sends.method.trans (List.prefix_append _ _)
    cases serving_step h hs with
    | serves accepted hserv => exact .serving hd hserv ⟨sends.head, hpre, hserv.sends⟩
    | closes accepted hc hsends => exact .served hd hc.pending ⟨sends.head, hpre, hsends⟩
    | stalls refused hst hesc hsends => exact .served hd hst.pending ⟨sends.head, hpre, hsends⟩
  | served hd ended sends => exact absurd hs (step_ne_some ended)
  | unsent ended nothing => exact absurd hs (step_ne_some ended)

/-- **Whatever is sent is printed from the tokens of a head**, and its method is the
beginning of the stream. -/
theorem sent_of_reaches {es : List Event} {w : World} {f : Bytes} (h : Reaches es w)
    (hf : .start (.serverWrite f) ∈ w.trace) :
    ∃ hd : Head, f = hd.request ∧ (∃ tokens, hd.Is tokens ∧ Lexer.Linked lexer MethodStart tokens) ∧
      hd.method <+: clientStream es := by
  obtain ⟨bbuffer, sbuffer, newStart_, newServerReadStart_, hrun⟩ := h
  have hreceived : Received (clientStream ([] ++ es)) w := by
    refine hrun.invariant_events (R := fun es w => Received (clientStream es) w)
      (fun _ _ _ _ hi hs => hi.kept hs) [] ?_
    exact .reading _ (started_reading _ _ _ _) (Lexer.wellLinked_start _)
      ⟨fun _ => ⟨rfl, rfl⟩, fun _ _ _ h => by cases h⟩
  rw [List.nil_append] at hreceived
  cases hreceived with
  | reading l h linked method => exact absurd hf (h.nothingSent f)
  | serving hd h sends => exact ⟨hd, sends.sends f hf, sends.head, sends.method⟩
  | served hd ended sends => exact ⟨hd, sends.sends f hf, sends.head, sends.method⟩
  | unsent ended nothing => exact absurd hf (nothing f)

/-! ## 2. Line structure -/

/-- CR and LF as line ends only, and the first empty line at the end. -/
abbrev LineClean (f : Bytes) : Prop := Lines.Clean CR LF f

/-- Where the monitor is when the request parser is in its last stage. -/
def lineState : RequestParser.StateType → Lines.State
  | VersionDone | HeaderLineDone => .lineStart
  | HeaderCr => .afterCr
  | HeadersCr => .blankCr
  | HeadersDone => .done
  | _ => .text

/-- **The monitor follows the header stage**, state by state. -/
theorem headers_step {s t : RequestParser.StateType} {c : Byte}
    (hs : RequestParser.Before HeadersDone s) (h : RequestParser.next s c = some t) :
    Lines.step CR LF (lineState s) c = some (lineState t) := by
  have htext : c ≠ CR ∧ c ≠ LF → Lines.step CR LF .text c = some .text ∧
      Lines.step CR LF .lineStart c = some .text := by
    rintro ⟨h1, h2⟩
    simp [Lines.step, h1, h2]
  have halnum : is_alnum c = true → c ≠ CR ∧ c ≠ LF := ne_lineEnd (by decide) (by decide)
  have hpunct : is_punct c = true → c ≠ CR ∧ c ≠ LF := ne_lineEnd (by decide) (by decide)
  obtain ⟨hne, hend⟩ := hs
  cases s <;> simp only [RequestParser.stageEnd, reduceCtorEq] at hend <;>
    simp only [RequestParser.next] at h <;> (repeat' split at h) <;> cases h <;>
    simp only [lineState]
  case VersionDone.isTrue.refl hc => exact (htext (halnum hc)).2
  case VersionDone.isFalse.isTrue.refl hc => subst hc; rfl
  case HeaderName.isTrue.refl hc => subst hc; rfl
  case HeaderName.isFalse.isTrue.refl hc =>
    rcases (Bool.or_eq_true _ _).mp hc with hc | hc
    · exact (htext (halnum hc)).1
    · exact (htext (hpunct hc)).1
  case HeaderColon.isTrue.refl hc => subst hc; rfl
  case HeaderValue.isTrue.refl hc => subst hc; rfl
  case HeaderValue.isFalse.isFalse.refl hCR hc =>
    refine (htext ⟨hCR, ?_⟩).1
    rintro rfl
    exact hc (by decide)
  case HeaderCr.isTrue.refl hc => subst hc; rfl
  case HeaderLineDone.isTrue.refl hc => subst hc; rfl
  case HeaderLineDone.isFalse.isTrue.refl hc => exact (htext (halnum hc)).2
  case HeadersCr.isTrue.refl hc => subst hc; rfl
  case HeadersDone => exact absurd rfl hne

/-- **The headers are lines**, and the empty line that ends them is the first. -/
theorem headers_path {headers : Bytes}
    (h : lexer.IsToken VersionDone HeadersDone headers) :
    Scan.path (Lines.step CR LF) .lineStart headers = some .done := by
  obtain ⟨init, a, u, rfl, hp, hn, -⟩ := h
  have hstep : ∀ s b t, RequestParser.Before HeadersDone s → lexer.inner s b = some t →
      RequestParser.Before HeadersDone t ∧
        Lines.step CR LF (lineState s) b = some (lineState t) := by
    intro s b t hs hin
    obtain ⟨hn, hf, -⟩ := Lexer.inner_eq_some.mp hin
    refine ⟨⟨hf, ?_⟩, headers_step hs hn⟩
    rcases RequestParser.next_stageEnd hn with rfl | ⟨hst, -, -⟩
    · exact absurd hs.2 hf
    · exact hst.trans hs.2
  obtain ⟨hu, hpath⟩ := Scan.path_simulates (φ := lineState) hstep init
    (show RequestParser.Before HeadersDone VersionDone by decide) hp
  exact Scan.path_concat_eq_some.mpr ⟨_, hpath, headers_step hu hn⟩

/-- The tokens of a head, one by one. -/
theorem Head.Is.tokens {hd : Head} {tokens : List (RequestParser.StateType × Bytes)}
    (h : hd.Is tokens) (hl : Lexer.Linked lexer MethodStart tokens) :
    lexer.IsToken MethodStart MethodDone hd.method ∧
      lexer.IsToken MethodDone UriDone hd.destination ∧
      (∃ version, lexer.IsToken UriDone VersionDone version) ∧
      lexer.IsToken VersionDone HeadersDone hd.headers := by
  obtain ⟨version, rfl⟩ := h
  obtain ⟨h1, h2, h3, h4, -⟩ := hl
  exact ⟨h1, h2, ⟨version, h3⟩, h4⟩

/-- There is no line end in a target. -/
theorem target_ne_lineEnd {destination : Bytes}
    (h : lexer.IsToken MethodDone UriDone destination) : ∀ c ∈ destination, c ≠ CR ∧ c ≠ LF := by
  obtain ⟨target, htarget, -, hclass⟩ := RequestParser.isToken_target h
  intro c hc
  rw [htarget, List.mem_append, List.mem_singleton] at hc
  rcases hc with hc | rfl
  · exact ne_lineEnd (p := fun c => !is_cntrl c) (by decide) (by decide)
      (by simp [(hclass c hc).1])
  · decide

/-- The request line after the method, and the headers. -/
theorem request_path {hd : Head} (hdest : lexer.IsToken MethodDone UriDone hd.destination)
    (hheaders : lexer.IsToken VersionDone HeadersDone hd.headers) :
    Scan.path (Lines.step CR LF) .text (ascii " " ++ hd.destination ++ ascii " HTTP/" ++
      ascii "1.0" ++ ascii "\r\n" ++ hd.headers) = some .done := by
  have hdestination : Scan.path (Lines.step CR LF) .text hd.destination = some .text :=
    Lines.path_text (target_ne_lineEnd hdest)
  have hblank : Scan.path (Lines.step CR LF) .text (ascii " ") = some .text := by decide
  have hversion : Scan.path (Lines.step CR LF) .text
      (ascii " HTTP/" ++ ascii "1.0" ++ ascii "\r\n") = some .lineStart := by decide
  have hassoc : ascii " " ++ hd.destination ++ ascii " HTTP/" ++ ascii "1.0" ++ ascii "\r\n" ++
      hd.headers = ascii " " ++ (hd.destination ++
        ((ascii " HTTP/" ++ ascii "1.0" ++ ascii "\r\n") ++ hd.headers)) := by
    simp only [List.append_assoc]
  rw [hassoc, Scan.path_append, hblank, Option.bind_some, Scan.path_append, hdestination,
    Option.bind_some, Scan.path_append, hversion, Option.bind_some]
  exact headers_path hheaders

/-- The first byte of the stream that is not an upper-case letter is neither CR nor LF. -/
def CleanSeparator (stream : Bytes) : Prop :=
  ∀ c, (stream.dropWhile is_upper).head? = some c → c ≠ CR ∧ c ≠ LF

/-- In a stream that begins with a method, that byte is the one that ended the method. -/
theorem cleanSeparator_iff {letters : Bytes} {sep : Byte} {rest : Bytes}
    (hl : ∀ c ∈ letters, is_upper c = true) (hs : is_space sep = true) :
    CleanSeparator (letters ++ [sep] ++ rest) ↔ sep ≠ CR ∧ sep ≠ LF := by
  rw [CleanSeparator, List.append_assoc, List.singleton_append,
    List.dropWhile_append_of_pos hl,
    List.dropWhile_cons_of_neg (by simp [is_upper_of_is_space hs])]
  simp

/-- The request that is printed has its lines if and only if the byte that ended the method
is not one of the two. -/
theorem request_clean_iff {hd : Head} {letters : Bytes} {sep : Byte}
    (hm : hd.method = letters ++ [sep]) (hupper : ∀ c ∈ letters, is_upper c = true)
    (hdest : lexer.IsToken MethodDone UriDone hd.destination)
    (hheaders : lexer.IsToken VersionDone HeadersDone hd.headers) :
    LineClean hd.request ↔ sep ≠ CR ∧ sep ≠ LF := by
  have hrequest : hd.request = letters ++ sep :: (ascii " " ++ hd.destination ++
      ascii " HTTP/" ++ ascii "1.0" ++ ascii "\r\n" ++ hd.headers) := by
    simp [Head.request, request, hm]
  rw [hrequest]
  constructor
  · intro hlines
    refine ⟨?_, ?_⟩
    · rintro rfl
      -- the CR that ended the method is followed by the blank of the printer
      obtain ⟨rest', hlf⟩ := hlines.cr_before_lf letters _ rfl
      simp [ascii, ch] at hlf
      exact absurd hlf.1 (by decide)
    · rintro rfl
      -- the LF that ended the method follows its last letter
      obtain ⟨init, hcr⟩ := hlines.lf_after_cr letters _ rfl
      have hup := hupper CR (by simp [hcr])
      exact absurd hup (by decide)
  · intro hseparator
    refine Lines.clean_of_path (by decide) ?_
    rw [List.append_cons, Scan.path_append, Lines.path_text (fun c hc => ?_), Option.bind_some]
    · exact request_path hdest hheaders
    · rw [List.mem_append, List.mem_singleton] at hc
      rcases hc with hc | rfl
      · exact ne_lineEnd (by decide) (by decide) (hupper c hc)
      · exact hseparator

/-- **When the request sent has the lines of the request parsed.**  In every run, what is
written to the server has CR and LF in line ends only and its first empty line at its end
exactly if the byte that ended the method is neither of the two. -/
theorem lineClean_iff (es : List Event) (w : World) (f : Bytes) (h : Reaches es w)
    (hf : .start (.serverWrite f) ∈ w.trace) :
    LineClean f ↔ CleanSeparator (clientStream es) := by
  obtain ⟨hd, rfl, ⟨tokens, hhead, hl⟩, rest, hstream⟩ := sent_of_reaches h hf
  obtain ⟨hmethod, hdest, -, hheaders⟩ := hhead.tokens hl
  obtain ⟨letters, sep, hm, -, hupper, hspace⟩ := RequestParser.isToken_method hmethod
  rw [request_clean_iff hm hupper hdest hheaders, ← hstream, hm,
    cleanSeparator_iff hupper hspace]

theorem lineClean_iff_absoluteForm :
    LineClean sent ↔ CleanSeparator (clientStream untilWritten) :=
  lineClean_iff untilWritten (follow step fresh untilWritten) sent
    ⟨blank, blank, 0, 0, run_follow (by decide +kernel)⟩ (by decide +kernel)

/-- A request whose method ends with a carriage return. -/
def bareCr : Chunk := ⟨ascii "GET\rhttp://a/ HTTP/1.0\r\n\r\n", by decide, by decide⟩

/-- The completions up to the end of the write of that request. -/
def bareCrWritten : List Event :=
  [.browserRead (some bareCr), .resolve (ascii "a") (ascii "80") (some (origin, [])),
    .connect origin [] false]

/-- **A bare carriage return reaches the origin**, followed by the blank of the printer. -/
theorem bareCr_sent :
    let w := follow step fresh bareCrWritten
    let f := request (ascii "GET\r") (ascii "http://a/ ") (ascii "\r\n")
    Reaches bareCrWritten w ∧ .start (.serverWrite f) ∈ w.trace ∧ ¬ LineClean f := by
  refine ⟨⟨blank, blank, 0, 0, run_follow (by decide +kernel)⟩, by decide +kernel, fun h => ?_⟩
  obtain ⟨rest, hrest⟩ := h.cr_before_lf (ascii "GET")
    (ascii " http://a/  HTTP/1.0\r\n\r\n") (by decide)
  exact absurd (congrArg List.head? hrest) (by simp [ascii, ch]; decide)

/-! ## 3. The request sent against the request received -/

/-- The request with its version replaced by 1.0, and nothing else. -/
def replaceVersion (tokens : List (RequestParser.StateType × Bytes)) : Bytes :=
  Lexer.bytesOf (tokens.map fun p =>
    if p.1 = VersionDone then (p.1, ascii "HTTP/1.0\r\n") else p)

/-- A fresh parser finds in `f` what the connection found in the request it received, and
nothing after it. -/
def ParsedAlike (hd : Head) (f : Bytes) : Prop :=
  ∃ tokens, lexer.feed (.start MethodStart) f = .complete tokens [] ∧ hd.Is tokens

/-- The printer adds a blank after the method, where a target must start. -/
theorem feed_request {hd : Head} (hmethod : lexer.IsToken MethodStart MethodDone hd.method) :
    lexer.feed (.start MethodStart) hd.request = .refused := by
  have hrequest : hd.request = hd.method ++ SP :: (hd.destination ++ ascii " HTTP/" ++
      ascii "1.0" ++ ascii "\r\n" ++ hd.headers) := by
    rw [Head.request, request, show ascii " " = [SP] by decide]
    simp
  rw [hrequest, Lexer.Lexing.start, Lexer.feed_token hmethod (by decide)]
  exact Lexer.feed_cons_none (show RequestParser.next MethodDone SP = none by decide) _

/-- The two blanks of the printer make the request longer than it should be. -/
theorem request_ne_replaceVersion {hd : Head}
    {tokens : List (RequestParser.StateType × Bytes)} (h : hd.Is tokens) :
    hd.request ≠ replaceVersion tokens := by
  obtain ⟨version, rfl⟩ := h
  intro heq
  have hlen := congrArg List.length heq
  simp [Head.request, request, replaceVersion, ascii] at hlen
  omega

/-- A connection that serves a head goes on sending only that head. -/
theorem Serving.run_sends {hd : Head} {w w' : World} {es : List Event} (h : Serving hd w)
    (hrun : Run step w es w') : SendsOnly hd w'.trace := by
  have hinv := hrun.invariant
    (I := fun w => Serving hd w ∨ (w.pending = [] ∧ SendsOnly hd w.trace)) ?_ (Or.inl h)
  · rcases hinv with hserv | ⟨-, hsends⟩
    · exact hserv.sends
    · exact hsends
  · rintro s e t (hserv | ⟨hp, -⟩) hs
    · cases serving_step hserv hs with
      | serves accepted hserv' => exact Or.inl hserv'
      | closes accepted hc hsends => exact Or.inr ⟨hc.pending, hsends⟩
      | stalls refused hst hesc hsends => exact Or.inr ⟨hst.pending, hsends⟩
    · exact absurd hs (step_ne_some hp)

/-- A single read that is one request with an accepted target is served. -/
theorem single_read {r : Chunk} {tokens : List (RequestParser.StateType × Bytes)}
    (hr : lexer.feed (.start MethodStart) r.bytes = .complete tokens [])
    (hu : HasAuthority (targetOf tokens)) (bbuffer sbuffer : Buffer)
    (newStart_ newServerReadStart_ : Nat) :
    ∃ hd : Head, hd.Is tokens ∧ lexer.IsToken MethodStart MethodDone hd.method ∧
      ∃ w, step (started bbuffer sbuffer newStart_ newServerReadStart_)
        (.browserRead (some r)) = some w ∧ Serving hd w ∧
        ∃ host port, w.pending = [.resolve host port] := by
  have hreading := started_reading bbuffer sbuffer newStart_ newServerReadStart_
  obtain ⟨w, hs, hturn⟩ := hreading.delivers r
  have hparsed := parsed_of_begin (c := (started bbuffer sbuffer newStart_
    newServerReadStart_).conn) rfl r
  cases hturn with
  | refused line feed => rw [hparsed, hr] at feed; cases feed
  | continues l' feed => rw [hparsed, hr] at feed; cases feed
  | overruns l' feed => rw [hparsed, hr] at feed; cases feed
  | rejected hd tokens' rest feed isHead uri =>
    rw [hparsed, hr] at feed
    cases feed
    rw [uriAccepted_iff, ← isHead.targetOf] at uri
    exact absurd hu uri
  | connects hd tokens' rest feed isHead uri hserv host port trace pending =>
    rw [hparsed, hr] at feed
    cases feed
    exact ⟨hd, isHead, (isHead.tokens (Lexer.feed_start_complete hr)).1, w, hs, hserv, host, port,
      pending⟩

/-- Once the name is resolved and the server accepts, the request is sent. -/
theorem Serving.sent {hd : Head} {w : World} (h : Serving hd w) {host port : Bytes}
    (hp : w.pending = [.resolve host port]) (endpoint : Endpoint) :
    ∃ w', Run step w [.resolve host port (some (endpoint, [])), .connect endpoint [] false] w' ∧
      .start (.serverWrite hd.request) ∈ w'.trace := by
  have hs := step_of_pending (e := .resolve host port (some (endpoint, []))) h.running hp
  have hrunning : Running (handle { w with pending := [] }
      (.resolve host port (some (endpoint, [])))) :=
    ⟨h.running.escaped, h.running.overrun, h.running.deleted, h.running.isShuttingDown⟩
  have hs' := step_of_pending (e := .connect endpoint [] false) hrunning rfl
  refine ⟨_, .cons hs (.single hs'), ?_⟩
  rw [← h.head.request]
  simp [handle, HandleResolve, HandleConnect, StartWriteToServer, World.start, World.act]

/-- **The request sent is never the request received.**  Whatever single read makes up one
complete request with an accepted target, it is sent on for some completions, and whenever it
is, what is sent is neither the request with its version replaced nor anything a fresh parser
would take for the same request. -/
theorem never_round_trip (r : Chunk) (tokens : List (RequestParser.StateType × Bytes))
    (hr : lexer.feed (.start MethodStart) r.bytes = .complete tokens [])
    (hu : HasAuthority (targetOf tokens)) :
    ∃ hd : Head, hd.Is tokens ∧
      (∃ es w, Reaches (.browserRead (some r) :: es) w ∧
        .start (.serverWrite hd.request) ∈ w.trace) ∧
      ∀ es w f, Reaches (.browserRead (some r) :: es) w → .start (.serverWrite f) ∈ w.trace →
        f ≠ replaceVersion tokens ∧ ¬ ParsedAlike hd f ∧
          lexer.feed (.start MethodStart) f = .refused := by
  obtain ⟨hd, hhead, hmethod, w₁, hs, hserv, host, port, hp⟩ := single_read hr hu blank blank 0 0
  refine ⟨hd, hhead, ?_, ?_⟩
  · obtain ⟨w', hrun, hsent⟩ := hserv.sent hp ⟨[], 80⟩
    exact ⟨_, w', ⟨blank, blank, 0, 0, .cons hs hrun⟩, hsent⟩
  · rintro es w f ⟨bbuffer, sbuffer, n, m, hrun⟩ hf
    obtain ⟨hd', hhead', -, w₂, hs₂, hserv₂, -⟩ := single_read hr hu bbuffer sbuffer n m
    obtain rfl := hhead'.unique hhead
    cases hrun with
    | cons hs' hrun' =>
      rw [hs₂] at hs'
      obtain rfl := Option.some.inj hs'
      obtain rfl := hserv₂.run_sends hrun' f hf
      refine ⟨request_ne_replaceVersion hhead, ?_, feed_request hmethod⟩
      rintro ⟨tokens', hf', -⟩
      rw [feed_request hmethod] at hf'
      cases hf'

/-- The four tokens of the request in absolute form. -/
def absoluteTokens : List (RequestParser.StateType × Bytes) :=
  [(MethodDone, ascii "GET "), (UriDone, ascii "http://a/ "),
    (VersionDone, ascii "HTTP/1.0\r\n"), (HeadersDone, ascii "\r\n")]

theorem never_round_trip_absoluteForm :
    ∃ hd : Head, hd.Is absoluteTokens ∧
      (∃ es w, Reaches (.browserRead (some absoluteForm) :: es) w ∧
        .start (.serverWrite hd.request) ∈ w.trace) ∧
      ∀ es w f, Reaches (.browserRead (some absoluteForm) :: es) w →
        .start (.serverWrite f) ∈ w.trace →
          f ≠ replaceVersion absoluteTokens ∧ ¬ ParsedAlike hd f ∧
            lexer.feed (.start MethodStart) f = .refused :=
  never_round_trip absoluteForm absoluteTokens (by decide) ⟨0, 8, by decide, by decide⟩

/-- **A request for version 1.0 is changed**, and no second proxy takes it. -/
theorem absoluteForm_changed :
    let w := follow step fresh untilWritten
    Reaches untilWritten w ∧ .start (.serverWrite sent) ∈ w.trace ∧
      sent ≠ absoluteForm.bytes ∧ lexer.feed (.start MethodStart) sent = .refused :=
  ⟨⟨blank, blank, 0, 0, run_follow (by decide +kernel)⟩, by decide +kernel, by decide, by decide⟩

end HttpConnection

end TwoProxy
