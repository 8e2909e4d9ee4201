/-
# How the stream is cut into reads

`deliver` hands a connection one read after the other.  As long as no read but the last ends
exactly where the method, the target or the version ends (`CutFree`), the outcome is the one
that the stream itself decides, `lexer.feed` of its bytes: `deliver_settled`.

The other cuts are not harmless.  `case Method`, `case Uri` and `case Version` leave
`newStart_` at the end of the token before they read more, while the next read lands at the
start of `bbuffer`: as many bytes of it as `newStart_` has advanced are skipped, and if it is
shorter than that, the parser is let loose on whatever the buffer held before (`stale_settled`).
So for every stream that goes on after its method there are two partitions with different
outcomes (`cut_independent_iff`).
-/
import TwoProxy.HttpConnection.Phases

namespace TwoProxy

namespace HttpConnection

open RequestParser (lexer)
open RequestParser.StateType
open Lexer (Lexing Progress)
open Transition

/-! ## 1. Reads, and their outcome -/

/-- The completion of a browser read. -/
def delivery (c : Chunk) : Event := .browserRead (some c)

/-- The connection after the reads, for as long as it asks for them. -/
def deliver (w : World) (reads : List Chunk) : World := follow step w (reads.map delivery)

/-- `StartConnect` has been reached. -/
def Reached (w : World) : Prop := .startConnect ∈ w.trace

/-- A `ParsedFailed` exit has been taken. -/
def Failed (w : World) : Prop := ∃ line, IsRequestError line ∧ .logError line ∈ w.trace

/-- The same outcome, as far as the request goes. -/
structure SameOutcome (w w' : World) : Prop where
  reached : Reached w ↔ Reached w'
  failed : Failed w ↔ Failed w'
  method : Reached w → w.conn.message_.method_ = w'.conn.message_.method_
  destination : Reached w → w.conn.message_.destination_ = w'.conn.message_.destination_
  reqHeaders : Reached w → w.conn.reqHeaders_ = w'.conn.reqHeaders_

/-- The outcome that a tokenisation calls for. -/
def Settled (w : World) : RequestProgress → Prop
  | .reading _ => ¬ Reached w ∧ ¬ Failed w
  | .refused => ¬ Reached w ∧ Failed w
  | .complete tokens _ =>
    Reached w ∧ ¬ Failed w ∧ ∃ hd : Head, hd.Is tokens ∧ hd.StoredIn w.conn

/-- The tokenisation decides the outcome. -/
theorem Settled.same {w w' : World} {p : RequestProgress} (h : Settled w p) (h' : Settled w' p) :
    SameOutcome w w' := by
  cases p with
  | reading l =>
    exact ⟨iff_of_false h.1 h'.1, iff_of_false h.2 h'.2, fun hr => absurd hr h.1,
      fun hr => absurd hr h.1, fun hr => absurd hr h.1⟩
  | refused =>
    exact ⟨iff_of_false h.1 h'.1, iff_of_true h.2 h'.2, fun hr => absurd hr h.1,
      fun hr => absurd hr h.1, fun hr => absurd hr h.1⟩
  | complete tokens rest =>
    obtain ⟨hr, hf, hd, his, hst⟩ := h
    obtain ⟨hr', hf', hd', his', hst'⟩ := h'
    obtain rfl := his.unique his'
    exact ⟨iff_of_true hr hr', iff_of_false hf hf', fun _ => hst.method.trans hst'.method.symm,
      fun _ => hst.destination.trans hst'.destination.symm,
      fun _ => hst.headers.trans hst'.headers.symm⟩

/-! ## 2. Cuts away from the token ends -/

/-- No read but the last ends exactly where a token ends. -/
def CutFree (l : RequestLexing) (reads : List Chunk) : Prop :=
  ∀ before after l', reads = before ++ after → before ≠ [] → after ≠ [] →
    lexer.feed l (streamOf before) = .reading l' → lexer.cut l'.state = false

theorem cutFree_nil (l : RequestLexing) : CutFree l [] := by
  intro before after l' h hb
  exact absurd (List.append_eq_nil_iff.mp h.symm).1 hb

theorem cutFree_cons {l : RequestLexing} {c : Chunk} {reads : List Chunk} :
    CutFree l (c :: reads) ↔ ∀ l', lexer.feed l c.bytes = .reading l' →
      (reads ≠ [] → lexer.cut l'.state = false) ∧ CutFree l' reads := by
  constructor
  · intro h l' hf
    refine ⟨fun hne => h [c] reads l' rfl (by simp) hne (by simpa using hf), ?_⟩
    intro before after l'' heq hb ha hf'
    refine h (c :: before) after l'' (by rw [heq, List.cons_append]) (by simp) ha ?_
    rw [streamOf_cons, Lexer.feed_append, hf]
    exact hf'
  · intro h before after l' heq hb ha hf
    cases before with
    | nil => exact absurd rfl hb
    | cons c' before =>
      rw [List.cons_append, List.cons.injEq] at heq
      obtain ⟨rfl, rfl⟩ := heq
      rw [streamOf_cons, Lexer.feed_append] at hf
      cases hc : lexer.feed l c.bytes with
      | refused => rw [hc] at hf; cases hf
      | complete tokens rest => rw [hc] at hf; cases hf
      | reading l₁ =>
        rw [hc, Lexer.resume_reading] at hf
        obtain ⟨h1, h2⟩ := h l₁ hc
        cases before with
        | nil =>
          rw [streamOf_nil, Lexer.feed_nil, Progress.reading.injEq] at hf
          exact hf ▸ h1 (by simpa using ha)
        | cons c₂ before => exact h2 _ after l' rfl (by simp) ha hf

/-- While the head is read, what has been done is browser reads; whatever else there is, the
last read has led to. -/
theorem Reading.mem_of_append {w : World} {l : RequestLexing} (h : Reading w l)
    {trace done : List Action} {a : Action} (ht : trace = w.trace ++ done)
    (ha : a ≠ .start .browserRead) (hm : a ∈ trace) : a ∈ done := by
  rw [ht, List.mem_append] at hm
  exact hm.resolve_left fun hm => ha (h.quiet a hm)

/-- The outcome of one read. -/
theorem ReadTurn.settled {w w' : World} {l : RequestLexing} {data : Chunk} (h : Reading w l)
    (hturn : ReadTurn w l data w')
    (hin : (∃ l', lexer.feed l (parsed w.conn data) = .reading l') →
      w.conn.newStart_ ≤ data.bytes.length) :
    Settled w' (lexer.feed l (parsed w.conn data)) := by
  cases hturn with
  | refused line feed hst hesc isError trace =>
    rw [feed]
    refine ⟨fun hr => ?_, line, isError, by simp [trace]⟩
    have hmem := h.mem_of_append trace (by simp) hr
    simp at hmem
  | rejected hd tokens rest feed isHead uri hst hesc stored trace =>
    rw [feed]
    refine ⟨by simp [Reached, trace], ?_, hd, isHead, stored⟩
    rintro ⟨line, hline, hm⟩
    -- the line on the format is not one of a `case`
    obtain rfl : line = .invalidUriFormat hd.destination := by
      simpa using h.mem_of_append trace (by simp) hm
    exact hline
  | connects hd tokens rest feed isHead uri hserv host port trace =>
    rw [feed]
    refine ⟨by simp [Reached, trace], ?_, hd, isHead, hserv.head⟩
    rintro ⟨line, -, hm⟩
    have hmem := h.mem_of_append trace (by simp) hm
    simp at hmem
  | continues l' feed inOrder hread =>
    rw [feed]
    exact ⟨fun hr => absurd (hread.quiet _ hr) (by simp),
      fun ⟨line, _, hm⟩ => absurd (hread.quiet _ hm) (by simp)⟩
  | overruns l' feed inverted hst =>
    have := hin ⟨l', feed⟩
    omega

/-- A connection that is no longer reading takes no reads. -/
theorem deliver_of_not_pending {w : World} (h : .browserRead ∉ w.pending) (reads : List Chunk) :
    deliver w reads = w := by
  refine follow_stuck (fun e he => ?_)
  obtain ⟨c, -, rfl⟩ := List.mem_map.mp he
  simp [step, delivery, Event.op, h]

/-- Once the tokenisation is decided, the reads that follow change nothing. -/
theorem ReadTurn.deliver {w w' : World} {l : RequestLexing} {data : Chunk}
    (hturn : ReadTurn w l data w')
    (hdone : ∀ l', lexer.feed l (parsed w.conn data) ≠ .reading l') (reads : List Chunk) :
    deliver w' reads = w' := by
  refine deliver_of_not_pending ?_ reads
  cases hturn with
  | refused line feed hst => simp [hst.pending]
  | rejected hd tokens rest feed isHead uri hst => simp [hst.pending]
  | connects hd tokens rest feed isHead uri hserv =>
    exact hserv.browserRead_notMem
  | continues l' feed => exact absurd feed (hdone l')
  | overruns l' feed => exact absurd feed (hdone l')

theorem deliver_cons {w w' : World} {c : Chunk} (h : step w (delivery c) = some w')
    (reads : List Chunk) : deliver w (c :: reads) = deliver w' reads :=
  follow_cons_some h

/-- **Away from the token ends, the stream decides.**  The induction carries `newStart_ = 0`,
which is what a cut at a token end breaks. -/
theorem deliver_settled (reads : List Chunk) :
    ∀ {w : World} {l : RequestLexing}, Reading w l → w.conn.newStart_ = 0 → CutFree l reads →
      Settled (deliver w reads) (lexer.feed l (streamOf reads)) := by
  induction reads with
  | nil =>
    intro w l h _ _
    exact ⟨fun hr => absurd (h.quiet _ hr) (by simp),
      fun ⟨line, _, hm⟩ => absurd (h.quiet _ hm) (by simp)⟩
  | cons c reads ih =>
    intro w l h h0 hfree
    obtain ⟨w', hs, hturn⟩ := h.delivers c
    have hparsed := parsed_of_begin h0 c
    have hsettled := hturn.settled h (fun _ => by omega)
    rw [deliver_cons hs, streamOf_cons, Lexer.feed_append]
    rw [cutFree_cons] at hfree
    cases hf : lexer.feed l c.bytes with
    | refused =>
      rw [hparsed, hf] at hsettled
      rw [hturn.deliver (by simp [hparsed, hf])]
      exact hsettled
    | complete tokens rest =>
      rw [hparsed, hf] at hsettled
      rw [hturn.deliver (by simp [hparsed, hf])]
      exact hsettled
    | reading l' =>
      obtain ⟨hcut, hfree'⟩ := hfree l' hf
      cases hturn with
      | refused line feed => rw [hparsed, hf] at feed; cases feed
      | rejected hd tokens rest feed => rw [hparsed, hf] at feed; cases feed
      | connects hd tokens rest feed => rw [hparsed, hf] at feed; cases feed
      | overruns l₁ feed inverted => omega
      | continues l₁ feed inOrder hread newStart =>
        rw [hparsed, hf, Progress.reading.injEq] at feed
        subst feed
        cases reads with
        | nil =>
          rw [hparsed, hf] at hsettled
          exact hsettled
        | cons c' reads =>
          refine ih hread ?_ hfree'
          rw [newStart, if_neg (by simp [hcut])]

/-! ## 3. Every stream has such a partition -/

/-- A read of one byte. -/
def single (b : Byte) : Chunk := ⟨[b], by simp, by simp⟩

/-- A read of two bytes. -/
def pair (a b : Byte) : Chunk := ⟨[a, b], by simp, by simp⟩

/-- The stream, byte by byte. -/
def singles (s : Bytes) : List Chunk := s.map single

@[simp] theorem streamOf_singles (s : Bytes) : streamOf (singles s) = s := by
  induction s with
  | nil => rfl
  | cons b s ih =>
    rw [show singles (b :: s) = single b :: singles s from rfl, streamOf_cons, ih]
    rfl

/-- No two token ends are adjacent. -/
theorem cut_next {s t : RequestParser.StateType} {c : Byte} (hs : lexer.cut s = true)
    (hn : RequestParser.next s c = some t) : lexer.cut t = false := by
  rcases (RequestParser.lexer_cut s).mp hs with rfl | rfl | rfl <;>
    simp only [RequestParser.next] at hn <;> (repeat' split at hn) <;> cases hn <;> rfl

/-- After a symbol that ends a token, one more does not. -/
theorem cut_feed_pair {l l₁ l₂ : RequestLexing} {a b : Byte}
    (h₁ : lexer.feed l [a] = .reading l₁) (hc : lexer.cut l₁.state = true)
    (h₂ : lexer.feed l [a, b] = .reading l₂) : lexer.cut l₂.state = false := by
  rw [show [a, b] = [a] ++ [b] from rfl, Lexer.feed_append, h₁, Lexer.resume_reading] at h₂
  cases hn : lexer.next l₁.state b with
  | none => rw [Lexer.feed_cons_none hn] at h₂; cases h₂
  | some t =>
    have ht := cut_next hc hn
    by_cases hf : t = lexer.final
    · subst hf
      rw [Lexer.feed_cons_final hn] at h₂
      cases h₂
    · rw [Lexer.feed_cons_some hn hf ht] at h₂
      obtain rfl := Progress.reading.inj h₂
      exact ht

/-- **Every stream can be cut away from its token ends**: byte by byte, with the byte that
ends a token in one read with the byte after it. -/
theorem exists_cutFree (s : Bytes) (l : RequestLexing) :
    ∃ reads, streamOf reads = s ∧ CutFree l reads := by
  induction hn : s.length using Nat.strongRecOn generalizing s l with
  | _ n ih =>
    subst hn
    match s with
    | [] => exact ⟨[], rfl, cutFree_nil l⟩
    | [a] =>
      refine ⟨[single a], rfl, cutFree_cons.mpr fun l' _ => ?_⟩
      exact ⟨fun h => absurd rfl h, cutFree_nil l'⟩
    | a :: b :: s =>
      by_cases hcut : ∃ l₁, lexer.feed l [a] = .reading l₁ ∧ lexer.cut l₁.state = true
      · obtain ⟨l₁, h₁, hc⟩ := hcut
        have hfree : ∃ reads, streamOf reads = s ∧
            ∀ l₂, lexer.feed l [a, b] = .reading l₂ → CutFree l₂ reads := by
          cases h₂ : lexer.feed l [a, b] with
          | reading l₂ =>
            obtain ⟨reads, h3, h4⟩ := ih s.length (by simp only [List.length_cons]; omega) s l₂ rfl
            refine ⟨reads, h3, fun l' h => ?_⟩
            obtain rfl := Progress.reading.inj h
            exact h4
          | refused => exact ⟨singles s, streamOf_singles s, fun l' h => by cases h⟩
          | complete tokens rest => exact ⟨singles s, streamOf_singles s, fun l' h => by cases h⟩
        obtain ⟨reads, h3, h4⟩ := hfree
        refine ⟨pair a b :: reads, by simp [h3, pair], cutFree_cons.mpr fun l₂ h₂ => ?_⟩
        exact ⟨fun _ => cut_feed_pair h₁ hc h₂, h4 l₂ h₂⟩
      · have hfree : ∃ reads, streamOf reads = b :: s ∧
            ∀ l₁, lexer.feed l [a] = .reading l₁ → CutFree l₁ reads := by
          cases h₁ : lexer.feed l [a] with
          | reading l₁ =>
            obtain ⟨reads, h3, h4⟩ := ih (b :: s).length (by simp) (b :: s) l₁ rfl
            refine ⟨reads, h3, fun l' h => ?_⟩
            obtain rfl := Progress.reading.inj h
            exact h4
          | refused => exact ⟨singles _, streamOf_singles _, fun l' h => by cases h⟩
          | complete tokens rest => exact ⟨singles _, streamOf_singles _, fun l' h => by cases h⟩
        obtain ⟨reads, h3, h4⟩ := hfree
        refine ⟨single a :: reads, by simp [h3, single], cutFree_cons.mpr fun l₁ h₁ => ?_⟩
        refine ⟨fun _ => ?_, h4 l₁ h₁⟩
        cases hc : lexer.cut l₁.state with
        | false => rfl
        | true => exact absurd ⟨l₁, h₁, hc⟩ hcut

/-! ## 4. A cut at the end of the method -/

/-- A read that the tokenisation gets through. -/
theorem Reading.continues {w : World} {l l' : RequestLexing} {c : Chunk} (h : Reading w l)
    (h0 : w.conn.newStart_ = 0) (hf : lexer.feed l c.bytes = .reading l') :
    ∃ w', step w (delivery c) = some w' ∧ Reading w' l' ∧
      w'.conn.newStart_ = (if lexer.cut l'.state = true then c.bytes.length else 0) ∧
      w'.conn.memory = (received w.conn c).memory := by
  obtain ⟨w', hs, hturn⟩ := h.delivers c
  have hparsed := parsed_of_begin h0 c
  have hne : c.bytes ≠ [] := List.ne_nil_of_length_pos c.pos
  refine ⟨w', hs, ?_⟩
  cases hturn with
  | refused line feed => rw [hparsed, hf] at feed; cases feed
  | rejected hd tokens rest feed => rw [hparsed, hf] at feed; cases feed
  | connects hd tokens rest feed => rw [hparsed, hf] at feed; cases feed
  | overruns l₁ feed inverted => omega
  | continues l₁ feed inOrder hread newStart memory =>
    rw [hparsed, hf, Progress.reading.injEq] at feed
    subst feed
    refine ⟨hread, ?_, memory⟩
    rw [newStart, hparsed]
    simp [hne]

/-- A read of `n` bytes at most leaves the memory behind them alone. -/
theorem received_drop {c : HttpConnection} {data : Chunk} {n : Nat}
    (h : data.bytes.length ≤ n) (hn : n ≤ 1024) :
    (received c data).memory.drop n = c.memory.drop n := by
  have hb := c.bbuffer.size_eq
  have hd : (data.bytes ++ c.bbuffer.bytes.drop data.bytes.length).length = 1024 :=
    (c.bbuffer.fill data).size_eq
  have hfill : (data.bytes ++ c.bbuffer.bytes.drop data.bytes.length).drop n
      = c.bbuffer.bytes.drop n := by
    rw [List.drop_append, List.drop_eq_nil_of_le h, List.nil_append, List.drop_drop,
      Nat.add_sub_cancel' h]
  have h1 : n ≤ (data.bytes ++ c.bbuffer.bytes.drop data.bytes.length).length := by omega
  have h2 : n ≤ c.bbuffer.bytes.length := by omega
  simp only [memory, received, Buffer.fill]
  rw [List.drop_append_of_le_length h1, hfill, List.drop_append_of_le_length h2]

/-- Bytes inside a token, read one by one. -/
theorem Reading.bytewise {xs : Bytes} :
    ∀ {w : World} {l : RequestLexing} {t : RequestParser.StateType}, Reading w l →
      w.conn.newStart_ = 0 → Scan.path lexer.inner l.state xs = some t →
      ∃ w', Run step w ((singles xs).map delivery) w' ∧
        Reading w' ⟨t, l.tokens, l.part ++ xs⟩ ∧ w'.conn.newStart_ = 0 ∧
        w'.conn.memory.drop 2 = w.conn.memory.drop 2 := by
  induction xs with
  | nil =>
    intro w l t h h0 hp
    obtain rfl := Option.some.inj hp
    exact ⟨w, .nil w, by simpa using h, h0, rfl⟩
  | cons a xs ih =>
    intro w l t h h0 hp
    obtain ⟨u, hu, hp⟩ := Scan.path_cons_eq_some.mp hp
    obtain ⟨hn, hf, hc⟩ := Lexer.inner_eq_some.mp hu
    obtain ⟨w₁, hs, hr, h0', hmem⟩ := h.continues (c := single a) h0
      (Lexer.feed_cons_some hn hf hc [])
    rw [if_neg (by simp [hc])] at h0'
    obtain ⟨w₂, hrun, hr₂, h0₂, hmem₂⟩ := ih hr h0' hp
    refine ⟨w₂, .cons hs hrun, by simpa using hr₂, h0₂, ?_⟩
    rw [hmem₂, hmem, received_drop (by simp [single]) (by decide)]

/-- The method by single bytes but for the last two, which come in one read, and then the
rest of the stream byte by byte. -/
def stalePartition (letters : Bytes) (last sep : Byte) (rest : Bytes) : List Chunk :=
  singles letters ++ pair last sep :: singles rest

/-- The reads up to the end of the method leave `newStart_` two bytes into the buffer, and
the rest of the memory as it was. -/
theorem method_reads {letters : Bytes} {last sep : Byte} {t : RequestParser.StateType}
    (htok : lexer.IsToken MethodStart t (letters ++ [last, sep]))
    (bbuffer sbuffer : Buffer) (newStart_ newServerReadStart_ : Nat) :
    ∃ w, Run step (started bbuffer sbuffer newStart_ newServerReadStart_)
        ((singles letters ++ [pair last sep]).map delivery) w ∧
      Reading w ⟨t, [(t, letters ++ [last, sep])], []⟩ ∧ w.conn.newStart_ = 2 ∧
      w.conn.memory.drop 2 = (bbuffer.bytes ++ sbuffer.bytes).drop 2 := by
  obtain rfl := RequestParser.isToken_stageEnd htok
  obtain ⟨init, a, u, heq, hp, hn, -⟩ := htok
  rw [List.append_cons] at heq
  obtain ⟨rfl, hsep⟩ := List.append_inj' heq rfl
  obtain rfl : sep = a := by simpa using hsep
  obtain ⟨v, hv, hlast⟩ := Scan.path_concat_eq_some.mp hp
  obtain ⟨hnl, hfl, hcl⟩ := Lexer.inner_eq_some.mp hlast
  obtain ⟨w₁, hrun, hr₁, h0₁, hmem₁⟩ := (started_reading bbuffer sbuffer newStart_
    newServerReadStart_).bytewise rfl hv
  have hfeed : lexer.feed ⟨v, [], letters⟩ [last, sep] = .reading
      ⟨MethodDone, [(MethodDone, letters ++ [last, sep])], []⟩ := by
    rw [Lexer.feed_cons_some hnl hfl hcl, Lexer.feed_cons_cut hn (by decide) (by decide)]
    simp [Lexing.emit, RequestParser.stageEnd]
  obtain ⟨w₂, hs, hr₂, h0₂, hmem₂⟩ := hr₁.continues (c := pair last sep) h0₁
    (by simpa [Lexing.start, pair] using hfeed)
  refine ⟨w₂, ?_, hr₂, h0₂, ?_⟩
  · rw [List.map_append]
    exact hrun.append (.single hs)
  · rw [hmem₂, received_drop (by simp [pair]) (by decide), hmem₁]
    rfl

/-- **After that cut the parser reads what the buffer held before.**  The read after the
method has one byte, and `newStart_` is two bytes into the buffer. -/
theorem stale_settled {letters : Bytes} {last sep : Byte} {t : RequestParser.StateType}
    (htok : lexer.IsToken MethodStart t (letters ++ [last, sep])) (b : Byte) (rest : Bytes)
    (bbuffer sbuffer : Buffer) (newStart_ newServerReadStart_ : Nat)
    (hdone : ∀ l', lexer.feed ⟨t, [(t, letters ++ [last, sep])], []⟩
      ((bbuffer.bytes ++ sbuffer.bytes).drop 2) ≠ .reading l') :
    Settled (deliver (started bbuffer sbuffer newStart_ newServerReadStart_)
        (stalePartition letters last sep (b :: rest)))
      (lexer.feed ⟨t, [(t, letters ++ [last, sep])], []⟩
        ((bbuffer.bytes ++ sbuffer.bytes).drop 2)) := by
  obtain ⟨w, hrun, hr, h2, hmem⟩ := method_reads htok bbuffer sbuffer newStart_
    newServerReadStart_
  obtain ⟨w', hs, hturn⟩ := hr.delivers (single b)
  have hparsed : parsed w.conn (single b) = (bbuffer.bytes ++ sbuffer.bytes).drop 2 := by
    rw [parsed, reachable, received_newStart, h2,
      Scan.available_of_lt (by simp [single]), received_drop (by simp [single]) (by decide), hmem]
  rw [← hparsed] at hdone ⊢
  have hdeliver : deliver (started bbuffer sbuffer newStart_ newServerReadStart_)
      (stalePartition letters last sep (b :: rest)) = w' := by
    rw [stalePartition, deliver, List.append_cons, List.map_append, follow_append hrun]
    change deliver w (single b :: singles rest) = w'
    rw [deliver_cons hs, hturn.deliver hdone]
  rw [hdeliver]
  refine hturn.settled hr ?_
  rintro ⟨l', hl'⟩
  exact absurd hl' (hdone l')

/-! ## 5. The exact condition -/

/-- A tokenisation that has met a cut state starts with a method. -/
theorem exists_method {xs : Bytes} {l : RequestLexing}
    (hf : lexer.feed (.start MethodStart) xs = .reading l) (hc : lexer.cut l.state = true) :
    ∃ letters last sep rest, lexer.IsToken MethodStart MethodDone (letters ++ [last, sep]) ∧
      xs = letters ++ [last, sep] ++ rest := by
  have hlinked := Lexer.feed_start_reading hf
  have hbytes := Lexer.feed_reading_consumed hf
  cases htoks : l.tokens with
  | nil =>
    -- inside the first token no state is a cut state
    have hpart := hlinked.part
    rw [htoks] at hpart
    have := (Scan.path_invariant (I := fun u => lexer.cut u = false) (P := fun _ => True)
      (fun s a t _ hin => ⟨(Lexer.inner_eq_some.mp hin).2.2, trivial⟩) _ (by rfl) hpart).1
    rw [this] at hc
    cases hc
  | cons p toks =>
    obtain ⟨t, tok⟩ := p
    have htok : lexer.IsToken MethodStart t tok := by
      have := hlinked.tokens
      rw [htoks] at this
      exact this.1
    obtain rfl : t = MethodDone := RequestParser.isToken_stageEnd htok
    obtain ⟨letters, sep, rfl, hne, -, -⟩ := RequestParser.isToken_method htok
    obtain ⟨letters, last, rfl⟩ := List.eq_nil_or_concat letters |>.resolve_left hne
    rw [List.concat_eq_append, ← List.append_cons] at htok
    refine ⟨letters, last, sep, Lexer.bytesOf toks ++ l.part, htok, ?_⟩
    simpa [Lexer.Lexing.consumed, Lexer.Lexing.start, htoks] using hbytes.symm

/-- The memory behind the reads of the method holds the rest of a request. -/
def staleRequest : Buffer :=
  ⟨[0, 0] ++ ascii "http://a/ HTTP/1.0\r\n\r\n" ++ List.replicate 1000 0, by
    rw [List.length_append, List.length_replicate]
    decide⟩

theorem feed_blank (toks : List (RequestParser.StateType × Bytes)) :
    lexer.feed ⟨MethodDone, toks, []⟩ ((blank.bytes ++ blank.bytes).drop 2) = .refused := by
  have hmem : (blank.bytes ++ blank.bytes).drop 2 = 0 :: List.replicate 2045 0 := by
    simp only [blank, List.replicate_append_replicate, List.drop_replicate]
    rfl
  rw [hmem]
  exact Lexer.feed_cons_none (show RequestParser.next MethodDone 0 = none by decide) _

theorem feed_staleRequest (toks : List (RequestParser.StateType × Bytes)) :
    ∃ tokens rest, lexer.feed ⟨MethodDone, toks, []⟩
      ((staleRequest.bytes ++ blank.bytes).drop 2) = .complete tokens rest := by
  have hmem : (staleRequest.bytes ++ blank.bytes).drop 2 = ascii "http://a/ " ++
      (ascii "HTTP/1.0\r\n" ++ (ascii "\r\n" ++ (List.replicate 1000 0 ++ blank.bytes))) := by
    rfl
  have huri : lexer.IsToken MethodDone UriDone (ascii "http://a/ ") :=
    ⟨ascii "http://a/", SP, UriChar, by decide, by decide, by decide, by decide⟩
  have hversion : lexer.IsToken UriDone VersionDone (ascii "HTTP/1.0\r\n") :=
    ⟨ascii "HTTP/1.0\r", LF, VersionCr, by decide, by decide, by decide, by decide⟩
  have hheaders : lexer.IsToken VersionDone lexer.final (ascii "\r\n") :=
    ⟨ascii "\r", LF, HeadersCr, by decide, by decide, by decide, by decide⟩
  rw [hmem, Lexer.feed_token huri (by decide), Lexer.feed_token hversion (by decide),
    Lexer.feed_last_token hheaders]
  exact ⟨_, _, rfl⟩

/-- The outcome is the same for every two partitions of the stream, whatever the memory of
the connection holds at first. -/
def CutIndependent (s : Bytes) : Prop :=
  ∀ (bbuffer sbuffer : Buffer) (newStart_ newServerReadStart_ : Nat) (reads reads' : List Chunk),
    streamOf reads = s → streamOf reads' = s →
      SameOutcome (deliver (started bbuffer sbuffer newStart_ newServerReadStart_) reads)
        (deliver (started bbuffer sbuffer newStart_ newServerReadStart_) reads')

/-- A stream that goes on after its method has two partitions with different outcomes: one
that is cut away from the token ends, and one that is cut after the method.  What decides is
what the memory happens to hold: zeros where the stream is a request, a request where it is
not. -/
theorem not_cutIndependent {letters : Bytes} {last sep : Byte}
    (htok : lexer.IsToken MethodStart MethodDone (letters ++ [last, sep])) (b : Byte)
    (rest : Bytes) :
    ¬ CutIndependent (letters ++ [last, sep] ++ b :: rest) := by
  intro hindep
  have hstream : streamOf (stalePartition letters last sep (b :: rest))
      = letters ++ [last, sep] ++ b :: rest := by
    simp [stalePartition, pair]
  obtain ⟨reads, hreads, hfree⟩ :=
    exists_cutFree (letters ++ [last, sep] ++ b :: rest) (.start MethodStart)
  by_cases hcomplete : ∃ tokens rest', lexer.feed (.start MethodStart)
      (letters ++ [last, sep] ++ b :: rest) = .complete tokens rest'
  · obtain ⟨tokens, rest', hf⟩ := hcomplete
    have hsame := hindep blank blank 0 0 _ _ hstream hreads
    have hstale := stale_settled htok b rest blank blank 0 0
      (by simp [feed_blank])
    have hfresh := deliver_settled reads (started_reading blank blank 0 0) rfl hfree
    rw [feed_blank] at hstale
    rw [hreads, hf] at hfresh
    exact hfresh.2.1 (hsame.failed.mp hstale.2)
  · obtain ⟨tokens, rest', hf⟩ := feed_staleRequest [(MethodDone, letters ++ [last, sep])]
    have hsame := hindep staleRequest blank 0 0 _ _ hstream hreads
    have hstale := stale_settled htok b rest staleRequest blank 0 0
      (by simp [hf])
    have hfresh := deliver_settled reads (started_reading staleRequest blank 0 0) rfl hfree
    rw [hf] at hstale
    have hreached := hsame.reached.mp hstale.1
    rw [hreads] at hfresh
    cases hp : lexer.feed (.start MethodStart) (letters ++ [last, sep] ++ b :: rest) with
    | reading l => rw [hp] at hfresh; exact hfresh.1 hreached
    | refused => rw [hp] at hfresh; exact hfresh.1 hreached
    | complete tokens rest' => exact hcomplete ⟨tokens, rest', hp⟩

/-- Partitions that are cut away from the token ends have the same outcome. -/
theorem CutFree.same {reads reads' : List Chunk} (h : CutFree (.start MethodStart) reads)
    (h' : CutFree (.start MethodStart) reads') (heq : streamOf reads = streamOf reads')
    (b b' s s' : Buffer) (n n' m m' : Nat) :
    SameOutcome (deliver (started b s n m) reads) (deliver (started b' s' n' m') reads') := by
  have hsettled := deliver_settled reads (started_reading b s n m) rfl h
  have hsettled' := deliver_settled reads' (started_reading b' s' n' m') rfl h'
  rw [heq] at hsettled
  exact hsettled.same hsettled'

/-- **When the outcome does not depend on the cuts.**  Two partitions of a stream, neither of
which has a read before the last that ends where a token ends, have the same outcome; and the
stream has one outcome for all its partitions exactly if none of them has such a read. -/
theorem cut_independent_iff (stream : Bytes) :
    (∀ (b b' s s' : Buffer) (n n' m m' : Nat) (reads reads' : List Chunk),
        streamOf reads = stream → streamOf reads' = stream →
          CutFree (.start MethodStart) reads → CutFree (.start MethodStart) reads' →
            SameOutcome (deliver (started b s n m) reads)
              (deliver (started b' s' n' m') reads')) ∧
      (CutIndependent stream ↔
        ∀ reads, streamOf reads = stream → CutFree (.start MethodStart) reads) := by
  refine ⟨fun b b' s s' n n' m m' reads reads' h h' hfree hfree' =>
    hfree.same hfree' (h.trans h'.symm) b b' s s' n n' m m', ?_, ?_⟩
  · rintro hindep reads rfl before after l heq hb ha hf
    by_contra hc
    obtain ⟨letters, last, sep, rest, htok, hx⟩ := exists_method hf (by simpa using hc)
    cases after with
    | nil => exact ha rfl
    | cons c after =>
      have hpos := c.pos
      cases hrest : rest ++ streamOf (c :: after) with
      | nil =>
        rw [streamOf_cons] at hrest
        have := congrArg List.length hrest
        simp only [List.length_append, List.length_nil] at this
        omega
      | cons b rest' =>
        refine not_cutIndependent htok b rest' ?_
        rw [← hrest, ← List.append_assoc, ← hx, ← streamOf_append, ← heq]
        exact hindep
  · intro hfree b s n m reads reads' h h'
    exact (hfree reads h).same (hfree reads' h') (h.trans h'.symm) b b s s n n m m

/-- One request, in one read. -/
def oneRead : List Chunk := [absoluteForm]

/-- The same request, cut after the method. -/
def twoReads : List Chunk :=
  [⟨ascii "GET ", by decide, by decide⟩,
    ⟨ascii "http://a/ HTTP/1.0\r\n\r\n", by decide, by decide⟩]

/-- **A read that ends with the method loses the start of the target.** -/
theorem twoReads_differ : streamOf twoReads = streamOf oneRead ∧
    ¬ SameOutcome (deliver fresh twoReads) (deliver fresh oneRead) := by
  refine ⟨by decide, fun h => ?_⟩
  have hreached : Reached (deliver fresh twoReads) := by
    rw [Reached]
    decide +kernel
  have hdest := h.destination hreached
  exact absurd hdest (by decide +kernel)

end HttpConnection

end TwoProxy
