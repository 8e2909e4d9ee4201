/-
# What the parser is shown

A read lands at the start of `bbuffer`, over the beginning of the reads before it, and the parser
looks at it from `newStart_` on.  `shownHead` is the head that it finds.

After a read that ends exactly where a token ends, `newStart_` is the length of that read.  If
the next read is no shorter, as many of its bytes are lost, and a head found in what is left is
shorter than the one that was sent.  If it is shorter, the parser goes through what the reads
before have left in the buffer, pieces of all of them.  An empty line there may be one that
nobody sent, but then it lies too near to the start of the buffer for the headers that were sent
to fit in before it (`Overlaid`).  So a connection whose buffers were blank finds the head that
was sent only if no read but the last ends where a token ends (`cutFree_of_shownHead`).
-/
import TwoProxy.HttpConnection.Cuts
import TwoProxy.HttpConnection.Upstream
import TwoProxy.Lib.Overwrite

namespace TwoProxy

namespace HttpConnection

open RequestParser (lexer)
open RequestParser.StateType
open Lexer (Lexing Progress)
open Overwrite

/-! ## 1. The head that is found -/

/-- The head that the parser finds in what it is shown: the reads, each from `newStart_` on,
and behind a read that is shorter than that, what the buffers hold. -/
def shownHead (sbuffer : Buffer) :
    Buffer → Nat → RequestLexing → List Chunk → Option (List (RequestParser.StateType × Bytes))
  | _, _, _, [] => none
  | bbuffer, n, l, data :: reads =>
    let shown := Scan.available ((bbuffer.fill data).bytes ++ sbuffer.bytes) n data.bytes.length
    match lexer.feed l shown with
    | .refused => none
    | .complete tokens _ => some tokens
    | .reading l' =>
      if n ≤ data.bytes.length then
        shownHead sbuffer (bbuffer.fill data)
          (if shown ≠ [] ∧ lexer.cut l'.state = true then data.bytes.length else 0) l' reads
      else none

/-- A read, in the memory of both buffers. -/
theorem fill_memory (bbuffer sbuffer : Buffer) (data : Chunk) :
    (bbuffer.fill data).bytes ++ sbuffer.bytes
      = overwrite data.bytes (bbuffer.bytes ++ sbuffer.bytes) := by
  have hle : data.bytes.length ≤ bbuffer.bytes.length := by
    rw [bbuffer.size_eq]
    exact data.le
  unfold Overwrite.overwrite Buffer.fill
  rw [List.append_assoc, List.drop_append_of_le_length hle]

/-- What is shown is the read from `n` on, or what lies behind it. -/
theorem available_overwrite (data memory : Bytes) (n : Nat) :
    Scan.available (overwrite data memory) n data.length
      = if n ≤ data.length then data.drop n else memory.drop n := by
  split
  · rename_i h
    rw [Scan.available_of_le h, List.extract_eq_take_drop, Overwrite.overwrite,
      List.drop_append_of_le_length h, List.take_left' (List.length_drop)]
  · rename_i h
    rw [Scan.available_of_lt (by omega), drop_overwrite (by omega)]

/-- The tokens of the head that is found are linked. -/
theorem shownHead_linked {sbuffer : Buffer} (reads : List Chunk) :
    ∀ {bbuffer : Buffer} {n : Nat} {l : RequestLexing}
      {tokens : List (RequestParser.StateType × Bytes)}, Lexer.WellLinked lexer MethodStart l →
      shownHead sbuffer bbuffer n l reads = some tokens →
        Lexer.Linked lexer MethodStart tokens := by
  induction reads with
  | nil => intro bbuffer n l tokens _ h; cases h
  | cons data reads ih =>
    intro bbuffer n l tokens hl h
    have hprogress := hl.feed
      (Scan.available ((bbuffer.fill data).bytes ++ sbuffer.bytes) n data.bytes.length)
    unfold shownHead at h
    cases hf : lexer.feed l
        (Scan.available ((bbuffer.fill data).bytes ++ sbuffer.bytes) n data.bytes.length) with
    | refused => simp [hf] at h
    | complete tokens' rest =>
      rw [hf] at hprogress
      simp only [hf, Option.some.injEq] at h
      exact h ▸ hprogress
    | reading l' =>
      rw [hf] at hprogress
      simp only [hf] at h
      split at h
      · exact ih hprogress h
      · cases h

/-- **Away from the token ends the parser is shown the head that was sent.** -/
theorem shownHead_of_cutFree {sbuffer : Buffer} (reads : List Chunk) :
    ∀ {bbuffer : Buffer} {l : RequestLexing}
      {tokens : List (RequestParser.StateType × Bytes)} {rest : Bytes}, CutFree l reads →
      lexer.feed l (streamOf reads) = .complete tokens rest →
        shownHead sbuffer bbuffer 0 l reads = some tokens := by
  induction reads with
  | nil => intro bbuffer l tokens rest _ hf; cases hf
  | cons data reads ih =>
    intro bbuffer l tokens rest hfree hf
    have hshown : Scan.available ((bbuffer.fill data).bytes ++ sbuffer.bytes) 0
        data.bytes.length = data.bytes := by
      rw [fill_memory, available_overwrite, if_pos (Nat.zero_le _), List.drop_zero]
    rw [streamOf_cons, Lexer.feed_append] at hf
    rw [cutFree_cons] at hfree
    rw [shownHead, hshown]
    cases hdata : lexer.feed l data.bytes with
    | refused => rw [hdata] at hf; cases hf
    | complete tokens' rest' =>
      rw [hdata, Lexer.resume_complete] at hf
      cases hf
      rfl
    | reading l' =>
      rw [hdata, Lexer.resume_reading] at hf
      obtain ⟨hcut, hfree'⟩ := hfree l' hdata
      cases reads with
      | nil => cases hf
      | cons data' reads =>
        dsimp only
        rw [if_pos (Nat.zero_le _), if_neg (by simp [hcut])]
        exact ih hfree' hf

/-! ## 2. The bytes of a head -/

/-- The bytes that a line ends with. -/
def lineEnd (c : Byte) : Bool := c == CR || c == LF

theorem countP_lineEnd_eq_zero {bytes : Bytes} (h : ∀ c ∈ bytes, c ≠ CR ∧ c ≠ LF) :
    bytes.countP lineEnd = 0 := by
  rw [List.countP_eq_zero]
  intro c hc
  simp [lineEnd, (h c hc).1, (h c hc).2]

/-- A head, part by part. -/
structure Head.WellFormed (hd : Head) (version : Bytes) : Prop where
  method : lexer.IsToken MethodStart MethodDone hd.method
  destination : lexer.IsToken MethodDone UriDone hd.destination
  version : lexer.IsToken UriDone VersionDone version
  headers : lexer.IsToken VersionDone HeadersDone hd.headers

/-- The length of the request line. -/
def Head.lineLength (hd : Head) : Nat := hd.method.length + hd.destination.length + 10

/-- The bytes of the head, as the client sent them. -/
def Head.bytes (hd : Head) (version : Bytes) : Bytes :=
  hd.method ++ hd.destination ++ version ++ hd.headers

theorem Head.Is.wellFormed {hd : Head} {tokens : List (RequestParser.StateType × Bytes)}
    (h : hd.Is tokens) (hl : Lexer.Linked lexer MethodStart tokens) :
    ∃ version, hd.WellFormed version ∧ tokens = [(MethodDone, hd.method), (UriDone, hd.destination),
      (VersionDone, version), (HeadersDone, hd.headers)] := by
  obtain ⟨version, rfl⟩ := h
  obtain ⟨h1, h2, h3, h4, -⟩ := hl
  exact ⟨version, ⟨h1, h2, h3, h4⟩, rfl⟩

variable {hd : Head} {version : Bytes}

theorem Head.WellFormed.version_length (h : hd.WellFormed version) : version.length = 10 := by
  obtain ⟨major, minor, rfl, -, -⟩ := RequestParser.isToken_version h.version
  rfl

/-- Every head with these three parts has the same length. -/
theorem Head.WellFormed.length (h : hd.WellFormed version) :
    (hd.bytes version).length = hd.lineLength + hd.headers.length := by
  simp only [Head.bytes, Head.lineLength, List.length_append, h.version_length]

/-- The request line, up to the line end that closes it. -/
theorem Head.WellFormed.requestLine (h : hd.WellFormed version) :
    ∃ letters sep text, hd.method = letters ++ [sep] ∧ (∀ c ∈ letters, c ≠ CR ∧ c ≠ LF) ∧
      version = text ++ [CR, LF] ∧ (∀ c ∈ text, c ≠ CR ∧ c ≠ LF) ∧ text.length = 8 := by
  obtain ⟨letters, sep, hm, -, hupper, -⟩ := RequestParser.isToken_method h.method
  obtain ⟨major, minor, hv, hmajor, hminor⟩ := RequestParser.isToken_version h.version
  refine ⟨letters, sep, _, hm, fun c hc => ne_lineEnd (by decide) (by decide) (hupper c hc), hv,
    ?_, rfl⟩
  have hdigit : ∀ c, is_digit c = true → c ≠ CR ∧ c ≠ LF :=
    fun c hc => ne_lineEnd (by decide) (by decide) hc
  have hword : (ascii "HTTP/").all (fun c => c != CR && c != LF) = true := by decide
  intro c hc
  simp only [List.mem_append, List.mem_cons, List.not_mem_nil, or_false] at hc
  rcases hc with hc | rfl | rfl | rfl
  · simpa using List.all_eq_true.mp hword c hc
  · exact hdigit _ hmajor
  · decide
  · exact hdigit _ hminor

/-- The monitor on what follows the method, and on what follows the target. -/
theorem Head.WellFormed.path_version (h : hd.WellFormed version) :
    Scan.path (Lines.step CR LF) .text (version ++ hd.headers) = some .done := by
  obtain ⟨-, -, text, -, -, rfl, htext, -⟩ := h.requestLine
  rw [List.append_assoc, Scan.path_append, Lines.path_text htext, Option.bind_some]
  exact Scan.path_append_eq_some.mpr ⟨.lineStart, by decide, headers_path h.headers⟩

theorem Head.WellFormed.path_destination (h : hd.WellFormed version) :
    Scan.path (Lines.step CR LF) .text (hd.destination ++ (version ++ hd.headers))
      = some .done := by
  rw [Scan.path_append, Lines.path_text (target_ne_lineEnd h.destination), Option.bind_some]
  exact h.path_version

/-- **In what was sent an empty line is the end.** -/
theorem Head.WellFormed.eq_lf (h : hd.WellFormed version) {before after : Bytes}
    (heq : hd.bytes version = before ++ [CR, LF, CR] ++ after) : after = [LF] := by
  obtain ⟨letters, sep, -, hm, hletters, -⟩ := h.requestLine
  have hfirst : ∀ rest, hd.destination ++ (version ++ hd.headers) ≠ LF :: rest := by
    obtain ⟨target, htarget, hne, hclass⟩ := RequestParser.isToken_target h.destination
    intro rest hrest
    cases target with
    | nil => exact hne rfl
    | cons c target =>
      rw [htarget, List.append_assoc, List.cons_append, List.cons.injEq] at hrest
      have hcntrl := (hclass c (by simp)).1
      rw [hrest.1] at hcntrl
      exact absurd hcntrl (by decide)
  have hsplit : hd.method ++ (hd.destination ++ (version ++ hd.headers))
      = before ++ ([CR, LF, CR] ++ after) := by
    simpa [Head.bytes] using heq
  have hpath := h.path_destination
  rcases List.append_eq_append_iff.mp hsplit with ⟨more, -, hmore⟩ | ⟨front, hfront, hrest⟩
  · rw [hmore, ← List.append_assoc] at hpath
    exact Lines.eq_lf_of_path (by decide) hpath
  · -- the line end would begin in the method, which ends with its separator
    match front with
    | [] =>
      rw [← List.nil_append (hd.destination ++ _), ← hrest,
        ← List.nil_append ([CR, LF, CR] ++ after), ← List.append_assoc] at hpath
      exact Lines.eq_lf_of_path (by decide) hpath
    | [a] => exact absurd (List.cons.inj hrest).2.symm (hfirst _)
    | a :: b :: front =>
      obtain ⟨rfl, -⟩ := List.cons.inj hrest
      obtain ⟨init, last, hconcat⟩ :=
        (List.eq_nil_or_concat (b :: front)).resolve_left (by simp)
      rw [hm, hconcat, List.concat_eq_append, ← List.cons_append, ← List.append_assoc] at hfront
      have hmem : CR ∈ letters := by
        rw [(List.append_inj' hfront rfl).1]
        simp
      exact absurd rfl (hletters CR hmem).1

/-- How many line ends there are in the request line, up to the byte that closes it, and up to
the line end that does. -/
theorem Head.WellFormed.countP_lineEnd (h : hd.WellFormed version) {stream rest : Bytes}
    (heq : hd.bytes version = stream ++ rest) :
    (stream.length < hd.lineLength → stream.countP lineEnd ≤ 2) ∧
      (stream.length + 2 ≤ hd.lineLength → stream.countP lineEnd ≤ 1) := by
  obtain ⟨letters, sep, text, hm, hletters, hv, htext, hlen⟩ := h.requestLine
  set before := letters ++ [sep] ++ hd.destination ++ text with hbefore
  have hsep : [sep].countP lineEnd ≤ 1 := List.countP_le_length
  have hcount : before.countP lineEnd ≤ 1 := by
    rw [hbefore]
    simp only [List.countP_append, countP_lineEnd_eq_zero hletters,
      countP_lineEnd_eq_zero htext, countP_lineEnd_eq_zero (target_ne_lineEnd h.destination)]
    omega
  have hlength : before.length + 2 = hd.lineLength := by
    rw [Head.lineLength, hm, hbefore]
    simp only [List.length_append, hlen, List.length_singleton]
  have hreceived : hd.bytes version = before ++ ([CR] ++ (LF :: hd.headers)) := by
    rw [Head.bytes, hm, hv, hbefore]
    simp
  have hpre : ∀ {bytes more : Bytes}, hd.bytes version = bytes ++ more →
      stream.length ≤ bytes.length → stream.countP lineEnd ≤ bytes.countP lineEnd := by
    intro bytes more hbytes hle
    refine List.Sublist.countP_le (List.IsPrefix.sublist ?_)
    exact List.prefix_of_prefix_length_le ⟨rest, heq.symm⟩ ⟨more, hbytes.symm⟩ hle
  refine ⟨fun hlt => ?_, fun hle => ?_⟩
  · have hbytes := hpre (hreceived.trans (List.append_assoc _ _ _).symm)
      (by rw [List.length_append, List.length_singleton]; omega)
    rw [List.countP_append] at hbytes
    have hone : [CR].countP lineEnd = 1 := by decide
    omega
  · exact (hpre hreceived (by omega)).trans hcount

/-! ## 3. What the buffers hold -/

/-- The memory after the reads of `stream`, for a memory without line ends at first.  It has no
more of them than the stream, and an empty line ends at most three bytes behind the headers that
the stream has brought, as if they lay at its start. -/
structure Overlaid (hd : Head) (version stream memory : Bytes) : Prop where
  count : memory.countP lineEnd ≤ stream.countP lineEnd
  emptyLine : stream.length + 2 ≤ (hd.bytes version).length →
    ∀ e, EndsAt [CR, LF, CR, LF] memory e → e + hd.lineLength ≤ stream.length + 3

theorem countP_prefix_le {xs ys : Bytes} (h : xs <+: ys) :
    xs.countP lineEnd ≤ ys.countP lineEnd :=
  h.sublist.countP_le

/-- **A read keeps it.** -/
theorem Overlaid.overwrite {stream memory : Bytes} (h : Overlaid hd version stream memory)
    (hw : hd.WellFormed version) {data rest : Bytes}
    (heq : hd.bytes version = stream ++ data ++ rest) (hlen : data.length ≤ memory.length) :
    Overlaid hd version (stream ++ data) (overwrite data memory) := by
  refine ⟨?_, fun hmore e hends => ?_⟩
  · have := countP_overwrite_le lineEnd data memory
    have := h.count
    rw [List.countP_append]
    omega
  have hrest : 2 ≤ rest.length := by
    rw [heq] at hmore
    simp only [List.length_append] at hmore
    omega
  -- an empty line does not begin so long before the end
  have hnone : ∀ before after, hd.bytes version = before ++ [CR, LF, CR] ++ after →
      after.length ≤ 1 := fun before after h' => by rw [hw.eq_lf h']; rfl
  rw [List.length_append] at hmore ⊢
  rcases hends.overwrite hlen with ⟨before, after, hdata⟩ | ⟨-, hold⟩ | ⟨front, back, hj, rfl⟩
  · have := hnone (stream ++ before) (LF :: (after ++ rest)) (by rw [heq, ← hdata]; simp)
    simp only [List.length_cons, List.length_append] at this
    omega
  · have := h.emptyLine (by omega) e hold
    omega
  have hback : back.length ≤ 3 := by
    have hsplit := congrArg List.length hj.split
    have hfront := List.length_pos_of_ne_nil hj.front_ne
    simp only [List.length_cons, List.length_nil, List.length_append] at hsplit
    omega
  by_cases hline : hd.lineLength ≤ stream.length
  · omega
  -- no header has been received, and what joins up are line ends of the request line
  obtain ⟨hcount, hcount'⟩ := hw.countP_lineEnd (heq.trans (List.append_assoc stream data rest))
  have hdrop := countP_prefix_le hj.back_prefix
  have hmem := (List.drop_sublist data.length memory).countP_le (p := lineEnd)
  have hle := h.count
  match front, hj with
  | [], hj => exact absurd rfl hj.front_ne
  | [a], hj =>
    obtain rfl : [LF, CR, LF] = back := (List.cons.inj hj.split).2
    have hthree : [LF, CR, LF].countP lineEnd = 3 := by decide
    omega
  | [a, b], hj =>
    obtain rfl : [CR, LF] = back := (List.cons.inj (List.cons.inj hj.split).2).2
    have htwo : [CR, LF].countP lineEnd = 2 := by decide
    simp only [List.length_cons, List.length_nil]
    omega
  | [a, b, c], hj =>
    obtain ⟨before, rfl⟩ := hj.front_suffix
    have hsplit := hj.split
    simp only [List.cons_append, List.nil_append, List.cons.injEq] at hsplit
    obtain ⟨rfl, rfl, rfl, -⟩ := hsplit
    have := hnone (stream ++ before) rest (by rw [heq]; simp)
    omega
  | a :: b :: c :: d :: front, hj =>
    have hsplit := congrArg List.length hj.split
    have hpos := List.length_pos_of_ne_nil hj.back_ne
    simp only [List.length_cons, List.length_nil, List.length_append] at hsplit
    omega

/-- Blank buffers. -/
theorem overlaid_blank : Overlaid hd version [] (blank.bytes ++ blank.bytes) := by
  have hcount : (blank.bytes ++ blank.bytes).countP lineEnd = 0 := by
    rw [List.countP_append, blank, List.countP_replicate]
    decide
  refine ⟨hcount.le, ?_⟩
  rintro - e ⟨before, after, heq, -⟩
  rw [heq, List.countP_append, List.countP_append] at hcount
  have hpattern : [CR, LF, CR, LF].countP lineEnd = 4 := by decide
  omega

/-! ## 4. Behind a cut -/

/-- The last read of the stream, `n` bytes long, ended exactly where a token ended. -/
structure AtCut (hd : Head) (version stream memory : Bytes) (n : Nat) (l : RequestLexing) :
    Prop where
  state : lexer.cut l.state = true
  last : stream.getLast? = l.consumed.getLast?
  read : ∃ before data old, stream = before ++ data ∧ memory = overwrite data old ∧
    data.length = n ∧ n ≤ old.length ∧ Overlaid hd version before old

/-- A tokenisation that is behind the stream, or level with it. -/
structure Follows (hd : Head) (version stream memory : Bytes) (n : Nat) (l : RequestLexing) :
    Prop where
  linked : Lexer.WellLinked lexer MethodStart l
  overlaid : Overlaid hd version stream memory
  consumed : l.consumed.length ≤ stream.length
  cut : n ≠ 0 → AtCut hd version stream memory n l

/-- A read that is no shorter than `n` loses `n` bytes. -/
theorem Follows.read {stream memory data rest : Bytes} {n : Nat} {l l' : RequestLexing}
    (h : Follows hd version stream memory n l) (hw : hd.WellFormed version)
    (heq : hd.bytes version = stream ++ data ++ rest) (hlen : data.length ≤ memory.length)
    (hle : n ≤ data.length) (hf : lexer.feed l (data.drop n) = .reading l') :
    l'.consumed.length + n = l.consumed.length + data.length ∧
      Follows hd version (stream ++ data) (overwrite data memory)
        (if data.drop n ≠ [] ∧ lexer.cut l'.state = true then data.length else 0) l' := by
  have hconsumed := Lexer.feed_reading_consumed hf
  have hlinked := h.linked.feed (data.drop n)
  rw [hf] at hlinked
  have hlength : l'.consumed.length + n = l.consumed.length + data.length := by
    rw [hconsumed, List.length_append, List.length_drop]
    omega
  refine ⟨hlength, hlinked, h.overlaid.overwrite hw heq hlen, ?_, fun hne => ?_⟩
  · have := h.consumed
    rw [List.length_append]
    omega
  · obtain ⟨⟨hdrop, hcut⟩, hdata⟩ : (data.drop n ≠ [] ∧ lexer.cut l'.state = true) ∧
        (if data.drop n ≠ [] ∧ lexer.cut l'.state = true then data.length else 0)
          = data.length := by
      split at hne
      · rename_i hc
        exact ⟨hc, if_pos hc⟩
      · exact absurd rfl hne
    have hdata_ne : data ≠ [] := by
      rintro rfl
      exact hdrop (by simp)
    have hlt : n < data.length := List.length_pos_of_ne_nil hdrop |> fun hpos => by
      rw [List.length_drop] at hpos
      omega
    rw [hdata]
    refine ⟨hcut, ?_, stream, data, memory, rfl, rfl, rfl, hlen, h.overlaid⟩
    rw [hconsumed, List.getLast?_append_of_ne_nil _ hdrop,
      List.getLast?_append_of_ne_nil _ hdata_ne, List.getLast?_drop, if_neg (by omega)]

/-- What a head still lacks at a cut. -/
theorem remaining_of_cut {l : RequestLexing} (hl : Lexer.WellLinked lexer MethodStart l)
    (hcut : lexer.cut l.state = true)
    (hpre : l.tokens <+: [(MethodDone, hd.method), (UriDone, hd.destination),
      (VersionDone, version), (HeadersDone, hd.headers)]) :
    ∃ bytes, hd.bytes version = l.consumed ++ bytes ∧
      (bytes = hd.destination ++ (version ++ hd.headers) ∨ bytes = version ++ hd.headers ∨
        bytes = hd.headers ∧ l.consumed = hd.method ++ hd.destination ++ version) := by
  have hpart := hl.part_eq_nil hcut
  have hstate : l.state = Lexer.endState MethodStart l.tokens := by
    have := hl.part
    rw [hpart] at this
    exact (Option.some.inj this).symm
  unfold Lexer.Lexing.consumed
  rw [hpart, List.append_nil]
  obtain ⟨more, hmore⟩ := hpre
  rcases htokens : l.tokens with _ | ⟨p, _ | ⟨q, _ | ⟨r, _ | ⟨s, toks⟩⟩⟩⟩
  · rw [hstate, htokens] at hcut
    exact absurd hcut (by decide)
  · rw [htokens] at hmore
    obtain rfl := (List.cons.inj hmore).1
    exact ⟨_, by simp [Head.bytes], Or.inl rfl⟩
  · rw [htokens] at hmore
    simp only [List.cons_append, List.cons.injEq] at hmore
    obtain ⟨rfl, rfl, -⟩ := hmore
    exact ⟨_, by simp [Head.bytes], Or.inr (Or.inl rfl)⟩
  · rw [htokens] at hmore
    simp only [List.cons_append, List.cons.injEq] at hmore
    obtain ⟨rfl, rfl, rfl, -⟩ := hmore
    exact ⟨_, by simp [Head.bytes], Or.inr (Or.inr ⟨rfl, by simp⟩)⟩
  · -- a complete head does not end in a cut state
    rw [htokens] at hmore
    simp only [List.cons_append, List.cons.injEq] at hmore
    obtain ⟨rfl, rfl, rfl, rfl, hnil⟩ := hmore
    rw [(List.append_eq_nil_iff.mp hnil).1] at htokens
    rw [hstate, htokens] at hcut
    exact absurd (show lexer.cut HeadersDone = true from hcut) (by decide)

/-- A line end behind a read, where nothing but an empty line is still to come: the read has ended
inside the empty line. -/
theorem Overlaid.inside_emptyLine {before read data rest old left : Bytes}
    (h : Overlaid hd version before old) (hw : hd.WellFormed version)
    (hempty : hd.headers = [CR, LF]) (heq : hd.bytes version = before ++ read ++ data ++ rest)
    (hpos : 0 < data.length) (hlt : data.length < read.length)
    (hdrop : old.drop read.length = [CR, LF] ++ left) :
    before ++ read = hd.method ++ hd.destination ++ version ++ [CR] := by
  have hbefore : hd.bytes version = before ++ (read ++ data ++ rest) := by
    rw [heq]
    simp only [List.append_assoc]
  obtain ⟨-, hcount⟩ := hw.countP_lineEnd hbefore
  have htwo : 2 ≤ old.countP lineEnd := by
    have hsub := (List.drop_sublist read.length old).countP_le (p := lineEnd)
    rw [hdrop, List.countP_append, show [CR, LF].countP lineEnd = 2 by decide] at hsub
    omega
  have hle := h.count
  have htotal := hw.length
  rw [heq, hempty] at htotal
  simp only [List.length_append, List.length_cons, List.length_nil] at htotal
  have hsplit : before ++ read ++ (data ++ rest)
      = hd.method ++ hd.destination ++ version ++ [CR] ++ [LF] := by
    rw [← List.append_assoc, ← heq, Head.bytes, hempty]
    simp
  refine (List.append_inj hsplit ?_).1
  have hlength : (hd.method ++ hd.destination ++ version ++ [CR]).length = hd.lineLength + 1 := by
    simp only [Head.lineLength, List.length_append, hw.version_length, List.length_singleton]
  rw [hlength, List.length_append]
  by_cases hline : before.length + 2 ≤ hd.lineLength
  · have := hcount hline
    omega
  · omega

/-- **What the reads before have left does not complete the head** that was sent: an empty line
in it lies too near to the start of the buffer. -/
theorem Follows.not_head {stream memory data rest : Bytes} {n : Nat} {l : RequestLexing}
    (h : Follows hd version stream memory n l) (hw : hd.WellFormed version)
    (heq : hd.bytes version = stream ++ data ++ rest) (hpos : 0 < data.length)
    (hlt : data.length < n) {tokens : List (RequestParser.StateType × Bytes)} {left : Bytes}
    (hf : lexer.feed l (memory.drop n) = .complete tokens left) : ¬ hd.Is tokens := by
  intro his
  obtain ⟨hcut, hlast, before, read, old, rfl, rfl, rfl, hold, hoverlaid⟩ := h.cut (by omega)
  rw [drop_overwrite (Nat.le_refl _)] at hf
  have hlinked := h.linked.feed (old.drop read.length)
  have hpre := Lexer.feed_extends (L := lexer) (old.drop read.length) l
  rw [hf] at hlinked hpre
  obtain ⟨version', hw', rfl⟩ := his.wellFormed hlinked
  obtain ⟨bytes, hbytes, hcases⟩ := remaining_of_cut h.linked hcut hpre
  have hdrop : old.drop read.length = bytes ++ left := by
    have hflat := Lexer.feed_complete_bytes hf
    have hreceived : Lexer.bytesOf [(MethodDone, hd.method), (UriDone, hd.destination),
        (VersionDone, version'), (HeadersDone, hd.headers)] = hd.bytes version' := by
      simp [Head.bytes]
    rw [hreceived, hbytes, List.append_assoc] at hflat
    exact (List.append_cancel_left hflat).symm
  have htotal := hw.length
  rw [heq] at htotal
  simp only [List.length_append] at htotal
  -- the empty line that ends what is missing lies `headers` behind the cut, at least
  have hends : ∀ init, bytes = init ++ [CR, LF, CR, LF] → hd.headers.length ≤ bytes.length →
      False := by
    intro init hinit hle
    have hsplit : old.drop read.length = init ++ [CR, LF, CR, LF] ++ left := by rw [hdrop, hinit]
    have hends := hoverlaid.emptyLine (by rw [hw.length]; omega) _ (endsAt_of_drop hsplit hold)
    rw [hinit, List.length_append] at hle
    simp only [List.length_cons, List.length_nil] at hends hle
    omega
  rcases hcases with hb | hb | ⟨hb, hconsumed⟩
  · obtain ⟨init, hinit⟩ := Lines.ends_of_path hw'.path_destination
    refine hends init (hb.trans hinit) ?_
    rw [hb]
    simp only [List.length_append]
    omega
  · obtain ⟨init, hinit⟩ := Lines.ends_of_path hw'.path_version
    refine hends init (hb.trans hinit) ?_
    rw [hb]
    simp only [List.length_append]
    omega
  · rcases Lines.emptyLine_or_ends_of_path (by decide) (headers_path hw.headers) with
      hempty | ⟨init, hinit⟩
    · rw [hb, hempty] at hdrop
      have hinside := hoverlaid.inside_emptyLine hw hempty heq hpos hlt hdrop
      obtain ⟨-, -, text, -, -, hversion, -⟩ := hw'.requestLine
      rw [hinside, hconsumed, hversion, List.getLast?_concat, ← List.append_assoc] at hlast
      rw [show [CR, LF] = [CR] ++ [LF] from rfl, ← List.append_assoc, List.getLast?_concat] at hlast
      exact absurd (Option.some.inj hlast) (by decide)
    · exact hends init (hb.trans hinit) (by rw [hb])

/-! ## 5. Partitions -/

theorem fits_memory (bbuffer sbuffer : Buffer) (data : Chunk) :
    data.bytes.length ≤ (bbuffer.bytes ++ sbuffer.bytes).length := by
  have hle := data.le
  rw [List.length_append, bbuffer.size_eq]
  omega

/-- **Once bytes are lost, the head is.** -/
theorem Follows.lost (hw : hd.WellFormed version) (reads : List Chunk) :
    ∀ {stream : Bytes} {bbuffer : Buffer} {n : Nat} {l : RequestLexing},
      Follows hd version stream (bbuffer.bytes ++ blank.bytes) n l →
      n ≠ 0 ∨ l.consumed.length < stream.length →
      hd.bytes version = stream ++ streamOf reads →
      ∀ tokens, shownHead blank bbuffer n l reads = some tokens → ¬ hd.Is tokens := by
  induction reads with
  | nil => intro stream bbuffer n l _ _ _ tokens h; cases h
  | cons data reads ih =>
    intro stream bbuffer n l h hlost heq tokens hshown his
    rw [streamOf_cons, ← List.append_assoc] at heq
    rw [shownHead, fill_memory, available_overwrite] at hshown
    by_cases hle : n ≤ data.bytes.length
    · rw [if_pos hle] at hshown
      cases hf : lexer.feed l (data.bytes.drop n) with
      | refused => simp [hf] at hshown
      | complete tokens' left =>
        simp only [hf, Option.some.injEq] at hshown
        subst hshown
        have hlinked := h.linked.feed (data.bytes.drop n)
        rw [hf] at hlinked
        obtain ⟨version', hw', htokens⟩ := his.wellFormed hlinked
        have hbytes := congrArg List.length (Lexer.feed_complete_bytes hf)
        have hreceived : (Lexer.bytesOf tokens').length = (hd.bytes version').length := by
          simp [htokens, Head.bytes]
        have htotal := hw.length
        have hconsumed := h.consumed
        rw [List.length_append, hreceived, hw'.length, List.length_append,
          List.length_drop] at hbytes
        rw [heq] at htotal
        simp only [List.length_append] at htotal
        omega
      | reading l' =>
        simp only [hf, if_pos hle] at hshown
        obtain ⟨hlength, hfollows⟩ := h.read hw heq (fits_memory _ _ _) hle hf
        rw [← fill_memory] at hfollows
        refine ih hfollows (Or.inr ?_) heq tokens hshown his
        have := h.consumed
        rw [List.length_append]
        omega
    · rw [if_neg hle] at hshown
      cases hf : lexer.feed l ((bbuffer.bytes ++ blank.bytes).drop n) with
      | refused => simp [hf] at hshown
      | reading l' => simp [hf, hle] at hshown
      | complete tokens' left =>
        simp only [hf, Option.some.injEq] at hshown
        exact h.not_head hw heq data.pos (by omega) hf (hshown ▸ his)

/-- **The head that was sent is found only if no cut is at a token end.** -/
theorem cutFree_of_shownHead (hw : hd.WellFormed version) (reads : List Chunk) :
    ∀ {stream : Bytes} {bbuffer : Buffer} {l : RequestLexing},
      Follows hd version stream (bbuffer.bytes ++ blank.bytes) 0 l →
      hd.bytes version = stream ++ streamOf reads →
      ∀ tokens, shownHead blank bbuffer 0 l reads = some tokens → hd.Is tokens →
        CutFree l reads := by
  induction reads with
  | nil => exact fun _ _ _ _ _ => cutFree_nil _
  | cons data reads ih =>
    intro stream bbuffer l h heq tokens hshown his
    rw [streamOf_cons, ← List.append_assoc] at heq
    rw [cutFree_cons]
    intro l' hf
    obtain ⟨-, hfollows⟩ := h.read hw heq (fits_memory _ _ _) (Nat.zero_le _) hf
    rw [shownHead, fill_memory, available_overwrite, if_pos (Nat.zero_le _),
      List.drop_zero] at hshown
    simp only [hf, if_pos (Nat.zero_le _)] at hshown
    rw [← fill_memory, List.drop_zero] at hfollows
    have hne : data.bytes ≠ [] := List.ne_nil_of_length_pos data.pos
    cases hcut : lexer.cut l'.state with
    | false =>
      rw [if_neg (by simp [hcut])] at hshown hfollows
      exact ⟨fun _ => rfl, ih hfollows heq tokens hshown his⟩
    | true =>
      rw [if_pos ⟨hne, hcut⟩] at hshown hfollows
      have hpos := data.pos
      exact absurd his (hfollows.lost hw reads (Or.inl (by omega)) heq tokens hshown)

end HttpConnection

end TwoProxy
