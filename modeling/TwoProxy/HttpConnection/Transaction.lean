/-
# One transaction, from the first byte to the last

What the other modules say of the parts of a connection, put together for the connection that
works: the client sends one request, in reads that do not end where a token ends, the name in
its target is resolved, one of the endpoints answers, the writes succeed, and the first read of
the response has its head in it.  Such a transaction can always be gone through, however the
writes are taken from memory, and whenever it is the server has been sent the head, printed
anew, the browser the response, byte for byte, and the connection has been deleted
(`transaction_completes`).
-/
import TwoProxy.HttpConnection.Cuts
import TwoProxy.HttpConnection.Dials
import TwoProxy.HttpConnection.Upstream
import TwoProxy.HttpConnection.Wire

namespace TwoProxy

namespace HttpConnection

open RequestParser (lexer)
open RequestParser.StateType
open Lexer (Lexing Progress)
open Transition

/-! ## 1. The completions -/

/-- The answer of a resolver that lists these endpoints. -/
def resolved (failed : List Endpoint) (endpoint : Endpoint) (behind : List Endpoint) :
    Endpoint × List Endpoint :=
  match failed with
  | [] => (endpoint, behind)
  | first :: failed => (first, failed ++ endpoint :: behind)

/-- The attempts: some fail, and the one at `endpoint` succeeds. -/
def dialled (endpoint : Endpoint) (behind : List Endpoint) : List Endpoint → List Event
  | [] => [.connect endpoint behind false]
  | first :: failed =>
    .connect first (failed ++ endpoint :: behind) true :: dialled endpoint behind failed

/-- A request, the way to a server, and its response. -/
def transaction (requestReads : List Chunk) (host port : Bytes) (failed : List Endpoint)
    (endpoint : Endpoint) (behind : List Endpoint) (fReq : Bytes)
    (responseReads : List Chunk) : List Event :=
  requestReads.map delivery ++
    (.resolve host port (some (resolved failed endpoint behind)) ::
      (dialled endpoint behind failed ++ (.serverWrite fReq false :: response responseReads)))

/-- The bytes of the server reads. -/
def serverStream (es : List Event) : Bytes :=
  es.flatMap fun
    | .serverRead (some c) => c.bytes
    | _ => []

/-! ## 2. The request -/

theorem streamOf_eq_nil {reads : List Chunk} (h : streamOf reads = []) : reads = [] := by
  cases reads with
  | nil => rfl
  | cons c reads =>
    rw [streamOf_cons, List.append_eq_nil_iff] at h
    exact absurd (congrArg List.length h.1) c.pos.ne'

/-- **Reads that make up one request with an accepted target are served.** -/
theorem Reading.requests {tokens : List (RequestParser.StateType × Bytes)}
    (hu : HasAuthority (targetOf tokens)) (reads : List Chunk) :
    ∀ {w : World} {l : RequestLexing}, Reading w l → w.conn.newStart_ = 0 → CutFree l reads →
      lexer.feed l (streamOf reads) = .complete tokens [] →
        ∃ (w' : World) (hd : Head) (host port : Bytes), Run step w (reads.map delivery) w' ∧
          Serving hd w' ∧ hd.Is tokens ∧ w'.pending = [.resolve host port] ∧
            .start (.resolve host port) ∈ w'.trace := by
  induction reads with
  | nil =>
    intro w l _ _ _ hf
    cases hf
  | cons c reads ih =>
    intro w l h h0 hfree hf
    obtain ⟨w', hs, hturn⟩ := h.delivers c
    have hparsed := parsed_of_begin h0 c
    rw [streamOf_cons, Lexer.feed_append] at hf
    cases hturn with
    | refused line feed =>
      rw [← hparsed, feed] at hf
      cases hf
    | rejected hd tokens' rest feed isHead uri =>
      rw [← hparsed, feed, Lexer.resume_complete, Progress.complete.injEq] at hf
      obtain ⟨rfl, -⟩ := hf
      rw [uriAccepted_iff, ← isHead.targetOf] at uri
      exact absurd hu uri
    | overruns l' feed inverted => omega
    | connects hd tokens' rest feed isHead uri hserv host port trace pending =>
      rw [← hparsed, feed, Lexer.resume_complete, Progress.complete.injEq] at hf
      obtain ⟨rfl, hrest⟩ := hf
      obtain rfl := streamOf_eq_nil (List.append_eq_nil_iff.mp hrest).2
      exact ⟨w', hd, host, port, .single hs, hserv, isHead, pending, by simp [trace]⟩
    | continues l' feed inOrder hread newStart =>
      rw [hparsed] at feed
      rw [feed, Lexer.resume_reading] at hf
      obtain ⟨hcut, hfree'⟩ := cutFree_cons.mp hfree l' feed
      have hne : reads ≠ [] := by
        rintro rfl
        cases hf
      have hbegin : w'.conn.newStart_ = 0 := by rw [newStart, if_neg (by simp [hcut hne])]
      obtain ⟨w'', hd, host, port, hrun, hserv⟩ := ih hread hbegin hfree' hf
      exact ⟨w'', hd, host, port, .cons hs hrun, hserv⟩

/-! ## 3. The server -/

variable {hd : Head} {w w' : World}

theorem Serving.kept {e : Event} (h : Serving hd w) (hs : step w e = some w')
    (hp : w'.pending ≠ []) : Serving hd w' :=
  (h.kept_or_ended hs).resolve_right hp

/-- The endpoints in order. -/
theorem resolved_cons (failed : List Endpoint) (endpoint : Endpoint) (behind : List Endpoint) :
    failed ++ endpoint :: behind =
      (resolved failed endpoint behind).1 :: (resolved failed endpoint behind).2 := by
  cases failed <;> rfl

/-- The attempts lead to the write of the request. -/
theorem Serving.dials (endpoint : Endpoint) (behind : List Endpoint) (failed : List Endpoint) :
    ∀ {w : World}, Serving hd w →
      w.pending = [.connect (resolved failed endpoint behind).1
        (resolved failed endpoint behind).2] →
      ∃ w', Run step w (dialled endpoint behind failed) w' ∧ Serving hd w' ∧
        w'.pending = [.serverWrite hd.request] ∧ w'.conn.fReq = hd.request := by
  induction failed with
  | nil =>
    intro w h hp
    have hs := step_of_pending (e := .connect endpoint behind false) h.running hp
    have hserv := h.kept hs (by simp [handle, HandleConnect, StartWriteToServer, World.start])
    refine ⟨_, .single hs, hserv, ?_, ?_⟩
    · rw [← h.head.request]
      rfl
    · rw [← h.head.request]
      rfl
  | cons first failed ih =>
    intro w h hp
    have hs := step_of_pending (e := .connect first (failed ++ endpoint :: behind) true)
      h.running hp
    have hnext : handle { w with pending := [] }
        (.connect first (failed ++ endpoint :: behind) true) =
          World.start { w with pending := [] } (.connect (resolved failed endpoint behind).1
            (resolved failed endpoint behind).2) := by
      rw [resolved_cons]
      rfl
    rw [hnext] at hs
    obtain ⟨w', hrun, hserv⟩ := ih (h.kept hs (by simp [World.start])) rfl
    exact ⟨w', .cons hs hrun, hserv⟩

/-- Only the write of the request sets `fReq`. -/
theorem ServingMove.fReq {e : Event} (h : ServingMove w e w')
    (hne : ∀ endpoint ahead, e ≠ .connect endpoint ahead false) :
    w'.conn.fReq = w.conn.fReq := by
  cases h with
  | connected endpoint ahead => exact absurd rfl (hne endpoint ahead)
  | forwards data c only | refuses data c only => exact only.fReq
  | unresolved | exhausted | unwritten | ends | undelivered => exact Shutdown_fReq _
  | resolved | retries | written | delivered => rfl

theorem Serving.run_fReq {es : List Event} (hrun : Run step w es w') (h : Serving hd w)
    (hes : ∀ endpoint ahead, .connect endpoint ahead false ∉ es) :
    w'.conn.fReq = w.conn.fReq := by
  induction hrun with
  | nil => rfl
  | @cons w w₁ w' e es hs hrun ih =>
    have hne : ∀ endpoint ahead, e ≠ .connect endpoint ahead false := by
      rintro endpoint ahead rfl
      exact hes endpoint ahead List.mem_cons_self
    have hfirst := (h.move hs).fReq hne
    rcases h.kept_or_ended hs with hserv | hended
    · exact (ih hserv fun _ _ he => hes _ _ (List.mem_cons_of_mem _ he)).trans hfirst
    · cases hrun with
      | nil => exact hfirst
      | cons hs' _ => exact absurd hs' (step_ne_some hended)

/-! ## 4. The response -/

/-- The end of the response. -/
theorem Relaying.closes {start : Nat} (h : Relaying start w) :
    ∃ w', Run step w (response []) w' := by
  have hs := step_of_pending (e := .serverRead none) h.running h.pending
  exact ⟨_, .single hs⟩

/-- Behind the head every read is passed on. -/
theorem Relaying.relays (reads : List Chunk) :
    ∀ {w : World}, Relaying 0 w → w.conn.responseParser_ = .HttpHeadersDone →
      ∃ w', Run step w (response reads) w' := by
  induction reads with
  | nil => exact fun h _ => h.closes
  | cons c reads ih =>
    intro w h hdone
    rcases h.read (by decide) c with ⟨href, -⟩ | ⟨-, w₁, hrun, h₁, -, -, hstate⟩
    · rw [hdone] at href
      exact absurd href (not_refusesFrom_done _)
    · rw [hdone, Scan.scan_stop] at hstate
      obtain ⟨w₂, hrest⟩ := ih h₁ hstate
      exact ⟨w₂, hrun.append hrest⟩

open Grammar ResponseParser in
/-- **A response whose head is in the first read is relayed to its end.** -/
theorem Reaches.relays {es : List Event} {b : Bytes}
    (h : Reaches (es ++ [.serverWrite b false]) w) {c : Chunk}
    (hhead : ∃ v, v <+: c.bytes ∧ v ∈ many isLeading * acceptedHead) (reads : List Chunk) :
    ∃ w', Run step w (response (c :: reads)) w' := by
  obtain ⟨hr, hparser, -⟩ := h.relaying
  rw [← accepted_HttpResponseBegin, ← Scan.scan_ok_iff_exists (by decide)] at hhead
  rcases hr.read (by decide) c with ⟨href, -⟩ | ⟨-, w₁, hrun, h₁, -, -, hstate⟩
  · rw [RefusesFrom, hparser, answered_sbuffer hr.start, hhead] at href
    cases href
  · rw [hparser, answered_sbuffer hr.start, Scan.scan_state_of_ok hhead] at hstate
    obtain ⟨w₂, hrest⟩ := Relaying.relays reads h₁ hstate
    exact ⟨w₂, hrun.append hrest⟩

/-! ## 5. From end to end -/

/-- The handlers can be run through a transaction. -/
theorem transaction_runs {tokens : List (RequestParser.StateType × Bytes)}
    {requestReads : List Chunk} {c : Chunk}
    (hrequest : lexer.feed (.start MethodStart) (streamOf requestReads) = .complete tokens [])
    (hcut : CutFree (.start MethodStart) requestReads) (htarget : HasAuthority (targetOf tokens))
    (hhead : ∃ v, v <+: c.bytes ∧
      v ∈ Grammar.many ResponseParser.isLeading * ResponseParser.acceptedHead)
    (failed : List Endpoint) (endpoint : Endpoint) (behind : List Endpoint)
    (responseReads : List Chunk) (bbuffer sbuffer : Buffer) (newStart_ newServerReadStart_ : Nat) :
    ∃ (hd : Head) (host port : Bytes) (w : World), hd.Is tokens ∧
      ParseUri sizeBits hd.destination [] [] = some (true, host, port) ∧
      Run step (started bbuffer sbuffer newStart_ newServerReadStart_)
        (transaction requestReads host port failed endpoint behind hd.request
          (c :: responseReads)) w ∧ w.conn.fReq = hd.request := by
  obtain ⟨w₀, hd, host, port, hread, hserv₀, hhd, hp, hstart⟩ := Reading.requests htarget
    requestReads (started_reading bbuffer sbuffer newStart_ newServerReadStart_) rfl hcut hrequest
  have huri : ParseUri sizeBits w₀.conn.message_.destination_ [] [] = some (true, host, port) :=
    Reaches.grounded ⟨bbuffer, sbuffer, newStart_, newServerReadStart_, hread⟩ |>.trace _ hstart
  have hresolve := step_of_pending
    (e := .resolve host port (some (resolved failed endpoint behind))) hserv₀.running hp
  obtain ⟨w₁, hdial, hserv₁, hwrite, hfReq⟩ :=
    (hserv₀.kept hresolve (by simp [handle, HandleResolve, World.start])).dials
      endpoint behind failed rfl
  have hwritten := step_of_pending (e := .serverWrite hd.request false) hserv₁.running hwrite
  have hasked := (hread.append (.cons hresolve hdial)).append (.single hwritten)
  obtain ⟨w, hresponse⟩ := Reaches.relays
    ⟨bbuffer, sbuffer, newStart_, newServerReadStart_, hasked⟩ hhead responseReads
  refine ⟨hd, host, port, w, hhd, hserv₀.head.destination ▸ huri, ?_, ?_⟩
  · exact hread.append (.cons hresolve (hdial.append (.cons hwritten hresponse)))
  · rw [← hfReq]
    exact hserv₁.run_fReq (.cons hwritten hresponse) (by simp [response, replies])

@[simp] theorem serverStream_append (es es' : List Event) :
    serverStream (es ++ es') = serverStream es ++ serverStream es' :=
  List.flatMap_append

theorem serverStream_replies (reads : List Chunk) :
    serverStream (replies reads) = streamOf reads := by
  induction reads with
  | nil => rfl
  | cons c reads ih =>
    rw [replies, List.flatMap_cons, serverStream_append, streamOf_cons]
    exact congrArg₂ (· ++ ·) (List.append_nil _) ih

/-- What the server sends in a transaction is its response. -/
theorem serverStream_transaction (requestReads : List Chunk) (host port : Bytes)
    (failed : List Endpoint) (endpoint : Endpoint) (behind : List Endpoint) (fReq : Bytes)
    (responseReads : List Chunk) :
    serverStream (transaction requestReads host port failed endpoint behind fReq responseReads) =
      streamOf responseReads := by
  have hrequest : serverStream (requestReads.map delivery) = [] := by
    simp [serverStream, delivery]
  have hdialled : serverStream (dialled endpoint behind failed) = [] := by
    induction failed with
    | nil => rfl
    | cons first failed ih => exact ih
  have hanswer : ∀ es, serverStream (.serverWrite fReq false :: es) = serverStream es :=
    fun _ => rfl
  have hresolve : ∀ r es, serverStream (.resolve host port r :: es) = serverStream es :=
    fun _ _ => rfl
  rw [transaction, serverStream_append, hrequest, List.nil_append, hresolve, serverStream_append,
    hdialled, List.nil_append, hanswer, response, serverStream_append, serverStream_replies]
  exact List.append_nil _

/-- What has been read from the server socket is what the completions have delivered. -/
theorem Wired.run_fromServer {v v' : Wired} {ws : List WireEvent}
    (h : Run Wired.step v ws v') :
    v'.fromServer = v.fromServer ++ serverStream (delivered ws) := by
  induction h with
  | nil v => exact (List.append_nil _).symm
  | @cons v v₁ v' a ws hs _ ih =>
    rcases Wired.step_cases hs with ⟨op, n, rfl, -, -, -, rfl⟩ | ⟨e, w, rfl, -, -, rfl⟩
    · have hsame : (v.transfer op n).fromServer = v.fromServer := by cases op <;> rfl
      rw [ih, hsame, delivered_transfer]
    · have hread : (v.resume w e).fromServer = v.fromServer ++ serverStream [e] := by
        unfold Wired.resume
        split <;> simp_all [serverStream]
      rw [ih, hread, delivered_complete, List.append_assoc, ← serverStream_append]
      rfl

/-- Where nothing is pending, nothing goes over the sockets any more. -/
theorem Wired.run_of_ended {v v' : Wired} {ws : List WireEvent} (hp : v.world.pending = [])
    (h : Run Wired.step v ws v') : v' = v := by
  cases h with
  | nil => rfl
  | cons hs _ =>
    rcases Wired.step_cases hs with ⟨op, n, -, hop, -⟩ | ⟨e, w, -, -, hw, -⟩
    · rw [hp] at hop
      cases hop
    · exact absurd hw (step_ne_some hp)

/-- A deleted connection has nothing pending. -/
theorem Phase.pending_of_deleted {w : World} (h : Phase w) (hd : w.deleted = 1) :
    w.pending = [] := by
  cases h with
  | reading l h => simp [h.running.deleted] at hd
  | serving hd' h => simp [h.running.deleted] at hd
  | closed h => exact h.pending
  | stalled h => exact h.pending

/-- **The end of the response**: whatever the sockets did, both sides have everything. -/
theorem WireReaches.ended {ws : List WireEvent} {v : Wired} (h : WireReaches ws v)
    {es : List Event} (hes : delivered ws = es ++ [.serverRead none]) :
    v.world.deleted = 1 ∧ v.toServer = v.world.conn.fReq ∧ v.toBrowser = v.fromServer := by
  obtain ⟨bbuffer, sbuffer, newStart_, newServerReadStart_, hrun⟩ := h
  obtain ⟨ws₁, ws₂, rfl, -, hlast⟩ := List.filterMap_eq_append_iff.mp hes
  obtain ⟨idle, a, late, rfl, -, ha, -⟩ := List.filterMap_eq_cons_iff.mp hlast
  obtain rfl : a = .complete (.serverRead none) := by
    cases a with
    | transfer op n => cases ha
    | complete e => exact congrArg _ (Option.some.inj ha)
  obtain ⟨u, hbefore, hrest⟩ := hrun.split
  obtain ⟨u₁, hidle, hrest⟩ := hrest.split
  cases hrest with
  | @cons _ u₂ _ _ _ hs hlate =>
    have hu₁ : Intact u₁ := WireReaches.intact
      ⟨bbuffer, sbuffer, newStart_, newServerReadStart_, hbefore.append hidle⟩
    have hended := hu₁.ended hs
    obtain rfl := Wired.run_of_ended ((hu₁.step hs).phase.pending_of_deleted hended.1) hlate
    exact hended

/-- **Whenever a transaction is gone through**, both sides have everything in the end. -/
theorem transaction_ends {requestReads responseReads : List Chunk} {host port fReq : Bytes}
    {failed behind : List Endpoint} {endpoint : Endpoint} {bbuffer sbuffer : Buffer}
    {newStart_ newServerReadStart_ : Nat} {w : World} {ws : List WireEvent} {v : Wired}
    (hrun : Run step (started bbuffer sbuffer newStart_ newServerReadStart_)
      (transaction requestReads host port failed endpoint behind fReq responseReads) w)
    (hfReq : w.conn.fReq = fReq)
    (hws : Run Wired.step
      (Wired.start (started bbuffer sbuffer newStart_ newServerReadStart_)) ws v)
    (hes : delivered ws =
      transaction requestReads host port failed endpoint behind fReq responseReads) :
    v.world = w ∧ v.world.deleted = 1 ∧ v.toServer = fReq ∧
      v.toBrowser = streamOf responseReads := by
  have hworld : v.world = w := by
    have hrun' := Wired.run_delivered hws
    rw [hes] at hrun'
    exact hrun'.unique hrun
  have hlast : delivered ws = (requestReads.map delivery ++
      (.resolve host port (some (resolved failed endpoint behind)) ::
        (dialled endpoint behind failed ++
          (.serverWrite fReq false :: replies responseReads)))) ++ [.serverRead none] := by
    simp [hes, transaction, response]
  obtain ⟨hdeleted, hserver, hbrowser⟩ := WireReaches.ended
    ⟨bbuffer, sbuffer, newStart_, newServerReadStart_, hws⟩ hlast
  have hfrom := Wired.run_fromServer hws
  rw [hes, serverStream_transaction] at hfrom
  exact ⟨hworld, hdeleted, by rw [hserver, hworld, hfReq], hbrowser.trans hfrom⟩

/-- **One transaction, from end to end.**  Let the client send one request in reads none of
which but the last ends where a token ends, with a target that `ParseUri` accepts; let the
resolver list any endpoints, of which the first ones fail and one answers; and let the first
read of the response have a head in it.  Then the transaction can be gone through, and
whenever it is, whatever the buffers hold at first and however the writes are taken from
memory, the connection is deleted in the end, the server has been sent the request, and the
browser the response. -/
theorem transaction_completes {tokens : List (RequestParser.StateType × Bytes)}
    {requestReads : List Chunk} {c : Chunk}
    (hrequest : lexer.feed (.start MethodStart) (streamOf requestReads) = .complete tokens [])
    (hcut : CutFree (.start MethodStart) requestReads) (htarget : HasAuthority (targetOf tokens))
    (hhead : ∃ v, v <+: c.bytes ∧
      v ∈ Grammar.many ResponseParser.isLeading * ResponseParser.acceptedHead)
    (failed : List Endpoint) (endpoint : Endpoint) (behind : List Endpoint)
    (responseReads : List Chunk) (bbuffer sbuffer : Buffer) (newStart_ newServerReadStart_ : Nat) :
    ∃ (hd : Head) (host port : Bytes), hd.Is tokens ∧
      ParseUri sizeBits hd.destination [] [] = some (true, host, port) ∧
      let es := transaction requestReads host port failed endpoint behind hd.request
        (c :: responseReads)
      let v₀ := Wired.start (started bbuffer sbuffer newStart_ newServerReadStart_)
      (∃ ws v, Run Wired.step v₀ ws v ∧ delivered ws = es) ∧
        ∀ ws v, Run Wired.step v₀ ws v → delivered ws = es →
          v.world.deleted = 1 ∧ v.toServer = hd.request ∧
            v.toBrowser = streamOf (c :: responseReads) := by
  obtain ⟨hd, host, port, w, hhd, huri, hrun, hfReq⟩ := transaction_runs hrequest hcut htarget
    hhead failed endpoint behind responseReads bbuffer sbuffer newStart_ newServerReadStart_
  refine ⟨hd, host, port, hhd, huri, ?_, fun ws v hws hes => ?_⟩
  · obtain ⟨ws, v, hws, hes, -⟩ := exists_wiring hrun
      (Wired.start (started bbuffer sbuffer newStart_ newServerReadStart_))
      (start_intact _ _ _ _) rfl rfl
    exact ⟨ws, v, hws, hes⟩
  · exact (transaction_ends hrun hfReq hws hes).2

/-- The request in absolute form, cut inside its target. -/
def inTwoReads : List Chunk :=
  [⟨ascii "GET http:", by decide, by decide⟩,
    ⟨ascii "//a/ HTTP/1.0\r\n\r\n", by decide, by decide⟩]

theorem inTwoReads_cutFree : CutFree (.start MethodStart) inTwoReads := by
  have hfirst : lexer.feed (.start MethodStart) (ascii "GET http:") =
      .reading ⟨UriChar, [(MethodDone, ascii "GET ")], ascii "http:"⟩ := by decide
  have hsecond : lexer.feed ⟨UriChar, [(MethodDone, ascii "GET ")], ascii "http:"⟩
      (ascii "//a/ HTTP/1.0\r\n\r\n") = .complete absoluteTokens [] := by decide
  rw [inTwoReads, cutFree_cons]
  intro l hl
  obtain rfl := Progress.reading.inj (hfirst.symm.trans hl)
  refine ⟨fun _ => by decide, cutFree_cons.mpr fun l' hl' => ?_⟩
  cases hsecond.symm.trans hl'

open Grammar ResponseParser in
theorem wholeHead_accepted :
    ∃ v, v <+: wholeHead.bytes ∧ v ∈ many isLeading * acceptedHead := by
  rw [← accepted_HttpResponseBegin, ← Scan.scan_ok_iff_exists (by decide)]
  decide

theorem transaction_completes_inTwoReads :
    ∃ (hd : Head) (host port : Bytes), hd.Is absoluteTokens ∧
      ParseUri sizeBits hd.destination [] [] = some (true, host, port) ∧
      let es := transaction inTwoReads host port [origin] ⟨ascii "10.0.0.2", 80⟩ [] hd.request
        [wholeHead, wholeHead]
      (∃ ws v, Run Wired.step (Wired.start fresh) ws v ∧ delivered ws = es) ∧
        ∀ ws v, Run Wired.step (Wired.start fresh) ws v → delivered ws = es →
          v.world.deleted = 1 ∧ v.toServer = hd.request ∧
            v.toBrowser = streamOf [wholeHead, wholeHead] :=
  transaction_completes (by decide) inTwoReads_cutFree ⟨0, 8, by decide, by decide⟩
    wholeHead_accepted [origin] ⟨ascii "10.0.0.2", 80⟩ [] [wholeHead] blank blank 0 0

end HttpConnection

end TwoProxy
