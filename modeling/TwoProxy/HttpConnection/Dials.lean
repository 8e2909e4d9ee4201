/-
# Where a connection goes

A proxy opens connections for whoever asks, so a maintainer wants to know which ones.  Each
operation of the upstream side has one cause, and the causes form a chain: the resolver is
asked for what `ParseUri` makes of the stored target, an endpoint is dialled because the
resolver returned it or because the one before it in its answer failed, and the request is
written because the last endpoint that was dialled has answered (`dials_only_the_target`).

What `ParseUri` makes of a target need not be the server that the target names.  The host is a
part of the target, and that may be nothing, as for every `https` target, or text from the
query; when it is the one that is named is settled in `HttpUtil/Targets.lean`.

The port is the end of the chain that a client can do least about.  `ParseUri` takes the
position of the colon for one in the whole uri, so that an explicit port keeps the `/` behind
it: the resolver is asked for port 80 or for something that is no port at all.
-/
import TwoProxy.HttpConnection.Turns
import TwoProxy.HttpConnection.Relay
import TwoProxy.HttpUtil.Targets

namespace TwoProxy

/-! ## 1. The port -/

/-- An occurrence is one. -/
theorem findFrom_spec {pat : Bytes} :
    ∀ {s : Bytes} {i j : Nat}, findFrom pat s i = some j → i ≤ j ∧ pat <+: s.drop (j - i) := by
  intro s
  induction s with
  | nil =>
    intro i j h
    simp only [findFrom] at h
    split at h
    · rename_i hp
      obtain rfl := Option.some.inj h
      simp [hp]
    · cases h
  | cons c cs ih =>
    intro i j h
    simp only [findFrom] at h
    split at h
    · rename_i hp
      obtain rfl := Option.some.inj h
      simpa using List.isPrefixOf_iff_prefix.mp hp
    · obtain ⟨hle, hpre⟩ := ih h
      refine ⟨by omega, ?_⟩
      rw [show j - i = j - (i + 1) + 1 by omega, List.drop_succ_cons]
      exact hpre

/-- The difference wraps to no more than it is. -/
theorem sizeSub_le {w a b : Nat} (h : b ≤ a) : sizeSub w a b ≤ a - b := by
  have hdiv := Nat.div_add_mod b (2 ^ w)
  have hmod := Nat.mod_lt b (Nat.two_pow_pos w)
  have hsum : a + (2 ^ w - b % 2 ^ w) = (a - b) + 2 ^ w * (b / 2 ^ w + 1) := by
    rw [Nat.mul_add, Nat.mul_one]
    omega
  rw [sizeSub, hsum, Nat.add_mul_mod_self_left]
  exact Nat.mod_le _ _

theorem mem_drop_of_slash {uri : Bytes} {n j k : Nat} (hj : find uri (ascii "/") n = some j)
    (hk : k ≤ j) : ch '/' ∈ uri.drop k := by
  unfold find at hj
  split at hj
  · obtain ⟨hle, hpre⟩ := findFrom_spec hj
    rw [List.drop_drop, Nat.add_sub_cancel' hle] at hpre
    have hmem : ch '/' ∈ uri.drop j := hpre.subset (List.mem_singleton_self _)
    rw [← Nat.add_sub_cancel' hk, ← List.drop_drop] at hmem
    exact List.mem_of_mem_drop hmem
  · cases hj

/-- **What follows a colon is no port.**  The host is a part of the uri, and the port is 80 or
has a `/` in it. -/
theorem ParseUri.authority_port {w n : Nat} {uri host port host' port' : Bytes}
    (h : ParseUri.authority w uri host port n = some (true, host', port')) :
    host' <:+: uri ∧ (port' = ascii "80" ∨ ch '/' ∈ port') := by
  have hpart : ∀ a b, (uri.drop a).take b <:+: uri :=
    fun a b => (List.take_prefix _ _).isInfix.trans (List.drop_suffix _ _).isInfix
  cases hj : find uri (ascii "/") n with
  | none => simp [ParseUri.authority, hj] at h
  | some j =>
    have hn := (find_le hj).1
    simp only [ParseUri.authority, hj, substr, if_pos hn] at h
    cases hc : find ((uri.drop n).take (sizeSub w j n)) (ascii ":") 0 with
    | none =>
      simp only [hc, Option.some.injEq, Prod.mk.injEq, true_and] at h
      exact ⟨h.1 ▸ hpart _ _, Or.inl h.2.symm⟩
    | some pos =>
      have hle : n ≤ j := by
        rw [find, if_pos hn] at hj
        exact (findFrom_spec hj).1
      have hcolon := (find_le hc).2
      rw [List.length_take, show (ascii ":").length = 1 by decide] at hcolon
      have hwrap : sizeSub w j n ≤ j - n := sizeSub_le hle
      have hafter : sizeAdd w pos 1 ≤ pos + 1 := Nat.mod_le _ _
      have hslash : ch '/' ∈ uri.drop (sizeAdd w pos 1) := mem_drop_of_slash hj (by omega)
      have hlen : sizeAdd w pos 1 ≤ uri.length := by
        have := (find_le hj).2
        omega
      simp only [hc, if_pos hlen, Option.some.injEq, Prod.mk.injEq, true_and] at h
      refine ⟨h.1 ▸ hpart _ _, Or.inr ?_⟩
      rw [← h.2, List.take_of_length_le (by rw [List.length_drop]; omega)]
      exact hslash

theorem ParseUri_port {w : Nat} {uri host port host' port' : Bytes}
    (h : ParseUri w uri host port = some (true, host', port')) :
    host' <:+: uri ∧ (port' = ascii "80" ∨ ch '/' ∈ port') := by
  unfold ParseUri at h
  split at h
  · exact ParseUri.authority_port h
  · split at h
    · exact ParseUri.authority_port h
    · simp at h

namespace HttpConnection

open Transition

/-! ## 2. What an action follows from -/

/-- The cause of an action: the stored target, a completion, or an action before it. -/
def Grounded (es : List Event) (w : World) : Action → Prop
  | .start (.resolve host port) =>
    ParseUri sizeBits w.conn.message_.destination_ [] [] = some (true, host, port)
  | .start (.connect endpoint ahead) =>
    ∃ host port first rest, .start (.resolve host port) ∈ w.trace ∧
      .resolve host port (some (first, rest)) ∈ es ∧ endpoint :: ahead <:+ first :: rest
  | .startWriteToServer =>
    ∃ endpoint ahead, .start (.connect endpoint ahead) ∈ w.trace ∧
      .connect endpoint ahead false ∈ es
  | _ => True

/-- A cause remains one. -/
theorem Grounded.mono {es es' : List Event} {w w' : World} {a : Action}
    (h : Grounded es w a) (hes : es ⊆ es') (htrace : w.trace ⊆ w'.trace)
    (hm : w'.conn.message_ = w.conn.message_) : Grounded es' w' a := by
  cases a with
  | start op =>
    cases op with
    | resolve host port =>
      change ParseUri sizeBits w'.conn.message_.destination_ [] [] = _
      rw [hm]
      exact h
    | connect endpoint ahead =>
      obtain ⟨host, port, first, rest, hstart, hev, hsuf⟩ := h
      exact ⟨host, port, first, rest, htrace hstart, hes hev, hsuf⟩
    | _ => trivial
  | startWriteToServer =>
    obtain ⟨endpoint, ahead, hstart, hev⟩ := h
    exact ⟨endpoint, ahead, htrace hstart, hes hev⟩
  | _ => trivial

/-- Everything that a connection has done so far, and every operation that is pending. -/
structure AllGrounded (es : List Event) (w : World) : Prop where
  trace : ∀ a ∈ w.trace, Grounded es w a
  pending : ∀ op ∈ w.pending, .start op ∈ w.trace

/-- A turn adds a few actions, each of them grounded. -/
theorem AllGrounded.next {es : List Event} {w w' : World} {e : Event}
    (h : AllGrounded es w) (added : List Action) (htrace : w'.trace = w.trace ++ added)
    (hm : w'.conn.message_ = w.conn.message_)
    (hadded : ∀ a ∈ added, Grounded (es ++ [e]) w' a)
    (hp : ∀ op ∈ w'.pending, .start op ∈ added) : AllGrounded (es ++ [e]) w' where
  trace a ha := by
    rw [htrace] at ha
    rcases List.mem_append.mp ha with ha | ha
    · exact (h.trace a ha).mono (List.subset_append_left _ _)
        (by rw [htrace]; exact List.subset_append_left _ _) hm
    · exact hadded a ha
  pending op hop := by
    rw [htrace]
    exact List.mem_append_right _ (hp op hop)

/-- What `Shutdown` adds to the trace. -/
theorem Shutdown_trace (w : World) : ∃ added, (Shutdown w).trace = w.trace ++ added ∧
    ∀ a ∈ added, a = .deleteConnection := by
  unfold Shutdown
  split
  · exact ⟨[.deleteConnection], rfl, fun a ha => List.mem_singleton.mp ha⟩
  · exact ⟨[], (List.append_nil _).symm, nofun⟩

@[simp] theorem Shutdown_message (w : World) :
    (Shutdown w).conn.message_ = w.conn.message_ := by
  unfold Shutdown
  split <;> rfl

/-- Shutting down needs no cause. -/
theorem AllGrounded.shutdown {es : List Event} {w w₀ : World} {e : Event}
    (h : AllGrounded es w) (added : List Action) (htrace : w₀.trace = w.trace ++ added)
    (hm : w₀.conn.message_ = w.conn.message_)
    (hadded : ∀ a ∈ added, Grounded (es ++ [e]) (Shutdown w₀) a) (hp : w₀.pending = []) :
    AllGrounded (es ++ [e]) (Shutdown w₀) := by
  obtain ⟨last, hlast, hdelete⟩ := Shutdown_trace w₀
  refine h.next (added ++ last) (by rw [hlast, htrace, List.append_assoc])
    ((Shutdown_message w₀).trans hm) ?_ (by simp [hp])
  intro a ha
  rcases List.mem_append.mp ha with ha | ha
  · exact hadded a ha
  · rw [hdelete a ha]
    trivial

/-! ## 3. Every turn is grounded -/

/-- Browser reads need no cause either. -/
theorem Reading.grounded {es : List Event} {w w' : World} {l : RequestLexing}
    (h : Reading w l) (added : List Action) (htrace : w'.trace = w.trace ++ added)
    (hadded : ∀ a ∈ added, Grounded es w' a) (hp : ∀ op ∈ w'.pending, .start op ∈ added) :
    AllGrounded es w' where
  trace a ha := by
    rw [htrace] at ha
    rcases List.mem_append.mp ha with ha | ha
    · rw [h.quiet a ha]
      trivial
    · exact hadded a ha
  pending op hop := by
    rw [htrace]
    exact List.mem_append_right _ (hp op hop)

/-- While the head is read. -/
theorem Reading.grounded_step {es : List Event} {w w' : World} {l : RequestLexing} {e : Event}
    (h : Reading w l) (hs : step w e = some w') : AllGrounded (es ++ [e]) w' := by
  cases h.move hs with
  | hangsUp =>
    obtain ⟨last, hlast, hdelete⟩ := Shutdown_trace (resuming w w.conn)
    refine h.grounded last hlast (fun a ha => ?_) (by simp [resuming])
    rw [hdelete a ha]
    trivial
  | refuses data c line only feed =>
    exact h.grounded [.logError line] rfl (by simp [Grounded])
      (by simp [World.log, World.act, resuming])
  | connects data c tokens rest host port only feed head uri =>
    refine h.grounded [.startConnect, .start (.resolve host port)] ?_ ?_ ?_
    · simp [World.start, World.act, resuming]
    · intro a ha
      simp only [List.mem_cons, List.not_mem_nil, or_false] at ha
      rcases ha with rfl | rfl
      · trivial
      · exact uri
    · simp [World.start, World.act, resuming]
  | throws data c tokens rest only feed head uri =>
    exact h.grounded [.startConnect, .logError _] (List.append_assoc _ _ _)
      (by simp [Grounded]) (by simp [World.log, World.act, World.throw, resuming])
  | continues data c l' only feed inOrder =>
    exact h.grounded [.start .browserRead] rfl (by simp [Grounded])
      (by simp [ReadMoreFromBrowser, World.start, resuming])
  | overruns data c l' only feed inverted =>
    exact h.grounded [] (List.append_nil _).symm (by simp)
      (by simp [World.outOfRange, resuming])

/-- While the head is served. -/
theorem AllGrounded.serving_step {es : List Event} {hd : Head} {w w' : World} {e : Event}
    (h : AllGrounded es w) (hserv : Serving hd w) (hs : step w e = some w') :
    AllGrounded (es ++ [e]) w' := by
  have hlast : e ∈ es ++ [e] := by simp
  have hstart : .start e.op ∈ w.trace := h.pending _ (step_handle hs).1
  cases hserv.move hs with
  | resolved host port endpoint rest =>
    refine h.next [.start (.connect endpoint rest)] rfl rfl ?_
      (by simp [World.start, resuming])
    intro a ha
    rw [List.mem_singleton.mp ha]
    exact ⟨host, port, endpoint, rest, List.mem_append_left _ hstart, hlast,
      List.suffix_refl _⟩
  | unresolved host port =>
    exact h.shutdown [.logError .handleResolveFailed] rfl rfl (by simp [Grounded]) rfl
  | connected endpoint ahead =>
    refine h.next [.startWriteToServer, .start (.serverWrite _)]
      (List.append_assoc _ _ _) rfl ?_ (by simp [StartWriteToServer, World.start, World.act,
        resuming])
    intro a ha
    simp only [List.mem_cons, List.not_mem_nil, or_false] at ha
    rcases ha with rfl | rfl
    · exact ⟨endpoint, ahead, List.mem_append_left _ (List.mem_append_left _ hstart), hlast⟩
    · trivial
  | retries endpoint next rest =>
    refine h.next [.start (.connect next rest)] rfl rfl ?_
      (by simp [World.start, resuming])
    intro a ha
    rw [List.mem_singleton.mp ha]
    obtain ⟨host, port, first, others, hres, hev, hsuf⟩ := h.trace _ hstart
    exact ⟨host, port, first, others, List.mem_append_left _ hres, List.mem_append_left _ hev,
      (List.suffix_cons _ _).trans hsuf⟩
  | exhausted endpoint =>
    exact h.shutdown [.logError .handleConnectFailed] rfl rfl (by simp [Grounded]) rfl
  | written buffer =>
    exact h.next [.start .serverRead] rfl rfl (by simp [Grounded])
      (by simp [World.start, resuming])
  | unwritten buffer =>
    exact h.shutdown [.logError .handleServerWriteFailed] rfl rfl
      (by simp [Grounded]) rfl
  | forwards data c only accepted =>
    exact h.next [.start (.clientWrite data.bytes)] rfl only.message
      (by simp [Grounded]) (by simp [World.start, resuming])
  | refuses data c only refused =>
    exact h.next [.logError .processingReadUntilBody] rfl only.message
      (by simp [Grounded]) (by simp [World.log, World.act, resuming])
  | ends => exact h.shutdown [] (List.append_nil _).symm rfl (by simp) rfl
  | delivered buffer =>
    exact h.next [.start .serverRead] rfl rfl (by simp [Grounded])
      (by simp [World.start, resuming])
  | undelivered buffer => exact h.shutdown [] (List.append_nil _).symm rfl (by simp) rfl

theorem Reaches.grounded {es : List Event} {w : World} (h : Reaches es w) :
    AllGrounded es w := by
  obtain ⟨bbuffer, sbuffer, newStart_, newServerReadStart_, hrun⟩ := h
  refine (hrun.invariant_events (R := fun es w => Phase w ∧ AllGrounded es w) ?_ []
    ⟨.reading _ (started_reading _ _ _ _), ?_⟩).2
  · rintro es s e t ⟨hphase, hall⟩ hs
    refine ⟨hphase.kept hs, ?_⟩
    cases hphase with
    | reading l hr => exact hr.grounded_step hs
    | serving hd hr => exact hall.serving_step hr hs
    | closed hr => exact absurd hs (step_ne_some hr.pending)
    | stalled hr => exact absurd hs (step_ne_some hr.pending)
  · refine ⟨fun a ha => ?_, by simp [started, Start, World.start, World.init]⟩
    rw [(started_reading bbuffer sbuffer newStart_ newServerReadStart_).quiet a ha]
    trivial

/-- **A connection goes where `ParseUri` sends it, or nowhere.**  In every reachable state: the
resolver has been asked for nothing but the host and port that `ParseUri` returns for the stored
target, the host being a part of it, and the port 80 or something with a `/` in it; every
endpoint that has been dialled is one that the resolver returned for them, dialled with the
rest of its answer still ahead; and the request has been written only after the connection to
one of these was established. -/
theorem dials_only_the_target (es : List Event) (w : World) (h : Reaches es w) :
    (∀ host port, .start (.resolve host port) ∈ w.trace →
      ParseUri sizeBits w.conn.message_.destination_ [] [] = some (true, host, port) ∧
        host <:+: w.conn.message_.destination_ ∧ (port = ascii "80" ∨ ch '/' ∈ port)) ∧
    (∀ endpoint ahead, .start (.connect endpoint ahead) ∈ w.trace →
      ∃ host port first rest, .start (.resolve host port) ∈ w.trace ∧
        .resolve host port (some (first, rest)) ∈ es ∧ endpoint :: ahead <:+ first :: rest) ∧
    (.startWriteToServer ∈ w.trace →
      ∃ endpoint ahead, .start (.connect endpoint ahead) ∈ w.trace ∧
        .connect endpoint ahead false ∈ es) := by
  have hall := h.grounded.trace
  refine ⟨fun host port hstart => ?_, fun _ _ hstart => hall _ hstart, hall _⟩
  have hparse : ParseUri sizeBits w.conn.message_.destination_ [] [] = some (true, host, port) :=
    hall _ hstart
  exact ⟨hparse, ParseUri_port hparse⟩

/-- The first of two endpoints fails, and the second one gets the request. -/
def secondAnswers : List Event :=
  [.browserRead (some absoluteForm),
    .resolve (ascii "a") (ascii "80") (some (origin, [⟨ascii "10.0.0.2", 80⟩])),
    .connect origin [⟨ascii "10.0.0.2", 80⟩] true, .connect ⟨ascii "10.0.0.2", 80⟩ [] false]

theorem dials_only_the_target_secondAnswers :
    let w := follow step fresh secondAnswers
    .startWriteToServer ∈ w.trace ∧
    (∀ host port, .start (.resolve host port) ∈ w.trace →
      ParseUri sizeBits w.conn.message_.destination_ [] [] = some (true, host, port) ∧
        host <:+: w.conn.message_.destination_ ∧ (port = ascii "80" ∨ ch '/' ∈ port)) ∧
    (∀ endpoint ahead, .start (.connect endpoint ahead) ∈ w.trace →
      ∃ host port first rest, .start (.resolve host port) ∈ w.trace ∧
        .resolve host port (some (first, rest)) ∈ secondAnswers ∧
          endpoint :: ahead <:+ first :: rest) ∧
    (.startWriteToServer ∈ w.trace →
      ∃ endpoint ahead, .start (.connect endpoint ahead) ∈ w.trace ∧
        .connect endpoint ahead false ∈ secondAnswers) :=
  ⟨by decide +kernel, dials_only_the_target secondAnswers _
    ⟨blank, blank, 0, 0, run_follow (by decide +kernel)⟩⟩

end HttpConnection

end TwoProxy
