/-
# Whether a request is decoded, and answered truly

* The length of a name crosses the program as a `char`, which is signed: from 128 on it comes
  out as a `size_t` near the top of the range, and the read takes the 1024 bytes of the array.
  Up to 127 bytes the request is decoded, and nothing behind it is touched
  (`HandleRequest_decodes_iff`).
* `SOCK5Response` is written in one way only, as a success.  A request that cannot be served
  is answered by nothing or, when it is its command that is not looked at, by a success
  (`HandleRequest_truthful_iff`).
-/
import Mathlib.Data.List.Basic
import TwoProxy.SocksConnection.Requests

namespace TwoProxy

namespace SocksConnection

open Blocking (final)

/-! ## 1. What can be seen from outside -/

/-- The calls made between two states. -/
def made (s s' : Setup) : List Call := s'.calls.drop s.calls.length

/-- A call that looks for the remote side. -/
def Call.isDial : Call → Bool
  | .resolve _ _ => true
  | .connect _ => true
  | .write _ => false
  | .startSession => false

/-- The bytes of a reply to the client. -/
def Call.written : Call → Option Bytes
  | .write bytes => some bytes
  | _ => none

theorem Leaves.made_eq {s s' : Setup} {cs : List Call} {input : Bytes} {socket : RemoteSocket}
    (h : Leaves s s' cs input socket) : made s s' = cs := by
  rw [made, h.calls, List.drop_left]

variable (net : Network) (calls : List Call)

theorem replyCalls_dials : (replyCalls net calls).filter Call.isDial = [] := by
  unfold replyCalls
  split <;> rfl

theorem connectCalls_dials (endpoint : Endpoint) :
    (connectCalls net calls endpoint).filter Call.isDial = [.connect endpoint] := by
  unfold connectCalls
  split
  · rw [List.filter_cons_of_pos rfl, replyCalls_dials]
  · rfl

/-! ## 2. Decoding -/

/-- The calls that a destination asks for. -/
def Destination.dials (net : Network) (port : UInt16) : Destination → List Call
  | .ipv4 a b c d => [.connect ⟨[a, b, c, d], port⟩]
  | .name bytes _ =>
    .resolve bytes (portText port) ::
      match net.resolve bytes (portText port) with
      | none => []
      | some iter => [.connect iter.1]

/-- A connect request for a destination. -/
def connectRequest (d : Destination) (port : UInt16) : Request :=
  ⟨SOCKS5RequestHeader.connect, .destination d, port⟩

/-- **A request decoded**: the destination that was dialled is the one that was sent, and what
was left unread is what was sent after it. -/
structure Decodes (net : Network) (d : Destination) (port : UInt16) (t : Bytes)
    (s s' : Setup) : Prop where
  dialled : (made s s').filter Call.isDial = d.dials net port
  consumed : s'.input = t

/-- An address, or a name whose length is a `char` that is not negative. -/
def Destination.Short : Destination → Prop
  | .ipv4 _ _ _ _ => True
  | .name bytes _ => bytes.length < 128

/-- **Which requests are decoded**: all those for an address, and those for a name of less
than 128 bytes. -/
theorem HandleRequest_decodes_iff (net : Network) (d : Destination) (port : UInt16) (t : Bytes)
    (s : Setup) :
    Decodes net d port t s
        (final (HandleRequest net) (s.receiving (connectRequest d port) t)) ↔
      d.Short := by
  cases d with
  | ipv4 a b c d =>
    have h := ipv4_leaves net s t SOCKS5RequestHeader.connect a b c d port
    rw [if_pos rfl] at h
    refine iff_of_true ⟨?_, h.input⟩ trivial
    exact (congrArg _ h.made_eq).trans (connectCalls_dials net _ _)
  | name bytes le =>
    by_cases hshort : bytes.length < 128
    · have h := name_leaves net s t SOCKS5RequestHeader.connect le port hshort
      refine iff_of_true ⟨(congrArg _ h.made_eq).trans ?_, h.input⟩ hshort
      rw [dialCalls, List.filter_cons_of_pos rfl]
      cases hr : net.resolve bytes (portText port) with
      | none => simp only [Destination.dials, hr, List.filter_nil]
      | some iter => simp only [Destination.dials, hr, connectCalls_dials]
    · refine iff_of_false ?_ hshort
      rintro ⟨hdialled, hconsumed⟩
      rcases long_name_leaves net s t SOCKS5RequestHeader.connect le port (by omega) with
        h | ⟨name', port', rest, -, hrest, h⟩
      · have hnone := (congrArg _ h.made_eq).symm.trans hdialled
        simp [Destination.dials] at hnone
      · have hinput := h.input.symm.trans hconsumed
        rw [hinput] at hrest
        omega

/-! ### A name that is not decoded -/

/-- A connection before its first call. -/
def idle : Setup := ⟨⟨blank, .null, false⟩, [], []⟩

/-- A name of 128 bytes. -/
def longName : Destination :=
  .name (List.replicate 128 (ch 'a')) (by rw [List.length_replicate]; decide)

/-- What a client sends behind the request. -/
def tunnelled : Bytes := List.replicate 1000 0

/-- Of the bytes behind the request the first 896 are gone. -/
theorem longName_not_decoded :
    (final (HandleRequest openNetwork)
        (idle.receiving (connectRequest longName 80) tunnelled)).input = tunnelled.drop 896 ∧
      ¬ ∀ (net : Network) (d : Destination) (port : UInt16) (t : Bytes) (s : Setup),
        Decodes net d port t s
          (final (HandleRequest net) (s.receiving (connectRequest d port) t)) := by
  have hinput : (final (HandleRequest openNetwork)
      (idle.receiving (connectRequest longName 80) tunnelled)).input = tunnelled.drop 896 := by
    decide +kernel
  refine ⟨hinput, fun hall => ?_⟩
  have hconsumed := (hall openNetwork longName 80 tunnelled idle).consumed
  have hlength := congrArg List.length (hinput.symm.trans hconsumed)
  rw [List.length_drop, tunnelled, List.length_replicate] at hlength
  exact absurd hlength (by decide)

/-! ## 3. Replying -/

/-- The bytes went out: the write was made, and succeeded. -/
def Sent (net : Network) (s s' : Setup) (bytes : Bytes) : Prop :=
  ∃ earlier later, s'.calls = s.calls ++ earlier ++ .write bytes :: later ∧
    net.succeeds (s.calls ++ earlier) (.write bytes) = true

/-- An endpoint is the destination that was asked for, or one that it was resolved to. -/
def Address.Reached (net : Network) (port : UInt16) (cs : List Call) (e : Endpoint) :
    Address → Prop
  | .destination (.ipv4 a b c d) => e = ⟨[a, b, c, d], port⟩
  | .destination (.name bytes _) =>
    .resolve bytes (portText port) ∈ cs ∧
      ∃ iter, net.resolve bytes (portText port) = some iter ∧ e ∈ iter.1 :: iter.2
  | .other o => e = ⟨o.bytes, port⟩

/-- The command was connect, and `remoteSocket_` is connected to the requested destination. -/
def Request.Connected (r : Request) (net : Network) (s s' : Setup) : Prop :=
  r.cmd = SOCKS5RequestHeader.connect ∧
    ∃ e, s'.conn.remoteSocket_ = .connected e ∧ r.address.Reached net r.port (made s s') e

/-- **A request answered truly**: by one reply, which is a success when the destination was
connected and a general error otherwise, and with a session when a success was sent. -/
structure Truthful (net : Network) (r : Request) (s s' : Setup) : Prop where
  one : ∃ reply : SOCK5Response, (made s s').filterMap Call.written = [reply.buffers] ∧
    (reply.cmd = RESP_SUCCEDED ↔ r.Connected net s s') ∧
    (reply.cmd = RESP_GEN_ERROR ↔ ¬ r.Connected net s s')
  session : .startSession ∈ made s s' ↔
    ∃ reply : SOCK5Response, reply.cmd = RESP_SUCCEDED ∧ Sent net s s' reply.buffers

/-- What it takes: the command is connect, the address is of a known type, the name not too
long, and resolving and connecting succeed, with the first endpoint if there are more. -/
def Request.Served (r : Request) (net : Network) (calls : List Call) : Prop :=
  r.cmd = SOCKS5RequestHeader.connect ∧
    match r.address with
    | .destination (.ipv4 a b c d) =>
      net.succeeds calls (.connect ⟨[a, b, c, d], r.port⟩) = true
    | .destination (.name bytes _) =>
      bytes.length < 128 ∧ ∃ iter, net.resolve bytes (portText r.port) = some iter ∧
        net.succeeds (calls ++ [.resolve bytes (portText r.port)]) (.connect iter.1) = true
    | .other _ => False

variable {net} {r : Request} {s s' : Setup} {dials : List Call}

theorem written_of_isDial (h : ∀ c ∈ dials, c.isDial = true) :
    dials.filterMap Call.written = [] := by
  rw [List.filterMap_eq_nil_iff]
  intro c hc
  have := h c hc
  cases c <;> simp_all [Call.isDial, Call.written]

theorem replyCalls_written (calls : List Call) :
    (replyCalls net calls).filterMap Call.written = [successReply] := by
  unfold replyCalls
  split <;> rfl

/-- **No reply is not a true one.** -/
theorem not_truthful_of_silence (hcalls : s'.calls = s.calls ++ dials)
    (h : ∀ c ∈ dials, c.isDial = true) : ¬ Truthful net r s s' := by
  rintro ⟨⟨reply, hone, -⟩, -⟩
  rw [made, hcalls, List.drop_left, written_of_isDial h] at hone
  cases hone

/-- **A success that is none.** -/
theorem not_truthful_of_false_success
    (hcalls : s'.calls = s.calls ++ dials ++ replyCalls net (s.calls ++ dials))
    (h : ∀ c ∈ dials, c.isDial = true) (hconn : ¬ r.Connected net s s') :
    ¬ Truthful net r s s' := by
  rintro ⟨⟨reply, hone, hsuccess, -⟩, -⟩
  rw [made, hcalls, List.append_assoc, List.drop_left, List.filterMap_append,
    written_of_isDial h, replyCalls_written, List.nil_append] at hone
  have hcmd : RESP_SUCCEDED = reply.cmd :=
    (List.cons.inj (List.cons.inj (List.cons.inj hone).1).2).1
  exact hconn (hsuccess.mp hcmd.symm)

/-- The one write among the calls is the reply. -/
theorem sent_iff (hcalls : s'.calls = s.calls ++ dials ++ replyCalls net (s.calls ++ dials))
    (h : ∀ c ∈ dials, c.isDial = true) (bytes : Bytes) :
    Sent net s s' bytes ↔ bytes = successReply ∧
      net.succeeds (s.calls ++ dials) (.write successReply) = true := by
  have hdials : Call.write bytes ∉ dials := fun hc => by
    have := h _ hc
    cases this
  constructor
  · rintro ⟨earlier, later, hsplit, hok⟩
    rw [hcalls, List.append_assoc, List.append_assoc, List.append_cancel_left_eq] at hsplit
    have hrest : Call.write bytes ∉ (if net.succeeds (s.calls ++ dials) (.write successReply) = true
        then [Call.startSession] else []) := by
      split <;> simp
    obtain ⟨rfl, heq, -⟩ := (List.append_cons_inj_of_notMem hdials hrest).mp hsplit
    obtain rfl := (Call.write.inj heq).symm
    exact ⟨rfl, hok⟩
  · rintro ⟨rfl, hok⟩
    exact ⟨dials, _, hcalls, hok⟩

/-- **A success that is one.** -/
theorem truthful_of_success
    (hcalls : s'.calls = s.calls ++ dials ++ replyCalls net (s.calls ++ dials))
    (h : ∀ c ∈ dials, c.isDial = true) (hconn : r.Connected net s s') :
    Truthful net r s s' where
  one := by
    refine ⟨SOCK5Response.create true 0 SERVER_PORT, ?_, iff_of_true rfl hconn,
      iff_of_false (by decide) (fun hn => hn hconn)⟩
    rw [made, hcalls, List.append_assoc, List.drop_left, List.filterMap_append,
      written_of_isDial h, replyCalls_written]
    rfl
  session := by
    have hstart : Call.startSession ∉ dials := fun hc => by
      have := h _ hc
      cases this
    have hmem : .startSession ∈ made s s' ↔
        net.succeeds (s.calls ++ dials) (.write successReply) = true := by
      rw [made, hcalls, List.append_assoc, List.drop_left, List.mem_append]
      unfold replyCalls
      split <;> simp_all
    rw [hmem]
    constructor
    · intro hok
      exact ⟨SOCK5Response.create true 0 SERVER_PORT, rfl, (sent_iff hcalls h _).mpr ⟨rfl, hok⟩⟩
    · rintro ⟨reply, -, hsent⟩
      exact ((sent_iff hcalls h _).mp hsent).2

/-- The two ways `dial` can go: it ends in silence, or in a reply from a connected socket. -/
theorem dial_outcomes {name port input : Bytes} {socket : RemoteSocket}
    (h : Leaves s s' (dialCalls net s.calls name port) input
      (dialSocket net s.calls name port socket)) :
    ((¬ ∃ iter, net.resolve name port = some iter ∧
        net.succeeds (s.calls ++ [.resolve name port]) (.connect iter.1) = true) ∧
      ∃ dials, s'.calls = s.calls ++ dials ∧ ∀ c ∈ dials, c.isDial = true) ∨
    ∃ iter, net.resolve name port = some iter ∧
      net.succeeds (s.calls ++ [.resolve name port]) (.connect iter.1) = true ∧
      s'.conn.remoteSocket_ = .connected iter.1 ∧
      s'.calls = s.calls ++ [.resolve name port, .connect iter.1] ++
        replyCalls net (s.calls ++ [.resolve name port, .connect iter.1]) := by
  have hcalls := h.calls
  have hsocket := h.socket
  simp only [dialCalls, dialSocket] at hcalls hsocket
  cases hr : net.resolve name port with
  | none =>
    rw [hr] at hcalls
    exact Or.inl ⟨by simp, _, hcalls, by simp [Call.isDial]⟩
  | some iter =>
    rw [hr] at hcalls hsocket
    simp only [connectCalls] at hcalls hsocket
    by_cases hok : net.succeeds (s.calls ++ [.resolve name port]) (.connect iter.1) = true
    · rw [if_pos hok] at hcalls hsocket
      exact Or.inr ⟨iter, rfl, hok, hsocket, by simpa using hcalls⟩
    · rw [if_neg hok] at hcalls
      refine Or.inl ⟨?_, _, hcalls, by simp [Call.isDial]⟩
      rintro ⟨iter', heq, hok'⟩
      obtain rfl := Option.some.inj heq
      exact hok hok'

variable (net) (s) (t : Bytes) (cmd : Byte) (port : UInt16)

/-- A request for an address: a command that is not looked at is answered by a success, and a
connect that fails by nothing. -/
theorem truthful_ipv4_iff (a b c d : Byte) :
    Truthful net ⟨cmd, .destination (.ipv4 a b c d), port⟩ s
        (final (HandleRequest net) (s.receiving ⟨cmd, .destination (.ipv4 a b c d), port⟩ t)) ↔
      cmd = SOCKS5RequestHeader.connect ∧
        net.succeeds s.calls (.connect ⟨[a, b, c, d], port⟩) = true := by
  have h := ipv4_leaves net s t cmd a b c d port
  by_cases hcmd : cmd = SOCKS5RequestHeader.connect
  · rw [if_pos hcmd] at h
    have hcalls := h.calls
    unfold connectCalls at hcalls
    by_cases hok : net.succeeds s.calls (.connect ⟨[a, b, c, d], port⟩) = true
    · rw [if_pos hok, ← List.singleton_append, ← List.append_assoc] at hcalls
      have hsocket := h.socket
      rw [if_pos ⟨hcmd, hok⟩] at hsocket
      exact iff_of_true
        (truthful_of_success hcalls (by simp [Call.isDial]) ⟨hcmd, _, hsocket, rfl⟩)
        ⟨hcmd, hok⟩
    · rw [if_neg hok] at hcalls
      exact iff_of_false (not_truthful_of_silence hcalls (by simp [Call.isDial]))
        fun hserved => hok hserved.2
  · rw [if_neg hcmd] at h
    have hcalls := h.calls
    rw [← List.append_nil s.calls] at hcalls
    exact iff_of_false
      (not_truthful_of_false_success hcalls (by simp) fun hconn => hcmd hconn.1)
      fun hserved => hcmd hserved.1

/-- A request for a name that is read: the same, and a name that does not resolve is answered
by nothing too. -/
theorem truthful_name_iff {name : Bytes} (hle : name.length ≤ 255) (hshort : name.length < 128) :
    Truthful net ⟨cmd, .destination (.name name hle), port⟩ s
        (final (HandleRequest net) (s.receiving ⟨cmd, .destination (.name name hle), port⟩ t)) ↔
      cmd = SOCKS5RequestHeader.connect ∧ ∃ iter, net.resolve name (portText port) = some iter ∧
        net.succeeds (s.calls ++ [.resolve name (portText port)]) (.connect iter.1) = true := by
  rcases dial_outcomes (name_leaves net s t cmd hle port hshort) with
    ⟨hno, dials, hcalls, hdials⟩ | ⟨iter, hr, hok, hsocket, hcalls⟩
  · exact iff_of_false (not_truthful_of_silence hcalls hdials) fun hserved => hno hserved.2
  · by_cases hcmd : cmd = SOCKS5RequestHeader.connect
    · refine iff_of_true (truthful_of_success hcalls (by simp [Call.isDial]) ?_)
        ⟨hcmd, iter, hr, hok⟩
      refine ⟨hcmd, iter.1, hsocket, ?_, iter, hr, by simp⟩
      rw [made, hcalls, List.append_assoc, List.drop_left]
      simp
    · exact iff_of_false
        (not_truthful_of_false_success hcalls (by simp [Call.isDial]) fun hconn => hcmd hconn.1)
        fun hserved => hcmd hserved.1

/-- A request for a name that is not read is answered by nothing, or by a success for another
name: what was resolved has 1024 bytes. -/
theorem not_truthful_longName {name : Bytes} (hle : name.length ≤ 255)
    (hlong : 128 ≤ name.length) :
    ¬ Truthful net ⟨cmd, .destination (.name name hle), port⟩ s
        (final (HandleRequest net)
          (s.receiving ⟨cmd, .destination (.name name hle), port⟩ t)) := by
  rcases long_name_leaves net s t cmd hle port hlong with
    h | ⟨name', port', rest, hname', -, h⟩
  · exact not_truthful_of_silence h.calls (by simp)
  · rcases dial_outcomes h with ⟨-, dials, hcalls, hdials⟩ | ⟨iter, hr, hok, hsocket, hcalls⟩
    · exact not_truthful_of_silence hcalls hdials
    · refine not_truthful_of_false_success hcalls (by simp [Call.isDial]) ?_
      rintro ⟨-, e, -, hmem, -⟩
      rw [made, hcalls, List.append_assoc, List.drop_left] at hmem
      have hname : name = name' := by
        unfold replyCalls at hmem
        split at hmem <;> simp_all
      rw [hname, hname'] at hle
      omega

/-- **Which requests are answered truly**: the ones that are served.  The others are answered
by nothing, or by a success. -/
theorem HandleRequest_truthful_iff (net : Network) (r : Request) (t : Bytes) (s : Setup) :
    Truthful net r s (final (HandleRequest net) (s.receiving r t)) ↔ r.Served net s.calls := by
  obtain ⟨cmd, address, port⟩ := r
  cases address with
  | other o =>
    have h := other_leaves net s t cmd o port
    exact iff_of_false (not_truthful_of_silence h.calls (by simp)) fun hserved => hserved.2
  | destination d =>
    cases d with
    | ipv4 a b c d => exact truthful_ipv4_iff net s t cmd port a b c d
    | name bytes le =>
      by_cases hshort : bytes.length < 128
      · rw [truthful_name_iff net s t cmd port le hshort]
        simp only [Request.Served, hshort, true_and]
      · exact iff_of_false (not_truthful_longName net s t cmd port le (by omega))
          fun hserved => hshort hserved.2.1

/-! ### A success that is none -/

/-- A bind request, in which nothing is connected. -/
def bindRequest : Request := ⟨2, .destination (.ipv4 10 0 0 1), 80⟩

/-- A success is sent and a session is started, on a socket that is not connected. -/
theorem bindRequest_answered_falsely :
    (final (HandleRequest openNetwork) (idle.receiving bindRequest [])).calls
        = [.write successReply, .startSession] ∧
      (final (HandleRequest openNetwork) (idle.receiving bindRequest [])).conn.remoteSocket_
        = .unconnected ∧
      ¬ ∀ (net : Network) (r : Request) (t : Bytes) (s : Setup),
        Truthful net r s (final (HandleRequest net) (s.receiving r t)) := by
  have hcalls : (final (HandleRequest openNetwork) (idle.receiving bindRequest [])).calls
      = [.write successReply, .startSession] := by decide +kernel
  refine ⟨hcalls, by decide +kernel, fun hall => ?_⟩
  have hreply : (final (HandleRequest openNetwork) (idle.receiving bindRequest [])).calls
      = idle.calls ++ [] ++ replyCalls openNetwork (idle.calls ++ []) := hcalls
  refine not_truthful_of_false_success hreply (by simp) ?_ (hall openNetwork bindRequest [] idle)
  exact fun hconn => absurd hconn.1 (by decide)

end SocksConnection

end TwoProxy
