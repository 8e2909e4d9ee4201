/-
# Which clients are served

The set-up of a SOCKS connection reads from the client, calls out, and starts a session or
throws.  `StartSocks_serves_iff` decides it: a session is started for exactly those streams
that begin with an offer of methods and a request in the form that the program reads
(`Ask`), on exactly those networks on which each of the calls that this takes succeeds; the
calls are these and no others, and the session finds the rest of the stream unread.

The form that is read is wider than RFC 1928.  The version and the reserved byte are not
looked at, an address is accepted with any command, and the length of a name is what a
signed `char` makes of it, up to the size of the array.
-/
import TwoProxy.Connection.Negotiation

namespace TwoProxy

namespace SocksConnection

open Blocking (bind_ok bind_eq_ok_iff pure_eq_ok_iff)

/-! ## 1. The calls that return -/

variable {net : Network} {s s' : Setup}

theorem read_eq_ok {n : Nat} {xs : Bytes} (h : read n s = .ok xs s') :
    ∃ rest, s.input = xs ++ rest ∧ xs.length = n ∧ s' = { s with input := rest } := by
  unfold read at h
  split at h
  · cases h
    exact ⟨s.input.drop n, (List.take_append_drop _ _).symm, List.length_take_of_le ‹_›, rfl⟩
  · cases h

theorem readBuffer_eq_ok {n k : Nat} (h : readBuffer n s = .ok k s') :
    ∃ xs rest b, s.input = xs ++ rest ∧ xs.length = min n 1024 ∧ k = xs.length ∧
      b.bytes.take k = xs ∧ s' = s.filled b rest := by
  by_cases hle : min n 1024 ≤ s.input.length
  · have hxs : min n 1024 = (s.input.take (min n 1024)).length := by
      rw [List.length_take_of_le hle]
    obtain ⟨b, tail, hb, hread⟩ :=
      readBuffer_append (List.take_append_drop (min n 1024) s.input).symm hxs
    rw [hread] at h
    cases h
    exact ⟨_, _, b, (List.take_append_drop _ _).symm, hxs.symm, rfl,
      by rw [hb, List.take_left], rfl⟩
  · rw [readBuffer_short (by omega)] at h
    cases h

theorem call_eq_ok_iff {c : Call} :
    call net c s = .ok () s' ↔
      net.succeeds s.calls c = true ∧ { s with calls := s.calls ++ [c] } = s' := by
  by_cases h : net.succeeds s.calls c = true
  · rw [call_ok h, EStateM.Result.ok.injEq]
    simp [h]
  · rw [call_error h]
    simp [h]

theorem resolveName_eq_ok_iff {name port : Bytes} {iter : Endpoint × List Endpoint} :
    resolveName net name port s = .ok iter s' ↔
      net.resolve name port = some iter ∧
        { s with calls := s.calls ++ [.resolve name port] } = s' := by
  unfold resolveName
  cases net.resolve name port <;> simp

/-- What a session is started with. -/
def Setup.answered (s : Setup) : Setup :=
  { s with
    conn := { s.conn with proxySocksSession_ := true }
    calls := s.calls ++ [.write successReply, .startSession] }

theorem replyAndStart_eq_ok_iff {b : Bool} :
    replyAndStart net s = .ok b s' ↔
      net.succeeds s.calls (.write successReply) = true ∧ b = true ∧ s' = s.answered := by
  by_cases h : net.succeeds s.calls (.write successReply) = true
  · have hwrite : write net successReply s = _ := call_ok h
    have hrun : replyAndStart net s = _ := bind_ok hwrite
    have hsame : replyAndStart net s = .ok true s.answered := by
      rw [hrun, bind_ok (m := startSession) rfl]
      simp [Setup.answered, pure, EStateM.pure]
    rw [hsame, EStateM.Result.ok.injEq]
    simp [h, eq_comm]
  · have hwrite : write net successReply s = _ := call_error h
    have hrun : replyAndStart net s = _ := Blocking.bind_error hwrite
    rw [hrun]
    simp [h]

/-- The connection with one more call made, and its socket connected. -/
def Setup.joined (s : Setup) (endpoint : Endpoint) : Setup :=
  { s with
    calls := s.calls ++ [.connect endpoint]
    conn := { s.conn with remoteSocket_ := .connected endpoint } }

theorem connectAndReply_eq_ok_iff {endpoint : Endpoint} {b : Bool} :
    connectAndReply net endpoint s = .ok b s' ↔
      net.succeeds s.calls (.connect endpoint) = true ∧
        replyAndStart net (s.joined endpoint) = .ok b s' := by
  unfold connectAndReply connectRemoteSocket
  rw [bind_eq_ok_iff]
  constructor
  · rintro ⟨⟨⟩, s₁, hconn, hrest⟩
    obtain ⟨⟨⟩, s₂, hcall, hjoin⟩ := bind_eq_ok_iff.mp hconn
    obtain ⟨hok, rfl⟩ := call_eq_ok_iff.mp hcall
    cases hjoin
    exact ⟨hok, hrest⟩
  · rintro ⟨hok, hrest⟩
    exact ⟨(), s.joined endpoint, bind_eq_ok_iff.mpr ⟨(), _, call_ok hok, rfl⟩, hrest⟩

theorem dial_eq_ok_iff {name port : Bytes} {b : Bool} :
    dial net name port s = .ok b s' ↔
      ∃ iter, net.resolve name port = some iter ∧
        net.succeeds (s.calls ++ [.resolve name port]) (.connect iter.1) = true ∧
        replyAndStart net
          (Setup.joined { s with calls := s.calls ++ [.resolve name port] } iter.1) =
            .ok b s' := by
  unfold dial
  rw [bind_eq_ok_iff]
  constructor
  · rintro ⟨iter, s₁, hresolve, hrest⟩
    obtain ⟨hiter, rfl⟩ := resolveName_eq_ok_iff.mp hresolve
    rw [bind_ok (resetRemoteSocket_eq _)] at hrest
    obtain ⟨hok, hreply⟩ := connectAndReply_eq_ok_iff.mp hrest
    exact ⟨iter, hiter, hok, hreply⟩
  · rintro ⟨iter, hiter, hok, hreply⟩
    refine ⟨iter, _, resolveName_eq_ok_iff.mpr ⟨hiter, rfl⟩, ?_⟩
    rw [bind_ok (resetRemoteSocket_eq _)]
    exact connectAndReply_eq_ok_iff.mpr ⟨hok, hreply⟩

/-! ## 2. What is read of a request -/

/-- A request in the form that the program reads. -/
inductive Ask
  | address (version cmd rsv a b c d p q : Byte)
  | name (version cmd rsv len : Byte) (bytes : Bytes)
      (fits : bytes.length = min (charToSize len) 1024) (p q : Byte)

def Ask.bytes : Ask → Bytes
  | address version cmd rsv a b c d p q =>
    [version, cmd, rsv, SOCKS5RequestHeader.atyp_ipv4] ++ [a, b, c, d, p, q]
  | name version cmd rsv len bytes _ p q =>
    [version, cmd, rsv, SOCKS5RequestHeader.atyp_dname] ++ ([len] ++ (bytes ++ [p, q]))

/-- The port of a request, in network byte order. -/
def portOf (p q : Byte) : UInt16 := ntohs (load16 p q)

/-- A request is carried out: the calls made for it after `calls`, all of which succeed, and
the socket they leave. -/
inductive Carried (net : Network) (calls : List Call) : Ask → List Call → RemoteSocket → Prop
  | connects (version rsv a b c d p q : Byte)
      (connected : net.succeeds calls (.connect ⟨[a, b, c, d], portOf p q⟩) = true) :
      Carried net calls (.address version SOCKS5RequestHeader.connect rsv a b c d p q)
        [.connect ⟨[a, b, c, d], portOf p q⟩] (.connected ⟨[a, b, c, d], portOf p q⟩)
  /-- A command that is not `connect` connects nothing. -/
  | idles (version cmd rsv a b c d p q : Byte) (other : cmd ≠ SOCKS5RequestHeader.connect) :
      Carried net calls (.address version cmd rsv a b c d p q) [] .unconnected
  | dials (version cmd rsv len : Byte) (bytes : Bytes)
      (fits : bytes.length = min (charToSize len) 1024) (p q : Byte)
      (iter : Endpoint × List Endpoint)
      (resolved : net.resolve bytes (portText (portOf p q)) = some iter)
      (connected : net.succeeds (calls ++ [.resolve bytes (portText (portOf p q))])
        (.connect iter.1) = true) :
      Carried net calls (.name version cmd rsv len bytes fits p q)
        [.resolve bytes (portText (portOf p q)), .connect iter.1] (.connected iter.1)

/-- A request that is carried out and answered, and what the client sends after it. -/
structure Grants (net : Network) (s : Setup) (ask : Ask) (made : List Call) (t : Bytes)
    (socket : RemoteSocket) : Prop where
  input : s.input = ask.bytes ++ t
  carried : Carried net s.calls ask made socket
  replied : net.succeeds (s.calls ++ made) (.write successReply) = true

/-- The calls with which a request that is carried out ends. -/
def started : List Call := [.write successReply, .startSession]

/-! ## 3. The requests that start a session -/

/-- The bytes of an address and a port, as the program loads them. -/
theorem requestIpv4_address {header : SOCKS5RequestHeader} {a b c d p q : Byte} {t : Bytes}
    (hs : s.input = [a, b, c, d, p, q] ++ t) :
    requestIpv4 net header s =
      (if header.cmd_ = SOCKS5RequestHeader.connect
        then connectAndReply net ⟨[a, b, c, d], portOf p q⟩
        else replyAndStart net) { s with input := t } := by
  have hrun : requestIpv4 net header s = _ := bind_ok (read_append (n := 6) hs rfl)
  refine hrun.trans ?_
  simp only [List.getD_cons_zero, List.getD_cons_succ, address_v4_ntohl, portOf]
  rfl

/-- A list of six bytes. -/
theorem six_of_length {xs : Bytes} (h : xs.length = 6) :
    ∃ a b c d p q, xs = [a, b, c, d, p, q] := by
  match xs, h with
  | [a, b, c, d, p, q], _ => exact ⟨a, b, c, d, p, q, rfl⟩

theorem four_of_length {xs : Bytes} (h : xs.length = 4) : ∃ a b c d, xs = [a, b, c, d] := by
  match xs, h with
  | [a, b, c, d], _ => exact ⟨a, b, c, d, rfl⟩

theorem two_of_length {xs : Bytes} (h : xs.length = 2) : ∃ p q, xs = [p, q] := by
  match xs, h with
  | [p, q], _ => exact ⟨p, q, rfl⟩

/-- `case atyp_ipv4`, when it returns. -/
theorem requestIpv4_grants {version cmd rsv : Byte} {s₀ : Setup} (hcalls : s.calls = s₀.calls)
    (hsocket : s.conn.remoteSocket_ = .unconnected)
    (hinput : s₀.input = [version, cmd, rsv, SOCKS5RequestHeader.atyp_ipv4] ++ s.input)
    (h : requestIpv4 net ⟨version, cmd, rsv, SOCKS5RequestHeader.atyp_ipv4⟩ s = .ok true s') :
    ∃ ask made, Grants net s₀ ask made s'.input s'.conn.remoteSocket_ ∧
      s'.calls = s₀.calls ++ (made ++ started) := by
  obtain ⟨xs, s₁, hread, -⟩ := bind_eq_ok_iff.mp h
  obtain ⟨rest, hin, hlen, -⟩ := read_eq_ok hread
  obtain ⟨a, b, c, d, p, q, rfl⟩ := six_of_length hlen
  rw [requestIpv4_address hin] at h
  rw [hin] at hinput
  by_cases hcmd : cmd = SOCKS5RequestHeader.connect
  · subst hcmd
    rw [if_pos rfl] at h
    obtain ⟨hconn, hreply⟩ := connectAndReply_eq_ok_iff.mp h
    obtain ⟨hwrite, -, rfl⟩ := replyAndStart_eq_ok_iff.mp hreply
    dsimp only at hconn
    rw [hcalls] at hconn
    refine ⟨.address version _ rsv a b c d p q, _,
      ⟨hinput, .connects version rsv a b c d p q hconn, ?_⟩, ?_⟩
    · simpa [Setup.joined, hcalls] using hwrite
    · simp [Setup.answered, Setup.joined, hcalls, started]
  · rw [if_neg hcmd] at h
    obtain ⟨hwrite, -, rfl⟩ := replyAndStart_eq_ok_iff.mp h
    refine ⟨.address version cmd rsv a b c d p q, [], ⟨hinput, ?_, ?_⟩, ?_⟩
    · have hidle : (Setup.answered { s with input := rest }).conn.remoteSocket_ =
          .unconnected := hsocket
      rw [hidle]
      exact .idles version cmd rsv a b c d p q hcmd
    · simpa [hcalls] using hwrite
    · simp [Setup.answered, hcalls, started]

/-- `case atyp_dname` reads a length, a name and a port before it calls out. -/
theorem requestDname_reads {b : Bool} (h : requestDname net s = .ok b s') :
    ∃ len name p q t, s.input = [len] ++ (name ++ ([p, q] ++ t)) ∧
      name.length = min (charToSize len) 1024 := by
  obtain ⟨_, s₁, hread, -⟩ := bind_eq_ok_iff.mp h
  obtain ⟨xs, rest, b₁, hin, hlen, -, -, -⟩ := readBuffer_eq_ok hread
  obtain ⟨len, rfl⟩ := List.length_eq_one_iff.mp hlen
  obtain ⟨b₂, hsize⟩ := requestDname_size net hin
  rw [hsize] at h
  obtain ⟨_, s₂, hread, -⟩ := bind_eq_ok_iff.mp h
  obtain ⟨name, rest', b₃, hrest, hname, -, -, -⟩ := readBuffer_eq_ok hread
  obtain ⟨b₄, hdial⟩ := nameOfSize_append net hrest hname.symm
  rw [hdial] at h
  obtain ⟨xs, s₃, hread, -⟩ := bind_eq_ok_iff.mp h
  obtain ⟨t, hrest', htwo, -⟩ := read_eq_ok hread
  obtain ⟨p, q, rfl⟩ := two_of_length htwo
  have hrest : rest = name ++ rest' := hrest
  have hrest' : rest' = [p, q] ++ t := hrest'
  exact ⟨len, name, p, q, t, by rw [hin, hrest, hrest'], hname⟩

/-- `case atyp_dname`, when it returns. -/
theorem requestDname_grants {version cmd rsv : Byte} {s₀ : Setup} (hcalls : s.calls = s₀.calls)
    (hinput : s₀.input = [version, cmd, rsv, SOCKS5RequestHeader.atyp_dname] ++ s.input)
    (h : requestDname net s = .ok true s') :
    ∃ ask made, Grants net s₀ ask made s'.input s'.conn.remoteSocket_ ∧
      s'.calls = s₀.calls ++ (made ++ started) := by
  obtain ⟨len, name, p, q, t, hin, hname⟩ := requestDname_reads h
  obtain ⟨b, hdial⟩ := requestDname_eq net hin hname.symm
  rw [hdial] at h
  obtain ⟨iter, hiter, hconn, hreply⟩ := dial_eq_ok_iff.mp h
  obtain ⟨hwrite, -, rfl⟩ := replyAndStart_eq_ok_iff.mp hreply
  have hconn' : net.succeeds (s₀.calls ++ [.resolve name (portText (portOf p q))])
      (.connect iter.1) = true := hcalls ▸ hconn
  refine ⟨_, _, ⟨?_, .dials version cmd rsv len name hname p q iter hiter hconn', ?_⟩, ?_⟩
  · rw [hinput, hin]
    simp [Ask.bytes, Setup.answered, Setup.joined, Setup.filled]
  · simpa [Setup.joined, Setup.filled, portOf, hcalls] using hwrite
  · simp [Setup.answered, Setup.joined, Setup.filled, portOf, hcalls, started]

/-- **A request that starts a session** has the form that is read, and is carried out. -/
theorem HandleRequest_grants (h : HandleRequest net s = .ok true s') :
    ∃ ask made, Grants net s ask made s'.input s'.conn.remoteSocket_ ∧
      s'.calls = s.calls ++ (made ++ started) := by
  obtain ⟨xs, s₁, hread, -⟩ := bind_eq_ok_iff.mp h
  obtain ⟨body, hin, hlen, -⟩ := read_eq_ok hread
  obtain ⟨version, cmd, rsv, atyp, rfl⟩ := four_of_length hlen
  rw [HandleRequest_eq hin] at h
  by_cases hipv4 : atyp = SOCKS5RequestHeader.atyp_ipv4
  · subst hipv4
    rw [if_pos rfl] at h
    exact requestIpv4_grants (s := s.opened body) rfl rfl hin h
  · rw [if_neg hipv4] at h
    by_cases hdname : atyp = SOCKS5RequestHeader.atyp_dname
    · subst hdname
      rw [if_pos rfl] at h
      exact requestDname_grants (s := s.opened body) rfl hin h
    · rw [if_neg hdname] at h
      obtain ⟨hfalse, -⟩ := pure_eq_ok_iff.mp h
      cases hfalse

/-- Whatever has this form, and can be carried out, starts a session. -/
theorem Grants.returns {ask : Ask} {made : List Call} {t : Bytes} {socket : RemoteSocket}
    (h : Grants net s ask made t socket) :
    ∃ s', HandleRequest net s = .ok true s' ∧ Leaves s s' (made ++ started) t socket := by
  obtain ⟨hinput, hcarried, hreplied⟩ := h
  cases hcarried with
  | connects version rsv a b c d p q connected =>
    have hin : s.input = [version, SOCKS5RequestHeader.connect, rsv,
        SOCKS5RequestHeader.atyp_ipv4] ++ ([a, b, c, d, p, q] ++ t) := hinput
    refine ⟨(Setup.joined (s.opened t) ⟨[a, b, c, d], portOf p q⟩).answered, ?_, ?_⟩
    · rw [HandleRequest_eq hin, if_pos rfl, requestIpv4_address rfl, if_pos rfl]
      exact connectAndReply_eq_ok_iff.mpr
        ⟨connected, replyAndStart_eq_ok_iff.mpr ⟨hreplied, rfl, rfl⟩⟩
    · exact ⟨by simp [Setup.answered, Setup.joined, Setup.opened, started], rfl, rfl⟩
  | idles version cmd rsv a b c d p q other =>
    have hin : s.input = [version, cmd, rsv, SOCKS5RequestHeader.atyp_ipv4] ++
        ([a, b, c, d, p, q] ++ t) := hinput
    rw [List.append_nil] at hreplied
    refine ⟨(s.opened t).answered, ?_, ?_⟩
    · rw [HandleRequest_eq hin, if_pos rfl, requestIpv4_address rfl, if_neg other]
      exact replyAndStart_eq_ok_iff.mpr ⟨hreplied, rfl, rfl⟩
    · exact ⟨by simp [Setup.answered, Setup.opened, started], rfl, rfl⟩
  | dials version cmd rsv len bytes fits p q iter resolved connected =>
    have hin : s.input = [version, cmd, rsv, SOCKS5RequestHeader.atyp_dname] ++
        ([len] ++ (bytes ++ ([p, q] ++ t))) := by
      rw [hinput]
      simp [Ask.bytes]
    obtain ⟨b, hdial⟩ := requestDname_eq net
      (s := s.opened ([len] ++ (bytes ++ ([p, q] ++ t)))) rfl fits.symm
    have hwrite : net.succeeds (s.calls ++ [.resolve bytes (portText (portOf p q))] ++
        [.connect iter.1]) (.write successReply) = true := by
      simpa using hreplied
    refine ⟨(Setup.joined { (s.opened t).filled b t with
      calls := s.calls ++ [.resolve bytes (portText (portOf p q))] } iter.1).answered, ?_, ?_⟩
    · rw [HandleRequest_eq hin, if_neg (by decide), if_pos rfl, hdial]
      exact dial_eq_ok_iff.mpr ⟨iter, resolved, connected,
        replyAndStart_eq_ok_iff.mpr ⟨hwrite, rfl, rfl⟩⟩
    · exact ⟨by simp [Setup.answered, Setup.joined, started], rfl, rfl⟩

end SocksConnection

namespace Connection

open SocksConnection (Setup Network Call Ask Carried Grants HandleHandshake HandleRequest
  successReply)
open Blocking (bind_eq_ok_iff)

/-! ## 4. The handshake -/

/-- A handshake that returns has read an offer. -/
theorem HandleHandshake_reads {net : Network} {s s' : Setup} {b : Bool}
    (h : HandleHandshake net s = .ok b s') :
    ∃ (o : Offer) (rest : Bytes), s = offered s o rest := by
  obtain ⟨xs, s₁, hread, hrest⟩ := bind_eq_ok_iff.mp h
  obtain ⟨rest, hin, hlen, rfl⟩ := SocksConnection.read_eq_ok hread
  obtain ⟨n, rfl⟩ := List.length_eq_one_iff.mp hlen
  have hsuccess : ∀ m : MethodIdentification, ¬ (!m.Success) = true := by
    simp [MethodIdentification.Success]
  rw [if_neg (hsuccess _)] at hrest
  obtain ⟨k, s₂, hread, -⟩ := bind_eq_ok_iff.mp hrest
  obtain ⟨methods, rest', b', hin', hlen', -⟩ := SocksConnection.readBuffer_eq_ok hread
  have hn := n.toNat_lt
  have hcount : methods.length = n.toNat := by
    simp only [List.headD_cons] at hlen'
    omega
  refine ⟨⟨methods, by omega⟩, rest', ?_⟩
  have hin' : rest = methods ++ rest' := hin'
  have hbyte : UInt8.ofNat methods.length = n := by rw [hcount, UInt8.ofNat_toNat]
  have hinput : s.input = Offer.bytes ⟨methods, by omega⟩ ++ rest' := by
    rw [hin, hin', Offer.bytes, hbyte]
    simp
  rw [offered, ← hinput]

/-! ## 5. The set-up -/

/-- A stream that is served: an offer, a request, and what the session is to relay. -/
structure Served (net : Network) (input : Bytes) (o : Offer) (ask : Ask) (made : List Call)
    (t : Bytes) (socket : RemoteSocket) : Prop where
  input : input = o.bytes ++ (ask.bytes ++ t)
  selected : net.succeeds [] (.write [5, o.selected]) = true
  carried : Carried net [.write [5, o.selected]] ask made socket
  replied : net.succeeds (.write [5, o.selected] :: made) (.write successReply) = true

/-- The calls of a connection that is served. -/
def servedCalls (o : Offer) (made : List Call) : List Call :=
  .write [5, o.selected] :: made ++ [.write successReply, .startSession]

/-- **A session was started for a stream that is served**, by the calls that this takes. -/
theorem startSocks_served {net : Network} {session : ProxySocksSession} {buffer : Buffer}
    {input : Bytes} {w : World} {r : ProxySocksSession.World}
    (h : StartSocks net session (created buffer input) = w) (hr : w.relay = some r) :
    r = ProxySocksSession.Start session ∧ w.deletedByStart = 0 ∧ ∃ o ask made,
      Served net input o ask made w.setup.input w.setup.conn.remoteSocket_ ∧
        w.setup.calls = servedCalls o made := by
  unfold StartSocks at h
  split at h
  · rename_i s₁ hshake
    split at h
    · rename_i s₂ hrequest
      subst h
      obtain ⟨o, rest, hoffer⟩ := HandleHandshake_reads hshake
      obtain ⟨conn, heq⟩ := HandleHandshake_eq net (created buffer input) o rest
      rw [← hoffer, hshake] at heq
      split at heq
      · rename_i hselected
        obtain ⟨-, rfl⟩ := EStateM.Result.ok.inj heq
        obtain ⟨ask, made, hgrants, hcalls⟩ := SocksConnection.HandleRequest_grants hrequest
        have hinput : input = o.bytes ++ rest := congrArg Setup.input hoffer
        refine ⟨(Option.some.inj hr).symm, rfl, o, ask, made, ⟨?_, hselected, hgrants.carried,
          hgrants.replied⟩, ?_⟩
        · rw [hinput]
          exact congrArg _ hgrants.input
        · rw [hcalls]
          simp [created, servedCalls, SocksConnection.started]
      · cases heq
    · subst h; cases hr
    · subst h; cases hr
  · subst h; cases hr
  · subst h; cases hr

/-- **Which clients are served.**  For every network and every stream of bytes: `Start` leaves a
session running, with these calls made, this much of the stream unread and this socket,
exactly if the stream is an offer, a request in the form that is read and the rest, and the
reply to the offer, the calls of the request and the reply to the request all succeed. -/
theorem StartSocks_serves_iff (net : Network) (session : ProxySocksSession) (buffer : Buffer)
    (input t : Bytes) (calls : List Call) (socket : RemoteSocket) :
    (∃ s, StartSocks net session (created buffer input) =
          ⟨s, some (ProxySocksSession.Start session), 0⟩ ∧
        s.input = t ∧ s.calls = calls ∧ s.conn.remoteSocket_ = socket) ↔
      ∃ o ask made, Served net input o ask made t socket ∧ calls = servedCalls o made := by
  constructor
  · rintro ⟨s, hstart, rfl, rfl, rfl⟩
    exact (startSocks_served hstart rfl).2.2
  · rintro ⟨o, ask, made, ⟨rfl, hselected, hcarried, hreplied⟩, rfl⟩
    obtain ⟨conn, hshake⟩ := HandleHandshake_eq net (created buffer []) o (ask.bytes ++ t)
    have hselected : net.succeeds (created buffer []).calls (.write [5, o.selected]) = true :=
      hselected
    rw [if_pos hselected] at hshake
    have hgrants : Grants net ⟨conn, ask.bytes ++ t, [.write [5, o.selected]]⟩ ask made t socket :=
      ⟨rfl, hcarried, hreplied⟩
    obtain ⟨s, hrequest, hleaves⟩ := hgrants.returns
    refine ⟨s, ?_, hleaves.input, ?_, hleaves.socket⟩
    · have hshake : HandleHandshake net (created buffer (o.bytes ++ (ask.bytes ++ t))) =
        .ok true ⟨conn, ask.bytes ++ t, [.write [5, o.selected]]⟩ := hshake
      rw [StartSocks, hshake]
      dsimp only
      rw [hrequest]
    · rw [hleaves.calls]
      simp [servedCalls, SocksConnection.started]

end Connection

end TwoProxy
