/-
# What `HandleRequest` makes of a request

A request as RFC 1928 writes it, sent to `HandleRequest` with anything behind it, under every
outcome of resolving and connecting.

There is one theorem for each kind of request.  It says what the program leaves behind
(`Leaves`): the calls it made, the input it left unread, and the socket.  What they come to is
the subject of `Replies.lean`.
-/
import TwoProxy.SocksConnection

namespace TwoProxy

namespace SocksConnection

open Blocking (final final_ok final_error final_congr bind_ok bind_error)

/-! ## 1. Requests -/

/-- A destination of a type that the program knows. -/
inductive Destination
  | ipv4 (a b c d : Byte)
  | name (bytes : Bytes) (le : bytes.length ≤ 255)

/-- An address of any other type. -/
structure OtherAddress where
  atyp : Byte
  bytes : Bytes
  ne_ipv4 : atyp ≠ SOCKS5RequestHeader.atyp_ipv4
  ne_dname : atyp ≠ SOCKS5RequestHeader.atyp_dname

inductive Address
  | destination (d : Destination)
  | other (o : OtherAddress)

/-- The type and the bytes of an address. -/
def Address.encode : Address → Bytes
  | destination (.ipv4 a b c d) => [SOCKS5RequestHeader.atyp_ipv4, a, b, c, d]
  | destination (.name bytes _) =>
    SOCKS5RequestHeader.atyp_dname :: UInt8.ofNat bytes.length :: bytes
  | other o => o.atyp :: o.bytes

structure Request where
  cmd : Byte
  address : Address
  port : UInt16

def Request.encode (r : Request) : Bytes :=
  [5, r.cmd, 0] ++ r.address.encode ++ portBytes r.port

/-- The service that is handed to the resolver. -/
def portText (port : UInt16) : Bytes := ascii (toString port.toNat)

/-! ## 2. Reading -/

variable {net : Network} {s : Setup} {n : Nat} {xs ys : Bytes}

theorem read_append (hs : s.input = xs ++ ys) (hn : xs.length = n) :
    read n s = .ok xs { s with input := ys } := by
  unfold read
  rw [hs, if_pos (by rw [List.length_append]; omega), List.take_left' hn, List.drop_left' hn]

theorem read_short (h : s.input.length < n) : read n s = .error () { s with input := [] } := by
  unfold read
  rw [if_neg (by omega)]

/-- A read into the array leaves what it read at the front of it. -/
theorem readBuffer_append (hs : s.input = xs ++ ys) (hn : min n 1024 = xs.length) :
    ∃ (b : Buffer) (rest : Bytes), b.bytes = xs ++ rest ∧ readBuffer n s =
      .ok xs.length { s with input := ys, conn := { s.conn with buffer_ := b } } := by
  have hsize := s.conn.buffer_.size_eq
  have hle : min n 1024 ≤ s.input.length := by rw [hs, List.length_append]; omega
  refine ⟨⟨xs ++ s.conn.buffer_.bytes.drop xs.length, ?_⟩, _, rfl, ?_⟩
  · rw [List.length_append, List.length_drop]
    omega
  · simp only [readBuffer]
    rw [dif_pos hle]
    simp [hn, hs]

theorem readBuffer_short (h : s.input.length < min n 1024) :
    readBuffer n s = .error () { s with input := [] } := by
  simp only [readBuffer]
  rw [dif_neg (by omega)]

/-! ## 3. Connecting and replying -/

theorem call_ok {c : Call} (h : net.succeeds s.calls c = true) :
    call net c s = .ok () { s with calls := s.calls ++ [c] } := if_pos h

theorem call_error {c : Call} (h : ¬ net.succeeds s.calls c = true) :
    call net c s = .error () { s with calls := s.calls ++ [c] } := if_neg h

/-- The only reply there is. -/
def successReply : Bytes := (SOCK5Response.create true 0 SERVER_PORT).buffers

/-- Connect, reply and start the session. -/
def connectAndReply (net : Network) (endpoint : Endpoint) : Program Bool := do
  connectRemoteSocket net endpoint
  replyAndStart net

/-- Resolve, and connect to the first endpoint. -/
def dial (net : Network) (name port : Bytes) : Program Bool := do
  let iter ← resolveName net name port
  resetRemoteSocket
  connectAndReply net iter.1

/-- The calls of `replyAndStart` after `calls`. -/
def replyCalls (net : Network) (calls : List Call) : List Call :=
  .write successReply ::
    if net.succeeds calls (.write successReply) = true then [.startSession] else []

/-- The calls of `connectAndReply`. -/
def connectCalls (net : Network) (calls : List Call) (endpoint : Endpoint) : List Call :=
  .connect endpoint ::
    if net.succeeds calls (.connect endpoint) = true
    then replyCalls net (calls ++ [.connect endpoint]) else []

/-- The calls of `dial`. -/
def dialCalls (net : Network) (calls : List Call) (name port : Bytes) : List Call :=
  .resolve name port ::
    match net.resolve name port with
    | none => []
    | some iter => connectCalls net (calls ++ [.resolve name port]) iter.1

/-- What a program leaves behind: the calls it made, the input it left, and the socket. -/
structure Leaves (s s' : Setup) (made : List Call) (input : Bytes) (socket : RemoteSocket) :
    Prop where
  calls : s'.calls = s.calls ++ made
  input : s'.input = input
  socket : s'.conn.remoteSocket_ = socket

theorem replyAndStart_leaves (net : Network) (s : Setup) :
    Leaves s (final (replyAndStart net) s) (replyCalls net s.calls) s.input
      s.conn.remoteSocket_ := by
  by_cases h : net.succeeds s.calls (.write successReply) = true
  · have hwrite : write net successReply s = _ := call_ok h
    have hrun : replyAndStart net s = _ := bind_ok hwrite
    rw [final_ok (hrun.trans (bind_ok rfl))]
    exact ⟨by simp [replyCalls, h], rfl, rfl⟩
  · have hwrite : write net successReply s = _ := call_error h
    have hrun : replyAndStart net s = _ := bind_error hwrite
    rw [final_error hrun]
    exact ⟨by simp [replyCalls, h], rfl, rfl⟩

theorem connectAndReply_leaves (net : Network) (s : Setup) (endpoint : Endpoint) :
    Leaves s (final (connectAndReply net endpoint) s) (connectCalls net s.calls endpoint) s.input
      (if net.succeeds s.calls (.connect endpoint) = true then .connected endpoint
        else s.conn.remoteSocket_) := by
  by_cases h : net.succeeds s.calls (.connect endpoint) = true
  · rw [if_pos h]
    have hconn : connectRemoteSocket net endpoint s = _ := bind_ok (call_ok h)
    have hrun : connectAndReply net endpoint s = _ := bind_ok hconn
    rw [final_congr hrun]
    obtain ⟨h1, h2, h3⟩ := replyAndStart_leaves net
      { s with calls := s.calls ++ [.connect endpoint],
               conn := { s.conn with remoteSocket_ := .connected endpoint } }
    exact ⟨by rw [h1]; simp [connectCalls, h], h2, h3⟩
  · rw [if_neg h]
    have hconn : connectRemoteSocket net endpoint s = _ := bind_error (call_error h)
    have hrun : connectAndReply net endpoint s = _ := bind_error hconn
    rw [final_error hrun]
    exact ⟨by simp [connectCalls, h], rfl, rfl⟩

/-- The socket after `dial`. -/
def dialSocket (net : Network) (calls : List Call) (name port : Bytes)
    (socket : RemoteSocket) : RemoteSocket :=
  match net.resolve name port with
  | none => socket
  | some iter =>
    if net.succeeds (calls ++ [.resolve name port]) (.connect iter.1) = true
    then .connected iter.1 else .unconnected

theorem dial_leaves (net : Network) (s : Setup) (name port : Bytes) :
    Leaves s (final (dial net name port) s) (dialCalls net s.calls name port) s.input
      (dialSocket net s.calls name port s.conn.remoteSocket_) := by
  cases h : net.resolve name port with
  | none =>
    have hresolve : resolveName net name port s =
        .error () { s with calls := s.calls ++ [.resolve name port] } := by
      simp only [resolveName, h]
    have hrun : dial net name port s = _ := bind_error hresolve
    rw [final_error hrun]
    exact ⟨by simp [dialCalls, h], rfl, by simp [dialSocket, h]⟩
  | some iter =>
    have hresolve : resolveName net name port s =
        .ok iter { s with calls := s.calls ++ [.resolve name port] } := by
      simp only [resolveName, h]
    have hrun : dial net name port s = _ := bind_ok hresolve
    rw [final_congr (hrun.trans (bind_ok rfl))]
    obtain ⟨h1, h2, h3⟩ := connectAndReply_leaves net
      { s with calls := s.calls ++ [.resolve name port],
               conn := { s.conn with remoteSocket_ := .unconnected } } iter.1
    exact ⟨by rw [h1]; simp [dialCalls, h], h2, by rw [h3]; simp [dialSocket, h]⟩

/-! ## 4. The request, read -/

/-- After the four bytes that every request starts with. -/
def Setup.opened (s : Setup) (body : Bytes) : Setup :=
  { s with input := body, conn := { s.conn with remoteSocket_ := .unconnected } }

theorem resetRemoteSocket_eq (s : Setup) :
    resetRemoteSocket s = .ok () (s.opened s.input) := rfl

theorem getBuffer_eq (s : Setup) : getBuffer s = .ok s.conn.buffer_ s := rfl

theorem HandleRequest_eq {v cmd rsv atyp : Byte} {body : Bytes}
    (hs : s.input = [v, cmd, rsv, atyp] ++ body) :
    HandleRequest net s =
      (if atyp = SOCKS5RequestHeader.atyp_ipv4 then requestIpv4 net ⟨v, cmd, rsv, atyp⟩
        else if atyp = SOCKS5RequestHeader.atyp_dname then requestDname net
        else pure false) (s.opened body) := by
  have hrun : HandleRequest net s = _ := bind_ok (read_append (n := 4) hs rfl)
  have hsuccess : ∀ h : SOCKS5RequestHeader, ¬ (!h.Success) = true := by
    simp [SOCKS5RequestHeader.Success]
  refine hrun.trans ?_
  rw [if_neg (hsuccess _), bind_ok (resetRemoteSocket_eq _)]
  rfl

theorem requestIpv4_eq {header : SOCKS5RequestHeader} {a b c d : Byte} {port : UInt16}
    {t : Bytes} (hs : s.input = [a, b, c, d] ++ portBytes port ++ t) :
    requestIpv4 net header s =
      (if header.cmd_ = SOCKS5RequestHeader.connect
        then connectAndReply net ⟨[a, b, c, d], port⟩
        else replyAndStart net) { s with input := t } := by
  have hrun : requestIpv4 net header s = _ := bind_ok (read_append (n := 6) hs rfl)
  refine hrun.trans ?_
  simp only [portBytes, List.cons_append, List.nil_append, List.getD_cons_zero,
    List.getD_cons_succ, address_v4_ntohl, ntohs_load16]
  rfl

/-- What is done with a name: its port is read, and it is dialled. -/
def dialName (net : Network) (name : Bytes) : Program Bool := do
  let port ← read 2
  dial net name (portText (ntohs (load16 (port.getD 0 0) (port.getD 1 0))))

/-- What is done with the length of a name, when it is taken for `n`. -/
def nameOfSize (net : Network) (n : Nat) : Program Bool := do
  let addrLen ← readBuffer n
  let buffer_ ← getBuffer
  dialName net (buffer_.bytes.take addrLen)

/-- The connection with other contents in its array, and another input. -/
def Setup.filled (s : Setup) (b : Buffer) (input : Bytes) : Setup :=
  { s with input := input, conn := { s.conn with buffer_ := b } }

variable (net) in
theorem requestDname_size {len : Byte} {rest : Bytes} (hs : s.input = [len] ++ rest) :
    ∃ b, requestDname net s = nameOfSize net (charToSize len) (s.filled b rest) := by
  obtain ⟨b, tail, hb, hread⟩ := readBuffer_append (n := 1) hs rfl
  have hfirst : b.bytes.headD 0 = len := by rw [hb]; rfl
  have hrun : requestDname net s = _ := bind_ok hread
  refine ⟨b, hrun.trans ((bind_ok (getBuffer_eq _)).trans ?_)⟩
  rw [hfirst]
  rfl

variable (net) in
theorem nameOfSize_append {name rest : Bytes} (hs : s.input = name ++ rest)
    (hn : min n 1024 = name.length) :
    ∃ b, nameOfSize net n s = dialName net name (s.filled b rest) := by
  obtain ⟨b, tail, hb, hread⟩ := readBuffer_append hs hn
  have hname : b.bytes.take name.length = name := by rw [hb, List.take_left]
  have hrun : nameOfSize net n s = _ := bind_ok hread
  refine ⟨b, hrun.trans ((bind_ok (getBuffer_eq _)).trans ?_)⟩
  rw [hname]
  rfl

variable (net) in
/-- The read of a name and a port, of whatever length the first byte is taken for. -/
theorem requestDname_eq {len p q : Byte} {name t : Bytes}
    (hs : s.input = [len] ++ (name ++ ([p, q] ++ t)))
    (hlen : min (charToSize len) 1024 = name.length) :
    ∃ b, requestDname net s =
      dial net name (portText (ntohs (load16 p q))) (s.filled b t) := by
  obtain ⟨b₁, hsize⟩ := requestDname_size net hs
  have hinput : (s.filled b₁ (name ++ ([p, q] ++ t))).input = name ++ ([p, q] ++ t) := rfl
  obtain ⟨b₂, hname⟩ := nameOfSize_append net hinput hlen
  refine ⟨b₂, hsize.trans (hname.trans ?_)⟩
  have hport : read 2 (s.filled b₂ ([p, q] ++ t)) = .ok [p, q] (s.filled b₂ t) :=
    read_append rfl rfl
  have hrun : dialName net name (s.filled b₂ ([p, q] ++ t)) = _ := bind_ok hport
  exact hrun

variable (net) in
/-- A stream that ends in the name or in the port. -/
theorem requestDname_short {len : Byte} {rest : Bytes} (hs : s.input = [len] ++ rest)
    (hrest : rest.length < min (charToSize len) 1024 + 2) :
    Leaves s (final (requestDname net) s) [] [] s.conn.remoteSocket_ := by
  obtain ⟨b₁, hsize⟩ := requestDname_size net hs
  by_cases hname : rest.length < min (charToSize len) 1024
  · have hshort : readBuffer (charToSize len) (s.filled b₁ rest) = .error () (s.filled b₁ []) :=
      readBuffer_short hname
    rw [final_error (hsize.trans (bind_error hshort))]
    exact ⟨(List.append_nil _).symm, rfl, rfl⟩
  · have hlen : min (charToSize len) 1024 =
        (rest.take (min (charToSize len) 1024)).length := by
      rw [List.length_take]
      omega
    have hinput : (s.filled b₁ rest).input = rest.take (min (charToSize len) 1024) ++
        rest.drop (min (charToSize len) 1024) := (List.take_append_drop _ _).symm
    obtain ⟨b₂, hname⟩ := nameOfSize_append net hinput hlen
    have hshort : read 2 (s.filled b₂ (rest.drop (min (charToSize len) 1024))) =
        .error () (s.filled b₂ []) :=
      read_short (by simp only [Setup.filled, List.length_drop]; omega)
    rw [final_error (hsize.trans (hname.trans (bind_error hshort)))]
    exact ⟨(List.append_nil _).symm, rfl, rfl⟩

/-! ### The kinds of requests -/

variable (net) (s) (t : Bytes)

/-- The connection as it finds a request. -/
def Setup.receiving (s : Setup) (r : Request) (t : Bytes) : Setup :=
  { s with input := r.encode ++ t }

theorem ipv4_leaves (cmd a b c d : Byte) (port : UInt16) :
    Leaves s
      (final (HandleRequest net) (s.receiving ⟨cmd, .destination (.ipv4 a b c d), port⟩ t))
      (if cmd = SOCKS5RequestHeader.connect then connectCalls net s.calls ⟨[a, b, c, d], port⟩
        else replyCalls net s.calls) t
      (if cmd = SOCKS5RequestHeader.connect ∧
          net.succeeds s.calls (.connect ⟨[a, b, c, d], port⟩) = true
        then .connected ⟨[a, b, c, d], port⟩ else .unconnected) := by
  have hrun : HandleRequest net (s.receiving ⟨cmd, .destination (.ipv4 a b c d), port⟩ t) =
      requestIpv4 net ⟨5, cmd, 0, SOCKS5RequestHeader.atyp_ipv4⟩
        (s.opened ([a, b, c, d] ++ portBytes port ++ t)) :=
    HandleRequest_eq (s := s.receiving ⟨cmd, .destination (.ipv4 a b c d), port⟩ t) rfl
  rw [final_congr (hrun.trans (requestIpv4_eq rfl))]
  by_cases hcmd : cmd = SOCKS5RequestHeader.connect
  · rw [if_pos hcmd, if_pos hcmd]
    obtain ⟨h1, h2, h3⟩ := connectAndReply_leaves net (s.opened t) ⟨[a, b, c, d], port⟩
    refine ⟨h1, h2, h3.trans ?_⟩
    simp only [hcmd, true_and]
    rfl
  · rw [if_neg hcmd, if_neg hcmd, if_neg fun h => hcmd h.1]
    obtain ⟨h1, h2, h3⟩ := replyAndStart_leaves net (s.opened t)
    exact ⟨h1, h2, h3⟩

theorem other_leaves (cmd : Byte) (o : OtherAddress) (port : UInt16) :
    Leaves s (final (HandleRequest net) (s.receiving ⟨cmd, .other o, port⟩ t)) []
      (o.bytes ++ portBytes port ++ t) .unconnected := by
  have hrun : HandleRequest net (s.receiving ⟨cmd, .other o, port⟩ t) =
      (if o.atyp = SOCKS5RequestHeader.atyp_ipv4 then requestIpv4 net ⟨5, cmd, 0, o.atyp⟩
        else if o.atyp = SOCKS5RequestHeader.atyp_dname then requestDname net
        else pure false) (s.opened (o.bytes ++ portBytes port ++ t)) :=
    HandleRequest_eq (s := s.receiving ⟨cmd, .other o, port⟩ t) rfl
  rw [if_neg o.ne_ipv4, if_neg o.ne_dname] at hrun
  rw [final_ok hrun]
  exact ⟨(List.append_nil _).symm, rfl, rfl⟩

/-- A name reaches `requestDname` with its length in front. -/
theorem HandleRequest_name (cmd : Byte) {name : Bytes} (hle : name.length ≤ 255)
    (port : UInt16) :
    HandleRequest net (s.receiving ⟨cmd, .destination (.name name hle), port⟩ t) =
      requestDname net
        (s.opened ([UInt8.ofNat name.length] ++ (name ++ (portBytes port ++ t)))) := by
  have hbody : (s.receiving ⟨cmd, .destination (.name name hle), port⟩ t).input =
      [5, cmd, 0, SOCKS5RequestHeader.atyp_dname] ++
        ([UInt8.ofNat name.length] ++ (name ++ (portBytes port ++ t))) := by
    simp [Setup.receiving, Request.encode, Address.encode]
  rw [HandleRequest_eq hbody, if_neg (by decide), if_pos rfl]
  rfl

/-- A length below 128 is a `char` that is not negative. -/
theorem charToSize_short {n : Nat} (h : n < 128) : charToSize (UInt8.ofNat n) = n := by
  have hn : (UInt8.ofNat n).toNat = n := by
    rw [UInt8.toNat_ofNat']
    omega
  rw [charToSize, if_pos (by omega), hn]

/-- From 128 on it is, and exceeds the array. -/
theorem charToSize_long {n : Nat} (h : 128 ≤ n) (hle : n ≤ 255) :
    min (charToSize (UInt8.ofNat n)) 1024 = 1024 := by
  have hn : (UInt8.ofNat n).toNat = n := by
    rw [UInt8.toNat_ofNat']
    omega
  rw [charToSize, if_neg (by omega), sizeBits]
  omega

theorem name_leaves (cmd : Byte) {name : Bytes} (hle : name.length ≤ 255) (port : UInt16)
    (hshort : name.length < 128) :
    Leaves s
      (final (HandleRequest net) (s.receiving ⟨cmd, .destination (.name name hle), port⟩ t))
      (dialCalls net s.calls name (portText port)) t
      (dialSocket net s.calls name (portText port) .unconnected) := by
  have hlen : min (charToSize (UInt8.ofNat name.length)) 1024 = name.length := by
    rw [charToSize_short hshort]
    omega
  obtain ⟨b, hb⟩ := requestDname_eq net
    (s := s.opened ([UInt8.ofNat name.length] ++ (name ++ (portBytes port ++ t)))) rfl hlen
  rw [ntohs_load16] at hb
  rw [final_congr ((HandleRequest_name net s t cmd hle port).trans hb)]
  obtain ⟨h1, h2, h3⟩ := dial_leaves net ((s.opened t).filled b t) name (portText port)
  exact ⟨h1, h2, h3⟩

/-- **A name of 128 bytes or more.**  The stream ends too early, or 1024 bytes of it are taken
for the name and the next two for the port. -/
theorem long_name_leaves (cmd : Byte) {name : Bytes} (hle : name.length ≤ 255) (port : UInt16)
    (hlong : 128 ≤ name.length) :
    Leaves s
        (final (HandleRequest net) (s.receiving ⟨cmd, .destination (.name name hle), port⟩ t))
        [] [] .unconnected ∨
      ∃ name' port' rest, name'.length = 1024 ∧ rest.length + 1026 = name.length + 2 + t.length ∧
        Leaves s
          (final (HandleRequest net) (s.receiving ⟨cmd, .destination (.name name hle), port⟩ t))
          (dialCalls net s.calls name' port') rest
          (dialSocket net s.calls name' port' .unconnected) := by
  have hlen := charToSize_long hlong hle
  have hbody : (name ++ (portBytes port ++ t)).length = name.length + 2 + t.length := by
    simp only [portBytes, List.length_append, List.length_cons, List.length_nil]
    omega
  rw [final_congr (HandleRequest_name net s t cmd hle port)]
  by_cases h : (name ++ (portBytes port ++ t)).length < 1026
  · left
    obtain ⟨h1, h2, h3⟩ := requestDname_short net
      (s := s.opened ([UInt8.ofNat name.length] ++ (name ++ (portBytes port ++ t)))) rfl
      (by rw [hlen]; exact h)
    exact ⟨h1, h2, h3⟩
  · right
    obtain ⟨name', rest', hsplit, hname'⟩ : ∃ name' rest',
        name ++ (portBytes port ++ t) = name' ++ rest' ∧ name'.length = 1024 :=
      ⟨_, _, (List.take_append_drop 1024 _).symm, by rw [List.length_take]; omega⟩
    obtain ⟨p, q, rest, rfl⟩ : ∃ p q rest, rest' = [p, q] ++ rest := by
      have hrest : 2 ≤ rest'.length := by
        rw [hsplit, List.length_append, hname'] at h
        omega
      match rest', hrest with
      | p :: q :: rest, _ => exact ⟨p, q, rest, rfl⟩
    have hlength := congrArg List.length hsplit
    rw [hbody, List.length_append, hname', List.length_append] at hlength
    have htwo : [p, q].length = 2 := rfl
    rw [hsplit]
    obtain ⟨b, hb⟩ := requestDname_eq net
      (s := s.opened ([UInt8.ofNat name.length] ++ (name' ++ ([p, q] ++ rest)))) rfl
      (by rw [hlen, hname'])
    refine ⟨name', portText (ntohs (load16 p q)), rest, hname', by omega, ?_⟩
    rw [final_congr hb]
    obtain ⟨h1, h2, h3⟩ := dial_leaves net ((s.opened rest).filled b rest) name'
      (portText (ntohs (load16 p q)))
    exact ⟨h1, h2, h3⟩

end SocksConnection

end TwoProxy
