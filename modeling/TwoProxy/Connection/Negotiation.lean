/-
# Whether the method negotiation gates the request

`HandleHandshake` picks a method from those the client offers and writes its choice; what it
returns is something else.  `Connection::Start` goes by what it returns, which is `true` once
the reply has been written, whichever reply that was: a client that has been told that none
of its methods is acceptable is served all the same.

`StartSocks_gated_iff` says when the gate holds: when there is nothing to keep out, or when
the refusal could not be written.
-/
import TwoProxy.Connection
import TwoProxy.SocksConnection.Replies

namespace TwoProxy

namespace Connection

open SocksConnection (Setup Network Program Call HandleHandshake HandleRequest)
open Blocking (final final_ok final_error bind_ok bind_error)

/-! ## 1. The handshake -/

/-- The methods a client offers; their number is one byte. -/
structure Offer where
  methods : Bytes
  le : methods.length ≤ 255

def Offer.bytes (o : Offer) : Bytes := UInt8.ofNat o.methods.length :: o.methods

/-- The method that the reply should carry. -/
def Offer.selected (o : Offer) : Byte :=
  if METHOD_NO_AUTH ∈ o.methods then METHOD_NO_AUTH else METHOD_NOT_AVAILABLE

/-- The connection with an offer to read, and what the client sends after it. -/
def offered (s : Setup) (o : Offer) (rest : Bytes) : Setup :=
  { s with input := o.bytes ++ rest }

/-- The loop over the offered methods. -/
theorem foldl_method (methods : Bytes) :
    ∀ method, methods.foldl
        (fun method b => if b = METHOD_NO_AUTH then METHOD_NO_AUTH else method) method =
      if METHOD_NO_AUTH ∈ methods then METHOD_NO_AUTH else method := by
  induction methods with
  | nil => intro method; rfl
  | cons b methods ih =>
    intro method
    rw [List.foldl_cons, ih]
    by_cases hb : b = METHOD_NO_AUTH
    · simp [hb]
    · simp only [if_neg hb, List.mem_cons, Ne.symm hb, false_or]

/-- **What the handshake does**: it reads the offer, makes one call, the reply, and returns
`true` when that succeeds. -/
theorem HandleHandshake_eq (net : Network) (s : Setup) (o : Offer) (rest : Bytes) :
    ∃ conn, HandleHandshake net (offered s o rest) =
      if net.succeeds s.calls (.write [5, o.selected]) = true
      then .ok true ⟨conn, rest, s.calls ++ [.write [5, o.selected]]⟩
      else .error () ⟨conn, rest, s.calls ++ [.write [5, o.selected]]⟩ := by
  have hn : (UInt8.ofNat o.methods.length).toNat = o.methods.length := by
    have := o.le
    rw [UInt8.toNat_ofNat']
    omega
  have hsuccess : ∀ m : MethodIdentification, ¬ (!m.Success) = true := by
    simp [MethodIdentification.Success]
  have hfits : min o.methods.length 1024 = o.methods.length := by
    have := o.le
    omega
  have hinput : { s with input := o.methods ++ rest }.input = o.methods ++ rest := rfl
  obtain ⟨b, tail, hb, hread⟩ := SocksConnection.readBuffer_append hinput hfits
  have hcount : SocksConnection.read 1 (offered s o rest) =
      .ok [UInt8.ofNat o.methods.length] { s with input := o.methods ++ rest } :=
    SocksConnection.read_append rfl rfl
  have hrun : HandleHandshake net (offered s o rest) = _ := bind_ok hcount
  refine ⟨{ s.conn with buffer_ := b }, hrun.trans ?_⟩
  rw [if_neg (hsuccess _)]
  simp only [List.headD_cons, hn]
  refine (bind_ok hread).trans ?_
  rw [if_neg (by simp)]
  refine (bind_ok (SocksConnection.getBuffer_eq _)).trans ?_
  have hmethod : (b.bytes.take o.methods.length).foldl
      (fun method b => if b = METHOD_NO_AUTH then METHOD_NO_AUTH else method)
      METHOD_NOT_AVAILABLE = o.selected := by
    rw [hb, List.take_left, foldl_method]
    rfl
  simp only [hmethod]
  by_cases hok : net.succeeds s.calls (.write [5, o.selected]) = true
  · have hwrite : SocksConnection.write net [5, o.selected]
        { s with input := rest, conn := { s.conn with buffer_ := b } } = _ :=
      SocksConnection.call_ok hok
    rw [if_pos hok]
    exact bind_ok hwrite
  · have hwrite : SocksConnection.write net [5, o.selected]
        { s with input := rest, conn := { s.conn with buffer_ := b } } = _ :=
      SocksConnection.call_error hok
    rw [if_neg hok]
    exact bind_error hwrite

/-! ## 2. The gate -/

/-- **The negotiation gates the request.**  The reply carries the method that is acceptable, or
says that none is; the set-up goes on only after a reply of the first kind; and after one of
the second kind the connection is shut down with everything behind the offer unread. -/
structure Gated (net : Network) (session : ProxySocksSession) (o : Offer) (rest : Bytes)
    (s : Setup) : Prop where
  reply : (final (HandleHandshake net) (offered s o rest)).calls =
    s.calls ++ [.write [5, if METHOD_NO_AUTH ∈ o.methods then 0 else 0xFF]]
  gate : ∀ s', HandleHandshake net (offered s o rest) = .ok true s' → METHOD_NO_AUTH ∈ o.methods
  refused : METHOD_NO_AUTH ∉ o.methods →
    ∃ conn, StartSocks net session (offered s o rest) =
      Shutdown ⟨conn, rest, s.calls ++ [.write [5, 0xFF]]⟩

/-- **When it does**: when `0x00` is offered, or the refusal cannot be written. -/
theorem StartSocks_gated_iff (net : Network) (session : ProxySocksSession) (o : Offer)
    (rest : Bytes) (s : Setup) :
    Gated net session o rest s ↔
      METHOD_NO_AUTH ∈ o.methods ∨ net.succeeds s.calls (.write [5, 0xFF]) = false := by
  obtain ⟨conn, hrun⟩ := HandleHandshake_eq net s o rest
  have hreply : (final (HandleHandshake net) (offered s o rest)).calls =
      s.calls ++ [.write [5, o.selected]] := by
    split at hrun
    · rw [final_ok hrun]
    · rw [final_error hrun]
  by_cases hmem : METHOD_NO_AUTH ∈ o.methods
  · refine iff_of_true ⟨hreply, fun _ _ => hmem, fun hno => absurd hmem hno⟩ (Or.inl hmem)
  · have hselected : o.selected = 0xFF := if_neg hmem
    rw [hselected] at hrun
    cases hok : net.succeeds s.calls (.write [5, 0xFF]) with
    | true =>
      rw [if_pos hok] at hrun
      exact iff_of_false (fun hg => hmem (hg.gate _ hrun)) (by simp [hmem])
    | false =>
      rw [if_neg (by simp [hok])] at hrun
      refine iff_of_true ⟨hreply, fun s' h => ?_, fun _ => ⟨conn, ?_⟩⟩ (Or.inr rfl)
      · rw [hrun] at h
        cases h
      · rw [StartSocks, hrun]

/-! ### A client that is refused and served -/

/-- The one method that is offered asks for a password. -/
def passwordOnly : Offer := ⟨[2], by decide⟩

/-- A session before it starts. -/
def freshSession : ProxySocksSession :=
  ProxySocksSession.create ProxySocksSession.zeros ProxySocksSession.zeros
    ProxySocksSession.zeros ProxySocksSession.zeros

/-- The offer, and a request to connect to 10.0.0.1:80. -/
def refusedClient : Setup :=
  offered SocksConnection.idle passwordOnly
    (SocksConnection.connectRequest (.ipv4 10 0 0 1) 80).encode

/-- The client is told that no method is acceptable, and then connected. -/
theorem refusedClient_served :
    (StartSocks SocksConnection.openNetwork freshSession refusedClient).setup.calls
        = [.write [5, 0xFF], .connect ⟨[10, 0, 0, 1], 80⟩,
            .write SocksConnection.successReply, .startSession] ∧
      ¬ ∀ (net : Network) (session : ProxySocksSession) (o : Offer) (rest : Bytes) (s : Setup),
        Gated net session o rest s := by
  refine ⟨by decide +kernel, fun hall => ?_⟩
  have hserved : (StartSocks SocksConnection.openNetwork freshSession
      refusedClient).deletedByStart = 0 := by decide +kernel
  obtain ⟨conn, hshut⟩ := (hall SocksConnection.openNetwork freshSession passwordOnly
    (SocksConnection.connectRequest (.ipv4 10 0 0 1) 80).encode SocksConnection.idle).refused
    (by decide)
  have hdeleted := hserved.symm.trans (congrArg World.deletedByStart hshut)
  cases hdeleted

end Connection

end TwoProxy
