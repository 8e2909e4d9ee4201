/-
# What `ParseUri` makes of an arbitrary string

`ParseUri` is run on whatever stood between two blanks of a request line.

* It never throws, it leaves `host` and `port` alone when it returns false, and it assigns both
  when it returns true, whatever the width of `size_type` (`ParseUri_atomic`).
* It does not read the scheme as a scheme.  `find` looks for `http` anywhere, the seven bytes
  skipped from there on are not compared with anything, and the branch on `https` is dead.  The
  host it returns is the one that the authority names exactly if the string is rejected, or
  begins with `http://` and an authority which is not empty and has no colon in it
  (`ParseUri_names_authority_iff`).
-/
import TwoProxy.HttpUtil

namespace TwoProxy

/-! ## 1. Never an exception, and all or nothing -/

/-- One of the two ways out of the part after the scheme. -/
theorem ParseUri.authority_cases (w n : Nat) (uri : Bytes) :
    (∀ host port, ParseUri.authority w uri host port n = some (false, host, port)) ∨
      ∃ host' port', (port' <:+ uri ∨ port' = ascii "80") ∧
        ∀ host port, ParseUri.authority w uri host port n = some (true, host', port') := by
  cases hj : find uri (ascii "/") n with
  | none => exact Or.inl fun host port => by simp only [ParseUri.authority, hj]
  | some j => exact Or.inr (ParseUri.authority_of_find hj)

theorem ParseUri_cases (w : Nat) (uri : Bytes) :
    (∀ host port, ParseUri w uri host port = some (false, host, port)) ∨
      ∃ host' port', (port' <:+ uri ∨ port' = ascii "80") ∧
        ∀ host port, ParseUri w uri host port = some (true, host', port') := by
  cases hf : find uri (ascii "http") 0 with
  | some pos =>
    simp only [ParseUri, hf]
    exact ParseUri.authority_cases w _ uri
  | none =>
    cases hs : find uri (ascii "https") 0 with
    | some pos =>
      simp only [ParseUri, hf, hs]
      exact ParseUri.authority_cases w _ uri
    | none => exact Or.inl fun host port => by simp only [ParseUri, hf, hs]

/-- **`ParseUri` never throws and is atomic.**  For every string, every width of `size_type`
and every previous contents of the two results: no `substr` is out of range; on rejection both
are as they were; on success both are assigned, so that nothing is left of what they held, and
the port is the end of the string or `80`. -/
theorem ParseUri_atomic (w : Nat) (uri host port : Bytes) :
    ∃ ok host' port', ParseUri w uri host port = some (ok, host', port') ∧
      (ok = false → host' = host ∧ port' = port) ∧
      (ok = true → (∀ h p, ParseUri w uri h p = some (true, host', port')) ∧
        (port' <:+ uri ∨ port' = ascii "80")) := by
  rcases ParseUri_cases w uri with hrejects | ⟨host', port', hport, haccepts⟩
  · exact ⟨false, host, port, hrejects host port, fun _ => ⟨rfl, rfl⟩, nofun⟩
  · exact ⟨true, host', port', haccepts host port, nofun, fun _ => ⟨haccepts, hport⟩⟩

/-! ## 2. The scheme -/

/-- A request target, short enough to be a `std::string`. -/
structure Target where
  bytes : Bytes
  fits : bytes.length < 2 ^ sizeBits

/-- The bytes of the host part: the first `/` or `:` is the delimiter, as the comment over the
search for it has it. -/
def hostByte (c : Byte) : Bool := c != ch '/' && c != ch ':'

/-- The uri begins with one of the two schemes, and `host` is the host part of the authority
behind it, and not empty. -/
def NamesAuthority (uri host : Bytes) : Prop :=
  ∃ scheme rest, (scheme = ascii "http://" ∨ scheme = ascii "https://") ∧
    uri = scheme ++ rest ∧ host = rest.takeWhile hostByte ∧ host ≠ []

/-- What is asked of `ParseUri`: whatever host it returns is the one that the authority of the
uri names. -/
def SchemeOnly (uri : Bytes) : Prop :=
  ∀ host port host' port', ParseUri sizeBits uri host port = some (true, host', port') →
    NamesAuthority uri host'

/-- No `http` is found, or no `/` from seven bytes after the first one on. -/
def NoAuthority (uri : Bytes) : Prop :=
  ¬ ∃ pos j, find uri (ascii "http") 0 = some pos ∧
    find uri (ascii "/") (sizeAdd sizeBits pos (8 - 1)) = some j

/-- `http://`, an authority and a path.  The authority is not empty, and it has no port. -/
def PlainHttp (uri : Bytes) : Prop :=
  ∃ authority rest, uri = ascii "http://" ++ (authority ++ ch '/' :: rest) ∧
    ch '/' ∉ authority ∧ ch ':' ∉ authority ∧ authority ≠ []

/-- The host part ends before its delimiter. -/
theorem takeWhile_hostByte {name : Bytes} (hslash : ch '/' ∉ name) (hcolon : ch ':' ∉ name)
    {c : Byte} (hc : hostByte c = false) (rest : Bytes) :
    (name ++ c :: rest).takeWhile hostByte = name := by
  have hname : ∀ d ∈ name, hostByte d = true := by
    intro d hd
    have hd1 : d ≠ ch '/' := fun h => hslash (h ▸ hd)
    have hd2 : d ≠ ch ':' := fun h => hcolon (h ▸ hd)
    simp [hostByte, hd1, hd2]
  rw [List.takeWhile_append_of_pos hname, List.takeWhile_cons_of_neg (by simp [hc]),
    List.append_nil]

theorem drop_http (rest : Bytes) : (ascii "http://" ++ rest).drop 7 = rest := by
  rw [show 7 = (ascii "http://").length by decide, List.drop_left]

/-- Of `https://`, the second slash is taken for the path. -/
theorem drop_https (rest : Bytes) : (ascii "https://" ++ rest).drop 7 = ch '/' :: rest := by
  have hsplit : ascii "https://" ++ rest = ascii "https:/" ++ ch '/' :: rest := by
    rw [show ascii "https://" = ascii "https:/" ++ [ch '/'] by decide]
    simp
  rw [hsplit, show 7 = (ascii "https:/").length by decide, List.drop_left]

/-- **The host of an `https` uri is empty.** -/
theorem ParseUri_https (rest host port : Bytes) :
    ParseUri sizeBits (ascii "https://" ++ rest) host port = some (true, [], ascii "80") := by
  have hhttp : ascii "http" <+: ascii "https://" ++ rest :=
    List.IsPrefix.trans (by decide) (List.prefix_append _ _)
  have hdrop : (ascii "https://" ++ rest).drop 7 = [] ++ ch '/' :: rest := drop_https rest
  rw [ParseUri_of_drop hhttp hdrop (by simp) (by decide)]
  rfl

variable {authority rest host port host' port' : Bytes}

/-- The host of an `http` uri without a colon in its authority. -/
theorem ParseUri_http (hslash : ch '/' ∉ authority)
    (hfits : 7 + authority.length < 2 ^ sizeBits) (hcolon : ch ':' ∉ authority) :
    ParseUri sizeBits (ascii "http://" ++ (authority ++ ch '/' :: rest)) host port
      = some (true, authority, ascii "80") := by
  have hhttp : ascii "http" <+: ascii "http://" ++ (authority ++ ch '/' :: rest) :=
    List.IsPrefix.trans (by decide) (List.prefix_append _ _)
  have hnone : find authority (ascii ":") 0 = none := by
    rw [find, if_pos (Nat.zero_le _), List.drop_zero]
    exact findFrom_byte_none hcolon
  rw [ParseUri_of_drop hhttp (drop_http _) hslash hfits, hnone]

/-- The host of an `http` uri with a colon in its authority: what lies between the position
seven and the position of the colon, which is counted from there. -/
theorem ParseUri_http_colon {name : Bytes} (hslash : ch '/' ∉ name ++ ch ':' :: port)
    (hfits : 7 + (name ++ ch ':' :: port).length < 2 ^ sizeBits) (hcolon : ch ':' ∉ name)
    {uri h p : Bytes} (huri : uri = ascii "http://" ++ ((name ++ ch ':' :: port) ++ ch '/' :: rest))
    (hparse : ParseUri sizeBits uri h p = some (true, host', port')) :
    host' = (uri.drop 7).take (sizeSub sizeBits name.length 7) := by
  have hhttp : ascii "http" <+: uri :=
    huri ▸ List.IsPrefix.trans (by decide) (List.prefix_append _ _)
  have hsome : find (name ++ ch ':' :: port) (ascii ":") 0 = some name.length := by
    have := findFrom_byte (i := 0) port hcolon
    rw [Nat.zero_add] at this
    exact this
  have hseven : 7 ≤ uri.length := by
    rw [huri, List.length_append, show (ascii "http://").length = 7 by decide]
    omega
  rw [ParseUri_of_drop hhttp (huri ▸ drop_http _) hslash hfits, hsome] at hparse
  simp only [substr, if_pos hseven] at hparse
  split at hparse
  · rename_i h1 h2
    simp only [Option.some.injEq, Prod.mk.injEq, true_and] at hparse
    exact hparse.1.symm.trans (Option.some.inj h1).symm
  · cases hparse

/-- Without a `/` after the scheme there is nothing to accept. -/
theorem ParseUri_http_noPath (hslash : ch '/' ∉ rest) :
    ParseUri sizeBits (ascii "http://" ++ rest) host port ≠ some (true, host', port') := by
  intro h
  obtain ⟨pos, j, hpos, hj⟩ := ParseUri_accepts_iff.mp ⟨host', port', h⟩
  have hhttp : ascii "http" <+: ascii "http://" ++ rest :=
    List.IsPrefix.trans (by decide) (List.prefix_append _ _)
  rw [find_at_start hhttp] at hpos
  obtain rfl := Option.some.inj hpos
  have hseven : sizeAdd sizeBits 0 (8 - 1) = 7 := by
    simp only [sizeAdd, sizeBits]
    omega
  have hnone : findFrom (ascii "/") rest 7 = none := findFrom_byte_none hslash
  rw [hseven, find, drop_http] at hj
  split at hj
  · rw [hnone] at hj
    cases hj
  · cases hj

theorem Target.authority_lt (uri : Target)
    (h : uri.bytes = ascii "http://" ++ (authority ++ ch '/' :: rest)) :
    7 + authority.length < 2 ^ sizeBits := by
  have hfits := uri.fits
  have hlen : (ascii "http://").length = 7 := by decide
  rw [h] at hfits
  simp only [List.length_append, List.length_cons, hlen] at hfits
  omega

/-- **With a port the host is not the one that is named**: it has as many bytes as the position
of the colon less seven, or, where that wraps, goes on up to the end. -/
theorem ParseUri_http_port {name after : Bytes} {uri : Target}
    (huri : uri.bytes = ascii "http://" ++ ((name ++ ch ':' :: after) ++ ch '/' :: rest))
    (hslash : ch '/' ∉ name ++ ch ':' :: after) (hcolon : ch ':' ∉ name)
    (hparse : ParseUri sizeBits uri.bytes host port = some (true, host', port')) :
    host' ≠ name := by
  have hhost := ParseUri_http_colon hslash (uri.authority_lt huri) hcolon huri hparse
  rw [huri, drop_http] at hhost
  rw [hhost]
  refine take_sizeSub_ne ?_
  simp only [List.length_append, List.length_cons]
  omega

/-- **When the host is the one that is named.**  For every target, the host that `ParseUri`
returns is the host part of the authority that follows `http://` or `https://` exactly if the
target is rejected, or is a plain `http` one without a port. -/
theorem ParseUri_names_authority_iff (uri : Target) :
    SchemeOnly uri.bytes ↔ NoAuthority uri.bytes ∨ PlainHttp uri.bytes := by
  constructor
  · intro hall
    by_cases hno : NoAuthority uri.bytes
    · exact Or.inl hno
    obtain ⟨host', port', hparse⟩ :
        ∃ host' port', ParseUri sizeBits uri.bytes [] [] = some (true, host', port') :=
      ParseUri_accepts_iff.mpr (not_not.mp hno)
    obtain ⟨scheme, rest, rfl | rfl, huri, hhost, hne⟩ := hall [] [] host' port' hparse
    · refine Or.inr ?_
      -- the path that was found is in the rest
      have hmem : ch '/' ∈ rest := by
        by_contra hnot
        rw [huri] at hparse
        exact absurd hparse (ParseUri_http_noPath hnot)
      obtain ⟨authority, path, rfl, hslash⟩ := List.eq_append_cons_of_mem hmem
      have hcolon : ch ':' ∉ authority := by
        intro hmem
        obtain ⟨name, after, rfl, hcolon⟩ := List.eq_append_cons_of_mem hmem
        have hname : host' = name := by
          rw [hhost, List.append_assoc, List.cons_append]
          exact takeWhile_hostByte (fun h => hslash (List.mem_append_left _ h)) hcolon (by decide) _
        exact ParseUri_http_port huri hslash hcolon hparse hname
      refine ⟨authority, path, huri, hslash, hcolon, ?_⟩
      rwa [hhost, takeWhile_hostByte hslash hcolon (by decide)] at hne
    · rw [huri, ParseUri_https] at hparse
      simp only [Option.some.injEq, Prod.mk.injEq, true_and] at hparse
      exact absurd hparse.1.symm hne
  · rintro (hno | ⟨authority, rest, huri, hslash, hcolon, hne⟩) host port host' port' hparse
    · exact absurd (ParseUri_accepts_iff.mp ⟨host', port', hparse⟩) hno
    · rw [huri, ParseUri_http hslash (uri.authority_lt huri) hcolon] at hparse
      simp only [Option.some.injEq, Prod.mk.injEq, true_and] at hparse
      obtain ⟨rfl, -⟩ := hparse
      exact ⟨ascii "http://", _, Or.inl rfl, huri,
        (takeWhile_hostByte hslash hcolon (by decide) rest).symm, hne⟩

/-- `/?u=http://evil/`, a target in origin form with a uri in its query. -/
def queryTarget : Target := ⟨ascii "/?u=http://evil/", by decide⟩

/-- **The host may come from the query.** -/
theorem queryTarget_host :
    ParseUri sizeBits queryTarget.bytes [] [] = some (true, ascii "evil", ascii "80") ∧
      ¬ SchemeOnly queryTarget.bytes := by
  have heleven : sizeAdd sizeBits 4 (8 - 1) = 11 := by
    simp only [sizeAdd, sizeBits]
    omega
  have hfour : sizeSub sizeBits 15 11 = 4 := sizeSub_add_left 11 (n := 4) (by decide)
  have hparse : ParseUri sizeBits queryTarget.bytes [] []
      = some (true, ascii "evil", ascii "80") := by
    have hhttp : find queryTarget.bytes (ascii "http") 0 = some 4 := by decide
    have hslash : find queryTarget.bytes (ascii "/") 11 = some 15 := by decide
    have hhost : substr queryTarget.bytes 11 4 = some (ascii "evil") := by decide
    have hcolon : find (ascii "evil") (ascii ":") 0 = none := by decide
    simp only [ParseUri, hhttp, heleven, ParseUri.authority, hslash, hfour, hhost, hcolon]
  refine ⟨hparse, fun hall => ?_⟩
  obtain ⟨scheme, rest, rfl | rfl, huri, -⟩ := hall [] [] _ _ hparse
  · have hfirst : some (ch '/') = some (ch 'h') := congrArg List.head? huri
    exact absurd hfirst (by decide)
  · have hfirst : some (ch '/') = some (ch 'h') := congrArg List.head? huri
    exact absurd hfirst (by decide)

end TwoProxy
