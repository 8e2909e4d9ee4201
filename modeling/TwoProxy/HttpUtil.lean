/-
# `ParseUri`: host and port of a request target

`HttpProtocol/HttpUtil.h`.  A `std::string` is its bytes, a position is a `size_type` of `w`
bits with `npos` as `none`, and `substr` throws (`none`) when its start lies past the end.
The arithmetic wraps modulo `2 ^ w`, which the position of the colon (found in the extracted
host, then used in the whole uri) makes visible.
-/
import TwoProxy.Bytes

namespace TwoProxy

/-! ## 1. The `std::string` operations it uses -/

/-- The first position from `i` on where `pat` occurs; `s` is the string from `i` on. -/
def findFrom (pat : Bytes) : Bytes → Nat → Option Nat
  | [], i => if pat = [] then some i else none
  | c :: cs, i => if pat.isPrefixOf (c :: cs) then some i else findFrom pat cs (i + 1)

/-- `s.find(pat, pos)`. -/
def find (s pat : Bytes) (pos : Nat) : Option Nat :=
  if pos ≤ s.length then findFrom pat (s.drop pos) pos else none

/-- `s.substr(pos, n)`; `none` is `std::out_of_range`. -/
def substr (s : Bytes) (pos n : Nat) : Option Bytes :=
  if pos ≤ s.length then some ((s.drop pos).take n) else none

/-- `a + b` on a `size_type` of `w` bits. -/
def sizeAdd (w a b : Nat) : Nat := (a + b) % 2 ^ w

/-- `a - b` on a `size_type` of `w` bits. -/
def sizeSub (w a b : Nat) : Nat := (a + (2 ^ w - b % 2 ^ w)) % 2 ^ w

/-- The project is built for Win32 only. -/
def sizeBits : Nat := 32

/-! ## 2. `ParseUri` -/

/-- The part after the scheme: the host ends at the first `/` from `posNoProtoUri` on, and
the port is what follows a `:` in it. -/
def ParseUri.authority (w : Nat) (uri host port : Bytes) (posNoProtoUri : Nat) :
    Option (Bool × Bytes × Bytes) :=
  match find uri (ascii "/") posNoProtoUri with
  | some hostEndPos =>
    match substr uri posNoProtoUri (sizeSub w hostEndPos posNoProtoUri) with
    | none => none
    | some host =>
      match find host (ascii ":") 0 with
      | some pos =>
        -- `pos` is an offset into the host from here on
        match substr uri posNoProtoUri (sizeSub w pos posNoProtoUri),
          substr uri (sizeAdd w pos 1) uri.length with
        | some host, some port => some (true, host, port)
        | _, _ => none
      | none => some (true, host, ascii "80")
  | none => some (false, host, port)

/-- The returned flag with the contents of `host` and `port` after the call; `none` when a
`substr` throws.  The error line that both of the exits with `false` write is left to the
caller, which sees from the flag that it has been written. -/
def ParseUri (w : Nat) (uri host port : Bytes) : Option (Bool × Bytes × Bytes) :=
  match find uri (ascii "http") 0 with
  | some pos => ParseUri.authority w uri host port (sizeAdd w pos (8 - 1))
  | none =>
    match find uri (ascii "https") 0 with
    | some pos => ParseUri.authority w uri host port (sizeAdd w pos (9 - 1))
    | none => some (false, host, port)

/-! ## 3. The targets it accepts -/

/-- An occurrence lies inside the string. -/
theorem findFrom_le {pat : Bytes} :
    ∀ {s : Bytes} {i j : Nat}, findFrom pat s i = some j → j + pat.length ≤ i + s.length := by
  intro s
  induction s with
  | nil =>
    intro i j h
    simp only [findFrom] at h
    split at h
    · rename_i hp
      obtain rfl := Option.some.inj h
      simp [hp]
    · cases h
  | cons c cs ih =>
    intro i j h
    simp only [findFrom] at h
    split at h
    · rename_i hp
      obtain rfl := Option.some.inj h
      have := (List.isPrefixOf_iff_prefix.mp hp).length_le
      omega
    · have := ih h
      simp only [List.length_cons]
      omega

theorem find_le {s pat : Bytes} {pos j : Nat} (h : find s pat pos = some j) :
    pos ≤ s.length ∧ j + pat.length ≤ s.length := by
  unfold find at h
  split at h
  · rename_i hp
    have := findFrom_le h
    rw [List.length_drop] at this
    exact ⟨hp, by omega⟩
  · cases h

/-- What contains a string contains its prefixes. -/
theorem findFrom_of_prefix {pat pat' : Bytes} (hpre : pat' <+: pat) :
    ∀ {s : Bytes} {i j : Nat}, findFrom pat s i = some j → ∃ j', findFrom pat' s i = some j' := by
  intro s
  induction s with
  | nil =>
    intro i j h
    simp only [findFrom] at h
    split at h
    · rename_i hp
      rw [hp, List.prefix_nil] at hpre
      exact ⟨i, by simp [findFrom, hpre]⟩
    · cases h
  | cons c cs ih =>
    intro i j h
    by_cases hp' : pat'.isPrefixOf (c :: cs) = true
    · exact ⟨i, by simp only [findFrom, if_pos hp']⟩
    · simp only [findFrom, if_neg hp'] at h ⊢
      split at h
      · rename_i hp
        exact absurd (List.isPrefixOf_iff_prefix.mpr
          (hpre.trans (List.isPrefixOf_iff_prefix.mp hp))) hp'
      · exact ih h

/-- Where a `/` has been found, nothing that follows can throw.  The position of the colon is a
position in the host, and the host is no longer than the uri. -/
theorem ParseUri.authority_of_find {w n j : Nat} {uri : Bytes}
    (hj : find uri (ascii "/") n = some j) :
    ∃ host' port', (port' <:+ uri ∨ port' = ascii "80") ∧
      ∀ host port, ParseUri.authority w uri host port n = some (true, host', port') := by
  have hn := (find_le hj).1
  simp only [ParseUri.authority, hj, substr, if_pos hn]
  cases hc : find ((uri.drop n).take (sizeSub w j n)) (ascii ":") 0 with
  | none => exact ⟨_, _, Or.inr rfl, fun _ _ => rfl⟩
  | some pos =>
    have hlen : (ascii ":").length = 1 := by decide
    have hcolon := (find_le hc).2
    have hhost : ((uri.drop n).take (sizeSub w j n)).length ≤ uri.length := by
      simp only [List.length_take, List.length_drop]
      omega
    have hafter : sizeAdd w pos 1 ≤ uri.length := by
      have : sizeAdd w pos 1 ≤ pos + 1 := Nat.mod_le _ _
      omega
    simp only [if_pos hafter]
    refine ⟨_, _, Or.inl ?_, fun _ _ => rfl⟩
    -- `substr` stops at the end of the string, however many bytes it is asked for
    rw [List.take_of_length_le (by rw [List.length_drop]; omega)]
    exact List.drop_suffix _ _

/-- The part after the scheme never throws: it is accepted when a `/` is found. -/
theorem ParseUri.authority_accepts_iff {w : Nat} {uri host port : Bytes} {n : Nat} :
    (∃ h p, ParseUri.authority w uri host port n = some (true, h, p)) ↔
      ∃ j, find uri (ascii "/") n = some j := by
  constructor
  · rintro ⟨h, p, heq⟩
    cases hf : find uri (ascii "/") n with
    | none => simp [ParseUri.authority, hf] at heq
    | some j => exact ⟨j, rfl⟩
  · rintro ⟨j, hf⟩
    obtain ⟨h, p, -, heq⟩ := ParseUri.authority_of_find (w := w) hf
    exact ⟨h, p, heq host port⟩

/-- **The targets `ParseUri` accepts** have `http` in them somewhere and, from seven bytes
after its first occurrence on, a `/`.  The branch on `https` is dead: what contains `https`
contains `http`. -/
theorem ParseUri_accepts_iff {w : Nat} {uri host port : Bytes} :
    (∃ h p, ParseUri w uri host port = some (true, h, p)) ↔
      ∃ pos j, find uri (ascii "http") 0 = some pos ∧
        find uri (ascii "/") (sizeAdd w pos (8 - 1)) = some j := by
  cases hf : find uri (ascii "http") 0 with
  | some pos =>
    simp only [ParseUri, hf, ParseUri.authority_accepts_iff, Option.some.injEq]
    constructor
    · rintro ⟨j, h⟩
      exact ⟨pos, j, rfl, h⟩
    · rintro ⟨_, j, rfl, h⟩
      exact ⟨j, h⟩
  | none =>
    have hs : find uri (ascii "https") 0 = none := by
      cases hs : find uri (ascii "https") 0 with
      | none => rfl
      | some j =>
        simp only [find, Nat.zero_le, if_true, List.drop_zero] at hf hs
        have hpre : ascii "http" <+: ascii "https" := by decide
        obtain ⟨j', hj'⟩ := findFrom_of_prefix hpre hs
        rw [hf] at hj'
        cases hj'
    simp [ParseUri, hf, hs]

/-! ## 4. Targets that begin with `http` -/

/-- The first occurrence of a byte. -/
theorem findFrom_byte {c : Byte} {s : Bytes} (t : Bytes) :
    ∀ {i : Nat}, c ∉ s → findFrom [c] (s ++ c :: t) i = some (i + s.length) := by
  induction s with
  | nil => intro i _; simp [findFrom, List.isPrefixOf]
  | cons d s ih =>
    intro i h
    have hd : c ≠ d := fun e => h (by simp [e])
    have hs : c ∉ s := fun e => h (by simp [e])
    have hpre : List.isPrefixOf [c] (d :: (s ++ c :: t)) = false := by
      simp [List.isPrefixOf, hd]
    rw [List.cons_append, findFrom, if_neg (by simp [hpre]), ih hs, List.length_cons]
    congr 1
    omega

theorem findFrom_byte_none {c : Byte} {s : Bytes} :
    ∀ {i : Nat}, c ∉ s → findFrom [c] s i = none := by
  induction s with
  | nil => intro i _; simp [findFrom]
  | cons d s ih =>
    intro i h
    have hd : c ≠ d := fun e => h (by simp [e])
    have hs : c ∉ s := fun e => h (by simp [e])
    have hpre : List.isPrefixOf [c] (d :: s) = false := by simp [List.isPrefixOf, hd]
    rw [findFrom, if_neg (by simp [hpre]), ih hs]

/-- What a string begins with is found at its beginning. -/
theorem find_at_start {s pat : Bytes} (h : pat <+: s) : find s pat 0 = some 0 := by
  rw [find, if_pos (Nat.zero_le _), List.drop_zero]
  cases s with
  | nil => simp [findFrom, List.prefix_nil.mp h]
  | cons c cs => rw [findFrom, if_pos (List.isPrefixOf_iff_prefix.mpr h)]

/-- A difference of positions that are in order. -/
theorem sizeSub_add_left {n : Nat} (k : Nat) (h : k + n < 2 ^ sizeBits) :
    sizeSub sizeBits (k + n) k = n := by
  simp only [sizeSub, sizeBits] at *
  omega

/-- **Where the search for the host begins, and where it ends.**  The seven bytes that are
skipped need not be `http://`. -/
theorem ParseUri_of_drop {uri authority rest : Bytes} (hhttp : ascii "http" <+: uri)
    (hdrop : uri.drop 7 = authority ++ ch '/' :: rest) (hslash : ch '/' ∉ authority)
    (hfits : 7 + authority.length < 2 ^ sizeBits) (host port : Bytes) :
    ParseUri sizeBits uri host port =
      match find authority (ascii ":") 0 with
      | some pos =>
        match substr uri 7 (sizeSub sizeBits pos 7),
          substr uri (sizeAdd sizeBits pos 1) uri.length with
        | some host, some port => some (true, host, port)
        | _, _ => none
      | none => some (true, authority, ascii "80") := by
  have hseven : sizeAdd sizeBits 0 (8 - 1) = 7 := by
    simp only [sizeAdd, sizeBits]
    omega
  have hle : 7 ≤ uri.length := by
    have h1 := congrArg List.length hdrop
    rw [List.length_drop, List.length_append, List.length_cons] at h1
    omega
  have hend : find uri (ascii "/") 7 = some (7 + authority.length) := by
    rw [find, if_pos hle, hdrop]
    exact findFrom_byte _ hslash
  have hhost : substr uri 7 (sizeSub sizeBits (7 + authority.length) 7) = some authority := by
    rw [sizeSub_add_left 7 hfits, substr, if_pos hle, hdrop, List.take_left]
  simp only [ParseUri, find_at_start hhttp, hseven, ParseUri.authority, hend, hhost]

/-! ## 5. Host and port -/

/-- `http://host[:port]/rest`, short enough to be a `std::string`. -/
structure AbsoluteUri where
  host : Bytes
  port : Option Bytes
  rest : Bytes
  host_ne : host ≠ []
  host_byte : ∀ c ∈ host, c ≠ ch '/' ∧ c ≠ ch ':'
  port_digits : ∀ p ∈ port, p ≠ [] ∧ ∀ c ∈ p, is_digit c = true
  fits : 7 + host.length + (port.elim 0 fun p => p.length + 1) + 1 + rest.length < 2 ^ sizeBits

/-- What stands between the scheme and the path. -/
def AbsoluteUri.authority (u : AbsoluteUri) : Bytes :=
  u.host ++ u.port.elim [] fun p => ch ':' :: p

def AbsoluteUri.bytes (u : AbsoluteUri) : Bytes :=
  ascii "http://" ++ (u.authority ++ ch '/' :: u.rest)

variable (u : AbsoluteUri)

theorem AbsoluteUri.slash_notMem : ch '/' ∉ u.authority := by
  intro h
  rcases List.mem_append.mp h with h | h
  · exact (u.host_byte _ h).1 rfl
  · cases hp : u.port with
    | none => simp [hp] at h
    | some p =>
      have hdigit : is_digit (ch '/') = false := by decide
      simp only [hp, Option.elim_some, List.mem_cons] at h
      rcases h with h | h
      · exact absurd h (by decide)
      · have := (u.port_digits p hp).2 _ h
        rw [hdigit] at this
        cases this

theorem AbsoluteUri.authority_length_lt : 7 + u.authority.length < 2 ^ sizeBits := by
  have := u.fits
  cases hp : u.port <;> simp only [hp, Option.elim_none, Option.elim_some] at this <;>
    simp only [authority, hp, Option.elim_none, Option.elim_some, List.append_nil,
      List.length_append, List.length_cons] <;> omega

theorem AbsoluteUri.ParseUri_eq (host port : Bytes) :
    ParseUri sizeBits u.bytes host port =
      match find u.authority (ascii ":") 0 with
      | some pos =>
        match substr u.bytes 7 (sizeSub sizeBits pos 7),
          substr u.bytes (sizeAdd sizeBits pos 1) u.bytes.length with
        | some host, some port => some (true, host, port)
        | _, _ => none
      | none => some (true, u.authority, ascii "80") := by
  have hlen : (ascii "http://").length = 7 := by decide
  have hdrop : u.bytes.drop 7 = u.authority ++ ch '/' :: u.rest := by
    rw [AbsoluteUri.bytes, ← hlen, List.drop_left]
  refine ParseUri_of_drop ?_ hdrop u.slash_notMem u.authority_length_lt host port
  exact List.IsPrefix.trans (by decide) (List.prefix_append _ _)

/-- Seven bytes less than `name` has, even where that wraps, are not as many as `name` has. -/
theorem take_sizeSub_ne {name s : Bytes} (hlong : name.length < s.length) :
    s.take (sizeSub sizeBits name.length 7) ≠ name := by
  intro h
  have hlength := congrArg List.length h
  rw [List.length_take] at hlength
  simp only [sizeSub, sizeBits] at hlength
  omega

/-- **The host that comes out with a port** is never the one that was given: with the position
of the colon taken for a position in the uri it is seven bytes short, or, where that wraps,
runs on past the colon. -/
theorem AbsoluteUri.substr_colon_ne (hport : u.port ≠ none) :
    substr u.bytes 7 (sizeSub sizeBits u.host.length 7) ≠ some u.host := by
  have hlen : (ascii "http://").length = 7 := by decide
  have hlong : u.host.length < u.authority.length := by
    cases hp : u.port with
    | none => exact absurd hp hport
    | some p =>
      rw [AbsoluteUri.authority, hp, Option.elim_some, List.length_append, List.length_cons]
      omega
  intro h
  simp only [substr, Option.ite_none_right_eq_some, Option.some.injEq] at h
  rw [AbsoluteUri.bytes, ← hlen, List.drop_left, hlen] at h
  refine take_sizeSub_ne ?_ h.2
  rw [List.length_append]
  omega

/-- **When host and port come out right**: when no port is given, so that the position of a
colon, which is relative to the host, is not used. -/
theorem ParseUri_splits_iff (host port : Bytes) :
    ParseUri sizeBits u.bytes host port = some (true, u.host, u.port.getD (ascii "80")) ↔
      u.port = none := by
  have hcolon : ch ':' ∉ u.host := fun h => (u.host_byte _ h).2 rfl
  rw [u.ParseUri_eq]
  cases hp : u.port with
  | none =>
    have hauth : u.authority = u.host := by simp [AbsoluteUri.authority, hp]
    have hnone : find u.authority (ascii ":") 0 = none := by
      rw [hauth]
      exact findFrom_byte_none hcolon
    rw [hnone, hauth]
    simp
  | some p =>
    have hauth : u.authority = u.host ++ ch ':' :: p := by simp [AbsoluteUri.authority, hp]
    have hsome : find u.authority (ascii ":") 0 = some u.host.length := by
      rw [hauth]
      have := findFrom_byte (i := 0) p hcolon
      rw [Nat.zero_add] at this
      exact this
    have hwrong := u.substr_colon_ne (by simp [hp])
    rw [hsome]
    simp only [reduceCtorEq, iff_false]
    intro h
    split at h
    · rename_i host' port' h1 h2
      simp only [Option.some.injEq, Prod.mk.injEq, true_and] at h
      exact hwrong (by rw [h1, h.1])
    · cases h

/-- `http://example.com:8080/` -/
def portUri : AbsoluteUri where
  host := ascii "example.com"
  port := some (ascii "8080")
  rest := []
  host_ne := by decide
  host_byte := by
    intro c hc
    constructor <;> (rintro rfl; revert hc; decide)
  port_digits := by
    intro p hp
    obtain rfl := Option.some.inj hp
    exact ⟨by decide, List.all_eq_true.mp (by decide)⟩
  fits := by
    have hhost : (ascii "example.com").length = 11 := by decide
    have hport : (ascii "8080").length = 4 := by decide
    simp only [hhost, hport, Option.elim_some, List.length_nil, sizeBits]
    omega

/-- The first four bytes of the host are taken for the host, and everything from its sixth
byte on for the port. -/
theorem portUri_splits_wrong :
    ParseUri sizeBits portUri.bytes [] [] = some (true, ascii "exam", ascii "le.com:8080/") ∧
      ¬ ∀ (u : AbsoluteUri) (host port : Bytes),
        ParseUri sizeBits u.bytes host port
          = some (true, u.host, u.port.getD (ascii "80")) := by
  have hcolon : find portUri.authority (ascii ":") 0 = some 11 := by decide
  have hfour : sizeSub sizeBits 11 7 = 4 := by
    simp only [sizeSub, sizeBits]
    omega
  have htwelve : sizeAdd sizeBits 11 1 = 12 := by
    simp only [sizeAdd, sizeBits]
    omega
  have hhost : substr portUri.bytes 7 4 = some (ascii "exam") := by decide
  have hport : substr portUri.bytes 12 portUri.bytes.length = some (ascii "le.com:8080/") := by
    decide
  have hwrong : ParseUri sizeBits portUri.bytes [] []
      = some (true, ascii "exam", ascii "le.com:8080/") := by
    rw [portUri.ParseUri_eq, hcolon]
    dsimp only
    rw [hfour, htwelve, hhost, hport]
  refine ⟨hwrong, fun hall => ?_⟩
  have hsame := hwrong.symm.trans (hall portUri [] [])
  simp only [Option.some.injEq, Prod.mk.injEq, true_and] at hsame
  exact absurd hsame.1 (by decide)

end TwoProxy
