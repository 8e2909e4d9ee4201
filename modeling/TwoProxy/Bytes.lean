/-
# Bytes and the character classes of the C locale

Both parsers classify bytes with `boost::algorithm::is_upper()` and its siblings, which ask
the global locale.  The program never sets one, so it is the C locale: the seven-bit ASCII
classes, and no class at all for a byte from `0x80` on.
-/
import Mathlib.Algebra.Group.Nat.Defs
import Mathlib.Tactic.Common

namespace TwoProxy

abbrev Byte := UInt8

abbrev Bytes := List Byte

/-- The byte of an ASCII character. -/
abbrev ch (c : Char) : Byte := c.toUInt8

/-- The bytes of an ASCII literal. -/
def ascii (s : String) : Bytes := s.toList.map ch

def CR : Byte := 13

def LF : Byte := 10

def SP : Byte := 32

def is_upper (c : Byte) : Bool := 65 ≤ c && c ≤ 90

def is_lower (c : Byte) : Bool := 97 ≤ c && c ≤ 122

def is_digit (c : Byte) : Bool := 48 ≤ c && c ≤ 57

def is_alnum (c : Byte) : Bool := is_upper c || is_lower c || is_digit c

/-- Tab, line feed, vertical tab, form feed, carriage return and space. -/
def is_space (c : Byte) : Bool := (9 ≤ c && c ≤ 13) || c == 32

def is_cntrl (c : Byte) : Bool := c < 32 || c == 127

/-- The printable characters that are neither alphanumeric nor a space. -/
def is_punct (c : Byte) : Bool := 33 ≤ c && c ≤ 126 && !is_alnum c

/-- A class without CR and LF has no byte that is one of them. -/
theorem ne_lineEnd {p : Byte → Bool} (hCR : p CR = false) (hLF : p LF = false) {c : Byte}
    (h : p c = true) : c ≠ CR ∧ c ≠ LF := by
  constructor
  · rintro rfl
    rw [hCR] at h
    cases h
  · rintro rfl
    rw [hLF] at h
    cases h

/-- A whitespace byte that is not a control byte is the space. -/
theorem eq_SP_of_is_space {c : Byte} (hs : is_space c = true) (hc : is_cntrl c = false) :
    c = SP := by
  simp only [is_space, is_cntrl, SP] at *
  grind

/-- Whitespace is not an upper-case letter. -/
theorem is_upper_of_is_space {c : Byte} (h : is_space c = true) : is_upper c = false := by
  simp only [is_upper, is_space] at *
  grind

end TwoProxy
