/-
# `socks5.h`: the packets of SOCKS 5

A packet is read into the fields of an object and written from them, so an integer of more
than one byte crosses the wire in the byte order of the machine; Win32 is little-endian, and
it takes `ntohl` and `ntohs` to get the value.  Both `Success` members return `true`.
-/
import TwoProxy.Bytes

namespace TwoProxy

/-! ## 1. Integers in memory -/

/-- Two bytes of memory as an `unsigned short`. -/
def load16 (b0 b1 : Byte) : UInt16 := UInt16.ofNat (b0.toNat + 256 * b1.toNat)

/-- Four bytes of memory as an `unsigned int`. -/
def load32 (b0 b1 b2 b3 : Byte) : UInt32 :=
  UInt32.ofNat (b0.toNat + 256 * (b1.toNat + 256 * (b2.toNat + 256 * b3.toNat)))

/-- Byte `i` of an integer, the lowest one first. -/
def byteOf (n i : Nat) : Byte := UInt8.ofNat (n / 256 ^ i)

def store16 (n : UInt16) : Bytes := [byteOf n.toNat 0, byteOf n.toNat 1]

def store32 (n : UInt32) : Bytes :=
  [byteOf n.toNat 0, byteOf n.toNat 1, byteOf n.toNat 2, byteOf n.toNat 3]

def ntohs (n : UInt16) : UInt16 := load16 (byteOf n.toNat 1) (byteOf n.toNat 0)

def ntohl (n : UInt32) : UInt32 :=
  load32 (byteOf n.toNat 3) (byteOf n.toNat 2) (byteOf n.toNat 1) (byteOf n.toNat 0)

/-- The four bytes of `ba::ip::address_v4(n)`, the highest one first. -/
def address_v4 (n : UInt32) : Bytes :=
  [byteOf n.toNat 3, byteOf n.toNat 2, byteOf n.toNat 1, byteOf n.toNat 0]

/-! ## 2. The packets -/

/-- Without the version, which has been read before. -/
structure MethodIdentification where
  nmethods_ : Byte
  deriving DecidableEq

def MethodIdentification.Success (_ : MethodIdentification) : Bool := true

def METHOD_NOT_AVAILABLE : Byte := 0xFF

def METHOD_NO_AUTH : Byte := 0x0

structure MethodSelectionPacket where
  version : Byte
  method : Byte
  deriving DecidableEq

/-- The constructor. -/
def MethodSelectionPacket.create (met : Byte) : MethodSelectionPacket := ⟨5, met⟩

def MethodSelectionPacket.buffers (p : MethodSelectionPacket) : Bytes := [p.version, p.method]

structure SOCKS5RequestHeader where
  version_ : Byte
  cmd_ : Byte
  rsv_ : Byte
  atyp_ : Byte
  deriving DecidableEq

namespace SOCKS5RequestHeader

/-- `commandType`. -/
def connect : Byte := 0x1

/-- `addressingType`. -/
def atyp_ipv4 : Byte := 0x1

def atyp_dname : Byte := 0x3

def Success (_ : SOCKS5RequestHeader) : Bool := true

end SOCKS5RequestHeader

structure SOCK5IP4RequestBody where
  ipDst_ : UInt32
  port_ : UInt16
  deriving DecidableEq

def RESP_SUCCEDED : Byte := 0

def RESP_GEN_ERROR : Byte := 1

structure SOCK5Response where
  version : Byte
  cmd : Byte
  rsv : Byte
  atyp : Byte
  ipSrc : UInt32
  portSrc : UInt16
  deriving DecidableEq

namespace SOCK5Response

/-- The constructor, whose argument is `true` by default; the callers set the last two
fields. -/
def create (succeded : Bool) (ipSrc : UInt32) (portSrc : UInt16) : SOCK5Response where
  version := 5
  cmd := if succeded then RESP_SUCCEDED else RESP_GEN_ERROR
  rsv := 0
  atyp := SOCKS5RequestHeader.atyp_ipv4
  ipSrc := ipSrc
  portSrc := portSrc

def buffers (r : SOCK5Response) : Bytes :=
  [r.version, r.cmd, r.rsv, r.atyp] ++ store32 r.ipSrc ++ store16 r.portSrc

end SOCK5Response

/-! ## 3. Across the wire -/

theorem load32_toNat (a b c d : Byte) :
    (load32 a b c d).toNat =
      a.toNat + 256 * (b.toNat + 256 * (c.toNat + 256 * d.toNat)) := by
  have ha := a.toNat_lt
  have hb := b.toNat_lt
  have hc := c.toNat_lt
  have hd := d.toNat_lt
  rw [load32, UInt32.toNat_ofNat']
  omega

theorem load16_toNat (a b : Byte) : (load16 a b).toNat = a.toNat + 256 * b.toNat := by
  have ha := a.toNat_lt
  have hb := b.toNat_lt
  rw [load16, UInt16.toNat_ofNat']
  omega

theorem byteOf_toNat (n i : Nat) : (byteOf n i).toNat = n / 256 ^ i % 256 := by
  rw [byteOf, UInt8.toNat_ofNat']

/-- The bytes an integer was loaded from. -/
theorem byteOf_load32 (a b c d : Byte) :
    byteOf (load32 a b c d).toNat 0 = a ∧ byteOf (load32 a b c d).toNat 1 = b ∧
      byteOf (load32 a b c d).toNat 2 = c ∧ byteOf (load32 a b c d).toNat 3 = d := by
  have ha := a.toNat_lt
  have hb := b.toNat_lt
  have hc := c.toNat_lt
  have hd := d.toNat_lt
  refine ⟨?_, ?_, ?_, ?_⟩ <;> apply UInt8.toNat_inj.mp <;>
    simp only [byteOf_toNat, load32_toNat, Nat.reducePow] <;> omega

/-- Four bytes that are read, swapped and made an address are that address. -/
theorem address_v4_ntohl (a b c d : Byte) :
    address_v4 (ntohl (load32 a b c d)) = [a, b, c, d] := by
  obtain ⟨h0, h1, h2, h3⟩ := byteOf_load32 a b c d
  have hswap : ntohl (load32 a b c d) = load32 d c b a := by rw [ntohl, h0, h1, h2, h3]
  obtain ⟨h0, h1, h2, h3⟩ := byteOf_load32 d c b a
  rw [hswap, address_v4, h0, h1, h2, h3]

/-- A port in network byte order. -/
def portBytes (port : UInt16) : Bytes := [byteOf port.toNat 1, byteOf port.toNat 0]

theorem byteOf_load16 (a b : Byte) :
    byteOf (load16 a b).toNat 0 = a ∧ byteOf (load16 a b).toNat 1 = b := by
  have ha := a.toNat_lt
  have hb := b.toNat_lt
  constructor <;> apply UInt8.toNat_inj.mp <;>
    simp only [byteOf_toNat, load16_toNat, Nat.reducePow] <;> omega

/-- A port that is read and swapped is the port that was sent. -/
theorem ntohs_load16 (port : UInt16) :
    ntohs (load16 (byteOf port.toNat 1) (byteOf port.toNat 0)) = port := by
  obtain ⟨h0, h1⟩ := byteOf_load16 (byteOf port.toNat 1) (byteOf port.toNat 0)
  have hp := port.toNat_lt
  rw [ntohs, h0, h1]
  apply UInt16.toNat_inj.mp
  simp only [load16_toNat, byteOf_toNat, Nat.reducePow, Nat.div_one]
  omega

end TwoProxy
