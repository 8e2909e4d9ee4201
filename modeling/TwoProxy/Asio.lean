/-
# What `asio` hands over

The fixed buffers the program reads into, what a successful read delivers, and endpoints.
-/
import TwoProxy.Bytes

namespace TwoProxy

/-- `boost::array<char, 1024>`. -/
structure Buffer where
  bytes : Bytes
  size_eq : bytes.length = 1024
  deriving DecidableEq

/-- A buffer of zeros. -/
def blank : Buffer := ⟨List.replicate 1024 0, List.length_replicate⟩

/-- What one successful `async_read` with `transfer_at_least(1)` delivers. -/
structure Chunk where
  bytes : Bytes
  pos : 0 < bytes.length
  le : bytes.length ≤ 1024
  deriving DecidableEq

/-- A read leaves the bytes behind the ones it delivers as they were. -/
def Buffer.fill (b : Buffer) (c : Chunk) : Buffer where
  bytes := c.bytes ++ b.bytes.drop c.bytes.length
  size_eq := by
    have h1 := b.size_eq
    have h2 := c.le
    simp only [List.length_append, List.length_drop]
    omega

/-- The bytes of the reads. -/
def streamOf (reads : List Chunk) : Bytes := (reads.map Chunk.bytes).flatten

@[simp] theorem streamOf_nil : streamOf [] = [] := rfl

@[simp] theorem streamOf_cons (c : Chunk) (reads : List Chunk) :
    streamOf (c :: reads) = c.bytes ++ streamOf reads := by
  simp [streamOf]

@[simp] theorem streamOf_append (reads reads' : List Chunk) :
    streamOf (reads ++ reads') = streamOf reads ++ streamOf reads' := by
  simp [streamOf]

structure Endpoint where
  address : Bytes
  port : UInt16
  deriving DecidableEq

end TwoProxy
