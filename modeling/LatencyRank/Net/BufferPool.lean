/-!
A pool of datagram buffers. A buffer is wiped when it comes back, so none carries data from one
probe to the next.
-/

namespace LatencyRank

abbrev Buffer := List UInt8

namespace Buffer

def length : Nat := 512

def blank : Buffer := List.replicate length 0

def wipe (b : Buffer) : Buffer := b.map fun _ => 0

def isBlank (b : Buffer) : Bool := b.all (· == 0)

end Buffer

/-- The buffers at rest; the one released last is on top. -/
structure BufferPool where
  buffers : List Buffer := []

namespace BufferPool

def capacity : Nat := 64

def size (p : BufferPool) : Nat := p.buffers.length

def acquire (p : BufferPool) : Buffer × BufferPool :=
  match p.buffers with
  | buffer :: rest => (buffer, ⟨rest⟩)
  | [] => (Buffer.blank, p)

/-- A full pool drops what is released. -/
def release (p : BufferPool) (buffer : Buffer) : BufferPool :=
  if p.size < capacity then ⟨buffer.wipe :: p.buffers⟩ else p

end BufferPool

end LatencyRank
