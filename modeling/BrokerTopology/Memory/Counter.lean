import BrokerTopology.Table
import BrokerTopology.Word
/-!
# Counting allocated memory

The counter keeps the number of live bytes and the largest such number so far. A reallocation gives
back the old block before the new one is counted, and a request that fails counts nothing. All
sizes are bytes.
-/

namespace BrokerTopology.Memory

/-- A reading of the counters. -/
structure Usage where
  current : Nat
  maximum : Nat
  deriving DecidableEq, Repr

namespace Usage

/-- Nothing allocated. -/
def zero : Usage := ⟨0, 0⟩

/-- A block of `size` bytes is allocated. -/
def allocate (u : Usage) (size : Nat) : Usage :=
  ⟨u.current + size, max u.maximum (u.current + size)⟩

/-- A block of `size` bytes is given back. -/
def release (u : Usage) (size : Nat) : Usage :=
  ⟨u.current - size, u.maximum⟩

end Usage

/-- The largest block that can be had, which is a bound of the address space. -/
def largestBlock : Nat := Word.largest 62

/-- The counters, and the sizes of the live blocks by the name of their slot. -/
structure Heap where
  usage : Usage
  blocks : Table Nat
  deriving DecidableEq, Repr

namespace Heap

/-- A heap without blocks. -/
def empty : Heap := ⟨.zero, .empty⟩

/-- The size of the block in a slot; an empty slot holds no bytes. -/
def sizeOf (h : Heap) (slot : String) : Nat :=
  (h.blocks.find? slot).getD 0

/-- Allocates a block into a slot, and answers whether that succeeded. -/
def allocate (h : Heap) (slot : String) (size : Nat) : Bool × Heap :=
  if largestBlock < size then (false, h)
  else (true, ⟨h.usage.allocate size, h.blocks.set slot size⟩)

/-- Gives the block of a slot another size, and answers whether that succeeded. -/
def reallocate (h : Heap) (slot : String) (size : Nat) : Bool × Heap :=
  if largestBlock < size then (false, h)
  else (true, ⟨(h.usage.release (h.sizeOf slot)).allocate size, h.blocks.set slot size⟩)

/-- Gives back the block of a slot. -/
def deallocate (h : Heap) (slot : String) : Bool × Heap :=
  (true, ⟨h.usage.release (h.sizeOf slot), h.blocks.erase slot⟩)

end Heap

end BrokerTopology.Memory
