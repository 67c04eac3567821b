import RegionHeap.Proofs.Heap.Refusing

/-!
Every operation has an answer. On a heap that a client may have, no operation is a trap, whatever
its arguments are, and none is refused because the metadata are corrupt: the errors that look like
damage (a free fragment in use, a run that leads nowhere, a grown arena without room) are those of
heaps that are not well-formed. What is left to be refused for is listed in `Operation.MayRefuse`.
-/
namespace RegionHeap

open Heap HeapM

namespace Heap

variable {host : Host} {g : Geometry} {region : Region} {h : Heap}

/-- The largest arena fits the range of sizes, since the region already holds the metadata in front
of it. -/
theorem Restorable.roomy (s : h.Restorable) (hsize : h.region.size < memoryLimit) :
    h.frame.Roomy := by
  have hstart := s.wellFormed.arenaStart_le
  have hmax := s.max_lt
  -- the most blocks of the largest size take less than `2 ^ 56` bytes
  have hblock : 1 <<< h.blockLog2 ≤ 1 <<< Geometry.maxBlockLog2 :=
    one_shiftLeft_le s.wellFormed.max_block
  have := Nat.mul_le_mul (Nat.le_of_lt hmax) hblock
  simp only [Frame.Roomy, frame, Geometry.blockLimit, Geometry.maxBlockLog2, memoryLimit,
    Size.limit] at *
  omega

end Heap

end RegionHeap
