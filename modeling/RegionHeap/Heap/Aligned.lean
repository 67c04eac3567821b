import RegionHeap.Heap.Objects

/-!
Allocation on a boundary. Where an allocation does not happen to start on the boundary, a larger one
is made, its handle is moved up to the boundary inside it, and a record leads from the handle back
to the start of the allocation.
-/
namespace RegionHeap.Heap

open HeapM

/-- Allocates `size` bytes, rounded up to a multiple of `alignment`, with room to move the handle up
to a multiple of `alignment`. -/
def allocateWithSlack (alignment padded : Nat) : HeapM Handle := do
  let slack ← orRefuse .outOfMemory (Size.add? padded alignment)
  let start ← allocate slack
  let handle ← orTrap (Size.roundUp? start alignment)
  if handle = start then pure start
  else
    let h ← get
    let aligned ← ofExcept (h.aligned.insert handle start)
    set { h with aligned }
    pure handle

/-- Allocates `size` bytes at a multiple of `alignment`, which is a power of two. A first try that
misses the boundary is given back before the larger one. -/
def allocateAligned (alignment size : Nat) : HeapM Handle := do
  if !Size.isPowerOfTwo alignment then refuse (.unsupported .alignment)
  else
    let room ← orRefuse .outOfMemory (Size.add? (max size 1) (alignment - 1))
    let padded := Size.roundDown room alignment
    let handle ← allocate padded
    if handle % alignment = 0 then pure handle
    else
      freeAllocation handle
      if (← get).aligned.isFull then refuse .outOfMemory
      else allocateWithSlack alignment padded

/-- Allocates `size` bytes at the start of a page. -/
def allocatePageAligned (host : Host) (size : Nat) : HeapM Handle := allocateAligned host.page size

end RegionHeap.Heap
