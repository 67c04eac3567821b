import RegionHeap.Failure
import RegionHeap.OrderedMap

/-!
Alignment records: for each object whose handle was moved up to a boundary inside a larger
allocation, the offset at which that allocation starts.
-/
namespace RegionHeap

structure AlignmentRecords where
  /-- Starts of the allocations, by the handles inside them. -/
  starts : OrderedMap Nat := .empty
  capacity : Nat

namespace AlignmentRecords

def empty (capacity : Nat) : AlignmentRecords := { capacity }

/-- Of two records for one handle the later counts. More records than `capacity` are kept. -/
def ofList (capacity : Nat) (records : List (Nat × Nat)) : AlignmentRecords :=
  { starts := .ofList records, capacity }

def size (r : AlignmentRecords) : Nat := r.starts.size

def isFull (r : AlignmentRecords) : Bool := r.capacity ≤ r.size

def start? (r : AlignmentRecords) (handle : Nat) : Option Nat := r.starts.find? handle

def contains (r : AlignmentRecords) (handle : Nat) : Bool := (r.start? handle).isSome

def insert (r : AlignmentRecords) (handle start : Nat) : Except HeapError AlignmentRecords :=
  if r.isFull then .error .outOfMemory else .ok { r with starts := r.starts.insert handle start }

def erase (r : AlignmentRecords) (handle : Nat) : AlignmentRecords :=
  { r with starts := r.starts.erase handle }

/-- Handles and starts, in the order of the handles. -/
def toList (r : AlignmentRecords) : List (Nat × Nat) := r.starts.toList

end AlignmentRecords

end RegionHeap
