import RegionHeap.Heap.Defects
import RegionHeap.Heap.Named
import RegionHeap.Heap.Usage
import RegionHeap.Image.Save

/-!
Everything a client can ask of an open heap, as a value, and what the heap answers. A history of a
heap is a list of operations.
-/
namespace RegionHeap

inductive Operation where
  | allocate (size : Nat)
  | allocateZeroed (count size : Nat)
  | allocateAligned (alignment size : Nat)
  | allocatePageAligned (host : Host) (size : Nat)
  | reallocate (handle : Handle) (size : Nat)
  | free (handle : Handle)
  | allocateNamed (name : String) (size : Nat)
  | allocateZeroedNamed (name : String) (count size : Nat)
  | allocateAlignedNamed (name : String) (alignment size : Nat)
  | freeNamed (name : String)
  | register (name : String) (offset : Nat)
  | lookup (name : String)
  | unregister (name : String)
  | resolve (offset : Nat)
  | usableFrom (offset : Nat)
  | read (offset count : Nat)
  | write (offset : Nat) (data : ByteArray)
  /-- Writes one byte `count` times. -/
  | fill (offset count : Nat) (byte : UInt8)
  | grow (count : Nat)
  | shrink (count : Nat)
  | trim
  | sync
  | names
  | usage
  | defects
  | freeRuns

inductive Answer where
  | done
  | handle (handle : Handle)
  | count (n : Nat)
  | bytes (data : ByteArray)
  | names (names : List String)
  | usage (usage : Usage)
  | defects (defects : Defects)
  | runs (runs : List (Nat × Nat))

namespace Operation

open HeapM

/-- What an operation does to a heap. -/
def run : Operation → HeapM Answer
  | allocate size => .handle <$> Heap.allocate size
  | allocateZeroed count size => .handle <$> Heap.allocateZeroed count size
  | allocateAligned alignment size => .handle <$> Heap.allocateAligned alignment size
  | allocatePageAligned host size => .handle <$> Heap.allocatePageAligned host size
  | reallocate handle size => .handle <$> Heap.reallocate handle size
  | free handle => (fun _ => .done) <$> Heap.free handle
  | allocateNamed name size => .handle <$> Heap.allocateNamed name size
  | allocateZeroedNamed name count size => .handle <$> Heap.allocateZeroedNamed name count size
  | allocateAlignedNamed name alignment size =>
    .handle <$> Heap.allocateAlignedNamed name alignment size
  | freeNamed name => (fun _ => .done) <$> Heap.freeNamed name
  | register name offset => (fun _ => .done) <$> Heap.register name offset
  | lookup name => .handle <$> Heap.lookup name
  | unregister name => .handle <$> Heap.unregister name
  | resolve offset => .handle <$> Heap.resolve offset
  | usableFrom offset => .count <$> Heap.usableFrom offset
  | read offset count => .bytes <$> Heap.read offset count
  | write offset data => (fun _ => .done) <$> Heap.write offset data
  | fill offset count byte => (fun _ => .done) <$> Heap.fill offset count byte
  | grow count => (fun _ => .done) <$> Heap.grow count
  | shrink count => (fun _ => .done) <$> Heap.shrink count
  | trim => .count <$> Heap.trim
  | sync => (fun _ => .done) <$> Heap.sync
  | names => do pure (.names (← get).names.names)
  | usage => do pure (.usage (← orTrap (← get).usage?))
  | defects => do pure (.defects (← orTrap (← get).defects?))
  | freeRuns => do pure (.runs (← orTrap (← get).table.freeRuns?))

end Operation

/-- The heap after a history of operations, each granted or refused; `none` if one of them was a
trap. -/
def Heap.after? (h : Heap) : List Operation → Option Heap
  | [] => some h
  | op :: rest =>
    match op.run h with
    | .ok _ h => h.after? rest
    | .error (.refused _) h => h.after? rest
    | .error .trap _ => none

end RegionHeap
