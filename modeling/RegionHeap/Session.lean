import RegionHeap.Heap.Open
import RegionHeap.Operation
import RegionHeap.Region.Directory

/-!
A session: files, and the heaps that are open. Each open heap has a descriptor, the lowest
that was not in use, and stays open until it has been closed once more often than it was retained.
-/
namespace RegionHeap

/-- An open heap and how often it has to be closed. Each retain adds one to that number, so that it
would take more retains than a machine word can count to bring it out of the range of sizes. -/
structure OpenHeap where
  heap : Heap
  references : Nat

structure Session where
  files : Directory := {}
  /-- The open heaps, by descriptor. -/
  heaps : Array (Option OpenHeap) := #[]

/-- An operation on a session. -/
abbrev SessionM := EStateM Failure Session

namespace Session

variable {α : Type}

def open? (s : Session) (index : Nat) : Option OpenHeap := s.heaps[index]?.join

def isOpen (s : Session) (index : Nat) : Bool := (s.open? index).isSome

/-- The open heaps, each with its descriptor. -/
def openHeaps (s : Session) : List (Nat × Heap) :=
  s.heaps.toList.zipIdx.filterMap fun (slot, index) => slot.map fun o => (index, o.heap)

/-- How many heaps are open. -/
def size (s : Session) : Nat := s.openHeaps.length

/-- How a descriptor is printed. -/
def descriptorText (index : Nat) : String := s!"hd{index}"

/-- Changes what a descriptor stands for. -/
def setSlot (s : Session) (index : Nat) (slot : Option OpenHeap) : Session :=
  { s with heaps := s.heaps.setIfInBounds index slot }

/-- Gives a heap the lowest descriptor that is not in use. -/
def insert (s : Session) (heap : Heap) : Nat × Session :=
  match s.heaps.findIdx? Option.isNone with
  | some index => (index, s.setSlot index (some ⟨heap, 1⟩))
  | none => (s.heaps.size, { s with heaps := s.heaps.push (some ⟨heap, 1⟩) })

/-- Takes a region back that is no longer in use. -/
def handBack (s : Session) (r : Region) : Session := { s with files := s.files.handBack r }

/-- Opens the heap in a region, or a new one if the region is empty. -/
def openRegion (host : Host) (g : Geometry) (region : Region) : SessionM Nat := fun s =>
  match Heap.mount host g region with
  | .ok heap =>
    let (index, s) := s.insert heap
    .ok index s
  | .error rejection => .error rejection.failure (s.handBack rejection.region)

/-- Maps a file. -/
def mapFile (host : Host) (name : String) (capacity : Nat) : SessionM Region := fun s =>
  match s.files.mapFile host name capacity with
  | (.ok file, files) => .ok ⟨.file file, none⟩ { s with files }
  | (.error failure, files) => .error failure { s with files }

def ofExcept : Except Failure α → SessionM α
  | .ok a => pure a
  | .error failure => throw failure

/-- Opens a new heap in private memory. -/
def openMemory (host : Host) (g : Geometry) : SessionM Nat := do
  let capacity ← ofExcept (g.regionBytes host)
  let memory ← ofExcept (Reservation.reserve host capacity)
  openRegion host g ⟨.memory memory, none⟩

/-- Opens the heap in a file, or a new one if the file is missing or empty. -/
def openFile (host : Host) (name : String) (g : Geometry) : SessionM Nat := do
  let capacity ← ofExcept (g.regionBytes host)
  openRegion host g (← mapFile host name capacity)

/-- What a descriptor stands for. -/
def require (index : Nat) : SessionM OpenHeap := do
  match (← get).open? index with
  | some o => pure o
  | none => throw (.refused (.badDescriptor index))

/-- One more close is needed before the heap is closed. -/
def retain (index : Nat) : SessionM Unit := do
  let o ← require index
  modify fun s => s.setSlot index (some { o with references := o.references + 1 })

/-- Gives up a reference. With the last one the descriptor is free again and the heap is saved, and
its region is given up. -/
def close (index : Nat) : SessionM Unit := do
  let o ← require index
  if 1 < o.references then
    modify fun s => s.setSlot index (some { o with references := o.references - 1 })
  else
    modify fun s => s.setSlot index none
    match Heap.sync o.heap with
    | .ok () heap => modify fun s => s.handBack heap.region
    | .error failure heap => do
      modify fun s => s.handBack heap.region
      throw failure

/-- Runs an operation on an open heap. -/
def onHeap (index : Nat) (x : HeapM α) : SessionM α := do
  let o ← require index
  modify fun s => s.setSlot index none
  match x o.heap with
  | .ok a heap => do
    modify fun s => s.setSlot index (some { o with heap })
    pure a
  | .error failure heap => do
    modify fun s => s.setSlot index (some { o with heap })
    throw failure

/-- Runs an operation of a client on an open heap. -/
def run (index : Nat) (op : Operation) : SessionM Answer := onHeap index op.run

/-! ## Files -/

/-- What a file holds. -/
def file? (s : Session) (name : String) : Option ByteArray :=
  match s.openHeaps.findSome? fun (_, h) => h.region.fileNamed? name with
  | some whole => some whole
  | none => s.files.find? name

/-- Replaces what a file holds, also under the heap whose region maps it. -/
def writeFile (s : Session) (name : String) (whole : ByteArray) : Session :=
  let rewrite (o : OpenHeap) : OpenHeap :=
    { o with heap := { o.heap with region := o.heap.region.rewriteFile name whole } }
  { files := s.files.write name whole
    heaps := s.heaps.map fun slot => slot.map rewrite }

end Session

end RegionHeap
