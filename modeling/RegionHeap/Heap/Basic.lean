import RegionHeap.AlignmentRecords
import RegionHeap.Blocks.Defects
import RegionHeap.Fragments.BusyMap
import RegionHeap.Geometry
import RegionHeap.Names
import RegionHeap.Region.Basic

/-!
A heap: a region whose first bytes hold metadata and whose other bytes are the arena, with the block
table of the arena, the lists of its free fragments and their busy maps.

A request for more than half a block gets a run of whole blocks. A smaller one gets a fragment: a
block is cut into equal fragments of a power of two, and the free fragments of each size form a
doubly linked list whose links lie in the fragments themselves. An object is known by its handle,
the offset of its first byte in the arena.
-/
namespace RegionHeap

/-- An object's handle: the offset of its first byte in the arena. -/
abbrev Handle := Nat

/-- The handle that lies `bytes` further. -/
def Handle.advance? (handle : Handle) (bytes : Nat) : Option Handle := Size.add? handle bytes

structure Heap where
  region : Region
  blockLog2 : Nat
  /-- Bytes in front of the arena. -/
  arenaStart : Nat
  maxBlocks : Nat
  /-- Freeing hands no blocks back to the region below this many. -/
  floor : Nat
  table : BlockTable
  /-- The first free fragment of each size, by the logarithm of the size. -/
  freeLists : Array (Option Nat)
  busy : BusyMaps
  aligned : AlignmentRecords
  names : NameTable

/-- An operation on a heap. A failed operation keeps the heap that it leaves behind. -/
abbrev HeapM := EStateM Failure Heap

namespace HeapM

variable {α : Type}

def refuse (e : HeapError) : HeapM α := throw (.refused e)

/-- A missing value ends the run. -/
def orTrap : Option α → HeapM α
  | some a => pure a
  | none => throw .trap

/-- A missing value refuses the request. -/
def orRefuse (e : HeapError) : Option α → HeapM α
  | some a => pure a
  | none => refuse e

def ofExcept : Except HeapError α → HeapM α
  | .ok a => pure a
  | .error e => refuse e

def orFail : Except Failure α → HeapM α
  | .ok a => pure a
  | .error failure => throw failure

/-- Whether the operation was granted; a refusal is dropped, what it left behind is not. -/
def granted (x : HeapM α) : HeapM Bool := fun h =>
  match x h with
  | .ok _ h => .ok true h
  | .error (.refused _) h => .ok false h
  | .error .trap h => .error .trap h

/-- Changes the block table. -/
def onTable (f : BlockTable → Option (α × BlockTable)) : HeapM α := fun h =>
  match f h.table with
  | some (a, table) => .ok a { h with table }
  | none => .error .trap h

/-- Runs an operation on the table of names. -/
def onNames (x : NamesM α) : HeapM α := fun h =>
  match x h.names with
  | .ok a names => .ok a { h with names }
  | .error failure names => .error failure { h with names }

/-- Changes the region, which stands alone meanwhile. -/
def modifyRegion (f : Region → Option Region) : HeapM Unit := fun h =>
  let region := h.region
  let h := { h with region := Region.empty }
  match f region with
  | some region => .ok () { h with region }
  | none => .error .trap h

end HeapM

namespace Heap

open HeapM

def blockSize (h : Heap) : Nat := 1 <<< h.blockLog2

/-- Blocks in the arena. -/
def blockCount (h : Heap) : Nat := h.table.size

/-- The block that an offset lies in. -/
def blockOf (h : Heap) (offset : Nat) : Nat := offset >>> h.blockLog2

/-- The offset of a block's first byte. -/
def blockStart (h : Heap) (block : Nat) : Nat := block * h.blockSize

/-- Bytes of a fragment, by the logarithm that the block table records. -/
def fragmentSize (log2 : Nat) : Nat := 1 <<< log2

/-- Fragments in a block cut into fragments of one size, none of them longer than the block. -/
def fragmentsPerBlock (h : Heap) (log2 : Nat) : Nat := 1 <<< (h.blockLog2 - log2)

/-- The index of a fragment in its block. -/
def indexInBlock (h : Heap) (offset log2 : Nat) : Nat := (offset % h.blockSize) >>> log2

/-- The index of a fragment in its block, for a size that is in range. -/
def indexInBlock? (h : Heap) (offset log2 : Nat) : Option Nat :=
  Size.shiftRight? (offset % h.blockSize) log2

theorem blockOf_eq (h : Heap) (offset : Nat) : h.blockOf offset = offset / h.blockSize := by
  rw [blockOf, blockSize, Nat.one_shiftLeft]
  exact Nat.shiftRight_eq_div_pow _ _

theorem indexInBlock_eq (h : Heap) (offset log2 : Nat) :
    h.indexInBlock offset log2 = offset % h.blockSize / fragmentSize log2 := by
  rw [indexInBlock, fragmentSize, Nat.one_shiftLeft]
  exact Nat.shiftRight_eq_div_pow _ _

/-! ## Size classes -/

/-- What a request is given: a fragment of a size, or a run of blocks. -/
inductive SizeClass where
  | fragment (log2 : Nat)
  | blocks (count : Nat)
  deriving DecidableEq, Repr

def sizeClass (h : Heap) (size : Nat) : SizeClass :=
  if size ≤ h.blockSize / 2 then .fragment (max (Size.ceilLog2 size) minFragmentLog2)
  else .blocks (size / h.blockSize + if size % h.blockSize = 0 then 0 else 1)

/-! ## The arena -/

/-- Bytes behind the metadata. -/
def arenaSize? (h : Heap) : Option Nat := Size.sub? h.region.size h.arenaStart

/-- A number of 8 bytes in the arena. -/
def arenaNumber? (h : Heap) (offset : Nat) : Option Nat :=
  h.region.number? 8 (h.arenaStart + offset)

def readArena? (h : Heap) (offset count : Nat) : Option ByteArray :=
  h.region.read? (h.arenaStart + offset) count

def writeArena (offset : Nat) (data : ByteArray) : HeapM Unit := do
  let start := (← get).arenaStart + offset
  modifyRegion fun r => r.write? start data

/-! ## Blocks from the region -/

/-- Adds `count` free blocks to the end of the arena. -/
def grow (count : Nat) : HeapM Unit := do
  let h ← get
  let limit := h.blockCount + count
  if count = 0 then pure ()
  else if Size.limit ≤ limit ∨ h.maxBlocks < limit then refuse .outOfMemory
  else
    let bytes ← orTrap (Size.add? h.arenaStart (limit * h.blockSize))
    match h.region.resize bytes with
    | .error _ => refuse .outOfMemory
    | .ok region =>
      let (_, table) ← orTrap (h.table.append? count)
      set { h with region, table }

/-- Hands `count` free blocks at the end of the arena back to the region. Freeing does not grow the
arena again, and may then shrink it that far. -/
def shrink (count : Nat) : HeapM Unit := do
  let h ← get
  let available ← orTrap h.table.freeAtEnd?
  if available < count then refuse (.shrinkBusy count available)
  else if count = 0 then pure ()
  else
    let limit ← orTrap (Size.sub? h.blockCount count)
    let bytes ← orTrap (Size.add? h.arenaStart (limit * h.blockSize))
    match h.region.resize bytes with
    | .error e => refuse (.region e)
    | .ok region =>
      let (cut, table) ← orTrap (h.table.cutTail? count)
      if cut then set { h with region, table, floor := min h.floor limit }
      else throw .trap

/-- Hands the free blocks at the end of the arena back, down to the floor. They are kept if the
region refuses. -/
def returnTail : HeapM Unit := do
  let h ← get
  let trailing ← orTrap h.table.freeAtEnd?
  let count := min trailing (h.blockCount - h.floor)
  if count = 0 then pure () else discard (granted (shrink count))

/-- Hands every free block at the end of the arena back and answers how many there were. -/
def trim : HeapM Nat := do
  let count ← orTrap (← get).table.freeAtEnd?
  shrink count
  pure count

/-- Makes `count` contiguous free blocks busy and answers the first, if there are as many. -/
def claimFree (count : Nat) : HeapM (Option Nat) := onTable fun t => t.claim? count

/-- Makes `count` blocks one busy run and answers the first. The arena grows by what is missing if
no free run is long enough. -/
def claimBlocks (count : Nat) : HeapM Nat := do
  if (← get).maxBlocks < count then refuse .outOfMemory
  else
    match ← claimFree count with
    | some block => pure block
    | none =>
      let trailing ← orTrap (← get).table.freeAtEnd?
      let missing ← orTrap (Size.sub? count trailing)
      grow missing
      match ← claimFree count with
      | some block => pure block
      | none => refuse (.corrupt .noRoomAfterGrowth)

/-- Writes the table entry of a busy block. -/
def setEntry (block : Nat) (e : Entry) : HeapM Unit :=
  onTable fun t => (t.setBusy? block e).map ((), ·)

/-- Makes the blocks of a run free. -/
def returnBlocks (start count : Nat) : HeapM Unit :=
  onTable fun t => (t.giveBack? start count).map fun (_, t) => ((), t)

end Heap

end RegionHeap
