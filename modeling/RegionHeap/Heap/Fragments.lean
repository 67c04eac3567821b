import RegionHeap.Fragments.Link
import RegionHeap.Heap.Basic

/-!
Free fragments. A free fragment holds two links of 8 bytes, to the next free fragment of its size
and to the previous one. Freeing the last busy fragment of a block gives the whole block back.
-/
namespace RegionHeap.Heap

open HeapM

/-- The links of the fragment at an offset: the next fragment and the previous one. -/
def linksAt? (h : Heap) (offset : Nat) : Option (Option Nat × Option Nat) := do
  let next ← h.arenaNumber? offset
  let prev ← h.arenaNumber? (offset + 8)
  some (Link.decode next, Link.decode prev)

def linkForward (offset : Nat) (next : Option Nat) : HeapM Unit :=
  writeArena offset (Bytes.ofNumber 8 (Link.encode next))

def linkBack (offset : Nat) (prev : Option Nat) : HeapM Unit :=
  writeArena (offset + 8) (Bytes.ofNumber 8 (Link.encode prev))

/-- The first free fragment of a size that the heap has lists for. -/
def firstFree (log2 : Nat) : HeapM (Option Nat) := do
  orTrap (← get).freeLists[log2]?

def setFirstFree (log2 : Nat) (head : Option Nat) : HeapM Unit := do
  let h ← get
  if log2 < h.freeLists.size then set { h with freeLists := h.freeLists.setIfInBounds log2 head }
  else throw .trap

/-- Puts a fragment first on the list of its size. -/
def listFragment (log2 offset : Nat) : HeapM Unit := do
  let head ← firstFree log2
  linkForward offset head
  linkBack offset none
  match head with
  | some next => linkBack next (some offset)
  | none => pure ()
  setFirstFree log2 (some offset)

/-- Takes a fragment off the list of its size. -/
def unlistFragment (log2 offset : Nat) : HeapM Unit := do
  let (next, prev) ← orTrap ((← get).linksAt? offset)
  match prev with
  | some p => linkForward p next
  | none => setFirstFree log2 next
  match next with
  | some n => linkBack n prev
  | none => pure ()

/-- Puts the fragments `1` to `count` of the block that starts at `base` on the list of their size,
so that the lowest comes first. -/
def listFragments (log2 base : Nat) : (count : Nat) → HeapM Unit
  | 0 => pure ()
  | count + 1 => do
    listFragment log2 (base + (count + 1) * fragmentSize log2)
    listFragments log2 base count

/-- Takes `count` fragments in a row off the list of their size, save the one at `skip`. -/
def unlistFragments (log2 skip : Nat) : (fragment count : Nat) → HeapM Unit
  | _, 0 => pure ()
  | fragment, count + 1 => do
    if fragment = skip then pure () else unlistFragment log2 fragment
    unlistFragments log2 skip (fragment + fragmentSize log2) count

def isLiveFragment (h : Heap) (block offset log2 : Nat) : Bool :=
  BusyMaps.isBusy h.busy block (h.indexInBlock offset log2)

/-- Whether a fragment is in use, for a size that is in range. -/
def isLiveFragment? (h : Heap) (block offset log2 : Nat) : Option Bool :=
  (h.indexInBlock? offset log2).map fun index => BusyMaps.isBusy h.busy block index

/-- Marks a fragment busy or free and answers what it was, if its block has a map. -/
def markFragment (block index : Nat) (busy : Bool) : HeapM (Option Bool) := do
  let h ← get
  match BusyMaps.set? h.busy block index busy with
  | some (was, maps) =>
    set { h with busy := maps }
    pure (some was)
  | none => pure none

/-- Hands out the free fragment at an offset, which is the first on the list of its size. -/
def reuseFragment (log2 offset : Nat) : HeapM Handle := do
  let h ← get
  let block := h.blockOf offset
  match h.table.get? block with
  | some (.fragmented size nfree) =>
    if size = log2 ∧ 0 < nfree then
      let index ← orTrap (h.indexInBlock? offset log2)
      if (← markFragment block index true) = some false then
        unlistFragment log2 offset
        setEntry block (.fragmented log2 (nfree - 1))
        pure offset
      else refuse (.corrupt .fragmentLive)
    else refuse (.corrupt .fragmentOutsideBlocks)
  | _ => refuse (.corrupt .fragmentOutsideBlocks)

/-- Cuts a block into fragments, hands out the first and lists the others. -/
def cutBlock (log2 : Nat) : HeapM Handle := do
  let block ← claimBlocks 1
  let h ← get
  let count ← orTrap (fragmentsIn? h.blockLog2 log2)
  setEntry block (.fragmented log2 (count - 1))
  let map ← orTrap (BusyMap.allFree? count)
  modify fun h => { h with busy := h.busy.insert block map }
  discard (markFragment block 0 true)
  listFragments log2 (h.blockStart block) (count - 1)
  pure (h.blockStart block)

def allocateSmall (log2 : Nat) : HeapM Handle := do
  match ← firstFree log2 with
  | some offset => reuseFragment log2 offset
  | none => cutBlock log2

/-- Frees a fragment of a block that has `nfree` free ones. -/
def freeSmall (block offset log2 nfree : Nat) : HeapM Unit := do
  let h ← get
  let size ← orTrap (Size.shiftLeft? 1 log2)
  let live ← orTrap (h.isLiveFragment? block offset log2)
  if offset % size ≠ 0 ∨ !live then refuse (.invalidPointer offset)
  else
    let count ← orTrap (fragmentsIn? h.blockLog2 log2)
    let free ← orTrap (Size.add? nfree 1)
    if free < count then
      let index ← orTrap (h.indexInBlock? offset log2)
      discard (markFragment block index false)
      listFragment log2 offset
      setEntry block (.fragmented log2 free)
    else
      unlistFragments log2 offset (h.blockStart block) count
      modify fun h => { h with busy := h.busy.erase block }
      returnBlocks block 1

end RegionHeap.Heap
