import RegionHeap.Heap.Fragments

/-!
Objects: allocation, freeing, resizing, and the bytes of an object. An object may be addressed
anywhere inside it, but is freed and resized by its handle only.
-/
namespace RegionHeap.Heap

open HeapM

/-! ## Where objects are -/

/-- The extent of the busy run that starts at a block. -/
def runExtent? (h : Heap) (block : Nat) : Option (Nat × Nat) :=
  match h.table.get? block with
  | some (.run length) => some (h.blockStart block, length * h.blockSize)
  | _ => none

/-- The start and the length of the live object that an offset lies in. -/
def extentOf (h : Heap) (offset : Nat) : Except Failure (Nat × Nat) :=
  let block := h.blockOf offset
  match h.table.get? block with
  | some (.run length) => .ok (h.blockStart block, length * h.blockSize)
  | some (.runBody back) =>
    if block < back then .error (.refused (.corrupt .continuationBeforeArena))
    else
      match h.runExtent? (block - back) with
      | some span => .ok span
      | none => .error (.refused (.corrupt .continuationOutsideRun))
  | some (.fragmented log2 _) =>
    match Size.shiftLeft? 1 log2 with
    | none => .error .trap
    | some size =>
      let start := Size.roundDown offset size
      match h.isLiveFragment? block start log2 with
      | none => .error .trap
      | some true => .ok (start, size)
      | some false => .error (.refused (.invalidPointer offset))
  | _ => .error (.refused (.invalidPointer offset))

/-- The start of the live object that an offset lies in. -/
def resolve (offset : Nat) : HeapM Handle := do
  let (start, _) ← orFail ((← get).extentOf offset)
  pure start

/-- Bytes from an offset to the end of its object. -/
def usableFrom (offset : Nat) : HeapM Nat := do
  let (start, length) ← orFail ((← get).extentOf offset)
  let stop ← orTrap (Size.add? start length)
  orTrap (Size.sub? stop offset)

/-! ## Allocating and freeing -/

/-- Allocates `size` bytes. An object of no bytes is one of its own, too. -/
def allocate (size : Nat) : HeapM Handle := do
  let h ← get
  match h.sizeClass size with
  | .fragment log2 => allocateSmall log2
  | .blocks count => do
    let block ← claimBlocks count
    pure (h.blockStart block)

/-- Allocates `count * size` bytes that are all zero. -/
def allocateZeroed (count size : Nat) : HeapM Handle := do
  let total ← orRefuse .outOfMemory (Size.mul? count size)
  let handle ← allocate total
  writeArena handle (Bytes.zeros total)
  pure handle

/-- Frees the allocation that starts at an offset. -/
def freeAllocation (offset : Nat) : HeapM Unit := do
  let h ← get
  let block := h.blockOf offset
  match h.table.get? block with
  | some (.run length) =>
    if offset % h.blockSize = 0 then returnBlocks block length
    else refuse (.invalidPointer offset)
  | some (.fragmented log2 nfree) => freeSmall block offset log2 nfree
  | _ => refuse (.invalidPointer offset)

/-- Frees an object by its handle, and the alignment record of the handle with it. -/
def free (handle : Handle) : HeapM Unit := do
  let h ← get
  let start := h.aligned.start? handle
  freeAllocation (start.getD handle)
  if start.isSome then modify fun h => { h with aligned := h.aligned.erase handle }
  returnTail

/-! ## The bytes of an object -/

/-- Refuses bytes that do not all lie in one live object. -/
def checkExtent (offset count : Nat) : HeapM Unit := do
  let usable ← usableFrom offset
  if usable < count then refuse (.invalidPointer (Size.addCapped offset count)) else pure ()

def read (offset count : Nat) : HeapM ByteArray := do
  checkExtent offset count
  orTrap ((← get).readArena? offset count)

def write (offset : Nat) (data : ByteArray) : HeapM Unit := do
  checkExtent offset data.size
  writeArena offset data

/-- Writes one byte `count` times. -/
def fill (offset count : Nat) (byte : UInt8) : HeapM Unit := do
  checkExtent offset count
  writeArena offset (Bytes.repeated count byte)

/-! ## Resizing -/

/-- Moves an object to a new allocation with as many of its bytes as fit. -/
def moveObject (handle : Handle) (size : Nat) : HeapM Handle := do
  let available ← usableFrom handle
  let moved ← allocate size
  let data ← orTrap ((← get).readArena? handle (min available size))
  writeArena moved data
  free handle
  pure moved

/-- Extends a busy run into the free run behind it and answers whether that was possible. -/
def lengthenRun (block length want : Nat) : HeapM Bool :=
  onTable fun t => t.lengthen? block length want

/-- The free blocks between a run's end and the end of the arena, if there is nothing else. -/
def tailBehind? (h : Heap) (stop : Nat) : Option (Option Nat) :=
  match h.table.get? stop with
  | none => some (some 0)
  | some (.free size _ _) =>
    (Size.add? stop size).map fun last => if last = h.blockCount then some size else none
  | some _ => some none

/-- Extends the last busy run of the arena by growing the arena, and answers whether that was
possible. -/
def growBehind (block length want : Nat) : HeapM Bool := do
  let h ← get
  let stop ← orTrap (Size.add? block length)
  match ← orTrap (h.tailBehind? stop) with
  | none => pure false
  | some trailing =>
    if h.maxBlocks < h.blockCount then pure false
    else
      let missing ← orTrap (Size.sub? want (length + trailing))
      if h.maxBlocks - h.blockCount < missing then pure false
      else if ← granted (grow missing) then lengthenRun block length want
      else pure false

/-- Cuts a busy run down to `want` blocks. -/
def shortenRun (block length want : Nat) : HeapM Unit := do
  onTable fun t => (t.shorten? block length want).map ((), ·)
  returnTail

/-- Resizes an object that starts its allocation, in place where its allocation can be kept. -/
def resizeObject (handle : Handle) (size : Nat) : HeapM Handle := do
  let h ← get
  let block := h.blockOf handle
  match h.table.get? block, h.sizeClass size with
  | some (.run length), .blocks want =>
    if want < length then do
      shortenRun block length want
      pure handle
    else if want = length then pure handle
    else if ← lengthenRun block length want then pure handle
    else if ← growBehind block length want then pure handle
    else moveObject handle size
  | some (.fragmented log2 _), .fragment want =>
    if log2 = want then pure handle else moveObject handle size
  | _, _ => moveObject handle size

/-- Resizes an object, moving it only where it cannot stay. An object with an alignment record
always moves. -/
def reallocate (handle : Handle) (size : Nat) : HeapM Handle := do
  let h ← get
  if h.aligned.contains handle then moveObject handle size
  else
    let (start, _) ← orFail (h.extentOf handle)
    if start = handle then resizeObject handle size else refuse (.invalidPointer handle)

end RegionHeap.Heap
