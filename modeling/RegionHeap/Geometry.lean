import RegionHeap.Failure
import RegionHeap.Fragments.BusyMap
import RegionHeap.Host
import RegionHeap.Names

/-!
The geometry of a heap: block size, table sizes, and where the metadata tables lie in front of the
arena.

    header             128 bytes
    entries            16 bytes for each block that the arena may have
    fragment lists     32 numbers of 8 bytes
    name slots         64 bytes each
    alignment records  16 bytes each
    busy maps          one bit for each smallest fragment of each block
-/
namespace RegionHeap

/-- The smallest fragment holds two list links of 8 bytes. -/
def minFragmentLog2 : Nat := 4

/-- Fragments of one size in a block, by the logarithms of the two; `none` for a fragment that is
longer than the block. -/
def fragmentsIn? (blockLog2 log2 : Nat) : Option Nat :=
  (Size.sub? blockLog2 log2).bind fun count => Size.shiftLeft? 1 count

theorem fragmentsIn?_eq {blockLog2 log2 : Nat} (hle : log2 ≤ blockLog2) (hlt : blockLog2 < 64) :
    fragmentsIn? blockLog2 log2 = some (1 <<< (blockLog2 - log2)) := by
  rw [fragmentsIn?, Size.sub?_eq_some_iff.2 ⟨hle, rfl⟩]
  exact Size.shiftLeft?_one (by omega)

theorem fragmentsIn?_eq_some {blockLog2 log2 count : Nat}
    (h : fragmentsIn? blockLog2 log2 = some count) : count = 1 <<< (blockLog2 - log2) := by
  obtain ⟨difference, hsub, hshift⟩ := Option.bind_eq_some_iff.1 h
  obtain ⟨-, rfl⟩ := Size.sub?_eq_some_iff.1 hsub
  exact Size.shiftLeft?_one_eq_some hshift

/-! ## Table offsets -/

namespace Metadata

def headerBytes : Nat := 128
def entryBytes : Nat := 16
def listHeads : Nat := 32
def slotBytes : Nat := 64
def recordBytes : Nat := 16

/-- Bytes of busy map for one block. Blocks smaller than the smallest fragment have none. -/
def mapBytes? (blockLog2 : Nat) : Option Nat :=
  if blockLog2 < minFragmentLog2 ∨ 64 ≤ blockLog2 - minFragmentLog2 then none
  else (BusyMap.wordsNeeded? (1 <<< (blockLog2 - minFragmentLog2))).map (8 * ·)

end Metadata

/-- Where each metadata table starts, counted from the start of the region. -/
structure TableOffsets where
  entries : Nat
  lists : Nat
  slots : Nat
  records : Nat
  busy : Nat
  mapBytes : Nat
  /-- The first byte behind the tables. -/
  stop : Nat
  deriving DecidableEq, Repr

/-- The offsets for tables of the given lengths; `none` if one of them is no size. -/
def TableOffsets.place? (mapBytes blocks names aligned : Nat) : Option TableOffsets := do
  let entries := Metadata.headerBytes
  let lists ← Size.add? entries (← Size.mul? blocks Metadata.entryBytes)
  let slots ← Size.add? lists (Metadata.listHeads * 8)
  let records ← Size.add? slots (← Size.mul? names Metadata.slotBytes)
  let busy ← Size.add? records (← Size.mul? aligned Metadata.recordBytes)
  let stop ← Size.add? busy (← Size.mul? blocks mapBytes)
  some { entries, lists, slots, records, busy, mapBytes, stop }

/-- The offsets for a block size and table lengths; `none` within the answer if they do not fit. -/
def TableOffsets.forBlocks? (blockLog2 blocks names aligned : Nat) :
    Option (Option TableOffsets) :=
  (Metadata.mapBytes? blockLog2).map fun mapBytes => place? mapBytes blocks names aligned

/-! ## Geometry -/

structure Geometry where
  /-- Blocks have `2 ^ blockLog2` bytes. -/
  blockLog2 : Nat := 12
  /-- Blocks the arena starts with, and below which freeing does not shrink it. -/
  initialBlocks : Nat := 16
  /-- Blocks the arena may grow to. -/
  maxBlocks : Nat := 16384
  /-- Slots for named objects. -/
  maxNames : Nat := 64
  /-- Alignment records. -/
  maxAligned : Nat := 256
  deriving DecidableEq, Repr

namespace Geometry

def minBlockLog2 : Nat := 8
def maxBlockLog2 : Nat := 24

/-- Block counts are below this, so that a table entry can hold them. -/
def blockLimit : Nat := (1 <<< 32) - 1

def blockSize? (g : Geometry) : Option Nat :=
  if g.blockLog2 < 64 then some (1 <<< g.blockLog2) else none

def check (g : Geometry) : Except HeapError Unit :=
  if g.blockLog2 < minBlockLog2 ∨ maxBlockLog2 < g.blockLog2 then .error (.unsupported .blockSize)
  else if g.maxBlocks = 0 ∨ blockLimit ≤ g.maxBlocks then .error (.unsupported .maxBlocks)
  else if g.maxBlocks < g.initialBlocks then .error (.unsupported .initialBlocks)
  else .ok ()

/-- Bytes in front of the arena, which starts on the boundary of a page and of a block. -/
def arenaStart (g : Geometry) (host : Host) : Except Failure Nat :=
  match g.check with
  | .error e => .error (.refused e)
  | .ok () =>
    match TableOffsets.forBlocks? g.blockLog2 g.maxBlocks g.maxNames g.maxAligned with
    | none => .error .trap
    | some none => .error (.refused .outOfMemory)
    | some (some tables) =>
      match Size.roundUp? tables.stop (max host.page (1 <<< g.blockLog2)) with
      | none => .error .trap
      | some bytes => .ok bytes

/-- Bytes that a region needs for the largest arena. -/
def regionBytes (g : Geometry) (host : Host) : Except Failure Nat := do
  let bytes ← g.arenaStart host
  match (Size.mul? g.maxBlocks (1 <<< g.blockLog2)).bind fun arena => Size.add? arena bytes with
  | some capacity => .ok capacity
  | none => .error (.refused .outOfMemory)

end Geometry

end RegionHeap
