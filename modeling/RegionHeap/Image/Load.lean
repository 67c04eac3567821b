import RegionHeap.Heap.Defects
import RegionHeap.Image.Codec

/-!
Loading a heap from the image that a region starts with. Nothing in the image is trusted: numbers
are checked before they are used, links between free runs are made anew, and a heap with defects is
refused.
-/
namespace RegionHeap.Image

/-- What an image says about a heap. -/
structure Contents where
  header : Header
  entries : Array Entry
  busy : BusyMaps
  freeLists : Array (Option Nat)
  names : NameTable
  aligned : AlignmentRecords

variable {α : Type}

def orTrap : Option α → Except Failure α
  | some a => .ok a
  | none => .error .trap

def orCorrupt (reason : Corruption) : Option α → Except Failure α
  | some a => .ok a
  | none => .error (.refused (.corrupt reason))

def ensure (holds : Bool) (reason : Corruption) : Except Failure Unit :=
  if holds then .ok () else .error (.refused (.corrupt reason))

def number (r : Region) (width start : Nat) : Except Failure Nat := orTrap (r.number? width start)

/-! ## Header -/

def startsWithMagic (r : Region) : Bool :=
  (r.read? 0 magic.size).any (· == magic)

def readHeader (r : Region) : Except Failure Header := do
  ensure (Metadata.headerBytes ≤ r.size && startsWithMagic r) .noHeader
  ensure ((← number r 4 8) == version) .version
  let blockLog2 ← number r 4 12
  ensure (Geometry.minBlockLog2 ≤ blockLog2 && blockLog2 ≤ Geometry.maxBlockLog2) .blockSize
  let field (i : Nat) := number r 8 (fieldsStart + 8 * i)
  pure {
    blockLog2
    limit := ← field 0
    maxBlocks := ← field 1
    arenaStart := ← field 2
    slotCount := ← field 3
    slotCapacity := ← field 4
    recordCount := ← field 5
    recordCapacity := ← field 6
    floor := ← field 7 }

/-- Whether the tables fit in front of the arena and hold as much as the header says. -/
def Header.isConsistent (h : Header) (t : TableOffsets) : Bool :=
  t.stop ≤ h.arenaStart && h.limit ≤ h.maxBlocks && h.slotCount ≤ h.slotCapacity &&
    h.recordCount ≤ h.recordCapacity

/-- Bytes of metadata and arena. -/
def Header.regionBytes? (h : Header) : Option Nat :=
  (Size.mul? h.limit (1 <<< h.blockLog2)).bind fun arena => Size.add? arena h.arenaStart

/-! ## Tables -/

def readEntry (r : Region) (start : Nat) : Except Failure Entry := do
  let kind ← number r 4 start
  let a ← number r 4 (start + 4)
  let b ← number r 4 (start + 8)
  let c ← number r 4 (start + 12)
  orCorrupt .unknownEntry (entryOfNumbers? kind a b c)

/-- Whether an entry stays within its table and its block. -/
def entryInRange (h : Header) (block : Nat) : Entry → Bool
  | .free size _ _ => 0 < size && block + size ≤ h.limit
  | .freeTail head => head < block
  | .freeBody => true
  | .run length => 0 < length && block + length ≤ h.limit
  | .runBody offset => 0 < offset && offset ≤ block
  | .fragmented log2 nfree =>
    minFragmentLog2 ≤ log2 && log2 < h.blockLog2 && nfree < 1 <<< (h.blockLog2 - log2)

def readEntries (r : Region) (h : Header) (t : TableOffsets) : Except Failure (Array Entry) := do
  let entries ← (List.range h.limit).mapM fun block =>
    readEntry r (t.entries + block * Metadata.entryBytes)
  ensure (entries.zipIdx.all fun (e, block) => entryInRange h block e) .entryOutOfRange
  pure entries.toArray

/-- The busy map of a block, if it is cut into fragments. -/
def readMap (r : Region) (h : Header) (t : TableOffsets) (block : Nat) :
    Entry → Except Failure (Option (Nat × BusyMap))
  | .fragmented log2 _ => do
    let count ← orTrap ((fragmentsIn? h.blockLog2 log2).bind BusyMap.wordsNeeded?)
    let words ← (List.range count).mapM fun i =>
      number r 8 (t.busy + block * t.mapBytes + 8 * i)
    pure (some (block, (words.map UInt64.ofNat).toArray))
  | _ => pure none

def readBusy (r : Region) (h : Header) (t : TableOffsets) (entries : Array Entry) :
    Except Failure BusyMaps := do
  let maps ← entries.toList.zipIdx.mapM fun (e, block) => readMap r h t block e
  pure (OrderedMap.ofList (maps.filterMap id))

def readHeads (r : Region) (h : Header) (t : TableOffsets) :
    Except Failure (Array (Option Nat)) := do
  let heads ← (List.range h.blockLog2).mapM fun log2 => number r 8 (t.lists + 8 * log2)
  pure (heads.map Link.decode).toArray

def readSlot (r : Region) (start : Nat) : Except Failure (Option NamedObject) := do
  let length ← number r 2 start
  if length = 0 then pure none
  else
    ensure (length ≤ NameTable.longestName) .nameOverflow
    let bytes ← orTrap (r.read? (start + 2) length)
    let name ← orCorrupt .nameEncoding (String.fromUTF8? bytes)
    let offset ← number r 8 (start + 2 + NameTable.longestName)
    pure (some ⟨name, offset⟩)

def readNames (r : Region) (h : Header) (t : TableOffsets) : Except Failure NameTable := do
  let slots ← (List.range h.slotCount).mapM fun i =>
    readSlot r (t.slots + i * Metadata.slotBytes)
  orCorrupt .duplicateName (NameTable.ofSlots? h.slotCapacity slots.toArray)

def readRecords (r : Region) (h : Header) (t : TableOffsets) : Except Failure AlignmentRecords := do
  let records ← (List.range h.recordCount).mapM fun i => do
    let start := t.records + i * Metadata.recordBytes
    pure (← number r 8 start, ← number r 8 (start + 8))
  pure (.ofList h.recordCapacity records)

/-- Reads the image that a region starts with, and answers it with the bytes that it describes. -/
def read (r : Region) : Except Failure (Contents × Nat) := do
  let header ← readHeader r
  let tables ← orTrap
    (TableOffsets.forBlocks? header.blockLog2 header.maxBlocks header.slotCapacity
      header.recordCapacity)
  let t ← orCorrupt .tablesOverflow tables
  ensure (header.isConsistent t) .header
  let bytes ← orCorrupt .arenaOverflow header.regionBytes?
  ensure (bytes ≤ r.size) .shortRegion
  let entries ← readEntries r header t
  let busy ← readBusy r header t entries
  let freeLists ← readHeads r header t
  let names ← readNames r header t
  let aligned ← readRecords r header t
  pure ({ header, entries, busy, freeLists, names, aligned }, bytes)

/-- The heap that an image describes, over its region. -/
def Contents.heap? (c : Contents) (region : Region) : Option Heap := do
  let table ← BlockTable.ofEntries? c.entries
  some {
    region, table
    blockLog2 := c.header.blockLog2
    arenaStart := c.header.arenaStart
    maxBlocks := c.header.maxBlocks
    floor := min c.header.floor c.header.limit
    freeLists := c.freeLists
    busy := c.busy
    aligned := c.aligned
    names := c.names }

end RegionHeap.Image
