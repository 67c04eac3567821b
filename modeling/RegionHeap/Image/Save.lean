import RegionHeap.Heap.Basic
import RegionHeap.Image.Codec

/-!
Saving a heap: its tables are written into the metadata in front of the arena. Each table is written
in its own range and only as far as it is filled; what lies behind stays as it was.
-/
namespace RegionHeap.Heap

open HeapM

/-- The header that describes a heap. -/
def header (h : Heap) : Image.Header where
  blockLog2 := h.blockLog2
  limit := h.blockCount
  maxBlocks := h.maxBlocks
  arenaStart := h.arenaStart
  slotCount := h.names.slots.size
  slotCapacity := h.names.capacity
  recordCount := h.aligned.size
  recordCapacity := h.aligned.capacity
  floor := h.floor

/-- Where the metadata tables of a heap lie. -/
def tables? (h : Heap) : Option (Option TableOffsets) :=
  TableOffsets.forBlocks? h.blockLog2 h.maxBlocks h.names.capacity h.aligned.capacity

/-- What is written where when a heap is saved. -/
def savedTables (h : Heap) (t : TableOffsets) : List (Nat × ByteArray) :=
  [(0, h.header.encode),
    (t.entries, Image.concat Image.pushEntry h.table.entries.toList),
    (t.lists, Image.concat Image.pushLink
      ((List.range Metadata.listHeads).map fun log2 => h.freeLists[log2]?.join)),
    (t.slots, Image.concat Image.pushSlot h.names.slots.toList),
    (t.records, Image.concat Image.pushRecord h.aligned.toList),
    (t.busy, Image.concat (Image.pushMap t.mapBytes)
      ((List.range h.blockCount).map h.busy.find?))]

/-- Whether every name and every busy map fits its place in the tables. -/
def fitsTables (h : Heap) (t : TableOffsets) : Bool :=
  h.names.slots.all Image.slotFits &&
    (List.range h.blockCount).all fun block => Image.mapFits t.mapBytes (h.busy.find? block)

/-- Writes bytes in front of the arena. -/
def writeMeta (start : Nat) (data : ByteArray) : HeapM Unit := do
  if start + data.size ≤ (← get).arenaStart then modifyRegion fun r => r.write? start data
  else throw .trap

/-- Writes the tables of the heap into its region. -/
def save : HeapM Unit := do
  let h ← get
  match h.tables? with
  | none => throw .trap
  | some none => refuse (.corrupt .tablesOverflow)
  | some (some t) =>
    if h.fitsTables t then (h.savedTables t).forM fun (start, data) => writeMeta start data
    else throw .trap

/-- Saves the heap and makes its region durable. -/
def sync : HeapM Unit := do
  save
  match (← get).region.flush with
  | .ok () => pure ()
  | .error e => refuse (.region e)

end RegionHeap.Heap
