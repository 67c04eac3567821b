import RegionHeap.Blocks.Entry
import RegionHeap.Bytes
import RegionHeap.Fragments.BusyMap
import RegionHeap.Fragments.Link
import RegionHeap.Geometry
import RegionHeap.Names

/-!
The written form of each kind of metadata. Numbers are little-endian; every kind but the busy map
has one fixed length.
-/
namespace RegionHeap.Image

/-- The bytes of a list of items, one after another. -/
def concat {α : Type} (encode : ByteArray → α → ByteArray) (items : List α) : ByteArray :=
  items.foldl encode ByteArray.empty

/-! ## Header -/

/-- The eight bytes that every image starts with. -/
def magic : ByteArray := ⟨#[0x50, 0x48, 0x45, 0x41, 0x50, 0x00, 0x76, 0x31]⟩

def version : Nat := 1

structure Header where
  blockLog2 : Nat
  limit : Nat
  maxBlocks : Nat
  arenaStart : Nat
  slotCount : Nat
  slotCapacity : Nat
  recordCount : Nat
  recordCapacity : Nat
  floor : Nat
  deriving DecidableEq, Repr

/-- The fields of 8 bytes, in the order in which they are written. -/
def Header.fields (h : Header) : List Nat :=
  [h.limit, h.maxBlocks, h.arenaStart, h.slotCount, h.slotCapacity, h.recordCount, h.recordCapacity,
    h.floor]

/-- Where the fields of 8 bytes start. -/
def fieldsStart : Nat := 16

def Header.encode (h : Header) : ByteArray :=
  let b := Bytes.pushNumber (Bytes.pushNumber magic 4 version) 4 h.blockLog2
  Bytes.resized (h.fields.foldl (fun b field => Bytes.pushNumber b 8 field) b)
    Metadata.headerBytes

/-! ## Block table entries -/

/-- The block number that stands for no block. -/
def nilBlock : Nat := (1 <<< 32) - 1

def encodeBlockLink (link : Option Nat) : Nat := link.getD nilBlock

def decodeBlockLink (raw : Nat) : Option Nat := if raw = nilBlock then none else some raw

/-- The kind of an entry and its three parameters. -/
def entryNumbers : Entry → List Nat
  | .free size next prev => [1, size, encodeBlockLink next, encodeBlockLink prev]
  | .freeTail head => [2, head, 0, 0]
  | .freeBody => [3, 0, 0, 0]
  | .run length => [4, length, 0, 0]
  | .runBody offset => [5, offset, 0, 0]
  | .fragmented log2 nfree => [6, log2, nfree, 0]

/-- The entry with these numbers; `none` for an unknown kind. -/
def entryOfNumbers? (kind a b c : Nat) : Option Entry :=
  match kind with
  | 1 => some (.free a (decodeBlockLink b) (decodeBlockLink c))
  | 2 => some (.freeTail a)
  | 3 => some .freeBody
  | 4 => some (.run a)
  | 5 => some (.runBody a)
  | 6 => some (.fragmented a b)
  | _ => none

def pushEntry (b : ByteArray) (e : Entry) : ByteArray :=
  (entryNumbers e).foldl (fun b n => Bytes.pushNumber b 4 n) b

/-! ## Fragment lists -/

def pushLink (b : ByteArray) (link : Option Nat) : ByteArray :=
  Bytes.pushNumber b 8 (Link.encode link)

/-! ## Name slots -/

/-- Whether a name is no longer than its place in a slot. -/
def slotFits (slot : Option NamedObject) : Bool :=
  slot.all fun object => object.name.toUTF8.size ≤ NameTable.longestName

/-- A slot is the length of the name, the name with zeros behind it, and the offset; an empty slot
is all zeros. The name is one that fits. -/
def pushSlot (b : ByteArray) : Option NamedObject → ByteArray
  | none => Bytes.pushZeros b Metadata.slotBytes
  | some object =>
    let name := object.name.toUTF8
    let b := Bytes.pushNumber b 2 name.size ++ Bytes.resized name NameTable.longestName
    Bytes.pushNumber b 8 object.offset

/-! ## Alignment records -/

def pushRecord (b : ByteArray) (record : Nat × Nat) : ByteArray :=
  Bytes.pushNumber (Bytes.pushNumber b 8 record.1) 8 record.2

/-! ## Busy maps -/

/-- Whether a busy map is no longer than its place of `mapBytes` bytes. -/
def mapFits (mapBytes : Nat) (map : Option BusyMap) : Bool := map.all fun m => 8 * m.size ≤ mapBytes

/-- The busy map of one block in `mapBytes` bytes; all zeros for a block without a map. The map is
one that fits. -/
def pushMap (mapBytes : Nat) (b : ByteArray) (map : Option BusyMap) : ByteArray :=
  let words := (map.getD #[]).toList
  b ++ Bytes.resized (concat (fun b word => Bytes.pushNumber b 8 word.toNat) words) mapBytes

end RegionHeap.Image
