import RegionHeap.Text.Quoted

/-!
What can go wrong. A request is refused with a `HeapError`, after which the heap is still usable; a
trap is the end of a run: a number left the machine's range or an index left its table.
-/
namespace RegionHeap

/-- Why the host does not open or flush a region. -/
inductive IoCause where
  | isDirectory
  | noSuchDirectory
  | nameTooLong
  | nameHasNul
  | flushRefused
  deriving DecidableEq, Repr

/-- Failures of a region of bytes. -/
inductive RegionError where
  /-- The region cannot hold `requested` bytes. -/
  | exhausted (requested capacity : Nat)
  | io (cause : IoCause)
  /-- The host has no address range for a mapping. -/
  | unmappable
  deriving DecidableEq, Repr

/-- Requests that no heap grants. -/
inductive Unsupported where
  | emptyName
  | longName
  | alignment
  | blockSize
  | maxBlocks
  | initialBlocks
  deriving DecidableEq, Repr

/-- Why the metadata in front of an arena describes no heap. -/
inductive Corruption where
  | noHeader
  | version
  | blockSize
  | tablesOverflow
  | header
  | arenaOverflow
  | shortRegion
  | unknownEntry
  | entryOutOfRange
  | nameOverflow
  | nameEncoding
  | duplicateName
  | inconsistent
  | continuationBeforeArena
  | continuationOutsideRun
  | fragmentOutsideBlocks
  | fragmentLive
  | noRoomAfterGrowth
  | emptyNameSlot
  deriving DecidableEq, Repr

/-- Refusals of a heap operation. -/
inductive HeapError where
  | outOfMemory
  | nameExists (name : String)
  | notFound (name : String)
  /-- The offset is not one of a live object. -/
  | invalidPointer (offset : Nat)
  | unsupported (request : Unsupported)
  | namesFull (slots : Nat)
  /-- A shrink would cut into blocks in use. -/
  | shrinkBusy (requested available : Nat)
  | badDescriptor (index : Nat)
  | corrupt (reason : Corruption)
  | region (error : RegionError)
  deriving DecidableEq, Repr

/-- How an operation ends when it has no result. -/
inductive Failure where
  | refused (error : HeapError)
  | trap
  deriving DecidableEq, Repr

/-! ## Texts -/

def IoCause.message : IoCause → String
  | .isDirectory => "Is a directory (os error 21)"
  | .noSuchDirectory => "No such file or directory (os error 2)"
  | .nameTooLong => "File name too long (os error 36)"
  | .nameHasNul => "file name contained an unexpected NUL byte"
  | .flushRefused => "flush refused"

def RegionError.message : RegionError → String
  | .exhausted requested capacity =>
    s!"backing store cannot hold {requested} bytes (capacity {capacity})"
  | .io cause => "backing store i/o failed: " ++ cause.message
  | .unmappable => "backing store system call failed: Cannot allocate memory"

def Unsupported.message : Unsupported → String
  | .emptyName => "object names can't be empty"
  | .longName => "object name too long"
  | .alignment => "alignment must be a power of two"
  | .blockSize => "block size out of range"
  | .maxBlocks => "max_blocks out of range"
  | .initialBlocks => "initial_blocks exceeds max_blocks"

def Corruption.message : Corruption → String
  | .noHeader => "missing heap header"
  | .version => "unsupported metadata version"
  | .blockSize => "block size out of range"
  | .tablesOverflow => "metadata tables overflow"
  | .header => "inconsistent header"
  | .arenaOverflow => "arena size overflows"
  | .shortRegion => "region is shorter than its recorded arena"
  | .unknownEntry => "unknown info table entry"
  | .entryOutOfRange => "info table entry out of range"
  | .nameOverflow => "name slot overflows"
  | .nameEncoding => "name is not UTF-8"
  | .duplicateName => "duplicate name in registry"
  | .inconsistent => "inconsistent allocator state"
  | .continuationBeforeArena => "continuation block points before the arena"
  | .continuationOutsideRun => "continuation block points outside its run"
  | .fragmentOutsideBlocks => "fragment list leads outside its blocks"
  | .fragmentLive => "fragment list holds a live fragment"
  | .noRoomAfterGrowth => "grown arena has no room for the request"
  | .emptyNameSlot => "registry index points at an empty slot"

/-- An offset as it is printed: in base sixteen after `0x`. -/
def offsetText (offset : Nat) : String := "0x" ++ Text.hexDigits offset

def HeapError.message : HeapError → String
  | .outOfMemory => "out of memory"
  | .nameExists name => "an object named " ++ Text.quote name ++ " already exists in this heap"
  | .notFound name => "no object named " ++ Text.quote name ++ " in this heap"
  | .invalidPointer offset => offsetText offset ++ " is not a live object of this heap"
  | .unsupported request => "unsupported request: " ++ request.message
  | .namesFull slots => s!"named-object registry is full ({slots} slots)"
  | .shrinkBusy requested available =>
    s!"cannot release {requested} blocks, only {available} trailing blocks are free"
  | .badDescriptor index => s!"no open heap with descriptor {index}"
  | .corrupt reason => "corrupt heap metadata: " ++ reason.message
  | .region error => error.message

end RegionHeap
