import RegionHeap.OrderedMap
import RegionHeap.Size

/-!
Busy maps: for every block that is cut into fragments one bit per fragment, set while the fragment
is in use. Whether a fragment is in use is decided here alone, never from the fragment's own bytes.
-/
namespace RegionHeap

/-- Bits in words of 64, least bit first. -/
abbrev BusyMap := Array UInt64

namespace BusyMap

def wordBits : Nat := 64

/-- Words needed for a map of `count` fragments, which has to leave room for one more word in the
range of sizes. -/
def wordsNeeded? (count : Nat) : Option Nat :=
  (Size.add? count wordBits).map fun bits => (bits - 1) / wordBits

/-- A map of `count` fragments, none of them busy. -/
def allFree? (count : Nat) : Option BusyMap :=
  (wordsNeeded? count).map fun words => Array.replicate words 0

/-- The word in which only bit `i` is set. -/
def bitMask (i : Nat) : UInt64 := 1 <<< UInt64.ofNat i

def bit (word : UInt64) (i : Nat) : Bool := word &&& bitMask i != 0

def setBit (word : UInt64) (i : Nat) (busy : Bool) : UInt64 :=
  if busy then word ||| bitMask i else word &&& ~~~bitMask i

/-- How many of the lowest `n` bits are set. -/
def onesBelow (word : UInt64) : (n : Nat) → Nat
  | 0 => 0
  | n + 1 => onesBelow word n + if bit word n then 1 else 0

def ones (word : UInt64) : Nat := onesBelow word wordBits

/-- Whether fragment `i` is busy; past the words nothing is. -/
def isBusy (m : BusyMap) (i : Nat) : Bool :=
  m[i / wordBits]?.any fun word => bit word (i % wordBits)

/-- Marks a fragment and answers whether it was busy; `none` past the words. -/
def set? (m : BusyMap) (i : Nat) (busy : Bool) : Option (Bool × BusyMap) :=
  if h : i / wordBits < m.size then
    some (bit m[i / wordBits] (i % wordBits),
      m.set (i / wordBits) (setBit m[i / wordBits] (i % wordBits) busy))
  else none

/-- Busy fragments. -/
def count (m : BusyMap) : Nat := Size.total (m.toList.map ones)

/-- Whether a word, the `i`-th of its map, has a bit for a fragment at or past `n`. -/
def wordReaches (n : Nat) (word : UInt64) (i : Nat) : Bool :=
  if n ≤ i * wordBits then word != 0
  else if n - i * wordBits < wordBits then word >>> UInt64.ofNat (n - i * wordBits) != 0
  else false

/-- Whether a fragment at or past `n` is busy. -/
def reaches (m : BusyMap) (n : Nat) : Bool :=
  m.toList.zipIdx.any fun (word, i) => wordReaches n word i

end BusyMap

/-- The busy maps of an arena, by block. -/
abbrev BusyMaps := OrderedMap BusyMap

namespace BusyMaps

/-- A block without a map has no busy fragments. -/
def isBusy (maps : BusyMaps) (block i : Nat) : Bool :=
  (maps.find? block).any fun m => m.isBusy i

/-- Marks a fragment and answers whether it was busy; `none` if the block has no map that reaches
it. -/
def set? (maps : BusyMaps) (block i : Nat) (busy : Bool) : Option (Bool × BusyMaps) := do
  let m ← maps.find? block
  let (was, m) ← BusyMap.set? m i busy
  some (was, maps.insert block m)

/-- Busy fragments of a block that has a map. -/
def count? (maps : BusyMaps) (block : Nat) : Option Nat := (maps.find? block).map BusyMap.count

def reaches (maps : BusyMaps) (block n : Nat) : Bool :=
  (maps.find? block).any fun m => m.reaches n

end BusyMaps

end RegionHeap
