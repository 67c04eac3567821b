import RegionHeap.Blocks.Entry
import RegionHeap.Size

/-!
Block tables: one entry per block of an arena, with the free runs threaded through the table in
doubly linked lists. Bin `k` lists the free runs whose size lies between `2 ^ k` and `2 ^ (k + 1)`.

A free run starts with `Entry.free` of its size, a longer one ends with `Entry.freeTail` of its
first block, and no two free runs are adjacent. Every later block of a busy run holds its distance
from the first, so any block leads to its run at once.

An operation that ends in `?` answers `none` where it would leave the table's bounds or meet an
entry that its list or its caller promised to be another.
-/
namespace RegionHeap

structure BlockTable where
  entries : Array Entry
  /-- The first free run of each bin. -/
  bins : Array (Option Nat)
  deriving DecidableEq, Repr

namespace BlockTable

def binCount : Nat := 64

def emptyBins : Array (Option Nat) := Array.replicate binCount none

def empty : BlockTable := ⟨#[], emptyBins⟩

instance : Inhabited BlockTable := ⟨empty⟩

/-- Blocks in the table. -/
def size (t : BlockTable) : Nat := t.entries.size

def get? (t : BlockTable) (block : Nat) : Option Entry := t.entries[block]?

def set? (t : BlockTable) (block : Nat) (e : Entry) : Option BlockTable :=
  if h : block < t.entries.size then some { t with entries := t.entries.set block e } else none

/-- The bin for free runs of a size; there are no empty runs. -/
def bin? (size : Nat) : Option Nat := if size = 0 then none else some size.log2

def binHead (t : BlockTable) (bin : Nat) : Option Nat := t.bins[bin]?.join

def setBinHead (t : BlockTable) (bin : Nat) (head : Option Nat) : BlockTable :=
  { t with bins := t.bins.setIfInBounds bin head }

/-! ## Runs -/

/-- The runs from block `start` on, each with its first block. -/
def runsFrom? (entries : Array Entry) (start : Nat) : Option (List (Nat × Entry)) :=
  if h : start < entries.size then
    if start + entries[start].step < Size.limit then
      (runsFrom? entries (start + entries[start].step)).map ((start, entries[start]) :: ·)
    else none
  else some []
termination_by entries.size - start
decreasing_by
  have := entries[start].one_le_step
  omega

def runs? (t : BlockTable) : Option (List (Nat × Entry)) := runsFrom? t.entries 0

/-- The first block and the size of a free run. -/
def freeRun? : Nat × Entry → Option (Nat × Nat)
  | (block, .free size _ _) => some (block, size)
  | _ => none

/-- Every free run, in the order of addresses. -/
def freeRuns? (t : BlockTable) : Option (List (Nat × Nat)) :=
  t.runs?.map fun runs => runs.filterMap freeRun?

/-- The first block of the free run whose last block is `block`. -/
def headEndingAt? (t : BlockTable) (block : Nat) : Option Nat :=
  match t.get? block with
  | some (.free 1 _ _) => some block
  | some (.freeTail head) => some head
  | _ => none

/-- Blocks in the free run at the very end of the table. -/
def freeAtEnd? (t : BlockTable) : Option Nat :=
  if t.size = 0 then some 0
  else match t.headEndingAt? (t.size - 1) with
    | some head => Size.sub? t.size head
    | none => some 0

/-! ## Lists of free runs -/

/-- Changes the back link of a free run. -/
def setPrev? (t : BlockTable) (block : Nat) (prev : Option Nat) : Option BlockTable :=
  match t.get? block with
  | some (.free size next _) => t.set? block (.free size next prev)
  | some _ => some t
  | none => none

/-- Changes the forward link of a free run. -/
def setNext? (t : BlockTable) (block : Nat) (next : Option Nat) : Option BlockTable :=
  match t.get? block with
  | some (.free size _ prev) => t.set? block (.free size next prev)
  | some _ => some t
  | none => none

/-- Writes the entries at the two ends of a free run and puts the run first in its bin. -/
def enlist? (t : BlockTable) (head size : Nat) : Option BlockTable := do
  let bin ← bin? size
  let next := t.binHead bin
  let t ← match next with
    | some n => t.setPrev? n (some head)
    | none => some t
  let t ← t.set? head (.free size next none)
  let t ← if 1 < size then t.set? (head + size - 1) (.freeTail head) else some t
  some (t.setBinHead bin (some head))

/-- Takes a free run out of its bin and answers its size. Its entries stay as they are. -/
def delist? (t : BlockTable) (head : Nat) : Option (Nat × BlockTable) := do
  match t.get? head with
  | some (.free size next prev) =>
    let t ← match prev with
      | some p => t.setNext? p next
      | none => (bin? size).map fun bin => t.setBinHead bin next
    let t ← match next with
      | some n => t.setPrev? n prev
      | none => some t
    some (size, t)
  | _ => none

/-- Rebuilds a table from its entries. The links that they hold are replaced by new ones: each free
run is put first in its bin, in the order of addresses. -/
def ofEntries? (entries : Array Entry) : Option BlockTable := do
  let t : BlockTable := ⟨entries, emptyBins⟩
  (← t.freeRuns?).foldlM (fun t (head, size) => t.enlist? head size) t

/-! ## Taking and giving back -/

/-- Writes `entry 0`, `entry 1` and so on into `count` entries from `start` on. -/
def overwrite (entries : Array Entry) (start count : Nat) (entry : Nat → Entry) : Array Entry :=
  count.fold (fun i _ es => es.setIfInBounds (start + i) (entry i)) entries

@[simp] theorem size_overwrite (entries : Array Entry) (start count : Nat) (entry : Nat → Entry) :
    (overwrite entries start count entry).size = entries.size := by
  unfold overwrite
  induction count with
  | zero => rfl
  | succ n ih => rw [Nat.fold_succ, Array.size_setIfInBounds, ih]

theorem getElem?_overwrite (entries : Array Entry) (start count : Nat) (entry : Nat → Entry)
    (i : Nat) :
    (overwrite entries start count entry)[i]? =
      if start ≤ i ∧ i < start + count ∧ i < entries.size then some (entry (i - start))
      else entries[i]? := by
  induction count with
  | zero => rw [overwrite, Nat.fold_zero, if_neg (by omega)]
  | succ n ih =>
    have hn : overwrite entries start (n + 1) entry =
        (overwrite entries start n entry).setIfInBounds (start + n) (entry n) := Nat.fold_succ ..
    rw [hn, Array.getElem?_setIfInBounds, size_overwrite, ih]
    by_cases hi : start + n = i
    · subst hi
      by_cases hs : start + n < entries.size
      · rw [if_pos rfl, if_pos hs, if_pos (by omega), Nat.add_sub_cancel_left]
      · rw [if_pos rfl, if_neg hs, if_neg (by omega), Array.getElem?_eq_none (by omega)]
    · rw [if_neg hi]
      by_cases h : start ≤ i ∧ i < start + n ∧ i < entries.size
      · rw [if_pos h, if_pos (by omega)]
      · rw [if_neg h, if_neg (by omega)]

/-- Writes the entries of a busy run. -/
def writeRun? (t : BlockTable) (head length : Nat) : Option BlockTable :=
  if head < t.size ∧ head + length ≤ t.size then
    some { t with
      entries := overwrite (t.entries.setIfInBounds head (.run length)) (head + 1) (length - 1)
        fun i => .runBody (i + 1) }
  else none

/-- Makes the free run that ends before `start` one with the `count` blocks from there on. Answers
the first block and the size of the two together. -/
def mergeBefore? (t : BlockTable) (start count : Nat) : Option ((Nat × Nat) × BlockTable) :=
  match if start = 0 then none else t.headEndingAt? (start - 1) with
  | none => some ((start, count), t)
  | some head => do
    let (size, t) ← t.delist? head
    let t ← t.set? (start - 1) .freeBody
    some ((head, count + size), t)

/-- Makes the free run that starts at `stop` one with the `count` blocks before it. Answers the size
of the two together. -/
def mergeAfter? (t : BlockTable) (stop count : Nat) : Option (Nat × BlockTable) :=
  if (t.get? stop).any Entry.isFreeHead then do
    let (size, t) ← t.delist? stop
    let t ← t.set? stop .freeBody
    some (count + size, t)
  else some (count, t)

/-- Makes `count` blocks free, merged with the free runs before and after them, and answers the
first block and the size of the free run that they are then part of. -/
def giveBack? (t : BlockTable) (start count : Nat) : Option ((Nat × Nat) × BlockTable) := do
  if count = 0 ∨ t.size < start + count then none
  else
    let t := { t with entries := overwrite t.entries start count fun _ => .freeBody }
    let ((head, size), t) ← t.mergeBefore? start count
    let (size, t) ← t.mergeAfter? (start + count) size
    let t ← t.enlist? head size
    some ((head, size), t)

/-- The first run of at least `count` blocks on a list of free runs. A list that does not end within
`fuel` steps is no list. -/
def firstFit? (t : BlockTable) (count : Nat) : (fuel : Nat) → Option Nat → Option (Option Nat)
  | _, none => some none
  | 0, some _ => none
  | fuel + 1, some head =>
    match t.get? head with
    | some (.free size next _) =>
      if count ≤ size then some (some head) else firstFit? t count fuel next
    | _ => none

/-- The first free run of a bin behind `bin`. -/
def firstBehind (t : BlockTable) (bin : Nat) : Option Nat :=
  (t.bins.toList.drop (bin + 1)).findSome? id

/-- Makes the lower `count` blocks of a free run busy. -/
def split? (t : BlockTable) (head count : Nat) : Option BlockTable := do
  let (size, t) ← t.delist? head
  let t ← if count < size then t.enlist? (head + count) (size - count) else some t
  t.writeRun? head count

/-- Makes `count` contiguous free blocks one busy run and answers its first block, if a free run is
long enough. The bin of `count` is searched for the first run that fits; every run of a later bin
fits, so the first of those is taken. -/
def claim? (t : BlockTable) (count : Nat) : Option (Option Nat × BlockTable) := do
  let bin ← bin? count
  let fitting ← t.firstFit? count t.size (t.binHead bin)
  match fitting.orElse fun _ => t.firstBehind bin with
  | some head => (t.split? head count).map (some head, ·)
  | none => some (none, t)

/-! ## Growing and shrinking -/

/-- No table has more entries: one takes 40 bytes, and the host holds no table of `2 ^ 63` bytes. -/
def maxEntries : Nat := ((1 <<< 63) - 1) / 40

/-- Appends `count` free blocks. -/
def append? (t : BlockTable) (count : Nat) : Option ((Nat × Nat) × BlockTable) :=
  if maxEntries < t.size + count then none
  else
    { t with entries := t.entries ++ Array.replicate count Entry.freeBody }.giveBack? t.size count

/-- Drops `count` blocks from the end. Refuses, answering `false`, unless all of them are free. -/
def cutTail? (t : BlockTable) (count : Nat) : Option (Bool × BlockTable) := do
  if count = 0 then some (true, t)
  else if (← t.freeAtEnd?) < count then some (false, t)
  else
    match t.headEndingAt? (t.size - 1) with
    | none => some (false, t)
    | some head =>
      let kept := t.size - count
      let (size, t) ← t.delist? head
      let t := { t with entries := t.entries.take kept }
      let t ← if count < size then t.enlist? head (size - count) else some t
      some (true, t)

/-- Extends the busy run at `head` from `length` to `want` blocks into the free run behind it.
Refuses, answering `false`, if that run is missing or too short. -/
def lengthen? (t : BlockTable) (head length want : Nat) : Option (Bool × BlockTable) := do
  let next ← Size.add? head length
  let extra ← Size.sub? want length
  let available := match t.get? next with
    | some (.free size _ _) => size
    | _ => 0
  if available < extra then some (false, t)
  else
    let (size, t) ← t.delist? next
    let t ← if extra < size then t.enlist? (next + extra) (size - extra) else some t
    some (true, ← t.writeRun? head want)

/-- Cuts the busy run at `head` from `length` down to `want` blocks. -/
def shorten? (t : BlockTable) (head length want : Nat) : Option BlockTable := do
  if want = 0 ∨ length ≤ want then none
  else
    let t ← t.set? head (.run want)
    let (_, t) ← t.giveBack? (head + want) (length - want)
    some t

/-- Writes the entry of a block in use. -/
def setBusy? (t : BlockTable) (block : Nat) (e : Entry) : Option BlockTable :=
  if e.isFree then none else t.set? block e

/-! ## Text -/

def text? (t : BlockTable) : Option String :=
  t.runs?.map fun runs =>
    "InfoTable(" ++ ", ".intercalate (runs.map fun (block, e) => e.runText block) ++ ")"

end BlockTable

end RegionHeap
