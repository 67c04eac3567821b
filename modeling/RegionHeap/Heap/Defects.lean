import RegionHeap.Heap.Fragments

/-!
The defects of a heap: those of its block table, and where its fragment lists, its busy maps and the
free counts in the table disagree.
-/
namespace RegionHeap.Heap

/-- Whether a fragmented block has a size and a free count that fit its heap. -/
def isSaneCut (h : Heap) (log2 nfree : Nat) : Bool :=
  minFragmentLog2 ≤ log2 && log2 < h.blockLog2 && nfree < h.fragmentsPerBlock log2

/-- Whether the busy map of a block has just the fragments that the table counts as busy. -/
def mapAgrees (h : Heap) (block log2 nfree : Nat) : Bool :=
  BusyMaps.count? h.busy block == some (h.fragmentsPerBlock log2 - nfree) &&
    !BusyMaps.reaches h.busy block (h.fragmentsPerBlock log2)

/-- Whether a run is a fragmented block that its busy map or its own entry is at odds with. -/
def isCutDefect (h : Heap) : Nat × Entry → Bool
  | (block, .fragmented log2 nfree) => !(h.isSaneCut log2 nfree && h.mapAgrees block log2 nfree)
  | _ => false

def isCut : Nat × Entry → Bool
  | (_, .fragmented ..) => true
  | _ => false

/-- Free fragments of one size that a run counts. -/
def listedBy (h : Heap) (log2 : Nat) : Nat × Entry → Nat
  | (_, .fragmented size nfree) => if size = log2 ∧ h.isSaneCut size nfree then nfree else 0
  | _ => 0

/-- Whether a free fragment of a size can lie at an offset. -/
def canHoldFragment (h : Heap) (log2 offset : Nat) : Bool :=
  offset + 16 < Size.limit && h.arenaStart + offset + 16 ≤ h.region.size &&
    offset % fragmentSize log2 == 0 &&
    match h.table.get? (h.blockOf offset) with
    | some (.fragmented size _) => size == log2
    | _ => false

/-- Follows a list of free fragments and answers how many it holds and how many defects it has,
added to those `met` before. No list is followed past the `fuel` fragments that the table counts. -/
def walkFragments? (h : Heap) (log2 : Nat) :
    (fuel : Nat) → (previous cursor : Option Nat) → (met : Nat × Nat) → Option (Nat × Nat)
  | _, _, none, met => some met
  | 0, _, some _, (found, defects) => some (found, defects + 1)
  | fuel + 1, previous, some offset, (found, defects) =>
    if h.canHoldFragment log2 offset then
      match h.linksAt? offset with
      | none => none
      | some (next, prev) =>
        let busy := if h.isLiveFragment (h.blockOf offset) offset log2 then 1 else 0
        let back := if prev = previous then 0 else 1
        walkFragments? h log2 fuel (some offset) next (found + 1, defects + busy + back)
    else some (found, defects + 1)

/-- The defects of the list for one size. -/
def listDefects? (h : Heap) (runs : List (Nat × Entry)) (log2 : Nat) : Option Nat := do
  let expected := Size.total (runs.map (h.listedBy log2))
  let (found, defects) ← h.walkFragments? log2 expected none h.freeLists[log2]?.join (0, 0)
  some (if found = expected then defects else defects + 1)

def defects? (h : Heap) : Option Defects := do
  let d ← h.table.defects?
  let runs ← h.table.runs?
  let _ ← h.arenaSize?
  let lists ← (List.range h.freeLists.size).mapM (h.listDefects? runs)
  some { d with
    fragments := runs.countP h.isCutDefect +
      (if h.busy.size = runs.countP isCut then 0 else 1) + Size.total lists }

end RegionHeap.Heap
