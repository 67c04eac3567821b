import RegionHeap.Blocks.Table

/-!
The defects of a block table, counted by kind. A table without defects is tiled by its runs, and its
bins list exactly its free runs.
-/
namespace RegionHeap

structure Defects where
  /-- Free runs that directly follow another free run. -/
  adjacents : Nat := 0
  /-- Runs that start with an inner block. -/
  misplaced : Nat := 0
  /-- Free runs whose last block does not lead back to the first, empty busy runs, and busy runs
  with a later block of another distance. -/
  brokenTags : Nat := 0
  /-- Free runs that no bin lists, and listed blocks that start no free run of the bin's size. -/
  unbinned : Nat := 0
  /-- Disagreements between fragment lists, busy maps and the table. -/
  fragments : Nat := 0
  deriving DecidableEq, Repr

/-- Whether there are no defects of any kind. -/
def Defects.areNone (d : Defects) : Bool := d == {}

namespace BlockTable

/-- Neighbours that are both free runs. -/
def adjacentFree : List (Nat × Entry) → Nat
  | (_, e) :: (block, f) :: rest =>
    (if e.isFreeHead && f.isFreeHead then 1 else 0) + adjacentFree ((block, f) :: rest)
  | _ => 0

/-- Whether the last block of a free run leads back to the first. -/
def tailOk? (t : BlockTable) (block size : Nat) : Option Bool :=
  if size = 1 then some true
  else (Size.sub? (block + size) 1).map fun last => t.get? last == some (.freeTail block)

/-- Whether every later block of a busy run holds its distance from the first. -/
def bodiesOk (t : BlockTable) (block length : Nat) : Bool :=
  0 < length && block + length ≤ t.size &&
    (List.range (length - 1)).all fun i => t.get? (block + (i + 1)) == some (.runBody (i + 1))

/-- Whether the inner blocks of a run are in order. -/
def tagsOk? (t : BlockTable) : Nat × Entry → Option Bool
  | (block, .free size _ _) => t.tailOk? block size
  | (block, .run length) => some (t.bodiesOk block length)
  | _ => some true

/-- Follows a list of free runs and answers how many it holds and how many defects it has, added to
those `met` before. The walk ends after `fuel` steps, so that a cycle cannot hold it. -/
def walkBin? (t : BlockTable) (bin : Nat) :
    (fuel : Nat) → (cursor : Option Nat) → (met : Nat × Nat) → Option (Nat × Nat)
  | _, none, met => some met
  | 0, some _, (members, defects) => some (members, defects + 1)
  | fuel + 1, some head, (members, defects) =>
    match t.get? head with
    | some (.free size next _) =>
      match bin? size with
      | none => none
      | some home =>
        walkBin? t bin fuel next (members + 1, if home = bin then defects else defects + 1)
    | _ => some (members, defects + 1)

/-- The distance between two numbers. -/
def gap (a b : Nat) : Nat := (a - b) + (b - a)

def defects? (t : BlockTable) : Option Defects := do
  let runs ← t.runs?
  let tags ← runs.mapM t.tagsOk?
  let walks ← (List.range binCount).mapM fun bin => t.walkBin? bin t.size (t.binHead bin) (0, 0)
  let listed := Size.total (walks.map Prod.fst)
  let free := runs.countP fun (_, e) => e.isFreeHead
  some {
    adjacents := adjacentFree runs
    misplaced := runs.countP fun (_, e) => e.isInner
    brokenTags := tags.countP fun ok => !ok
    unbinned := Size.total (walks.map Prod.snd) + gap free listed }

end BlockTable

end RegionHeap
