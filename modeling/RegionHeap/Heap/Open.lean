import RegionHeap.Heap.Defects
import RegionHeap.Image.Load
import RegionHeap.Image.Save

/-!
Opening heaps: a new one on an empty region, or the one that a region already holds. When opening
fails, the region comes back as it was left.
-/
namespace RegionHeap

/-- Why a region was not opened, with the region. -/
structure Rejection where
  failure : Failure
  region : Region

namespace Heap

open HeapM

def resizeRegion (bytes : Nat) : HeapM Unit := do
  let h ← get
  match h.region.resize bytes with
  | .ok region => set { h with region }
  | .error e => refuse (.region e)

/-- A heap whose region has no arena yet. -/
def blank (g : Geometry) (arenaStart : Nat) (region : Region) : Heap where
  region := region
  blockLog2 := g.blockLog2
  arenaStart := arenaStart
  maxBlocks := g.maxBlocks
  floor := g.initialBlocks
  table := .empty
  freeLists := Array.replicate g.blockLog2 none
  busy := .empty
  aligned := .empty g.maxAligned
  names := .empty g.maxNames

/-- Gives a blank heap its first blocks and saves it. -/
def layOut (initialBlocks : Nat) : HeapM Unit := do
  resizeRegion (← get).arenaStart
  grow initialBlocks
  sync

/-- Lays out a new heap on a region. -/
def create (host : Host) (g : Geometry) (region : Region) : Except Rejection Heap :=
  match g.arenaStart host with
  | .error failure => .error ⟨failure, region⟩
  | .ok arenaStart =>
    match layOut g.initialBlocks (blank g arenaStart region) with
    | .ok () h => .ok h
    | .error failure h => .error ⟨failure, h.region⟩

/-- Refuses a heap that has defects. -/
def checked (h : Heap) : Except Rejection Heap :=
  match h.defects? with
  | none => .error ⟨.trap, h.region⟩
  | some d =>
    if d.areNone then .ok h else .error ⟨.refused (.corrupt .inconsistent), h.region⟩

/-- Loads the heap that a region holds. Blocks behind the arena that the image describes are handed
back. -/
def load (region : Region) : Except Rejection Heap :=
  match Image.read region with
  | .error failure => .error ⟨failure, region⟩
  | .ok (contents, bytes) =>
    match if bytes < region.size then region.resize bytes else .ok region with
    | .error e => .error ⟨.refused (.region e), region⟩
    | .ok region =>
      match contents.heap? region with
      | none => .error ⟨.trap, region⟩
      | some h => h.checked

/-- Creates a heap on an empty region, and loads the one in a region that is not empty. -/
def mount (host : Host) (g : Geometry) (region : Region) : Except Rejection Heap :=
  if region.size = 0 then create host g region else load region

end Heap

end RegionHeap
