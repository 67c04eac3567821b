import RegionHeap.Heap.Basic

/-!
How much of a heap is used. A chunk is a free run, a busy run or a fragmented block. Bytes are
counted inside fragmented blocks, so that a free fragment counts as free.
-/
namespace RegionHeap

structure Usage where
  bytesTotal : Nat := 0
  chunksUsed : Nat := 0
  bytesUsed : Nat := 0
  chunksFree : Nat := 0
  bytesFree : Nat := 0
  fragmentsUsed : Nat := 0
  fragmentsFree : Nat := 0
  namedObjects : Nat := 0
  deriving DecidableEq, Repr

namespace Usage

/-- Adds a run, given its entry and the logarithm of the block size. -/
def addRun? (blockLog2 : Nat) (u : Usage) : Entry → Option Usage
  | .free size _ _ => do
    let bytes ← Size.shiftLeft? size blockLog2
    some { u with
      chunksFree := ← Size.add? u.chunksFree 1
      bytesFree := ← Size.add? u.bytesFree bytes }
  | .run length => do
    let bytes ← Size.shiftLeft? length blockLog2
    some { u with
      chunksUsed := ← Size.add? u.chunksUsed 1
      bytesUsed := ← Size.add? u.bytesUsed bytes }
  | .fragmented log2 nfree => do
    let busy ← Size.sub? (← fragmentsIn? blockLog2 log2) nfree
    let bytesBusy ← Size.shiftLeft? busy log2
    let bytesFree ← Size.shiftLeft? nfree log2
    some { u with
      chunksUsed := ← Size.add? u.chunksUsed 1
      fragmentsUsed := ← Size.add? u.fragmentsUsed busy
      fragmentsFree := ← Size.add? u.fragmentsFree nfree
      bytesUsed := ← Size.add? u.bytesUsed bytesBusy
      bytesFree := ← Size.add? u.bytesFree bytesFree }
  | _ => some u

def text (u : Usage) : String :=
  s!"{u.bytesTotal} bytes: {u.bytesUsed} used in {u.chunksUsed} chunks " ++
  s!"({u.fragmentsUsed} fragments), {u.bytesFree} free in {u.chunksFree} chunks " ++
  s!"({u.fragmentsFree} fragments), {u.namedObjects} named"

end Usage

def Heap.usage? (h : Heap) : Option Usage := do
  let bytesTotal ← Size.shiftLeft? h.blockCount h.blockLog2
  let runs ← h.table.runs?
  runs.foldlM (fun u (_, e) => u.addRun? h.blockLog2 e) { bytesTotal, namedObjects := h.names.size }

end RegionHeap
