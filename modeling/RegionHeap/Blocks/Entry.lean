/-!
What a block table records about one block of an arena. Blocks form runs: a free run, a busy run, or
one block that is cut into fragments.
-/
namespace RegionHeap

inductive Entry where
  /-- The first block of a free run of `size` blocks, linked to other free runs of like size. -/
  | free (size : Nat) (next prev : Option Nat)
  /-- The last block of a free run of two or more, with the first block of the run. -/
  | freeTail (head : Nat)
  /-- A block between the first and the last of a free run. -/
  | freeBody
  /-- The first block of a busy run. -/
  | run (length : Nat)
  /-- A later block of a busy run, `offset` blocks after the first. -/
  | runBody (offset : Nat)
  /-- A block cut into fragments of `2 ^ log2` bytes, `nfree` of which are free. -/
  | fragmented (log2 nfree : Nat)
  deriving DecidableEq, Repr

namespace Entry

instance : Inhabited Entry := ⟨freeBody⟩

/-- Whether the block lies in a free run. -/
def isFree : Entry → Bool
  | free .. | freeTail _ | freeBody => true
  | run _ | runBody _ | fragmented .. => false

/-- Whether the block starts a free run. -/
def isFreeHead : Entry → Bool
  | free .. => true
  | _ => false

/-- Whether the block can only stand behind the first of its run. -/
def isInner : Entry → Bool
  | freeTail _ | freeBody | runBody _ => true
  | free .. | run _ | fragmented .. => false

/-- Blocks from this one to the start of the next run; an inner block counts for itself. -/
def step : Entry → Nat
  | free size _ _ => max size 1
  | run length => max length 1
  | _ => 1

theorem one_le_step (e : Entry) : 1 ≤ e.step := by
  cases e <;> simp only [step] <;> omega

/-- How an inner block is printed. -/
def innerText : Entry → String
  | freeTail head => s!"FreeTail \x7b head: {head} \x7d"
  | runBody offset => s!"RunBody \x7b offset: {offset} \x7d"
  | _ => "FreeBody"

/-- How the run that starts at `block` with this entry is printed. -/
def runText (block : Nat) : Entry → String
  | free size _ _ => s!"Free({block}, {size})"
  | run length => s!"Run({block}, {length})"
  | fragmented log2 nfree => s!"Frag({block}, 2^{log2}, {nfree} free)"
  | e => s!"Broken({block}, {e.innerText})"

end Entry

end RegionHeap
