import RegionHeap.Heap.Objects
import RegionHeap.Image.Save
import RegionHeap.Proofs.AlignmentTable
import RegionHeap.Proofs.Blocks.Gaps
import RegionHeap.Proofs.Fragments.Bits
import RegionHeap.Proofs.Heap.FragmentLists
import RegionHeap.Proofs.Registry

/-!
The invariant of heaps. `objectAt` says which offsets start a live object and how long it is, and
`freeFragment` which start a free fragment; both are read off the block table and the busy maps. In
a well-formed heap the fragment lists hold just the free fragments, and every offset of the arena
lies in at most one object (`extentOf_eq_ok_iff`).
-/
namespace RegionHeap

/-! ## What no operation changes -/

/-- What stays the same as long as a heap is open. -/
structure Frame where
  blockLog2 : Nat
  arenaStart : Nat
  maxBlocks : Nat
  nameCapacity : Nat
  recordCapacity : Nat
  regionCapacity : Nat
  refusals : Option Refusals

/-- The largest arena ends within the range of sizes. -/
def Frame.Roomy (f : Frame) : Prop := f.arenaStart + f.maxBlocks * 1 <<< f.blockLog2 < Size.limit

namespace Heap

def frame (h : Heap) : Frame where
  blockLog2 := h.blockLog2
  arenaStart := h.arenaStart
  maxBlocks := h.maxBlocks
  nameCapacity := h.names.capacity
  recordCapacity := h.aligned.capacity
  regionCapacity := h.region.capacity
  refusals := h.region.refusals

variable {h h' : Heap}

/-! ## Objects and free fragments -/

/-- The length of the busy run that starts at a block. -/
def runLength? (h : Heap) (block : Nat) : Option Nat :=
  match h.table.get? block with
  | some (.run length) => some length
  | _ => none

/-- The fragment size of a block that is cut into fragments, by its logarithm. -/
def cutLog2? (h : Heap) (block : Nat) : Option Nat :=
  match h.table.get? block with
  | some (.fragmented log2 _) => some log2
  | _ => none

/-- The length of the live object that starts at an offset. -/
def objectAt (h : Heap) (start : Nat) : Option Nat :=
  match h.cutLog2? (h.blockOf start) with
  | some log2 =>
    if start % fragmentSize log2 = 0 ∧ h.isLiveFragment (h.blockOf start) start log2 = true
    then some (fragmentSize log2) else none
  | none =>
    if start % h.blockSize = 0
    then (h.runLength? (h.blockOf start)).map (· * h.blockSize) else none

/-- The size of the free fragment that starts at an offset, by its logarithm. -/
def freeFragment (h : Heap) (offset : Nat) : Option Nat :=
  (h.cutLog2? (h.blockOf offset)).filter fun log2 =>
    offset % fragmentSize log2 == 0 && !h.isLiveFragment (h.blockOf offset) offset log2

/-- A block cut into fragments has a map with just the fragments that the table counts as busy, and
at least one of them is. -/
structure CutOk (h : Heap) (block log2 nfree : Nat) : Prop where
  min_le : minFragmentLog2 ≤ log2
  lt_block : log2 < h.blockLog2
  some_busy : nfree < h.fragmentsPerBlock log2
  map : ∃ m, h.busy.find? block = some m ∧
    m.size = BusyMap.wordsFor (h.fragmentsPerBlock log2) ∧
    (∀ i, h.fragmentsPerBlock log2 ≤ i → m.isBusy i = false) ∧
    m.count + nfree = h.fragmentsPerBlock log2

/-- The invariant of an open heap. -/
structure WellFormed (h : Heap) : Prop where
  min_block : Geometry.minBlockLog2 ≤ h.blockLog2
  max_block : h.blockLog2 ≤ Geometry.maxBlockLog2
  laidOut : ∃ runs, h.table.LaidOut runs
  cuts : ∀ block log2 nfree, h.table.get? block = some (.fragmented log2 nfree) →
    h.CutOk block log2 nfree
  maps : ∀ block m, h.busy.find? block = some m → ∃ log2, h.cutLog2? block = some log2
  heads : h.freeLists.size = h.blockLog2
  lists : h.Lists h.freeFragment
  size_eq : h.region.size = h.arenaStart + h.blockCount * h.blockSize
  small : h.region.size < Size.limit
  floor_le : h.floor ≤ h.blockCount
  count_le : h.blockCount ≤ h.maxBlocks
  tables : ∃ t, h.tables? = some (some t) ∧ t.stop ≤ h.arenaStart
  names : h.names.Sound
  records : h.aligned.Sound

/-! ## Blocks and offsets -/

theorem blockSize_pos (h : Heap) : 0 < h.blockSize := one_shiftLeft_pos _

/-- The fragments of a block fill it. -/
theorem fragments_fill {log2 : Nat} (hlt : log2 ≤ h.blockLog2) :
    h.fragmentsPerBlock log2 * fragmentSize log2 = h.blockSize := by
  rw [fragmentsPerBlock, fragmentSize, blockSize, Nat.one_shiftLeft, Nat.one_shiftLeft,
    Nat.one_shiftLeft, ← Nat.pow_add, Nat.sub_add_cancel hlt]

theorem blockOf_add {block i : Nat} (hi : i < h.blockSize) :
    h.blockOf (h.blockStart block + i) = block := by
  rw [blockOf_eq, blockStart, Nat.mul_comm, Nat.mul_add_div h.blockSize_pos, Nat.div_eq_of_lt hi,
    Nat.add_zero]

theorem blockOf_blockStart (block : Nat) : h.blockOf (h.blockStart block) = block := by
  have : h.blockOf (h.blockStart block + 0) = block := blockOf_add h.blockSize_pos
  rwa [Nat.add_zero] at this

theorem blockStart_mod (block : Nat) : h.blockStart block % h.blockSize = 0 := by
  rw [blockStart, Nat.mul_mod_left]

/-- An offset is its block's start and the rest. -/
theorem blockStart_blockOf (offset : Nat) :
    h.blockStart (h.blockOf offset) + offset % h.blockSize = offset := by
  rw [blockOf_eq, blockStart, Nat.div_add_mod']

/-- The start of a block is the only offset in it on a block's boundary. -/
theorem eq_blockStart {start block : Nat} (hb : h.blockOf start = block)
    (hal : start % h.blockSize = 0) : start = h.blockStart block := by
  have := blockStart_blockOf (h := h) start
  rw [hb, hal] at this
  exact this.symm

theorem blockOf_lt_iff {offset n : Nat} : h.blockOf offset < n ↔ offset < n * h.blockSize := by
  rw [blockOf_eq, Nat.div_lt_iff_lt_mul h.blockSize_pos]

/-- An offset lies in a row of blocks exactly if its block is one of them. -/
theorem blockOf_mem_iff {block n offset : Nat} :
    (block ≤ h.blockOf offset ∧ h.blockOf offset < block + n) ↔
      h.blockStart block ≤ offset ∧ offset < h.blockStart block + n * h.blockSize := by
  rw [blockOf_lt_iff, blockOf_eq, Nat.le_div_iff_mul_le h.blockSize_pos, Nat.add_mul, blockStart]

/-- All bytes of a fragment lie in one block. -/
theorem blockOf_fragment {log2 start i : Nat} (hlt : log2 ≤ h.blockLog2)
    (hal : start % fragmentSize log2 = 0) (hi : i < fragmentSize log2) :
    h.blockOf (start + i) = h.blockOf start := by
  rw [blockOf_eq, blockOf_eq, ← fragments_fill hlt, Nat.mul_comm, ← Nat.div_div_eq_div_mul,
    ← Nat.div_div_eq_div_mul]
  congr 1
  obtain ⟨q, rfl⟩ := Nat.dvd_of_mod_eq_zero hal
  rw [Nat.mul_add_div (fragmentSize_pos log2), Nat.div_eq_of_lt hi, Nat.add_zero,
    Nat.mul_div_cancel_left _ (fragmentSize_pos log2)]

theorem roundDown_fragment {log2 start i : Nat} (hal : start % fragmentSize log2 = 0)
    (hi : i < fragmentSize log2) : Size.roundDown (start + i) (fragmentSize log2) = start := by
  obtain ⟨q, rfl⟩ := Nat.dvd_of_mod_eq_zero hal
  rw [Size.roundDown, Nat.mul_add_mod, Nat.mod_eq_of_lt hi]
  omega

/-- An offset lies in the fragment that it is rounded down to, in the same block. -/
theorem roundDown_bounds {log2 : Nat} (hlt : log2 ≤ h.blockLog2) (offset : Nat) :
    Size.roundDown offset (fragmentSize log2) % fragmentSize log2 = 0 ∧
      h.blockOf (Size.roundDown offset (fragmentSize log2)) = h.blockOf offset ∧
      Size.roundDown offset (fragmentSize log2) ≤ offset ∧
      offset < Size.roundDown offset (fragmentSize log2) + fragmentSize log2 := by
  have hle := Size.roundDown_le offset (fragmentSize log2)
  have hlast := Size.lt_roundDown_add offset (fragmentSize_pos log2)
  have hal : Size.roundDown offset (fragmentSize log2) % fragmentSize log2 = 0 :=
    Nat.mod_eq_zero_of_dvd (Size.dvd_roundDown _ _)
  have hblock := blockOf_fragment (h := h) hlt hal
    (i := offset - Size.roundDown offset (fragmentSize log2)) (by omega)
  rw [Nat.add_sub_cancel' hle] at hblock
  exact ⟨hal, hblock.symm, hle, hlast⟩

/-! ## Reading the table -/

theorem cutLog2?_eq_some {block log2 : Nat} :
    h.cutLog2? block = some log2 ↔ ∃ nfree, h.table.get? block = some (.fragmented log2 nfree) := by
  rw [cutLog2?]
  split <;> simp_all

theorem runLength?_eq_some {block length : Nat} :
    h.runLength? block = some length ↔ h.table.get? block = some (.run length) := by
  rw [runLength?]
  split <;> simp_all

/-- Blocks in use read alike in tables that have the same blocks in use. -/
theorem cutLog2?_congr (h h' : Heap) {block : Nat} (hu : h'.table.inUse? block = h.table.inUse? block) :
    h'.cutLog2? block = h.cutLog2? block := by
  have (h : Heap) : h.cutLog2? block = match h.table.inUse? block with
      | some (.fragmented log2 _) => some log2
      | _ => none := by
    rw [cutLog2?, BlockTable.inUse?]
    cases h.table.get? block with
    | none => rfl
    | some e => cases e <;> rfl
  rw [this, this, hu]

theorem runLength?_congr (h h' : Heap) {block : Nat} (hu : h'.table.inUse? block = h.table.inUse? block) :
    h'.runLength? block = h.runLength? block := by
  have (h : Heap) : h.runLength? block = match h.table.inUse? block with
      | some (.run length) => some length
      | _ => none := by
    rw [runLength?, BlockTable.inUse?]
    cases h.table.get? block with
    | none => rfl
    | some e => cases e <;> rfl
  rw [this, this, hu]

theorem isLiveFragment_congr (h h' : Heap) {block : Nat} (hlog : h'.blockLog2 = h.blockLog2)
    (hb : h'.busy.find? block = h.busy.find? block) (offset log2 : Nat) :
    h'.isLiveFragment block offset log2 = h.isLiveFragment block offset log2 := by
  rw [isLiveFragment, isLiveFragment, BusyMaps.isBusy, BusyMaps.isBusy, hb, indexInBlock, indexInBlock,
    blockSize, blockSize, hlog]

/-- Sizes that are in range can be shifted by. -/
theorem indexInBlock?_eq {log2 : Nat} (hlt : log2 < 64) (offset : Nat) :
    h.indexInBlock? offset log2 = some (h.indexInBlock offset log2) := Size.shiftRight?_eq hlt

theorem isLiveFragment?_eq {log2 : Nat} (hlt : log2 < 64) (block offset : Nat) :
    h.isLiveFragment? block offset log2 = some (h.isLiveFragment block offset log2) := by
  rw [isLiveFragment?, indexInBlock?_eq hlt]
  rfl

theorem isLiveFragment?_eq_some {block offset log2 : Nat} {live : Bool}
    (hl : h.isLiveFragment? block offset log2 = some live) :
    live = h.isLiveFragment block offset log2 := by
  obtain ⟨index, hindex, rfl⟩ := Option.map_eq_some_iff.1 hl
  obtain rfl := Size.shiftRight?_eq_some hindex
  rfl

/-- In a cut block an offset leads to the fragment around it, if that is in use. -/
theorem extentOf_of_cut {offset log2 nfree : Nat}
    (hg : h.table.get? (h.blockOf offset) = some (.fragmented log2 nfree)) (hlt : log2 < 64) :
    h.extentOf offset =
      if h.isLiveFragment (h.blockOf offset) (Size.roundDown offset (fragmentSize log2)) log2 then
        .ok (Size.roundDown offset (fragmentSize log2), fragmentSize log2)
      else .error (.refused (.invalidPointer offset)) := by
  rw [extentOf, hg]
  simp only [Size.shiftLeft?_one hlt, isLiveFragment?_eq hlt]
  rw [fragmentSize]
  split <;> simp_all

/-- What starts at an offset depends on its own block only. -/
theorem objectAt_congr (h h' : Heap) (hb : h'.blockLog2 = h.blockLog2) {start : Nat}
    (hcut : h'.cutLog2? (h.blockOf start) = h.cutLog2? (h.blockOf start))
    (hrun : h'.runLength? (h.blockOf start) = h.runLength? (h.blockOf start))
    (hbusy : h'.busy.find? (h.blockOf start) = h.busy.find? (h.blockOf start)) :
    h'.objectAt start = h.objectAt start := by
  have hblock : h'.blockOf start = h.blockOf start := by rw [blockOf, blockOf, hb]
  have hsize : h'.blockSize = h.blockSize := by rw [blockSize, blockSize, hb]
  rw [objectAt, objectAt, hblock, hsize, hcut, hrun]
  simp only [isLiveFragment_congr h h' hb hbusy]

theorem freeFragment_congr (h h' : Heap) (hb : h'.blockLog2 = h.blockLog2) {start : Nat}
    (hcut : h'.cutLog2? (h.blockOf start) = h.cutLog2? (h.blockOf start))
    (hbusy : h'.busy.find? (h.blockOf start) = h.busy.find? (h.blockOf start)) :
    h'.freeFragment start = h.freeFragment start := by
  have hblock : h'.blockOf start = h.blockOf start := by rw [blockOf, blockOf, hb]
  rw [freeFragment, freeFragment, hblock, hcut]
  simp only [isLiveFragment_congr h h' hb hbusy]

theorem freeFragment_eq_some {offset log2 : Nat} :
    h.freeFragment offset = some log2 ↔ h.cutLog2? (h.blockOf offset) = some log2 ∧
      offset % fragmentSize log2 = 0 ∧
      h.isLiveFragment (h.blockOf offset) offset log2 = false := by
  simp [freeFragment, Option.filter_eq_some_iff]

/-- An object is a fragment that is in use or a whole busy run. -/
theorem objectAt_eq_some {start length : Nat} :
    h.objectAt start = some length ↔
      (∃ log2, h.cutLog2? (h.blockOf start) = some log2 ∧ start % fragmentSize log2 = 0 ∧
        h.isLiveFragment (h.blockOf start) start log2 = true ∧ length = fragmentSize log2) ∨
      ∃ n, h.runLength? (h.blockOf start) = some n ∧ start % h.blockSize = 0 ∧
        length = n * h.blockSize := by
  rw [objectAt]
  cases hc : h.cutLog2? (h.blockOf start) with
  | none =>
    simp only [Option.ite_none_right_eq_some, Option.map_eq_some_iff]
    constructor
    · rintro ⟨hal, n, hn, rfl⟩
      exact .inr ⟨n, hn, hal, rfl⟩
    · rintro (⟨_, h, -⟩ | ⟨n, hn, hal, rfl⟩)
      · cases h
      · exact ⟨hal, n, hn, rfl⟩
  | some log2 =>
    simp only [Option.ite_none_right_eq_some, Option.some.injEq]
    constructor
    · rintro ⟨⟨hal, hl⟩, rfl⟩
      exact .inl ⟨log2, rfl, hal, hl, rfl⟩
    · rintro (⟨_, rfl, hal, hl, rfl⟩ | ⟨n, hn, -, -⟩)
      · exact ⟨⟨hal, hl⟩, rfl⟩
      · obtain ⟨nfree, hg⟩ := cutLog2?_eq_some.1 hc
        rw [runLength?_eq_some.1 hn] at hg
        cases hg

/-- A busy run is an object. -/
theorem objectAt_of_run {block n : Nat} (hr : h.runLength? block = some n) :
    h.objectAt (h.blockStart block) = some (n * h.blockSize) :=
  objectAt_eq_some.2 (.inr ⟨n, by rw [blockOf_blockStart]; exact hr, blockStart_mod block, rfl⟩)

namespace WellFormed

variable (w : h.WellFormed)
include w

theorem cutOk {block log2 : Nat} (hc : h.cutLog2? block = some log2) :
    ∃ nfree, h.table.get? block = some (.fragmented log2 nfree) ∧ h.CutOk block log2 nfree := by
  obtain ⟨nfree, hg⟩ := cutLog2?_eq_some.1 hc
  exact ⟨nfree, hg, w.cuts _ _ _ hg⟩

theorem cut_bounds {block log2 : Nat} (hc : h.cutLog2? block = some log2) :
    minFragmentLog2 ≤ log2 ∧ log2 < h.blockLog2 ∧ block < h.blockCount := by
  obtain ⟨nfree, hg, hok⟩ := w.cutOk hc
  exact ⟨hok.min_le, hok.lt_block, BlockTable.lt_size_of_get? hg⟩

theorem blockLog2_lt : h.blockLog2 < 64 := Nat.lt_of_le_of_lt w.max_block (by decide)

/-- Whatever is computed of a fragment's size stays in range. -/
theorem cut_lt {block log2 : Nat} (hc : h.cutLog2? block = some log2) : log2 < 64 :=
  Nat.lt_trans (w.cut_bounds hc).2.1 w.blockLog2_lt

theorem fragmentsIn?_eq {log2 : Nat} (hlt : log2 < h.blockLog2) :
    fragmentsIn? h.blockLog2 log2 = some (h.fragmentsPerBlock log2) :=
  RegionHeap.fragmentsIn?_eq (Nat.le_of_lt hlt) w.blockLog2_lt

/-- The free count of a block stays in range. -/
theorem nfree_lt {block log2 nfree : Nat} (hg : h.table.get? block = some (.fragmented log2 nfree)) :
    nfree + 1 < Size.limit := by
  have hsome := (w.cuts _ _ _ hg).some_busy
  have hle : h.fragmentsPerBlock log2 ≤ 1 <<< Geometry.maxBlockLog2 :=
    one_shiftLeft_le (Nat.le_trans (Nat.sub_le _ _) w.max_block)
  simp only [Geometry.maxBlockLog2, Size.limit] at *
  omega

theorem run_bounds {block n : Nat} (hr : h.runLength? block = some n) :
    0 < n ∧ block + n ≤ h.blockCount := by
  obtain ⟨runs, hl⟩ := w.laidOut
  obtain ⟨h0, h1, -⟩ := hl.toTiled.bodies (runLength?_eq_some.1 hr)
  exact ⟨h0, h1⟩

/-! ## Extents -/

/-- Every block of a busy run leads to the run. -/
theorem extentOf_run {block n offset : Nat} (hr : h.runLength? block = some n)
    (hin : block ≤ h.blockOf offset ∧ h.blockOf offset < block + n) :
    h.extentOf offset = .ok (h.blockStart block, n * h.blockSize) := by
  obtain ⟨runs, hl⟩ := w.laidOut
  have hg := runLength?_eq_some.1 hr
  obtain ⟨-, -, hbody⟩ := hl.toTiled.bodies hg
  obtain ⟨j, hj⟩ : ∃ j, h.blockOf offset = block + j := ⟨h.blockOf offset - block, by omega⟩
  rw [extentOf, hj]
  by_cases h0 : j = 0
  · rw [h0, Nat.add_zero, hg]
  · rw [hbody j (by omega) (by omega)]
    simp only
    rw [if_neg (by omega), Nat.add_sub_cancel, runExtent?, hg]

/-- Every byte of a busy fragment leads to the fragment. -/
theorem extentOf_fragment {start log2 offset : Nat}
    (hc : h.cutLog2? (h.blockOf start) = some log2) (hal : start % fragmentSize log2 = 0)
    (hlive : h.isLiveFragment (h.blockOf start) start log2 = true)
    (hin : start ≤ offset ∧ offset < start + fragmentSize log2) :
    h.extentOf offset = .ok (start, fragmentSize log2) := by
  obtain ⟨nfree, hg, hok⟩ := w.cutOk hc
  obtain ⟨i, rfl⟩ : ∃ i, offset = start + i := ⟨offset - start, by omega⟩
  have hi : i < fragmentSize log2 := by omega
  have hblock := blockOf_fragment (Nat.le_of_lt hok.lt_block) hal hi
  rw [extentOf_of_cut (by rw [hblock]; exact hg) (w.cut_lt hc), hblock, roundDown_fragment hal hi,
    if_pos hlive]

/-- An offset lies in an object exactly if it resolves to it. -/
theorem extentOf_eq_ok_iff {offset start length : Nat} :
    h.extentOf offset = .ok (start, length) ↔
      h.objectAt start = some length ∧ start ≤ offset ∧ offset < start + length := by
  constructor
  · intro he
    have hcut := he
    rw [extentOf] at he
    simp only at he
    split at he
    · rename_i n hg
      cases he
      have hr := runLength?_eq_some.2 hg
      have hpos := (w.run_bounds hr).1
      exact ⟨objectAt_of_run hr, blockOf_mem_iff.1 ⟨Nat.le_refl _, by omega⟩⟩
    · rename_i back hg
      obtain ⟨runs, hl⟩ := w.laidOut
      obtain ⟨hle, n, hhead, hlt⟩ := hl.toTiled.head_of_body hg
      rw [if_neg (by omega), runExtent?, hhead] at he
      cases he
      exact ⟨objectAt_of_run (runLength?_eq_some.2 hhead),
        blockOf_mem_iff.1 ⟨Nat.sub_le _ _, by omega⟩⟩
    · rename_i log2 nfree hg
      have hc : h.cutLog2? (h.blockOf offset) = some log2 := cutLog2?_eq_some.2 ⟨nfree, hg⟩
      rw [extentOf_of_cut hg (w.cut_lt hc)] at hcut
      split at hcut
      · rename_i hlive
        cases hcut
        obtain ⟨hal, hblock, hin⟩ := roundDown_bounds (Nat.le_of_lt (w.cut_bounds hc).2.1) offset
        rw [← hblock] at hc hlive
        exact ⟨objectAt_eq_some.2 (.inl ⟨log2, hc, hal, hlive, rfl⟩), hin⟩
      · cases hcut
    · cases he
  · rintro ⟨hobj, hin⟩
    rcases objectAt_eq_some.1 hobj with ⟨log2, hc, hal, hlive, rfl⟩ | ⟨n, hr, hal, rfl⟩
    · exact w.extentOf_fragment hc hal hlive hin
    · have hstart := eq_blockStart rfl hal
      rw [hstart] at hin
      rw [w.extentOf_run hr (blockOf_mem_iff.2 hin), ← hstart]

/-- An offset that lies in no object is named by the refusal. -/
theorem extentOf_eq_error {offset : Nat} {e : Failure} (he : h.extentOf offset = .error e) :
    e = .refused (.invalidPointer offset) := by
  obtain ⟨runs, hl⟩ := w.laidOut
  have hcut := he
  rw [extentOf] at he
  simp only at he
  split at he
  · cases he
  · -- the later blocks of a run lead to its first
    rename_i back hg
    obtain ⟨hle, n, hhead, hlt⟩ := hl.toTiled.head_of_body hg
    rw [if_neg (by omega), runExtent?, hhead] at he
    cases he
  · rename_i log2 nfree hg
    rw [extentOf_of_cut hg (w.cut_lt (cutLog2?_eq_some.2 ⟨nfree, hg⟩))] at hcut
    split at hcut
    · cases hcut
    · cases hcut
      rfl
  · cases he
    rfl

/-- Offsets in no object lead nowhere. -/
theorem extentOf_eq_invalid {offset : Nat}
    (hnone : ∀ s l, h.objectAt s = some l → ¬(s ≤ offset ∧ offset < s + l)) :
    h.extentOf offset = .error (.refused (.invalidPointer offset)) := by
  cases he : h.extentOf offset with
  | error e => rw [w.extentOf_eq_error he]
  | ok p =>
    obtain ⟨hs, hin⟩ := w.extentOf_eq_ok_iff.1 he
    exact absurd hin (hnone p.1 p.2 hs)

/-- What an offset leads to depends on the objects around it only. -/
theorem extentOf_congr (w' : h'.WellFormed) {offset : Nat}
    (hsame : ∀ s l, s ≤ offset ∧ offset < s + l →
      (h'.objectAt s = some l ↔ h.objectAt s = some l)) :
    h'.extentOf offset = h.extentOf offset := by
  cases he : h.extentOf offset with
  | ok p =>
    obtain ⟨hs, hin⟩ := w.extentOf_eq_ok_iff.1 he
    exact w'.extentOf_eq_ok_iff.2 ⟨(hsame p.1 p.2 hin).2 hs, hin⟩
  | error e =>
    rw [w.extentOf_eq_error he]
    refine w'.extentOf_eq_invalid fun s l hs hin => ?_
    rw [w.extentOf_eq_ok_iff.2 ⟨(hsame s l hin).1 hs, hin⟩] at he
    cases he

/-- Every offset lies in at most one object. -/
theorem object_unique {s l s' l' i : Nat} (hs : h.objectAt s = some l)
    (hs' : h.objectAt s' = some l') (hi : s ≤ i ∧ i < s + l) (hi' : s' ≤ i ∧ i < s' + l') :
    s = s' ∧ l = l' := by
  have h₁ := w.extentOf_eq_ok_iff.2 ⟨hs, hi⟩
  have h₂ := w.extentOf_eq_ok_iff.2 ⟨hs', hi'⟩
  rw [h₁] at h₂
  cases h₂
  exact ⟨rfl, rfl⟩

theorem object_bounds {s l : Nat} (hs : h.objectAt s = some l) :
    0 < l ∧ s + l ≤ h.blockCount * h.blockSize ∧ s % 16 = 0 := by
  rcases objectAt_eq_some.1 hs with ⟨log2, hc, hal, -, rfl⟩ | ⟨n, hr, hal, rfl⟩
  · obtain ⟨hmin, hlt, hb⟩ := w.cut_bounds hc
    have hpos := fragmentSize_pos log2
    refine ⟨hpos, ?_, ?_⟩
    · -- the last byte of the fragment lies in its block
      have hlast := blockOf_fragment (h := h) (i := fragmentSize log2 - 1) (Nat.le_of_lt hlt) hal
        (by omega)
      have : h.blockOf (s + (fragmentSize log2 - 1)) < h.blockCount := by rw [hlast]; exact hb
      have := blockOf_lt_iff.1 this
      omega
    · have h16 : 16 ∣ fragmentSize log2 := one_shiftLeft_dvd hmin
      exact Nat.mod_eq_zero_of_dvd (Nat.dvd_trans h16 (Nat.dvd_of_mod_eq_zero hal))
  · obtain ⟨hpos, hle⟩ := w.run_bounds hr
    have hstart := blockStart_blockOf (h := h) s
    have := Nat.mul_le_mul_right h.blockSize hle
    rw [Nat.add_mul] at this
    refine ⟨Nat.mul_pos hpos h.blockSize_pos, ?_, ?_⟩
    · simp only [blockStart] at hstart
      omega
    · have hlog := w.min_block
      simp only [Geometry.minBlockLog2] at hlog
      have h16 : 16 ∣ h.blockSize := one_shiftLeft_dvd (show 4 ≤ h.blockLog2 by omega)
      exact Nat.mod_eq_zero_of_dvd (Nat.dvd_trans h16 (Nat.dvd_of_mod_eq_zero hal))

/-- Objects lie in the arena. -/
theorem object_in_region {s l : Nat} (hs : h.objectAt s = some l) :
    h.arenaStart + s + l ≤ h.region.size := by
  have := (w.object_bounds hs).2.1
  rw [w.size_eq]
  omega

/-- The bytes of a free fragment belong to no object. -/
theorem not_in_object {x k s l i : Nat} (hx : h.freeFragment x = some k)
    (hs : h.objectAt s = some l) (hi : s ≤ i ∧ i < s + l) :
    ¬(x ≤ i ∧ i < x + fragmentSize k) := by
  rintro ⟨hlo, hhi⟩
  obtain ⟨hc, hal, hfree⟩ := freeFragment_eq_some.1 hx
  obtain ⟨nfree, hg, hok⟩ := w.cutOk hc
  have he := w.extentOf_eq_ok_iff.2 ⟨hs, hi⟩
  obtain ⟨j, rfl⟩ : ∃ j, i = x + j := ⟨i - x, by omega⟩
  have hj : j < fragmentSize k := by omega
  have hblock := blockOf_fragment (h := h) (Nat.le_of_lt hok.lt_block) hal hj
  rw [extentOf_of_cut (by rw [hblock]; exact hg) (w.cut_lt hc), hblock, roundDown_fragment hal hj,
    hfree] at he
  cases he

theorem sixteen_le_fragmentSize {x k : Nat} (hx : h.freeFragment x = some k) :
    16 ≤ fragmentSize k := by
  obtain ⟨hc, -, -⟩ := freeFragment_eq_some.1 hx
  obtain ⟨hmin, -, -⟩ := w.cut_bounds hc
  exact one_shiftLeft_le hmin

/-- The links of free fragments lie in no object. -/
theorem links_outside {s l i : Nat} (hs : h.objectAt s = some l) (hi : s ≤ i ∧ i < s + l) :
    ∀ x k, h.freeFragment x = some k → ¬(x ≤ i ∧ i < x + 16) := by
  intro x k hx hin
  have := w.sixteen_le_fragmentSize hx
  exact w.not_in_object hx hs hi ⟨hin.1, by omega⟩

end WellFormed

end Heap

end RegionHeap
