import RegionHeap.Heap.Usage
import RegionHeap.Proofs.Blocks.InUse
import RegionHeap.Proofs.Blocks.Occupancy
import RegionHeap.Proofs.Blocks.Walking
import RegionHeap.Proofs.Heap.FragmentSteps

/-!
What the live objects say about the rest of a heap. An object as small as a fragment tells how its
block is cut, and a larger one which blocks are its run, so two heaps with the same objects have the
same blocks in use and the same busy maps (`SameObjects`). If their arenas have one size, too, the
free runs and the figures of use agree as well.
-/
namespace RegionHeap.Heap

open BlockTable

variable {h h' : Heap} {block log2 : Nat}

/-! ## Objects and blocks -/

theorem WellFormed.cutLog2?_eq_some_iff (w : h.WellFormed) :
    h.cutLog2? block = some log2 ↔ log2 < h.blockLog2 ∧
      ∃ start, h.blockOf start = block ∧ h.objectAt start = some (fragmentSize log2) := by
  constructor
  · intro hc
    obtain ⟨nfree, hg, hok⟩ := w.cutOk hc
    exact ⟨hok.lt_block, hok.exists_live hg⟩
  · rintro ⟨hlt, start, rfl, hs⟩
    exact w.cutLog2?_of_objectAt hs hlt

theorem WellFormed.runLength?_eq_some_iff (w : h.WellFormed) {n : Nat} :
    h.runLength? block = some n ↔
      0 < n ∧ h.objectAt (h.blockStart block) = some (n * h.blockSize) := by
  constructor
  · intro hr
    exact ⟨(w.run_bounds hr).1, objectAt_of_run hr⟩
  · rintro ⟨hpos, hs⟩
    rcases objectAt_eq_some.1 hs with ⟨log2, hc, -, -, hsize⟩ | ⟨n', hr, -, hsize⟩
    · have := fragmentSize_lt_blockSize (w.cut_bounds hc).2.1
      have := Nat.le_mul_of_pos_left h.blockSize hpos
      omega
    · rw [Nat.eq_of_mul_eq_mul_right h.blockSize_pos hsize, ← blockOf_blockStart (h := h) block]
      exact hr

theorem lengthAt?_of_runLength? {length : Nat} (hr : h.runLength? block = some length) :
    h.table.occupancy.lengthAt? block = some length := by
  refine lengthAt?_eq_some.2 ⟨.busy length, ?_, rfl⟩
  rw [busyRun?, runLength?_eq_some.1 hr]
  rfl

theorem lengthAt?_of_cutLog2? (hc : h.cutLog2? block = some log2) :
    h.table.occupancy.lengthAt? block = some 1 := by
  obtain ⟨nfree, hg⟩ := cutLog2?_eq_some.1 hc
  refine lengthAt?_eq_some.2 ⟨.cut log2 nfree, ?_, rfl⟩
  rw [busyRun?, hg]
  rfl

/-- A block is in use where an object lies. -/
theorem WellFormed.inUse?_of_objectAt (w : h.WellFormed) {start length offset : Nat}
    (hs : h.objectAt start = some length) (hlo : start ≤ offset) (hhi : offset < start + length) :
    h.table.inUse? (h.blockOf offset) ≠ none := by
  intro hu
  have he := w.extentOf_eq_ok_iff.2 ⟨hs, hlo, hhi⟩
  rw [extentOf] at he
  cases hg : h.table.get? (h.blockOf offset) with
  | none =>
    rw [hg] at he
    cases he
  | some e =>
    rw [inUse?, hg] at hu
    cases e <;> simp [hg, Entry.isFree] at he hu

/-- Some object reaches into a block in use. -/
theorem WellFormed.exists_objectAt (w : h.WellFormed) (hu : h.table.inUse? block ≠ none) :
    ∃ start length, h.objectAt start = some length ∧ start < h.blockStart block + h.blockSize ∧
      h.blockStart block < start + length := by
  have hpos := h.blockSize_pos
  obtain ⟨runs, hl⟩ := w.laidOut
  obtain ⟨e, he⟩ := Option.ne_none_iff_exists'.1 hu
  obtain ⟨hg, hbusy⟩ := inUse?_eq_some.1 he
  cases e with
  | free _ _ _ => cases hbusy
  | freeTail _ => cases hbusy
  | freeBody => cases hbusy
  | run n =>
    obtain ⟨-, hs⟩ := w.runLength?_eq_some_iff.1 (runLength?_eq_some.2 hg)
    exact ⟨_, _, hs, Nat.lt_add_of_pos_right hpos, Nat.lt_add_of_pos_right (w.object_bounds hs).1⟩
  | runBody back =>
    obtain ⟨hle, n, hhead, hlt⟩ := hl.toTiled.head_of_body hg
    obtain ⟨-, hs⟩ := w.runLength?_eq_some_iff.1 (runLength?_eq_some.2 hhead)
    have hbefore : h.blockStart (block - back) ≤ h.blockStart block :=
      Nat.mul_le_mul_right h.blockSize (Nat.sub_le block back)
    refine ⟨_, _, hs, Nat.lt_of_le_of_lt hbefore (Nat.lt_add_of_pos_right hpos), ?_⟩
    rw [blockStart, blockStart, ← Nat.add_mul]
    exact Nat.mul_lt_mul_of_pos_right (by omega) hpos
  | fragmented log2 nfree =>
    obtain ⟨start, hb, hs⟩ := (w.cuts _ _ _ hg).exists_live hg
    have hstart := blockStart_blockOf (h := h) start
    have := (w.object_bounds hs).1
    have := Nat.mod_lt start hpos
    rw [hb] at hstart
    exact ⟨start, _, hs, by omega, by omega⟩

/-- The blocks up to the last one in use are those that objects reach into. -/
theorem WellFormed.usedBlocks_le_iff (w : h.WellFormed) {n : Nat} :
    h.table.usedBlocks ≤ n ↔
      ∀ start length, h.objectAt start = some length → start + length ≤ n * h.blockSize := by
  constructor
  · intro hn start length hs
    have hpos := (w.object_bounds hs).1
    -- the last byte of the object lies in a block in use
    have hused : h.table.inUse? (h.blockOf (start + length - 1)) ≠ none :=
      w.inUse?_of_objectAt hs (by omega) (by omega)
    have := blockOf_lt_iff.1 (Nat.lt_of_lt_of_le (lt_usedBlocks hused) hn)
    omega
  · intro hfit
    refine BlockTable.usedBlocks_le_iff.2 fun b hb => Decidable.byContradiction fun hu => ?_
    obtain ⟨start, length, hs, -, hlt⟩ := w.exists_objectAt hu
    have := hfit start length hs
    have := Nat.mul_le_mul_right h.blockSize hb
    rw [blockStart] at hlt
    omega

/-- Where every object stays and none becomes shorter, no fewer blocks are used. -/
theorem WellFormed.usedBlocks_mono (w : h.WellFormed) (w' : h'.WellFormed)
    (hlog : h'.blockLog2 = h.blockLog2)
    (hkeep : ∀ start length, h.objectAt start = some length →
      ∃ length', h'.objectAt start = some length' ∧ length ≤ length') :
    h.table.usedBlocks ≤ h'.table.usedBlocks :=
  w.usedBlocks_le_iff.2 fun start length hs => by
    obtain ⟨length', hs', hle⟩ := hkeep start length hs
    have := w'.usedBlocks_le_iff.1 (Nat.le_refl _) start length' hs'
    rw [blockSize, hlog] at this
    rw [blockSize]
    omega

/-- A fragment is busy if an object lies there. -/
theorem isBusy_eq_isSome (hlt : log2 ≤ h.blockLog2) (hc : h.cutLog2? block = some log2) {m : BusyMap}
    (hm : h.busy.find? block = some m) {i : Nat} (hi : i < h.fragmentsPerBlock log2) :
    m.isBusy i = (h.objectAt (nthFragment log2 (h.blockStart block) i)).isSome := by
  have hb : h.blockOf (nthFragment log2 (h.blockStart block) i) = block := blockOf_nthFragment hlt hi
  rw [objectAt_of_cut log2 (by rw [hb]; exact hc), hb, isLiveFragment_of_find? hm,
    indexInBlock_nthFragment hlt hi]
  cases m.isBusy i <;> simp [nthFragment_mod hlt i]

/-! ## Heaps with the same objects in a block -/

/-- Two heaps with blocks of one size and, in one block, the same objects. -/
structure SameIn (h h' : Heap) (block : Nat) : Prop where
  wellFormed : h.WellFormed
  wellFormed' : h'.WellFormed
  blockLog2_eq : h'.blockLog2 = h.blockLog2
  objectAt_eq : ∀ start, h.blockOf start = block → h'.objectAt start = h.objectAt start

namespace SameIn

theorem blockSize_eq (s : SameIn h h' block) : h'.blockSize = h.blockSize := by
  rw [blockSize, blockSize, s.blockLog2_eq]

theorem blockOf_eq (s : SameIn h h' block) (offset : Nat) : h'.blockOf offset = h.blockOf offset := by
  rw [blockOf, blockOf, s.blockLog2_eq]

theorem blockStart_eq (s : SameIn h h' block) (b : Nat) : h'.blockStart b = h.blockStart b := by
  rw [blockStart, blockStart, s.blockSize_eq]

theorem fragmentsPerBlock_eq (s : SameIn h h' block) (log2 : Nat) :
    h'.fragmentsPerBlock log2 = h.fragmentsPerBlock log2 := by
  rw [fragmentsPerBlock, fragmentsPerBlock, s.blockLog2_eq]

theorem symm (s : SameIn h h' block) : SameIn h' h block :=
  ⟨s.wellFormed', s.wellFormed, s.blockLog2_eq.symm, fun start hb =>
    (s.objectAt_eq start (by rw [← s.blockOf_eq, hb])).symm⟩

/-- The block is cut alike. -/
theorem cutLog2?_eq (s : SameIn h h' block) : h'.cutLog2? block = h.cutLog2? block := by
  refine Option.ext fun log2 => ?_
  rw [s.wellFormed'.cutLog2?_eq_some_iff, s.wellFormed.cutLog2?_eq_some_iff, s.blockLog2_eq]
  simp only [s.blockOf_eq]
  refine and_congr_right fun _ => exists_congr fun start => and_congr_right fun hb => ?_
  rw [s.objectAt_eq start hb]

theorem runLength?_eq (s : SameIn h h' block) : h'.runLength? block = h.runLength? block := by
  refine Option.ext fun n => ?_
  rw [s.wellFormed'.runLength?_eq_some_iff, s.wellFormed.runLength?_eq_some_iff, s.blockStart_eq,
    s.objectAt_eq _ (blockOf_blockStart block), s.blockSize_eq]

/-- The busy map is the same, fragment by fragment. -/
theorem busyMap_eq (s : SameIn h h' block) : h'.busy.find? block = h.busy.find? block := by
  cases hc : h.cutLog2? block with
  | none =>
    -- only cut blocks have maps
    have none_of {k : Heap} (w : k.WellFormed) (hk : k.cutLog2? block = none) :
        k.busy.find? block = none := by
      refine Option.eq_none_iff_forall_not_mem.2 fun m hm => ?_
      obtain ⟨log2, hlog⟩ := w.maps block m hm
      rw [hk] at hlog
      cases hlog
    rw [none_of s.wellFormed hc, none_of s.wellFormed' (by rw [s.cutLog2?_eq, hc])]
  | some log2 =>
    have hc' : h'.cutLog2? block = some log2 := by rw [s.cutLog2?_eq, hc]
    obtain ⟨_, -, hok⟩ := s.wellFormed.cutOk hc
    obtain ⟨_, -, hok'⟩ := s.wellFormed'.cutOk hc'
    obtain ⟨m, hm, hsize, hpast, -⟩ := hok.map
    obtain ⟨m', hm', hsize', hpast', -⟩ := hok'.map
    rw [s.fragmentsPerBlock_eq] at hsize' hpast'
    rw [hm, hm', BusyMap.ext_isBusy (hsize'.trans hsize.symm) fun i => ?_]
    by_cases hi : i < h.fragmentsPerBlock log2
    · rw [isBusy_eq_isSome (Nat.le_of_lt hok.lt_block) hc hm hi,
        isBusy_eq_isSome (Nat.le_of_lt hok'.lt_block) hc' hm' (by rwa [s.fragmentsPerBlock_eq]),
        s.blockStart_eq, s.objectAt_eq _ (blockOf_nthFragment (Nat.le_of_lt hok.lt_block) hi)]
    · rw [hpast i (Nat.le_of_not_lt hi), hpast' i (Nat.le_of_not_lt hi)]

/-- The entry of a cut block stands in both tables. -/
theorem get?_fragmented (s : SameIn h h' block) {nfree : Nat}
    (hg : h.table.get? block = some (.fragmented log2 nfree)) :
    h'.table.get? block = some (.fragmented log2 nfree) := by
  have hc' : h'.cutLog2? block = some log2 := by
    rw [s.cutLog2?_eq]
    exact cutLog2?_eq_some.2 ⟨nfree, hg⟩
  obtain ⟨nfree', hg', hok'⟩ := s.wellFormed'.cutOk hc'
  -- both counts of free fragments are those of the one map
  obtain ⟨m, hm, -, -, hcount⟩ := (s.wellFormed.cuts _ _ _ hg).map
  obtain ⟨m', hm', -, -, hcount'⟩ := hok'.map
  rw [s.busyMap_eq, hm, Option.some.injEq] at hm'
  rw [s.fragmentsPerBlock_eq, ← hm'] at hcount'
  rw [hg', show nfree' = nfree by omega]

/-- The busy run that starts there is the same. -/
theorem busyRun?_eq (s : SameIn h h' block) : h'.table.busyRun? block = h.table.busyRun? block := by
  have key {k k' : Heap} (s : SameIn k k' block) {run : Run} (hr : k.table.busyRun? block = some run) :
      k'.table.busyRun? block = some run := by
    obtain ⟨e, hg, he⟩ := Option.bind_eq_some_iff.1 hr
    have hg' : k'.table.get? block = some e := by
      cases e with
      | run n =>
        refine runLength?_eq_some.1 ?_
        rw [s.runLength?_eq]
        exact runLength?_eq_some.2 hg
      | fragmented log2 nfree => exact s.get?_fragmented hg
      | _ => cases he
    rw [busyRun?, hg']
    exact he
  exact Option.ext fun run => ⟨key s.symm, key s⟩

end SameIn

/-! ## Heaps with the same objects -/

/-- Two heaps with blocks of one size and the same objects. -/
structure SameObjects (h h' : Heap) : Prop where
  wellFormed : h.WellFormed
  wellFormed' : h'.WellFormed
  blockLog2_eq : h'.blockLog2 = h.blockLog2
  objectAt_eq : ∀ start, h'.objectAt start = h.objectAt start

namespace SameObjects

theorem symm (s : SameObjects h h') : SameObjects h' h :=
  ⟨s.wellFormed', s.wellFormed, s.blockLog2_eq.symm, fun start => (s.objectAt_eq start).symm⟩

theorem inBlock (s : SameObjects h h') (block : Nat) : SameIn h h' block :=
  ⟨s.wellFormed, s.wellFormed', s.blockLog2_eq, fun start _ => s.objectAt_eq start⟩

theorem blockSize_eq (s : SameObjects h h') : h'.blockSize = h.blockSize := (s.inBlock 0).blockSize_eq

theorem cutLog2?_eq (s : SameObjects h h') (block : Nat) : h'.cutLog2? block = h.cutLog2? block :=
  (s.inBlock block).cutLog2?_eq

theorem runLength?_eq (s : SameObjects h h') (block : Nat) :
    h'.runLength? block = h.runLength? block := (s.inBlock block).runLength?_eq

theorem busy_eq (s : SameObjects h h') : h'.busy = h.busy :=
  OrderedMap.ext_find? fun block => (s.inBlock block).busyMap_eq

/-- An entry of a block in use stands in both tables. -/
theorem inUse?_of_inUse? (s : SameObjects h h') {e : Entry} (hu : h.table.inUse? block = some e) :
    h'.table.inUse? block = some e := by
  obtain ⟨hg, hbusy⟩ := inUse?_eq_some.1 hu
  refine inUse?_eq_some.2 ⟨?_, hbusy⟩
  cases e with
  | free _ _ _ => cases hbusy
  | freeTail _ => cases hbusy
  | freeBody => cases hbusy
  | run n => exact runLength?_eq_some.1 (by rw [s.runLength?_eq]; exact runLength?_eq_some.2 hg)
  | runBody back =>
    obtain ⟨runs, hl⟩ := s.wellFormed.laidOut
    obtain ⟨runs', hl'⟩ := s.wellFormed'.laidOut
    obtain ⟨hle, n, hhead, hlt⟩ := hl.toTiled.head_of_body hg
    have hhead' := runLength?_eq_some.1
      ((s.runLength?_eq _).trans (runLength?_eq_some.2 hhead))
    by_cases h0 : back = 0
    · -- a body is never the first block of its run
      subst h0
      rw [Nat.sub_zero, hg] at hhead
      cases hhead
    · have := (hl'.toTiled.bodies hhead').2.2 back (Nat.pos_of_ne_zero h0) hlt
      rwa [Nat.sub_add_cancel hle] at this
  | fragmented log2 nfree => exact (s.inBlock block).get?_fragmented hg

theorem inUse?_eq (s : SameObjects h h') (block : Nat) :
    h'.table.inUse? block = h.table.inUse? block :=
  Option.ext fun _ => ⟨s.symm.inUse?_of_inUse?, s.inUse?_of_inUse?⟩

theorem usedBlocks_eq (s : SameObjects h h') : h'.table.usedBlocks = h.table.usedBlocks :=
  usedBlocks_congr s.inUse?_eq

/-- Arenas of one size with the same objects have the same runs. -/
theorem exists_runs (s : SameObjects h h') (hcount : h'.blockCount = h.blockCount) :
    ∃ runs, h.table.Tiled runs ∧ h'.table.Tiled runs := by
  obtain ⟨runs, hl⟩ := s.wellFormed.laidOut
  obtain ⟨runs', hl'⟩ := s.wellFormed'.laidOut
  have := hl.unique hl' hcount s.inUse?_eq
  subst this
  exact ⟨_, hl.toTiled, hl'.toTiled⟩

theorem freeRuns?_eq (s : SameObjects h h') (hcount : h'.blockCount = h.blockCount) :
    h'.table.freeRuns? = h.table.freeRuns? := by
  obtain ⟨runs, ht, ht'⟩ := s.exists_runs hcount
  exact ht.freeRuns?_of_runs ht'

theorem usage?_eq (s : SameObjects h h') (hcount : h'.blockCount = h.blockCount)
    (hnames : h'.names.size = h.names.size) : h'.usage? = h.usage? := by
  obtain ⟨runs, ht, ht'⟩ := s.exists_runs hcount
  rw [usage?, usage?, s.blockLog2_eq, hcount, hnames]
  cases Size.shiftLeft? h.blockCount h.blockLog2 with
  | none => rfl
  | some bytesTotal =>
    refine ht.bind_runs? ht' fun pairs => ?_
    rw [List.foldlM_map]
    refine congrArg (fun f => pairs.foldlM f _) (funext fun u => funext fun p => ?_)
    obtain ⟨_, e⟩ := p
    cases e <;> rfl

end SameObjects

end RegionHeap.Heap
