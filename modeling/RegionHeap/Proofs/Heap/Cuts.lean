import RegionHeap.Proofs.Blocks.Claiming
import RegionHeap.Proofs.Heap.Turns

/-!
Blocks that are cut into fragments. Every operation on fragments reworks one block: its entry, its
busy map, and the lists that its free fragments are on. `Reworked` relates two heaps between which
such an operation is under way, and `Reworked.turns` says what is left to prove of one that is done.
-/
namespace RegionHeap.Heap

open HeapM BlockTable

variable {h h' h'' : Heap} {E : HeapError → Heap → Prop} {roomy : Prop} {block log2 : Nat}

/-! ## The fragments of a block -/

theorem fragmentsPerBlock_pos (h : Heap) (log2 : Nat) : 0 < h.fragmentsPerBlock log2 :=
  one_shiftLeft_pos _

theorem fragment_end_le (hlt : log2 ≤ h.blockLog2) {i : Nat} (hi : i < h.fragmentsPerBlock log2) :
    i * fragmentSize log2 + fragmentSize log2 ≤ h.blockSize := by
  have := Nat.mul_le_mul_right (fragmentSize log2) (show i + 1 ≤ h.fragmentsPerBlock log2 from hi)
  rwa [Nat.add_mul, Nat.one_mul, fragments_fill hlt] at this

theorem blockOf_nthFragment (hlt : log2 ≤ h.blockLog2) {i : Nat}
    (hi : i < h.fragmentsPerBlock log2) :
    h.blockOf (nthFragment log2 (h.blockStart block) i) = block := by
  have := fragment_end_le hlt hi
  have := fragmentSize_pos log2
  exact blockOf_add (by omega)

theorem blockStart_mod_fragment (hlt : log2 ≤ h.blockLog2) (block : Nat) :
    h.blockStart block % fragmentSize log2 = 0 := by
  rw [blockStart, ← fragments_fill hlt, ← Nat.mul_assoc, Nat.mul_mod_left]

theorem nthFragment_mod (hlt : log2 ≤ h.blockLog2) (i : Nat) :
    nthFragment log2 (h.blockStart block) i % fragmentSize log2 = 0 := by
  rw [nthFragment, Nat.add_mul_mod_self_right]
  exact blockStart_mod_fragment hlt block

theorem indexInBlock_nthFragment (hlt : log2 ≤ h.blockLog2) {i : Nat}
    (hi : i < h.fragmentsPerBlock log2) :
    h.indexInBlock (nthFragment log2 (h.blockStart block) i) log2 = i := by
  have := fragment_end_le hlt hi
  have hpos := fragmentSize_pos log2
  rw [indexInBlock_eq, nthFragment, blockStart, Nat.mul_comm block, Nat.mul_add_mod,
    Nat.mod_eq_of_lt (by omega), Nat.mul_div_cancel _ hpos]

theorem indexInBlock_lt (hlt : log2 ≤ h.blockLog2) (offset : Nat) :
    h.indexInBlock offset log2 < h.fragmentsPerBlock log2 := by
  rw [indexInBlock_eq, Nat.div_lt_iff_lt_mul (fragmentSize_pos log2), fragments_fill hlt]
  exact Nat.mod_lt _ h.blockSize_pos

/-- A fragment is known by its block and its index. -/
theorem nthFragment_indexInBlock (hlt : log2 ≤ h.blockLog2) {offset : Nat}
    (hal : offset % fragmentSize log2 = 0) :
    nthFragment log2 (h.blockStart (h.blockOf offset)) (h.indexInBlock offset log2) = offset := by
  have hdvd : offset % h.blockSize % fragmentSize log2 = 0 := by
    rw [Nat.mod_mod_of_dvd _ ⟨h.fragmentsPerBlock log2, by rw [Nat.mul_comm, fragments_fill hlt]⟩]
    exact hal
  rw [nthFragment, indexInBlock_eq, Nat.div_mul_cancel (Nat.dvd_of_mod_eq_zero hdvd)]
  exact blockStart_blockOf offset

theorem indexInBlock_inj (hlt : log2 ≤ h.blockLog2) {x y : Nat} (hx : x % fragmentSize log2 = 0)
    (hy : y % fragmentSize log2 = 0) (hb : h.blockOf x = h.blockOf y)
    (hi : h.indexInBlock x log2 = h.indexInBlock y log2) : x = y := by
  rw [← nthFragment_indexInBlock hlt hx, ← nthFragment_indexInBlock hlt hy, hb, hi]

theorem fragmentSize_inj {a b : Nat} (he : fragmentSize a = fragmentSize b) : a = b := by
  simp only [fragmentSize, Nat.one_shiftLeft] at he
  rcases Nat.lt_trichotomy a b with hlt | heq | hlt
  · have := Nat.pow_lt_pow_right Nat.one_lt_two hlt
    omega
  · exact heq
  · have := Nat.pow_lt_pow_right Nat.one_lt_two hlt
    omega

theorem fragmentSize_lt_blockSize (hlt : log2 < h.blockLog2) : fragmentSize log2 < h.blockSize := by
  simp only [fragmentSize, blockSize, Nat.one_shiftLeft]
  exact Nat.pow_lt_pow_right (by decide) hlt

/-- The objects of a cut block are its busy fragments. -/
theorem objectAt_of_cut (log2 : Nat) {start : Nat} (hc : h.cutLog2? (h.blockOf start) = some log2) :
    h.objectAt start = if start % fragmentSize log2 = 0 ∧
      h.isLiveFragment (h.blockOf start) start log2 = true then some (fragmentSize log2)
      else none := by
  rw [objectAt, hc]

theorem freeFragment_of_cut (log2 : Nat) {offset : Nat} (hc : h.cutLog2? (h.blockOf offset) = some log2) :
    h.freeFragment offset = if offset % fragmentSize log2 = 0 ∧
      h.isLiveFragment (h.blockOf offset) offset log2 = false then some log2 else none := by
  split
  · rename_i hf
    exact freeFragment_eq_some.2 ⟨hc, hf⟩
  · rename_i hf
    refine Option.eq_none_iff_forall_not_mem.2 fun k hk => ?_
    obtain ⟨hc', hrest⟩ := freeFragment_eq_some.1 hk
    rw [hc, Option.some.injEq] at hc'
    subst hc'
    exact hf hrest

/-- An object as small as a fragment is one. -/
theorem WellFormed.cutLog2?_of_objectAt (w : h.WellFormed) {start : Nat}
    (hs : h.objectAt start = some (fragmentSize log2)) (hlt : log2 < h.blockLog2) :
    h.cutLog2? (h.blockOf start) = some log2 := by
  rcases objectAt_eq_some.1 hs with ⟨log2', hc, -, -, hsize⟩ | ⟨n, hr, -, hsize⟩
  · cases fragmentSize_inj hsize
    exact hc
  · have := fragmentSize_lt_blockSize hlt
    have := Nat.le_mul_of_pos_left h.blockSize (w.run_bounds hr).1
    omega

/-! ## One block at work -/

/-- Two heaps that differ in one block, in the lists of fragments, and in bytes of the arena. -/
structure Reworked (h h' : Heap) (block : Nat) : Prop where
  eq : h' = { h with
    region := h'.region, table := h'.table, freeLists := h'.freeLists, busy := h'.busy }
  region : Region.Rewritten h.region h'.region
  metadata : ∀ i, i < h.arenaStart → h'.region.byte i = h.region.byte i
  size_eq : h'.table.size = h.table.size
  laidOut : (∃ runs, h.table.LaidOut runs) → ∃ runs, h'.table.LaidOut runs
  heads : h'.freeLists.size = h.freeLists.size
  inUse : ∀ y, y ≠ block → h'.table.inUse? y = h.table.inUse? y
  busy : ∀ y, y ≠ block → h'.busy.find? y = h.busy.find? y

namespace Reworked

theorem blockLog2_eq (r : Reworked h h' block) : h'.blockLog2 = h.blockLog2 := by rw [r.eq]

theorem arenaStart_eq (r : Reworked h h' block) : h'.arenaStart = h.arenaStart := by rw [r.eq]

theorem blockSize_eq (r : Reworked h h' block) : h'.blockSize = h.blockSize := by
  rw [blockSize, blockSize, r.blockLog2_eq]

theorem blockOf_eq (r : Reworked h h' block) (offset : Nat) : h'.blockOf offset = h.blockOf offset := by
  rw [blockOf, blockOf, r.blockLog2_eq]

theorem fragmentsPerBlock_eq (r : Reworked h h' block) (log2 : Nat) :
    h'.fragmentsPerBlock log2 = h.fragmentsPerBlock log2 := by
  rw [fragmentsPerBlock, fragmentsPerBlock, r.blockLog2_eq]

theorem indexInBlock_eq (r : Reworked h h' block) (offset log2 : Nat) :
    h'.indexInBlock offset log2 = h.indexInBlock offset log2 := by
  rw [indexInBlock, indexInBlock, r.blockSize_eq]

theorem trans (r : Reworked h h' block) (r' : Reworked h' h'' block) : Reworked h h'' block where
  eq := by
    have e := r'.eq
    rw [r.eq] at e
    exact e
  region := r.region.trans r'.region
  metadata i hi := by
    rw [r'.metadata i (by rw [r.arenaStart_eq]; exact hi), r.metadata i hi]
  size_eq := r'.size_eq.trans r.size_eq
  laidOut := fun hl => r'.laidOut (r.laidOut hl)
  heads := r'.heads.trans r.heads
  inUse y hy := (r'.inUse y hy).trans (r.inUse y hy)
  busy y hy := (r'.busy y hy).trans (r.busy y hy)

theorem of_relisted (r : Relisted h h') (block : Nat) : Reworked h h' block := by
  have table : h'.table = h.table := by rw [r.eq]
  have busy : h'.busy = h.busy := by rw [r.eq]
  refine ⟨?_, r.region, r.metadata, by rw [table], fun hl => by rwa [table], r.lists,
    fun _ _ => by rw [table], fun _ _ => by rw [busy]⟩
  have e := r.eq
  rw [table, busy]
  exact e

theorem of_busy (busy : BusyMaps) (hb : ∀ y, y ≠ block → busy.find? y = h.busy.find? y) :
    Reworked h { h with busy } block :=
  ⟨rfl, Region.Rewritten.refl _, fun _ _ => rfl, rfl, fun hl => hl, rfl, fun _ _ => rfl, hb⟩

theorem of_table (block : Nat) (table : BlockTable) (hl : ∃ runs, table.LaidOut runs)
    (hs : table.size = h.table.size) (hu : ∀ y, y ≠ block → table.inUse? y = h.table.inUse? y) :
    Reworked h { h with table } block :=
  ⟨rfl, Region.Rewritten.refl _, fun _ _ => rfl, hs, fun _ => hl, rfl, hu, fun _ _ => rfl⟩

/-- Elsewhere everything reads as before. -/
theorem cutLog2?_eq (r : Reworked h h' block) {y : Nat} (hy : y ≠ block) :
    h'.cutLog2? y = h.cutLog2? y :=
  cutLog2?_congr h h' (r.inUse y hy)

theorem freeFragment_eq (r : Reworked h h' block) {x : Nat} (hx : h.blockOf x ≠ block) :
    h'.freeFragment x = h.freeFragment x :=
  freeFragment_congr h h' r.blockLog2_eq (r.cutLog2?_eq hx) (r.busy _ hx)

theorem objectAt_eq (r : Reworked h h' block) {s : Nat} (hs : h.blockOf s ≠ block) :
    h'.objectAt s = h.objectAt s :=
  objectAt_congr h h' r.blockLog2_eq (r.cutLog2?_eq hs) (runLength?_congr h h' (r.inUse _ hs))
    (r.busy _ hs)

/-- A place for links is one in either heap. -/
theorem holdsLinks (r : Reworked h h' block) {x : Nat} (hx : h.HoldsLinks x) : h'.HoldsLinks x := by
  unfold HoldsLinks at *
  rw [r.arenaStart_eq, r.region.size_eq]
  exact hx

/-- The links of lists are bytes of the arena, so lists stay while these do. -/
theorem lists (r : Reworked h h' block) {home : Nat → Option Nat} (l : h.Lists home)
    (hf : h'.freeLists = h.freeLists) (hr : h'.region = h.region) : h'.Lists home :=
  l.congr r.arenaStart_eq hf (fun x k hx => r.holdsLinks (l.place x k hx).2)
    fun _ _ _ _ _ _ => by rw [arenaByte, arenaByte, hr, r.arenaStart_eq]

/-- What the block holds in the end: fragments that its map and its entry agree on, or nothing that
is cut. -/
def Settled (h : Heap) (block : Nat) : Prop :=
  (∃ log2 nfree, h.table.get? block = some (.fragmented log2 nfree) ∧ h.CutOk block log2 nfree) ∨
    h.cutLog2? block = none ∧ h.busy.find? block = none

theorem wellFormed (r : Reworked h h' block) (w : h.WellFormed) (hblock : Settled h' block)
    (hlists : h'.Lists h'.freeFragment) : h'.WellFormed where
  min_block := by rw [r.blockLog2_eq]; exact w.min_block
  max_block := by rw [r.blockLog2_eq]; exact w.max_block
  laidOut := r.laidOut w.laidOut
  cuts b log2 nfree hg := by
    by_cases hb : b = block
    · subst hb
      rcases hblock with ⟨log2', nfree', hg', hok⟩ | ⟨hnone, -⟩
      · rw [hg] at hg'
        cases hg'
        exact hok
      · rw [cutLog2?_eq_some.2 ⟨nfree, hg⟩] at hnone
        cases hnone
    · have hg₀ := (inUse?_eq_some.1 ((r.inUse b hb).symm.trans (inUse?_eq_some.2 ⟨hg, rfl⟩))).1
      obtain ⟨h₁, h₂, h₃, m, hm, h₄⟩ := w.cuts b log2 nfree hg₀
      refine ⟨h₁, by rw [r.blockLog2_eq]; exact h₂, by rw [r.fragmentsPerBlock_eq]; exact h₃, m, ?_,
        by rw [r.fragmentsPerBlock_eq]; exact h₄⟩
      rw [r.busy b hb, hm]
  maps b m hm := by
    by_cases hb : b = block
    · subst hb
      rcases hblock with ⟨log2, nfree, hg, -⟩ | ⟨-, hnone⟩
      · exact ⟨log2, cutLog2?_eq_some.2 ⟨nfree, hg⟩⟩
      · rw [hm] at hnone
        cases hnone
    · rw [r.busy b hb] at hm
      obtain ⟨log2, hc⟩ := w.maps b m hm
      exact ⟨log2, (r.cutLog2?_eq hb).trans hc⟩
  heads := by rw [r.heads, r.blockLog2_eq]; exact w.heads
  lists := hlists
  size_eq := by
    rw [r.region.size_eq, r.arenaStart_eq, blockCount, r.size_eq, r.blockSize_eq]
    exact w.size_eq
  small := by rw [r.region.size_eq]; exact w.small
  floor_le := by
    rw [blockCount, r.size_eq, show h'.floor = h.floor by rw [r.eq]]
    exact w.floor_le
  count_le := by
    rw [blockCount, r.size_eq, show h'.maxBlocks = h.maxBlocks by rw [r.eq]]
    exact w.count_le
  tables := by rw [r.eq]; exact w.tables
  names := by rw [r.eq]; exact w.names
  records := by rw [r.eq]; exact w.records

/-- An operation on fragments is done when its block is settled and the lists hold the free
fragments. It has turned one object of the block, at most, into another. -/
theorem turns (r : Reworked h h' block) (w : h.WellFormed) (hblock : Settled h' block)
    (hlists : h'.Lists h'.freeFragment) {offset : Nat} {n : Option Nat}
    (ho : h.blockOf offset = block)
    (hobj : ∀ s, h.blockOf s = block → h'.objectAt s = replaced h.objectAt offset n s)
    (hbytes : ∀ s l l', h.objectAt s = some l → h'.objectAt s = some l' →
      ∀ i, i < l → i < l' → h'.arenaByte (s + i) = h.arenaByte (s + i)) :
    Turns h h' (replaced h.objectAt offset n) := by
  have all (s : Nat) : h'.objectAt s = replaced h.objectAt offset n s := by
    by_cases hs : h.blockOf s = block
    · exact hobj s hs
    · rw [r.objectAt_eq hs, replaced_of_ne _ _ (by rintro rfl; exact hs ho)]
  refine ⟨r.wellFormed w hblock hlists, ?_, by rw [r.eq], by rw [r.eq], r.metadata, all,
    fun s l l' hs hs' => hbytes s l l' hs ((all s).trans hs')⟩
  have hn : h'.names = h.names := by rw [r.eq]
  have ha : h'.aligned = h.aligned := by rw [r.eq]
  have hm : h'.maxBlocks = h.maxBlocks := by rw [r.eq]
  simp only [frame, r.blockLog2_eq, r.arenaStart_eq, hm, hn, ha, r.region.capacity_eq,
    r.region.refusals_eq]

end Reworked

/-! ## Marking -/

/-- One fragment of a block has been marked, and nothing else has changed. -/
structure Marked (h h' : Heap) (block index : Nat) (busy : Bool) (m m' : BusyMap) : Prop where
  eq : h' = { h with busy := h'.busy }
  others : ∀ y, y ≠ block → h'.busy.find? y = h.busy.find? y
  before : h.busy.find? block = some m
  after : h'.busy.find? block = some m'
  size_eq : m'.size = m.size
  bits : ∀ i, m'.isBusy i = if i = index then busy else m.isBusy i
  count : m'.count + (if m.isBusy index then 1 else 0) = m.count + if busy then 1 else 0

theorem markFragment_ends (index : Nat) {m : BusyMap} (hm : h.busy.find? block = some m)
    (hi : index < m.size * BusyMap.wordBits) (busy : Bool) :
    Ends roomy (markFragment block index busy) h
      (fun was h' => was = some (m.isBusy index) ∧ ∃ m', Marked h h' block index busy m m') E := by
  obtain ⟨m', hset, hsize, hbits⟩ := BusyMap.set?_eq hi busy
  have hmaps : BusyMaps.set? h.busy block index busy =
      some (m.isBusy index, h.busy.insert block m') := by
    rw [BusyMaps.set?, hm]
    show (m.set? index busy >>= _) = _
    rw [hset]
    rfl
  refine Ends.bind' (Ends.get' ?_)
  rw [hmaps]
  refine Ends.bind' (Ends.set' (Ends.pure' ⟨rfl, m', rfl, fun y hy => ?_, hm, ?_, hsize, hbits, ?_⟩))
  · show (h.busy.insert block m').find? y = _
    rw [OrderedMap.find?_insert, if_neg (Ne.symm hy)]
  · show (h.busy.insert block m').find? block = _
    rw [OrderedMap.find?_insert, if_pos rfl]
  · rw [BusyMap.count_eq_countP, BusyMap.count_eq_countP, hsize]
    exact BusyMap.countP_update hi hbits

namespace Marked

variable {index : Nat} {busy : Bool} {m m' : BusyMap}

theorem reworked (k : Marked h h' block index busy m m') : Reworked h h' block := by
  have := Reworked.of_busy (h := h) h'.busy k.others
  rwa [← k.eq] at this

/-- Marking the fragment at an offset makes that fragment busy or free. -/
theorem isLiveFragment_eq {offset : Nat}
    (k : Marked h h' block (h.indexInBlock offset log2) busy m m') (hlt : log2 ≤ h.blockLog2)
    (hal : offset % fragmentSize log2 = 0) (hb : h.blockOf offset = block) {x : Nat}
    (hx : x % fragmentSize log2 = 0) (hxb : h.blockOf x = block) :
    h'.isLiveFragment block x log2 =
      if x = offset then busy else h.isLiveFragment block x log2 := by
  rw [isLiveFragment, isLiveFragment, BusyMaps.isBusy, BusyMaps.isBusy, k.after, k.before,
    Option.any_some, Option.any_some, k.reworked.indexInBlock_eq, k.bits]
  by_cases he : x = offset
  · rw [if_pos he, if_pos (by rw [he])]
  · rw [if_neg he, if_neg fun hi => he (indexInBlock_inj hlt hx hal (hxb.trans hb.symm) hi)]

/-- The entry that goes with the new map. -/
theorem cutOk (k : Marked h h' block index busy m m') {nfree nfree' : Nat}
    (hok : h.CutOk block log2 nfree) (hi : index < h.fragmentsPerBlock log2)
    (hlt : nfree' < h.fragmentsPerBlock log2)
    (hcount : m'.count + nfree' = h.fragmentsPerBlock log2) : h'.CutOk block log2 nfree' := by
  obtain ⟨h₁, h₂, -, m₀, hm, hsize, hbound, -⟩ := hok
  rw [k.before, Option.some.injEq] at hm
  subst hm
  have r := k.reworked
  refine ⟨h₁, by rw [r.blockLog2_eq]; exact h₂, by rw [r.fragmentsPerBlock_eq]; exact hlt, m', k.after,
    by rw [k.size_eq, r.fragmentsPerBlock_eq, hsize], fun i hge => ?_, by
      rw [r.fragmentsPerBlock_eq]; exact hcount⟩
  rw [r.fragmentsPerBlock_eq] at hge
  rw [k.bits, if_neg (by omega)]
  exact hbound i hge

end Marked

/-! ## Entries of cut blocks -/

theorem CutOk.of_busy (h' : Heap) {nfree : Nat} (hok : h.CutOk block log2 nfree)
    (hlog : h'.blockLog2 = h.blockLog2) (hb : h'.busy.find? block = h.busy.find? block) :
    h'.CutOk block log2 nfree := by
  obtain ⟨h₁, h₂, h₃, m, hm, h₄⟩ := hok
  have hf : h'.fragmentsPerBlock log2 = h.fragmentsPerBlock log2 := by
    rw [fragmentsPerBlock, fragmentsPerBlock, hlog]
  exact ⟨h₁, by rw [hlog]; exact h₂, by rw [hf]; exact h₃, m, hb.trans hm, by rw [hf]; exact h₄⟩

/-- A run of one block in use is known by its entry. -/
theorem locate_single {runs : List Run} (hl : h.table.LaidOut runs) {e : Entry}
    (hg : h.table.get? block = some e) (he : e = .run 1 ∨ ∃ log2 nfree, e = .fragmented log2 nfree) :
    ∃ l run r, runs = l ++ run :: r ∧ block = Run.total l ∧ run.length = 1 ∧
      run.isFree = false := by
  have hinner : e.isInner = false := by rcases he with rfl | ⟨_, _, rfl⟩ <;> rfl
  have hbare : e.bare = e := by rcases he with rfl | ⟨_, _, rfl⟩ <;> rfl
  have hb := bare?_of_get? hg
  rw [hbare] at hb
  obtain ⟨l, run, r, rfl, hx, hf⟩ := hl.spells.locate_first (Nat.zero_le _)
    (by have := hl.size_eq; have := BlockTable.lt_size_of_get? hg; omega) hb hinner
  rw [Nat.zero_add] at hx
  refine ⟨l, run, r, rfl, hx, ?_⟩
  cases run with
  | free size => rcases he with rfl | ⟨_, _, rfl⟩ <;> cases hf
  | busy n => rcases he with rfl | ⟨_, _, rfl⟩ <;> cases hf; exact ⟨rfl, rfl⟩
  | cut k n => exact ⟨rfl, rfl⟩

/-- The entry of one block in use is replaced. -/
theorem setEntry_ends (w : ∃ runs, h.table.LaidOut runs) {e : Entry}
    (hg : h.table.get? block = some e) (he : e = .run 1 ∨ ∃ log2 nfree, e = .fragmented log2 nfree)
    (log2 nfree : Nat) :
    Ends roomy (setEntry block (.fragmented log2 nfree)) h (fun _ h' => Reworked h h' block ∧
      h' = { h with table := h'.table } ∧ h'.table.get? block = some (.fragmented log2 nfree)) E := by
  obtain ⟨runs, hl⟩ := w
  obtain ⟨l, run, r, rfl, rfl, hlen, hf⟩ := locate_single hl hg he
  obtain ⟨table, hset, hl', hu⟩ := setBusy?_eq log2 nfree hl hlen hf
  refine Ends.onTable' (show _ = some ((), table) by rw [hset]; rfl) ⟨?_, rfl, ?_⟩
  · refine Reworked.of_table _ table ⟨_, hl'⟩ ?_ fun y hy => by rw [hu, if_neg hy]
    rw [← hl'.size_eq, ← hl.size_eq]
    simp [hlen, show (Run.cut log2 nfree).length = 1 from rfl]
  · exact (inUse?_eq_some.1 (by rw [hu, if_pos rfl])).1

end RegionHeap.Heap
