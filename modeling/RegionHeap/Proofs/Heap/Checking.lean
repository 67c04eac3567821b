import RegionHeap.Heap.Defects
import RegionHeap.Proofs.Blocks.Rebuilding
import RegionHeap.Proofs.Heap.FragmentSteps

/-!
The check of a heap. Each list of fragments is followed and counted against the block table, so what
a list has to hold is counted here once more: the free fragments of a size, block by block. In a
heap whose fragments are in order the check finds nothing (`FragmentsSound.defects?_eq_none`), so it
finds nothing in a well-formed one (`WellFormed.defects?_eq_none`).
-/
namespace RegionHeap.Heap

open BlockTable

variable {h : Heap} {runs : List (Nat × Entry)}

/-! ## Counting free fragments -/

/-- The free fragments of a block that is cut into fragments of one size. -/
def freeFragmentsIn (h : Heap) (block log2 : Nat) : List Nat :=
  ((List.range (h.fragmentsPerBlock log2)).map (nthFragment log2 (h.blockStart block))).filter
    fun x => !h.isLiveFragment block x log2

/-- The free fragments of one size, block by block. -/
def freeFragmentsOf (h : Heap) (runs : List (Nat × Entry)) (log2 : Nat) : List Nat :=
  runs.flatMap fun p => match p.2 with
    | .fragmented k _ => if k = log2 then h.freeFragmentsIn p.1 k else []
    | _ => []

/-- The fragments of a block that is cut into fragments of one size. -/
def fragmentsIn (h : Heap) (block log2 : Nat) : List Nat :=
  (List.range (h.fragmentsPerBlock log2)).map (nthFragment log2 (h.blockStart block))

theorem mem_fragmentsIn {block log2 : Nat} (hlt : log2 ≤ h.blockLog2) {x : Nat} :
    x ∈ h.fragmentsIn block log2 ↔ h.blockOf x = block ∧ x % fragmentSize log2 = 0 := by
  rw [fragmentsIn, List.mem_map]
  constructor
  · rintro ⟨i, hi, rfl⟩
    exact ⟨blockOf_nthFragment hlt (List.mem_range.1 hi), nthFragment_mod hlt i⟩
  · rintro ⟨rfl, hal⟩
    exact ⟨h.indexInBlock x log2, List.mem_range.2 (indexInBlock_lt hlt x),
      nthFragment_indexInBlock hlt hal⟩

theorem nodup_fragmentsIn (h : Heap) (block log2 : Nat) : (h.fragmentsIn block log2).Nodup := by
  refine List.pairwise_map.2 (List.nodup_range.imp fun hne heq => hne ?_)
  have hpos := fragmentSize_pos log2
  rw [nthFragment, nthFragment] at heq
  exact Nat.eq_of_mul_eq_mul_right hpos (by omega)

theorem mem_freeFragmentsIn {block log2 : Nat} (hlt : log2 ≤ h.blockLog2) {x : Nat} :
    x ∈ h.freeFragmentsIn block log2 ↔ h.blockOf x = block ∧ x % fragmentSize log2 = 0 ∧
      h.isLiveFragment block x log2 = false := by
  rw [freeFragmentsIn, ← fragmentsIn, List.mem_filter, mem_fragmentsIn hlt, Bool.not_eq_true', and_assoc]

theorem nodup_freeFragmentsIn (h : Heap) (block log2 : Nat) :
    (h.freeFragmentsIn block log2).Nodup := (nodup_fragmentsIn h block log2).filter _

/-- A block cut into fragments of a size that its heap has, with a map of just the fragments that
the entry does not count as free, and at least one of them. Unlike `CutOk` this leaves open how many
words the map has. -/
structure CutCounted (h : Heap) (block log2 nfree : Nat) : Prop where
  min_le : minFragmentLog2 ≤ log2
  lt_block : log2 < h.blockLog2
  some_busy : nfree < h.fragmentsPerBlock log2
  map : ∃ m, h.busy.find? block = some m ∧
    (List.range (h.fragmentsPerBlock log2)).countP m.isBusy = h.fragmentsPerBlock log2 - nfree ∧
    ∀ i, h.fragmentsPerBlock log2 ≤ i → m.isBusy i = false

theorem CutOk.counted {block log2 nfree : Nat} (hok : h.CutOk block log2 nfree) :
    h.CutCounted block log2 nfree := by
  obtain ⟨m, hm, -, hbound, hcount⟩ := hok.map
  refine ⟨hok.min_le, hok.lt_block, hok.some_busy, m, hm, ?_, hbound⟩
  rw [← BusyMap.count_eq_of_bound hbound]
  omega

/-- The entry of a cut block counts its free fragments. -/
theorem CutCounted.length_freeFragmentsIn {block log2 nfree : Nat}
    (hok : h.CutCounted block log2 nfree) : (h.freeFragmentsIn block log2).length = nfree := by
  obtain ⟨m, hm, hcount, -⟩ := hok.map
  have hlive : (List.range (h.fragmentsPerBlock log2)).countP (fun i =>
      !h.isLiveFragment block (nthFragment log2 (h.blockStart block) i) log2) =
      (List.range (h.fragmentsPerBlock log2)).countP fun i => !m.isBusy i := by
    refine List.countP_congr fun i hi => ?_
    rw [isLiveFragment_of_find? hm, indexInBlock_nthFragment (Nat.le_of_lt hok.lt_block)
      (List.mem_range.1 hi)]
  rw [freeFragmentsIn, ← List.countP_eq_length_filter, List.countP_map]
  refine hlive.trans ?_
  have := List.length_eq_countP_add_countP m.isBusy (l := List.range (h.fragmentsPerBlock log2))
  rw [List.length_range] at this
  simp only [Bool.not_eq_true] at this
  have hnot : (List.range (h.fragmentsPerBlock log2)).countP (fun i => !m.isBusy i) =
      (List.range (h.fragmentsPerBlock log2)).countP fun i => decide (m.isBusy i = false) :=
    List.countP_congr fun i _ => by simp
  have := hok.some_busy
  rw [hnot]
  omega

theorem CutOk.length_freeFragmentsIn {block log2 nfree : Nat} (hok : h.CutOk block log2 nfree) :
    (h.freeFragmentsIn block log2).length = nfree := hok.counted.length_freeFragmentsIn

/-- What a walk over the table meets, and what holds of the blocks that it meets. -/
structure Walked (h : Heap) (runs : List (Nat × Entry)) : Prop where
  increase : KeysIncrease runs
  mem_iff : ∀ b e, (b, e) ∈ runs ↔ h.table.get? b = some e ∧ e.isInner = false
  cuts : ∀ b log2 nfree, h.table.get? b = some (.fragmented log2 nfree) → h.CutOk b log2 nfree

/-- What a walk over the table meets, if each block that it meets is counted right. -/
structure Surveyed (h : Heap) (runs : List (Nat × Entry)) : Prop where
  increase : KeysIncrease runs
  mem_iff : ∀ b e, (b, e) ∈ runs ↔ h.table.get? b = some e ∧ e.isInner = false
  cuts : ∀ b log2 nfree, h.table.get? b = some (.fragmented log2 nfree) → h.CutCounted b log2 nfree

theorem Walked.surveyed (w : Walked h runs) : Surveyed h runs :=
  ⟨w.increase, w.mem_iff, fun b log2 nfree hg => (w.cuts b log2 nfree hg).counted⟩

theorem Surveyed.mem_freeFragmentsOf (w : Surveyed h runs) {log2 x : Nat} :
    x ∈ h.freeFragmentsOf runs log2 ↔ h.freeFragment x = some log2 := by
  rw [freeFragmentsOf, List.mem_flatMap, freeFragment_eq_some]
  constructor
  · rintro ⟨⟨b, e⟩, hp, hx⟩
    obtain ⟨hg, -⟩ := (w.mem_iff b e).1 hp
    cases e <;> simp only [List.not_mem_nil] at hx
    rename_i k nfree
    split at hx
    · rename_i hk
      subst hk
      obtain ⟨hb, hal, hf⟩ := (mem_freeFragmentsIn (Nat.le_of_lt (w.cuts _ _ _ hg).lt_block)).1 hx
      subst hb
      exact ⟨cutLog2?_eq_some.2 ⟨nfree, hg⟩, hal, hf⟩
    · cases hx
  · rintro ⟨hc, hal, hf⟩
    obtain ⟨nfree, hg⟩ := cutLog2?_eq_some.1 hc
    refine ⟨(h.blockOf x, .fragmented log2 nfree), (w.mem_iff _ _).2 ⟨hg, rfl⟩, ?_⟩
    simp only [if_true]
    exact (mem_freeFragmentsIn (Nat.le_of_lt (w.cuts _ _ _ hg).lt_block)).2 ⟨rfl, hal, hf⟩

/-- What lies in different runs is different. -/
theorem Surveyed.nodup_flatMap {α : Type} (w : Surveyed h runs) {f : Nat × Entry → List α}
    (blockAt : α → Nat) (each : ∀ p ∈ runs, (f p).Nodup ∧ ∀ x ∈ f p, blockAt x = p.1) :
    (runs.flatMap f).Nodup := by
  refine List.pairwise_flatMap.2 ⟨fun p hp => (each p hp).1, ?_⟩
  refine w.increase.imp_of_mem fun {p q} hp hq hlt x hx y hy heq => ?_
  have h₁ := (each p hp).2 x hx
  have h₂ := (each q hq).2 y hy
  rw [heq, h₂] at h₁
  omega

theorem Surveyed.nodup_freeFragmentsOf (w : Surveyed h runs) (log2 : Nat) :
    (h.freeFragmentsOf runs log2).Nodup := by
  refine w.nodup_flatMap h.blockOf fun p hp => ?_
  obtain ⟨b, e⟩ := p
  obtain ⟨hg, -⟩ := (w.mem_iff b e).1 hp
  cases e with
  | fragmented k nfree =>
    have hlt := Nat.le_of_lt (w.cuts _ _ _ hg).lt_block
    simp only
    split
    · exact ⟨nodup_freeFragmentsIn h b k, fun x hx => ((mem_freeFragmentsIn hlt).1 hx).1⟩
    · exact ⟨List.nodup_nil, fun x hx => by cases hx⟩
  | _ => exact ⟨List.nodup_nil, fun x hx => by cases hx⟩

theorem CutCounted.isSaneCut {block log2 nfree : Nat} (hok : h.CutCounted block log2 nfree) :
    h.isSaneCut log2 nfree = true := by
  simp [Heap.isSaneCut, hok.min_le, hok.lt_block, hok.some_busy]

/-- The check finds nothing wrong with just the blocks that are counted right. -/
theorem isCutDefect_eq_false_iff {block log2 nfree : Nat} :
    h.isCutDefect (block, .fragmented log2 nfree) = false ↔ h.CutCounted block log2 nfree := by
  simp only [isCutDefect, isSaneCut, mapAgrees, BusyMaps.count?, BusyMaps.reaches,
    Bool.not_eq_false', Bool.and_eq_true, decide_eq_true_eq, beq_iff_eq, Option.map_eq_some_iff,
    Bool.not_eq_true']
  constructor
  · rintro ⟨⟨⟨hmin, hlt⟩, hfree⟩, ⟨m, hm, hcount⟩, hreach⟩
    rw [hm, Option.any_some] at hreach
    have hbound := BusyMap.reaches_eq_false_iff.1 hreach
    exact ⟨hmin, hlt, hfree, m, hm, by rw [← BusyMap.count_eq_of_bound hbound, hcount], hbound⟩
  · rintro ⟨hmin, hlt, hfree, m, hm, hcount, hbound⟩
    refine ⟨⟨⟨hmin, hlt⟩, hfree⟩, ⟨m, hm, by rw [BusyMap.count_eq_of_bound hbound, hcount]⟩, ?_⟩
    rw [hm, Option.any_some]
    exact BusyMap.reaches_eq_false_iff.2 hbound

/-- The table expects as many fragments on a list as there are free ones. -/
theorem Surveyed.length_freeFragmentsOf (w : Surveyed h runs) (log2 : Nat) :
    (h.freeFragmentsOf runs log2).length = Size.total (runs.map (h.listedBy log2)) := by
  have count (p : Nat × Entry) (hp : p ∈ runs) : (match p.2 with
      | .fragmented k _ => if k = log2 then h.freeFragmentsIn p.1 k else []
      | _ => [] : List Nat).length = h.listedBy log2 p := by
    obtain ⟨b, e⟩ := p
    obtain ⟨hg, -⟩ := (w.mem_iff b e).1 hp
    cases e <;> try rfl
    rename_i k nfree
    have hok := w.cuts _ _ _ hg
    simp only [listedBy, hok.isSaneCut, and_true]
    split
    · exact hok.length_freeFragmentsIn
    · rfl
  rw [freeFragmentsOf, Size.length_flatMap]
  exact congrArg Size.total (List.map_congr_left count)

/-! ## Following a list -/

/-- A free fragment can hold links, and is not in use. -/
theorem canHoldFragment_of_free {x log2 : Nat} (hsmall : h.region.size < Size.limit)
    (hx : h.freeFragment x = some log2) (hplace : h.HoldsLinks x) :
    h.canHoldFragment log2 x = true := by
  obtain ⟨hc, hal, -⟩ := freeFragment_eq_some.1 hx
  obtain ⟨nfree, hg⟩ := cutLog2?_eq_some.1 hc
  have := hplace.2
  simp only [canHoldFragment, hg, hal, Bool.and_eq_true, decide_eq_true_eq, beq_self_eq_true,
    and_true]
  omega

/-- Following links that describe a list of free fragments counts them and finds nothing wrong. -/
theorem walkFragments?_of_chained {log2 : Nat} {head : Option Nat} {members : List Nat}
    (hsmall : h.region.size < Size.limit)
    (c : Chained h.nextFragment h.prevFragment head members)
    (hfree : ∀ x ∈ members, h.freeFragment x = some log2 ∧ h.HoldsLinks x)
    (fuel i met : Nat) (previous : Option Nat) (hfuel : members.length ≤ i + fuel)
    (hprev : ∀ x, members[i]? = some x → h.prevFragment x = previous) :
    h.walkFragments? log2 fuel previous members[i]? (met, 0) =
      some (met + (members.length - i), 0) := by
  induction fuel generalizing i met previous with
  | zero =>
    rw [List.getElem?_eq_none (by omega), walkFragments?, show members.length - i = 0 by omega]
    rfl
  | succ fuel ih =>
    cases hi : members[i]? with
    | none =>
      rw [walkFragments?, show members.length - i = 0 by
        have := List.getElem?_eq_none_iff.1 hi
        omega]
      rfl
    | some x =>
      obtain ⟨hx, hplace⟩ := hfree x (List.mem_of_getElem? hi)
      obtain ⟨hlt, -⟩ := List.getElem?_eq_some_iff.1 hi
      have hlive := (freeFragment_eq_some.1 hx).2.2
      rw [walkFragments?, if_pos (canHoldFragment_of_free hsmall hx hplace), linksAt?_eq hplace]
      simp only [hlive, Bool.false_eq_true, if_false, hprev x hi, if_true, Nat.add_zero]
      rw [c.next_eq i x hi, ih (i + 1) (met + 1) (some x) (by omega)
        fun y hy => by rw [c.prev_succ i y hy, hi]]
      congr 2
      omega

/-- The check of a list of just the free fragments of its size finds nothing. -/
theorem listDefects?_eq {log2 : Nat} {members : List Nat} (s : Surveyed h runs)
    (hsmall : h.region.size < Size.limit)
    (c : Chained h.nextFragment h.prevFragment (h.listHead log2) members)
    (hm : ∀ x, x ∈ members ↔ h.freeFragment x = some log2)
    (hplace : ∀ x ∈ members, h.HoldsLinks x) : h.listDefects? runs log2 = some 0 := by
  have hperm := (List.perm_ext_iff_of_nodup c.nodup (s.nodup_freeFragmentsOf log2)).2 fun x => by
    rw [hm, s.mem_freeFragmentsOf]
  have hlen : members.length = Size.total (runs.map (h.listedBy log2)) := by
    rw [hperm.length_eq, s.length_freeFragmentsOf]
  have hwalk := walkFragments?_of_chained hsmall c
    (fun x hx => ⟨(hm x).1 hx, hplace x hx⟩) members.length 0 0 none (by omega)
    fun x hx => c.prev_zero x hx
  rw [listDefects?]
  show (h.walkFragments? log2 (Size.total (runs.map (h.listedBy log2))) none (h.listHead log2) (0, 0)).bind
    _ = _
  rw [← hlen, c.head_eq, hwalk, Option.bind_some]
  simp

/-- No list is followed further than its links can be read, and wherever it leads, it is left after
as many fragments as there is fuel. -/
theorem exists_walkFragments? (h : Heap) (log2 fuel : Nat) (previous cursor : Option Nat)
    (met : Nat × Nat) : ∃ found, h.walkFragments? log2 fuel previous cursor met = some found ∧
      found.1 ≤ met.1 + fuel := by
  induction fuel generalizing previous cursor met with
  | zero => cases cursor <;> exact ⟨_, rfl, Nat.le_refl _⟩
  | succ fuel ih =>
    cases cursor with
    | none => exact ⟨_, rfl, Nat.le_add_right _ _⟩
    | some offset =>
      rw [walkFragments?]
      split
      · rename_i hcan
        simp only [canHoldFragment, Bool.and_eq_true, decide_eq_true_eq] at hcan
        obtain ⟨next, hn⟩ := arenaNumber?_eq_some
          (show h.arenaStart + offset + 8 ≤ h.region.size by omega)
        obtain ⟨prev, hp⟩ := arenaNumber?_eq_some
          (show h.arenaStart + (offset + 8) + 8 ≤ h.region.size by omega)
        have hlinks : h.linksAt? offset = some (Link.decode next, Link.decode prev) := by
          rw [linksAt?, hn, hp]
          rfl
        rw [hlinks]
        obtain ⟨found, hw, hle⟩ := ih (some offset) (Link.decode next) (met.1 + 1, _)
        exact ⟨found, hw, Nat.le_trans hle (by simp only; omega)⟩
      · exact ⟨_, rfl, Nat.le_add_right _ _⟩

/-- The check of a heap whose block table can be checked ends, whatever its lists look like. -/
theorem exists_defects? (ht : ∃ d, h.table.defects? = some d) (hle : h.arenaStart ≤ h.region.size) :
    ∃ d, h.defects? = some d := by
  obtain ⟨d, ht⟩ := ht
  obtain ⟨runs, hr⟩ : ∃ runs, h.table.runs? = some runs := by
    rw [BlockTable.defects?] at ht
    obtain ⟨runs, hr, -⟩ := Option.bind_eq_some_iff.1 ht
    exact ⟨runs, hr⟩
  have harena : h.arenaSize? = some (h.region.size - h.arenaStart) := Size.sub?_eq_some_iff.2 ⟨hle, rfl⟩
  obtain ⟨lists, hlists⟩ : ∃ lists, (List.range h.freeLists.size).mapM (h.listDefects? runs) =
      some lists := exists_mapM fun log2 _ => by
    obtain ⟨found, hw, -⟩ := exists_walkFragments? h log2
      (Size.total (runs.map (h.listedBy log2))) none h.freeLists[log2]?.join (0, 0)
    rw [listDefects?]
    exact ⟨_, Option.bind_eq_some_iff.2 ⟨found, hw, rfl⟩⟩
  rw [defects?, ht, hr]
  simp only [Option.bind_eq_bind, Option.bind_some, harena, hlists]
  exact ⟨_, rfl⟩

/-! ## Heaps without defects -/

/-- The cut blocks are among what a walk meets. -/
theorem Surveyed.mem_cuts (s : Surveyed h runs) {block : Nat} :
    block ∈ (runs.filter isCut).map Prod.fst ↔ ∃ log2, h.cutLog2? block = some log2 := by
  rw [List.mem_map]
  constructor
  · rintro ⟨⟨b, e⟩, hp, rfl⟩
    obtain ⟨hp, hcut⟩ := List.mem_filter.1 hp
    obtain ⟨hg, -⟩ := (s.mem_iff b e).1 hp
    cases e <;> try cases hcut
    exact ⟨_, cutLog2?_eq_some.2 ⟨_, hg⟩⟩
  · rintro ⟨log2, hc⟩
    obtain ⟨nfree, hg⟩ := cutLog2?_eq_some.1 hc
    exact ⟨(block, .fragmented log2 nfree),
      List.mem_filter.2 ⟨(s.mem_iff _ _).2 ⟨hg, rfl⟩, rfl⟩, rfl⟩

theorem Surveyed.nodup_cuts (s : Surveyed h runs) : ((runs.filter isCut).map Prod.fst).Nodup :=
  List.pairwise_map.2 ((s.increase.filter _).imp fun hlt => Nat.ne_of_lt hlt)

/-- A list without repetition of just the cut blocks is as long as a walk says. -/
theorem Surveyed.countP_isCut (s : Surveyed h runs) {blocks : List Nat} (nodup : blocks.Nodup)
    (hmem : ∀ block, block ∈ blocks ↔ ∃ log2, h.cutLog2? block = some log2) :
    blocks.length = runs.countP isCut := by
  have hperm := (List.perm_ext_iff_of_nodup nodup s.nodup_cuts).2 fun block => by
    rw [hmem, s.mem_cuts]
  rw [hperm.length_eq, List.length_map, List.countP_eq_length_filter]

/-- The fragments of a heap are in order: the blocks with a map are the cut ones, each is counted
right, and each list leads there and back through just the free fragments of its size. -/
structure FragmentsSound (h : Heap) : Prop where
  cuts : ∀ block log2 nfree, h.table.get? block = some (.fragmented log2 nfree) →
    h.CutCounted block log2 nfree
  maps : ∀ block m, h.busy.find? block = some m → ∃ log2, h.cutLog2? block = some log2
  lists : ∀ log2 < h.freeLists.size, ∃ members,
    Chained h.nextFragment h.prevFragment (h.listHead log2) members ∧
      ∀ x, x ∈ members ↔ h.freeFragment x = some log2

namespace FragmentsSound

variable (f : h.FragmentsSound)
include f

/-- There is one busy map for each cut block. -/
theorem size_busy (s : Surveyed h runs) : h.busy.size = runs.countP isCut := by
  have nodup : (h.busy.pairs.map Prod.fst).Nodup :=
    List.pairwise_map.2 (h.busy.increasing.imp fun hlt => Nat.ne_of_lt hlt)
  rw [OrderedMap.size, ← List.length_map Prod.fst]
  refine s.countP_isCut nodup fun block => ?_
  rw [List.mem_map]
  constructor
  · rintro ⟨p, hp, rfl⟩
    exact f.maps p.1 p.2 (OrderedMap.find?_of_mem hp)
  · rintro ⟨log2, hc⟩
    obtain ⟨nfree, hg⟩ := cutLog2?_eq_some.1 hc
    obtain ⟨m, hm, -⟩ := (f.cuts _ _ _ hg).map
    exact ⟨(block, m), (BlockTable.lookupPair_eq_some_iff h.busy.increasing).1 hm, rfl⟩

/-- A region that holds the whole arena holds the links of each free fragment. -/
theorem holdsLinks (hcover : h.arenaStart + h.blockCount * h.blockSize ≤ h.region.size) {x log2 : Nat}
    (hx : h.freeFragment x = some log2) : h.HoldsLinks x := by
  obtain ⟨hc, hal, -⟩ := freeFragment_eq_some.1 hx
  obtain ⟨nfree, hg⟩ := cutLog2?_eq_some.1 hc
  have hok := f.cuts _ _ _ hg
  have h16 : 16 ∣ fragmentSize log2 := one_shiftLeft_dvd hok.min_le
  have hle : 16 ≤ fragmentSize log2 := one_shiftLeft_le hok.min_le
  refine ⟨Nat.mod_eq_zero_of_dvd (Nat.dvd_trans h16 (Nat.dvd_of_mod_eq_zero hal)), ?_⟩
  -- the last byte of the fragment lies in its block
  have hlast := blockOf_fragment (h := h) (i := fragmentSize log2 - 1) (Nat.le_of_lt hok.lt_block) hal
    (by omega)
  have : h.blockOf (x + (fragmentSize log2 - 1)) < h.blockCount := by
    rw [hlast]
    exact BlockTable.lt_size_of_get? hg
  have := blockOf_lt_iff.1 this
  omega

/-- The check of a heap whose fragments are in order reports no defect. -/
theorem defects?_eq_none (hl : ∃ layout, h.table.LaidOut layout)
    (hcover : h.arenaStart + h.blockCount * h.blockSize ≤ h.region.size)
    (hsmall : h.region.size < Size.limit) : h.defects? = some {} := by
  obtain ⟨layout, hl⟩ := hl
  obtain ⟨runs, hr, hs, -, hmem⟩ := hl.toTiled.walk
  have s : Surveyed h runs := ⟨hs.keysIncrease, hmem, f.cuts⟩
  have harena : h.arenaSize? = some (h.region.size - h.arenaStart) :=
    Size.sub?_eq_some_iff.2 ⟨by omega, rfl⟩
  have hlists : (List.range h.freeLists.size).mapM (h.listDefects? runs) =
      some ((List.range h.freeLists.size).map fun _ => 0) :=
    mapM_eq_some fun log2 hlog => by
      obtain ⟨members, c, hm⟩ := f.lists log2 (List.mem_range.1 hlog)
      exact listDefects?_eq s hsmall c hm fun x hx => f.holdsLinks hcover ((hm x).1 hx)
  have hcut : runs.countP h.isCutDefect = 0 := by
    refine List.countP_eq_zero.2 fun p hp => ?_
    obtain ⟨b, e⟩ := p
    obtain ⟨hg, -⟩ := (s.mem_iff b e).1 hp
    cases e <;> try exact Bool.false_ne_true
    rw [isCutDefect_eq_false_iff.2 (f.cuts _ _ _ hg)]
    exact Bool.false_ne_true
  have hzero (n : Nat) : Size.total ((List.range n).map fun _ => 0) = 0 := by
    induction n with
    | zero => rfl
    | succ n ih => rw [List.range_succ, List.map_append, Size.total_append, ih]; rfl
  rw [defects?, hl.defects?_eq, hr]
  simp only [Option.bind_eq_bind, Option.bind_some, harena, hlists, hcut, f.size_busy s, if_true,
    hzero]

end FragmentsSound

/-! ## Well-formed heaps -/

namespace WellFormed

variable (w : h.WellFormed)
include w

theorem fragmentsSound : h.FragmentsSound where
  cuts block log2 nfree hg := (w.cuts block log2 nfree hg).counted
  maps := w.maps
  lists log2 _ := w.lists.threads log2

/-- The check of a well-formed heap reports no defect. -/
theorem defects?_eq_none : h.defects? = some {} :=
  w.fragmentsSound.defects?_eq_none w.laidOut (Nat.le_of_eq w.size_eq.symm) w.small

end WellFormed

end RegionHeap.Heap
