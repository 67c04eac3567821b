import RegionHeap.Proofs.Blocks.Accepting
import RegionHeap.Proofs.Heap.Checking

/-!
What the check of a heap accepts. A list of fragments is followed by its links, and each step asks
for the link back, so a list that is followed to its end holds no fragment twice; as it also holds
as many fragments as there are free ones, it holds just these (`threads_of_listDefects?`). Once its block
table is in order, a heap without defects has its fragments in order (`fragmentsSound_of_defects?`),
and the rest of its parts given, it is well-formed (`wellFormed_of_defects?`).
-/
namespace RegionHeap.Heap

open BlockTable

variable {h : Heap} {runs : List (Nat × Entry)}

/-! ## Following a list -/

theorem links_of_linksAt? {offset : Nat} {next prev : Option Nat}
    (hl : h.linksAt? offset = some (next, prev)) :
    h.nextFragment offset = next ∧ h.prevFragment offset = prev := by
  simp only [linksAt?, Option.bind_eq_bind, Option.bind_eq_some_iff, Option.some.injEq,
    Prod.mk.injEq] at hl
  obtain ⟨n, hn, p, hp, rfl, rfl⟩ := hl
  rw [nextFragment, prevFragment, hn, hp]
  exact ⟨rfl, rfl⟩

/-- What a walk without defects has met, from a fragment on. -/
structure Followed (h : Heap) (log2 : Nat) (previous cursor : Option Nat) (members : List Nat) :
    Prop where
  start : cursor = members[0]?
  next_eq : ∀ i x, members[i]? = some x → h.nextFragment x = members[i + 1]?
  prev_zero : ∀ x, members[0]? = some x → h.prevFragment x = previous
  prev_succ : ∀ i x, members[i + 1]? = some x → h.prevFragment x = members[i]?
  holds : ∀ x ∈ members, h.canHoldFragment log2 x = true ∧
    h.isLiveFragment (h.blockOf x) x log2 = false

theorem followed_of_walkFragments? {log2 fuel found defects n : Nat} {previous cursor : Option Nat}
    (hw : h.walkFragments? log2 fuel previous cursor (found, defects) = some (n, 0)) :
    defects = 0 ∧ ∃ members, Followed h log2 previous cursor members ∧
      n = found + members.length := by
  induction fuel generalizing previous cursor found defects with
  | zero =>
    cases cursor with
    | none =>
      cases hw
      exact ⟨rfl, [], ⟨rfl, by simp, by simp, by simp, by simp⟩, rfl⟩
    | some x => simp [walkFragments?] at hw
  | succ fuel ih =>
    cases cursor with
    | none =>
      cases hw
      exact ⟨rfl, [], ⟨rfl, by simp, by simp, by simp, by simp⟩, rfl⟩
    | some x =>
      rw [walkFragments?] at hw
      split at hw
      · rename_i hcan
        cases hl : h.linksAt? x with
        | none => rw [hl] at hw; cases hw
        | some links =>
          obtain ⟨next, prev⟩ := links
          rw [hl] at hw
          obtain ⟨hd, members, hf, hn⟩ := ih hw
          obtain ⟨hnext, hprev⟩ := links_of_linksAt? hl
          have hlive : h.isLiveFragment (h.blockOf x) x log2 = false := by
            cases hb : h.isLiveFragment (h.blockOf x) x log2 with
            | false => rfl
            | true => rw [hb] at hd; simp at hd
          have hback : prev = previous := by
            refine Decidable.byContradiction fun hne => ?_
            rw [if_neg hne] at hd
            omega
          refine ⟨by omega, x :: members, ⟨rfl, fun i y hy => ?_, fun y hy => ?_, fun i y hy => ?_,
            fun y hy => ?_⟩, by rw [List.length_cons]; omega⟩
          · cases i with
            | zero =>
              cases hy
              rw [hnext, hf.start]
              rfl
            | succ i => exact hf.next_eq i y hy
          · cases hy
            rw [hprev, hback]
          · cases i with
            | zero => exact hf.prev_zero y hy
            | succ i => exact hf.prev_succ i y hy
          · rcases List.mem_cons.1 hy with rfl | hy
            · exact ⟨hcan, hlive⟩
            · exact hf.holds y hy
      · cases hw

/-- A fragment that the walk accepts is a free fragment of the size. -/
theorem freeFragment_of_canHold {log2 x : Nat} (hc : h.canHoldFragment log2 x = true)
    (hlive : h.isLiveFragment (h.blockOf x) x log2 = false) :
    h.freeFragment x = some log2 ∧ h.arenaStart + x + 16 ≤ h.region.size := by
  simp only [canHoldFragment, Bool.and_eq_true, decide_eq_true_eq, beq_iff_eq] at hc
  obtain ⟨⟨⟨-, hfit⟩, hal⟩, hcut⟩ := hc
  refine ⟨freeFragment_eq_some.2 ⟨?_, hal, hlive⟩, hfit⟩
  split at hcut
  · rename_i size nfree hg
    rw [← beq_iff_eq.1 hcut]
    exact cutLog2?_eq_some.2 ⟨nfree, hg⟩
  · cases hcut

/-- A list without defects holds just the free fragments of its size. -/
theorem threads_of_listDefects? {log2 : Nat} (s : Surveyed h runs)
    (hd : h.listDefects? runs log2 = some 0) : ∃ members,
      Chained h.nextFragment h.prevFragment (h.listHead log2) members ∧
        (∀ x, x ∈ members ↔ h.freeFragment x = some log2) ∧
        ∀ x ∈ members, h.arenaStart + x + 16 ≤ h.region.size := by
  rw [listDefects?] at hd
  obtain ⟨⟨found, defects⟩, hw, hd⟩ := Option.bind_eq_some_iff.1 hd
  simp only [Option.some.injEq] at hd
  split at hd
  · rename_i hfound
    subst hd
    obtain ⟨-, members, hf, hn⟩ := followed_of_walkFragments? hw
    have c : Chained h.nextFragment h.prevFragment (h.listHead log2) members :=
      Chained.of_links hf.start hf.next_eq hf.prev_zero hf.prev_succ
    have hfree (x : Nat) (hx : x ∈ members) := freeFragment_of_canHold (hf.holds x hx).1
      (hf.holds x hx).2
    have hlen : members.length = (h.freeFragmentsOf runs log2).length := by
      rw [s.length_freeFragmentsOf]
      omega
    have hsub : members ⊆ h.freeFragmentsOf runs log2 := fun x hx =>
      s.mem_freeFragmentsOf.2 (hfree x hx).1
    refine ⟨members, c, fun x => ⟨fun hx => (hfree x hx).1, fun hx => ?_⟩, fun x hx => (hfree x hx).2⟩
    -- one more free fragment would make more of them than were counted
    refine Decidable.byContradiction fun hnot => ?_
    have := (List.nodup_cons.2 ⟨hnot, c.nodup⟩).length_le_of_subset
      (List.cons_subset.2 ⟨s.mem_freeFragmentsOf.2 hx, hsub⟩)
    rw [List.length_cons] at this
    omega
  · cases hd

/-! ## Heaps without defects -/

/-- What is known of a heap before it is checked. -/
structure Checkable (h : Heap) : Prop where
  min_block : Geometry.minBlockLog2 ≤ h.blockLog2
  max_block : h.blockLog2 ≤ Geometry.maxBlockLog2
  map_size : ∀ block log2 nfree m, h.table.get? block = some (.fragmented log2 nfree) →
    h.busy.find? block = some m → m.size = BusyMap.wordsFor (h.fragmentsPerBlock log2)
  heads : h.freeLists.size = h.blockLog2
  size_eq : h.region.size = h.arenaStart + h.blockCount * h.blockSize
  small : h.region.size < Size.limit
  floor_le : h.floor ≤ h.blockCount
  count_le : h.blockCount ≤ h.maxBlocks
  tables : ∃ t, h.tables? = some (some t) ∧ t.stop ≤ h.arenaStart
  names : h.names.Sound
  records : h.aligned.Sound

theorem eq_zero_of_total {l : List Nat} (h : Size.total l = 0) {n : Nat} (hn : n ∈ l) : n = 0 := by
  induction l with
  | nil => cases hn
  | cons a l ih =>
    rw [Size.total_cons] at h
    rcases List.mem_cons.1 hn with rfl | hn
    · omega
    · exact ih (by omega) hn

theorem fragments_of_defects? {t : BlockTable} {d : Defects} (hd : t.defects? = some d) :
    d.fragments = 0 := by
  simp only [BlockTable.defects?, Option.bind_eq_bind, Option.bind_eq_some_iff,
    Option.some.injEq] at hd
  obtain ⟨_, -, _, -, _, -, rfl⟩ := hd
  rfl

/-- The parts of a check that finds no defect. -/
theorem parts_of_defects? (hd : h.defects? = some {}) : h.table.defects? = some {} ∧
    ∃ runs, h.table.runs? = some runs ∧ (∀ p ∈ runs, h.isCutDefect p = false) ∧
      h.busy.size = runs.countP isCut ∧
      ∀ log2, log2 < h.freeLists.size → h.listDefects? runs log2 = some 0 := by
  simp only [defects?, Option.bind_eq_bind, Option.bind_eq_some_iff, Option.some.injEq] at hd
  obtain ⟨d, ht, runs, hr, -, -, lists, hl, hd⟩ := hd
  have hnone := fragments_of_defects? ht
  obtain ⟨adjacents, misplaced, brokenTags, unbinned, fragments⟩ := d
  simp only [Defects.mk.injEq] at hd hnone
  obtain ⟨rfl, rfl, rfl, rfl, hfragments⟩ := hd
  subst hnone
  refine ⟨ht, runs, hr, fun p hp => ?_, ?_, fun log2 hlt => ?_⟩
  · have hzero : runs.countP h.isCutDefect = 0 := by omega
    simpa using List.countP_eq_zero.1 hzero p hp
  · refine Decidable.byContradiction fun hne => ?_
    rw [if_neg hne] at hfragments
    omega
  · obtain ⟨n, hn, hlog⟩ := exists_of_mapM hl (List.mem_range.2 hlt)
    rw [hlog, eq_zero_of_total (by omega) hn]

/-- There are as many maps as blocks that are cut, and each of these has one. -/
theorem Surveyed.cut_of_find? (s : Surveyed h runs) (hsize : h.busy.size = runs.countP isCut)
    {block : Nat} {m : BusyMap} (hm : h.busy.find? block = some m) :
    ∃ log2, h.cutLog2? block = some log2 := by
  refine Classical.byContradiction fun hnot => ?_
  have hkey {b : Nat} {m : BusyMap} (hm : h.busy.find? b = some m) :
      b ∈ h.busy.pairs.map Prod.fst :=
    List.mem_map.2 ⟨(b, m), (BlockTable.lookupPair_eq_some_iff h.busy.increasing).1 hm, rfl⟩
  have hle := (List.nodup_cons.2 ⟨fun hb => hnot (s.mem_cuts.1 hb), s.nodup_cuts⟩).length_le_of_subset
    (List.cons_subset.2 ⟨hkey hm, fun b hb => by
      obtain ⟨log2, hc⟩ := s.mem_cuts.1 hb
      obtain ⟨nfree, hg⟩ := cutLog2?_eq_some.1 hc
      obtain ⟨m, hm, -⟩ := (s.cuts b log2 nfree hg).map
      exact hkey hm⟩)
  rw [List.length_cons, List.length_map, List.length_map, ← List.countP_eq_length_filter, ← hsize,
    OrderedMap.size] at hle
  omega

/-- The fragments of a heap in which the check finds no defect are in order. -/
theorem fragmentsSound_of_defects? (hl : ∃ layout, h.table.LaidOut layout)
    (hd : h.defects? = some {}) : h.FragmentsSound := by
  obtain ⟨-, runs, hr, hcuts, hsize, hlists⟩ := parts_of_defects? hd
  obtain ⟨layout, hlaid⟩ := hl
  obtain ⟨pairs, hr', hs, -, hmem⟩ := hlaid.toTiled.walk
  rw [hr, Option.some.injEq] at hr'
  subst hr'
  have s : Surveyed h runs := ⟨hs.keysIncrease, hmem, fun block log2 nfree hg =>
    isCutDefect_eq_false_iff.1 (hcuts _ ((hmem _ _).2 ⟨hg, rfl⟩))⟩
  refine ⟨s.cuts, fun block m hm => s.cut_of_find? hsize hm, fun log2 hlt => ?_⟩
  obtain ⟨members, c, hmembers, -⟩ := threads_of_listDefects? s (hlists log2 hlt)
  exact ⟨members, c, hmembers⟩

/-- A heap in which the check finds no defect is well-formed, if its block table is in order. -/
theorem wellFormed_of_defects? (p : Checkable h) (hl : ∃ layout, h.table.LaidOut layout)
    (hd : h.defects? = some {}) : h.WellFormed := by
  have f := fragmentsSound_of_defects? hl hd
  have cuts (block log2 nfree : Nat) (hg : h.table.get? block = some (.fragmented log2 nfree)) :
      h.CutOk block log2 nfree := by
    obtain ⟨hmin, hlt, hfree, m, hm, hcount, hbound⟩ := f.cuts block log2 nfree hg
    refine ⟨hmin, hlt, hfree, m, hm, p.map_size block log2 nfree m hg hm, hbound, ?_⟩
    rw [BusyMap.count_eq_of_bound hbound]
    omega
  have hlog {x k : Nat} (hx : h.freeFragment x = some k) : k < h.freeLists.size := by
    obtain ⟨nfree, hg⟩ := cutLog2?_eq_some.1 (freeFragment_eq_some.1 hx).1
    rw [p.heads]
    exact (cuts _ _ _ hg).lt_block
  exact {
    min_block := p.min_block
    max_block := p.max_block
    laidOut := hl
    cuts := cuts
    maps := f.maps
    heads := p.heads
    lists := by
      refine ⟨fun x k hx => ⟨hlog hx, f.holdsLinks (Nat.le_of_eq p.size_eq.symm) hx⟩, fun k => ?_⟩
      by_cases hlt : k < h.freeLists.size
      · exact f.lists k hlt
      · -- there is no such list, and no such fragment
        refine ⟨[], ?_, fun x => ⟨fun hx => (nomatch hx), fun hx => absurd (hlog hx) hlt⟩⟩
        rw [listHead, Array.getElem?_eq_none (by omega)]
        exact Chained.nil
    size_eq := p.size_eq
    small := p.small
    floor_le := p.floor_le
    count_le := p.count_le
    tables := p.tables
    names := p.names
    records := p.records }

end RegionHeap.Heap
