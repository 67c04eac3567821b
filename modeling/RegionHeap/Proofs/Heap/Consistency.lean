import RegionHeap.Proofs.Heap.Creation
import RegionHeap.Proofs.Heap.Histories

/-!
What is true of every heap that was created and then used, whatever its client did: the check finds
no defect, and the block table, its bins, the busy maps, the fragment lists and the length of the
region fit together. `Consistent` spells this out entry by entry, without the invariant that carries
it from one operation to the next.
-/
namespace RegionHeap.Heap

open BlockTable

/-- The parts of a heap fit together. -/
structure Consistent (h : Heap) : Prop where
  /-- Every block lies in one run, and no two free runs are neighbours. -/
  tiled : ∃ runs, h.table.Tiled runs ∧ Run.Apart runs
  /-- Inside a free run are inner blocks, and its last block leads back to the first. -/
  freeRun : ∀ block size next prev, h.table.get? block = some (.free size next prev) →
    0 < size ∧ block + size ≤ h.blockCount ∧
      (∀ i, 0 < i → i + 1 < size → h.table.get? (block + i) = some .freeBody) ∧
      (1 < size → h.table.get? (block + size - 1) = some (.freeTail block))
  /-- Every later block of a busy run holds its distance from the first. -/
  busyRun : ∀ block length, h.table.get? block = some (.run length) →
    0 < length ∧ block + length ≤ h.blockCount ∧
      ∀ i, 0 < i → i < length → h.table.get? (block + i) = some (.runBody i)
  /-- A block that holds a distance lies in a busy run that starts so far before it. -/
  continuation : ∀ block back, h.table.get? block = some (.runBody back) →
    back ≤ block ∧ ∃ length, h.table.get? (block - back) = some (.run length) ∧ back < length
  /-- Each bin lists every free run of its sizes once, linked both ways, and nothing else. -/
  bins : ∀ bin, ∃ members,
    Chained h.table.next h.table.prev (h.table.binHead bin) members ∧
      ∀ block, block ∈ members ↔ ∃ size next prev,
        h.table.get? block = some (.free size next prev) ∧ bin? size = some bin
  /-- A block that is cut into fragments has a live one, and counts those that are free. -/
  cut : ∀ block log2 nfree, h.table.get? block = some (.fragmented log2 nfree) →
    (∃ start, h.blockOf start = block ∧ h.objectAt start = some (fragmentSize log2)) ∧
      (h.freeFragmentsIn block log2).length = nfree
  /-- Each fragment list holds every free fragment of its size once, linked both ways, and nothing
  else. -/
  lists : ∀ log2, ∃ members,
    Chained h.nextFragment h.prevFragment (h.listHead log2) members ∧
      ∀ start, start ∈ members ↔ h.cutLog2? (h.blockOf start) = some log2 ∧
        start % fragmentSize log2 = 0 ∧
        h.isLiveFragment (h.blockOf start) start log2 = false
  length : h.region.size = h.arenaStart + h.blockCount * h.blockSize
  floor_le : h.floor ≤ h.blockCount
  count_le : h.blockCount ≤ h.maxBlocks

variable {h h' : Heap}

theorem WellFormed.consistent (w : h.WellFormed) : h.Consistent := by
  obtain ⟨runs, hl⟩ := w.laidOut
  refine ⟨⟨runs, hl.toTiled, hl.apart⟩, fun _ _ _ _ hg => hl.toTiled.freeBlocks hg,
    fun _ _ hg => hl.toTiled.bodies hg, fun _ _ hg => hl.toTiled.head_of_body hg, fun bin => ?_,
    fun block log2 nfree hg => ?_, fun log2 => ?_, w.size_eq, w.floor_le, w.count_le⟩
  · obtain ⟨members, c, hm⟩ := hl.listed.threads bin
    refine ⟨members, c, fun block => (hm block).trans (Option.map_eq_some_iff.trans ⟨?_, ?_⟩)⟩
    · rintro ⟨size, hs, rfl⟩
      obtain ⟨next, prev, hg⟩ := exists_free_of_bare? (freeSize?_eq_some.1 hs)
      exact ⟨size, next, prev, hg, bin?_eq (hl.toTiled.freeBlocks hg).1⟩
    · rintro ⟨size, next, prev, hg, hb⟩
      rw [bin?_eq (hl.toTiled.freeBlocks hg).1, Option.some.injEq] at hb
      exact ⟨size, freeSize?_eq_some.2 (bare?_of_get? hg), hb⟩
  · have hok := w.cuts block log2 nfree hg
    exact ⟨hok.exists_live hg, hok.length_freeFragmentsIn⟩
  · obtain ⟨members, c, hm⟩ := w.lists.threads log2
    exact ⟨members, c, fun start => (hm start).trans freeFragment_eq_some⟩

/-- Whatever a client does with a heap that was created, and whatever the region refuses, the check
finds no defect and the parts of the heap fit together. On a region that a host can have, nothing
that the client asks for next is a trap. -/
theorem consistent_of_created {host : Host} {g : Geometry} {region : Region}
    (hc : create host g region = .ok h)
    (r : Reaches h h') :
    h'.defects? = some {} ∧ h'.Consistent ∧
      (region.capacity < memoryLimit → ∀ refusals (op : Operation) h'',
        op.run (h'.withRefusals refusals) ≠ .error .trap h'') := by
  have c := create_eq_ok hc
  obtain ⟨w, -⟩ := r.wellFormed c.wellFormed
  exact ⟨w.defects?_eq_none, w.consistent, fun hcap refusals op _ =>
    r.no_trap c.wellFormed (c.roomy hcap) refusals op⟩

theorem consistent_small : ∃ h h', create .ample smallGeometry smallRegion = .ok h ∧
    h.after? [.allocate 100, .allocate 300, .free 256, .shrink 2, .free 7] = some h' ∧
      h'.defects? = some {} ∧ h'.Consistent := by
  obtain ⟨h, h', hc, ha⟩ := created_of_smallAfter?
    [.allocate 100, .allocate 300, .free 256, .shrink 2, .free 7] (by decide +kernel)
  obtain ⟨hd, hcons, -⟩ := consistent_of_created hc (Reaches.start.of_after? ha)
  exact ⟨h, h', hc, ha, hd, hcons⟩

end RegionHeap.Heap
