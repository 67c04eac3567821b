import Mathlib.Data.List.Dedup
import RegionHeap.Proofs.Heap.Custody
import RegionHeap.Proofs.Heap.Figures

/-!
The figures of use against an account of the objects. An account is a list of places, each by start
and length, and a list of names. What the figures should be is said of such lists alone, apart from
the free fragments, which are those on the heap's lists (`Reckoned`). Two accounts give the figures
of a heap: the objects that its tables describe, whatever was asked for before, and the book of a
client that gave up only handles that it held (`usage_reckoned`).
-/
namespace RegionHeap

open Heap BlockTable

variable {h : Heap} {host : Host} {g : Geometry} {region : Region} {book saved : Book}
  {runs : List (Nat × Entry)}
variable {objects objects' : List (Nat × Nat)} {names names' : List String} {u : Usage}

/-! ## Accounts of objects -/

/-- The blocks with objects smaller than a block, each once. -/
def cutBlocks (objects : List (Nat × Nat)) (blockSize : Nat) : List Nat :=
  ((objects.filter (·.2 < blockSize)).map (·.1 / blockSize)).dedup

/-- Some object has bytes in the block. -/
def ReachedIn (objects : List (Nat × Nat)) (blockSize block : Nat) : Prop :=
  ∃ o ∈ objects, o.1 < (block + 1) * blockSize ∧ block * blockSize < o.1 + o.2

/-- These are the figures of a heap with these objects and names. An object of a block or more is a
run of blocks, and a smaller one is a fragment. -/
structure Reckoned (h : Heap) (objects : List (Nat × Nat)) (names : List String) (u : Usage) :
    Prop where
  bytesTotal_eq : u.bytesTotal = h.blockCount * h.blockSize
  bytes_eq : u.bytesUsed + u.bytesFree = u.bytesTotal
  bytesUsed_eq : u.bytesUsed = Size.total (objects.map Prod.snd)
  fragmentsUsed_eq : u.fragmentsUsed = objects.countP (·.2 < h.blockSize)
  fragmentsFree_eq : ∃ lists : Nat → List Nat,
    (∀ log2, Chained h.nextFragment h.prevFragment (h.listHead log2) (lists log2)) ∧
      u.fragmentsFree =
        Size.total ((List.range h.freeLists.size).map fun log2 => (lists log2).length)
  chunksUsed_eq : u.chunksUsed =
    objects.countP (h.blockSize ≤ ·.2) + (cutBlocks objects h.blockSize).length
  chunksFree_eq : ∃ gaps : List (Nat × Nat), gaps.Nodup ∧
    (∀ start count, (start, count) ∈ gaps ↔
      IsGap (ReachedIn objects h.blockSize) h.blockCount start count) ∧
      u.chunksFree = gaps.length
  namedObjects_eq : u.namedObjects = names.length

theorem mem_cutBlocks {blockSize block : Nat} :
    block ∈ cutBlocks objects blockSize ↔
      ∃ s l, (s, l) ∈ objects ∧ l < blockSize ∧ s / blockSize = block := by
  rw [cutBlocks, List.mem_dedup, List.mem_map]
  constructor
  · rintro ⟨⟨s, l⟩, ho, rfl⟩
    obtain ⟨ho, hlt⟩ := List.mem_filter.1 ho
    exact ⟨s, l, ho, of_decide_eq_true hlt, rfl⟩
  · rintro ⟨s, l, ho, hlt, rfl⟩
    exact ⟨(s, l), List.mem_filter.2 ⟨ho, decide_eq_true hlt⟩, rfl⟩

theorem reachedIn_of_perm (ho : objects'.Perm objects) : ReachedIn objects' = ReachedIn objects := by
  funext blockSize block
  simp only [ReachedIn, ho.mem_iff]

/-- The order of an account is of no matter. -/
theorem Reckoned.of_perm (r : Reckoned h objects names u) (ho : objects'.Perm objects)
    (hn : names'.Perm names) : Reckoned h objects' names' u where
  bytesTotal_eq := r.bytesTotal_eq
  bytes_eq := r.bytes_eq
  bytesUsed_eq := r.bytesUsed_eq.trans (Size.total_perm (ho.map Prod.snd)).symm
  fragmentsUsed_eq := r.fragmentsUsed_eq.trans (ho.countP_eq _).symm
  fragmentsFree_eq := r.fragmentsFree_eq
  chunksUsed_eq := by
    have hcut : (cutBlocks objects' h.blockSize).Perm (cutBlocks objects h.blockSize) :=
      ((ho.filter _).map _).dedup
    rw [r.chunksUsed_eq, ho.countP_eq, hcut.length_eq]
  chunksFree_eq := by
    rw [reachedIn_of_perm ho]
    exact r.chunksFree_eq
  namedObjects_eq := r.namedObjects_eq.trans hn.length_eq.symm

/-! ## The objects that a heap describes -/

namespace Heap

/-- A block is in use where an object has bytes, and only there. -/
theorem WellFormed.reachedIn_eq (w : h.WellFormed)
    (hobjects : ∀ s l, (s, l) ∈ objects ↔ h.objectAt s = some l) :
    ReachedIn objects h.blockSize = h.table.occupancy.Covers := by
  funext block
  obtain ⟨layout, hl⟩ := w.laidOut
  rw [hl.toTiled.covers_iff, eq_iff_iff]
  constructor
  · rintro ⟨⟨s, l⟩, ho, hlo, hhi⟩
    have hs := (hobjects s l).1 ho
    have hpos := (w.object_bounds hs).1
    have hblock := h.blockSize_pos
    simp only [Nat.add_mul, Nat.one_mul] at hlo hhi
    -- the first byte of the object that lies in the block
    obtain ⟨offset, hb, hlow, hhigh⟩ : ∃ offset, h.blockOf offset = block ∧ s ≤ offset ∧
        offset < s + l := by
      refine ⟨block * h.blockSize + (s - block * h.blockSize), ?_, by omega, by omega⟩
      exact blockOf_add (by omega)
    rw [← hb]
    exact w.inUse?_of_objectAt hs hlow hhigh
  · intro hu
    obtain ⟨s, l, hs, hlo, hhi⟩ := w.exists_objectAt hu
    rw [blockStart] at hlo hhi
    exact ⟨(s, l), (hobjects s l).2 hs, by rwa [Nat.add_mul, Nat.one_mul], hhi⟩

/-- There is one cut block for each block with objects smaller than a block. -/
theorem Walked.length_cutBlocks (wk : Walked h runs) (w : h.WellFormed)
    (hobjects : ∀ s l, (s, l) ∈ objects ↔ h.objectAt s = some l) :
    (cutBlocks objects h.blockSize).length = runs.countP isCut := by
  have nodup : (cutBlocks objects h.blockSize).Nodup := List.nodup_dedup _
  refine wk.surveyed.countP_isCut nodup fun block => ?_
  rw [mem_cutBlocks]
  constructor
  · rintro ⟨s, l, ho, hlt, hb⟩
    rcases objectAt_eq_some.1 ((hobjects s l).1 ho) with ⟨log2, hc, -⟩ | ⟨n, hr, -, rfl⟩
    · rw [blockOf_eq, hb] at hc
      exact ⟨log2, hc⟩
    · have := Nat.le_mul_of_pos_left h.blockSize (w.run_bounds hr).1
      omega
  · rintro ⟨log2, hc⟩
    obtain ⟨hlt, s, hb, hs⟩ := w.cutLog2?_eq_some_iff.1 hc
    exact ⟨s, _, (hobjects s _).2 hs, fragmentSize_lt_blockSize hlt, by rw [← blockOf_eq, hb]⟩

/-- The lists hold the free fragments that the table counts. -/
theorem Walked.length_free (wk : Walked h runs) (w : h.WellFormed) {lists : Nat → List Nat}
    (chained : ∀ log2, Chained h.nextFragment h.prevFragment (h.listHead log2) (lists log2))
    (hmem : ∀ log2 x, x ∈ lists log2 ↔ h.freeFragment x = some log2) :
    (runs.flatMap h.freeIn).length =
      Size.total ((List.range h.freeLists.size).map fun log2 => (lists log2).length) := by
  have nodup : ((List.range h.freeLists.size).flatMap lists).Nodup := by
    refine List.pairwise_flatMap.2 ⟨fun log2 _ => (chained log2).nodup, ?_⟩
    refine List.nodup_range.imp fun {i j} hne x hx y hy heq => hne ?_
    have hi := (hmem i x).1 hx
    rw [heq, (hmem j y).1 hy, Option.some.injEq] at hi
    exact hi.symm
  have hperm := (List.perm_ext_iff_of_nodup wk.nodup_free nodup).2 fun x => by
    rw [wk.mem_free, List.mem_flatMap]
    constructor
    · rintro ⟨log2, hx⟩
      exact ⟨log2, List.mem_range.2 (w.lists.place x log2 hx).1, (hmem log2 x).2 hx⟩
    · rintro ⟨log2, -, hx⟩
      exact ⟨log2, (hmem log2 x).1 hx⟩
  rw [hperm.length_eq, Size.length_flatMap]

/-- The figures of a well-formed heap are those of its objects. -/
theorem WellFormed.reckoned (w : h.WellFormed) :
    ∃ u objects, h.usage? = some u ∧ objects.Nodup ∧
      (∀ s l, (s, l) ∈ objects ↔ h.objectAt s = some l) ∧ Reckoned h objects h.names.names u := by
  obtain ⟨runs, u, hr, hu, wk, hsteps, t⟩ := w.tallied
  obtain ⟨layout, hl⟩ := w.laidOut
  have hobjects (s l : Nat) : (s, l) ∈ runs.flatMap h.objectsIn ↔ h.objectAt s = some l :=
    wk.mem_objects
  refine ⟨u, _, hu, wk.nodup_objects, hobjects, ?_⟩
  constructor
  case bytesTotal_eq => exact t.bytesTotal_eq
  case bytes_eq => rw [t.bytes_eq, t.bytesTotal_eq, hsteps, Nat.add_zero, Nat.zero_add]
  case bytesUsed_eq => rw [t.bytesUsed_eq, Nat.zero_add]
  case fragmentsUsed_eq => rw [t.fragmentsUsed_eq, Nat.zero_add]
  case fragmentsFree_eq =>
    have lists (log2 : Nat) := w.lists.threads log2
    refine ⟨fun log2 => (lists log2).choose, fun log2 => (lists log2).choose_spec.1, ?_⟩
    rw [t.fragmentsFree_eq, Nat.zero_add]
    exact wk.length_free w (fun log2 => (lists log2).choose_spec.1)
      fun log2 => (lists log2).choose_spec.2
  case chunksUsed_eq => rw [t.chunksUsed_eq, Nat.zero_add, wk.length_cutBlocks w hobjects]
  case chunksFree_eq =>
    obtain ⟨free, hfree, hk, hmem⟩ := hl.freeRuns?_eq
    rw [freeRuns?, hr, Option.map_some, Option.some.injEq] at hfree
    refine ⟨free, hk.imp fun hlt heq => ?_, fun start count => ?_, ?_⟩
    · rw [heq] at hlt
      exact Nat.lt_irrefl _ hlt
    · rw [hmem, w.reachedIn_eq hobjects]
      rfl
    · rw [t.chunksFree_eq, Nat.zero_add, hfree]
  case namedObjects_eq => rw [t.namedObjects_eq, w.names.size_eq w.names.nodup]

end Heap

/-! ## The book of a client -/

/-- Where the objects in the book are. -/
def Book.extents (b : Book) : List (Nat × Nat) := b.objects.pairs.map fun p => p.2.extent

namespace Heap

/-- The book has each object of the heap once. -/
theorem Guarded.nodup_extents (k : Guarded host g h book) : book.extents.Nodup := by
  refine List.pairwise_map.2 (book.objects.increasing.imp_of_mem fun {p q} hp hq hlt heq => ?_)
  have hp := OrderedMap.find?_of_mem hp
  have hq := OrderedMap.find?_of_mem hq
  obtain ⟨l, hstart⟩ := k.extent_eq hp
  obtain ⟨l', hstart'⟩ := k.extent_eq hq
  rw [hstart, hstart', Prod.mk.injEq] at heq
  exact absurd (k.tracks.own p.1 q.1 (Book.live_of_find? hp) (Book.live_of_find? hq) heq.1)
    (Nat.ne_of_lt hlt)

theorem Guarded.mem_extents (k : Guarded host g h book) {s l : Nat} :
    (s, l) ∈ book.extents ↔ h.objectAt s = some l := by
  rw [Book.extents, List.mem_map]
  constructor
  · rintro ⟨p, hp, heq⟩
    have hext := k.extents p.1 p.2 (OrderedMap.find?_of_mem hp)
    rw [heq] at hext
    exact (k.wellFormed.extentOf_eq_ok_iff.1 hext).1
  · intro hs
    obtain ⟨handle, hlive, hstart⟩ := k.tracks.complete s (by
      rw [hs]
      exact Option.some_ne_none l)
    obtain ⟨length, hobj, hext⟩ := k.extentOf_eq hlive
    have hstart : h.allocationOf handle = s := hstart
    rw [hstart, hs, Option.some.injEq] at hobj
    obtain ⟨x, hx⟩ : ∃ x, book.objects.find? handle = some x := by
      rw [Book.live, ne_eq, Option.map_eq_none_iff] at hlive
      exact Option.ne_none_iff_exists'.1 hlive
    rw [k.extents handle x hx, hstart, Except.ok.injEq, ← hobj] at hext
    exact ⟨(handle, x), (lookupPair_eq_some_iff book.objects.increasing).1 hx, hext⟩

/-- The figures of use of a heap, whatever was asked for before, are those of the objects that its
tables describe. They are those of the book, too, that its client has kept of all operations that
were granted, if it gave up only handles that it held. -/
theorem usage_reckoned (r : Reachable host g region h) :
    ∃ u objects, h.usage? = some u ∧ objects.Nodup ∧
      (∀ s l, (s, l) ∈ objects ↔ h.objectAt s = some l) ∧ Reckoned h objects h.names.names u ∧
      ∀ book saved, Custody host g region h book saved → Reckoned h book.extents book.names u := by
  obtain ⟨u, objects, hu, nodup, hobjects, reckoned⟩ := r.restorable.wellFormed.reckoned
  refine ⟨u, objects, hu, nodup, hobjects, reckoned, fun book saved c => ?_⟩
  have k := c.guarded.2.1
  refine reckoned.of_perm ?_ k.names.symm
  refine (List.perm_ext_iff_of_nodup k.nodup_extents nodup).2 fun o => ?_
  rw [hobjects, k.mem_extents]

/-- A fragment and a run of two blocks. -/
theorem usage_reckoned_small : ∃ h book saved u, Custody .ample smallGeometry smallRegion h book saved ∧
    h.usage? = some u ∧ Reckoned h book.extents book.names u ∧
      Size.total (book.extents.map Prod.snd) = 640 ∧ book.extents.countP (·.2 < h.blockSize) = 1 := by
  have run : ((create .ample smallGeometry smallRegion).toOption.bind fun h =>
      (h.answering? (.allocate 100) 0).bind fun h => (h.answering? (.allocate 300) 256).bind fun h =>
        if h.usage?.map (fun u => (u.bytesUsed, u.fragmentsUsed)) = some (640, 1)
          then some h else none).isSome = true := by
    decide +kernel
  obtain ⟨_, run⟩ := Option.isSome_iff_exists.1 run
  obtain ⟨h₀, hc, run⟩ := Option.bind_eq_some_iff.1 run
  obtain ⟨h₁, run₁, run⟩ := Option.bind_eq_some_iff.1 run
  obtain ⟨h, run₂, run⟩ := Option.bind_eq_some_iff.1 run
  obtain ⟨hfigures, -⟩ := Option.ite_none_right_eq_some.1 run
  have hc := toOption_eq_some_iff.1 hc
  obtain ⟨book, saved, c, -⟩ := ((Serves.start.answered run₁ rfl).answered run₂ rfl).custody hc
  obtain ⟨u, -, hu, -, -, -, hbook⟩ := usage_reckoned c.guarded.1
  have r := hbook book saved c
  rw [hu, Option.map_some, Option.some.injEq, Prod.mk.injEq] at hfigures
  exact ⟨h, book, saved, u, c, hu, r, r.bytesUsed_eq.symm.trans hfigures.1,
    r.fragmentsUsed_eq.symm.trans hfigures.2⟩

end Heap

end RegionHeap
