import RegionHeap.Proofs.Heap.Placing
import RegionHeap.Proofs.Heap.Remembering

/-!
Frugal allocation. Over a region with the capacity that its geometry asks for, a heap is out of memory
exactly if no free fragment of the size, no free run and no longer arena would do; and it takes what
costs least: a free fragment before a block, free blocks before new ones, and of new ones only those
that are missing behind the last block in use (`allocate_frugal`).
-/
namespace RegionHeap.Heap

open HeapM BlockTable

variable {host : Host} {g : Geometry} {region region' : Region} {h h' : Heap} {handle size : Nat}

/-! ## The ground of a heap -/

/-- The heap has the blocks and the arena of a geometry. -/
structure StandsOn (host : Host) (g : Geometry) (h : Heap) : Prop where
  blockLog2_eq : h.blockLog2 = g.blockLog2
  maxBlocks_eq : h.maxBlocks = g.maxBlocks
  arenaStart_eq : g.arenaStart host = .ok h.arenaStart

theorem StandsOn.of_frame (s : StandsOn host g h) (hf : h'.frame = h.frame) : StandsOn host g h' where
  blockLog2_eq := (blockLog2_of_frame hf).trans s.blockLog2_eq
  maxBlocks_eq := (congrArg Frame.maxBlocks hf).trans s.maxBlocks_eq
  arenaStart_eq := by rw [s.arenaStart_eq, arenaStart_of_frame hf]

theorem standsOn_of_create (hc : create host g region = .ok h) : StandsOn host g h := by
  have hf := (create_eq_ok hc).frame_eq
  exact ⟨congrArg Frame.blockLog2 hf, congrArg Frame.maxBlocks hf, arenaStart_of_create hc⟩

theorem Recalls.standsOn {h₀ : Heap} (r : Recalls h₀ h) (s : StandsOn host g h₀) :
    StandsOn host g h := by
  rw [r.eq]
  exact ⟨s.blockLog2_eq, s.maxBlocks_eq, s.arenaStart_eq⟩

/-- Whatever a client does, the heap stands on the geometry that it was created for. -/
theorem Reachable.standsOn (r : Reachable host g region h) : StandsOn host g h := by
  suffices both : StandsOn host g h ∧ h.Remembers (StandsOn host g) from both.1
  induction r with
  | created hc =>
    have s := standsOn_of_create hc
    exact ⟨s, .of_created (create_eq_ok hc) s⟩
  | @used h₁ h₂ refusals op before leaves ih =>
    have w := before.restorable.wellFormed.withRefusals refusals
    have s : StandsOn host g (h₁.withRefusals refusals) :=
      ⟨ih.1.blockLog2_eq, ih.1.maxBlocks_eq, ih.1.arenaStart_eq⟩
    refine ⟨s.of_frame (Continues.of_leaves w leaves).frame_eq, ?_⟩
    by_cases hop : op = .sync
    · subst hop
      exact .of_sync (before.restorable.withRefusals refusals) s leaves
    · exact (ih.2.withRefusals refusals).kept w hop leaves
  | reopened before same loaded ih =>
    obtain ⟨h₀, s₀, recalls, remembers⟩ := ih.2.loaded before.restorable.wellFormed same loaded
    exact ⟨recalls.standsOn s₀, remembers⟩

/-- The capacity that a geometry asks for is that of the largest arena. -/
theorem StandsOn.regionBytes (s : StandsOn host g h) {bytes : Nat}
    (needed : g.regionBytes host = .ok bytes) :
    h.arenaStart + h.maxBlocks * h.blockSize = bytes ∧ h.frame.Roomy := by
  have hsize : 1 <<< g.blockLog2 = h.blockSize := by rw [blockSize, s.blockLog2_eq]
  simp only [Geometry.regionBytes, s.arenaStart_eq, ← s.maxBlocks_eq, hsize, bind, Except.bind] at needed
  split at needed
  · rename_i capacity hcapacity
    cases needed
    obtain ⟨arena, harena, htotal⟩ := Option.bind_eq_some_iff.1 hcapacity
    obtain ⟨-, rfl⟩ := Size.mul?_eq_some_iff.1 harena
    obtain ⟨hlt, rfl⟩ := Size.add?_eq_some_iff.1 htotal
    rw [Nat.add_comm] at hlt
    exact ⟨Nat.add_comm _ _, hlt⟩
  · cases needed

/-- A region with that capacity that refuses nothing of its own grants every arena. -/
theorem StandsOn.ample (s : StandsOn host g h) {bytes : Nat} (needed : g.regionBytes host = .ok bytes)
    (capacity : bytes ≤ h.region.capacity) (unrefused : h.region.refusals = none) : h.Ample := by
  intro wanted hle
  refine Region.exists_resize_iff.2 ⟨by rw [unrefused]; rfl, ?_⟩
  rw [(s.regionBytes needed).1] at hle
  exact Nat.le_trans hle capacity

/-! ## What is free -/

/-- A free fragment that is just as long as an object made for the size. -/
def FreeFor (h : Heap) (size offset : Nat) : Prop :=
  size ≤ h.blockSize / 2 ∧
    ∃ log2, h.freeFragment offset = some log2 ∧ h.MadeFor size (fragmentSize log2)

theorem freeFor_iff {offset : Nat} : h.FreeFor size offset ↔
    ∃ log2, h.sizeClass size = .fragment log2 ∧ h.freeFragment offset = some log2 := by
  have made := madeFor_sizeClass h size
  constructor
  · rintro ⟨hle, log2, hfree, hmade⟩
    cases hc : h.sizeClass size with
    | blocks count => exact absurd hle (half_lt_of_sizeClass hc)
    | fragment k =>
      rw [hc] at made
      exact ⟨k, rfl, by rw [hfree, fragmentSize_inj (made.unique hmade)]⟩
  · rintro ⟨log2, hc, hfree⟩
    rw [hc] at made
    exact ⟨le_half_of_sizeClass hc, log2, hfree, made⟩

theorem noneFree_iff : h.NoneFree (h.sizeClass size) ↔ ∀ offset, ¬h.FreeFor size offset := by
  constructor
  · intro none offset hfree
    obtain ⟨log2, hc, hx⟩ := freeFor_iff.1 hfree
    exact none log2 hc offset hx
  · intro none log2 hc offset hx
    exact none offset (freeFor_iff.2 ⟨log2, hc, hx⟩)

/-- The free runs as a walk lists them, and the free blocks at the end of the arena. -/
structure FreeBlocks (h : Heap) (runs : List (Nat × Nat)) (trailing : Nat) : Prop where
  runs_eq : h.table.freeRuns? = some runs
  trailing_eq : h.table.freeAtEnd? = some trailing
  mem_iff : ∀ block count, (block, count) ∈ runs ↔ h.table.freeSize? block = some count
  used_add : h.table.usedBlocks + trailing = h.blockCount

theorem WellFormed.exists_freeBlocks (w : h.WellFormed) :
    ∃ runs trailing, FreeBlocks h runs trailing := by
  obtain ⟨layout, hl⟩ := w.laidOut
  obtain ⟨runs, hruns, -, hmem⟩ := hl.toTiled.freeRuns?_eq
  exact ⟨runs, _, hruns, freeAtEnd?_eq hl, hmem, hl.usedBlocks_add⟩

variable {runs : List (Nat × Nat)} {trailing : Nat}

/-- Where a class lacks room, said by what is free. -/
theorem FreeBlocks.lacks_iff (f : FreeBlocks h runs trailing) : h.Lacks (h.sizeClass size) ↔
    (∀ offset, ¬h.FreeFor size offset) ∧ (∀ r ∈ runs, r.2 < h.blocksFor size) ∧
      h.maxBlocks < h.blockCount - trailing + h.blocksFor size := by
  have hused := f.used_add
  rw [Lacks, noneFree_iff, blockCount_sizeClass]
  refine and_congr_right fun _ => ?_
  constructor
  · intro full
    refine ⟨fun r hr => full.short r.1 r.2 ((f.mem_iff r.1 r.2).1 hr), ?_⟩
    have := full.max_lt
    omega
  · rintro ⟨short, hlt⟩
    refine ⟨fun block count hs => short (block, count) ((f.mem_iff block count).2 hs), ?_⟩
    omega

/-! ## Where the object lies -/

/-- A free fragment that is used again changes no block. -/
theorem Turns.freeRuns?_of_reused (w : h.WellFormed) {offset log2 : Nat}
    (hfree : h.freeFragment offset = some log2) (hcount : h'.blockCount = h.blockCount)
    (t : Turns h h' (replaced h.objectAt offset (some (fragmentSize log2)))) :
    h'.table.freeRuns? = h.table.freeRuns? := by
  obtain ⟨layout, hl⟩ := w.laidOut
  obtain ⟨layout', hl'⟩ := t.wellFormed.laidOut
  have hlog := blockLog2_of_frame t.frame_eq
  obtain ⟨hc, -, -⟩ := freeFragment_eq_some.1 hfree
  refine hl.freeRuns?_congr hl' hcount ?_
  intro block
  by_cases hb : block = h.blockOf offset
  · -- its block is cut before and after
    have hlt : log2 < h'.blockLog2 := by
      rw [hlog]
      exact (w.cut_bounds hc).2.1
    have hc' := t.wellFormed.cutLog2?_of_objectAt
      ((t.objects_eq offset).trans (replaced_self _ _ _)) hlt
    rw [show h'.blockOf offset = h.blockOf offset by rw [blockOf, blockOf, hlog]] at hc'
    rw [hb, lengthAt?_of_cutLog2? hc, lengthAt?_of_cutLog2? hc']
  · have same : SameIn h h' block := by
      refine ⟨w, t.wellFormed, hlog, fun start hs => ?_⟩
      rw [t.objects_eq, replaced_of_ne]
      rintro rfl
      exact hb hs.symm
    exact congrArg (Option.map Run.length) same.busyRun?_eq

/-- Where an allocation has put an object: in a free fragment if one would do, and no block is taken;
else at the low end of a free run that is long enough, and the arena is as long as before; else behind
the last block in use, and the arena is longer by what was missing there. -/
structure Frugal (h h' : Heap) (size handle : Nat) (runs : List (Nat × Nat)) (trailing : Nat) :
    Prop where
  fragment : (∃ offset, h.FreeFor size offset) →
    h.FreeFor size handle ∧ h'.blockCount = h.blockCount ∧ h'.table.freeRuns? = some runs
  inside : (∀ offset, ¬h.FreeFor size offset) → (∃ r ∈ runs, h.blocksFor size ≤ r.2) →
    h'.blockCount = h.blockCount ∧ ∃ r ∈ runs, h.blocksFor size ≤ r.2 ∧ handle = h.blockStart r.1
  behind : (∀ offset, ¬h.FreeFor size offset) → (∀ r ∈ runs, r.2 < h.blocksFor size) →
    trailing < h.blocksFor size ∧
      h'.blockCount = h.blockCount + (h.blocksFor size - trailing) ∧
      handle = h.blockStart (h.blockCount - trailing)

theorem Lodged.frugal (o : Lodged h h' handle (h.sizeClass size)) (w : h.WellFormed)
    (f : FreeBlocks h runs trailing) : Frugal h h' size handle runs trailing := by
  have hused := f.used_add
  have t := o.turns
  cases o.site with
  | @reused log2 class_eq free same =>
    have hfree : h.FreeFor size handle := freeFor_iff.2 ⟨log2, class_eq, free⟩
    have hcount := w.blockCount_eq t.wellFormed t.frame_eq same.size_eq
    rw [class_eq] at t
    exact {
      fragment := fun _ => ⟨hfree, hcount, (t.freeRuns?_of_reused w free hcount).trans f.runs_eq⟩
      inside := fun none => absurd hfree (none handle)
      behind := fun none => absurd hfree (none handle) }
  | @taken block h₁ noneFree handle_eq claimed placed same _ =>
    have none := noneFree_iff.1 noneFree
    have hcount := claimed.2.2.wellFormed.blockCount_eq t.wellFormed
      (t.frame_eq.trans claimed.2.2.frame_eq.symm) same.size_eq
    have hfragment : ¬∃ offset, h.FreeFor size offset := fun hx => none _ hx.choose_spec
    rw [blockCount_sizeClass] at placed
    cases placed with
    | inside fitted =>
      obtain ⟨count, hs, hle⟩ := fitted.exists_free
      have hr : (block, count) ∈ runs := (f.mem_iff block count).2 hs
      have hcount₁ := w.blockCount_eq claimed.2.2.wellFormed claimed.2.2.frame_eq
        fitted.sameExtent.size_eq
      exact {
        fragment := fun hx => absurd hx hfragment
        inside := fun _ _ => ⟨hcount.trans hcount₁, (block, count), hr, hle, handle_eq⟩
        behind := fun _ short => absurd hle (Nat.not_le_of_lt (short _ hr)) }
    | behind short block_eq grown =>
      have hrun (r : Nat × Nat) (hr : r ∈ runs) : r.2 < h.blocksFor size :=
        short r.1 r.2 ((f.mem_iff r.1 r.2).1 hr)
      obtain ⟨layout, hl⟩ := w.laidOut
      have htrailing : trailing < h.blocksFor size := by
        have hend := f.trailing_eq
        rw [freeAtEnd?_eq hl, Option.some.injEq] at hend
        rw [← hend]
        refine freeEnd_lt hl ?_ short
        rw [← blockCount_sizeClass]
        exact (claimed.2.2.wellFormed.run_bounds claimed.2.1).1
      have hblock : block = h.blockCount - trailing := by omega
      refine {
        fragment := fun hx => absurd hx hfragment
        inside := fun _ ⟨r, hr, hle⟩ => absurd hle (Nat.not_le_of_lt (hrun r hr))
        behind := fun _ _ => ⟨htrailing, ?_, by rw [handle_eq, hblock]⟩ }
      rw [hcount, grown.blockCount_eq]
      omega

/-- On a heap that a client may have, over a region that has the capacity for the largest arena and
refuses nothing of its own, an allocation is out of memory exactly if there is no free fragment for
it, no free run of the blocks that it needs, and with these behind the last block in use the arena
would be too long; then nothing changes. Otherwise it is granted, and as frugally as can be. -/
theorem allocate_frugal (reachable : Reachable host g region h) {bytes : Nat}
    (needed : g.regionBytes host = .ok bytes) (capacity : bytes ≤ h.region.capacity)
    (unrefused : h.region.refusals = none) (size : Nat) :
    ∃ runs trailing, h.table.freeRuns? = some runs ∧ h.table.freeAtEnd? = some trailing ∧
      (allocate size h = .error (.refused .outOfMemory) h ↔
        (∀ offset, ¬h.FreeFor size offset) ∧ (∀ r ∈ runs, r.2 < h.blocksFor size) ∧
          h.maxBlocks < h.blockCount - trailing + h.blocksFor size) ∧
      (allocate size h = .error (.refused .outOfMemory) h ∨
        ∃ handle h', allocate size h = .ok handle h' ∧ Frugal h h' size handle runs trailing) := by
  have s := reachable.standsOn
  have w := reachable.restorable.wellFormed
  have hroomy := (s.regionBytes needed).2
  have ample := s.ample needed capacity unrefused
  obtain ⟨runs, trailing, f⟩ := w.exists_freeBlocks
  refine ⟨runs, trailing, f.runs_eq, f.trailing_eq, ?_⟩
  have ends := allocate_lodged w size
  rw [← f.lacks_iff]
  cases ran : allocate size h with
  | ok handle h' =>
    have o := ends.of_ok ran
    refine ⟨⟨nofun, fun lacks => absurd lacks o.not_lacks⟩, .inr ⟨handle, h', rfl, o.frugal w f⟩⟩
  | error e h' =>
    cases e with
    | trap => exact absurd ran (ends.no_trap hroomy)
    | refused e =>
      obtain ⟨⟨rfl, rfl⟩, lacks⟩ := ends.of_refused ran
      exact ⟨⟨fun _ => lacks hroomy ample, fun _ => rfl⟩, .inl rfl⟩

/-- With three of four blocks in use, there is no room for two more, and the arena grows by the one
that a smaller object needs. -/
theorem allocate_frugal_small : ∃ h h', Reachable .ample smallGeometry smallRegion h ∧
    smallGeometry.regionBytes .ample = .ok 5120 ∧ 5120 ≤ h.region.capacity ∧ h.region.refusals = none ∧
    h.blockCount = 3 ∧ allocate 300 h = .error (.refused .outOfMemory) h ∧
    allocate 200 h = .ok 768 h' ∧ h'.blockCount = 4 := by
  have needed : smallGeometry.regionBytes .ample = .ok 5120 := by rfl
  have run : ((create .ample smallGeometry smallRegion).toOption.bind fun h₀ =>
      (h₀.granting? (.allocate 600)).filter fun h => h.table.freeRuns? = some [] ∧
        h.table.freeAtEnd? = some 0 ∧ h.blockCount = 3 ∧ h.maxBlocks = 4 ∧ h.blockLog2 = 8 ∧
        h.region.capacity = 8192 ∧ h.region.refusals.isNone).isSome = true := by
    decide +kernel
  obtain ⟨h, run⟩ := Option.isSome_iff_exists.1 run
  obtain ⟨h₀, hc, run⟩ := Option.bind_eq_some_iff.1 run
  obtain ⟨ran, facts⟩ := Option.filter_eq_some_iff.1 run
  obtain ⟨hfree, hend, hcount, hmax, hlog, hcap, hrefusals⟩ := of_decide_eq_true facts
  obtain ⟨answer, ran⟩ := granting?_eq_some_iff.1 ran
  have reachable : Reachable .ample smallGeometry smallRegion h :=
    .used h₀.region.refusals (.allocate 600) (.created (toOption_eq_some_iff.1 hc)) (.granted answer ran)
  have capacity : 5120 ≤ h.region.capacity := by omega
  have unrefused := Option.isNone_iff_eq_none.1 hrefusals
  have hsize : h.blockSize = 256 := by rw [blockSize, hlog]; rfl
  have one : h.blocksFor 200 = 1 := by rw [blocksFor, hsize]; rfl
  have two : h.blocksFor 300 = 2 := by rw [blocksFor, hsize]; rfl
  -- more than half a block is never put in a fragment
  have large (size : Nat) (hlt : 128 < size) (offset : Nat) : ¬h.FreeFor size offset := by
    rintro ⟨hle, -⟩
    rw [hsize] at hle
    omega
  obtain ⟨runs, trailing, hruns, htrailing, full, -⟩ := allocate_frugal reachable needed capacity unrefused 300
  obtain ⟨runs', trailing', hruns', htrailing', full', either⟩ :=
    allocate_frugal reachable needed capacity unrefused 200
  rw [hfree, Option.some.injEq] at hruns hruns'
  rw [hend, Option.some.injEq] at htrailing htrailing'
  subst hruns hruns' htrailing htrailing'
  have granted : ¬allocate 200 h = .error (.refused .outOfMemory) h := by
    rw [full', hcount, hmax, one]
    rintro ⟨-, -, hlt⟩
    omega
  obtain ⟨handle, h', ran', frugal⟩ := either.resolve_left granted
  obtain ⟨-, hcount', hhandle⟩ := frugal.behind (large 200 (by decide)) (List.forall_mem_nil _)
  rw [one, hcount] at hcount'
  rw [blockStart, hsize, hcount] at hhandle
  subst hhandle
  refine ⟨h, h', reachable, needed, capacity, unrefused, hcount, full.2 ⟨large 300 (by decide),
    List.forall_mem_nil _, ?_⟩,
    ran', hcount'⟩
  rw [hcount, hmax, two]
  decide

end RegionHeap.Heap
