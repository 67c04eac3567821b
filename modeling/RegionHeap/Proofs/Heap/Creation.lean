import RegionHeap.Heap.Open
import RegionHeap.Proofs.Heap.Running

/-!
New heaps. A region is laid out as a heap without objects: it is given its first blocks, all of them
free, and is saved. While the first blocks are still missing the heap is below its floor, so it is
looked at with a floor of no blocks until they are there.
-/
namespace RegionHeap.Heap

open HeapM BlockTable

/-- The heap with another floor. -/
def withFloor (h : Heap) (floor : Nat) : Heap := { h with floor }

/-- What laying out a region for a geometry gives. -/
structure Created (g : Geometry) (region : Region) (h : Heap) : Prop where
  geometry : g.check = .ok ()
  wellFormed : h.WellFormed
  image : h.SavedIn h.region
  noObject : ∀ s, h.objectAt s = none
  frame_eq : h.frame = {
    blockLog2 := g.blockLog2
    arenaStart := h.arenaStart
    maxBlocks := g.maxBlocks
    nameCapacity := g.maxNames
    recordCapacity := g.maxAligned
    regionCapacity := region.capacity
    refusals := region.refusals }
  within : h.region.size ≤ h.region.capacity
  blocks : h.blockCount = g.initialBlocks
  floor : h.floor = g.initialBlocks
  names : h.names = .empty g.maxNames
  aligned : h.aligned = .empty g.maxAligned

variable {host : Host} {g : Geometry} {region : Region} {arenaStart : Nat}

/-! ## Heaps without blocks -/

/-- What a geometry that places its arena says about it. -/
theorem geometry_bounds (hg : g.arenaStart host = .ok arenaStart) :
    g.check = .ok () ∧ arenaStart < Size.limit ∧
      ∃ t, TableOffsets.forBlocks? g.blockLog2 g.maxBlocks g.maxNames g.maxAligned = some (some t) ∧
        t.stop ≤ arenaStart := by
  rw [Geometry.arenaStart] at hg
  split at hg
  · cases hg
  · rename_i hcheck
    split at hg
    · cases hg
    · cases hg
    · rename_i t ht
      split at hg
      · cases hg
      · rename_i bytes hb
        cases hg
        have hstep : 0 < max host.page (1 <<< g.blockLog2) := by
          have := host.page_pos
          omega
        refine ⟨hcheck, ?_, t, ht, (Size.roundUp?_bounds hstep hb).2.1⟩
        unfold Size.roundUp? at hb
        split at hb
        · cases hb; decide
        · exact (Size.mul?_eq_some_iff.1 hb).2 ▸ (Size.mul?_eq_some_iff.1 hb).1

/-- What the check of a geometry says. -/
theorem geometry_check (hc : g.check = .ok ()) :
    Geometry.minBlockLog2 ≤ g.blockLog2 ∧ g.blockLog2 ≤ Geometry.maxBlockLog2 ∧
      g.maxBlocks < Geometry.blockLimit ∧ g.initialBlocks ≤ g.maxBlocks := by
  rw [Geometry.check] at hc
  split at hc
  · cases hc
  · split at hc
    · cases hc
    · split at hc
      · cases hc
      · omega

/-- A heap whose region has no arena yet is well-formed, its floor apart. -/
theorem wellFormed_blank (hg : g.arenaStart host = .ok arenaStart) (hsize : region.size = arenaStart) :
    ((blank g arenaStart region).withFloor 0).WellFormed := by
  obtain ⟨hcheck, hlt, t, ht, hstop⟩ := geometry_bounds hg
  obtain ⟨hmin, hmax, -, -⟩ := geometry_check hcheck
  have hcut (b : Nat) : ((blank g arenaStart region).withFloor 0).cutLog2? b = none :=
    rfl
  have hfree (x : Nat) :
      ((blank g arenaStart region).withFloor 0).freeFragment x = none := by
    rw [freeFragment, hcut]
    rfl
  exact {
    min_block := hmin
    max_block := hmax
    laidOut := ⟨[], laidOut_empty⟩
    cuts := fun b log2 nfree hb => by cases hb
    maps := fun b m hm => by cases hm
    heads := Array.size_replicate
    lists := by
      have hlists : ((blank g arenaStart region).withFloor 0).Lists fun _ => none :=
        ⟨fun x k hx => (by cases hx), Threads.empty fun k => ?_⟩
      · exact hlists.of_eq hfree
      show ((Array.replicate g.blockLog2 none : Array (Option Nat))[k]?).join = none
      rw [Array.getElem?_replicate]
      split <;> rfl
    size_eq := by
      show region.size = arenaStart + 0 * _
      rw [hsize, Nat.zero_mul, Nat.add_zero]
    small := by
      show region.size < _
      rw [hsize]
      exact hlt
    floor_le := Nat.le_refl 0
    count_le := Nat.zero_le _
    tables := ⟨t, ht, hstop⟩
    names := NameTable.empty_sound _
    records := AlignmentRecords.empty_sound _ }

/-! ## The first blocks -/

/-- Growing does not look at the floor. -/
theorem grow_withFloor (h : Heap) (count floor : Nat) :
    grow count (h.withFloor floor) = onHeap (withFloor · floor) (grow count h) := by
  show (if count = 0 then _ else
      if Size.limit ≤ h.blockCount + count ∨ h.maxBlocks < h.blockCount + count then _ else _ :
      HeapM Unit) (h.withFloor floor) =
    onHeap (withFloor · floor) ((if count = 0 then _ else
      if Size.limit ≤ h.blockCount + count ∨ h.maxBlocks < h.blockCount + count then _ else _ :
      HeapM Unit) h)
  by_cases h0 : count = 0
  · rw [if_pos h0, if_pos h0]
    rfl
  rw [if_neg h0, if_neg h0]
  by_cases hlim : Size.limit ≤ h.blockCount + count ∨ h.maxBlocks < h.blockCount + count
  · rw [if_pos hlim, if_pos hlim]
    rfl
  rw [if_neg hlim, if_neg hlim]
  simp only [bind, EStateM.bind, withFloor, blockCount, blockSize]
  cases hb : Size.add? h.arenaStart ((h.table.size + count) * 1 <<< h.blockLog2) with
  | none => rfl
  | some bytes =>
    simp only [orTrap, pure, EStateM.pure]
    cases h.region.resize bytes with
    | error e => rfl
    | ok region =>
      simp only [EStateM.bind]
      cases h.table.append? count with
      | none => rfl
      | some p => rfl

theorem resizeRegion_ends {roomy : Prop} {h : Heap} (bytes : Nat) :
    Ends roomy (resizeRegion bytes) h (fun _ h' => h' = { h with region := h'.region } ∧
      h.region.resize bytes = .ok h'.region) (Unchanged h) := by
  refine Ends.bind' (Ends.get' ?_)
  cases hr : h.region.resize bytes with
  | error e => exact Ends.refuse' rfl
  | ok region => exact Ends.set' ⟨rfl, rfl⟩

/-- Whatever keeps an arena from growing, the refusal is the same. -/
theorem grow_refused {h h' : Heap} {count : Nat} {e : HeapError}
    (ran : grow count h = .error (.refused e) h') : h' = h ∧ e = .outOfMemory := by
  have ends : Ends False (grow count) h (fun _ _ => True)
      fun e h' => h' = h ∧ e = .outOfMemory := by
    refine Ends.bind' (Ends.get' (Ends.ite' (fun _ => Ends.pure' trivial) fun _ => ?_))
    refine Ends.ite' (fun _ => Ends.refuse' ⟨rfl, rfl⟩) fun _ => ?_
    refine Ends.bind' (Ends.orTrap_of (fun bytes _ => ?_) fun _ => not_false)
    cases h.region.resize bytes with
    | error e => exact Ends.refuse' ⟨rfl, rfl⟩
    | ok region =>
      exact Ends.bind' (Ends.orTrap_of (fun _ _ => Ends.set' trivial) fun _ => not_false)
  exact ends.of_refused ran

/-- The first blocks are all free. -/
theorem growFirst_ends (hg : g.arenaStart host = .ok arenaStart) (hsize : region.size = arenaStart) :
    Ends (blank g arenaStart region).frame.Roomy (grow g.initialBlocks) (blank g arenaStart region)
      (fun _ h' => h'.WellFormed ∧ h'.frame = (blank g arenaStart region).frame ∧
        h' = { blank g arenaStart region with region := h'.region, table := h'.table } ∧
        h'.blockCount = g.initialBlocks ∧ (∀ s, h'.objectAt s = none) ∧
        (region.size ≤ region.capacity → h'.region.size ≤ h'.region.capacity)) fun _ _ => True := by
  have w := wellFormed_blank hg hsize
  obtain ⟨hcheck, -⟩ := geometry_bounds hg
  obtain ⟨-, -, -, hinitial⟩ := geometry_check hcheck
  refine (Ends.of_alike (withFloor · g.initialBlocks) (grow_ends w g.initialBlocks)
    (grow_withFloor _ _ _)).mono ?_ fun _ _ _ => trivial
  rintro - h' ⟨h₁, rfl, t, grown, resized⟩
  obtain ⟨runs, hl⟩ := t.wellFormed.laidOut
  have hcount : h₁.blockCount = g.initialBlocks := by
    have hjoin := grown.joined [] laidOut_empty
    by_cases h0 : g.initialBlocks = 0
    · rw [if_pos h0] at hjoin
      rw [hjoin, h0]
      rfl
    · rw [if_neg h0] at hjoin
      have := hjoin.size_eq
      rw [total_join] at this
      simpa [blockCount] using this.symm
  have heq := grown.eq
  have hmax := t.wellFormed.count_le
  refine ⟨?_, ?_, ?_, hcount, fun s => ?_, fun hle => ?_⟩
  · exact t.wellFormed.reblock h₁.region h₁.table g.initialBlocks ⟨runs, hl⟩ (fun _ _ _ => Iff.rfl)
      t.wellFormed.size_eq t.wellFormed.small (fun _ _ _ => rfl) (Nat.le_of_eq hcount.symm) hmax
  · have := t.frame_eq
    exact this
  · rw [heq]
    rfl
  · refine (t.objects_eq s).trans (Option.eq_none_iff_forall_not_mem.2 fun length hs => ?_)
    -- an arena without blocks has no room for it
    obtain ⟨hpos, hfit, -⟩ := w.object_bounds hs
    rw [show ((blank g arenaStart region).withFloor 0).blockCount = 0 from rfl, Nat.zero_mul] at hfit
    omega
  · show h₁.region.size ≤ h₁.region.capacity
    by_cases h0 : g.initialBlocks = 0
    · have hsame := grown.joined [] laidOut_empty
      rw [if_pos h0] at hsame
      rw [hsame]
      exact hle
    · obtain ⟨bytes, hres⟩ := resized h0
      obtain ⟨hsize, hcap, -⟩ := Region.resize_eq hres
      rw [hsize, hcap]
      exact Region.le_capacity_of_resize hres

/-! ## Creating -/

/-- Where laying out a region can be refused, and what is left then: the region as it was, one with
room for the metadata and no blocks, or one that holds the new heap and was not flushed. -/
inductive Unfinished (g : Geometry) (region : Region) (arenaStart : Nat) :
    HeapError → Heap → Prop where
  | untouched {e : HeapError} {h : Heap} (same : h.region = region) :
    Unfinished g region arenaStart e h
  | reserved {h : Heap} (resized : region.resize arenaStart = .ok h.region) :
    Unfinished g region arenaStart .outOfMemory h
  | unflushed {h : Heap} {err : RegionError} (created : Created g region h)
    (refused : region.flush = .error err) : Unfinished g region arenaStart (.region err) h

theorem flush_congr {r r' : Region} (hr : r'.refusals = r.refusals) : r'.flush = r.flush := by
  rw [Region.flush, Region.flush, hr]

theorem layOut_ends (hg : g.arenaStart host = .ok arenaStart) :
    Ends (blank g arenaStart region).frame.Roomy (layOut g.initialBlocks) (blank g arenaStart region)
      (fun _ h' => Created g region h' ∧ h'.arenaStart = arenaStart)
      (Unfinished g region arenaStart) := by
  obtain ⟨hcheck, -⟩ := geometry_bounds hg
  refine Ends.bind' (Ends.get' (Ends.bind' ((resizeRegion_ends _).mono ?_ ?_)))
  rotate_left
  · rintro e h₁ rfl
    exact .untouched rfl
  rintro - h₁ ⟨heq, hresize⟩
  obtain ⟨hsize, hcap, href, -, -⟩ := Region.resize_eq hresize
  have hle := Region.le_capacity_of_resize hresize
  rw [heq]
  refine Ends.bind' ((growFirst_ends hg hsize).with_run.mono ?_ ?_)
  rotate_left
  · rintro e h₂ ⟨-, ran⟩
    obtain ⟨rfl, rfl⟩ := grow_refused ran
    exact .reserved hresize
  rintro - h₂ ⟨⟨w, hframe, heq', hcount, hnone, hwithin⟩, -⟩
  suffices created : ∀ h₃, Saved h₂ h₃ → Created g region h₃ ∧ h₃.arenaStart = arenaStart by
    refine (sync_ends w).mono (fun _ h₃ saved => created h₃ saved) ?_
    rintro e h₃ ⟨saved, err, hf, rfl⟩
    refine .unflushed (created h₃ saved).1 ?_
    have hrefusals : h₃.region.refusals = region.refusals :=
      congrArg Frame.refusals (created h₃ saved).1.frame_eq
    rw [← hf, flush_congr hrefusals]
  intro h₃ saved
  have hall : h₃ = { blank g arenaStart h₁.region with region := h₃.region, table := h₂.table } := by
    rw [saved.eq, heq']
  refine ⟨⟨hcheck, saved.wellFormed w, ?_, fun s => ?_, ?_, ?_, ?_, ?_, ?_, ?_⟩, by rw [hall]; rfl⟩
  · rw [show h₃.SavedIn h₃.region = h₂.SavedIn h₃.region by rw [saved.eq]; rfl]
    exact saved.image
  · rw [saved.eq]
    exact hnone s
  · rw [saved.frame_eq, hframe]
    simp only [frame, blank, hcap, href, NameTable.empty, AlignmentRecords.empty]
    rw [hall]
    rfl
  · rw [saved.region.size_eq, saved.region.capacity_eq]
    exact hwithin (by rw [hsize, hcap]; exact hle)
  · rw [saved.eq]
    exact hcount
  all_goals rw [hall]; rfl

/-- What was created has been laid out for its geometry. -/
theorem exists_layOut {h : Heap} (hc : create host g region = .ok h) : ∃ arenaStart,
    g.arenaStart host = .ok arenaStart ∧
      layOut g.initialBlocks (blank g arenaStart region) = .ok () h := by
  rw [create] at hc
  split at hc
  · cases hc
  · rename_i arenaStart hg
    split at hc
    · rename_i h' hlay
      cases hc
      exact ⟨arenaStart, hg, hlay⟩
    · cases hc

/-- A heap that was created is well-formed, has no objects, and is saved. -/
theorem create_eq_ok {h : Heap} (hc : create host g region = .ok h) : Created g region h := by
  obtain ⟨arenaStart, hg, hlay⟩ := exists_layOut hc
  exact ((layOut_ends hg).of_ok hlay).1

/-- The arena of a heap that was created starts where its geometry says. -/
theorem arenaStart_of_create {h : Heap} (hc : create host g region = .ok h) :
    g.arenaStart host = .ok h.arenaStart := by
  obtain ⟨arenaStart, hg, hlay⟩ := exists_layOut hc
  rw [((layOut_ends hg).of_ok hlay).2, hg]

/-- A region on which no heap could be created. -/
theorem create_refused {e : HeapError} {region' : Region}
    (hc : create host g region = .error ⟨.refused e, region'⟩) : region' = region ∨
      ∃ arenaStart h, g.arenaStart host = .ok arenaStart ∧ Unfinished g region arenaStart e h ∧
        h.region = region' := by
  rw [create] at hc
  split at hc
  · cases hc
    exact .inl rfl
  · rename_i arenaStart hg
    split at hc
    · cases hc
    · rename_i failure h' hlay
      cases hc
      exact .inr ⟨arenaStart, h', hg, (layOut_ends hg).of_refused hlay, rfl⟩

/-- In a region that memory can hold, no arena ends past the range of sizes. -/
theorem Created.roomy {h : Heap} (c : Created g region h) (hcap : region.capacity < memoryLimit) :
    h.frame.Roomy := by
  obtain ⟨-, hlog, hmax, -⟩ := geometry_check c.geometry
  have hstart := c.wellFormed.size_eq
  have hwithin := c.within
  have hcapacity : h.region.capacity = region.capacity := congrArg Frame.regionCapacity c.frame_eq
  have hpow : 1 <<< g.blockLog2 ≤ 1 <<< Geometry.maxBlockLog2 := one_shiftLeft_le hlog
  have := Nat.mul_le_mul (Nat.le_of_lt hmax) hpow
  rw [c.frame_eq, Frame.Roomy]
  simp only [Geometry.blockLimit, Geometry.maxBlockLog2, memoryLimit, Size.limit] at *
  omega

/-! ## A small heap -/

theorem zero_le_empty : 0 ≤ ByteArray.empty.size := Nat.zero_le _

/-- Blocks of 256 bytes, two at first and at most four. -/
def smallGeometry : Geometry where
  blockLog2 := 8
  initialBlocks := 2
  maxBlocks := 4
  maxNames := 1
  maxAligned := 1

/-- Blocks of 256 bytes, two at first and at most eight. -/
def widerGeometry : Geometry := { smallGeometry with maxBlocks := 8 }

/-- Memory for a heap of those geometries. -/
def smallRegion : Region where
  backing := .memory ⟨8192, 0, ByteArray.empty, zero_le_empty⟩

/-- The heap of that geometry after a history. -/
def smallAfter? (ops : List Operation) : Option Heap :=
  (create .ample smallGeometry smallRegion).toOption.bind fun h => h.after? ops

theorem toOption_eq_some_iff {ε α : Type} {x : Except ε α} {a : α} :
    x.toOption = some a ↔ x = .ok a := by
  cases x <;> simp [Except.toOption]

theorem created_of_smallAfter? (ops : List Operation) (hs : (smallAfter? ops).isSome = true) :
    ∃ h h', create .ample smallGeometry smallRegion = .ok h ∧ h.after? ops = some h' := by
  obtain ⟨h', hs⟩ := Option.isSome_iff_exists.1 hs
  obtain ⟨h, hc, ha⟩ := Option.bind_eq_some_iff.1 hs
  exact ⟨h, h', toOption_eq_some_iff.1 hc, ha⟩

end RegionHeap.Heap
