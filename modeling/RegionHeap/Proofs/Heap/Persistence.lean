import RegionHeap.Proofs.Heap.Creation
import RegionHeap.Proofs.Heap.Reloading

/-!
Persistence. A heap that was created may be used, given up and opened again, any number of times and
at any moment, saved or not. Whatever its image says then is what a well-formed heap was when it was
last saved, so a heap that is opened again is well-formed (`Reachable.restorable`), and one that was
saved just before is the heap that it was (`reload_synced`).
-/
namespace RegionHeap.Heap

open BlockTable Image

/-- The heaps that a client may have, on a region that may refuse any requests at any time. A heap
that is opened again is loaded from the bytes that the one before left behind. -/
inductive Reachable (host : Host) (g : Geometry) (region : Region) : Heap → Prop where
  | created {h : Heap} (hc : create host g region = .ok h) : Reachable host g region h
  | used {h h' : Heap} (refusals : Option Refusals) (op : Operation) (before : Reachable host g region h)
    (leaves : op.Leaves (h.withRefusals refusals) h') : Reachable host g region h'
  | reopened {h h' : Heap} {region' : Region} (before : Reachable host g region h)
    (same : Region.SameBytes h.region region') (loaded : load region' = .ok h') :
    Reachable host g region h'

/-- The heap is well-formed, and its region holds the tables of a well-formed heap of the same
extent. -/
structure Restorable (h : Heap) : Prop where
  wellFormed : h.WellFormed
  max_lt : h.maxBlocks < Geometry.blockLimit
  image : ∃ h₀ : Heap, h₀.WellFormed ∧ h₀.SavedIn h.region ∧ h₀.arenaStart = h.arenaStart ∧
    h₀.maxBlocks = h.maxBlocks

variable {host : Host} {g : Geometry} {h h' : Heap} {region region' : Region} {c : Contents}
  {t : TableOffsets}

theorem Created.restorable (c : Created g region h) : h.Restorable := by
  obtain ⟨-, -, hmax, -⟩ := geometry_check c.geometry
  have hblocks : h.maxBlocks = g.maxBlocks := congrArg Frame.maxBlocks c.frame_eq
  exact ⟨c.wellFormed, by rw [hblocks]; exact hmax, h, c.wellFormed, c.image, rfl, rfl⟩

theorem Continues.restorable (k : Continues h h') (s : h.Restorable) : h'.Restorable := by
  obtain ⟨h₀, w₀, saved, hstart, hmax⟩ := s.image
  have hstart' : h'.arenaStart = h.arenaStart := arenaStart_of_frame k.frame_eq
  have hmax' : h'.maxBlocks = h.maxBlocks := congrArg Frame.maxBlocks k.frame_eq
  refine ⟨k.wellFormed, by rw [hmax']; exact s.max_lt, ?_⟩
  rcases k.image with hb | hsaved
  · refine ⟨h₀, w₀, saved.congr w₀ ?_ fun i hi => hb i (by rw [← hstart]; exact hi),
      hstart.trans hstart'.symm, hmax.trans hmax'.symm⟩
    rw [hstart, ← hstart']
    exact k.wellFormed.arenaStart_le
  · exact ⟨h, s.wellFormed, hsaved, hstart'.symm, hmax'.symm⟩

/-- A heap that was loaded from the tables of another: it is what that one was, but for the links
between free runs and for which empty name slot is used next. -/
structure Recalls (h₀ h : Heap) : Prop where
  wellFormed : h.WellFormed
  eq : h = h₀.restored h.region h.table
  entries : ∀ block, h.table.bare? block = h₀.table.bare? block

/-- What is loaded from the tables of a well-formed heap is that heap. -/
theorem Loaded.recalls (l : Loaded region c t h) {h₀ : Heap} (w₀ : h₀.WellFormed)
    (hmax : h₀.maxBlocks < Geometry.blockLimit) (saved : h₀.SavedIn region) : Recalls h₀ h := by
  obtain ⟨t₀, d₀⟩ := w₀.describes hmax saved
  have hc := l.describes.unique d₀
  subst hc
  obtain ⟨runs, hl⟩ := w₀.laidOut
  obtain ⟨table, ht, hlaid, hbare⟩ := ofEntries?_of_tiled (tiled_entries hl.toTiled) hl.apart
  have htable : h.table = table := by
    have := l.table
    rw [show h₀.contents.entries = h₀.table.entries from rfl, ht] at this
    exact (Option.some.inj this).symm
  have heq : h = h₀.restored h.region h.table := by
    have hfloor : min h₀.contents.header.floor h₀.contents.header.limit = h₀.floor :=
      Nat.min_eq_left w₀.floor_le
    have e := l.eq
    rw [hfloor] at e
    exact e
  exact ⟨l.wellFormed_iff.2 ⟨runs, by rw [htable]; exact hlaid⟩, heq,
    fun block => by rw [htable]; exact hbare block⟩

/-- A heap that is loaded from the tables of a well-formed heap is well-formed. -/
theorem Loaded.restorable (l : Loaded region c t h) {h₀ : Heap} (w₀ : h₀.WellFormed)
    (hmax : h₀.maxBlocks < Geometry.blockLimit) (saved : h₀.SavedIn region) : h.Restorable := by
  have recalls := l.recalls w₀ hmax saved
  have w := recalls.wellFormed
  have hstart : h₀.arenaStart = h.arenaStart := by rw [recalls.eq]; rfl
  have hblocks : h₀.maxBlocks = h.maxBlocks := by rw [recalls.eq]; rfl
  have hle := w.arenaStart_le
  refine ⟨w, by rw [← hblocks]; exact hmax, h₀, w₀, saved.congr w₀ (by rw [hstart]; exact hle)
    fun i hi => l.byte_eq i (by omega), hstart, hblocks⟩

theorem Restorable.withRefusals (s : h.Restorable) (refusals : Option Refusals) :
    (h.withRefusals refusals).Restorable :=
  ⟨s.wellFormed.withRefusals refusals, s.max_lt, s.image⟩

/-- Every heap that a client may have can be given up and opened again. -/
theorem Reachable.restorable (r : Reachable host g region h) : h.Restorable := by
  induction r with
  | created hc => exact (create_eq_ok hc).restorable
  | used refusals op _ leaves ih =>
    have s := ih.withRefusals refusals
    exact (Continues.of_leaves s.wellFormed leaves).restorable s
  | reopened _ same loaded ih =>
    obtain ⟨h₀, w₀, saved, hstart, hmax⟩ := ih.image
    obtain ⟨c, t, -, l⟩ := load_eq_ok loaded
    refine l.restorable w₀ (by rw [hmax]; exact ih.max_lt) (saved.congr w₀ ?_ fun i _ =>
      same.byte_eq i)
    rw [same.size_eq, hstart]
    exact ih.wellFormed.arenaStart_le

/-! ## Saved heaps -/

/-- A heap that was opened again: it is what it was when it was saved, but for the links between free
runs and for which empty name slot is used next, and its objects have the bytes that they had at
last. -/
structure Restores (saved last opened : Heap) : Prop where
  eq : opened = { saved with
    region := opened.region
    table := opened.table
    names := .numbered saved.names.capacity saved.names.slots }
  blockCount_eq : opened.blockCount = saved.blockCount
  entries : ∀ block, opened.table.bare? block = saved.table.bare? block
  size_eq : opened.region.size = saved.region.size
  objects : ∀ s, opened.objectAt s = saved.objectAt s ∧ last.objectAt s = saved.objectAt s
  bytes : ∀ s l, last.objectAt s = some l →
    ∀ i, i < l → opened.arenaByte (s + i) = last.arenaByte (s + i)

theorem objectAt_of_inUse? (h h' : Heap) (hb : h'.blockLog2 = h.blockLog2) (hbusy : h'.busy = h.busy)
    (hu : ∀ block, h'.table.inUse? block = h.table.inUse? block) (s : Nat) :
    h'.objectAt s = h.objectAt s :=
  objectAt_congr h h' hb (cutLog2?_congr h h' (hu _)) (runLength?_congr h h' (hu _)) (by rw [hbusy])

theorem Reloaded.restores {table : BlockTable} (l : Reloaded h region region' table) (s : Since h h')
    (hb : Region.SameBytes h'.region region) : Restores h h' (h.restored region' table) := by
  have hle : h.region.size ≤ region.size := by
    rw [hb.size_eq]
    exact s.size_le
  obtain ⟨hsize, -, hbytes⟩ := l.cut.spec hle
  have last (x : Nat) : h'.objectAt x = h.objectAt x :=
    objectAt_of_inUse? h h' (by rw [s.eq]) (by rw [s.eq]) s.inUse x
  have opened (x : Nat) : (h.restored region' table).objectAt x = h.objectAt x :=
    objectAt_of_inUse? h (h.restored region' table) rfl rfl (fun b => inUse?_congr (l.bare_eq b)) x
  refine ⟨rfl, l.size_eq, l.bare_eq, hsize, fun x => ⟨opened x, last x⟩, fun x length hx i hi => ?_⟩
  rw [last, ← opened] at hx
  have hin : h.arenaStart + x + length ≤ region'.size := l.wellFormed.object_in_region hx
  show region'.byte (h.arenaStart + (x + i)) = h'.region.byte (h'.arenaStart + (x + i))
  rw [hbytes _ (by omega), hb.byte_eq, show h'.arenaStart = h.arenaStart by rw [s.eq]]

/-- Growing and writing are among the things that a client may ask for. -/
theorem Reachable.extends (reached : Reachable host g region h) (later : Extends h h') :
    Reachable host g region h' := by
  induction later with
  | start => exact reached
  | step refusals op _ _ leaves ih => exact ih.used refusals op leaves

/-- Whenever a heap that was saved is opened again, it is opened as it was saved. -/
theorem Saved.restores {h₁ h₂ : Heap} (s : h.Restorable) (saved : Saved h h₁)
    (later : Extends h₁ h₂) (same : Region.SameBytes h₂.region region')
    (loaded : load region' = .ok h') : Restores h₁ h₂ h' := by
  have w₁ := saved.wellFormed s.wellFormed
  have since := later.since w₁
  have hmax : h₁.maxBlocks < Geometry.blockLimit := by
    rw [saved.eq]
    exact s.max_lt
  have hle : h₁.region.size ≤ h₂.region.size := since.size_le
  have image : h₁.SavedIn h₂.region :=
    saved.savedIn.congr w₁ (Nat.le_trans w₁.arenaStart_le hle) since.metadata
  -- the region was cut to the size that the image says
  obtain ⟨c, bytes, r, hread, hcut, -⟩ := load_eq_ok_iff.1 loaded
  have image' : h₁.SavedIn region' :=
    image.congr w₁ (by rw [same.size_eq]; exact Nat.le_trans w₁.arenaStart_le hle)
      fun i _ => same.byte_eq i
  rw [w₁.read_saved hmax image' (by rw [same.size_eq]; exact hle)] at hread
  cases hread
  obtain ⟨r', table, l⟩ := since.load w₁ hmax image same ⟨r, hcut⟩
  have hl := l.loaded
  rw [loaded] at hl
  cases hl
  exact l.restores since same

/-- A heap that was saved is opened again as it was, whatever has been grown or written since, on any
region with the bytes that it left behind that grants smaller sizes. If it is then saved once more, it
is opened again just as it is, with the same bins, the same slots to be used next and the same bytes
in its arena. -/
theorem reload_synced {h₁ h₂ : Heap} {refusals : Option Refusals} {answer : Answer}
    (reached : Reachable host g region h)
    (synced : Operation.sync.run (h.withRefusals refusals) = .ok answer h₁)
    (later : Extends h₁ h₂) (same : Region.SameBytes h₂.region region') (shrinks : region'.Shrinks) :
    ∃ h', load region' = .ok h' ∧ Restores h h₂ h' ∧
      ∀ refusals answer h'' region'', Operation.sync.run (h'.withRefusals refusals) = .ok answer h'' →
        Region.SameBytes h''.region region'' →
          load region'' = .ok { h' with region := region'' } ∧ region''.size = h'.region.size ∧
            ∀ i, h'.arenaStart ≤ i → region''.byte i = h'.region.byte i := by
  have s := reached.restorable.withRefusals refusals
  have saves {h h' : Heap} {answer : Answer} (w : h.WellFormed)
      (ran : Operation.sync.run h = .ok answer h') : Saved h h' := by
    cases (Operation.effects w .sync).of_ok ran with
    | sync s => exact s
  have saved := saves s.wellFormed synced
  have w₁ := saved.wellFormed s.wellFormed
  have since := later.since w₁
  have hmax : h₁.maxBlocks < Geometry.blockLimit := by
    rw [saved.eq]
    exact s.max_lt
  have image : h₁.SavedIn h₂.region := saved.savedIn.congr w₁
    (Nat.le_trans w₁.arenaStart_le since.size_le) since.metadata
  obtain ⟨r, table, l⟩ := since.load w₁ hmax image same (exists_cut shrinks _)
  have restores := l.restores since same
  refine ⟨_, l.loaded, ?_, fun refusals answer h'' region'' ran same'' => ?_⟩
  · obtain ⟨heq, hcount, hentries, hsize, hobjects, hbytes⟩ := restores
    have hobj (x : Nat) : h₁.objectAt x = h.objectAt x := by rw [saved.eq]; rfl
    refine ⟨by rw [heq, saved.eq]; rfl, by rw [hcount, saved.eq]; rfl, fun b => ?_, ?_,
      fun x => ?_, hbytes⟩
    · rw [hentries, saved.eq]
      rfl
    · exact hsize.trans saved.region.size_eq
    · rw [← hobj]
      exact hobjects x
  · have saved := saves (l.wellFormed.withRefusals refusals) ran
    exact ⟨(l.load_again w₁ hmax saved same'').2, same''.size_eq.trans saved.region.size_eq,
      fun i hi => (same''.byte_eq i).trans (saved.arena i hi)⟩

/-- A block that came after the heap was saved is gone when it is opened again. -/
theorem reload_synced_small : ∃ h h₁ h₂ h', Reachable .ample smallGeometry smallRegion h ∧
    h.granting? .sync = some h₁ ∧ h₁.granting? (.grow 1) = some h₂ ∧ h₂.blockCount = 3 ∧
      load h₂.region = .ok h' ∧ h'.blockCount = 2 := by
  have run : ((create .ample smallGeometry smallRegion).toOption.bind fun h₀ =>
      (h₀.granting? (.allocate 100)).bind fun h => if h.blockCount = 2 then
        (h.granting? .sync).bind fun h₁ => (h₁.granting? (.grow 1)).bind fun h₂ =>
          if h₂.blockCount = 3 ∧ h₂.region.refusals.isNone = true ∧
            h₂.region.size ≤ h₂.region.capacity then some h₂ else none
        else none).isSome = true := by
    decide +kernel
  obtain ⟨h₃, run⟩ := Option.isSome_iff_exists.1 run
  obtain ⟨h₀, hc, run⟩ := Option.bind_eq_some_iff.1 run
  obtain ⟨h, run₀, run⟩ := Option.bind_eq_some_iff.1 run
  rw [Option.ite_none_right_eq_some] at run
  obtain ⟨hcount, run⟩ := run
  obtain ⟨h₁, run₁, run⟩ := Option.bind_eq_some_iff.1 run
  obtain ⟨h₂, run₂, run⟩ := Option.bind_eq_some_iff.1 run
  rw [Option.ite_none_right_eq_some] at run
  obtain ⟨⟨hcount₂, href, hcap⟩, -⟩ := run
  obtain ⟨_, allocated⟩ := granting?_eq_some_iff.1 run₀
  obtain ⟨_, synced⟩ := granting?_eq_some_iff.1 run₁
  obtain ⟨_, grown⟩ := granting?_eq_some_iff.1 run₂
  have reached : Reachable .ample smallGeometry smallRegion h :=
    (Reachable.created (toOption_eq_some_iff.1 hc)).used h₀.region.refusals _ (.granted _ allocated)
  have later : Extends h₁ h₂ :=
    Extends.start.step h₁.region.refusals (.grow 1) trivial (.granted _ grown)
  have shrinks := Region.shrinks_of_capacity (Option.isNone_iff_eq_none.1 href) hcap
  have synced : Operation.sync.run (h.withRefusals h.region.refusals) = .ok _ h₁ := synced
  obtain ⟨h', hl, restores, -⟩ :=
    reload_synced reached synced later (Region.SameBytes.refl _) shrinks
  exact ⟨h, h₁, h₂, h', reached, run₁, run₂, hcount₂, hl, restores.blockCount_eq.trans hcount⟩

end RegionHeap.Heap
