import RegionHeap.Proofs.Heap.Persistence
import RegionHeap.Proofs.Image.Sharing

/-!
What is left of a region on which no heap could be opened. Most refusals come before anything is
done to the region, which then comes back as it was. Three come later, and nothing is undone
(`Refused`): a new region is given room for the metadata before it is seen that the first blocks do
not fit, a new heap is written before the region refuses to make it durable, and what lies behind a
recorded arena is cut off before the heap is checked.

The region can be opened again all the same: what was laid out in full is opened, and what was not,
or was refused by the check, is refused without a further change.
-/
namespace RegionHeap

/-- The tables end behind the header. -/
theorem TableOffsets.stop_pos {blockLog2 blocks names aligned : Nat} {t : TableOffsets}
    (h : forBlocks? blockLog2 blocks names aligned = some (some t)) : 0 < t.stop := by
  obtain ⟨-, placed⟩ := forBlocks?_eq_some h
  have e₁ := placed.entries
  have e₂ := placed.lists
  have e₃ := placed.slots
  have e₄ := placed.records
  have e₅ := placed.busy
  have e₆ := placed.stop
  simp only [Metadata.headerBytes] at e₁
  omega

namespace Image

variable {r : Region} {c : Contents} {t : TableOffsets}

/-! ## Regions without an image -/

/-- An image is never empty. -/
theorem read_pos {bytes : Nat} (hr : Image.read r = .ok (c, bytes)) : 0 < bytes := by
  obtain ⟨⟨t, d⟩, hbytes, -⟩ := read_eq_ok_iff.1 hr
  obtain ⟨heq, -⟩ := Heap.regionBytes?_eq_some_iff.1 hbytes
  obtain ⟨hstop, -⟩ := Heap.isConsistent_iff.1 d.consistent
  have := TableOffsets.stop_pos d.offsets
  omega

/-- A region whose first byte is zero holds no image. -/
theorem read_of_zero (hb : r.byte 0 = 0) : Image.read r = .error (.refused (.corrupt .noHeader)) := by
  have hmagic : startsWithMagic r = false := by
    refine Bool.eq_false_iff.2 fun hm => ?_
    rw [startsWithMagic] at hm
    cases hd : r.read? 0 magic.size with
    | none =>
      rw [hd] at hm
      cases hm
    | some data =>
      rw [hd, Option.any_some] at hm
      have hm : data.data = magic.data := eq_of_beq hm
      have hm : data = magic := ByteArray.ext hm
      have hsize : 0 + magic.size ≤ r.size := by
        rw [Region.read?, Option.ite_none_right_eq_some] at hd
        exact hd.1
      obtain ⟨data', hd', -, hbytes⟩ := Region.read?_eq (r := r) 0 magic.size hsize
      rw [hd, Option.some.injEq] at hd'
      have h0 := hbytes 0 (by decide)
      rw [← hd', hm, Nat.zero_add, hb] at h0
      exact absurd h0 (by decide)
  have hheader : readHeader r = .error (.refused (.corrupt .noHeader)) := by
    rw [readHeader, hmagic, Bool.and_false]
    rfl
  rw [read, hheader]
  rfl

end Image

namespace Heap

open BlockTable Image

variable {host : Host} {g g' : Geometry} {h : Heap} {region region' : Region} {e : HeapError}

/-! ## Refusals -/

/-- The metadata of a new heap are never empty. -/
theorem geometry_arenaStart_pos {arenaStart : Nat} (hg : g.arenaStart host = .ok arenaStart) :
    0 < arenaStart := by
  obtain ⟨-, -, t, ht, hstop⟩ := geometry_bounds hg
  exact Nat.lt_of_lt_of_le (TableOffsets.stop_pos ht) hstop

/-- What is left of a region on which a heap was to be opened, with the error. -/
inductive Refused (host : Host) (g : Geometry) (region : Region) : HeapError → Region → Prop where
  /-- Nothing was done yet. -/
  | untouched (e : HeapError) : Refused host g region e region
  /-- There is room for the metadata of a new heap, but not for its first blocks. -/
  | reserved {arenaStart : Nat} {region' : Region} (new : region.size = 0)
    (hg : g.arenaStart host = .ok arenaStart) (resized : region.resize arenaStart = .ok region') :
    Refused host g region .outOfMemory region'
  /-- The new heap is there, but its region does not make it durable. -/
  | unflushed {h : Heap} {err : RegionError} (new : region.size = 0) (created : Created g region h)
    (refused : region.flush = .error err) : Refused host g region (.region err) h.region
  /-- The recorded heap has defects, and what lay behind its arena is gone. -/
  | cut {c : Contents} {region' : Region} {h : Heap}
    (recorded : Image.read region = .ok (c, region'.size))
    (shorter : region'.size < region.size) (resized : region.resize region'.size = .ok region')
    (heap : c.heap? region' = some h)
    (defective : h.checked = .error ⟨.refused (.corrupt .inconsistent), region'⟩) :
    Refused host g region (.corrupt .inconsistent) region'

/-- A heap is refused by the check with its region. -/
theorem checked_refused (hc : h.checked = .error ⟨.refused e, region'⟩) :
    e = .corrupt .inconsistent ∧ region' = h.region := by
  rw [checked] at hc
  split at hc
  · cases hc
  · split at hc
    · cases hc
    · cases hc
      exact ⟨rfl, rfl⟩

theorem load_refused (hl : load region = .error ⟨.refused e, region'⟩) :
    Refused host g region e region' := by
  rw [load] at hl
  split at hl
  · cases hl
    exact .untouched e
  · rename_i c bytes hread
    split at hl
    · cases hl
      exact .untouched _
    · rename_i cut hcut
      split at hl
      · cases hl
      · rename_i h hh
        obtain ⟨rfl, rfl⟩ := checked_refused hl
        obtain ⟨table, -, heq⟩ := heap?_eq_some_iff.1 hh
        have hregion : h.region = cut := by rw [heq]
        rw [hregion] at hl ⊢
        by_cases hlt : bytes < region.size
        · rw [if_pos hlt] at hcut
          obtain rfl : cut.size = bytes := Region.size_resize hcut
          exact .cut hread hlt hcut hh hl
        · rw [if_neg hlt] at hcut
          cases hcut
          exact .untouched _

theorem mount_refused_cases (hm : mount host g region = .error ⟨.refused e, region'⟩) :
    Refused host g region e region' := by
  rw [mount] at hm
  split at hm
  · rename_i hnew
    obtain rfl | ⟨arenaStart, h, hg, unfinished, rfl⟩ := create_refused hm
    · exact .untouched e
    · cases unfinished with
      | untouched same =>
        rw [same]
        exact .untouched e
      | reserved resized => exact .reserved hnew hg resized
      | unflushed created refused => exact .unflushed hnew created refused
  · exact load_refused hm

/-! ## Opening again -/

theorem mount_of_pos (hpos : 0 < region.size) : mount host g region = load region :=
  if_neg (Nat.ne_of_gt hpos)

/-- Room for metadata is no heap. -/
theorem load_of_zero (hb : region.byte 0 = 0) :
    load region = .error ⟨.refused (.corrupt .noHeader), region⟩ := by
  rw [load, read_of_zero hb]

/-- There is always something in front of the arena. -/
theorem WellFormed.region_pos (w : h.WellFormed) : 0 < h.region.size := by
  obtain ⟨t, ht, hstop⟩ := w.tables
  have := TableOffsets.stop_pos ht
  have := w.arenaStart_le
  omega

/-- A new heap can be loaded from the region that it was written to. -/
theorem Created.load (c : Created g region h) : ∃ h', Heap.load h.region = .ok h' ∧
    h'.frame = h.frame ∧ h'.blockCount = g.initialBlocks ∧ ∀ s, h'.objectAt s = none := by
  have cut : Cut h.region h.region.size h.region := if_neg (Nat.lt_irrefl _)
  obtain ⟨r, table, l⟩ := (Since.refl c.wellFormed).load c.wellFormed c.restorable.max_lt c.image
    (Region.SameBytes.refl _) ⟨h.region, cut⟩
  have restores := l.restores (Since.refl c.wellFormed) (Region.SameBytes.refl _)
  have hregion : r = h.region := by
    have := l.cut
    rw [Cut, if_neg (Nat.lt_irrefl _)] at this
    cases this
    rfl
  refine ⟨_, l.loaded, ?_, restores.blockCount_eq.trans c.blocks, fun s => ?_⟩
  · rw [hregion]
    simp only [restored, frame, NameTable.capacity_numbered]
  · rw [(restores.objects s).1]
    exact c.noObject s

/-- A heap with defects is refused again, as it was left. -/
theorem load_of_defective {c : Contents} (recorded : Image.read region = .ok (c, region'.size))
    (resized : region.resize region'.size = .ok region') (heap : c.heap? region' = some h)
    (defective : h.checked = .error ⟨.refused e, region'⟩) :
    load region' = .error ⟨.refused e, region'⟩ := by
  obtain ⟨⟨t, d⟩, hbytes, hle⟩ := read_eq_ok_iff.1 recorded
  obtain ⟨heq, -⟩ := regionBytes?_eq_some_iff.1 hbytes
  obtain ⟨-, -, -, -, hsame⟩ := Region.resize_eq resized
  have hstart : c.header.arenaStart ≤ region'.size := by omega
  have d' : Describes region' c t := d.congr (by omega) hstart fun i hi => hsame i (by omega) (by omega)
  rw [load, read_eq_ok_iff.2 ⟨⟨t, d'⟩, hbytes, Nat.le_refl _⟩]
  simp only [if_neg (Nat.lt_irrefl _), heap]
  exact defective

/-- A region on which no heap is opened is what it was, with three exceptions. If an empty region
cannot hold the first blocks, it is left with the metadata of the heap still to be written, which no
later opening takes for one. If an empty region cannot be flushed, it is left with the new heap, which
opens. If the recorded heap has defects, the region ends with its arena, all bytes up to there are
those of before, and the heap is refused again, now without a change. -/
theorem mount_refused (hm : mount host g region = .error ⟨.refused e, region'⟩) :
    region' = region ∨
    (region.size = 0 ∧ e = .outOfMemory ∧ g.arenaStart host = .ok region'.size ∧
      (∀ i, i < region'.size → region'.byte i = Bytes.byte region.beyond i) ∧
      (region.beyond = ByteArray.empty → ∀ host' g',
        mount host' g' region' = .error ⟨.refused (.corrupt .noHeader), region'⟩)) ∨
    (region.size = 0 ∧ (∃ err, region.flush = .error err ∧ e = .region err) ∧
      ∀ host' g', ∃ h, mount host' g' region' = .ok h ∧ h.blockLog2 = g.blockLog2 ∧
        h.maxBlocks = g.maxBlocks ∧ h.blockCount = g.initialBlocks ∧ ∀ s, h.objectAt s = none) ∨
    (e = .corrupt .inconsistent ∧ (∃ c, Image.read region = .ok (c, region'.size)) ∧
      region'.size < region.size ∧ (∀ i, i < region'.size → region'.byte i = region.byte i) ∧
      ∀ host' g', mount host' g' region' = .error ⟨.refused (.corrupt .inconsistent), region'⟩) := by
  cases mount_refused_cases hm with
  | untouched => exact .inl rfl
  | @reserved arenaStart _ new hg resized =>
    have hsize := Region.size_resize resized
    have hpos : 0 < region'.size := by
      rw [hsize]
      exact geometry_arenaStart_pos hg
    have hbytes (i : Nat) (hi : i < region'.size) : region'.byte i = Bytes.byte region.beyond i := by
      rw [Region.byte_resize resized, if_pos (by omega), new, if_neg (Nat.not_lt_zero i), Nat.sub_zero]
    refine .inr (.inl ⟨new, rfl, by rw [hsize]; exact hg, hbytes, fun hbeyond _ _ => ?_⟩)
    rw [mount_of_pos hpos]
    refine load_of_zero ?_
    rw [hbytes 0 hpos, hbeyond]
    rfl
  | @unflushed h err new created refused =>
    obtain ⟨h', loaded, hframe, hcount, hnone⟩ := created.load
    have hpos := created.wellFormed.region_pos
    refine .inr (.inr (.inl ⟨new, ⟨err, refused, rfl⟩, fun _ _ => ⟨h', ?_, ?_, ?_, hcount, hnone⟩⟩))
    · rw [mount_of_pos hpos]
      exact loaded
    · exact (congrArg Frame.blockLog2 hframe).trans (congrArg Frame.blockLog2 created.frame_eq)
    · exact (congrArg Frame.maxBlocks hframe).trans (congrArg Frame.maxBlocks created.frame_eq)
  | @cut c _ h recorded shorter resized heap defective =>
    obtain ⟨-, -, -, -, hsame⟩ := Region.resize_eq resized
    refine .inr (.inr (.inr ⟨rfl, ⟨c, recorded⟩, shorter, fun i hi => hsame i hi (by omega),
      fun _ _ => ?_⟩))
    rw [mount_of_pos (read_pos recorded)]
    exact load_of_defective recorded resized heap defective

/-! ## A region without room for blocks -/

/-- Memory for the metadata of a small heap and nothing else. -/
def tightRegion : Region where
  backing := .memory ⟨4096, 0, ByteArray.empty, zero_le_empty⟩

/-- Why a region is not opened, and how long it is left. -/
def rejection? (host : Host) (g : Geometry) (region : Region) : Option (Failure × Nat) :=
  match mount host g region with
  | .ok _ => none
  | .error r => some (r.failure, r.region.size)

theorem mount_tightRegion : ∃ region', mount .ample smallGeometry tightRegion =
    .error ⟨.refused .outOfMemory, region'⟩ ∧ region'.size = 4096 := by
  have run : rejection? .ample smallGeometry tightRegion = some (.refused .outOfMemory, 4096) := by
    decide +kernel
  rw [rejection?] at run
  split at run
  · cases run
  · rename_i r hr
    rw [Option.some.injEq, Prod.mk.injEq] at run
    obtain ⟨failure, region'⟩ := r
    obtain ⟨hf, hsize⟩ := run
    have hf : failure = .refused .outOfMemory := hf
    subst hf
    exact ⟨region', hr, hsize⟩

/-- A region that is refused may be longer than before. -/
theorem not_mount_refused_unchanged : ¬∀ host g region e region',
    mount host g region = .error ⟨.refused e, region'⟩ →
      region'.size = region.size ∧ ∀ i, region'.byte i = region.byte i := by
  intro unchanged
  obtain ⟨region', hm, hsize⟩ := mount_tightRegion
  obtain ⟨hsame, -⟩ := unchanged .ample smallGeometry tightRegion .outOfMemory region' hm
  rw [hsize] at hsame
  exact absurd hsame (by decide)

/-- No heap is found on it later. -/
theorem mount_refused_small : ∃ region', mount .ample smallGeometry tightRegion =
    .error ⟨.refused .outOfMemory, region'⟩ ∧ region'.size = 4096 ∧
      ∀ host g, mount host g region' = .error ⟨.refused (.corrupt .noHeader), region'⟩ := by
  obtain ⟨region', hm, hsize⟩ := mount_tightRegion
  refine ⟨region', hm, hsize, ?_⟩
  obtain hsame | ⟨-, -, -, -, again⟩ | ⟨-, ⟨err, -, he⟩, -⟩ | ⟨he, -⟩ := mount_refused hm
  · rw [hsame] at hsize
    exact absurd hsize (by decide)
  · exact again rfl
  · cases he
  · cases he

end Heap

end RegionHeap
