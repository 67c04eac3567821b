import RegionHeap.Proofs.Heap.Opening
import RegionHeap.Proofs.Heap.Undoing

/-!
A heap that is saved last of all and opened again. As long as it is well-formed, and its block numbers
fit an image, it is opened as it was (`Saved.resumed`). Heaps that were created are of that kind, and
so is whatever comes of them, and whatever they are opened as again (`Savable`). Of the heaps that are
found in a region with other bytes it is those whose free runs were recorded with nothing but blanks
inside (`savable_iff`).
-/
namespace RegionHeap.Heap

open BlockTable

/-- A heap that is opened again as it was, if it is saved. -/
structure Savable (h : Heap) : Prop where
  wellFormed : h.WellFormed
  max_lt : h.maxBlocks < Geometry.blockLimit

/-- What a heap is opened as again: it reads the same, and it has the same objects with the same
bytes. -/
structure Resumes (h again : Heap) : Prop where
  savable : again.Savable
  readings : SameReadings h again
  objectAt_eq : ∀ start, again.objectAt start = h.objectAt start
  bytes_eq : ∀ start length, h.objectAt start = some length →
    ∀ i, i < length → again.arenaByte (start + i) = h.arenaByte (start + i)

variable {host : Host} {g : Geometry} {region : Region} {h h' h₁ : Heap}

theorem Savable.withRefusals (s : h.Savable) (refusals : Option Refusals) :
    (h.withRefusals refusals).Savable := ⟨s.wellFormed.withRefusals refusals, s.max_lt⟩

/-- What the region refused is no part of what is opened again. -/
theorem Resumes.of_withRefusals {again : Heap} {refusals : Option Refusals}
    (r : (h.withRefusals refusals).Resumes again) : h.Resumes again where
  savable := r.savable
  readings :=
    { usage_eq := r.readings.usage_eq
      freeRuns_eq := r.readings.freeRuns_eq
      blockCount_eq := r.readings.blockCount_eq
      busy_eq := r.readings.busy_eq
      aligned_eq := r.readings.aligned_eq
      names := r.readings.names }
  objectAt_eq := r.objectAt_eq
  bytes_eq := r.bytes_eq

theorem Created.savable (c : Created g region h) : h.Savable :=
  ⟨c.wellFormed, c.restorable.max_lt⟩

/-- A new heap can be saved. -/
theorem savable_of_mount (new : region.size = 0) (hm : mount host g region = .ok h) : h.Savable := by
  rw [mount, if_pos new] at hm
  exact (create_eq_ok hm).savable

/-- The free runs of an image that the region holds have nothing but blanks inside. -/
def BlankInside (region : Region) : Prop :=
  ∀ c bytes runs, Image.read region = .ok (c, bytes) → (ofRaw c.entries).runs? = some runs →
    InnersBlank c.entries runs

theorem savable_iff (hm : mount host g region = .ok h) :
    h.Savable ↔ h.maxBlocks < Geometry.blockLimit ∧ BlankInside region := by
  by_cases new : region.size = 0
  · have s := savable_of_mount new hm
    refine ⟨fun _ => ⟨s.max_lt, fun c bytes runs recorded _ => ?_⟩, fun _ => s⟩
    obtain ⟨-, -, hle⟩ := Image.read_eq_ok_iff.1 recorded
    have := Image.read_pos recorded
    omega
  · rw [mount, if_neg new] at hm
    obtain ⟨c, t, recorded, l⟩ := load_eq_ok hm
    obtain ⟨runs, hruns, accepted⟩ := l.accepted
    have blank : InnersBlank c.entries runs ↔ BlankInside region := by
      constructor
      · intro inners c' bytes' runs' recorded' hruns'
        rw [recorded] at recorded'
        cases recorded'
        rw [hruns] at hruns'
        cases hruns'
        exact inners
      · intro inside
        exact inside c _ runs recorded hruns
    rw [← blank, ← accepted.laidOut_iff, ← l.wellFormed_iff]
    exact ⟨fun s => ⟨s.max_lt, s.wellFormed⟩, fun both => ⟨both.2, both.1⟩⟩

theorem Reaches.savable (r : Reaches h h') (s : h.Savable) : h'.Savable := by
  obtain ⟨w, ground⟩ := r.wellFormed s.wellFormed
  have hmax : h'.maxBlocks = h.maxBlocks := congrArg Frame.maxBlocks ground
  exact ⟨w, by rw [hmax]; exact s.max_lt⟩

theorem Saved.savable (saved : Saved h h₁) (s : h.Savable) : h₁.Savable := by
  have hmax : h₁.maxBlocks = h.maxBlocks := congrArg Frame.maxBlocks saved.frame_eq
  exact ⟨saved.wellFormed s.wellFormed, by rw [hmax]; exact s.max_lt⟩

/-- The region of a heap that was saved last of all is opened as that heap, for any geometry, and so is
any region with its bytes. -/
theorem Saved.resumed (saved : Saved h h₁) (s : h.Savable)
    (same : Region.SameBytes h₁.region region) (g : Geometry) :
    ∃ again, mount host g region = .ok again ∧ Resumes h again := by
  obtain ⟨w₁, hmax⟩ := saved.savable s
  have whole : ∃ region', Cut region h₁.region.size region' :=
    ⟨region, if_neg (by rw [same.size_eq]; exact Nat.lt_irrefl _)⟩
  obtain ⟨r, table, l⟩ := (Since.refl w₁).load w₁ hmax saved.savedIn same whole
  have restores := l.restores (Since.refl w₁) same
  have hpos : 0 < region.size := by
    rw [same.size_eq]
    exact w₁.region_pos
  have objects (start : Nat) : (h₁.restored r table).objectAt start = h.objectAt start :=
    (restores.objects start).1.trans (by rw [saved.eq]; rfl)
  have sameObjects : SameObjects h (h₁.restored r table) :=
    ⟨s.wellFormed, l.wellFormed, by rw [saved.eq]; rfl, objects⟩
  refine ⟨_, (mount_of_pos hpos).trans l.loaded, ⟨l.wellFormed, hmax⟩, ?_, objects, ?_⟩
  · exact sameObjects.sameReadings (restores.blockCount_eq.trans (by rw [saved.eq]; rfl))
      (by rw [saved.eq]; rfl) (s.wellFormed.names.sameNames_of_slots l.wellFormed.names.toTidy
        (NameTable.slots_numbered.trans (by rw [saved.eq])))
  · intro start length hs i hi
    rw [restores.bytes start length (by rw [saved.eq]; exact hs) i hi]
    -- saving leaves the arena alone
    have hstart : h₁.arenaStart = h.arenaStart := arenaStart_of_frame saved.frame_eq
    rw [arenaByte, arenaByte, hstart]
    exact saved.arena _ (Nat.le_add_right _ _)

end RegionHeap.Heap
