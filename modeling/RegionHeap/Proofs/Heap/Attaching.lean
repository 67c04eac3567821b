import RegionHeap.Proofs.Heap.Alike
import RegionHeap.Proofs.Heap.Persistence

/-!
Attaching two heaps that are alike. Their metadata may be older than they are: they say what some heap
was when it was saved (`Kept`). Attaching takes the links of fragments that were free then from the
arena, so it ends alike for both as long as they have these links in common (`load_twin`).
-/
namespace RegionHeap.Heap

open BlockTable Image

variable {h k h' k' saved : Heap} {region region' : Region}

theorem Beside.symm (b : Beside h k) : Beside k h := by
  refine ⟨?_, b.twin.symm⟩
  rw [b.eq]
  rfl

theorem Beside.freeFragment_eq (b : Beside h k) : k.freeFragment = h.freeFragment := by
  rw [b.eq]
  rfl

theorem Alike.symm (a : Alike h k) : Alike k h := by
  refine ⟨a.toBeside.symm, fun x log2 hx i hi => ?_⟩
  rw [a.toBeside.freeFragment_eq] at hx
  exact (a.links x log2 hx i hi).symm

/-- The bytes of a region that hold the links of fragments that are free in the heap. -/
def Linked (h : Heap) (i : Nat) : Prop :=
  ∃ x log2, h.freeFragment x = some log2 ∧ ∃ j, j < 16 ∧ i = h.arenaStart + x + j

/-- Two heaps whose metadata say what a heap was when it was saved. -/
structure Kept (saved h k : Heap) : Prop where
  wellFormed : saved.WellFormed
  max_lt : saved.maxBlocks < Geometry.blockLimit
  start_eq : h.arenaStart = saved.arenaStart
  image : saved.SavedIn h.region
  image' : saved.SavedIn k.region

theorem freeFragment_restored {table : BlockTable} {x : Nat}
    (hu : ∀ block, table.inUse? block = h.table.inUse? block) :
    (h.restored region table).freeFragment x = h.freeFragment x := by
  rw [freeFragment, freeFragment, cutLog2?_congr h (h.restored region table) (hu _)]
  rfl

theorem load_of_read {c : Contents} {bytes : Nat} (hread : Image.read region = .ok (c, bytes))
    (hcut : Cut region bytes region') (hh : c.heap? region' = some h) : load region = h.checked := by
  rw [Cut] at hcut
  rw [load, hread]
  simp only [hcut, hh]

/-- Both regions are cut to the size that their image says, or both refuse. -/
theorem cut_twin {r r' : Region} (t : Region.Twin r r') (bytes : Nat) :
    (∃ e, (if bytes < r.size then r.resize bytes else .ok r) = .error e ∧
      (if bytes < r'.size then r'.resize bytes else .ok r') = .error e) ∨
    ∃ s s', Cut r bytes s ∧ Cut r' bytes s' ∧ Region.Twin s s' ∧
      ∀ i, r'.grownByte i = r.grownByte i → s'.grownByte i = s.grownByte i := by
  unfold Cut
  rw [t.size_eq]
  split
  · exact t.resize bytes
  · exact .inr ⟨r, r', rfl, rfl, t, fun _ hi => hi⟩

/-- The heap that is loaded from metadata of a heap that was well-formed passes the check only if it
is well-formed, too. -/
theorem wellFormed_of_checked (w₀ : saved.WellFormed) (hmax : saved.maxBlocks < Geometry.blockLimit)
    (image : saved.SavedIn region) (loaded : load region = h.checked) (hd : h.defects? = some {}) :
    h.WellFormed := by
  rw [checked, hd] at loaded
  obtain ⟨c, t, -, l⟩ := load_eq_ok loaded
  exact (l.restorable w₀ hmax image).wellFormed

/-- Heaps that pass the check together, or do not. -/
theorem checked_twin (a : Alike h k) (hl : ∃ layout, h.table.LaidOut layout)
    (hle : h.arenaStart ≤ h.region.size) (wh : h.defects? = some {} → h.WellFormed)
    (wk : k.defects? = some {} → k.WellFormed) :
    h.WellFormed ∧ h.checked = .ok h ∧ k.checked = .ok k ∨
      ∃ r r', h.checked = .error r ∧ k.checked = .error r' ∧ r'.failure = r.failure := by
  have ht : ∃ d, h.table.defects? = some d := ⟨{}, hl.choose_spec.defects?_eq⟩
  have ht' : ∃ d, k.table.defects? = some d := by
    rw [a.eq]
    exact ht
  have hle' : k.arenaStart ≤ k.region.size := by
    rw [a.arenaStart_eq, a.twin.size_eq]
    exact hle
  obtain ⟨d, hd⟩ := exists_defects? ht hle
  obtain ⟨d', hd'⟩ := exists_defects? ht' hle'
  -- what is wrong with the lists may differ, but not whether something is
  have both : d = {} ↔ d' = {} := by
    constructor
    · rintro rfl
      have := (a.wellFormed (wh hd)).defects?_eq_none
      rw [hd', Option.some.injEq] at this
      exact this
    · rintro rfl
      have := (a.symm.wellFormed (wk hd')).defects?_eq_none
      rw [hd, Option.some.injEq] at this
      exact this
  rw [checked, checked, hd, hd']
  simp only [Defects.areNone, beq_iff_eq]
  by_cases hnone : d = {}
  · rw [if_pos hnone, if_pos (both.1 hnone)]
    rw [hnone] at hd
    exact .inl ⟨wh hd, rfl, rfl⟩
  · rw [if_neg hnone, if_neg fun h' => hnone (both.2 h')]
    exact .inr ⟨_, _, rfl, rfl, rfl⟩

/-- Regions that end before the arena that their metadata describe are refused alike. -/
theorem load_short (w₀ : saved.WellFormed) (hmax : saved.maxBlocks < Geometry.blockLimit)
    (image : saved.SavedIn region) (image' : saved.SavedIn region') (t : Region.Twin region region')
    (hshort : region.size < saved.region.size) :
    ∃ r r', load region = .error r ∧ load region' = .error r' ∧ r'.failure = r.failure := by
  obtain ⟨_, d⟩ := w₀.describes hmax image
  obtain ⟨_, d'⟩ := w₀.describes hmax image'
  have hshort' : region'.size < saved.region.size := by
    rw [t.size_eq]
    exact hshort
  have hbytes : saved.contents.header.regionBytes? = some saved.region.size :=
    regionBytes?_eq_some_iff.2 ⟨w₀.size_eq, w₀.small⟩
  rw [load, load, read_eq_shortRegion d hbytes hshort, read_eq_shortRegion d' hbytes hshort']
  exact ⟨_, _, rfl, rfl, rfl⟩

/-- Regions that hold the metadata of one heap, and have the links in common that were free in it, are
loaded alike, or refused alike. -/
theorem load_twin (w₀ : saved.WellFormed) (hmax : saved.maxBlocks < Geometry.blockLimit)
    (image : saved.SavedIn region) (image' : saved.SavedIn region') (t : Region.Twin region region')
    (links : ∀ i, saved.Linked i → region'.grownByte i = region.grownByte i) :
    (∃ h' k', load region = .ok h' ∧ load region' = .ok k' ∧ Restorable h' ∧ Kept saved h' k' ∧
      AlikeOn saved.Linked h' k') ∨
    ∃ r r', load region = .error r ∧ load region' = .error r' ∧ r'.failure = r.failure := by
  have hsize := t.size_eq
  by_cases hshort : region.size < saved.region.size
  · exact .inr (load_short w₀ hmax image image' t hshort)
  have hread := w₀.read_saved hmax image (by omega)
  have hread' := w₀.read_saved hmax image' (by omega)
  rcases cut_twin t saved.region.size with ⟨e, he, he'⟩ | ⟨r, r', hcut, hcut', t', agrees⟩
  · right
    rw [load, load, hread, hread']
    simp only [he, he']
    exact ⟨_, _, rfl, rfl, rfl⟩
  obtain ⟨runs, hl⟩ := w₀.laidOut
  obtain ⟨table, ht, hlaid, hbare⟩ := ofEntries?_of_tiled (tiled_entries hl.toTiled) hl.apart
  have hload := load_of_read hread hcut (w₀.heap?_contents ht r)
  have hload' := load_of_read hread' hcut' (w₀.heap?_contents ht r')
  -- the new table and the old one have the same blocks in use, so the same fragments are free
  have free : (saved.restored r table).freeFragment = saved.freeFragment :=
    funext fun x => freeFragment_restored fun b => inUse?_congr (hbare b)
  have common {i : Nat} (hi : saved.Linked i) :
      Agrees (saved.restored r table) (saved.restored r' table) i := agrees i (links i hi)
  have a : Alike (saved.restored r table) (saved.restored r' table) :=
    Beside.alike ⟨rfl, t'⟩ fun x log2 hx i hi =>
      common ⟨x, log2, by rw [← free]; exact hx, i, hi, rfl⟩
  obtain ⟨hr, -, hb⟩ := hcut.spec (Nat.le_of_not_lt hshort)
  obtain ⟨hr', -, hb'⟩ := hcut'.spec (Nat.le_of_not_lt (by rw [hsize]; exact hshort))
  have hle : saved.arenaStart ≤ r.size := by rw [hr]; exact w₀.arenaStart_le
  have hle' : saved.arenaStart ≤ r'.size := by rw [hr']; exact w₀.arenaStart_le
  rcases checked_twin a ⟨_, hlaid⟩ hle (wellFormed_of_checked w₀ hmax image hload)
    (wellFormed_of_checked w₀ hmax image' hload') with
    ⟨w', hok, hok'⟩ | ⟨e, e', he, he', hsame⟩
  · rw [hok] at hload
    rw [hok'] at hload'
    obtain ⟨c, _, -, l⟩ := load_eq_ok hload
    refine .inl ⟨_, _, hload, hload', l.restorable w₀ hmax image, ⟨w₀, hmax, rfl, ?_, ?_⟩, a,
      fun i => common⟩
    · exact image.congr w₀ hle fun i hi => hb i (by omega)
    · exact image'.congr w₀ hle' fun i hi => hb' i (by omega)
  · rw [hload, hload', he, he']
    exact .inr ⟨e, e', rfl, rfl, hsame⟩

/-- A region is only loaded if the links that it holds where fragments were free lead from one free
fragment to another of its size. -/
theorem freeFragment_of_load (w₀ : saved.WellFormed) (hmax : saved.maxBlocks < Geometry.blockLimit)
    (image : saved.SavedIn region) (loaded : load region = .ok h) {x y log2 : Nat}
    (hx : saved.freeFragment x = some log2)
    (hnext : region.number? 8 (saved.arenaStart + x) = some y) (hy : y ≠ Link.nil) :
    saved.freeFragment y = some log2 := by
  obtain ⟨c, _, -, l⟩ := load_eq_ok loaded
  have w := (l.restorable w₀ hmax image).wellFormed
  obtain ⟨c, bytes, r, hread, hcut, hh, -⟩ := load_eq_ok_iff.1 loaded
  obtain ⟨⟨t, d⟩, -, hle⟩ := read_eq_ok_iff.1 hread
  obtain ⟨t₀, d₀⟩ := w₀.describes hmax image
  obtain rfl := d.unique d₀
  obtain ⟨runs, hl⟩ := w₀.laidOut
  obtain ⟨table, ht, -, hbare⟩ := ofEntries?_of_tiled (tiled_entries hl.toTiled) hl.apart
  rw [w₀.heap?_contents ht r, Option.some.injEq] at hh
  subst hh
  have free (x : Nat) : (saved.restored r table).freeFragment x = saved.freeFragment x :=
    freeFragment_restored fun b => inUse?_congr (hbare b)
  obtain ⟨hsize, -, hb⟩ := hcut.spec hle
  rw [← free] at hx ⊢
  have hfit : saved.arenaStart + x + 16 ≤ r.size := (w.lists.place x log2 hx).2.2
  refine w.lists.threads.home_next hx ?_
  have hnumber : r.number? 8 (saved.arenaStart + x) = some y := by
    rw [Region.number?_congr (by omega) (by omega) fun i _ hi => hb i (by omega)]
    exact hnext
  show (r.number? 8 (saved.arenaStart + x)).bind Link.decode = some y
  rw [hnumber, Option.bind_some, Link.decode, if_neg hy]

end RegionHeap.Heap
