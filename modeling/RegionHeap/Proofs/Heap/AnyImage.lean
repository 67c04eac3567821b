import RegionHeap.Proofs.Blocks.InRange
import RegionHeap.Proofs.Heap.Opening
import RegionHeap.Proofs.Image.AnyBytes

/-!
Loading from a region with any bytes. Whatever the header, the tables and the arena say, loading
answers a heap, refuses the image, or passes on that the region does not let go of what lies behind
the arena; it is never a trap (`load_settled`). Once the entries are read, no run reaches behind the
end of the table, which is all that it takes to rebuild the lists of free runs and to walk over the
table. The check does not rely on any list either, of runs or of fragments (`WalksEnd`).
-/
namespace RegionHeap.Heap

open BlockTable Image

variable {region region' : Region} {c : Contents} {t : TableOffsets} {bytes : Nat} {h : Heap}

/-- The entries that were read describe runs that end in the table. -/
theorem entries_inRange (d : Describes region c t) : (ofRaw c.entries).InRange := by
  obtain ⟨hsize, hall⟩ := readEntries_eq_ok_iff.1 d.entries
  have range {b : Nat} {e : Entry} (he : (ofRaw c.entries).get? b = some e) :
      b < c.header.limit ∧ entryInRange c.header b e = true := by
    have hlt := lt_size_of_get? he
    exact ⟨by rwa [← hsize], (hall b e he).2⟩
  refine ⟨fun b e he => ?_, fun b s next prev he => ?_⟩
  · obtain ⟨hlt, hrange⟩ := range he
    show b + e.step ≤ c.entries.size
    cases e <;> simp only [entryInRange, Bool.and_eq_true, decide_eq_true_eq] at hrange <;>
      simp only [Entry.step] <;> omega
  · have hrange := (range he).2
    simp only [entryInRange, Bool.and_eq_true, decide_eq_true_eq] at hrange
    exact hrange.1

/-- Wherever the links of a heap lead, no list of free runs is followed for more runs than there are
blocks, and no list of fragments for more than the table counts. -/
structure WalksEnd (h : Heap) : Prop where
  bins : ∀ bin cursor, ∃ found,
    h.table.walkBin? bin h.table.size cursor (0, 0) = some found ∧ found.1 ≤ h.table.size
  fragments : ∀ log2 expected previous cursor, ∃ found,
    h.walkFragments? log2 expected previous cursor (0, 0) = some found ∧ found.1 ≤ expected

theorem walksEnd (hr : h.table.InRange) : WalksEnd h where
  bins bin cursor := by
    obtain ⟨found, hw, hle⟩ := hr.exists_walkBin? bin h.table.size cursor (0, 0)
    exact ⟨found, hw, by rwa [Nat.zero_add] at hle⟩
  fragments log2 expected previous cursor := by
    obtain ⟨found, hw, hle⟩ := exists_walkFragments? h log2 expected previous cursor (0, 0)
    exact ⟨found, hw, by rwa [Nat.zero_add] at hle⟩

/-- The heap that an image describes can be put together and checked. -/
theorem exists_heap? (recorded : Image.read region = .ok (c, bytes)) (cut : Cut region bytes region') :
    ∃ h d, c.heap? region' = some h ∧ h.region = region' ∧ h.defects? = some d ∧ WalksEnd h := by
  obtain ⟨⟨t, desc⟩, hbytes, hfit⟩ := read_eq_ok_iff.1 recorded
  have inRange := entries_inRange desc
  have small := entries_small desc hbytes
  obtain ⟨table, runs, ht, rebuilt⟩ := inRange.exists_rebuilt small
  have inRange' := rebuilt.inRange inRange
  obtain ⟨hsize, -⟩ := cut.spec hfit
  obtain ⟨heq, -⟩ := regionBytes?_eq_some_iff.1 hbytes
  obtain ⟨h, hh⟩ : ∃ h, c.heap? region' = some h := ⟨_, heap?_eq_some_iff.2 ⟨table, ht, rfl⟩⟩
  obtain ⟨_, ht', e⟩ := heap?_eq_some_iff.1 hh
  rw [ht] at ht'
  cases ht'
  have htable : h.table = table := by rw [e]
  have hregion : h.region = region' := by rw [e]
  have hstart : h.arenaStart = c.header.arenaStart := by rw [e]
  rw [← htable] at inRange' rebuilt
  obtain ⟨d, hd⟩ := exists_defects?
    (inRange'.exists_defects? (by rw [rebuilt.size_eq]; exact small)) (by rw [hregion, hstart]; omega)
  exact ⟨h, d, hh, hregion, hd, walksEnd inRange'⟩

/-! ## Loading -/

/-- What may come of loading. -/
inductive Settled (region : Region) : Except Rejection Heap → Prop where
  /-- What the region holds is no image of a heap. -/
  | unreadable {reason : Corruption}
    (unread : Image.read region = .error (.refused (.corrupt reason))) :
    Settled region (.error ⟨.refused (.corrupt reason), region⟩)
  /-- The region is longer than the recorded arena and does not let itself be cut. -/
  | uncut {c : Contents} {bytes : Nat} {e : RegionError}
    (recorded : Image.read region = .ok (c, bytes)) (longer : bytes < region.size)
    (refused : region.resize bytes = .error e) :
    Settled region (.error ⟨.refused (.region e), region⟩)
  /-- The heap was put together and checked. -/
  | checked {c : Contents} {bytes : Nat} {region' : Region} {h : Heap} {d : Defects}
    (recorded : Image.read region = .ok (c, bytes)) (cut : Cut region bytes region')
    (heap : c.heap? region' = some h) (defects : h.defects? = some d) (ends : WalksEnd h) :
    Settled region (if d.areNone then .ok h
      else .error ⟨.refused (.corrupt .inconsistent), region'⟩)

/-- Loading from a region with any bytes ends with a heap, with what is wrong with the image or with
the region's own refusal to be cut. Up to the check nothing is read but the header and tables that
lie in the region and in the range of sizes, and the check ends wherever the links lead. -/
theorem load_settled (region : Region) : Settled region (load region) ∧
    ∀ header t, Located region header t → Housed region header t := by
  refine ⟨?_, fun _ _ l => l.housed⟩
  rw [load]
  cases hr : Image.read region with
  | error e =>
    obtain ⟨reason, rfl⟩ := read_untrapped region e hr
    exact .unreadable hr
  | ok p =>
    obtain ⟨c, bytes⟩ := p
    simp only
    split
    · rename_i e hcut
      by_cases hlt : bytes < region.size
      · rw [if_pos hlt] at hcut
        exact .uncut hr hlt hcut
      · rw [if_neg hlt] at hcut
        cases hcut
    · rename_i region' hcut
      obtain ⟨h, d, hh, rfl, hd, ends⟩ := exists_heap? hr hcut
      rw [hh]
      simp only [checked, hd]
      exact .checked hr hcut hh hd ends

/-- A new heap is loaded from its region, and its tables lie there. -/
theorem load_settled_small : ∃ region h header t, load region = .ok h ∧ Settled region (.ok h) ∧
    Located region header t ∧ Housed region header t := by
  obtain ⟨h₀, _, hc, -⟩ := created_of_smallAfter? [] (by decide +kernel)
  obtain ⟨h, hl, -⟩ := (create_eq_ok hc).load
  obtain ⟨c, t, -, l⟩ := load_eq_ok hl
  have located : Located h₀.region c.header t :=
    ⟨l.describes.header, l.describes.offsets, l.describes.consistent, _, l.bytes, l.size_le⟩
  obtain ⟨settled, housed⟩ := load_settled h₀.region
  rw [hl] at settled
  exact ⟨_, h, _, t, hl, settled, located, housed _ t located⟩

end RegionHeap.Heap
