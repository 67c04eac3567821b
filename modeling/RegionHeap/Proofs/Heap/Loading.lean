import RegionHeap.Heap.Open
import RegionHeap.Proofs.Heap.Accepting
import RegionHeap.Proofs.Image.Reading

/-!
Loading a heap. What the readers of an image and the check of the heap make sure of, for a region
with any bytes: the heap is checkable (`Loaded.checkable`), its block table was rebuilt from entries
over which the check walked (`Loaded.accepted`), and it has no defects.
-/
namespace RegionHeap.Heap

open BlockTable Image

variable {region : Region} {c : Contents} {h : Heap}

/-! ## What loading does -/

theorem checked_eq_ok_iff {h' : Heap} : h.checked = .ok h' ↔ h.defects? = some {} ∧ h = h' := by
  rw [checked]
  cases h.defects? with
  | none => simp
  | some d =>
    simp only [Option.some.injEq, Defects.areNone, beq_iff_eq]
    split
    · rename_i hd
      simp [hd]
    · rename_i hd
      simp [hd]

theorem heap?_eq_some_iff : c.heap? region = some h ↔ ∃ table, ofEntries? c.entries = some table ∧
    h = {
      region, table
      blockLog2 := c.header.blockLog2
      arenaStart := c.header.arenaStart
      maxBlocks := c.header.maxBlocks
      floor := min c.header.floor c.header.limit
      freeLists := c.freeLists
      busy := c.busy
      aligned := c.aligned
      names := c.names } := by
  simp only [Contents.heap?, Option.bind_eq_bind, Option.bind_eq_some_iff, Option.some.injEq]
  exact exists_congr fun table => and_congr_right fun _ => eq_comm

/-- The region without what lies behind its first `bytes` bytes. -/
def Cut (region : Region) (bytes : Nat) (region' : Region) : Prop :=
  (if bytes < region.size then region.resize bytes else .ok region) = .ok region'

theorem load_eq_ok_iff : load region = .ok h ↔ ∃ c bytes region', Image.read region = .ok (c, bytes) ∧
    Cut region bytes region' ∧ c.heap? region' = some h ∧ h.defects? = some {} := by
  rw [load]
  constructor
  · intro hl
    split at hl
    · cases hl
    · rename_i c bytes hr
      split at hl
      · cases hl
      · rename_i region' hcut
        split at hl
        · cases hl
        · rename_i h' hh
          obtain ⟨hd, rfl⟩ := checked_eq_ok_iff.1 hl
          exact ⟨c, bytes, region', hr, hcut, hh, hd⟩
  · rintro ⟨c, bytes, region', hr, hcut, hh, hd⟩
    rw [hr]
    simp only
    rw [show (if bytes < region.size then region.resize bytes else .ok region) = .ok region'
      from hcut]
    simp only [hh]
    exact checked_eq_ok_iff.2 ⟨hd, rfl⟩

/-- What is left of a region is as long as the image says, and holds what it held. -/
theorem Cut.spec {region' : Region} {bytes : Nat} (hc : Cut region bytes region')
    (hle : bytes ≤ region.size) : region'.size = bytes ∧ region'.capacity = region.capacity ∧
      ∀ i, i < bytes → region'.byte i = region.byte i := by
  rw [Cut] at hc
  split at hc
  · obtain ⟨hsize, hcap, -, -, hb⟩ := Region.resize_eq hc
    exact ⟨hsize, hcap, fun i hi => hb i hi (by omega)⟩
  · cases hc
    exact ⟨by omega, rfl, fun _ _ => rfl⟩

/-! ## What is known of loaded heaps -/

/-- A heap that was loaded from a region with these contents. -/
structure Loaded (region : Region) (c : Contents) (t : TableOffsets) (h : Heap) : Prop where
  describes : Describes region c t
  eq : h = {
    region := h.region
    table := h.table
    blockLog2 := c.header.blockLog2
    arenaStart := c.header.arenaStart
    maxBlocks := c.header.maxBlocks
    floor := min c.header.floor c.header.limit
    freeLists := c.freeLists
    busy := c.busy
    aligned := c.aligned
    names := c.names }
  table : ofEntries? c.entries = some h.table
  bytes : c.header.regionBytes? = some h.region.size
  size_le : h.region.size ≤ region.size
  capacity_eq : h.region.capacity = region.capacity
  byte_eq : ∀ i, i < h.region.size → h.region.byte i = region.byte i
  defects : h.defects? = some {}

theorem load_eq_ok (hl : load region = .ok h) :
    ∃ c t, Image.read region = .ok (c, h.region.size) ∧ Loaded region c t h := by
  obtain ⟨c, bytes, region', hr, hcut, hh, hd⟩ := load_eq_ok_iff.1 hl
  obtain ⟨⟨t, hdesc⟩, hbytes, hle⟩ := read_eq_ok_iff.1 hr
  obtain ⟨hsize, hcap, hb⟩ := hcut.spec hle
  obtain ⟨table, ht, rfl⟩ := heap?_eq_some_iff.1 hh
  subst hsize
  exact ⟨c, t, hr, hdesc, rfl, ht, hbytes, hle, hcap, hb, hd⟩

theorem regionBytes?_eq_some_iff {header : Header} {bytes : Nat} :
    header.regionBytes? = some bytes ↔
      bytes = header.arenaStart + header.limit * 1 <<< header.blockLog2 ∧ bytes < Size.limit := by
  rw [Header.regionBytes?, Option.bind_eq_some_iff]
  constructor
  · rintro ⟨arena, harena, hbytes⟩
    obtain ⟨-, rfl⟩ := Size.mul?_eq_some_iff.1 harena
    obtain ⟨hlt, rfl⟩ := Size.add?_eq_some_iff.1 hbytes
    exact ⟨Nat.add_comm _ _, hlt⟩
  · rintro ⟨rfl, hlt⟩
    exact ⟨_, Size.mul?_eq_some_iff.2 ⟨by omega, rfl⟩,
      Size.add?_eq_some_iff.2 ⟨by omega, Nat.add_comm _ _⟩⟩

theorem isConsistent_iff {header : Header} {t : TableOffsets} : header.isConsistent t = true ↔
    t.stop ≤ header.arenaStart ∧ header.limit ≤ header.maxBlocks ∧
      header.slotCount ≤ header.slotCapacity ∧ header.recordCount ≤ header.recordCapacity := by
  simp only [Header.isConsistent, Bool.and_eq_true, decide_eq_true_eq, and_assoc]

/-- Names that were read can be saved, and stand in one slot each. -/
theorem names_sound {header : Header} {t : TableOffsets} {names : NameTable}
    (hn : readNames region header t = .ok names) (hle : header.slotCount ≤ header.slotCapacity) :
    names.capacity = header.slotCapacity ∧ names.Sound := by
  obtain ⟨hsize, hslots, hof⟩ := readNames_eq_ok_iff.1 hn
  obtain ⟨heq, hnodup⟩ := NameTable.ofSlots?_eq_some_iff.1 hof
  rw [← heq] at hnodup
  have hcap : names.capacity = header.slotCapacity := by rw [heq, NameTable.capacity_numbered]
  have tidy : names.Tidy := heq ▸ NameTable.tidy_numbered (by omega) (by rw [← heq]; exact hnodup)
  refine ⟨hcap, tidy, fun i o ho => ?_⟩
  rcases readSlot_eq_ok_iff.1 (hslots i _ ho) with ⟨h0, -⟩ | ⟨name, offset, heq, ha, -, -, hoff⟩
  · cases h0
  · cases heq
    exact ⟨ha, Region.number?_lt hoff⟩

theorem length_foldl_insert_le {α : Type} (pairs : List (Nat × α)) (m : OrderedMap α) :
    (pairs.foldl (fun m p => m.insert p.1 p.2) m).size ≤ m.size + pairs.length := by
  induction pairs generalizing m with
  | nil => exact Nat.le_refl _
  | cons p rest ih =>
    have h₁ := ih (m.insert p.1 p.2)
    have h₂ : (m.insert p.1 p.2).size ≤ m.size + 1 :=
      AlignmentRecords.length_insertPair_le p.1 p.2 m.pairs
    rw [List.foldl_cons, List.length_cons]
    omega

theorem mem_of_mem_foldl_insert {α : Type} {pairs : List (Nat × α)} {m : OrderedMap α} {p : Nat × α}
    (hp : p ∈ (pairs.foldl (fun m p => m.insert p.1 p.2) m).toList) : p ∈ m.toList ∨ p ∈ pairs := by
  induction pairs generalizing m with
  | nil => exact .inl hp
  | cons q rest ih =>
    rcases ih hp with hp | hp
    · rcases mem_insertPair hp with rfl | hp
      · exact .inr List.mem_cons_self
      · exact .inl hp
    · exact .inr (List.mem_cons_of_mem _ hp)

/-- Records that were read are no more than there may be. -/
theorem records_sound {header : Header} {t : TableOffsets} {aligned : AlignmentRecords}
    (hr : readRecords region header t = .ok aligned)
    (hle : header.recordCount ≤ header.recordCapacity) :
    aligned.capacity = header.recordCapacity ∧ aligned.Sound := by
  obtain ⟨records, hlen, hrecords, rfl⟩ := readRecords_eq_ok_iff.1 hr
  refine ⟨rfl, ?_, fun p hp => ?_⟩
  · have := length_foldl_insert_le records OrderedMap.empty
    rw [hlen, show (OrderedMap.empty : OrderedMap Nat).size = 0 from rfl, Nat.zero_add] at this
    exact Nat.le_trans this hle
  · rcases mem_of_mem_foldl_insert (m := OrderedMap.empty) hp with hp | hp
    · cases hp
    · obtain ⟨i, hi⟩ := List.getElem?_of_mem hp
      obtain ⟨h₁, h₂⟩ := hrecords i p hi
      exact ⟨Region.number?_lt h₁, Region.number?_lt h₂⟩

/-- An arena that fits the range of sizes has fewer blocks than that. -/
theorem entries_small {t : TableOffsets} {bytes : Nat} (d : Describes region c t)
    (hbytes : c.header.regionBytes? = some bytes) : c.entries.size < Size.limit := by
  obtain ⟨heq, hlt⟩ := regionBytes?_eq_some_iff.1 hbytes
  have := Nat.le_mul_of_pos_right c.header.limit (one_shiftLeft_pos c.header.blockLog2)
  rw [(readEntries_eq_ok_iff.1 d.entries).1]
  omega

namespace Loaded

variable {t : TableOffsets} (l : Loaded region c t h)
include l

theorem entries_size : c.entries.size = c.header.limit :=
  (readEntries_eq_ok_iff.1 l.describes.entries).1

/-- The check walked over the recorded entries. -/
theorem accepted : ∃ runs, (ofRaw c.entries).runs? = some runs ∧
    Accepted c.entries runs h.table := by
  obtain ⟨hsize, hall⟩ := readEntries_eq_ok_iff.1 l.describes.entries
  obtain ⟨runs, hr, hrebuilt⟩ := exists_rebuilt l.table (entries_small l.describes l.bytes) fun b s next prev hb => by
    have hrange := (hall b _ hb).2
    simp only [entryInRange, Bool.and_eq_true, decide_eq_true_eq] at hrange
    rw [hsize]
    exact hrange
  exact ⟨runs, hr, hrebuilt.accepted (parts_of_defects? l.defects).1⟩

theorem blockCount_eq : h.blockCount = c.header.limit := by
  obtain ⟨runs, -, ha⟩ := l.accepted
  exact ha.size_eq.trans l.entries_size

theorem checkable : Checkable h := by
  obtain ⟨-, -, -, ⟨hmin, hmax⟩, -⟩ := readHeader_eq_ok_iff.1 l.describes.header
  obtain ⟨hstop, hlimit, hslots, hrecords⟩ := isConsistent_iff.1 l.describes.consistent
  obtain ⟨hbytes, hsmall⟩ := regionBytes?_eq_some_iff.1 l.bytes
  obtain ⟨hnames, names⟩ := names_sound l.describes.names hslots
  obtain ⟨haligned, aligned⟩ := records_sound l.describes.aligned hrecords
  obtain ⟨runs, -, ha⟩ := l.accepted
  have hcount := l.blockCount_eq
  have e := l.eq
  have hlog : h.blockLog2 = c.header.blockLog2 := by rw [e]
  exact {
    min_block := by rw [hlog]; exact hmin
    max_block := by rw [hlog]; exact hmax
    map_size := fun block log2 nfree m hg hm => by
      have hentry := ha.recorded hg rfl
      have hread := (readBusy_eq_ok_iff.1 l.describes.busy).1 block _ hentry
      rw [show c.busy = h.busy by rw [e], hm] at hread
      obtain ⟨m', heq, hwords, -⟩ := readMap_fragmented_eq_ok_iff.1 hread
      cases heq
      obtain ⟨count, hcount, hwords⟩ := Option.bind_eq_some_iff.1 hwords
      obtain rfl := fragmentsIn?_eq_some hcount
      have hfit : 1 <<< (c.header.blockLog2 - log2) + BusyMap.wordBits < Size.limit := by
        have hle : 1 <<< (c.header.blockLog2 - log2) ≤ 1 <<< Geometry.maxBlockLog2 :=
          one_shiftLeft_le (Nat.le_trans (Nat.sub_le _ _) hmax)
        exact Nat.lt_of_le_of_lt (Nat.add_le_add_right hle _) (by decide)
      rw [BusyMap.wordsNeeded?_eq hfit, Option.some.injEq] at hwords
      rw [fragmentsPerBlock, hlog]
      exact hwords.symm
    heads := by
      rw [show h.freeLists = c.freeLists by rw [e], hlog]
      exact (readHeads_eq_ok_iff.1 l.describes.freeLists).1
    size_eq := by
      rw [hcount, blockSize, hlog, show h.arenaStart = c.header.arenaStart by rw [e]]
      exact hbytes
    small := hsmall
    floor_le := by
      rw [hcount, show h.floor = min c.header.floor c.header.limit by rw [e]]
      exact Nat.min_le_right _ _
    count_le := by
      rw [hcount, show h.maxBlocks = c.header.maxBlocks by rw [e]]
      exact hlimit
    tables := by
      refine ⟨t, ?_, ?_⟩
      · rw [tables?, hlog, show h.maxBlocks = c.header.maxBlocks by rw [e],
          show h.names = c.names by rw [e], show h.aligned = c.aligned by rw [e], hnames, haligned]
        exact l.describes.offsets
      · rw [show h.arenaStart = c.header.arenaStart by rw [e]]
        exact hstop
    names := by
      rw [show h.names = c.names by rw [e]]
      exact names
    records := by
      rw [show h.aligned = c.aligned by rw [e]]
      exact aligned }

/-- The heap is well-formed if its block table is in order, and only then. -/
theorem wellFormed_iff : h.WellFormed ↔ ∃ layout, h.table.LaidOut layout :=
  ⟨fun w => w.laidOut, fun hl => wellFormed_of_defects? l.checkable hl l.defects⟩

/-- The busy maps in front of the arena take one bit for every 16 bytes of the largest arena. -/
theorem roomy (hsize : region.size < 1 <<< 56) : h.frame.Roomy := by
  have p := l.checkable
  obtain ⟨t, ht, hstop⟩ := p.tables
  obtain ⟨hmap, placed⟩ := TableOffsets.forBlocks?_eq_some ht
  have hmin := p.min_block
  have hmax := p.max_block
  simp only [Geometry.minBlockLog2, Geometry.maxBlockLog2] at hmin hmax
  have hbits : 1 <<< h.blockLog2 ≤ 128 * t.mapBytes := by
    rw [Metadata.mapBytes?, if_neg (by simp only [minFragmentLog2]; omega)] at hmap
    obtain ⟨words, hwords, heq⟩ := Option.map_eq_some_iff.1 hmap
    simp only [BusyMap.wordsNeeded?, Option.map_eq_some_iff, Size.add?_eq_some_iff] at hwords
    obtain ⟨_, ⟨-, rfl⟩, hwords⟩ := hwords
    have hpow : 1 <<< h.blockLog2 = 1 <<< (h.blockLog2 - minFragmentLog2) * 16 := by
      rw [Nat.one_shiftLeft, Nat.one_shiftLeft, show (16 : Nat) = 2 ^ minFragmentLog2 from rfl,
        ← Nat.pow_add]
      congr 1
      simp only [minFragmentLog2]
      omega
    generalize 1 <<< (h.blockLog2 - minFragmentLog2) = bits at hwords hpow
    simp only [BusyMap.wordBits] at hwords
    omega
  have hmul := Nat.mul_le_mul_left h.maxBlocks hbits
  rw [Nat.mul_left_comm] at hmul
  have hstart : h.arenaStart ≤ h.region.size := by
    rw [p.size_eq]
    exact Nat.le_add_right _ _
  have hle := l.size_le
  have hbusy := placed.stop
  show h.arenaStart + h.maxBlocks * 1 <<< h.blockLog2 < Size.limit
  simp only [Size.limit] at *
  omega

end Loaded

end RegionHeap.Heap
