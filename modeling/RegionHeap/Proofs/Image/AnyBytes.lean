import RegionHeap.Proofs.Heap.Loading

/-!
Reading an image of any origin. What a region holds is either read or refused with what is wrong
with it (`read_untrapped`): the header is checked before a table is located by it, and from then on
every number that is read lies in front of the arena, in the region and in the range of sizes
(`Located.housed`). A read behind the end of the region would be a trap.
-/
namespace RegionHeap.Image

variable {α β : Type} {r : Region} {h : Header} {t : TableOffsets}

/-! ## Traps -/

/-- The only way to fail is to report what is wrong with the image. -/
def Untrapped (x : Except Failure α) : Prop :=
  ∀ e, x = .error e → ∃ reason, e = .refused (.corrupt reason)

theorem untrapped_pure (a : α) : Untrapped (pure a) := nofun

theorem Untrapped.bind {x : Except Failure α} {f : α → Except Failure β} (hx : Untrapped x)
    (hf : ∀ a, x = .ok a → Untrapped (f a)) : Untrapped (x >>= f) := by
  cases x with
  | error e => exact fun e' he => hx e' (by cases he; rfl)
  | ok a => exact hf a rfl

theorem untrapped_ensure (holds : Bool) (reason : Corruption) : Untrapped (ensure holds reason) := by
  intro e he
  cases holds <;> cases he
  exact ⟨reason, rfl⟩

theorem untrapped_orCorrupt (reason : Corruption) (o : Option α) :
    Untrapped (orCorrupt reason o) := by
  intro e he
  cases o <;> cases he
  exact ⟨reason, rfl⟩

theorem untrapped_orTrap {o : Option α} {a : α} (ho : o = some a) : Untrapped (orTrap o) := by
  rw [ho]
  exact untrapped_pure a

theorem untrapped_number {width start : Nat} (hfit : start + width ≤ r.size) :
    Untrapped (number r width start) :=
  untrapped_orTrap (if_pos hfit)

/-- Reading item by item. -/
theorem Untrapped.mapM {f : α → Except Failure β} {l : List α}
    (hf : ∀ a ∈ l, Untrapped (f a)) : Untrapped (l.mapM f) := by
  induction l with
  | nil => exact untrapped_pure []
  | cons a l ih =>
    rw [List.mapM_cons]
    refine (hf a List.mem_cons_self).bind fun _ _ => ?_
    exact (ih fun b hb => hf b (List.mem_cons_of_mem _ hb)).bind fun _ _ => untrapped_pure _

theorem Untrapped.mapM_range {f : Nat → Except Failure β} {n : Nat}
    (hf : ∀ i < n, Untrapped (f i)) : Untrapped ((List.range n).mapM f) :=
  .mapM fun i hi => hf i (List.mem_range.1 hi)

/-! ## Where the tables are -/

theorem readHeader_untrapped (r : Region) : Untrapped (readHeader r) := by
  refine (untrapped_ensure _ _).bind fun _ hsize => ?_
  rw [ensure_eq_ok, Bool.and_eq_true, decide_eq_true_eq] at hsize
  have hsize : 128 ≤ r.size := hsize.1
  have field {width start : Nat} (hfit : start + width ≤ 128) : Untrapped (number r width start) :=
    untrapped_number (Nat.le_trans hfit hsize)
  refine (field (by decide)).bind fun _ _ => (untrapped_ensure _ _).bind fun _ _ => ?_
  refine (field (by decide)).bind fun _ _ => (untrapped_ensure _ _).bind fun _ _ => ?_
  refine (field (by decide)).bind fun _ _ => (field (by decide)).bind fun _ _ => ?_
  refine (field (by decide)).bind fun _ _ => (field (by decide)).bind fun _ _ => ?_
  refine (field (by decide)).bind fun _ _ => (field (by decide)).bind fun _ _ => ?_
  exact (field (by decide)).bind fun _ _ => (field (by decide)).bind fun _ _ => untrapped_pure _

/-- The header that the region starts with passes all checks, and has its tables there. -/
structure Located (r : Region) (h : Header) (t : TableOffsets) : Prop where
  header : readHeader r = .ok h
  offsets : TableOffsets.forBlocks? h.blockLog2 h.maxBlocks h.slotCapacity h.recordCapacity =
    some (some t)
  consistent : h.isConsistent t = true
  fits : ∃ bytes, h.regionBytes? = some bytes ∧ bytes ≤ r.size

/-- Every item of a table ends in front of the arena, and that lies in the region and in the range of
sizes. -/
structure Housed (r : Region) (h : Header) (t : TableOffsets) : Prop where
  entry_le : ∀ block < h.limit, t.entries + block * Metadata.entryBytes + Metadata.entryBytes ≤ t.stop
  head_le : ∀ log2 < h.blockLog2, t.lists + 8 * log2 + 8 ≤ t.stop
  slot_le : ∀ i < h.slotCount, t.slots + i * Metadata.slotBytes + Metadata.slotBytes ≤ t.stop
  record_le : ∀ i < h.recordCount, t.records + i * Metadata.recordBytes + Metadata.recordBytes ≤ t.stop
  word_le : ∀ log2 nfree block, entryInRange h block (.fragmented log2 nfree) = true →
    block < h.limit →
    ∃ count, (fragmentsIn? h.blockLog2 log2).bind BusyMap.wordsNeeded? = some count ∧
      ∀ i < count, t.busy + block * t.mapBytes + 8 * i + 8 ≤ t.stop
  stop_le : t.stop ≤ h.arenaStart
  arenaStart_le : h.arenaStart ≤ r.size
  arenaStart_lt : h.arenaStart < Size.limit

/-- The item of a table of so many items. -/
theorem item_le {start width count capacity stop i : Nat} (hi : i < count) (hle : count ≤ capacity)
    (hstop : start + capacity * width ≤ stop) : start + i * width + width ≤ stop := by
  have := Nat.mul_le_mul_right width (Nat.lt_of_lt_of_le hi hle)
  rw [Nat.succ_mul] at this
  omega

/-- Headers name only tables that lie in the region. -/
theorem Located.housed (l : Located r h t) : Housed r h t := by
  obtain ⟨-, -, -, ⟨hmin, hmax⟩, -⟩ := readHeader_eq_ok_iff.1 l.header
  obtain ⟨hstop, hlimit, hslots, hrecords⟩ := Heap.isConsistent_iff.1 l.consistent
  obtain ⟨bytes, hbytes, hfit⟩ := l.fits
  obtain ⟨heq, hsmall⟩ := Heap.regionBytes?_eq_some_iff.1 hbytes
  obtain ⟨hmap, placed⟩ := TableOffsets.forBlocks?_eq_some l.offsets
  rw [Metadata.mapBytes?_eq hmin hmax, Option.some.injEq] at hmap
  have hl := placed.lists
  have hs := placed.slots
  have hr := placed.records
  have hb := placed.busy
  have he := placed.stop
  refine ⟨fun block hlt => item_le hlt hlimit (by omega), fun log2 hlt => ?_,
    fun i hlt => item_le hlt hslots (by omega), fun i hlt => item_le hlt hrecords (by omega),
    fun log2 nfree block hrange hlt => ?_, hstop, by omega, by omega⟩
  · simp only [Metadata.listHeads, Geometry.maxBlockLog2] at hs hmax
    omega
  · simp only [entryInRange, Bool.and_eq_true, decide_eq_true_eq] at hrange
    have hwords : BusyMap.wordsFor (1 <<< (h.blockLog2 - log2)) ≤
        BusyMap.wordsFor (1 <<< (h.blockLog2 - minFragmentLog2)) :=
      BusyMap.wordsFor_mono (Heap.one_shiftLeft_le (Nat.sub_le_sub_left hrange.1.1 _))
    simp only [Geometry.maxBlockLog2] at hmax
    refine ⟨BusyMap.wordsFor (1 <<< (h.blockLog2 - log2)), ?_, fun i hi => ?_⟩
    · rw [fragmentsIn?_eq (by omega) (by omega)]
      exact BusyMap.wordsNeeded?_one_shiftLeft (by omega)
    · have := item_le hlt hlimit (Nat.le_of_eq he.symm)
      omega

/-! ## The tables -/

theorem readEntry_untrapped {start : Nat} (hfit : start + Metadata.entryBytes ≤ r.size) :
    Untrapped (readEntry r start) := by
  have field {offset : Nat} (hle : offset + 4 ≤ Metadata.entryBytes) :
      Untrapped (number r 4 (start + offset)) := untrapped_number (by omega)
  refine (field (show 0 + 4 ≤ Metadata.entryBytes by decide)).bind fun _ _ => (field (by decide)).bind fun _ _ => ?_
  refine (field (by decide)).bind fun _ _ => (field (by decide)).bind fun _ _ => ?_
  exact untrapped_orCorrupt _ _

theorem readSlot_untrapped {start : Nat} (hfit : start + Metadata.slotBytes ≤ r.size) :
    Untrapped (readSlot r start) := by
  have hfit : start + (2 + NameTable.longestName + 8) ≤ r.size := hfit
  refine (untrapped_number (by omega)).bind fun length _ => ?_
  split
  · exact untrapped_pure none
  refine (untrapped_ensure _ _).bind fun _ hlength => ?_
  rw [ensure_eq_ok, decide_eq_true_eq] at hlength
  refine (untrapped_orTrap (if_pos (by omega))).bind fun _ _ => ?_
  refine (untrapped_orCorrupt _ _).bind fun _ _ => ?_
  exact (untrapped_number (by omega)).bind fun _ _ => untrapped_pure _

namespace Housed

variable (d : Housed r h t)
include d

theorem stop_le_size : t.stop ≤ r.size := Nat.le_trans d.stop_le d.arenaStart_le

theorem readEntries_untrapped : Untrapped (readEntries r h t) := by
  refine (Untrapped.mapM_range fun block hlt => ?_).bind fun _ _ =>
    (untrapped_ensure _ _).bind fun _ _ => untrapped_pure _
  exact readEntry_untrapped (Nat.le_trans (d.entry_le block hlt) d.stop_le_size)

theorem readMap_untrapped {block : Nat} {e : Entry} (hlt : block < h.limit)
    (hrange : entryInRange h block e = true) : Untrapped (readMap r h t block e) := by
  cases e with
  | fragmented log2 nfree =>
    obtain ⟨count, hcount, hword⟩ := d.word_le log2 nfree block hrange hlt
    refine (untrapped_orTrap hcount).bind fun n hn => ?_
    rw [orTrap_eq_ok, hcount, Option.some.injEq] at hn
    subst hn
    refine (Untrapped.mapM_range fun i hi => ?_).bind fun _ _ => untrapped_pure _
    exact untrapped_number (Nat.le_trans (hword i hi) d.stop_le_size)
  | _ => exact untrapped_pure none

theorem readBusy_untrapped {entries : Array Entry} (he : readEntries r h t = .ok entries) :
    Untrapped (readBusy r h t entries) := by
  obtain ⟨hsize, hall⟩ := readEntries_eq_ok_iff.1 he
  refine (Untrapped.mapM fun p hp => ?_).bind fun _ _ => untrapped_pure _
  obtain ⟨e, block⟩ := p
  have hget : entries[block]? = some e := by
    rw [← Array.getElem?_toList]
    exact List.mem_zipIdx_iff_getElem?.1 hp
  obtain ⟨hlt, -⟩ := Array.getElem?_eq_some_iff.1 hget
  exact d.readMap_untrapped (by omega) (hall block e hget).2

theorem readHeads_untrapped : Untrapped (readHeads r h t) :=
  (Untrapped.mapM_range fun log2 hlt =>
    untrapped_number (Nat.le_trans (d.head_le log2 hlt) d.stop_le_size)).bind
      fun _ _ => untrapped_pure _

theorem readNames_untrapped : Untrapped (readNames r h t) :=
  (Untrapped.mapM_range fun i hlt =>
    readSlot_untrapped (Nat.le_trans (d.slot_le i hlt) d.stop_le_size)).bind
      fun _ _ => untrapped_orCorrupt _ _

theorem readRecords_untrapped : Untrapped (readRecords r h t) := by
  refine (Untrapped.mapM_range fun i hlt => ?_).bind fun _ _ => untrapped_pure _
  have hfit : t.records + i * Metadata.recordBytes + (8 + 8) ≤ r.size :=
    Nat.le_trans (d.record_le i hlt) d.stop_le_size
  refine (untrapped_number (by omega)).bind fun _ _ => ?_
  exact (untrapped_number (by omega)).bind fun _ _ => untrapped_pure _

end Housed

/-- Whatever bytes a region has, reading them as an image ends with an answer or a report. -/
theorem read_untrapped (r : Region) : Untrapped (read r) := by
  refine (readHeader_untrapped r).bind fun header hheader => ?_
  obtain ⟨-, -, -, ⟨hmin, hmax⟩, -⟩ := readHeader_eq_ok_iff.1 hheader
  refine (untrapped_orTrap (show TableOffsets.forBlocks? _ _ _ _ = some _ by
    rw [TableOffsets.forBlocks?, Metadata.mapBytes?_eq hmin hmax]
    rfl)).bind fun tables htables => ?_
  refine (untrapped_orCorrupt _ _).bind fun t ht => (untrapped_ensure _ _).bind fun _ hconsistent => ?_
  refine (untrapped_orCorrupt _ _).bind fun bytes hbytes => (untrapped_ensure _ _).bind fun _ hfit => ?_
  rw [orTrap_eq_ok] at htables
  rw [orCorrupt_eq_ok] at ht hbytes
  rw [ensure_eq_ok] at hconsistent
  rw [ensure_eq_ok, decide_eq_true_eq] at hfit
  subst ht
  -- all that is left to read are the tables, and they lie in the region
  have d := (Located.mk hheader htables hconsistent ⟨bytes, hbytes, hfit⟩).housed
  refine d.readEntries_untrapped.bind fun entries hentries => ?_
  refine (d.readBusy_untrapped hentries).bind fun _ _ => d.readHeads_untrapped.bind fun _ _ => ?_
  exact d.readNames_untrapped.bind fun _ _ => d.readRecords_untrapped.bind fun _ _ => untrapped_pure _

end RegionHeap.Image
