import RegionHeap.Image.Save
import RegionHeap.Proofs.Heap.ObjectSteps
import RegionHeap.Proofs.Image.Holding

/-!
Saving. The tables stand one behind another in front of the arena, so writing one does not disturb
another, and the region then holds all of them. The arena stays as it is.
-/
namespace RegionHeap

/-! ## Where the tables stand -/

/-- The offsets of tables for so many blocks, names and records. -/
structure TableOffsets.Placed (t : TableOffsets) (blocks names aligned : Nat) : Prop where
  entries : t.entries = Metadata.headerBytes
  lists : t.lists = t.entries + blocks * Metadata.entryBytes
  slots : t.slots = t.lists + Metadata.listHeads * 8
  records : t.records = t.slots + names * Metadata.slotBytes
  busy : t.busy = t.records + aligned * Metadata.recordBytes
  stop : t.stop = t.busy + blocks * t.mapBytes

theorem TableOffsets.place?_eq_some {mapBytes blocks names aligned : Nat} {t : TableOffsets}
    (h : place? mapBytes blocks names aligned = some t) :
    t.mapBytes = mapBytes ∧ t.Placed blocks names aligned := by
  simp only [place?, Option.bind_eq_bind, Option.bind_eq_some_iff, Size.add?_eq_some_iff,
    Size.mul?_eq_some_iff, Option.some.injEq] at h
  obtain ⟨_, ⟨-, rfl⟩, _, ⟨-, rfl⟩, _, ⟨-, rfl⟩, _, ⟨-, rfl⟩, _, ⟨-, rfl⟩, _, ⟨-, rfl⟩, _, ⟨-, rfl⟩, _,
    ⟨-, rfl⟩, _, ⟨-, rfl⟩, rfl⟩ := h
  exact ⟨rfl, rfl, rfl, rfl, rfl, rfl, rfl⟩

theorem TableOffsets.forBlocks?_eq_some {blockLog2 blocks names aligned : Nat} {t : TableOffsets}
    (h : forBlocks? blockLog2 blocks names aligned = some (some t)) :
    Metadata.mapBytes? blockLog2 = some t.mapBytes ∧ t.Placed blocks names aligned := by
  rw [forBlocks?, Option.map_eq_some_iff] at h
  obtain ⟨mapBytes, hm, hp⟩ := h
  obtain ⟨rfl, placed⟩ := place?_eq_some hp
  exact ⟨hm, placed⟩

/-- The busy map of a block has room for its smallest fragments. -/
theorem Metadata.mapBytes?_eq {blockLog2 : Nat} (hmin : Geometry.minBlockLog2 ≤ blockLog2)
    (hmax : blockLog2 ≤ Geometry.maxBlockLog2) : Metadata.mapBytes? blockLog2 =
      some (8 * BusyMap.wordsFor (1 <<< (blockLog2 - minFragmentLog2))) := by
  simp only [Geometry.minBlockLog2, Geometry.maxBlockLog2] at hmin hmax
  rw [Metadata.mapBytes?, if_neg (by simp only [minFragmentLog2]; omega),
    BusyMap.wordsNeeded?_one_shiftLeft (by omega)]
  rfl

namespace Heap

open HeapM

variable {h h' : Heap} {t : TableOffsets} {E : HeapError → Heap → Prop} {roomy : Prop}

/-- The region holds the tables of the heap, as saving writes them. -/
def SavedIn (h : Heap) (r : Region) : Prop :=
  ∃ t, h.tables? = some (some t) ∧ ∀ p ∈ h.savedTables t, r.Holds p.1 p.2

/-- What saving leaves behind. -/
structure Saved (h h' : Heap) : Prop where
  eq : h' = { h with region := h'.region }
  region : Region.Rewritten h.region h'.region
  arena : ∀ i, h.arenaStart ≤ i → h'.region.byte i = h.region.byte i
  image : h.SavedIn h'.region

/-- Tables that stand one behind another. -/
def Apart (tables : List (Nat × ByteArray)) : Prop :=
  tables.Pairwise fun p q => p.1 + p.2.size ≤ q.1

/-- How long the tables are. -/
theorem size_savedTables (h : Heap) (t : TableOffsets) :
    (h.savedTables t).map (fun p => p.2.size) =
      [Metadata.headerBytes, h.blockCount * Metadata.entryBytes, Metadata.listHeads * 8,
        h.names.slots.size * Metadata.slotBytes, h.aligned.size * Metadata.recordBytes,
        h.blockCount * t.mapBytes] := by
  simp only [savedTables, List.map_cons, List.map_nil, Image.size_header,
    Image.size_concat Image.appends_pushEntry, Image.size_concat Image.appends_pushLink,
    Image.size_concat Image.appends_pushSlot, Image.size_concat Image.appends_pushRecord,
    Image.size_concat (Image.appends_pushMap t.mapBytes), List.length_map, List.length_range]
  rfl

/-- A saved heap's tables stand one behind another and end in front of the arena. -/
theorem WellFormed.savedTables_apart (w : h.WellFormed) (ht : h.tables? = some (some t)) :
    Apart (h.savedTables t) ∧ ∀ p ∈ h.savedTables t, p.1 + p.2.size ≤ t.stop := by
  obtain ⟨-, placed⟩ := TableOffsets.forBlocks?_eq_some ht
  have he := placed.entries
  have hl := placed.lists
  have hs := placed.slots
  have hr := placed.records
  have hb := placed.busy
  have hstop := placed.stop
  have sizes := h.size_savedTables t
  simp only [savedTables, List.map_cons, List.map_nil, List.cons.injEq, and_true] at sizes
  obtain ⟨s₀, s₁, s₂, s₃, s₄, s₅⟩ := sizes
  have c₁ := Nat.mul_le_mul_right Metadata.entryBytes w.count_le
  have c₃ := Nat.mul_le_mul_right Metadata.slotBytes w.names.slots_le
  have c₄ := Nat.mul_le_mul_right Metadata.recordBytes w.records.size_le
  have c₅ := Nat.mul_le_mul_right t.mapBytes w.count_le
  unfold Apart
  simp only [savedTables, List.pairwise_cons, List.mem_cons, List.not_mem_nil, or_false,
    forall_eq_or_imp, forall_eq]
  refine ⟨⟨⟨?_, ?_, ?_, ?_, ?_⟩, ⟨?_, ?_, ?_, ?_⟩, ⟨?_, ?_, ?_⟩, ⟨?_, ?_⟩, ?_, ?_, List.Pairwise.nil⟩,
    ?_, ?_, ?_, ?_, ?_, ?_⟩
  all_goals first | (intro _ hf; cases hf) | (simp only [s₀, s₁, s₂, s₃, s₄, s₅]; omega)

theorem writeMeta_ends {start : Nat} {data : ByteArray} (hfit : start + data.size ≤ h.arenaStart)
    (hregion : h.arenaStart ≤ h.region.size) :
    Ends roomy (writeMeta start data) h (fun _ h' => h' = { h with region := h'.region } ∧
      Region.Rewritten h.region h'.region ∧ ∀ i, h'.region.byte i =
        if start ≤ i ∧ i < start + data.size then Bytes.byte data (i - start)
        else h.region.byte i) E := by
  obtain ⟨r, hr, hw, hb⟩ := Region.write?_eq (show start + data.size ≤ h.region.size by omega)
  exact Ends.bind' (Ends.get' (Ends.ite' (fun _ => Ends.modifyRegion' hr ⟨rfl, hw, hb⟩)
    fun hbad => absurd hfit hbad))

/-- Tables that stand apart are written without disturbing each other. -/
theorem writeTables_ends {tables : List (Nat × ByteArray)} (ha : Apart tables)
    (hfit : ∀ p ∈ tables, p.1 + p.2.size ≤ h.arenaStart)
    (hregion : h.arenaStart ≤ h.region.size) :
    Ends roomy (tables.forM fun p => writeMeta p.1 p.2) h
      (fun _ h' => h' = { h with region := h'.region } ∧ Region.Rewritten h.region h'.region ∧
        (∀ p ∈ tables, h'.region.Holds p.1 p.2) ∧
        ∀ i, (∀ p ∈ tables, ¬(p.1 ≤ i ∧ i < p.1 + p.2.size)) →
          h'.region.byte i = h.region.byte i) E := by
  induction tables generalizing h with
  | nil => exact Ends.pure' ⟨rfl, Region.Rewritten.refl _, by simp, fun _ _ => rfl⟩
  | cons p rest ih =>
    obtain ⟨start, data⟩ := p
    obtain ⟨hbehind, hrest⟩ := List.pairwise_cons.1 ha
    have hfirst : start + data.size ≤ h.arenaStart := hfit _ List.mem_cons_self
    refine Ends.bind' ((writeMeta_ends hfirst hregion).mono ?_ fun _ _ hE => hE)
    rintro - h₁ ⟨heq, hw, hb⟩
    have hstart : h₁.arenaStart = h.arenaStart := by rw [heq]
    refine (ih hrest (fun p hp => by rw [hstart]; exact hfit p (List.mem_cons_of_mem _ hp))
      (by rw [hstart, hw.size_eq]; exact hregion)).mono ?_ fun _ _ hE => hE
    rintro - h₂ ⟨heq', hw', hheld, hb'⟩
    refine ⟨by rw [heq', heq], hw.trans hw', fun p hp => ?_, fun i hi => ?_⟩
    · rcases List.mem_cons.1 hp with rfl | hp
      · have hsize := (hw.trans hw').size_eq
        refine ⟨by show start + data.size ≤ _; rw [hsize]; omega, fun i hi => ?_⟩
        have hi : i < data.size := hi
        show h₂.region.byte (start + i) = _
        rw [hb', hb, if_pos (by omega), Nat.add_sub_cancel_left]
        rintro q hq ⟨hlo, -⟩
        have := hbehind q hq
        omega
      · exact hheld p hp
    · rw [hb' i fun p hp => hi p (List.mem_cons_of_mem _ hp), hb,
        if_neg (hi _ List.mem_cons_self)]

theorem WellFormed.arenaStart_le (w : h.WellFormed) : h.arenaStart ≤ h.region.size := by
  rw [w.size_eq]
  exact Nat.le_add_right _ _

theorem WellFormed.mapBytes_eq (w : h.WellFormed) (ht : h.tables? = some (some t)) :
    t.mapBytes = 8 * BusyMap.wordsFor (1 <<< (h.blockLog2 - minFragmentLog2)) := by
  obtain ⟨hm, -⟩ := TableOffsets.forBlocks?_eq_some ht
  rw [Metadata.mapBytes?_eq w.min_block w.max_block, Option.some.injEq] at hm
  exact hm.symm

/-- A busy map has room in the bytes that are set aside for that of one block. -/
theorem WellFormed.words_fit (w : h.WellFormed) (ht : h.tables? = some (some t)) {block : Nat}
    {m : BusyMap} (hm : h.busy.find? block = some m) : m.size * 8 ≤ t.mapBytes := by
  obtain ⟨log2, hc⟩ := w.maps block m hm
  obtain ⟨nfree, -, hok⟩ := w.cutOk hc
  obtain ⟨m', hm', hsize, -⟩ := hok.map
  rw [hm, Option.some.injEq] at hm'
  rw [w.mapBytes_eq ht, hm', hsize, fragmentsPerBlock, Nat.mul_comm]
  exact Nat.mul_le_mul_left 8 (BusyMap.wordsFor_mono
    (one_shiftLeft_le (Nat.sub_le_sub_left hok.min_le _)))

/-- No name and no busy map is longer than its place, so that saving is no trap. -/
theorem WellFormed.fitsTables_eq (w : h.WellFormed) (ht : h.tables? = some (some t)) :
    h.fitsTables t = true := by
  rw [fitsTables, Bool.and_eq_true, Array.all_eq_true, List.all_eq_true]
  refine ⟨fun i hi => ?_, fun block _ => ?_⟩
  · rw [Image.slotFits, Option.all_eq_true]
    intro object ho
    have hslot : h.names.slots[i]? = some (some object) := by rw [Array.getElem?_eq_getElem hi, ho]
    exact decide_eq_true (NameTable.acceptName_eq_ok_iff.1 (w.names.accepted i object hslot).1).2
  · rw [Image.mapFits, Option.all_eq_true]
    intro m hm
    have := w.words_fit ht hm
    exact decide_eq_true (by omega)

/-- The tables have been written into the region, each in its place, and nothing else has changed. -/
structure WritesTables (h h' : Heap) (t : TableOffsets) : Prop where
  eq : h' = { h with region := h'.region }
  region : Region.Rewritten h.region h'.region
  written : ∀ p ∈ h.savedTables t, h'.region.Holds p.1 p.2
  others : ∀ i, (∀ p ∈ h.savedTables t, ¬(p.1 ≤ i ∧ i < p.1 + p.2.size)) →
    h'.region.byte i = h.region.byte i

theorem save_writes (w : h.WellFormed) (ht : h.tables? = some (some t))
    (hstop : t.stop ≤ h.arenaStart) : Ends roomy save h (fun _ h' => WritesTables h h' t) E := by
  obtain ⟨hapart, hfit⟩ := w.savedTables_apart ht
  refine Ends.bind' (Ends.get' ?_)
  rw [ht]
  refine Ends.ite' (fun _ => ?_) fun hlong => absurd (w.fitsTables_eq ht) hlong
  refine (writeTables_ends hapart (fun p hp => Nat.le_trans (hfit p hp) hstop) w.arenaStart_le).mono ?_
    fun _ _ hE => hE
  rintro - h' ⟨heq, hw, hheld, hb⟩
  exact ⟨heq, hw, hheld, hb⟩

/-- Tables that end in front of the arena leave it as it was. -/
theorem WritesTables.saved (writes : WritesTables h h' t) (w : h.WellFormed)
    (ht : h.tables? = some (some t)) (hstop : t.stop ≤ h.arenaStart) : Saved h h' := by
  refine ⟨writes.eq, writes.region, fun i hi => writes.others i fun p hp hin => ?_, t, ht,
    writes.written⟩
  have hend := (w.savedTables_apart ht).2 p hp
  omega

/-- A flush that the region refuses comes after everything was written. -/
theorem sync_writes (w : h.WellFormed) (ht : h.tables? = some (some t))
    (hstop : t.stop ≤ h.arenaStart) :
    Ends roomy sync h (fun _ h' => WritesTables h h' t) fun e h' => WritesTables h h' t ∧
      ∃ err, h'.region.flush = .error err ∧ e = .region err := by
  refine Ends.bind' ((save_writes w ht hstop).mono ?_ fun _ _ hE => hE)
  rintro - h' writes
  refine Ends.bind' (Ends.get' ?_)
  cases hf : h'.region.flush with
  | ok _ => exact Ends.pure' writes
  | error err => exact Ends.refuse' ⟨writes, err, hf, rfl⟩

theorem sync_ends (w : h.WellFormed) :
    Ends roomy sync h (fun _ h' => Saved h h') fun e h' => Saved h h' ∧
      ∃ err, h'.region.flush = .error err ∧ e = .region err := by
  obtain ⟨t, ht, hstop⟩ := w.tables
  exact (sync_writes w ht hstop).mono (fun _ _ writes => writes.saved w ht hstop)
    fun _ _ ⟨writes, refused⟩ => ⟨writes.saved w ht hstop, refused⟩

/-- The metadata is no part of what makes a heap well-formed. -/
theorem WellFormed.with_metadata (w : h.WellFormed) {region : Region}
    (hw : Region.Rewritten h.region region)
    (ha : ∀ i, h.arenaStart ≤ i → region.byte i = h.region.byte i) :
    ({ h with region } : Heap).WellFormed :=
  { w with
    cuts := fun b log2 nfree hg => (w.cuts b log2 nfree hg).of_busy _ rfl rfl
    lists := by
      refine w.lists.congr rfl rfl (fun x k hx => ?_) fun x k hx i _ _ =>
        ha (h.arenaStart + i) (Nat.le_add_right _ _)
      have := (w.lists.place x k hx).2
      unfold HoldsLinks at *
      exact ⟨this.1, by rw [show ({ h with region } : Heap).region.size = h.region.size from hw.size_eq]; exact this.2⟩
    size_eq := hw.size_eq.trans w.size_eq
    small := by
      show region.size < Size.limit
      rw [hw.size_eq]
      exact w.small }

theorem Saved.wellFormed (s : Saved h h') (w : h.WellFormed) : h'.WellFormed := by
  rw [s.eq]
  exact w.with_metadata s.region s.arena

theorem Saved.frame_eq (s : Saved h h') : h'.frame = h.frame := by
  rw [s.eq]
  simp only [frame, s.region.capacity_eq, s.region.refusals_eq]

end Heap

end RegionHeap
