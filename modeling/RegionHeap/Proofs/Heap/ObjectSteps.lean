import RegionHeap.Proofs.Heap.Placing

/-!
Steps on objects: allocating and freeing them, reading and writing their bytes, moving and resizing
them. Allocating adds an object where there was none and freeing removes one, and no other object
notices. A refusal changes nothing.
-/
namespace RegionHeap.Heap

open HeapM BlockTable

variable {h h' h'' : Heap} {E : HeapError → Heap → Prop} {roomy : Prop}

/-! ## Allocating and freeing -/

/-- One more object, with room for `size` bytes, has been made where there was none. -/
def Allocated (h h' : Heap) (handle size : Nat) : Prop :=
  h.objectAt handle = none ∧
    ∃ length, size ≤ length ∧ Turns h h' (replaced h.objectAt handle (some length))

/-- A new object that goes again leaves the objects that there were. -/
theorem Turns.undone {start : Nat} {length : Option Nat}
    (t : Turns h h' (replaced h.objectAt start length)) (hfresh : h.objectAt start = none)
    (t' : Turns h' h'' (replaced h'.objectAt start none)) : Turns h h'' h.objectAt := by
  have back : replaced h'.objectAt start none = h.objectAt := by
    rw [show h'.objectAt = replaced h.objectAt start length from funext t.objects_eq]
    exact replaced_back hfresh length
  rw [back] at t'
  refine t.trans t' fun s l l'' hs _ => ⟨l, ?_, .inl (Nat.le_refl l)⟩
  rw [replaced_of_ne _ _ (by rintro rfl; rw [hfresh] at hs; cases hs), hs]

theorem Lodged.allocated {handle size : Nat} (o : Lodged h h' handle (h.sizeClass size))
    (w : h.WellFormed) : Allocated h h' handle size :=
  ⟨o.fresh, _, le_classLength w size, o.turns⟩

theorem allocate_ends (w : h.WellFormed) (size : Nat) :
    Ends h.frame.Roomy (allocate size) h (fun handle h' => Allocated h h' handle size)
      (Exhausted h) :=
  (allocate_lodged w size).mono (fun _ _ o => o.allocated w) fun _ _ hE => hE.1

/-- An allocation that starts at an offset is freed; if none does, the offset is refused. -/
theorem freeAllocation_ends (w : h.WellFormed) (offset : Nat) :
    Ends roomy (freeAllocation offset) h
      (fun _ h' => h.objectAt offset ≠ none ∧ Turns h h' (replaced h.objectAt offset none))
      (fun e h' => Rejected h offset e h' ∧ h.objectAt offset = none) := by
  have not_run {e : Option Entry} (hg : h.table.get? (h.blockOf offset) = e)
      (hr : ∀ n, e ≠ some (.run n)) (hc : ∀ k n, e ≠ some (.fragmented k n)) :
      h.objectAt offset = none := by
    refine Option.eq_none_iff_forall_not_mem.2 fun l hl => ?_
    rcases objectAt_eq_some.1 hl with ⟨k, hk, -⟩ | ⟨n, hn, -⟩
    · obtain ⟨nfree, hg'⟩ := cutLog2?_eq_some.1 hk
      exact hc _ _ (hg.symm.trans hg')
    · exact hr _ (hg.symm.trans (runLength?_eq_some.1 hn))
  refine Ends.bind' (Ends.get' ?_)
  cases hg : h.table.get? (h.blockOf offset) with
  | none => simp only [hg]; exact Ends.refuse' ⟨⟨rfl, rfl⟩, not_run hg (by simp) (by simp)⟩
  | some e =>
    cases e <;> simp only [hg]
    case run length =>
      have hrun : h.runLength? (h.blockOf offset) = some length := runLength?_eq_some.2 hg
      refine Ends.ite' (fun hal => ?_) fun hal => Ends.refuse' ⟨⟨rfl, rfl⟩, ?_⟩
      · have hstart := eq_blockStart rfl hal
        refine (returnBlocks_ends w hg).mono (fun _ h' t => ⟨?_, ?_⟩) fun _ _ hE => hE
        · rw [objectAt_eq_some.2 (.inr ⟨length, hrun, hal, rfl⟩)]
          exact Option.some_ne_none _
        · rw [← hstart] at t
          exact t
      · refine Option.eq_none_iff_forall_not_mem.2 fun l hl => ?_
        rcases objectAt_eq_some.1 hl with ⟨k, hk, -⟩ | ⟨n, -, hal', -⟩
        · obtain ⟨nfree, hg'⟩ := cutLog2?_eq_some.1 hk
          rw [hg] at hg'
          cases hg'
        · exact hal hal'
    case fragmented log2 nfree => exact freeSmall_ends w hg
    case free size next prev => exact Ends.refuse' ⟨⟨rfl, rfl⟩, not_run hg (by simp) (by simp)⟩
    case freeTail head => exact Ends.refuse' ⟨⟨rfl, rfl⟩, not_run hg (by simp) (by simp)⟩
    case freeBody => exact Ends.refuse' ⟨⟨rfl, rfl⟩, not_run hg (by simp) (by simp)⟩
    case runBody back => exact Ends.refuse' ⟨⟨rfl, rfl⟩, not_run hg (by simp) (by simp)⟩

/-- Where the allocation behind a handle starts: what its alignment record says, or the handle. -/
def allocationOf (h : Heap) (handle : Handle) : Nat := (h.aligned.start? handle).getD handle

/-- The heap without the alignment record of a handle. -/
def forgetRecord (h : Heap) (handle : Handle) : Heap :=
  { h with aligned := h.aligned.erase handle }

theorem forgetRecord_of_none {handle : Handle} (hn : h.aligned.start? handle = none) :
    h.forgetRecord handle = h := by
  rw [forgetRecord, AlignmentRecords.erase_of_none hn]

/-- Names and alignment records are kept beside everything else. -/
theorem WellFormed.with_registry (w : h.WellFormed) {names : NameTable} {aligned : AlignmentRecords}
    (hn : names.capacity = h.names.capacity) (hr : aligned.capacity = h.aligned.capacity)
    (hnames : names.Sound) (hrecords : aligned.Sound) :
    ({ h with names, aligned } : Heap).WellFormed :=
  { w with
    cuts := fun b log2 nfree hg => (w.cuts b log2 nfree hg).of_busy _ rfl rfl
    lists := w.lists.congr rfl rfl (fun x k hx => (w.lists.place x k hx).2) fun _ _ _ _ _ _ => rfl
    tables := by
      have := w.tables
      unfold tables? at this ⊢
      rw [hn, hr]
      exact this
    names := hnames
    records := hrecords }

/-- A step does the same whatever records stand beside it. -/
theorem Turns.with_records {objects : Nat → Option Nat} (t : Turns h h' objects)
    {aligned : AlignmentRecords} (hcap : aligned.capacity = h.aligned.capacity)
    (hsound : aligned.Sound) : Turns { h with aligned } { h' with aligned } objects where
  wellFormed := t.wellFormed.with_registry rfl (by rw [t.aligned_eq, hcap]) t.wellFormed.names hsound
  frame_eq := by
    have := t.frame_eq
    simp only [frame, Frame.mk.injEq] at this ⊢
    exact ⟨this.1, this.2.1, this.2.2.1, this.2.2.2.1, trivial, this.2.2.2.2.2⟩
  names_eq := t.names_eq
  aligned_eq := rfl
  metadata := t.metadata
  objects_eq := t.objects_eq
  bytes_eq := t.bytes_eq

theorem Turns.forgotten {objects : Nat → Option Nat} (t : Turns h h' objects) (w : h.WellFormed)
    (handle : Handle) : Turns (h.forgetRecord handle) (h'.forgetRecord handle) objects := by
  rw [forgetRecord, forgetRecord, t.aligned_eq]
  exact t.with_records rfl (w.records.erase handle)

/-- Freeing a handle frees the allocation behind it and forgets its record. -/
theorem free_ends (w : h.WellFormed) (handle : Handle) :
    Ends roomy (free handle) h (fun _ h' => h.objectAt (h.allocationOf handle) ≠ none ∧
      Turns (h.forgetRecord handle) h' (replaced h.objectAt (h.allocationOf handle) none))
      (fun e h' => Rejected h (h.allocationOf handle) e h' ∧
        h.objectAt (h.allocationOf handle) = none) := by
  refine Ends.bind' (Ends.get' (Ends.bind' ((freeAllocation_ends w _).mono ?_ fun _ _ hE => hE)))
  rintro - h₁ ⟨hobj, t₁⟩
  have htail {h₂ : Heap} (t : Turns (h.forgetRecord handle) h₂
      (replaced h.objectAt (h.allocationOf handle) none)) :
      Ends roomy returnTail h₂ (fun _ h' => h.objectAt (h.allocationOf handle) ≠ none ∧
        Turns (h.forgetRecord handle) h' (replaced h.objectAt (h.allocationOf handle) none))
        (fun e h' => Rejected h (h.allocationOf handle) e h' ∧
          h.objectAt (h.allocationOf handle) = none) :=
    (returnTail_ends t.wellFormed).mono (fun _ _ t' => ⟨hobj, t.then_same t'⟩) fun _ _ hE => hE
  cases hs : h.aligned.start? handle with
  | none =>
    have hforget := forgetRecord_of_none hs
    refine htail ?_
    rw [hforget]
    exact t₁
  | some start => exact Ends.bind' (Ends.modify' (htail (t₁.forgotten w handle)))

/-! ## The bytes of an object -/

/-- Bytes of the object at `start` have been written, and nothing else has changed. -/
structure Writes (h h' : Heap) (start : Nat) : Prop where
  wellFormed : h'.WellFormed
  frame_eq : h'.frame = h.frame
  eq : h' = { h with region := h'.region }
  metadata : ∀ i, i < h.arenaStart → h'.region.byte i = h.region.byte i
  objects_eq : ∀ s, h'.objectAt s = h.objectAt s
  bytes_eq : ∀ s l, s ≠ start → h.objectAt s = some l →
    ∀ i, i < l → h'.arenaByte (s + i) = h.arenaByte (s + i)

theorem Writes.names_eq {start : Nat} (wr : Writes h h' start) : h'.names = h.names := by rw [wr.eq]

theorem Writes.aligned_eq {start : Nat} (wr : Writes h h' start) : h'.aligned = h.aligned := by
  rw [wr.eq]

/-- Writing into an object that was not there before is no matter for those that were. -/
theorem Turns.then_writes {objects : Nat → Option Nat} {start : Nat} (t : Turns h h' objects)
    (wr : Writes h' h'' start) (hfresh : h.objectAt start = none) : Turns h h'' objects where
  wellFormed := wr.wellFormed
  frame_eq := wr.frame_eq.trans t.frame_eq
  names_eq := wr.names_eq.trans t.names_eq
  aligned_eq := wr.aligned_eq.trans t.aligned_eq
  metadata i hi := by
    rw [wr.metadata i (by rw [arenaStart_of_frame t.frame_eq]; exact hi), t.metadata i hi]
  objects_eq s := (wr.objects_eq s).trans (t.objects_eq s)
  bytes_eq s l l' hs hs' i hi hi' := by
    have hne : s ≠ start := by
      rintro rfl
      rw [hfresh] at hs
      cases hs
    rw [wr.bytes_eq s l' hne ((t.objects_eq s).trans hs') i hi', t.bytes_eq s l l' hs hs' i hi hi']

/-- Writing inside one object. -/
theorem writeObject_ends (w : h.WellFormed) {start l offset : Nat} {data : ByteArray}
    (hs : h.objectAt start = some l) (hlo : start ≤ offset) (hhi : offset + data.size ≤ start + l) :
    Ends roomy (writeArena offset data) h (fun _ h' => Writes h h' start ∧ ∀ i, h'.arenaByte i =
      if offset ≤ i ∧ i < offset + data.size then Bytes.byte data (i - offset)
      else h.arenaByte i) E := by
  have hregion := w.object_in_region hs
  refine (writeArena_ends (by omega)).mono ?_ fun _ _ hE => hE
  rintro - h' ⟨rel, hlists, hbytes⟩
  refine ⟨?_, hbytes⟩
  have table : h'.table = h.table := by rw [rel.eq]
  have busy : h'.busy = h.busy := by rw [rel.eq]
  have r : Reworked h h' 0 := Reworked.of_relisted rel 0
  have objects (s : Nat) : h'.objectAt s = h.objectAt s :=
    objectAt_congr h h' r.blockLog2_eq (cutLog2?_congr h h' (by rw [table]))
      (runLength?_congr h h' (by rw [table])) (by rw [busy])
  have free (x : Nat) : h'.freeFragment x = h.freeFragment x :=
    freeFragment_congr h h' r.blockLog2_eq (cutLog2?_congr h h' (by rw [table])) (by rw [busy])
  -- no link of a free fragment was hit
  have lists : h'.Lists h.freeFragment := by
    refine w.lists.congr r.arenaStart_eq hlists
      (fun x k hx => rel.holdsLinks (w.lists.place x k hx).2) fun x k hx i hlo' hhi' => ?_
    rw [hbytes, if_neg fun hin => w.links_outside hs (i := i) (by omega) x k hx ⟨hlo', hhi'⟩]
  have hframe : h'.frame = h.frame := by
    have hn : h'.names = h.names := by rw [rel.eq]
    have ha : h'.aligned = h.aligned := by rw [rel.eq]
    have hm : h'.maxBlocks = h.maxBlocks := by rw [rel.eq]
    simp only [frame, r.blockLog2_eq, r.arenaStart_eq, hm, hn, ha, r.region.capacity_eq,
      r.region.refusals_eq]
  have eq : h' = { h with region := h'.region } := by
    have e := rel.eq
    rw [hlists] at e
    exact e
  refine ⟨?_, hframe, eq, rel.metadata, objects, fun s l' hne hs' i hi => ?_⟩
  · exact {
      min_block := by rw [r.blockLog2_eq]; exact w.min_block
      max_block := by rw [r.blockLog2_eq]; exact w.max_block
      laidOut := by rw [table]; exact w.laidOut
      cuts := fun b log2 nfree hg =>
        (w.cuts b log2 nfree (by rwa [table] at hg)).of_busy _ r.blockLog2_eq (by rw [busy])
      maps := fun b m hm => by
        obtain ⟨log2, hc⟩ := w.maps b m (by rwa [busy] at hm)
        exact ⟨log2, (cutLog2?_congr h h' (by rw [table])).trans hc⟩
      heads := by rw [hlists, r.blockLog2_eq]; exact w.heads
      lists := lists.of_eq free
      size_eq := by
        rw [rel.size_eq, r.arenaStart_eq, blockCount, table, r.blockSize_eq]
        exact w.size_eq
      small := by rw [rel.size_eq]; exact w.small
      floor_le := by rw [blockCount, table, rel.eq]; exact w.floor_le
      count_le := by rw [blockCount, table, rel.eq]; exact w.count_le
      tables := by rw [rel.eq]; exact w.tables
      names := by rw [rel.eq]; exact w.names
      records := by rw [rel.eq]; exact w.records }
  · rw [hbytes, if_neg fun hin => hne (w.object_unique hs' hs (i := s + i) (by omega) (by omega)).1]

/-- A refusal that names the offset, or the end of the bytes that were asked for there. -/
def OutOfReach (h : Heap) (offset count : Nat) : HeapError → Heap → Prop := fun e h' =>
  h' = h ∧ (e = .invalidPointer offset ∨ e = .invalidPointer (Size.addCapped offset count))

/-- All bytes from an offset on, as far as `usable`, lie in the object that starts at `start`. -/
structure Within (h : Heap) (offset usable start : Nat) : Prop where
  object : h.objectAt start = some (offset - start + usable)
  start_le : start ≤ offset
  pos : 0 < usable

/-- An object that is new does not start within one that was there before. -/
theorem Within.ne_of_fresh {handle usable start moved length : Nat} (hin : Within h handle usable start)
    (hfresh : h.objectAt moved = none)
    (t : Turns h h' (replaced h.objectAt moved (some length))) : moved ≠ handle := by
  intro he
  subst he
  have hlo := hin.start_le
  have hpos := hin.pos
  have hs : start ≠ moved := by
    intro he
    have := hin.object
    rw [he, hfresh] at this
    cases this
  have hnew : h'.objectAt moved = some length := by rw [t.objects_eq, replaced_self]
  have hold : h'.objectAt start = some (moved - start + usable) := by
    rw [t.objects_eq, replaced_of_ne _ _ hs, hin.object]
  have hlength := (t.wellFormed.object_bounds hnew).1
  exact hs (t.wellFormed.object_unique hold hnew (i := moved) (by omega) (by omega)).1

/-- Looking an offset up is no trap. -/
theorem WellFormed.extentOf_ends (w : h.WellFormed) {offset : Nat} {Q : Nat × Nat → Heap → Prop}
    {E : HeapError → Heap → Prop}
    (hQ : ∀ start length, h.extentOf offset = .ok (start, length) → Q (start, length) h)
    (hE : ∀ e, e = .invalidPointer offset → E e h) : Ends roomy (orFail (h.extentOf offset)) h Q E := by
  refine Ends.orFail' (fun p hp => hQ p.1 p.2 hp) (fun e he => hE e ?_) fun he => ?_
  · exact Failure.refused.inj (w.extentOf_eq_error he)
  · cases w.extentOf_eq_error he

theorem usableFrom_ends (w : h.WellFormed) (offset : Nat) :
    Ends roomy (usableFrom offset) h
      (fun usable h' => h' = h ∧ ∃ start, Within h offset usable start) (Rejected h offset) := by
  refine Ends.bind' (Ends.get' (Ends.bind' (w.extentOf_ends ?_ fun e he => ⟨rfl, he⟩)))
  intro start length hp
  obtain ⟨hobj, hle, hlt⟩ := w.extentOf_eq_ok_iff.1 hp
  have hend := w.object_in_region hobj
  have hsmall := w.small
  refine Ends.bind' (Ends.orTrap' (Size.add?_eq_some_iff.2 ⟨by omega, rfl⟩) ?_)
  refine Ends.orTrap' (Size.sub?_eq_some_iff.2 ⟨by omega, rfl⟩) ⟨rfl, start, ?_, hle, by omega⟩
  rw [hobj]
  congr 1
  omega

theorem checkExtent_ends (w : h.WellFormed) (offset count : Nat) :
    Ends roomy (checkExtent offset count) h
      (fun _ h' => h' = h ∧ ∃ start usable, Within h offset usable start ∧ count ≤ usable)
      (OutOfReach h offset count) := by
  refine Ends.bind' ((usableFrom_ends w offset).mono ?_ fun _ _ hE => ⟨hE.1, .inl hE.2⟩)
  rintro usable h' ⟨rfl, start, hin⟩
  exact Ends.ite' (fun _ => Ends.refuse' ⟨rfl, .inr rfl⟩) fun hle =>
    Ends.pure' ⟨rfl, start, usable, hin, Nat.le_of_not_lt hle⟩

theorem read_ends (w : h.WellFormed) (offset count : Nat) :
    Ends roomy (read offset count) h
      (fun data h' => h' = h ∧ data.size = count ∧
        (∃ start usable, Within h offset usable start ∧ count ≤ usable) ∧
        ∀ i, i < count → Bytes.byte data i = h.arenaByte (offset + i))
      (OutOfReach h offset count) := by
  refine Ends.bind' ((checkExtent_ends w offset count).mono ?_ fun _ _ hE => hE)
  rintro - h' ⟨rfl, start, usable, hin, hle⟩
  have := w.object_in_region hin.object
  have := hin.start_le
  obtain ⟨data, hd, hsize, hbytes⟩ := Region.read?_eq (r := h'.region)
    (h'.arenaStart + offset) count (by omega)
  refine Ends.bind' (Ends.get' (Ends.orTrap' hd ⟨rfl, hsize, ⟨start, usable, hin, hle⟩, ?_⟩))
  intro i hi
  rw [hbytes i hi, arenaByte, Nat.add_assoc]

/-- What writing bytes at an offset does: it is granted within one object and changes that. -/
theorem checkedWrite_ends (w : h.WellFormed) (offset : Nat) (data : ByteArray) :
    Ends roomy (checkExtent offset data.size >>= fun _ => writeArena offset data) h
      (fun _ h' => ∃ start usable, Within h offset usable start ∧ data.size ≤ usable ∧
        Writes h h' start ∧ ∀ i, h'.arenaByte i =
          if offset ≤ i ∧ i < offset + data.size then Bytes.byte data (i - offset)
          else h.arenaByte i) (OutOfReach h offset data.size) := by
  refine Ends.bind' ((checkExtent_ends w offset data.size).mono ?_ fun _ _ hE => hE)
  rintro - h' ⟨rfl, start, usable, hin, hle⟩
  have := hin.start_le
  exact (writeObject_ends w hin.object hin.start_le (by omega)).mono
    (fun _ _ ⟨hwr, hb⟩ => ⟨start, usable, hin, hle, hwr, hb⟩) fun _ _ hE => hE

theorem write_ends (w : h.WellFormed) (offset : Nat) (data : ByteArray) :
    Ends roomy (write offset data) h
      (fun _ h' => ∃ start usable, Within h offset usable start ∧ data.size ≤ usable ∧
        Writes h h' start ∧ ∀ i, h'.arenaByte i =
          if offset ≤ i ∧ i < offset + data.size then Bytes.byte data (i - offset)
          else h.arenaByte i) (OutOfReach h offset data.size) :=
  checkedWrite_ends w offset data

theorem fill_eq (offset count : Nat) (byte : UInt8) :
    fill offset count byte = write offset (Bytes.repeated count byte) := by
  rw [fill, write, Bytes.size_repeated]

/-- Zeroed memory is new memory, and it is zero. -/
theorem allocateZeroed_ends (w : h.WellFormed) (count size : Nat) :
    Ends h.frame.Roomy (allocateZeroed count size) h (fun handle h' =>
      Allocated h h' handle (count * size) ∧ ∀ i, i < count * size → h'.arenaByte (handle + i) = 0)
      (Exhausted h) := by
  refine Ends.bind' (Ends.orRefuse' (fun total htotal => ?_) fun _ => ⟨rfl, rfl⟩)
  obtain ⟨-, rfl⟩ := Size.mul?_eq_some_iff.1 htotal
  refine Ends.bind' ((allocate_ends w _).mono ?_ fun _ _ hE => hE)
  rintro handle h₁ ⟨hfresh, length, hle, t⟩
  have hobj : h₁.objectAt handle = some length := by rw [t.objects_eq, replaced_self]
  refine Ends.bind' ((writeObject_ends t.wellFormed hobj (Nat.le_refl _)
    (by rw [Bytes.size_zeros]; omega)).mono ?_ fun _ _ hE => hE)
  rintro - h₂ ⟨wr, hb⟩
  refine Ends.pure' ⟨⟨hfresh, length, hle, t.then_writes wr hfresh⟩, fun i hi => ?_⟩
  rw [hb, if_pos ⟨by omega, by rw [Bytes.size_zeros]; omega⟩, Bytes.byte_zeros]

end RegionHeap.Heap
