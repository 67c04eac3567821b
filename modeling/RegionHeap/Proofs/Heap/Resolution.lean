import RegionHeap.Proofs.Heap.Images

/-!
What offsets resolve to. An offset in an object leads to its start, with the bytes from there to the
end and no more of them to be read. Every other offset of a well-formed heap lies in a free run, in a
free fragment or past the arena (`unallocated_iff`), and is refused whatever is asked of it.
-/
namespace RegionHeap.Heap

open HeapM BlockTable

variable {h : Heap} {offset start length count : Nat}

/-! ## Offsets in no object -/

/-- Where an offset lies that belongs to no object. -/
inductive Unallocated (h : Heap) (offset : Nat) : Prop where
  | freeRun {block size : Nat} (free : h.table.freeSize? block = some size)
    (start_le : h.blockStart block ≤ offset) (lt_stop : offset < h.blockStart (block + size))
  | freeFragment {start log2 : Nat} (free : h.freeFragment start = some log2)
    (start_le : start ≤ offset) (lt_stop : offset < start + fragmentSize log2)
  | pastArena (stop_le : h.blockCount * h.blockSize ≤ offset)

theorem Unallocated.extentOf_eq (u : h.Unallocated offset) (w : h.WellFormed) :
    h.extentOf offset = .error (.refused (.invalidPointer offset)) := by
  cases u with
  | freeRun free start_le lt_stop =>
    obtain ⟨next, prev, hg⟩ := exists_free_of_bare? (freeSize?_eq_some.1 free)
    exact w.extentOf_free hg start_le lt_stop
  | freeFragment free start_le lt_stop =>
    refine w.extentOf_eq_invalid fun s l hs hin => ?_
    exact w.not_in_object free hs hin ⟨start_le, lt_stop⟩
  | pastArena stop_le =>
    refine w.extentOf_eq_invalid fun s l hs hin => ?_
    have := (w.object_bounds hs).2.1
    omega

/-- Every offset lies in the fragment of a size that starts at or before it. -/
theorem exists_fragment (log2 offset : Nat) : ∃ start i, offset = start + i ∧
    start % fragmentSize log2 = 0 ∧ i < fragmentSize log2 := by
  refine ⟨fragmentSize log2 * (offset / fragmentSize log2), offset % fragmentSize log2,
    (Nat.div_add_mod _ _).symm, Nat.mul_mod_right _ _, Nat.mod_lt _ (fragmentSize_pos log2)⟩

theorem WellFormed.unallocated_of_extentOf (w : h.WellFormed)
    (he : h.extentOf offset = .error (.refused (.invalidPointer offset))) : h.Unallocated offset := by
  obtain ⟨runs, hl⟩ := w.laidOut
  have hdecomp := blockStart_blockOf (h := h) offset
  have hmod := Nat.mod_lt offset h.blockSize_pos
  cases hg : h.table.get? (h.blockOf offset) with
  | none =>
    refine .pastArena (Nat.le_of_not_lt fun hlt => ?_)
    obtain ⟨e, he⟩ := exists_get? (blockOf_lt_iff.2 hlt)
    rw [hg] at he
    cases he
  | some e =>
    by_cases hfree : e.isFree = true
    · -- a free block lies in a free run
      have unused : h.table.inUse? (h.blockOf offset) = none := by
        rw [inUse?, hg, Option.filter_some, hfree]
        rfl
      obtain ⟨head, size, hsize, hle, hfit⟩ := hl.exists_freeRun Nat.one_pos (lt_size_of_get? hg)
        fun b hlo hhi => by rwa [show b = h.blockOf offset by omega]
      have hhead := Nat.mul_le_mul_right h.blockSize hle
      exact .freeRun hsize (by simp only [blockStart] at *; omega) (blockOf_lt_iff.1 hfit)
    · -- a block in use holds an object, save where a fragment of it is free
      cases e with
      | run n =>
        simp only [extentOf, hg] at he
        cases he
      | runBody back =>
        obtain ⟨hle, n, hhead, -⟩ := hl.toTiled.head_of_body hg
        simp only [extentOf, hg] at he
        rw [if_neg (by omega), runExtent?, hhead] at he
        cases he
      | fragmented log2 nfree =>
        have hc : h.cutLog2? (h.blockOf offset) = some log2 := cutLog2?_eq_some.2 ⟨nfree, hg⟩
        have hlt := (w.cut_bounds hc).2.1
        obtain ⟨start, i, rfl, hal, hi⟩ := exists_fragment log2 offset
        have hblock := blockOf_fragment (h := h) (Nat.le_of_lt hlt) hal hi
        rw [extentOf_of_cut hg (w.cut_lt hc), hblock, roundDown_fragment hal hi] at he
        split at he
        · cases he
        rename_i hlive
        rw [hblock] at hc
        exact .freeFragment (freeFragment_eq_some.2 ⟨hc, hal, by simpa using hlive⟩)
          (Nat.le_add_right _ _) (Nat.add_lt_add_left hi _)
      | _ => exact absurd rfl hfree

/-- An offset lies in no object just if it lies in a free run, in a free fragment or past the arena. -/
theorem WellFormed.unallocated_iff (w : h.WellFormed) : h.Unallocated offset ↔
    ∀ start length, h.objectAt start = some length → ¬(start ≤ offset ∧ offset < start + length) := by
  constructor
  · intro u start length hs hin
    have he := u.extentOf_eq w
    rw [w.extentOf_eq_ok_iff.2 ⟨hs, hin⟩] at he
    cases he
  · intro hnone
    exact w.unallocated_of_extentOf (w.extentOf_eq_invalid hnone)

/-! ## Resolving -/

/-- An offset leads to the start of an object, with the bytes from there to its end, `stop`. As many
can be read and are those of the arena; to read more is refused. -/
structure ResolvesTo (h : Heap) (offset start stop : Nat) : Prop where
  resolve_eq : resolve offset h = .ok start h
  usable_eq : usableFrom offset h = .ok (stop - offset) h
  read_ok : ∀ count, count ≤ stop - offset → ∃ data, read offset count h = .ok data h ∧
    data.size = count ∧ ∀ i < count, Bytes.byte data i = h.arenaByte (offset + i)
  read_refused : ∀ count, stop - offset < count →
    read offset count h = .error (.refused (.invalidPointer (Size.addCapped offset count))) h

/-- An offset is no pointer, whatever is asked of it. -/
structure Invalid (h : Heap) (offset : Nat) : Prop where
  resolve_eq : resolve offset h = .error (.refused (.invalidPointer offset)) h
  usable_eq : usableFrom offset h = .error (.refused (.invalidPointer offset)) h
  read_eq : ∀ count, read offset count h = .error (.refused (.invalidPointer offset)) h

/-- Where an offset leads nowhere, it is named as an invalid one. -/
theorem invalid_of_extentOf (he : h.extentOf offset = .error (.refused (.invalidPointer offset))) :
    h.Invalid offset := by
  have run := congrArg (fun found => orFail found h) he
  have usable : usableFrom offset h = .error (.refused (.invalidPointer offset)) h := by
    rw [usableFrom, bind_get, bind_of_error run]
  have extent (count : Nat) :
      checkExtent offset count h = .error (.refused (.invalidPointer offset)) h := by
    rw [checkExtent, bind_of_error usable]
  refine ⟨?_, usable, fun count => ?_⟩
  · rw [resolve, bind_get, bind_of_error run]
  · rw [read, bind_of_error (extent count)]

theorem WellFormed.resolvesTo (w : h.WellFormed) (hobj : h.objectAt start = some length)
    (hle : start ≤ offset) (hlt : offset < start + length) :
    h.ResolvesTo offset start (start + length) := by
  have hregion := w.object_in_region hobj
  have hsmall := w.small
  have run := congrArg (fun found => orFail found h) (w.extentOf_eq_ok_iff.2 ⟨hobj, hle, hlt⟩)
  have add := congrArg (fun found => orTrap found h)
    (Size.add?_eq_some_iff.2 ⟨show start + length < Size.limit by omega, rfl⟩)
  have sub := congrArg (fun found => orTrap found h)
    (Size.sub?_eq_some_iff.2 ⟨Nat.le_of_lt hlt, rfl⟩)
  have usable : usableFrom offset h = .ok (start + length - offset) h := by
    rw [usableFrom, bind_get, bind_of_ok run]
    show (orTrap (Size.add? start length) >>= _ : HeapM Nat) h = _
    rw [bind_of_ok add]
    exact sub
  have extent (count : Nat) : checkExtent offset count h =
      if start + length - offset < count
      then .error (.refused (.invalidPointer (Size.addCapped offset count))) h else .ok () h := by
    rw [checkExtent, bind_of_ok usable]
    split <;> rfl
  refine ⟨?_, usable, fun count hcount => ?_, fun count hcount => ?_⟩
  · rw [resolve, bind_get, bind_of_ok run]
    rfl
  · obtain ⟨data, hd, hsize, hbytes⟩ :=
      Region.read?_eq (r := h.region) (h.arenaStart + offset) count (by omega)
    refine ⟨data, ?_, hsize, fun i hi => ?_⟩
    · rw [read, bind_of_ok ((extent count).trans (if_neg (Nat.not_lt_of_le hcount))), bind_get]
      exact congrArg (fun found => orTrap found h) hd
    · rw [hbytes i hi, arenaByte, Nat.add_assoc]
  · rw [read, bind_of_error ((extent count).trans (if_pos hcount))]

/-- Bytes from an offset to the end of the object that it lies in. -/
theorem WellFormed.usableFrom_eq (w : h.WellFormed) (hext : h.extentOf offset = .ok (start, length)) :
    usableFrom offset h = .ok (start + length - offset) h := by
  obtain ⟨hobj, hle, hlt⟩ := w.extentOf_eq_ok_iff.1 hext
  exact (w.resolvesTo hobj hle hlt).usable_eq

/-! ## Where objects start -/

/-- A fragment starts at a multiple of its length. -/
theorem WellFormed.fragment_aligned (w : h.WellFormed) (hobj : h.objectAt start = some length)
    (hlt : length < h.blockSize) : length ∣ start := by
  rcases objectAt_eq_some.1 hobj with ⟨log2, -, hal, -, rfl⟩ | ⟨count, hr, -, rfl⟩
  · exact Nat.dvd_of_mod_eq_zero hal
  · have := Nat.le_mul_of_pos_left h.blockSize (w.run_bounds hr).1
    omega

end RegionHeap.Heap
