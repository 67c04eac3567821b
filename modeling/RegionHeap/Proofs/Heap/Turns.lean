import RegionHeap.Proofs.Heap.WellFormed

/-!
What an operation may turn a heap into. `Turns h h' objects` says that `h'` is a well-formed heap on
the same ground whose live objects are `objects`, and that no byte has changed in an object that is
there before and after. Operations are described by the objects that they leave; the rest of this
module derives such statements from what becomes of the block table.
-/
namespace RegionHeap.Heap

/-- The objects become `objects`. Where one stays, so do its bytes, as far as it reaches before and
after. -/
structure Turns (h h' : Heap) (objects : Nat → Option Nat) : Prop where
  wellFormed : h'.WellFormed
  frame_eq : h'.frame = h.frame
  names_eq : h'.names = h.names
  aligned_eq : h'.aligned = h.aligned
  metadata : ∀ i, i < h.arenaStart → h'.region.byte i = h.region.byte i
  objects_eq : ∀ s, h'.objectAt s = objects s
  bytes_eq : ∀ s l l', h.objectAt s = some l → objects s = some l' →
    ∀ i, i < l → i < l' → h'.arenaByte (s + i) = h.arenaByte (s + i)

variable {h h' h'' : Heap} {objects objects' : Nat → Option Nat}

theorem blockLog2_of_frame (hf : h'.frame = h.frame) : h'.blockLog2 = h.blockLog2 :=
  congrArg Frame.blockLog2 hf

theorem blockSize_of_frame (hf : h'.frame = h.frame) : h'.blockSize = h.blockSize := by
  rw [blockSize, blockSize, blockLog2_of_frame hf]

theorem blockStart_of_frame (hf : h'.frame = h.frame) (block : Nat) :
    h'.blockStart block = h.blockStart block := by
  rw [blockStart, blockStart, blockSize_of_frame hf]

theorem arenaStart_of_frame (hf : h'.frame = h.frame) : h'.arenaStart = h.arenaStart :=
  congrArg Frame.arenaStart hf

/-- The region says how many blocks the arena has. -/
theorem WellFormed.blockCount_eq (w : h.WellFormed) (w' : h'.WellFormed) (hf : h'.frame = h.frame)
    (hs : h'.region.size = h.region.size) : h'.blockCount = h.blockCount := by
  have hsize := w'.size_eq
  rw [hs, w.size_eq, arenaStart_of_frame hf, blockSize_of_frame hf] at hsize
  exact (Nat.eq_of_mul_eq_mul_right h.blockSize_pos (Nat.add_left_cancel hsize)).symm

/-- With fewer blocks the region is smaller. -/
theorem WellFormed.size_le_of_blockCount_le (w : h.WellFormed) (w' : h'.WellFormed)
    (hf : h'.frame = h.frame) (hle : h'.blockCount ≤ h.blockCount) :
    h'.region.size ≤ h.region.size := by
  rw [w'.size_eq, w.size_eq, arenaStart_of_frame hf, blockSize_of_frame hf]
  exact Nat.add_le_add_left (Nat.mul_le_mul_right _ hle) _

namespace Turns

theorem refl (w : h.WellFormed) : Turns h h h.objectAt :=
  ⟨w, rfl, rfl, rfl, fun _ _ => rfl, fun _ => rfl, fun _ _ _ _ _ _ _ _ => rfl⟩

/-- One step after another, if objects that stay are not cut short in between. -/
theorem trans (t : Turns h h' objects) (t' : Turns h' h'' objects')
    (hstay : ∀ s l l'', h.objectAt s = some l → objects' s = some l'' →
      ∃ l', objects s = some l' ∧ (l ≤ l' ∨ l'' ≤ l')) : Turns h h'' objects' where
  wellFormed := t'.wellFormed
  frame_eq := t'.frame_eq.trans t.frame_eq
  names_eq := t'.names_eq.trans t.names_eq
  aligned_eq := t'.aligned_eq.trans t.aligned_eq
  metadata i hi := by
    rw [t'.metadata i (by rw [arenaStart_of_frame t.frame_eq]; exact hi), t.metadata i hi]
  objects_eq := t'.objects_eq
  bytes_eq s l l'' hs hs'' i hi hi'' := by
    obtain ⟨l', hs', hl⟩ := hstay s l l'' hs hs''
    have hi' : i < l' := by omega
    rw [t'.bytes_eq s l' l'' (by rw [t.objects_eq, hs']) hs'' i hi' hi'',
      t.bytes_eq s l l' hs hs' i hi hi']

/-- A step that keeps every object, before any other. -/
theorem after_same (t : Turns h h' h.objectAt) (t' : Turns h' h'' objects) : Turns h h'' objects :=
  t.trans t' fun _ l _ hs _ => ⟨l, hs, .inl (Nat.le_refl l)⟩

/-- A step that keeps every object, after any other. -/
theorem then_same (t : Turns h h' objects) (t' : Turns h' h'' h'.objectAt) :
    Turns h h'' objects := by
  have t'' := t.trans t' fun s _ l'' _ hs'' => ⟨l'', by rw [← t.objects_eq]; exact hs'', .inr (Nat.le_refl _)⟩
  exact ⟨t''.wellFormed, t''.frame_eq, t''.names_eq, t''.aligned_eq, t''.metadata,
    fun s => (t''.objects_eq s).trans (t.objects_eq s), fun s l l' hs hs' =>
      t''.bytes_eq s l l' hs (by rw [t.objects_eq]; exact hs')⟩

theorem of_eq (t : Turns h h' objects) (he : ∀ s, objects' s = objects s) : Turns h h' objects' := by
  rw [show objects' = objects from funext he]
  exact t

end Turns

/-! ## From the block table -/

/-- If the run at one block becomes another, and nothing else does, so does one object. -/
theorem objectAt_of_runLength? (h h' : Heap) (hlog : h'.blockLog2 = h.blockLog2) (hbusy : h'.busy = h.busy)
    (hcut : ∀ y, h'.cutLog2? y = h.cutLog2? y) {block : Nat} {n : Option Nat}
    (hrun : ∀ y, h'.runLength? y = if y = block then n else h.runLength? y)
    (hnot : h.cutLog2? block = none) (s : Nat) :
    h'.objectAt s = replaced h.objectAt (h.blockStart block) (n.map (· * h.blockSize)) s := by
  have hsize : h'.blockSize = h.blockSize := by rw [blockSize, blockSize, hlog]
  by_cases hs : s = h.blockStart block
  · subst hs
    have hblock : h'.blockOf (h.blockStart block) = block := by
      rw [blockOf, hlog]
      exact blockOf_blockStart block
    rw [replaced_self, objectAt, hblock, hcut, hnot, hsize, hrun, if_pos rfl]
    simp only [blockStart_mod, if_true]
  · rw [replaced_of_ne _ _ hs]
    by_cases hb : h.blockOf s = block
    · have hal : s % h.blockSize ≠ 0 := fun hal => hs (eq_blockStart hb hal)
      have hblock : h'.blockOf s = h.blockOf s := by rw [blockOf, blockOf, hlog]
      rw [objectAt, objectAt, hblock, hb, hcut, hnot, hsize]
      simp only [if_neg hal]
    · exact objectAt_congr h h' hlog (hcut _) (by rw [hrun, if_neg hb]) (by rw [hbusy])

/-- What a heap needs to be well-formed after its blocks and its region have changed, but no block
that is cut into fragments. -/
theorem WellFormed.reblock (w : h.WellFormed) (region : Region) (table : BlockTable) (floor : Nat)
    (hlaid : ∃ runs, table.LaidOut runs)
    (hcut : ∀ b log2 nfree, table.get? b = some (.fragmented log2 nfree) ↔
      h.table.get? b = some (.fragmented log2 nfree))
    (hsize : region.size = h.arenaStart + table.size * h.blockSize)
    (hsmall : region.size < Size.limit)
    (hbytes : ∀ i, i < h.region.size → i < region.size → region.byte i = h.region.byte i)
    (hfloor : floor ≤ table.size) (hmax : table.size ≤ h.maxBlocks) :
    ({ h with region, table, floor } : Heap).WellFormed := by
  have cut (y : Nat) : ({ h with region, table, floor } : Heap).cutLog2? y = h.cutLog2? y :=
    Option.ext fun log2 => by
      rw [cutLog2?_eq_some, cutLog2?_eq_some]
      exact exists_congr fun nfree => hcut y log2 nfree
  have free (x : Nat) :
      ({ h with region, table, floor } : Heap).freeFragment x = h.freeFragment x :=
    freeFragment_congr h { h with region, table, floor } rfl (cut _) rfl
  have place (x k : Nat) (hx : h.freeFragment x = some k) :
      ({ h with region, table, floor } : Heap).HoldsLinks x := by
    obtain ⟨hc, hal, -⟩ := freeFragment_eq_some.1 hx
    obtain ⟨-, hlt, -⟩ := w.cut_bounds hc
    have h16 := w.sixteen_le_fragmentSize hx
    refine ⟨(w.lists.place x k hx).2.1, ?_⟩
    -- the block of the fragment is still in the table
    obtain ⟨nfree, hg⟩ := cutLog2?_eq_some.1 hc
    have hb := BlockTable.lt_size_of_get? ((hcut _ _ _).2 hg)
    have hlast := blockOf_fragment (h := h) (i := fragmentSize k - 1) (Nat.le_of_lt hlt) hal
      (by omega)
    rw [← hlast] at hb
    have := blockOf_lt_iff.1 hb
    show h.arenaStart + x + 16 ≤ region.size
    omega
  exact {
    min_block := w.min_block
    max_block := w.max_block
    laidOut := hlaid
    cuts := fun b log2 nfree hg => by
      obtain ⟨h₁, h₂, h₃, h₄⟩ := w.cuts b log2 nfree ((hcut _ _ _).1 hg)
      exact ⟨h₁, h₂, h₃, h₄⟩
    maps := fun b m hm => by
      obtain ⟨log2, hc⟩ := w.maps b m hm
      exact ⟨log2, (cut b).trans hc⟩
    heads := w.heads
    lists := by
      refine Lists.of_eq (w.lists.congr rfl rfl place fun x k hx i hlo hhi => ?_) free
      have h₁ := (w.lists.place x k hx).2.2
      have h₂ : h.arenaStart + x + 16 ≤ region.size := (place x k hx).2
      exact hbytes (h.arenaStart + i) (by omega) (by omega)
    size_eq := hsize
    small := hsmall
    floor_le := hfloor
    count_le := hmax
    tables := w.tables
    names := w.names
    records := w.records }

end RegionHeap.Heap
