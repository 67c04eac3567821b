import RegionHeap.Proofs.Heap.Histories
import RegionHeap.Proofs.Heap.Loading
import RegionHeap.Proofs.Heap.Steady

/-!
The store under a heap. All that is ever done to a region is to write into it and to resize it, so a
heap stays on the file that it was opened on, and what that file holds is what the heap has in use
(`SameStore`). No operation has to be granted for that, and no heap well-formed.
-/
namespace RegionHeap

namespace Region

/-- The name of the file that the region maps. -/
def mapped? (r : Region) : Option String :=
  match r.backing with
  | .memory _ => none
  | .file f => some f.name

/-- No other writer has made the file longer or shorter than what is in use of it. -/
def Undisturbed (r : Region) : Prop :=
  ∀ f, r.backing = .file f → f.cut = 0 ∧ f.beyond = ByteArray.empty

/-- The regions map one file, or none, and it is left undisturbed. -/
structure SameStore (r r' : Region) : Prop where
  mapped_eq : r'.mapped? = r.mapped?
  undisturbed : r.Undisturbed → r'.Undisturbed

variable {r r' r'' : Region}

theorem SameStore.refl (r : Region) : SameStore r r := ⟨rfl, id⟩

theorem SameStore.trans (s : SameStore r r') (s' : SameStore r' r'') : SameStore r r'' :=
  ⟨s'.mapped_eq.trans s.mapped_eq, s'.undisturbed ∘ s.undisturbed⟩

theorem sameStore_write {start : Nat} {data : ByteArray} (h : r.write? start data = some r') :
    SameStore r r' := by
  rw [write?, Option.ite_none_right_eq_some, Option.some.injEq] at h
  obtain ⟨-, rfl⟩ := h
  obtain ⟨backing, refusals⟩ := r
  cases backing with
  | memory m => exact ⟨rfl, fun _ f hf => nomatch hf⟩
  | file file =>
    refine ⟨rfl, fun u f hf => ?_⟩
    cases hf
    exact u file rfl

theorem sameStore_resize {n : Nat} (h : r.resize n = .ok r') : SameStore r r' := by
  unfold resize at h
  split at h
  · cases h
  obtain ⟨b, hb, rfl⟩ := map_eq_ok_iff.1 h
  obtain ⟨backing, refusals⟩ := r
  cases backing with
  | memory m =>
    obtain ⟨m', -, rfl⟩ := map_eq_ok_iff.1 hb
    exact ⟨rfl, fun _ f hf => nomatch hf⟩
  | file file =>
    obtain ⟨file', hf, rfl⟩ := map_eq_ok_iff.1 hb
    unfold MappedFile.resize at hf
    split at hf
    · cases hf
    · cases hf
      refine ⟨rfl, fun _ f hf => ?_⟩
      cases hf
      exact ⟨rfl, rfl⟩

end Region

namespace Heap

open HeapM

/-- The heaps are on the same store. -/
def SameStore (h h' : Heap) : Prop := h.region.SameStore h'.region

instance : Trail SameStore where
  of_eq {h h'} region_eq _ := by
    rw [SameStore, region_eq]
    exact .refl _
  trans := Region.SameStore.trans
  write := Region.sameStore_write

namespace Steady

variable {α β : Type} {R : Heap → Heap → Prop} {x : HeapM α}

theorem granted' (hx : Steady R x) : Steady R (granted x) := fun h => Ends.granted' (hx h)

theorem map' (f : α → β) (hx : Steady R x) : Steady R (f <$> x) := fun h => Ends.map' (hx h)

/-- A step that looks at the heap keeps to the trail if it does from there. -/
theorem get_bind {f : Heap → HeapM α}
    (hf : ∀ h, Ends False (f h) h (fun _ h' => R h h') fun _ h' => R h h') :
    Steady R (get >>= f) := fun h => Ends.bind' (Ends.get' (hf h))

variable [Trail R]

theorem orRefuse' (e : HeapError) (o : Option α) : Steady R (orRefuse e o) := fun h =>
  Ends.orRefuse' (fun _ _ => Trail.refl h) fun _ => Trail.refl h

theorem ofExcept' (x : Except HeapError α) : Steady R (ofExcept x) := fun h =>
  Ends.ofExcept' (fun _ _ => Trail.refl h) fun _ _ => Trail.refl h

theorem orFail' (x : Except Failure α) : Steady R (orFail x) := fun h =>
  Ends.orFail' (fun _ _ => Trail.refl h) (fun _ _ => Trail.refl h) fun _ => not_false

theorem onNames' (x : NamesM α) : Steady R (onNames x) := fun _ =>
  Ends.onNames_of (fun _ _ _ => Trail.of_eq rfl rfl) (fun _ _ _ => Trail.of_eq rfl rfl)
    fun _ _ => not_false

end Steady

/-! ## Blocks -/

theorem stored_grow (count : Nat) : Steady SameStore (grow count) := by
  refine Steady.get_bind fun h => ?_
  have same : SameStore h h := Trail.refl h
  refine Ends.ite' (fun _ => Ends.pure' same) fun _ => Ends.ite' (fun _ => Ends.refuse' same) fun _ => ?_
  refine Ends.bind' (Ends.orTrap_of (fun bytes _ => ?_) fun _ => not_false)
  cases hr : h.region.resize bytes with
  | error e => exact Ends.refuse' same
  | ok region =>
    refine Ends.bind' (Ends.orTrap_of (fun _ _ => Ends.set' ?_) fun _ => not_false)
    exact Region.sameStore_resize hr

theorem stored_shrink (count : Nat) : Steady SameStore (shrink count) := by
  refine Steady.get_bind fun h => ?_
  have same : SameStore h h := Trail.refl h
  refine Ends.bind' (Ends.orTrap_of (fun available _ => ?_) fun _ => not_false)
  refine Ends.ite' (fun _ => Ends.refuse' same) fun _ => Ends.ite' (fun _ => Ends.pure' same) fun _ => ?_
  refine Ends.bind' (Ends.orTrap_of (fun limit _ => ?_) fun _ => not_false)
  refine Ends.bind' (Ends.orTrap_of (fun bytes _ => ?_) fun _ => not_false)
  cases hr : h.region.resize bytes with
  | error e => exact Ends.refuse' same
  | ok region =>
    refine Ends.bind' (Ends.orTrap_of (fun p _ => ?_) fun _ => not_false)
    obtain ⟨cut, table⟩ := p
    exact Ends.ite' (fun _ => Ends.set' (Region.sameStore_resize hr)) fun _ => Ends.trap'

theorem stored_returnTail : Steady SameStore returnTail :=
  Steady.bind' Steady.get' fun _ => Steady.bind' (Steady.orTrap' _) fun _ =>
    Steady.ite' (Steady.pure' _) (Steady.discard' (Steady.granted' (stored_shrink _)))

theorem stored_trim : Steady SameStore trim :=
  Steady.bind' Steady.get' fun _ => Steady.bind' (Steady.orTrap' _) fun _ =>
    Steady.bind' (stored_shrink _) fun _ => Steady.pure' _

theorem stored_claimBlocks (count : Nat) : Steady SameStore (claimBlocks count) := by
  refine Steady.bind' Steady.get' fun h => Steady.ite' (Steady.refuse' _) ?_
  refine Steady.bind' (Steady.onTable' _) fun found => ?_
  cases found with
  | some block => exact Steady.pure' _
  | none =>
    refine Steady.bind' Steady.get' fun _ => Steady.bind' (Steady.orTrap' _) fun _ =>
      Steady.bind' (Steady.orTrap' _) fun _ => Steady.bind' (stored_grow _) fun _ =>
        Steady.bind' (Steady.onTable' _) fun found => ?_
    cases found with
    | some block => exact Steady.pure' _
    | none => exact Steady.refuse' _

/-! ## Objects -/

theorem stored_allocateSmall (log2 : Nat) : Steady SameStore (allocateSmall log2) := by
  refine Steady.bind' (steady_firstFree log2) fun head => ?_
  cases head with
  | some offset => exact steady_reuseFragment log2 offset
  | none =>
    refine Steady.bind' (stored_claimBlocks 1) fun block => Steady.bind' Steady.get' fun h => ?_
    refine Steady.bind' (Steady.orTrap' _) fun count => ?_
    refine Steady.bind' (steady_setEntry _ _) fun _ => Steady.bind' (Steady.orTrap' _) fun _ => ?_
    refine Steady.bind' (Steady.modify' fun _ => Trail.of_eq rfl rfl) fun _ => ?_
    exact Steady.bind' (Steady.discard' (steady_markFragment _ _ _)) fun _ =>
      Steady.bind' (steady_listFragments _ _ _) fun _ => Steady.pure' _

theorem stored_allocate (size : Nat) : Steady SameStore (allocate size) := by
  refine Steady.bind' Steady.get' fun h => ?_
  split
  · exact stored_allocateSmall _
  · exact Steady.bind' (stored_claimBlocks _) fun _ => Steady.pure' _

theorem stored_allocateZeroed (count size : Nat) : Steady SameStore (allocateZeroed count size) :=
  Steady.bind' (Steady.orRefuse' _ _) fun _ => Steady.bind' (stored_allocate _) fun _ =>
    Steady.bind' (steady_writeArena _ _) fun _ => Steady.pure' _

theorem stored_free (handle : Handle) : Steady SameStore (free handle) := by
  refine Steady.bind' Steady.get' fun h => Steady.bind' (steady_freeAllocation _) fun _ => ?_
  exact Steady.ite' (Steady.bind' (Steady.modify' fun _ => Trail.of_eq rfl rfl)
    fun _ => stored_returnTail) stored_returnTail

theorem stored_usableFrom (offset : Nat) : Steady SameStore (usableFrom offset) :=
  Steady.bind' Steady.get' fun _ => Steady.bind' (Steady.orFail' _) fun _ =>
    Steady.bind' (Steady.orTrap' _) fun _ => Steady.orTrap' _

theorem stored_checkExtent (offset count : Nat) : Steady SameStore (checkExtent offset count) :=
  Steady.bind' (stored_usableFrom offset) fun _ => Steady.ite' (Steady.refuse' _) (Steady.pure' _)

theorem stored_moveObject (handle : Handle) (size : Nat) :
    Steady SameStore (moveObject handle size) :=
  Steady.bind' (stored_usableFrom handle) fun _ => Steady.bind' (stored_allocate size) fun _ =>
    Steady.bind' Steady.get' fun _ => Steady.bind' (Steady.orTrap' _) fun _ =>
      Steady.bind' (steady_writeArena _ _) fun _ => Steady.bind' (stored_free handle) fun _ =>
        Steady.pure' _

theorem stored_growBehind (block length want : Nat) :
    Steady SameStore (growBehind block length want) := by
  refine Steady.bind' Steady.get' fun h => Steady.bind' (Steady.orTrap' _) fun stop => ?_
  refine Steady.bind' (Steady.orTrap' _) fun trailing => ?_
  split
  · exact Steady.pure' _
  · refine Steady.ite' (Steady.pure' _) (Steady.bind' (Steady.orTrap' _) fun missing => ?_)
    refine Steady.ite' (Steady.pure' _) (Steady.bind' (Steady.granted' (stored_grow _)) fun _ => ?_)
    exact Steady.ite' (Steady.onTable' _) (Steady.pure' _)

theorem stored_resizeObject (handle : Handle) (size : Nat) :
    Steady SameStore (resizeObject handle size) := by
  refine Steady.bind' Steady.get' fun h => ?_
  simp only
  split
  · refine Steady.ite' (Steady.bind' (Steady.bind' (Steady.onTable' _) fun _ => stored_returnTail)
      fun _ => Steady.pure' _) (Steady.ite' (Steady.pure' _) ?_)
    refine Steady.bind' (Steady.onTable' _) fun _ => Steady.ite' (Steady.pure' _) ?_
    exact Steady.bind' (stored_growBehind _ _ _) fun _ =>
      Steady.ite' (Steady.pure' _) (stored_moveObject _ _)
  · exact Steady.ite' (Steady.pure' _) (stored_moveObject _ _)
  · exact stored_moveObject _ _

theorem stored_reallocate (handle : Handle) (size : Nat) :
    Steady SameStore (reallocate handle size) :=
  Steady.bind' Steady.get' fun _ => Steady.ite' (stored_moveObject _ _)
    (Steady.bind' (Steady.orFail' _) fun _ =>
      Steady.ite' (stored_resizeObject _ _) (Steady.refuse' _))

theorem stored_allocateWithSlack (alignment padded : Nat) :
    Steady SameStore (allocateWithSlack alignment padded) := by
  refine Steady.bind' (Steady.orRefuse' _ _) fun _ => Steady.bind' (stored_allocate _) fun _ => ?_
  refine Steady.bind' (Steady.orTrap' _) fun _ => Steady.ite' (Steady.pure' _) ?_
  refine Steady.get_bind fun h => Ends.bind' (Ends.ofExcept' (fun _ _ => ?_) fun _ _ => Trail.refl h)
  exact Ends.bind' (Ends.set' (Ends.pure' (Trail.of_eq rfl rfl)))

theorem stored_allocateAligned (alignment size : Nat) :
    Steady SameStore (allocateAligned alignment size) :=
  Steady.ite' (Steady.refuse' _) (Steady.bind' (Steady.orRefuse' _ _) fun _ =>
    Steady.bind' (stored_allocate _) fun _ => Steady.ite' (Steady.pure' _)
      (Steady.bind' (steady_freeAllocation _) fun _ => Steady.bind' Steady.get' fun _ =>
        Steady.ite' (Steady.refuse' _) (stored_allocateWithSlack _ _)))

/-! ## Names -/

theorem stored_resolve (offset : Nat) : Steady SameStore (resolve offset) :=
  Steady.bind' Steady.get' fun _ => Steady.bind' (Steady.orFail' _) fun _ => Steady.pure' _

theorem stored_register (name : String) (offset : Nat) : Steady SameStore (register name offset) :=
  Steady.bind' (Steady.discard' (stored_resolve offset)) fun _ => Steady.onNames' _

theorem stored_lookup (name : String) : Steady SameStore (lookup name) := Steady.onNames' _

theorem stored_unregister (name : String) : Steady SameStore (unregister name) := Steady.onNames' _

theorem stored_allocateAs (name : String) {allocation : HeapM Handle}
    (ha : Steady SameStore allocation) : Steady SameStore (allocateAs name allocation) :=
  Steady.bind' Steady.get' fun _ => Steady.bind' (Steady.ofExcept' _) fun _ =>
    Steady.ite' (Steady.refuse' _) (Steady.ite' (Steady.refuse' _)
      (Steady.bind' ha fun _ => Steady.bind' (Steady.onNames' _) fun _ => Steady.pure' _))

theorem stored_freeNamed (name : String) : Steady SameStore (freeNamed name) :=
  Steady.bind' (stored_lookup name) fun _ => Steady.bind' (stored_free _) fun _ =>
    Steady.discard' (stored_unregister name)

/-! ## Saving -/

theorem stored_writeMeta (start : Nat) (data : ByteArray) : Steady SameStore (writeMeta start data) :=
  Steady.bind' Steady.get' fun _ => Steady.ite'
    (fun _ => Ends.modifyRegion_of (fun _ hw => Trail.write hw) fun _ => not_false)
    fun _ => Ends.trap'

theorem stored_sync : Steady SameStore sync := by
  have tables (l : List (Nat × ByteArray)) :
      Steady SameStore (l.forM fun p => writeMeta p.1 p.2) := by
    induction l with
    | nil => exact Steady.pure' _
    | cons p l ih => exact Steady.bind' (stored_writeMeta _ _) fun _ => ih
  refine Steady.bind' (Steady.bind' Steady.get' fun h => ?_) fun _ => Steady.bind' Steady.get' fun h => ?_
  · simp only
    split
    · exact fun _ => Ends.trap'
    · exact Steady.refuse' _
    · exact Steady.ite' (tables _) fun _ => Ends.trap'
  · split
    · exact Steady.pure' _
    · exact Steady.refuse' _

end Heap

open Heap

/-- No operation moves a heap to another store. -/
theorem Operation.stored (op : Operation) : Steady SameStore op.run := by
  have looks {α : Type} (o : Heap → Option α) (f : α → Answer) :
      Steady SameStore (do pure (f (← HeapM.orTrap (o (← get))))) :=
    Steady.bind' Steady.get' fun _ => Steady.bind' (Steady.orTrap' _) fun _ => Steady.pure' _
  cases op with
  | allocate size => exact Steady.map' _ (stored_allocate size)
  | allocateZeroed count size => exact Steady.map' _ (stored_allocateZeroed count size)
  | allocateAligned alignment size => exact Steady.map' _ (stored_allocateAligned alignment size)
  | allocatePageAligned host size => exact Steady.map' _ (stored_allocateAligned host.page size)
  | reallocate handle size => exact Steady.map' _ (stored_reallocate handle size)
  | free handle => exact Steady.map' _ (stored_free handle)
  | allocateNamed name size =>
    exact Steady.map' _ (stored_allocateAs name (stored_allocate size))
  | allocateZeroedNamed name count size =>
    exact Steady.map' _ (stored_allocateAs name (stored_allocateZeroed count size))
  | allocateAlignedNamed name alignment size =>
    exact Steady.map' _ (stored_allocateAs name (stored_allocateAligned alignment size))
  | freeNamed name => exact Steady.map' _ (stored_freeNamed name)
  | register name offset => exact Steady.map' _ (stored_register name offset)
  | lookup name => exact Steady.map' _ (stored_lookup name)
  | unregister name => exact Steady.map' _ (stored_unregister name)
  | resolve offset => exact Steady.map' _ (stored_resolve offset)
  | usableFrom offset => exact Steady.map' _ (stored_usableFrom offset)
  | read offset count =>
    exact Steady.map' _ (Steady.bind' (stored_checkExtent offset count) fun _ =>
      Steady.bind' Steady.get' fun _ => Steady.orTrap' _)
  | write offset data =>
    exact Steady.map' _ (Steady.bind' (stored_checkExtent offset data.size) fun _ =>
      steady_writeArena _ _)
  | fill offset count byte =>
    exact Steady.map' _ (Steady.bind' (stored_checkExtent offset count) fun _ =>
      steady_writeArena _ _)
  | grow count => exact Steady.map' _ (stored_grow count)
  | shrink count => exact Steady.map' _ (stored_shrink count)
  | trim => exact Steady.map' _ stored_trim
  | sync => exact Steady.map' _ stored_sync
  | names => exact Steady.bind' Steady.get' fun _ => Steady.pure' _
  | usage => exact looks _ _
  | defects => exact looks _ _
  | freeRuns => exact looks _ _

/-! ## Opening -/

namespace Heap

variable {host : Host} {g : Geometry} {region : Region} {h : Heap}

theorem stored_layOut (initialBlocks : Nat) : Steady SameStore (layOut initialBlocks) := by
  refine Steady.bind' Steady.get' fun _ => Steady.bind' (Steady.get_bind fun h => ?_) fun _ =>
    Steady.bind' (stored_grow _) fun _ => stored_sync
  split
  · rename_i hr
    exact Ends.set' (Region.sameStore_resize hr)
  · exact Ends.refuse' (Trail.refl h)

/-- A heap is opened on the store that is there. -/
theorem stored_mount (hm : mount host g region = .ok h) : region.SameStore h.region := by
  rw [mount] at hm
  split at hm
  · rw [create] at hm
    split at hm
    · cases hm
    rename_i arenaStart hg
    split at hm
    · rename_i laid
      cases hm
      exact (stored_layOut g.initialBlocks (blank g arenaStart region)).of_ok laid
    · cases hm
  · obtain ⟨c, bytes, region', -, cut, heap, -⟩ := load_eq_ok_iff.1 hm
    obtain ⟨table, -, rfl⟩ := heap?_eq_some_iff.1 heap
    rw [Cut] at cut
    split at cut
    · exact Region.sameStore_resize cut
    · cases cut
      exact .refl region

theorem sameStore_withRefusals (h : Heap) (refusals : Option Refusals) :
    SameStore h (h.withRefusals refusals) := ⟨rfl, id⟩

/-- Whatever a heap becomes, it is on the store that it was on. -/
theorem Reaches.sameStore {h' : Heap} (r : Reaches h h') : SameStore h h' := by
  induction r with
  | start => exact Trail.refl h
  | step refusals op _ leaves ih =>
    refine (ih.trans (sameStore_withRefusals _ refusals)).trans ?_
    cases leaves with
    | granted answer ran => exact (op.stored _).of_ok ran
    | refused e ran => exact (op.stored _).of_refused ran

end Heap

end RegionHeap
