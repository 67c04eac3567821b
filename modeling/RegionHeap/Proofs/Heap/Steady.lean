import RegionHeap.Heap.Objects
import RegionHeap.Proofs.Heap.Outcome

/-!
Steps that leave the arena as long as it is. They only write into the region, and do not move the
floor; what can be said of the heaps before and after all such steps is a `Trail`, and a step is
steady if it keeps to the trail, whether it is granted or refused (`Steady`). One rule for each way of
putting steps together shows that listing, marking and handing out fragments are steady, and so is
all that frees an allocation.
-/
namespace RegionHeap.Heap

open HeapM

/-- What can be said of the heaps before and after steps that only write into the region. -/
class Trail (R : Heap → Heap → Prop) : Prop where
  of_eq {h h' : Heap} (region_eq : h'.region = h.region) (floor_eq : h'.floor = h.floor) : R h h'
  trans {h h' h'' : Heap} (before : R h h') (after : R h' h'') : R h h''
  write {h : Heap} {start : Nat} {data : ByteArray} {region : Region}
    (written : h.region.write? start data = some region) : R h { h with region }

/-- The region has its old size, and the heap its old floor. -/
structure SameExtent (h h' : Heap) : Prop where
  size_eq : h'.region.size = h.region.size
  floor_eq : h'.floor = h.floor

theorem SameExtent.refl (h : Heap) : SameExtent h h := ⟨rfl, rfl⟩

theorem SameExtent.trans {h h' h'' : Heap} (s : SameExtent h h') (s' : SameExtent h' h'') :
    SameExtent h h'' :=
  ⟨s'.size_eq.trans s.size_eq, s'.floor_eq.trans s.floor_eq⟩

instance : Trail SameExtent where
  of_eq region_eq floor_eq := ⟨by rw [region_eq], floor_eq⟩
  trans := .trans
  write written := ⟨Region.size_write written, rfl⟩

theorem Trail.refl {R : Heap → Heap → Prop} [Trail R] (h : Heap) : R h h := Trail.of_eq rfl rfl

/-- However the step ends, the heap that it leaves stands in this relation to the one before. -/
def Steady {α : Type} (R : Heap → Heap → Prop) (x : HeapM α) : Prop :=
  ∀ h, Ends False x h (fun _ h' => R h h') fun _ h' => R h h'

namespace Steady

variable {α β : Type} {x : HeapM α} {f : α → HeapM β} {R : Heap → Heap → Prop}

theorem discard' (hx : Steady R x) : Steady R (discard x) := fun h => Ends.discard' (hx h)

theorem modify' {f : Heap → Heap} (hf : ∀ h, R h (f h)) :
    Steady R (modify f : HeapM PUnit) := fun h => Ends.modify' (hf h)

theorem ite' {c : Prop} [Decidable c] {x y : HeapM α} (hx : Steady R x) (hy : Steady R y) :
    Steady R (if c then x else y) := fun h => Ends.ite' (fun _ => hx h) fun _ => hy h

variable [Trail R]

theorem pure' (a : α) : Steady R (pure a : HeapM α) := fun h => Ends.pure' (Trail.refl h)

theorem bind' (hx : Steady R x) (hf : ∀ a, Steady R (f a)) : Steady R (x >>= f) := fun h =>
  Ends.bind' ((hx h).mono
    (fun a h' s => (hf a h').mono (fun _ _ s' => Trail.trans s s') fun _ _ s' => Trail.trans s s')
    fun _ _ s => s)

theorem get' : Steady R (get : HeapM Heap) := fun h => Ends.get' (Trail.refl h)

theorem refuse' (e : HeapError) : Steady R (refuse e : HeapM α) := fun h =>
  Ends.refuse' (Trail.refl h)

theorem orTrap' (o : Option α) : Steady R (orTrap o) := fun h =>
  Ends.orTrap_of (fun _ _ => Trail.refl h) fun _ => not_false

theorem onTable' (f : BlockTable → Option (α × BlockTable)) : Steady R (onTable f) := fun _ =>
  Ends.onTable_of (fun _ _ _ => Trail.of_eq rfl rfl) fun _ => not_false

end Steady

variable {R : Heap → Heap → Prop} [Trail R]

/-! ## Fragments -/

theorem steady_writeArena (offset : Nat) (data : ByteArray) : Steady R (writeArena offset data) :=
  Steady.bind' Steady.get' fun _ _ =>
    Ends.modifyRegion_of (fun _ hw => Trail.write hw) fun _ => not_false

theorem steady_linkForward (offset : Nat) (next : Option Nat) : Steady R (linkForward offset next) :=
  steady_writeArena _ _

theorem steady_linkBack (offset : Nat) (prev : Option Nat) : Steady R (linkBack offset prev) :=
  steady_writeArena _ _

theorem steady_setFirstFree (log2 : Nat) (head : Option Nat) : Steady R (setFirstFree log2 head) :=
  fun _ => Ends.bind' <| Ends.get' <|
    Ends.ite' (fun _ => Ends.set' (Trail.of_eq rfl rfl)) fun _ => Ends.trap'

theorem steady_firstFree (log2 : Nat) : Steady R (firstFree log2) :=
  Steady.bind' Steady.get' fun _ => Steady.orTrap' _

theorem steady_listFragment (log2 offset : Nat) : Steady R (listFragment log2 offset) := by
  refine Steady.bind' (steady_firstFree log2) fun head => ?_
  refine Steady.bind' (steady_linkForward _ _) fun _ => Steady.bind' (steady_linkBack _ _) fun _ => ?_
  cases head with
  | none => exact steady_setFirstFree _ _
  | some next => exact Steady.bind' (steady_linkBack _ _) fun _ => steady_setFirstFree _ _

theorem steady_unlistFragment (log2 offset : Nat) : Steady R (unlistFragment log2 offset) := by
  refine Steady.bind' Steady.get' fun h => Steady.bind' (Steady.orTrap' _) fun links => ?_
  obtain ⟨next, prev⟩ := links
  cases prev with
  | none =>
    refine Steady.bind' (steady_setFirstFree _ _) fun _ => ?_
    cases next with
    | none => exact Steady.pure' _
    | some n => exact steady_linkBack _ _
  | some p =>
    refine Steady.bind' (steady_linkForward _ _) fun _ => ?_
    cases next with
    | none => exact Steady.pure' _
    | some n => exact steady_linkBack _ _

theorem steady_listFragments (log2 base count : Nat) : Steady R (listFragments log2 base count) := by
  induction count with
  | zero => exact Steady.pure' _
  | succ count ih => exact Steady.bind' (steady_listFragment _ _) fun _ => ih

theorem steady_unlistFragments (log2 skip fragment count : Nat) :
    Steady R (unlistFragments log2 skip fragment count) := by
  induction count generalizing fragment with
  | zero => exact Steady.pure' _
  | succ count ih =>
    exact Steady.ite' (ih _) (Steady.bind' (steady_unlistFragment _ _) fun _ => ih _)

theorem steady_markFragment (block index : Nat) (busy : Bool) :
    Steady R (markFragment block index busy) := by
  intro h
  refine Ends.bind' (Ends.get' ?_)
  cases BusyMaps.set? h.busy block index busy with
  | none => exact Ends.pure' (Trail.refl h)
  | some p => exact Ends.bind' (Ends.set' (Ends.pure' (Trail.of_eq rfl rfl)))

theorem steady_setEntry (block : Nat) (e : Entry) : Steady R (setEntry block e) := Steady.onTable' _

theorem steady_reuseFragment (log2 offset : Nat) : Steady R (reuseFragment log2 offset) := by
  refine Steady.bind' Steady.get' fun h => ?_
  simp only
  split
  · refine Steady.ite' (Steady.bind' (Steady.orTrap' _) fun _ => ?_) (Steady.refuse' _)
    refine Steady.bind' (steady_markFragment _ _ _) fun _ => ?_
    refine Steady.ite' (Steady.bind' (steady_unlistFragment _ _) fun _ => ?_) (Steady.refuse' _)
    exact Steady.bind' (steady_setEntry _ _) fun _ => Steady.pure' _
  · exact Steady.refuse' _

/-! ## Freeing -/

theorem steady_returnBlocks (start count : Nat) : Steady R (returnBlocks start count) :=
  Steady.onTable' _

theorem steady_freeSmall (block offset log2 nfree : Nat) :
    Steady R (freeSmall block offset log2 nfree) := by
  refine Steady.bind' Steady.get' fun h => Steady.bind' (Steady.orTrap' _) fun size => ?_
  refine Steady.bind' (Steady.orTrap' _) fun live => Steady.ite' (Steady.refuse' _) ?_
  refine Steady.bind' (Steady.orTrap' _) fun count => ?_
  refine Steady.bind' (Steady.orTrap' _) fun free => Steady.ite' ?_ ?_
  · exact Steady.bind' (Steady.orTrap' _) fun _ =>
      Steady.bind' (Steady.discard' (steady_markFragment _ _ _)) fun _ =>
        Steady.bind' (steady_listFragment _ _) fun _ => steady_setEntry _ _
  · exact Steady.bind' (steady_unlistFragments _ _ _ _) fun _ =>
      Steady.bind' (Steady.modify' fun _ => Trail.of_eq rfl rfl) fun _ => steady_returnBlocks _ _

theorem steady_freeAllocation (offset : Nat) : Steady R (freeAllocation offset) := by
  refine Steady.bind' Steady.get' fun h => ?_
  simp only
  split
  · exact Steady.ite' (steady_returnBlocks _ _) (Steady.refuse' _)
  · exact steady_freeSmall _ _ _ _
  · exact Steady.refuse' _

end RegionHeap.Heap
