import RegionHeap.Proofs.Heap.Custody
import RegionHeap.Proofs.Heap.Undoing

/-!
Freeing many handles. What is left is said by the set of handles alone: their objects and their
records are gone, and nothing else is (`Drops`). The arena is tight after the last of them, on a
region that grants smaller sizes, so the order in which they are freed leaves no trace but in the
list links and in bytes that belong to no object (`frees_commute`). When all handles of a client are
freed, one run of free blocks is left, as far as the floor (`Drained`).
-/
namespace RegionHeap.Heap

open BlockTable

variable {h h' h₁ h₂ : Heap} {host : Host} {g : Geometry} {region : Region} {live : Account}
  {book saved : Book}
variable {handle : Handle} {handles handles' : List Handle}

/-- Frees handles one after the other, on a region that refuses requests of its own before each. -/
def freeEach? (h : Heap) : List (Option Refusals × Handle) → Option Heap
  | [] => some h
  | (refusals, handle) :: rest =>
    match free handle (h.withRefusals refusals) with
    | .ok () h' => h'.freeEach? rest
    | .error _ _ => none

/-! ## What is left -/

/-- The objects and the records of these handles are gone, and no others. -/
structure Drops (h h' : Heap) (handles : List Handle) : Prop where
  blockLog2_eq : h'.blockLog2 = h.blockLog2
  floor_eq : h'.floor = h.floor
  names_eq : h'.names = h.names
  recordCapacity_eq : h'.aligned.capacity = h.aligned.capacity
  regionCapacity_eq : h'.region.capacity = h.region.capacity
  size_le : h'.region.size ≤ h.region.size
  objects : ∀ s, h'.objectAt s = if s ∈ handles.map h.allocationOf then none else h.objectAt s
  records : ∀ k, h'.aligned.start? k = if k ∈ handles then none else h.aligned.start? k
  tight : handles ≠ [] ∨ h.Tight → h'.Tight

namespace Drops

theorem refl (h : Heap) : Drops h h [] where
  blockLog2_eq := rfl
  floor_eq := rfl
  names_eq := rfl
  recordCapacity_eq := rfl
  regionCapacity_eq := rfl
  size_le := Nat.le_refl _
  objects s := by simp
  records k := by simp
  tight ht := ht.resolve_left fun hne => hne rfl

/-- What the region refuses is no part of it. -/
theorem of_withRefusals {refusals : Option Refusals} (d : Drops (h.withRefusals refusals) h' handles) :
    Drops h h' handles :=
  ⟨d.blockLog2_eq, d.floor_eq, d.names_eq, d.recordCapacity_eq, d.regionCapacity_eq, d.size_le,
    d.objects, d.records, d.tight⟩

/-- Later handles still lead where they led. -/
theorem allocationOf_eq (d : Drops h h' handles) (hk : handle ∉ handles) :
    h'.allocationOf handle = h.allocationOf handle := by
  rw [allocationOf, allocationOf, d.records, if_neg hk]

theorem cons (d : Drops h h₁ [handle]) (d' : Drops h₁ h₂ handles) (hnew : handle ∉ handles) :
    Drops h h₂ (handle :: handles) where
  blockLog2_eq := d'.blockLog2_eq.trans d.blockLog2_eq
  floor_eq := d'.floor_eq.trans d.floor_eq
  names_eq := d'.names_eq.trans d.names_eq
  recordCapacity_eq := d'.recordCapacity_eq.trans d.recordCapacity_eq
  regionCapacity_eq := d'.regionCapacity_eq.trans d.regionCapacity_eq
  size_le := Nat.le_trans d'.size_le d.size_le
  objects s := by
    have hstarts : handles.map h₁.allocationOf = handles.map h.allocationOf :=
      List.map_congr_left fun k hk => d.allocationOf_eq (by
        rw [List.mem_singleton]
        rintro rfl
        exact hnew hk)
    rw [d'.objects, hstarts, d.objects]
    by_cases hs : s ∈ handles.map h.allocationOf
    · rw [if_pos hs, List.map_cons, if_pos (List.mem_cons_of_mem _ hs)]
    · simp only [List.map_cons, List.map_nil, List.mem_cons, hs, List.not_mem_nil, or_false, if_false]
  records k := by
    rw [d'.records, d.records]
    by_cases hk : k ∈ handles
    · rw [if_pos hk, if_pos (List.mem_cons_of_mem _ hk)]
    · simp [hk]
  tight _ := d'.tight (.inr (d.tight (.inl (List.cons_ne_nil _ _))))

end Drops

/-- One handle of a client. -/
theorem Isolated.free_drops (i : Isolated h live) (hlive : live handle ≠ none)
    (hs : h.region.Shrinks) :
    ∃ h', free handle h = .ok () h' ∧ Isolated h' (replaced live handle none) ∧
      Drops h h' [handle] := by
  have w := i.wellFormed
  obtain ⟨length, hobj, -⟩ := i.extentOf_eq hlive
  obtain ⟨⟨⟩, h', ran, ⟨-, t⟩, e⟩ :=
    ((free_ends w handle).both (free_endsTight w hs handle)).exists_ok fun _ _ hE => by
      rw [hobj] at hE
      exact Option.some_ne_none length hE.1.2
  have frame : h'.frame = h.frame := t.frame_eq
  have hlog : h'.blockLog2 = h.blockLog2 := blockLog2_of_frame frame
  have i' := (i.erase hlive t).1
  -- no more blocks are used than before, so a tight arena is no longer than it was
  have hused : h'.table.usedBlocks ≤ h.table.usedBlocks := by
    refine t.wellFormed.usedBlocks_mono w hlog.symm fun s l hl => ⟨l, ?_, Nat.le_refl l⟩
    rw [t.objects_eq] at hl
    by_cases heq : s = h.allocationOf handle
    · rw [heq, replaced_self] at hl
      cases hl
    · rwa [replaced_of_ne _ _ heq] at hl
  have hcount : h'.blockCount ≤ h.blockCount := by
    rw [e.tight.blockCount_eq t.wellFormed, e.floor_eq]
    exact Nat.max_le.2 ⟨w.floor_le, Nat.le_trans hused h.table.usedBlocks_le_size⟩
  refine ⟨h', ran, i', hlog, e.floor_eq, t.names_eq, congrArg Frame.recordCapacity frame,
    congrArg Frame.regionCapacity frame, w.size_le_of_blockCount_le t.wellFormed frame hcount,
    fun s => ?_, fun k => ?_, fun _ => e.tight⟩
  · rw [t.objects_eq, replaced]
    simp
  · rw [t.aligned_eq]
    refine (AlignmentRecords.start?_erase _ _ _).trans ?_
    simp [eq_comm]

/-- Any number of handles of a client, each freed once. -/
theorem Isolated.freeEach_drops (i : Isolated h live) {steps : List (Option Refusals × Handle)}
    (nodup : (steps.map Prod.snd).Nodup) (held : ∀ p ∈ steps, live p.2 ≠ none)
    (shrinkable : ∀ p ∈ steps, (h.withRefusals p.1).region.Shrinkable) :
    ∃ h', h.freeEach? steps = some h' ∧ h'.WellFormed ∧ Drops h h' (steps.map Prod.snd) := by
  induction steps generalizing h live with
  | nil => exact ⟨h, rfl, i.wellFormed, .refl h⟩
  | cons p rest ih =>
    obtain ⟨refusals, handle⟩ := p
    obtain ⟨hnew, nodup⟩ := List.nodup_cons.1 nodup
    have hs := (shrinkable _ List.mem_cons_self).shrinks
    obtain ⟨h₁, ran, i₁, d₁⟩ :=
      (i.withRefusals refusals).free_drops (held _ List.mem_cons_self) hs
    have d₁ : Drops h h₁ [handle] := d₁.of_withRefusals
    obtain ⟨h', ran', w', d'⟩ := ih i₁ nodup
      (fun q hq => by
        rw [replaced_of_ne]
        · exact held q (List.mem_cons_of_mem _ hq)
        · rintro rfl
          have hmem : q.2 ∈ rest.map Prod.snd := List.mem_map_of_mem hq
          exact hnew hmem)
      fun q hq => (shrinkable q (List.mem_cons_of_mem _ hq)).of_size_le d₁.size_le
        d₁.regionCapacity_eq rfl
    refine ⟨h', ?_, w', d₁.cons d' hnew⟩
    rw [freeEach?, ran]
    exact ran'

namespace Drops

/-- What is left depends on the set of handles alone. -/
theorem same (d₁ : Drops h h₁ handles) (d₂ : Drops h h₂ handles') (w₁ : h₁.WellFormed)
    (w₂ : h₂.WellFormed) (hmem : ∀ k, k ∈ handles' ↔ k ∈ handles) (hne : handles ≠ [])
    (hne' : handles' ≠ []) :
    SameReadings h₁ h₂ ∧ ∀ block, h₂.table.bare? block = h₁.table.bare? block := by
  have same : SameObjects h₁ h₂ := by
    refine ⟨w₁, w₂, d₂.blockLog2_eq.trans d₁.blockLog2_eq.symm, fun s => ?_⟩
    rw [d₁.objects, d₂.objects]
    simp only [List.mem_map, hmem]
  have haligned : h₂.aligned = h₁.aligned := by
    have hstarts : h₂.aligned.starts = h₁.aligned.starts := OrderedMap.ext_find? fun k => by
      have hk := d₂.records k
      simp only [hmem, ← d₁.records] at hk
      exact hk
    have hcapacity := d₂.recordCapacity_eq.trans d₁.recordCapacity_eq.symm
    cases ha : h₂.aligned
    cases hb : h₁.aligned
    rw [ha, hb] at hstarts hcapacity
    cases hstarts
    cases hcapacity
    rfl
  have hcount := same.blockCount_eq (d₁.tight (.inl hne)) (d₂.tight (.inl hne'))
    (d₂.floor_eq.trans d₁.floor_eq.symm)
  obtain ⟨runs, tiled, tiled'⟩ := same.exists_runs hcount
  exact ⟨same.sameReadings hcount haligned (.of_eq (d₂.names_eq.trans d₁.names_eq.symm)),
    tiled.bare?_of_runs tiled'⟩

end Drops

/-! ## Nothing is left -/

/-- No block is in use, nothing is kept of any fragment or record, and the blocks up to the floor are
one free run. -/
structure Drained (h : Heap) (floor : Nat) : Prop where
  unused : ∀ block, h.table.inUse? block = none
  busy : h.busy = .empty
  records : h.aligned.starts = .empty
  lists : ∀ log2, h.listHead log2 = none
  blockCount_eq : h.blockCount = floor
  freeRuns : h.table.freeRuns? = some (if floor = 0 then [] else [(0, floor)])

/-- A tight heap without objects. -/
theorem WellFormed.drained (w : h.WellFormed) (tight : h.Tight) (hnone : ∀ s, h.objectAt s = none)
    (hrecords : ∀ k, h.aligned.start? k = none) : Drained h h.floor := by
  have unused (block : Nat) : h.table.inUse? block = none :=
    Decidable.byContradiction fun hu => by
      obtain ⟨s, l, hs, -⟩ := w.exists_objectAt hu
      rw [hnone] at hs
      cases hs
  have uncut (block : Nat) : h.cutLog2? block = none := by
    refine Option.eq_none_iff_forall_not_mem.2 fun log2 hc => ?_
    obtain ⟨-, s, -, hs⟩ := w.cutLog2?_eq_some_iff.1 hc
    rw [hnone] at hs
    cases hs
  have hused : h.table.usedBlocks = 0 :=
    Nat.le_zero.1 (BlockTable.usedBlocks_le_iff.2 fun block _ => unused block)
  have hcount : h.blockCount = h.floor := by
    rw [tight.blockCount_eq w, hused, Nat.max_zero]
  refine ⟨unused, ?_, OrderedMap.ext_find? hrecords, fun log2 => ?_, hcount, ?_⟩
  · refine OrderedMap.ext_find? fun block => Option.eq_none_iff_forall_not_mem.2 fun m hm => ?_
    obtain ⟨log2, hc⟩ := w.maps block m hm
    rw [uncut] at hc
    cases hc
  · refine w.lists.threads.head_eq_none_iff.2 fun x hx => ?_
    rw [freeFragment, uncut] at hx
    cases hx
  · obtain ⟨runs, hl⟩ := w.laidOut
    have hsize : h.table.size = h.floor := hcount
    rw [hl.toTiled.freeRuns?_eq_starts, hl.runs_of_unused hused, hsize]
    split <;> rfl

/-- When the last handle of a client is freed, nothing is left. -/
theorem Drops.drained (d : Drops h h' handles) (i : Isolated h live) (w' : h'.WellFormed)
    (hne : handles ≠ []) (all : ∀ k, live k ≠ none → k ∈ handles) : Drained h' h.floor := by
  rw [← d.floor_eq]
  refine w'.drained (d.tight (.inl hne)) (fun s => ?_) fun k => ?_
  · rw [d.objects]
    split
    · rfl
    · rename_i hs
      refine Decidable.byContradiction fun hobj => hs ?_
      obtain ⟨k, hk, hstart⟩ := i.tracks.complete s hobj
      exact List.mem_map.2 ⟨k, all k hk, hstart⟩
  · rw [d.records]
    split
    · rfl
    · rename_i hk
      refine i.tracks.recorded k (Decidable.byContradiction fun hlive => hk (all k hlive))

/-! ## Orders of freeing -/

/-- A client may free any of its handles in any order. Each of them is freed, and all orders leave
the same figures of use, size of the arena, free runs, entries but for list links, busy maps, records
and names. When it frees all its handles, nothing is left but free blocks up to the floor. -/
theorem frees_commute (c : Custody host g region h book saved)
    {steps steps' : List (Option Refusals × Handle)} (hne : steps ≠ [])
    (nodup : (steps.map Prod.snd).Nodup) (held : ∀ p ∈ steps, book.live p.2 ≠ none)
    (perm : (steps'.map Prod.snd).Perm (steps.map Prod.snd))
    (shrinkable : ∀ p ∈ steps ++ steps', (h.withRefusals p.1).region.Shrinkable) :
    ∃ h₁ h₂, h.freeEach? steps = some h₁ ∧ h.freeEach? steps' = some h₂ ∧ SameReadings h₁ h₂ ∧
      (∀ block, h₂.table.bare? block = h₁.table.bare? block) ∧
      ((∀ k, book.live k ≠ none → k ∈ steps.map Prod.snd) → Drained h₁ h.floor ∧ Drained h₂ h.floor) := by
  have i := c.guarded.2.1.toIsolated
  have held' : ∀ p ∈ steps', book.live p.2 ≠ none := fun p hp => by
    obtain ⟨q, hq, heq⟩ := List.mem_map.1 (perm.mem_iff.1 (List.mem_map_of_mem hp))
    rw [← heq]
    exact held q hq
  have hne₁ : steps.map Prod.snd ≠ [] := fun h0 => hne (List.map_eq_nil_iff.1 h0)
  have hne₂ : steps'.map Prod.snd ≠ [] := fun h0 => hne₁ (List.Perm.nil_eq (h0 ▸ perm)).symm
  obtain ⟨h₁, ran₁, w₁, d₁⟩ := i.freeEach_drops nodup held fun p hp =>
    shrinkable p (List.mem_append_left _ hp)
  obtain ⟨h₂, ran₂, w₂, d₂⟩ := i.freeEach_drops (perm.nodup_iff.2 nodup) held' fun p hp =>
    shrinkable p (List.mem_append_right _ hp)
  obtain ⟨same, bare⟩ := d₁.same d₂ w₁ w₂ (fun _ => perm.mem_iff) hne₁ hne₂
  exact ⟨h₁, h₂, ran₁, ran₂, same, bare, fun all => ⟨d₁.drained i w₁ hne₁ all,
    d₂.drained i w₂ hne₂ fun k hk => perm.mem_iff.2 (all k hk)⟩⟩

/-- A run that was recorded for a boundary and the run in front of it, freed either way. -/
theorem frees_commute_small : ∃ h book saved h₁ h₂,
    Custody .ample widerGeometry smallRegion h book saved ∧
    h.freeEach? [(none, 512), (none, 0)] = some h₁ ∧
      h.freeEach? [(none, 0), (none, 512)] = some h₂ ∧ SameReadings h₁ h₂ ∧
        h₁.table.freeRuns? = some [(0, 2)] := by
  have run : (onBoundary?.bind fun h => if h.floor = 2 ∧ h.region.size ≤ h.region.capacity ∧
      (h.objectAt 0).isSome = true ∧ h.aligned.start? 512 = some 256 then some h else none).isSome =
        true := by
    decide +kernel
  obtain ⟨h', run⟩ := Option.isSome_iff_exists.1 run
  obtain ⟨h, hb, run⟩ := Option.bind_eq_some_iff.1 run
  obtain ⟨⟨hfloor, hcap, hobj, hrecord⟩, -⟩ := Option.ite_none_right_eq_some.1 run
  obtain ⟨h₀, _, hc, s, h512, -, -, hall⟩ := serves_onBoundary? hb
  obtain ⟨book, saved, c, rfl⟩ := s.custody hc
  have h0 : book.live 0 ≠ none := by
    -- only a handle leads to the object there, and it is not the one with the record
    obtain ⟨k, hk, hstart⟩ := c.guarded.2.1.tracks.complete 0 (Option.isSome_iff_ne_none.1 hobj)
    rcases List.mem_cons.1 (hall k hk) with rfl | h0
    · rw [startOf, hrecord] at hstart
      cases hstart
    · rw [List.mem_singleton] at h0
      rwa [h0] at hk
  have hlive : book.live 512 ≠ none := by
    rw [h512]
    exact Option.some_ne_none 512
  have shrinkable : (h.withRefusals none).region.Shrinkable :=
    Region.Yields.shrinkable ⟨hcap, fun _ _ _ => rfl⟩
  have perm : (([(none, 0), (none, 512)] : List (Option Refusals × Handle)).map Prod.snd).Perm
      (([(none, 512), (none, 0)] : List (Option Refusals × Handle)).map Prod.snd) :=
    List.Perm.swap 512 0 []
  obtain ⟨h₁, h₂, ran₁, ran₂, same, -, drained⟩ := frees_commute c (List.cons_ne_nil _ _)
    (by decide) (by simp [hlive, h0]) perm (by simp [shrinkable])
  have freeRuns := (drained hall).1.freeRuns
  rw [hfloor] at freeRuns
  exact ⟨h, book, saved, h₁, h₂, c, ran₁, ran₂, same, freeRuns⟩

end RegionHeap.Heap
