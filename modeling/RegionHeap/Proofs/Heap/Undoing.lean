import RegionHeap.Proofs.Heap.Handles
import RegionHeap.Proofs.Heap.Tending

/-!
Allocating and freeing undo each other. However an object was placed, in a listed fragment, a block
that was cut for it, a free run or behind a first try on a boundary, freeing it right away leaves the
objects of before, and these say what the busy maps and the blocks in use are (`SameObjects`). Where
the arena was tight it has its old size again, so that nothing tells the two heaps apart but the
bytes of the arena (`undo_restores`).
-/
namespace RegionHeap

open HeapM Heap

namespace Operation

/-- What gives back the object that was answered. -/
def undo? (handle : Handle) : Operation → Option Operation
  | allocate _ | allocateZeroed .. | allocateAligned .. | allocatePageAligned _ _ => some (free handle)
  | allocateNamed name _ | allocateZeroedNamed name .. | allocateAlignedNamed name .. =>
    some (freeNamed name)
  | _ => none

theorem allocates_of_undo? {op undo : Operation} {handle : Handle}
    (hundo : op.undo? handle = some undo) : op.allocates = true := by
  cases op <;> first | rfl | cases hundo

end Operation

namespace Heap

variable {h h₁ h₂ : Heap} {handle : Nat} {live : Account}

/-! ## The object that was added -/

/-- The second heap has one object more, and a record of it unless its handle is where it starts. -/
structure Adds (h h₁ : Heap) (handle : Nat) : Prop where
  wellFormed : h₁.WellFormed
  blockLog2_eq : h₁.blockLog2 = h.blockLog2
  object : ∃ start length, h.objectAt start = none ∧ start ≤ handle ∧ handle < start + length ∧
    h₁.objectAt = replaced h.objectAt start (some length) ∧
    h₁.aligned = recorded h.aligned handle start

theorem AllocatedOn.adds {alignment size : Nat} (a : AllocatedOn alignment h h₁ handle size) :
    Adds h h₁ handle := by
  obtain ⟨-, start, length, hfresh, hle, hfit, t⟩ := a
  exact ⟨t.wellFormed, congrArg Frame.blockLog2 t.frame_eq, start, length, hfresh, hle, by omega,
    funext t.objects_eq, t.aligned_eq⟩

theorem Allocated.adds {size : Nat} (a : Allocated h h₁ handle size) : Adds h h₁ handle := by
  obtain ⟨hfresh, length, -, t⟩ := a
  have hpos := (t.wellFormed.object_bounds ((t.objects_eq handle).trans (replaced_self _ _ _))).1
  refine ⟨t.wellFormed, blockLog2_of_frame t.frame_eq, handle, length, hfresh, Nat.le_refl _,
    Nat.lt_add_of_pos_right hpos, funext t.objects_eq, ?_⟩
  rw [recorded, if_pos rfl]
  exact t.aligned_eq

/-- What is to be given back: an object, with its name if it was given one. -/
structure Obtained (h h₁ : Heap) (handle : Nat) (undo : Operation) : Prop where
  adds : Adds h h₁ handle
  naming : undo = .free handle ∧ h₁.names = h.names ∨ ∃ name, undo = .freeNamed name ∧
    handle < Size.limit ∧ NameTable.register name handle h.names = .ok () h₁.names

theorem Adds.unnamed (a : Adds h h₁ handle) (n : Nameable h h₁ handle) :
    Obtained h h₁ handle (.free handle) := ⟨a, .inl ⟨rfl, n.names_eq⟩⟩

theorem Adds.named {names : NameTable} {name : String} (a : Adds h h₁ handle)
    (n : Nameable h h₁ handle) (registered : NameTable.register name handle h.names = .ok () names)
    (r : Renames h₁ h₂ names) : Obtained h h₂ handle (.freeNamed name) := by
  obtain ⟨rfl, -, w⟩ := r
  exact ⟨⟨w, a.blockLog2_eq, a.object⟩, .inr ⟨name, rfl, n.handle_lt, registered⟩⟩

theorem Effect.obtained {op undo : Operation} (e : Effect h h₁ op (.handle handle))
    (hundo : op.undo? handle = some undo) : Obtained h h₁ handle undo := by
  cases e with
  | allocate a => cases hundo; exact a.adds.unnamed a.nameable
  | allocateZeroed a _ => cases hundo; exact a.adds.unnamed a.nameable
  | allocateAligned a => cases hundo; exact a.adds.unnamed a.nameable
  | allocatePageAligned a => cases hundo; exact a.adds.unnamed a.nameable
  | allocateNamed a registered r => cases hundo; exact a.adds.named a.nameable registered r
  | allocateZeroedNamed a _ registered r => cases hundo; exact a.adds.named a.nameable registered r
  | allocateAlignedNamed a registered r => cases hundo; exact a.adds.named a.nameable registered r
  | _ => cases hundo

/-- What the region refuses before and after is no part of it. -/
theorem Obtained.withRefusals {undo : Operation} {refusals : Option Refusals}
    (o : Obtained (h.withRefusals refusals) h₁ handle undo) (refusals' : Option Refusals) :
    Obtained h (h₁.withRefusals refusals') handle undo :=
  ⟨⟨o.adds.wellFormed.withRefusals refusals', o.adds.blockLog2_eq, o.adds.object⟩, o.naming⟩

/-! ## Giving it back -/

/-- A record that was made for a new handle is erased without a trace. -/
theorem erase_recorded {r : AlignmentRecords} (hr : r.start? handle = none) (start : Nat) :
    (recorded r handle start).erase handle = r := by
  rw [recorded]
  by_cases heq : handle = start
  · rw [if_pos heq]
    exact AlignmentRecords.erase_of_none hr
  · rw [if_neg heq, AlignmentRecords.erase]
    refine congrArg (fun starts => (⟨starts, r.capacity⟩ : AlignmentRecords))
      (OrderedMap.ext_find? fun k => ?_)
    rw [OrderedMap.find?_erase, OrderedMap.find?_insert]
    by_cases hk : handle = k
    · rw [if_pos hk, ← hk]
      exact hr.symm
    · rw [if_neg hk, if_neg hk]

/-- The handle leads to the object that was added. Freeing that leaves the objects and the records of
before. -/
theorem Adds.undone (a : Adds h h₁ handle) (i : Isolated h live) :
    h₁.objectAt (h₁.allocationOf handle) ≠ none ∧
      ∀ h₂, Turns (h₁.forgetRecord handle) h₂
        (replaced h₁.objectAt (h₁.allocationOf handle) none) →
          SameObjects h h₂ ∧ h₂.aligned = h.aligned := by
  obtain ⟨w₁, hlog, start, length, hfresh, hle, hlt, hobjects, haligned⟩ := a
  have hd := w₁.disjoint
  rw [hobjects] at hd
  -- no handle of the client leads to what was not there, so there is no old record in the way
  have hnew : live handle = none :=
    (i.tracks.insert hfresh hd hle hlt (show handle + 0 ≤ _ from Nat.le_of_lt hlt)).1
  have hnone : h.aligned.start? handle = none := i.tracks.recorded handle hnew
  have hstart : h₁.allocationOf handle = start := by
    rw [allocationOf, haligned, start?_recorded]
    by_cases heq : handle = start
    · rw [if_neg fun hne => hne.2 heq, hnone, heq]
      rfl
    · rw [if_pos ⟨rfl, heq⟩]
      rfl
  rw [hstart, hobjects, replaced_self, replaced_back hfresh]
  refine ⟨Option.some_ne_none length, fun h₂ t => ⟨⟨i.wellFormed, t.wellFormed, ?_, t.objects_eq⟩, ?_⟩⟩
  · exact (congrArg Frame.blockLog2 t.frame_eq).trans hlog
  · rw [t.aligned_eq, forgetRecord, haligned]
    exact erase_recorded hnone start

/-- What is left when the object has been given back. -/
structure GivenBack (h h₁ h₂ : Heap) : Prop extends SameObjects h h₂ where
  aligned_eq : h₂.aligned = h.aligned
  tight : EndsTight h₁ h₂

theorem Adds.free_ends (a : Adds h h₁ handle) (i : Isolated h live) (hs : h₁.region.Shrinks) :
    Ends True (free handle) h₁ (fun _ h₂ => GivenBack h h₁ h₂ ∧ h₂.names = h₁.names)
      fun _ _ => False := by
  obtain ⟨hobj, hback⟩ := a.undone i
  refine ((Heap.free_ends a.wellFormed handle).both (free_endsTight a.wellFormed hs handle)).mono
    ?_ fun _ _ hE => hobj hE.1.2
  rintro - h₂ ⟨⟨-, t⟩, e⟩
  obtain ⟨same, haligned⟩ := hback h₂ t
  exact ⟨⟨same, haligned, e⟩, t.names_eq⟩

theorem Adds.freeNamed_ends (a : Adds h h₁ handle) (i : Isolated h live)
    (hs : h₁.region.Shrinks) {name : String} (hf : h₁.names.find? name = some handle) :
    Ends True (freeNamed name) h₁ (fun _ h₂ => GivenBack h h₁ h₂ ∧
      NameTable.unregister name h₁.names = .ok handle h₂.names) fun _ _ => False := by
  refine Ends.bind' ((lookup_ends a.wellFormed name).mono ?_ fun _ _ hE => ?_)
  · rintro found h' ⟨rfl, hfound⟩
    rw [hf, Option.some.injEq] at hfound
    subst hfound
    refine Ends.bind' ((a.free_ends i hs).mono ?_ fun _ _ hE => hE)
    rintro - h₂ ⟨b, hnames⟩
    -- freeing leaves the name, which is then unregistered
    obtain ⟨names, hun⟩ := NameTable.unregister_of_find? hf
    refine Ends.discard' ((unregister_ends b.wellFormed' name).mono ?_ fun _ _ hE => ?_)
    · rintro offset h₃ ⟨names', hun', -, rfl, w₃⟩
      rw [hnames, hun] at hun'
      cases hun'
      refine ⟨⟨⟨b.wellFormed, w₃, b.blockLog2_eq, b.objectAt_eq⟩, b.aligned_eq, ?_⟩, hun⟩
      exact ⟨⟨b.tight.floor_eq, b.tight.within⟩, b.tight.tight⟩
    · rw [hnames, hun] at hE
      cases hE.2
  · rw [hf] at hE
    cases hE.2.1

/-! ## Nothing has changed -/

/-- All that a client is told of a heap, but for the bytes of its objects: the figures of use, the
free runs, the size of the arena, the busy maps, the alignment records and the names. -/
structure SameReadings (h h' : Heap) : Prop where
  usage_eq : h'.usage? = h.usage?
  freeRuns_eq : h'.table.freeRuns? = h.table.freeRuns?
  blockCount_eq : h'.blockCount = h.blockCount
  busy_eq : h'.busy = h.busy
  aligned_eq : h'.aligned = h.aligned
  names : h.names.SameNames h'.names

/-- Two tight arenas with the same objects on the same floor have one size. -/
theorem SameObjects.blockCount_eq (s : SameObjects h h₂) (tight : h.Tight) (tight' : h₂.Tight)
    (hfloor : h₂.floor = h.floor) : h₂.blockCount = h.blockCount := by
  rw [tight.blockCount_eq s.wellFormed, tight'.blockCount_eq s.wellFormed', s.usedBlocks_eq, hfloor]

theorem SameObjects.sameReadings (s : SameObjects h h₂) (hcount : h₂.blockCount = h.blockCount)
    (haligned : h₂.aligned = h.aligned) (names : h.names.SameNames h₂.names) :
    SameReadings h h₂ :=
  ⟨s.usage?_eq hcount names.size_eq, s.freeRuns?_eq hcount, hcount, s.busy_eq,
    haligned, names⟩

theorem GivenBack.sameReadings (b : GivenBack h h₁ h₂) (hfloor : h₁.floor = h.floor)
    (tight : h.Tight) (names : h.names.SameNames h₂.names) : SameReadings h h₂ :=
  b.toSameObjects.sameReadings
    (b.blockCount_eq tight b.tight.tight (b.tight.floor_eq.trans hfloor)) b.aligned_eq names

theorem Obtained.undo_ends {undo : Operation} (o : Obtained h h₁ handle undo) (i : Isolated h live)
    (hs : h₁.region.Shrinks) (hfloor : h₁.floor = h.floor) (tight : h.Tight) :
    Ends True undo.run h₁ (fun answer h₂ => answer = .done ∧ SameReadings h h₂)
      fun _ _ => False := by
  obtain ⟨rfl, hnames⟩ | ⟨name, rfl, -, registered⟩ := o.naming
  · refine Ends.map' ((o.adds.free_ends i hs).mono ?_ fun _ _ hE => hE)
    rintro - h₂ ⟨b, hnames₂⟩
    have hnames : h₂.names = h.names := hnames₂.trans hnames
    exact ⟨rfl, b.sameReadings hfloor tight (.of_eq hnames)⟩
  · have tidy := i.wellFormed.names.toTidy
    have hf := tidy.find?_register registered
    refine Ends.map' ((o.adds.freeNamed_ends i hs hf).mono ?_ fun _ _ hE => hE)
    rintro - h₂ ⟨b, unregistered⟩
    exact ⟨rfl, b.sameReadings hfloor tight
      (tidy.sameNames_of_unregister registered unregistered)⟩

variable {host : Host} {g : Geometry} {region : Region}

/-- What was allocated for a client that gives up only handles that it holds can be given back right
away, and then the heap is what it was, if its arena was tight and the region grants smaller
sizes. -/
theorem undo_restores (a : Accounts host g region h live) (tight : h.Tight) {op undo : Operation}
    {refusals refusals' : Option Refusals} (hundo : op.undo? handle = some undo)
    (ran : op.run (h.withRefusals refusals) = .ok (.handle handle) h₁)
    (shrinks : (h₁.withRefusals refusals').region.Shrinks) :
    ∃ h₂, undo.run (h₁.withRefusals refusals') = .ok .done h₂ ∧ SameReadings h h₂ := by
  obtain ⟨-, i⟩ := a.isolated
  have w := (i.withRefusals refusals).wellFormed
  have obtained := ((op.effects w).of_ok ran).obtained hundo
  have floor := ((op.allocates_staysTight w (Operation.allocates_of_undo? hundo)).of_ok ran).floor_eq
  obtain ⟨answer, h₂, ran₂, rfl, same⟩ :=
    ((obtained.withRefusals refusals').undo_ends i shrinks floor tight).exists_ok fun _ _ hE => hE
  exact ⟨h₂, ran₂, same⟩

/-- A named object on a boundary, for which a first try is given back and the arena grows. -/
theorem undo_restores_small : ∃ h live h₁ h₂, Accounts .ample widerGeometry smallRegion h live ∧
    (Operation.allocateAlignedNamed "table" 512 512).run h = .ok (.handle 512) h₁ ∧
      h₁.aligned.start? 512 = some 256 ∧ h.blockCount < h₁.blockCount ∧
        (Operation.freeNamed "table").run h₁ = .ok .done h₂ ∧ SameReadings h h₂ := by
  have run : ((create .ample widerGeometry smallRegion).toOption.bind fun h₀ =>
      (h₀.answering? (.allocate 256) 0).bind fun h =>
        (h.answering? (.allocateAlignedNamed "table" 512 512) 512).bind fun h₁ =>
          if h.blockCount ≤ max h.floor h.table.usedBlocks ∧ h₁.aligned.start? 512 = some 256 ∧
            h.blockCount < h₁.blockCount ∧ h₁.region.refusals.isNone = true ∧
              h₁.region.size ≤ h₁.region.capacity then some h₁ else none).isSome = true := by
    decide +kernel
  obtain ⟨h₁', run⟩ := Option.isSome_iff_exists.1 run
  obtain ⟨h₀, hc, run⟩ := Option.bind_eq_some_iff.1 run
  obtain ⟨h, run₀, run⟩ := Option.bind_eq_some_iff.1 run
  obtain ⟨h₁, run₁, run⟩ := Option.bind_eq_some_iff.1 run
  obtain ⟨⟨tight, hstart, hgrown, href, hcap⟩, -⟩ := Option.ite_none_right_eq_some.1 run
  have hc := toOption_eq_some_iff.1 hc
  have a := (Serves.start.answered run₀ rfl).accounts hc
  have ran : (Operation.allocateAlignedNamed "table" 512 512).run
      (h.withRefusals h.region.refusals) = .ok (.handle 512) h₁ := answering?_eq_some_iff.1 run₁
  have shrinks : (h₁.withRefusals h₁.region.refusals).region.Shrinks :=
    Region.shrinks_of_capacity (Option.isNone_iff_eq_none.1 href) hcap
  obtain ⟨h₂, ran₂, same⟩ := undo_restores a tight rfl ran shrinks
  exact ⟨h, _, h₁, h₂, a, ran, hstart, hgrown, ran₂, same⟩

end Heap

end RegionHeap
