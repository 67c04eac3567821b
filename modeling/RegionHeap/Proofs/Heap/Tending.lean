import RegionHeap.Proofs.Heap.ArenaEnd
import RegionHeap.Proofs.Heap.Histories
import RegionHeap.Proofs.Heap.Isolation

/-!
The end of the arena over a history. On a region that never refuses a smaller size, a heap that was
created keeps its arena tight through all operations but two: growing adds free blocks on request,
and an allocation on a boundary that is refused may leave the blocks of its first try. So the arena
ends with the last block in use, or at the floor, which is the least of the first size and what was
left whenever blocks were handed back on request (`arena_end`).
-/
namespace RegionHeap

open Heap HeapM

/-! ## Single operations -/

namespace Operation

/-- Whether the operation moves the end of the arena on request. -/
def setsEnd : Operation → Bool
  | grow _ | shrink _ | trim => true
  | _ => false

/-- Whether the operation allocates on a boundary. -/
def isOnBoundary : Operation → Bool
  | allocateAligned .. | allocatePageAligned _ _ | allocateAlignedNamed .. => true
  | _ => false

/-- Whether the operation asks for an object that was not there before. -/
def allocates : Operation → Bool
  | allocate _ | allocateZeroed .. | allocateNamed .. | allocateZeroedNamed .. => true
  | op => op.isOnBoundary

/-- Whether the operation has no use for blocks, free or not. -/
def leavesBlocks : Operation → Bool
  | register .. | lookup _ | unregister _ | resolve _ | usableFrom _ | read .. | write .. | fill ..
  | sync | names | usage | defects | freeRuns => true
  | _ => false

end Operation

namespace Heap

variable {h h' : Heap} {E : HeapError → Heap → Prop}

theorem allocateAs_staysTight {allocation : HeapM Handle} (name : String)
    (ends : Ends False allocation h (fun _ h' => StaysTight h h') E)
    (hE : ∀ e h', StaysTight h h' → E e h') :
    Ends False (allocateAs name allocation) h (fun _ h' => StaysTight h h') E := by
  have same : StaysTight h h := StaysTight.refl h
  refine Ends.bind' (Ends.get' (Ends.bind' (Ends.ofExcept' (fun _ _ => ?_) fun e _ => hE e h same)))
  refine Ends.ite' (fun _ => Ends.refuse' (hE _ h same)) fun _ => Ends.ite'
    (fun _ => Ends.refuse' (hE _ h same)) fun _ => ?_
  refine Ends.bind' (ends.mono (fun handle h₁ s => ?_) fun _ _ hE => hE)
  have kept (names : NameTable) : StaysTight h { h₁ with names } :=
    ⟨⟨s.floor_eq, s.within⟩, s.tight⟩
  exact Ends.bind' (Ends.onNames_of (fun _ names _ => Ends.pure' (kept names))
    (fun e names _ => hE e _ (kept names)) fun _ _ => not_false)

theorem freeNamed_endsTight (w : h.WellFormed) (hs : h.region.Shrinks) (name : String) :
    Ends False (freeNamed name) h (fun _ h' => EndsTight h h') fun _ h' => StaysTight h h' := by
  refine Ends.bind' ((lookup_ends w name).mono ?_ fun _ _ hE => StaysTight.of_eq hE.1)
  rintro handle h' ⟨rfl, -⟩
  refine Ends.bind' ((free_endsTight w hs handle).mono (fun _ h₁ e => ?_) fun _ _ s => s)
  have kept (names : NameTable) : EndsTight h' { h₁ with names } :=
    ⟨⟨e.floor_eq, e.within⟩, e.tight⟩
  exact Ends.discard' (Ends.onNames_of (fun _ names _ => kept names)
    (fun _ names _ => (kept names).staysTight) fun _ _ => not_false)

theorem Renames.staysTight {names : NameTable} (r : Renames h h' names) : StaysTight h h' := by
  rw [r.eq]
  exact ⟨⟨rfl, id⟩, id⟩

theorem Saved.staysTight (s : Saved h h') : StaysTight h h' := by
  have hsize := s.region.size_eq
  have hcap := s.region.capacity_eq
  rw [s.eq]
  exact ⟨⟨rfl, fun hle => by show h'.region.size ≤ h'.region.capacity; rwa [hsize, hcap]⟩, id⟩

theorem Effect.staysTight {op : Operation} {answer : Answer} (e : Effect h h' op answer)
    (w : h.WellFormed) (hop : op.leavesBlocks = true) : StaysTight h h' := by
  cases e with
  | register _ r => exact r.staysTight
  | unregister _ r => exact r.staysTight
  | write _ _ wr _ => exact wr.staysTight w
  | fill _ _ wr _ => exact wr.staysTight w
  | sync s => exact s.staysTight
  | lookup same _ => exact .of_eq same
  | resolve same => exact .of_eq same
  | usableFrom same _ => exact .of_eq same
  | read same => exact .of_eq same
  | names same => exact .of_eq same
  | usage same _ => exact .of_eq same
  | defects same => exact .of_eq same
  | freeRuns same _ => exact .of_eq same
  | _ => cases hop

theorem Refusal.staysTight {op : Operation} (r : Refusal h h' op) (hop : op.leavesBlocks = true) :
    StaysTight h h' := by
  cases r with
  | unchanged same => exact .of_eq same
  | sync s => exact s.staysTight
  | _ => cases hop

/-- What is handed back on request is gone from a tight arena as well. -/
theorem Shrunk.tight {count : Nat} (s : Shrunk h h' count) (w : h.WellFormed)
    (t : Turns h h' h.objectAt) (ht : h.Tight) : h'.Tight := by
  have hused := (t.sameObjects w fun _ => rfl).usedBlocks_eq
  have hfloor := w.floor_le
  obtain ⟨hle, hcount, hmin⟩ := s
  unfold Tight at *
  omega

end Heap

/-- Allocating keeps the arena tight, unless a request for an object on a boundary is refused. The
region may refuse any size for that. -/
theorem Operation.allocates_staysTight {h : Heap} (w : h.WellFormed) (op : Operation)
    (hop : op.allocates = true) :
    Ends False op.run h (fun _ h' => StaysTight h h')
      fun _ h' => op.isOnBoundary = false → StaysTight h h' := by
  cases op with
  | allocate size => exact Ends.map' ((allocate_tightly w size).mono (fun _ _ s => s) fun _ _ s _ => s)
  | allocateZeroed count size =>
    exact Ends.map' ((allocateZeroed_tightly w count size).mono (fun _ _ s => s) fun _ _ s _ => s)
  | allocateAligned alignment size =>
    exact Ends.map' ((allocateAligned_tightly w alignment size).mono (fun _ _ s => s)
      fun _ _ _ hne => nomatch hne)
  | allocatePageAligned host size =>
    exact Ends.map' ((allocateAligned_tightly w host.page size).mono (fun _ _ s => s)
      fun _ _ _ hne => nomatch hne)
  | allocateNamed name size =>
    exact Ends.map' ((allocateAs_staysTight name (allocate_tightly w size) fun _ _ s => s).mono
      (fun _ _ s => s) fun _ _ s _ => s)
  | allocateZeroedNamed name count size =>
    exact Ends.map' ((allocateAs_staysTight name (allocateZeroed_tightly w count size)
      fun _ _ s => s).mono (fun _ _ s => s) fun _ _ s _ => s)
  | allocateAlignedNamed name alignment size =>
    exact Ends.map' ((allocateAs_staysTight name (allocateAligned_tightly w alignment size)
      fun _ _ _ => trivial).mono (fun _ _ s => s) fun _ _ _ hne => nomatch hne)
  | _ => cases hop

/-- An operation that does not move the end of the arena on request keeps it tight, unless it is
refused an allocation on a boundary. -/
theorem Operation.staysTight {h : Heap} (w : h.WellFormed) (y : h.region.Yields) (op : Operation)
    (hop : op.setsEnd = false) :
    Ends False op.run h (fun _ h' => StaysTight h h')
      fun _ h' => op.isOnBoundary = false → StaysTight h h' := by
  cases hleaves : op.leavesBlocks with
  | true =>
    exact (op.effects w).or_trap.mono (fun _ _ e => e.staysTight w hleaves)
      fun _ _ hE _ => hE.1.staysTight hleaves
  | false =>
    cases hallocates : op.allocates with
    | true => exact op.allocates_staysTight w hallocates
    | false =>
      cases op with
      | reallocate handle size =>
        exact Ends.map' ((reallocate_tightly w y handle size).mono (fun _ _ s => s) fun _ _ s _ => s)
      | free handle =>
        exact Ends.map' ((free_endsTight w y.shrinks handle).mono (fun _ _ e => e.staysTight)
          fun _ _ s _ => s)
      | freeNamed name =>
        exact Ends.map' ((freeNamed_endsTight w y.shrinks name).mono (fun _ _ e => e.staysTight)
          fun _ _ s _ => s)
      | grow _ => cases hop
      | shrink _ => cases hop
      | trim => cases hop
      | allocate _ => cases hallocates
      | allocateZeroed _ _ => cases hallocates
      | allocateAligned _ _ => cases hallocates
      | allocatePageAligned _ _ => cases hallocates
      | allocateNamed _ _ => cases hallocates
      | allocateZeroedNamed _ _ _ => cases hallocates
      | allocateAlignedNamed _ _ _ => cases hallocates
      | _ => cases hleaves

/-! ## Histories -/

/-- The floor after an operation that was granted. Handing back no blocks leaves it. -/
def Operation.floorAfter (least : Nat) (h' : Heap) : Operation → Answer → Nat
  | shrink count, _ => if count = 0 then least else min least h'.blockCount
  | trim, .count n => if n = 0 then least else min least h'.blockCount
  | _, _ => least

namespace Heap

variable {host : Host} {g : Geometry} {region : Region} {h h' : Heap} {least : Nat}

/-- What a created heap becomes, and its floor, on a region that may refuse other requests before
each operation, but never a smaller size. Operations have any arguments and may be refused; the
arena is never grown on request, and no allocation on a boundary is refused. -/
inductive Tended (host : Host) (g : Geometry) (region : Region) : Heap → Nat → Prop where
  | created {h : Heap} (hc : create host g region = .ok h) : Tended host g region h g.initialBlocks
  | granted {h h' : Heap} {least : Nat} (refusals : Option Refusals) (op : Operation)
    (answer : Answer) (before : Tended host g region h least) (spared : Refusals.SpareShrinking refusals)
    (notGrow : ∀ count, op ≠ .grow count)
    (ran : op.run (h.withRefusals refusals) = .ok answer h') :
    Tended host g region h' (op.floorAfter least h' answer)
  | refused {h h' : Heap} {least : Nat} (refusals : Option Refusals) (op : Operation)
    (e : HeapError) (before : Tended host g region h least) (spared : Refusals.SpareShrinking refusals)
    (notAligned : op.isOnBoundary = false)
    (ran : op.run (h.withRefusals refusals) = .error (.refused e) h') : Tended host g region h' least

/-- What every step of such a history keeps. -/
structure TightAt (h : Heap) (least : Nat) : Prop where
  wellFormed : h.WellFormed
  within : h.region.size ≤ h.region.capacity
  floor_eq : h.floor = least
  tight : h.Tight

theorem TightAt.withRefusals (k : TightAt h least) (refusals : Option Refusals) :
    TightAt (h.withRefusals refusals) least :=
  ⟨k.wellFormed.withRefusals refusals, k.within, k.floor_eq, k.tight⟩

theorem TightAt.yields (k : TightAt h least) (spared : Refusals.SpareShrinking h.region.refusals) :
    h.region.Yields := ⟨k.within, spared⟩

theorem TightAt.of_staysTight (k : TightAt h least) (w' : h'.WellFormed) (s : StaysTight h h') :
    TightAt h' least :=
  ⟨w', s.within k.within, s.floor_eq.trans k.floor_eq, s.tight k.tight⟩

theorem TightAt.shrunk {count : Nat} (k : TightAt h least) (t : Turns h h' h.objectAt)
    (s : Shrunk h h' count) : TightAt h' (if count = 0 then least else min least h'.blockCount) where
  wellFormed := t.wellFormed
  within := by
    have hcount := s.count_eq
    exact k.wellFormed.within_of_blockCount_le t.wellFormed t.frame_eq (by omega) k.within
  floor_eq := by
    have hfloor := k.wellFormed.floor_le
    obtain ⟨-, hcount, hmin⟩ := s
    have := k.floor_eq
    split <;> omega
  tight := s.tight k.wellFormed t k.tight

/-- One step of a history. -/
theorem TightAt.run_ends (k : TightAt h least) (spared : Refusals.SpareShrinking h.region.refusals)
    (op : Operation) :
    Ends False op.run h (fun answer h' => (∀ count, op ≠ .grow count) →
        TightAt h' (op.floorAfter least h' answer)) fun _ h' => op.isOnBoundary = false → TightAt h' least := by
  have w := k.wellFormed
  cases hop : op.setsEnd with
  | false =>
    have hfloor (answer : Answer) (h' : Heap) : op.floorAfter least h' answer = least := by
      cases op <;> first | rfl | cases hop
    refine (((op.run_ends w).or_trap).both (op.staysTight w (k.yields spared) hop)).mono ?_ ?_
    · rintro answer h' ⟨c, s⟩ -
      rw [hfloor]
      exact k.of_staysTight c.wellFormed s
    · rintro e h' ⟨c, s⟩ hne
      exact k.of_staysTight c.wellFormed (s hne)
  | true =>
    cases op with
    | grow count =>
      refine Ends.map' ((grow_ends w count).or_trap.mono
        (fun _ _ _ notGrow => absurd rfl (notGrow count)) ?_)
      rintro e h' ⟨rfl, -⟩ -
      exact k
    | shrink count =>
      refine Ends.map' ((shrink_ends w count).mono (fun _ _ ⟨t, s⟩ _ => k.shrunk t s) ?_)
      rintro e h' (⟨rfl, -⟩ | ⟨rfl, -⟩) - <;> exact k
    | trim =>
      refine Ends.map' ((trim_ends w).mono (fun _ _ ⟨t, s⟩ _ => k.shrunk t s) ?_)
      rintro e h' ⟨rfl, -⟩ -
      exact k
    | _ => cases hop

theorem Created.tightAt (c : Created g region h) : TightAt h g.initialBlocks where
  wellFormed := c.wellFormed
  within := c.within
  floor_eq := c.floor
  tight := by
    unfold Tight
    rw [c.blocks, c.floor]
    exact Nat.le_max_left _ _

theorem Tended.tightAt (t : Tended host g region h least) : TightAt h least := by
  induction t with
  | created hc => exact (create_eq_ok hc).tightAt
  | granted refusals op answer _ spared notGrow ran ih =>
    exact ((ih.withRefusals refusals).run_ends spared op).of_ok ran notGrow
  | refused refusals op e _ spared notAligned ran ih =>
    exact ((ih.withRefusals refusals).run_ends spared op).of_refused ran notAligned

/-- The arena ends with the last block in use, or at the floor where that lies behind it. The floor
is the number of blocks that the heap was created with, or the least that was left after blocks were
handed back on request. -/
theorem arena_end (t : Tended host g region h least) :
    h.floor = least ∧ h.blockCount = max least h.table.usedBlocks := by
  have k := t.tightAt
  exact ⟨k.floor_eq, k.floor_eq ▸ k.tight.blockCount_eq k.wellFormed⟩

/-- The heap after an operation that is granted on a region that refuses nothing of itself. -/
def freely? (h : Heap) (op : Operation) : Option Heap := (h.withRefusals none).granting? op

theorem Tended.freely (t : Tended host g region h least) {op : Operation}
    (ran : h.freely? op = some h') (notGrow : ∀ count, op ≠ .grow count) :
    ∃ answer, Tended host g region h' (op.floorAfter least h' answer) := by
  obtain ⟨answer, ran⟩ := granting?_eq_some_iff.1 ran
  exact ⟨answer, .granted none op answer t (fun _ _ _ => rfl) notGrow ran⟩

/-- An allocation on a boundary for which a first try is given back, then freed, a block handed back
on request, and a run for which the arena grows again. -/
theorem arena_end_small : ∃ h, Tended .ample widerGeometry smallRegion h 1 ∧ h.floor = 1 ∧
    h.blockCount = 4 ∧ h.blockCount = max 1 h.table.usedBlocks := by
  have run : ((create .ample widerGeometry smallRegion).toOption.bind fun h =>
      (h.freely? (.allocate 256)).bind fun h => (h.freely? (.allocateAligned 512 512)).bind fun h =>
        (h.freely? (.free 512)).bind fun h => (h.freely? (.shrink 1)).bind fun h =>
          if h.blockCount = 1 then (h.freely? (.allocate 700)).bind fun h =>
            if h.blockCount = 4 then some h else none else none).isSome = true := by
    decide +kernel
  obtain ⟨h, run⟩ := Option.isSome_iff_exists.1 run
  obtain ⟨h₀, hc, run⟩ := Option.bind_eq_some_iff.1 run
  obtain ⟨h₁, run₁, run⟩ := Option.bind_eq_some_iff.1 run
  obtain ⟨h₂, run₂, run⟩ := Option.bind_eq_some_iff.1 run
  obtain ⟨h₃, run₃, run⟩ := Option.bind_eq_some_iff.1 run
  obtain ⟨h₄, run₄, run⟩ := Option.bind_eq_some_iff.1 run
  obtain ⟨hone, run⟩ := Option.ite_none_right_eq_some.1 run
  obtain ⟨h₅, run₅, run⟩ := Option.bind_eq_some_iff.1 run
  obtain ⟨hfour, -⟩ := Option.ite_none_right_eq_some.1 run
  obtain ⟨_, t₁⟩ := (Tended.created (toOption_eq_some_iff.1 hc)).freely run₁ nofun
  obtain ⟨_, t₂⟩ := t₁.freely run₂ nofun
  obtain ⟨_, t₃⟩ := t₂.freely run₃ nofun
  obtain ⟨_, t₄⟩ := t₃.freely run₄ nofun
  obtain ⟨_, t₅⟩ := t₄.freely run₅ nofun
  have t : Tended .ample widerGeometry smallRegion h₅ (min 2 h₄.blockCount) := t₅
  rw [hone] at t
  obtain ⟨hfloor, hcount⟩ := arena_end t
  exact ⟨h₅, t, hfloor, hfour, hcount⟩

end Heap

end RegionHeap
