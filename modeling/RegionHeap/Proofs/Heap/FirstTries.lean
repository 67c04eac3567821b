import RegionHeap.Proofs.Heap.Persistence
import RegionHeap.Proofs.Heap.Undoing

/-!
What a refused allocation on a boundary leaves behind. The objects, their bytes, the records and the
names are always those of before. A first try that missed the boundary is given back, but the blocks
that the arena grew by for it are not: then the heap reads as if it had been asked to grow by them
(`refused_onBoundary`).
-/
namespace RegionHeap

open HeapM Heap

/-- The boundary and the size that an operation asks for. -/
def Operation.onBoundary? : Operation → Option (Nat × Nat)
  | allocateAligned alignment size => some (alignment, size)
  | allocatePageAligned host size => some (host.page, size)
  | allocateAlignedNamed _ alignment size => some (alignment, size)
  | _ => none

namespace Heap

variable {h h' h₁ : Heap} {alignment size count start : Nat}

/-! ## How a request falls back -/

/-- The first try at `size` bytes on a boundary is granted, at `start`. -/
def FirstTry (alignment size : Nat) (h h₁ : Heap) (start : Handle) : Prop :=
  ∃ room, Size.add? (max size 1) (alignment - 1) = some room ∧
    allocate (Size.roundDown room alignment) h = .ok start h₁

/-- A request on a boundary was refused at once, or else with its first try given back. -/
inductive FallsBack (alignment size : Nat) (h h' : Heap) : Prop where
  | atOnce (same : h' = h)
  | givenBack (start : Handle) (h₁ : Heap) (power : Size.isPowerOfTwo alignment = true)
    (tried : FirstTry alignment size h h₁ start) (misses : ¬start % alignment = 0)
    (extent : SameExtent h₁ h')

theorem allocateWithSlack_unchanged (w : h.WellFormed) (hfull : h.aligned.isFull = false)
    (alignment padded : Nat) :
    Ends False (allocateWithSlack alignment padded) h (fun _ _ => True) fun _ h' => h' = h := by
  refine Ends.bind' (Ends.orRefuse' (fun slack _ => ?_) fun _ => rfl)
  refine Ends.bind' ((allocate_ends w slack).or_trap.mono ?_ fun _ _ hE => hE.1)
  rintro start h₁ ⟨-, length, -, t⟩
  refine Ends.bind' (Ends.orTrap_of (fun handle _ => ?_) fun _ => not_false)
  refine Ends.ite' (fun _ => Ends.pure' trivial) fun _ => Ends.bind' (Ends.get' ?_)
  refine Ends.bind' (Ends.ofExcept' (fun _ _ => Ends.bind' (Ends.set' (Ends.pure' trivial)))
    fun e he => ?_)
  -- there is still room for a record
  rw [t.aligned_eq, AlignmentRecords.insert, hfull] at he
  cases he

theorem allocateAligned_fallsBack (w : h.WellFormed) (alignment size : Nat) :
    Ends False (allocateAligned alignment size) h (fun _ _ => True)
      fun _ h' => FallsBack alignment size h h' := by
  refine Ends.ite' (fun _ => Ends.refuse' (.atOnce rfl)) fun hpow => ?_
  refine Ends.bind' (Ends.orRefuse' (fun room hroom => ?_) fun _ => .atOnce rfl)
  refine Ends.bind' ((allocate_ends w _).with_run.or_trap.mono ?_ fun _ _ hE => .atOnce hE.1.1)
  rintro start h₁ ⟨⟨-, length, -, t₁⟩, ran⟩
  refine Ends.ite' (fun _ => Ends.pure' trivial) fun misses => ?_
  have back (h' : Heap) (extent : SameExtent h₁ h') : FallsBack alignment size h h' :=
    .givenBack start h₁ (by simpa using hpow) ⟨room, hroom, ran⟩ misses extent
  refine Ends.bind' (((freeAllocation_ends t₁.wellFormed start).both
    (steady_freeAllocation (R := SameExtent) start h₁)).mono ?_ fun _ h' hE => back h' hE.2)
  rintro - h₂ ⟨⟨-, t₂⟩, s⟩
  refine Ends.bind' (Ends.get' (Ends.ite' (fun _ => Ends.refuse' (back h₂ s)) fun hfull => ?_))
  -- nothing is left of a second try that is refused
  refine (allocateWithSlack_unchanged t₂.wellFormed (by simpa using hfull) alignment _).mono
    (fun _ _ _ => trivial) fun _ h' same => ?_
  rw [same]
  exact back h₂ s

/-! ## Growing for the first try -/

/-- Where no free run is long enough, blocks are claimed after the arena was made to grow. -/
theorem claimBlocks_grows (w : h.WellFormed) (hpos : 0 < count) :
    Ends False (claimBlocks count) h (fun _ h₁ =>
      (∀ b s, h.table.freeSize? b = some s → s < count) →
        ∃ missing grown, grow missing h = .ok () grown ∧ SameExtent grown h₁) fun _ _ => True := by
  refine Ends.bind' (Ends.get' (Ends.ite' (fun _ => Ends.refuse' trivial) fun _ => ?_))
  refine Ends.bind' ((claimFree_ends w hpos).mono ?_ fun _ _ hE => hE)
  rintro (_ | block) h' hclaim
  · obtain ⟨rfl, -⟩ := hclaim
    refine Ends.bind' (Ends.get' (Ends.bind' (Ends.orTrap_of (fun _ _ => ?_) fun _ => not_false)))
    refine Ends.bind' (Ends.orTrap_of (fun missing _ => ?_) fun _ => not_false)
    refine Ends.bind' ((grow_ends w missing).with_run.or_trap.mono ?_ fun _ _ _ => trivial)
    rintro ⟨⟩ grown ⟨⟨t, -⟩, ran⟩
    refine Ends.bind' ((claimFree_ends t.wellFormed hpos).mono ?_ fun _ _ hE => hE)
    rintro (_ | block) h₁ hclaim
    · exact Ends.refuse' trivial
    · exact Ends.pure' fun _ => ⟨missing, grown, ran, hclaim.2.sameExtent⟩
  · refine Ends.pure' fun short => ?_
    obtain ⟨room, hfree, hle⟩ := hclaim.2.exists_free
    exact absurd (short block room hfree) (by omega)

theorem allocate_grows (w : h.WellFormed) (hclass : h.sizeClass size = .blocks count) :
    Ends False (allocate size) h (fun _ h₁ =>
      (∀ b s, h.table.freeSize? b = some s → s < count) →
        ∃ missing grown, grow missing h = .ok () grown ∧ SameExtent grown h₁) fun _ _ => True := by
  have hfits := sizeClass_fits w size
  rw [hclass] at hfits
  refine Ends.bind' (Ends.get' ?_)
  simp only [hclass]
  exact Ends.bind' ((claimBlocks_grows w hfits.1).mono (fun _ _ g => Ends.pure' g) fun _ _ hE => hE)

/-- The arena grew by `missing` blocks for a first try that missed the boundary. -/
structure Outgrew (alignment size : Nat) (h grown : Heap) (missing : Nat) : Prop where
  missing_pos : 0 < missing
  granted : grow missing h = .ok () grown
  tried : ∃ start h₁, FirstTry alignment size h h₁ start ∧ ¬start % alignment = 0 ∧
    h₁.blockCount = h.blockCount + missing

/-- A first try that missed the boundary left the arena as long as it was, or made it grow. -/
theorem FirstTry.extent (tried : FirstTry alignment size h h₁ start) (w : h.WellFormed)
    (power : Size.isPowerOfTwo alignment = true) (misses : ¬start % alignment = 0) :
    SameExtent h h₁ ∨
      ∃ missing grown, Outgrew alignment size h grown missing ∧ SameExtent grown h₁ := by
  obtain ⟨room, hroom, ran⟩ := tried
  have ha := Size.pos_of_isPowerOfTwo power
  have hpadded := (leastMultiple_roundDown ha hroom).step_le
  obtain ⟨-, block, count, hclass, c, p⟩ := ((firstTry_ends w power hpadded).of_ok ran).2 misses
  cases p with
  | inside fitted => exact .inl fitted.sameExtent
  | behind short block_eq _ =>
    obtain ⟨missing, grown, granted, extent⟩ := (allocate_grows w hclass).of_ok ran short
    obtain ⟨t, g, -⟩ := (grow_ends w missing).of_ok granted
    by_cases h0 : missing = 0
    · obtain ⟨runs, hl⟩ := w.laidOut
      have hjoined := g.joined runs hl
      rw [if_pos h0] at hjoined
      exact .inl (hjoined ▸ extent)
    have hcount : h₁.blockCount = h.blockCount + missing := by
      rw [← g.blockCount_eq w]
      exact t.wellFormed.blockCount_eq c.2.2.wellFormed (c.2.2.frame_eq.trans t.frame_eq.symm)
        extent.size_eq
    exact .inr ⟨missing, grown, ⟨Nat.pos_of_ne_zero h0, granted, start, h₁, ⟨room, hroom, ran⟩,
      misses, hcount⟩, extent⟩

/-! ## Refused requests -/

/-- What a refused request on a boundary leaves of a heap. -/
structure FellBack (alignment size : Nat) (h h' : Heap) : Prop where
  kept : Turns h h' h.objectAt
  fallsBack : FallsBack alignment size h h'

theorem FellBack.refl (w : h.WellFormed) : FellBack alignment size h h :=
  ⟨Turns.refl w, .atOnce rfl⟩

theorem onBoundary_fellBack (w : h.WellFormed) {op : Operation}
    (asks : op.onBoundary? = some (alignment, size)) :
    Ends False op.run h (fun _ _ => True) fun _ h' => FellBack alignment size h h' := by
  have aligned (alignment size : Nat) : Ends False (allocateAligned alignment size) h
      (fun handle h' => AllocatedOn alignment h h' handle size)
      fun _ h' => FellBack alignment size h h' := by
    refine (((allocateAligned_ends w alignment size).both
      (allocateAligned_fallsBack w alignment size)).or_trap).mono (fun _ _ hQ => hQ.1) ?_
    rintro e h' ⟨refused | ⟨rfl, -⟩, fallsBack⟩
    · exact ⟨refused.kept, fallsBack⟩
    · exact .refl w
  cases op with
  | allocateAligned alignment size =>
    cases asks
    exact Ends.map' ((aligned alignment size).mono (fun _ _ _ => trivial) fun _ _ hE => hE)
  | allocatePageAligned host size =>
    cases asks
    exact Ends.map' ((aligned host.page size).mono (fun _ _ _ => trivial) fun _ _ hE => hE)
  | allocateAlignedNamed name alignment size =>
    cases asks
    exact Ends.map' ((allocateAs_renames name w (aligned alignment size) (fun _ _ => .refl w)
      fun _ _ a => a.nameable).mono (fun _ _ _ => trivial) fun _ _ hE => hE)
  | _ => cases asks

/-- Two heaps of one extent with the objects of a third read alike. -/
theorem Turns.sameReadings {h'' : Heap} (t : Turns h h' h.objectAt) (t' : Turns h h'' h.objectAt)
    (s : SameExtent h' h'') : SameReadings h' h'' := by
  have hframe : h''.frame = h'.frame := t'.frame_eq.trans t.frame_eq.symm
  have same : SameObjects h' h'' := ⟨t.wellFormed, t'.wellFormed, blockLog2_of_frame hframe,
    fun start => (t'.objects_eq start).trans (t.objects_eq start).symm⟩
  exact same.sameReadings (t.wellFormed.blockCount_eq t'.wellFormed hframe s.size_eq)
    (t'.aligned_eq.trans t.aligned_eq.symm)
    (.of_eq (t'.names_eq.trans t.names_eq.symm))

theorem FellBack.reads (f : FellBack alignment size h h') (w : h.WellFormed) :
    SameReadings h h' ∨ ∃ missing grown, Outgrew alignment size h grown missing ∧
      h'.blockCount = h.blockCount + missing ∧ SameReadings grown h' := by
  have unchanged := Turns.refl w
  cases f.fallsBack with
  | atOnce same => exact .inl (unchanged.sameReadings f.kept (same ▸ SameExtent.refl h))
  | givenBack start h₁ power tried misses extent =>
    obtain steady | ⟨missing, grown, outgrew, extent'⟩ := tried.extent w power misses
    · exact .inl (unchanged.sameReadings f.kept (steady.trans extent))
    · obtain ⟨t, g, -⟩ := (grow_ends w missing).of_ok outgrew.granted
      have same := t.sameReadings f.kept (extent'.trans extent)
      exact .inr ⟨missing, grown, outgrew, same.blockCount_eq.trans (g.blockCount_eq w), same⟩

variable {host : Host} {g : Geometry} {region : Region}

/-- A refused request on a boundary keeps the objects with their bytes, the busy maps, the records and
the names, and the heap reads as it did before. The exception is a first try that missed the boundary
and that the arena had to grow for: then the heap reads as if it had been asked to grow by as many
blocks. -/
theorem refused_onBoundary (reached : Reachable host g region h) {op : Operation}
    (asks : op.onBoundary? = some (alignment, size)) {refusals : Option Refusals} {e : HeapError}
    (ran : op.run (h.withRefusals refusals) = .error (.refused e) h') :
    Turns (h.withRefusals refusals) h' h.objectAt ∧ h'.busy = h.busy ∧ (SameReadings h h' ∨
      ∃ missing grown, Outgrew alignment size (h.withRefusals refusals) grown missing ∧
        h'.blockCount = h.blockCount + missing ∧ SameReadings grown h') := by
  have w := reached.restorable.wellFormed.withRefusals refusals
  have fell := (onBoundary_fellBack w asks).of_refused ran
  refine ⟨fell.kept, (fell.kept.sameObjects w fun _ => rfl).busy_eq, ?_⟩
  obtain same | outgrew := fell.reads w
  · exact .inl ⟨same.usage_eq, same.freeRuns_eq, same.blockCount_eq, same.busy_eq, same.aligned_eq,
      same.names⟩
  · exact .inr outgrew

/-- The heap that a refused operation leaves. -/
def refusing? (h : Heap) (op : Operation) : Option Heap :=
  match op.run h with
  | .error (.refused _) h' => some h'
  | _ => none

theorem refusing?_eq_some_iff {op : Operation} :
    h.refusing? op = some h' ↔ ∃ e, op.run h = .error (.refused e) h' := by
  rw [refusing?]
  split
  · rename_i e h₁ ran
    simp [ran]
  · rename_i hne
    exact ⟨nofun, fun ⟨e, ran⟩ => absurd ran (hne e h')⟩

/-- Behind the one block in use there is one free block, so the arena grows by another for the first
try at two. It misses the boundary, and there is no room for the second. -/
theorem refused_onBoundary_small : ∃ h h' e, Reachable .ample smallGeometry smallRegion h ∧
    (Operation.allocateAligned 512 512).run h = .error (.refused e) h' ∧ h.blockCount = 2 ∧
      h'.blockCount = 3 ∧ ∃ grown, Outgrew 512 512 h grown 1 ∧ SameReadings grown h' := by
  have run : ((create .ample smallGeometry smallRegion).toOption.bind fun h₀ =>
      (h₀.answering? (.allocate 256) 0).bind fun h =>
        (h.refusing? (.allocateAligned 512 512)).bind fun h' =>
          if h.blockCount = 2 ∧ h'.blockCount = 3 then some h' else none).isSome = true := by
    decide +kernel
  obtain ⟨_, run⟩ := Option.isSome_iff_exists.1 run
  obtain ⟨h₀, hc, run⟩ := Option.bind_eq_some_iff.1 run
  obtain ⟨h, run₀, run⟩ := Option.bind_eq_some_iff.1 run
  obtain ⟨h', run₁, run⟩ := Option.bind_eq_some_iff.1 run
  obtain ⟨⟨two, three⟩, -⟩ := Option.ite_none_right_eq_some.1 run
  have ran₀ := answering?_eq_some_iff.1 run₀
  have reached := (Reachable.created (toOption_eq_some_iff.1 hc)).used h₀.region.refusals _
    (.granted _ ran₀)
  obtain ⟨e, ran⟩ := refusing?_eq_some_iff.1 run₁
  have ran : (Operation.allocateAligned 512 512).run (h.withRefusals h.region.refusals) =
    .error (.refused e) h' := ran
  obtain ⟨-, -, same | ⟨missing, grown, outgrew, hcount, same⟩⟩ :=
    refused_onBoundary reached rfl ran
  · have := same.blockCount_eq
    omega
  · obtain rfl : missing = 1 := by omega
    exact ⟨h, h', e, reached, ran, two, three, grown, outgrew, same⟩

end Heap

end RegionHeap
