import RegionHeap.Proofs.Heap.Effects

/-!
Operations of clients, one after another. Whatever a client asks for, and whether it is granted or
refused, a well-formed heap goes on as a well-formed heap on the same ground, and its metadata are
those of before or its own image.
-/
namespace RegionHeap

namespace Heap

variable {h h' : Heap}

/-- How a heap goes on after an operation. -/
structure Continues (h h' : Heap) : Prop where
  wellFormed : h'.WellFormed
  frame_eq : h'.frame = h.frame
  image : (∀ i, i < h.arenaStart → h'.region.byte i = h.region.byte i) ∨ h.SavedIn h'.region

theorem WellFormed.continues (w : h.WellFormed) : Continues h h := ⟨w, rfl, .inl fun _ _ => rfl⟩

theorem Turns.continues {objects : Nat → Option Nat} (t : Turns h h' objects) : Continues h h' :=
  ⟨t.wellFormed, t.frame_eq, .inl t.metadata⟩

/-- The records may be others to begin with. -/
theorem Turns.continues_of_records {objects : Nat → Option Nat} (aligned : AlignmentRecords)
    (hc : aligned.capacity = h.aligned.capacity) (t : Turns { h with aligned } h' objects) :
    Continues h h' := by
  refine ⟨t.wellFormed, t.frame_eq.trans ?_, .inl t.metadata⟩
  simp only [frame, hc]

theorem Renames.continues {h₁ : Heap} {names : NameTable} (r : Renames h₁ h' names)
    (c : Continues h h₁) : Continues h h' := by
  obtain ⟨heq, hcap, w⟩ := r
  subst heq
  refine ⟨w, ?_, c.image⟩
  rw [← c.frame_eq]
  simp only [frame, hcap]

theorem Writes.continues {start : Nat} (wr : Writes h h' start) : Continues h h' :=
  ⟨wr.wellFormed, wr.frame_eq, .inl wr.metadata⟩

theorem Saved.continues (s : Saved h h') (w : h.WellFormed) : Continues h h' :=
  ⟨s.wellFormed w, s.frame_eq, .inr s.image⟩

theorem Allocated.continues {handle size : Nat} (a : Allocated h h' handle size) : Continues h h' := by
  obtain ⟨-, length, -, t⟩ := a
  exact t.continues

theorem capacity_recorded (r : AlignmentRecords) (handle start : Nat) :
    (recorded r handle start).capacity = r.capacity := by
  rw [recorded]
  split <;> rfl

theorem AllocatedOn.continues {alignment handle size : Nat}
    (a : AllocatedOn alignment h h' handle size) : Continues h h' := by
  obtain ⟨-, start, length, -, -, -, t⟩ := a
  exact t.continues_of_records _ (capacity_recorded _ _ _)

theorem Reallocated.continues {handle moved size : Nat} (r : Reallocated h h' handle moved size) :
    Continues h h' := by
  obtain ⟨⟨length, -, ⟨-, -, t⟩ | ⟨-, t⟩⟩, -⟩ := r
  · exact t.continues
  · exact Turns.continues_of_records (h.aligned.erase handle) rfl t

theorem KeptOrLeaked.continues {handle size : Nat} {e : HeapError}
    (k : KeptOrLeaked h handle size e h') (w : h.WellFormed) : Continues h h' := by
  rcases k with ⟨rfl, -⟩ | ⟨-, -, _, _, -, t⟩
  · exact w.continues
  · exact t.continues

/-- Whatever an operation does, the heap goes on. -/
theorem Effect.continues {op : Operation} {answer : Answer} (e : Effect h h' op answer)
    (w : h.WellFormed) : Continues h h' := by
  have same (hs : h' = h) : Continues h h' := by
    rw [hs]
    exact w.continues
  cases e with
  | allocate a => exact a.continues
  | allocateZeroed a _ => exact a.continues
  | allocateAligned a => exact a.continues
  | allocatePageAligned a => exact a.continues
  | reallocate r => exact r.continues
  | free _ t => exact Turns.continues_of_records (h.aligned.erase _) rfl t
  | allocateNamed a _ r => exact r.continues a.continues
  | allocateZeroedNamed a _ _ r => exact r.continues a.continues
  | allocateAlignedNamed a _ r => exact r.continues a.continues
  | freeNamed _ _ t _ r =>
    exact r.continues (Turns.continues_of_records (h.aligned.erase _) rfl t)
  | register _ r => exact r.continues w.continues
  | unregister _ r => exact r.continues w.continues
  | write _ _ wr _ => exact wr.continues
  | fill _ _ wr _ => exact wr.continues
  | grow t _ => exact t.continues
  | shrink t => exact t.continues
  | trim t => exact t.continues
  | sync s => exact s.continues w
  | lookup hs _ => exact same hs
  | resolve hs _ _ _ => exact same hs
  | usableFrom hs _ => exact same hs
  | read hs _ _ _ _ => exact same hs
  | names hs => exact same hs
  | usage hs _ => exact same hs
  | defects hs => exact same hs
  | freeRuns hs _ => exact same hs

/-- It goes on after a refusal, too. -/
theorem Refusal.continues {op : Operation} (r : Refusal h h' op) (w : h.WellFormed) :
    Continues h h' := by
  cases r with
  | unchanged hs =>
    rw [hs]
    exact w.continues
  | allocateAligned t => exact t.continues
  | allocatePageAligned t => exact t.continues
  | allocateAlignedNamed t => exact t.continues
  | reallocate k => exact k.continues w
  | sync s => exact s.continues w

/-! ## The metadata -/

/-- The bytes in front of the arena are what they were. -/
def KeepsMetadata (h h' : Heap) : Prop := ∀ i, i < h.arenaStart → h'.region.byte i = h.region.byte i

theorem KeepsMetadata.of_eq (same : h' = h) : KeepsMetadata h h' := by
  rw [same]
  exact fun _ _ => rfl

theorem Turns.keepsMetadata {objects : Nat → Option Nat} (t : Turns h h' objects) :
    KeepsMetadata h h' :=
  t.metadata

theorem Renames.keepsMetadata {h₁ : Heap} {names : NameTable} (r : Renames h₁ h' names)
    (m : KeepsMetadata h h₁) : KeepsMetadata h h' := by
  rw [r.eq]
  exact m

theorem Allocated.keepsMetadata {handle size : Nat} (a : Allocated h h' handle size) :
    KeepsMetadata h h' := by
  obtain ⟨-, length, -, t⟩ := a
  exact t.metadata

theorem AllocatedOn.keepsMetadata {alignment handle size : Nat}
    (a : AllocatedOn alignment h h' handle size) : KeepsMetadata h h' := by
  obtain ⟨-, start, length, -, -, -, t⟩ := a
  exact t.metadata

theorem Reallocated.keepsMetadata {handle moved size : Nat} (r : Reallocated h h' handle moved size) :
    KeepsMetadata h h' := by
  obtain ⟨⟨length, -, ⟨-, -, t⟩ | ⟨-, t⟩⟩, -⟩ := r
  · exact t.metadata
  · exact t.metadata

theorem KeptOrLeaked.keepsMetadata {handle size : Nat} {e : HeapError}
    (k : KeptOrLeaked h handle size e h') : KeepsMetadata h h' := by
  rcases k with ⟨same, -⟩ | ⟨-, -, _, _, -, t⟩
  · exact .of_eq same
  · exact t.metadata

/-- Nothing but saving writes to the metadata. -/
theorem Effect.keepsMetadata {op : Operation} {answer : Answer} (e : Effect h h' op answer)
    (hop : op ≠ .sync) : KeepsMetadata h h' := by
  cases e with
  | allocate a => exact a.keepsMetadata
  | allocateZeroed a _ => exact a.keepsMetadata
  | allocateAligned a => exact a.keepsMetadata
  | allocatePageAligned a => exact a.keepsMetadata
  | reallocate r => exact r.keepsMetadata
  | free _ t => exact t.keepsMetadata
  | allocateNamed a _ r => exact r.keepsMetadata a.keepsMetadata
  | allocateZeroedNamed a _ _ r => exact r.keepsMetadata a.keepsMetadata
  | allocateAlignedNamed a _ r => exact r.keepsMetadata a.keepsMetadata
  | freeNamed _ _ t _ r => exact r.keepsMetadata t.keepsMetadata
  | register _ r => exact r.keepsMetadata (.of_eq rfl)
  | unregister _ r => exact r.keepsMetadata (.of_eq rfl)
  | write _ _ wr _ => exact wr.metadata
  | fill _ _ wr _ => exact wr.metadata
  | grow t _ => exact t.keepsMetadata
  | shrink t => exact t.keepsMetadata
  | trim t => exact t.keepsMetadata
  | sync s => exact absurd rfl hop
  | lookup same _ => exact .of_eq same
  | resolve same _ _ _ => exact .of_eq same
  | usableFrom same _ => exact .of_eq same
  | read same _ _ _ _ => exact .of_eq same
  | names same => exact .of_eq same
  | usage same _ => exact .of_eq same
  | defects same => exact .of_eq same
  | freeRuns same _ => exact .of_eq same

theorem Refusal.keepsMetadata {op : Operation} (r : Refusal h h' op) (hop : op ≠ .sync) :
    KeepsMetadata h h' := by
  cases r with
  | unchanged same => exact .of_eq same
  | allocateAligned t => exact t.keepsMetadata
  | allocatePageAligned t => exact t.keepsMetadata
  | allocateAlignedNamed t => exact t.keepsMetadata
  | reallocate k => exact k.keepsMetadata
  | sync s => exact absurd rfl hop

end Heap

open Heap

/-- Whatever the operation, and whether it is granted or refused, the heap goes on well-formed. -/
theorem Operation.run_ends {h : Heap} (w : h.WellFormed) (op : Operation) :
    Ends h.frame.Roomy op.run h (fun _ h' => Continues h h') fun _ h' => Continues h h' :=
  (op.effects w).mono (fun _ _ e => e.continues w) fun _ _ r => r.1.continues w

end RegionHeap
