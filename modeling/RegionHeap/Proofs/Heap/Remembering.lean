import RegionHeap.Proofs.Heap.Persistence

/-!
What a region remembers of a heap. The tables in front of the arena are those of the heap that was
saved last. Nothing but saving touches them, and whenever the region is loaded again, the heap that
comes out is the one that went in, as it was then (`Remembers.loaded`). A history that is to say what
a heap is after it was opened again has to keep that one in mind, and no more.
-/
namespace RegionHeap.Heap

open BlockTable Image

variable {h h₀ h' : Heap} {P : Heap → Prop} {host : Host} {g : Geometry} {region region' : Region}

namespace Recalls

variable (r : Recalls h₀ h)

include r

/-- The objects are those that were saved. -/
theorem objectAt_eq (s : Nat) : h.objectAt s = h₀.objectAt s :=
  objectAt_of_inUse? h₀ h (by rw [r.eq]; rfl) (by rw [r.eq]; rfl)
    (fun block => inUse?_congr (r.entries block)) s

theorem aligned_eq : h.aligned = h₀.aligned := by rw [r.eq]; rfl

theorem blockLog2_eq : h.blockLog2 = h₀.blockLog2 := by rw [r.eq]; rfl

end Recalls

/-- The metadata in the region are those of a heap with this property, on the same ground. -/
def Remembers (h : Heap) (P : Heap → Prop) : Prop :=
  ∃ h₀ : Heap, P h₀ ∧ h₀.WellFormed ∧ h₀.maxBlocks < Geometry.blockLimit ∧
    h₀.SavedIn h.region ∧ h.arenaStart = h₀.arenaStart

/-- What the metadata say stays as long as nothing is written to them. -/
theorem SavedIn.of_keepsMetadata (s : h₀.SavedIn h.region) (w₀ : h₀.WellFormed)
    (w' : h'.WellFormed) (hstart : h.arenaStart = h₀.arenaStart)
    (hstart' : h'.arenaStart = h₀.arenaStart) (m : KeepsMetadata h h') :
    h₀.SavedIn h'.region := by
  refine s.congr w₀ ?_ fun i hi => m i (by omega)
  rw [← hstart']
  exact w'.arenaStart_le

namespace Remembers

theorem withRefusals (r : h.Remembers P) (refusals : Option Refusals) :
    (h.withRefusals refusals).Remembers P := r

/-- A new heap is saved as it is. -/
theorem of_created (c : Created g region h) (hp : P h) : h.Remembers P :=
  ⟨h, hp, c.wellFormed, c.restorable.max_lt, c.image, rfl⟩

/-- Only saving changes what is remembered. -/
theorem kept {op : Operation} (r : h.Remembers P) (w : h.WellFormed) (hop : op ≠ .sync)
    (leaves : op.Leaves h h') : h'.Remembers P := by
  obtain ⟨h₀, hp, w₀, hmax, saved, hstart⟩ := r
  have c := Continues.of_leaves w leaves
  have hstart' : h'.arenaStart = h₀.arenaStart := (arenaStart_of_frame c.frame_eq).trans hstart
  exact ⟨h₀, hp, w₀, hmax, saved.of_keepsMetadata w₀ c.wellFormed hstart hstart'
    (keepsMetadata_of_leaves w hop leaves), hstart'⟩

/-- Saving makes the heap itself what is remembered, also if the region refuses to make it durable. -/
theorem of_sync (s : h.Restorable) (hp : P h) (leaves : Operation.sync.Leaves h h') :
    h'.Remembers P := by
  have saved := saved_of_leaves s.wellFormed leaves
  exact ⟨h, hp, s.wellFormed, s.max_lt, saved.image, arenaStart_of_frame saved.frame_eq⟩

/-- A heap that is loaded is the one that was remembered. -/
theorem loaded (r : h.Remembers P) (w : h.WellFormed) (same : Region.SameBytes h.region region')
    (loaded : load region' = .ok h') :
    ∃ h₀, P h₀ ∧ Recalls h₀ h' ∧ h'.Remembers P := by
  obtain ⟨h₀, hp, w₀, hmax, saved, hstart⟩ := r
  obtain ⟨c, t, -, l⟩ := load_eq_ok loaded
  have saved' : h₀.SavedIn region' := saved.congr w₀ (by
    rw [same.size_eq, ← hstart]
    exact w.arenaStart_le) fun i _ => same.byte_eq i
  have recalls := l.recalls w₀ hmax saved'
  have hstart' : h'.arenaStart = h₀.arenaStart := by rw [recalls.eq]; rfl
  have hle := recalls.wellFormed.arenaStart_le
  exact ⟨h₀, hp, recalls, h₀, hp, w₀, hmax,
    saved'.congr w₀ (by omega) fun i hi => l.byte_eq i (by omega), hstart'⟩

end Remembers

end RegionHeap.Heap
