import RegionHeap.Proofs.Heap.Running

/-!
Histories of an open heap. Between any two operations the region may be told to refuse other
requests than before, so a history is told step by step (`Reaches`). Whatever the client asks for,
every heap on the way is well-formed and stands on the same ground (`Reaches.wellFormed`), and no
step is a trap if the heap is roomy (`Reaches.no_trap`).
-/
namespace RegionHeap

/-- What an operation leaves behind, granted or refused. -/
inductive Operation.Leaves (op : Operation) (h h' : Heap) : Prop where
  | granted (answer : Answer) (ran : op.run h = .ok answer h')
  | refused (e : HeapError) (ran : op.run h = .error (.refused e) h')

namespace Heap

/-- The heap after an operation that is granted. -/
def granting? (h : Heap) (op : Operation) : Option Heap :=
  match op.run h with
  | .ok _ h' => some h'
  | .error _ _ => none

theorem granting?_eq_some_iff {h h' : Heap} {op : Operation} :
    h.granting? op = some h' ↔ ∃ answer, op.run h = .ok answer h' := by
  rw [granting?]
  split
  · rename_i answer h₁ hrun
    rw [hrun]
    exact ⟨fun he => ⟨answer, by cases he; rfl⟩, fun ⟨_, he⟩ => by cases he; rfl⟩
  · rename_i e h₁ hrun
    rw [hrun]
    exact ⟨fun he => (nomatch he), fun ⟨_, he⟩ => (nomatch he)⟩

/-- The heap on a region that refuses other requests. -/
def withRefusals (h : Heap) (refusals : Option Refusals) : Heap :=
  { h with region := { h.region with refusals } }

/-- What a heap may become by operations with any arguments, each granted or refused, on a region
that may refuse any requests at any time. -/
inductive Reaches (h : Heap) : Heap → Prop where
  | start : Reaches h h
  | step {h₁ h₂ : Heap} (refusals : Option Refusals) (op : Operation) (before : Reaches h h₁)
    (leaves : op.Leaves (h₁.withRefusals refusals) h₂) : Reaches h h₂

/-- A history on a region that refuses the same requests throughout. -/
theorem Reaches.of_after? {h h' h₀ : Heap} (before : Reaches h₀ h) {ops : List Operation}
    (ha : h.after? ops = some h') : Reaches h₀ h' := by
  induction ops generalizing h with
  | nil => cases ha; exact before
  | cons op rest ih =>
    rw [after?] at ha
    split at ha
    · exact ih (before.step h.region.refusals op (.granted _ ‹_›)) ha
    · exact ih (before.step h.region.refusals op (.refused _ ‹_›)) ha
    · cases ha

/-- Two heaps on the same ground, whatever their regions refuse. -/
def SameGround (h h' : Heap) : Prop := (h'.withRefusals none).frame = (h.withRefusals none).frame

variable {h h' h'' : Heap}

theorem SameGround.refl (h : Heap) : SameGround h h := rfl

theorem SameGround.trans (g : SameGround h h') (g' : SameGround h' h'') : SameGround h h'' :=
  Eq.trans (b := (h'.withRefusals none).frame) g' g

theorem sameGround_of_frame (hf : h'.frame = h.frame) : SameGround h h' := by
  simp only [frame, Frame.mk.injEq] at hf
  obtain ⟨h₁, h₂, h₃, h₄, h₅, h₆, -⟩ := hf
  have h₆ : h'.region.backing.capacity = h.region.backing.capacity := h₆
  simp only [SameGround, frame, withRefusals, Region.capacity, Frame.mk.injEq]
  exact ⟨h₁, h₂, h₃, h₄, h₅, h₆, trivial⟩

theorem sameGround_withRefusals (h : Heap) (refusals : Option Refusals) :
    SameGround h (h.withRefusals refusals) := rfl

/-- Room depends on the ground alone. -/
theorem SameGround.roomy_iff (g : SameGround h h') : h'.frame.Roomy ↔ h.frame.Roomy := by
  simp only [SameGround, frame, withRefusals, Frame.mk.injEq] at g
  obtain ⟨hlog, hstart, hmax, -⟩ := g
  simp only [Frame.Roomy, frame, hlog, hstart, hmax]

/-- What the region refuses is no part of what makes a heap well-formed. -/
theorem WellFormed.withRefusals (w : h.WellFormed) (refusals : Option Refusals) :
    (h.withRefusals refusals).WellFormed :=
  { w with
    cuts := fun b log2 nfree hg => (w.cuts b log2 nfree hg).of_busy _ rfl rfl
    lists := w.lists.congr rfl rfl
      (fun x k hx => (w.lists.place x k hx).2) fun _ _ _ _ _ _ => rfl }

theorem Continues.of_leaves {op : Operation} (w : h.WellFormed)
    (l : op.Leaves h h') : Continues h h' := by
  cases l with
  | granted answer ran => exact (op.run_ends w).of_ok ran
  | refused e ran => exact (op.run_ends w).of_refused ran

theorem keepsMetadata_of_leaves {op : Operation} (w : h.WellFormed) (hop : op ≠ .sync)
    (l : op.Leaves h h') : KeepsMetadata h h' := by
  cases l with
  | granted answer ran => exact ((op.effects w).of_ok ran).keepsMetadata hop
  | refused e ran => exact ((op.effects w).of_refused ran).1.keepsMetadata hop

/-- Saving writes the metadata, also if the region refuses to make them durable. -/
theorem saved_of_leaves (w : h.WellFormed) (l : Operation.sync.Leaves h h') : Saved h h' := by
  have ends : Ends True Operation.sync.run h (fun _ h' => Saved h h') fun _ h' => Saved h h' :=
    Ends.map' ((sync_ends w).mono (fun _ _ s => s) fun _ _ s => s.1)
  cases l with
  | granted answer ran => exact ends.of_ok ran
  | refused e ran => exact ends.of_refused ran

/-- Every heap of a history is well-formed. -/
theorem Reaches.wellFormed (r : Reaches h h') (w : h.WellFormed) :
    h'.WellFormed ∧ SameGround h h' := by
  induction r with
  | start => exact ⟨w, SameGround.refl h⟩
  | step refusals op _ leaves ih =>
    obtain ⟨w₁, g₁⟩ := ih
    have c := Continues.of_leaves (w₁.withRefusals refusals) leaves
    exact ⟨c.wellFormed,
      (g₁.trans (sameGround_withRefusals _ refusals)).trans (sameGround_of_frame c.frame_eq)⟩

/-- In a roomy heap no operation of a history is a trap. -/
theorem Reaches.no_trap (r : Reaches h h') (w : h.WellFormed) (hroomy : h.frame.Roomy)
    (refusals : Option Refusals) (op : Operation) :
    op.run (h'.withRefusals refusals) ≠ .error .trap h'' := by
  obtain ⟨w', g⟩ := r.wellFormed w
  refine (op.run_ends (w'.withRefusals refusals)).no_trap ?_
  exact (sameGround_withRefusals h' refusals).roomy_iff.2 (g.roomy_iff.2 hroomy)

end Heap

end RegionHeap
