import RegionHeap.Proofs.Heap.Isolation
import RegionHeap.Proofs.Heap.Persistence

/-!
What is left of a heap when an operation is refused: the heap itself, with its region, byte for
byte. The steps of an operation that can fail come before those that change anything, or cannot fail
once the first of those has been made: an arena that has grown has room for the run that was asked
for, a name that was looked at before an allocation can be registered after it, and an object whose
alignment record holds can be freed after its bytes were copied.

Three kinds of operations are left out, since they may be refused after a first step
(`Operation.isStaged`): allocations on a boundary, whose first try may have moved free blocks
around, and saving, which writes the image before it makes the region durable.
-/
namespace RegionHeap

open Heap HeapM

/-- Whether an operation may be refused after a first step has changed the heap. -/
def Operation.isStaged : Operation → Bool
  | allocateAligned .. | allocatePageAligned .. | allocateAlignedNamed .. | sync => true
  | _ => false

namespace Heap

variable {h h' h₁ : Heap} {host : Host} {g : Geometry} {region : Region}

/-- Every alignment record leads to the start of a live object that its handle lies in. -/
def RecordsHold (h : Heap) : Prop :=
  ∀ handle start, h.aligned.start? handle = some start →
    ∃ length, h.objectAt start = some length ∧ start ≤ handle ∧ handle < start + length

/-- The records of a heap hold as long as its client gives up only handles that it holds. -/
theorem Isolated.recordsHold {live : Account} (i : Isolated h live) : h.RecordsHold := by
  intro handle start hs
  have hlive : live handle ≠ none :=
    i.live_of_contains (by rw [AlignmentRecords.contains, hs]; rfl)
  obtain ⟨size, hsize⟩ := Option.ne_none_iff_exists'.1 hlive
  obtain ⟨length, hobj, hle, hlt, -⟩ := i.tracks.object handle size hsize
  rw [startOf, hs] at hobj hle hlt
  exact ⟨length, hobj, hle, hlt⟩

/-! ## Refusals -/

/-- A refused operation has changed nothing. -/
theorem Refusal.eq_of_recordsHold {op : Operation} (r : Refusal h h' op)
    (hop : op.isStaged = false) (holds : h.RecordsHold) : h' = h := by
  cases r with
  | unchanged same => exact same
  | allocateAligned _ => cases hop
  | allocatePageAligned _ => cases hop
  | allocateAlignedNamed _ => cases hop
  | sync _ => cases hop
  | @reallocate handle size e k =>
    rcases k with ⟨same, -⟩ | ⟨hc, hnone, -⟩
    · exact same
    · -- the record leads to an object, which can be freed
      obtain ⟨start, hs⟩ := Option.isSome_iff_exists.1 hc
      obtain ⟨length, hobj, -⟩ := holds handle start hs
      rw [allocationOf, hs, Option.getD_some, hobj] at hnone
      cases hnone

/-- An object is not resized because its handle is refused, or because a new object is. -/
theorem reallocate_refused (w : h.WellFormed) (holds : h.RecordsHold) {handle size : Nat}
    {e : HeapError} (ran : reallocate handle size h = .error (.refused e) h') :
    e = .invalidPointer handle ∨ allocate size h = .error (.refused e) h := by
  rcases ((reallocate_ends w handle size).of_refused ran).left with ⟨-, cause⟩ | ⟨hc, hnone, -⟩
  · exact cause
  · obtain ⟨start, hs⟩ := Option.isSome_iff_exists.1 hc
    obtain ⟨length, hobj, -⟩ := holds handle start hs
    rw [allocationOf, hs, Option.getD_some, hobj] at hnone
    cases hnone

/-! ## Naming an allocation -/

/-- Whether a granted allocation can be named was settled before it was made. -/
theorem allocateAs_of_granted (w : h.WellFormed) {name : String} {allocation : HeapM Handle}
    {handle : Handle} (ran : allocation h = .ok handle h₁) (hnames : h₁.names = h.names) :
    allocateAs name allocation h = match NameTable.register name handle h.names with
      | .ok () names => .ok handle { h₁ with names }
      | .error failure _ => .error failure h := by
  rw [allocateAs, bind_get]
  cases ha : NameTable.acceptName name with
  | error e =>
    rw [NameTable.register_eq, ha]
    exact bind_of_error rfl
  | ok _ =>
    refine (bind_of_ok (a := ()) rfl).trans ?_
    cases hc : h.names.contains name with
    | true =>
      rw [NameTable.register_eq, ha, hc]
      rfl
    | false =>
      rw [if_neg (by decide)]
      cases hv : h.names.hasVacancy with
      | false =>
        rw [if_pos (by decide), NameTable.register_eq, ha, hc, NameTable.claimSlot_of_full hv]
        rfl
      | true =>
        obtain ⟨names, registered⟩ : ∃ names,
            NameTable.register name handle h.names = .ok () names := by
          obtain ⟨_, _, -, registered⟩ := w.names.register_of_vacancy ha hc hv handle
          exact ⟨_, registered⟩
        have named : onNames (NameTable.register name handle) h₁ = .ok () { h₁ with names } := by
          rw [onNames, hnames, registered]
        rw [if_neg (by decide), bind_of_ok ran, bind_of_ok named, registered]
        rfl

/-- What `allocateAs` does with an allocation that is granted: a name that is refused is refused
whatever it is to stand for and before anything is allocated, and any other is registered. -/
theorem Nameable.allocateAs (w : h.WellFormed) {name : String} {allocation : HeapM Handle}
    {handle : Handle} (n : Nameable h h₁ handle) (ran : allocation h = .ok handle h₁) :
    (∃ e, (∀ offset, NameTable.register name offset h.names = .error (.refused e) h.names) ∧
      Heap.allocateAs name allocation h = .error (.refused e) h) ∨
    ∃ names, NameTable.register name handle h.names = .ok () names ∧
      names.find? name = some handle ∧
      Heap.allocateAs name allocation h = .ok handle { h₁ with names } := by
  rw [allocateAs_of_granted w ran n.names_eq]
  cases hr : NameTable.register name handle h.names with
  | ok _ names => exact .inr ⟨names, rfl, w.names.find?_register hr, rfl⟩
  | error failure names =>
    obtain ⟨-, e, rfl, -, refused⟩ := w.names.register_refused hr
    exact .inl ⟨e, refused, rfl⟩

/-! ## Histories -/

/-- What a client that keeps account of its handles may make of a new heap is a heap that any client
may have. -/
theorem Serves.reachable {h₀ : Heap} {live : Account} (s : Serves h₀ h live)
    (hc : create host g region = .ok h₀) : Reachable host g region h := by
  induction s with
  | start => exact .created hc
  | granted refusals op answer _ _ ran ih => exact ih.used refusals op (.granted answer ran)
  | refused refusals op e _ _ ran ih => exact ih.used refusals op (.refused e ran)

/-- A refused operation leaves the heap as it was, whatever the region refuses. A name that cannot be
registered is refused before anything is allocated for it, and an object is moved unless its handle
is refused or a new object is. -/
theorem refused_unchanged (reached : Reachable host g region h) (holds : h.RecordsHold)
    (refusals : Option Refusals) :
    (∀ (op : Operation) e h', op.isStaged = false →
      op.run (h.withRefusals refusals) = .error (.refused e) h' → h' = h.withRefusals refusals) ∧
    (∀ name alignment count size,
      ∀ allocation ∈ [allocate size, allocateZeroed count size, allocateAligned alignment size],
        ∀ handle h₁, allocation (h.withRefusals refusals) = .ok handle h₁ →
          (∃ e, (∀ offset,
              NameTable.register name offset h.names = .error (.refused e) h.names) ∧
            allocateAs name allocation (h.withRefusals refusals) =
              .error (.refused e) (h.withRefusals refusals)) ∨
          ∃ names, NameTable.register name handle h.names = .ok () names ∧
            names.find? name = some handle ∧
            allocateAs name allocation (h.withRefusals refusals) = .ok handle { h₁ with names }) ∧
    ∀ handle size e h', reallocate handle size (h.withRefusals refusals) = .error (.refused e) h' →
      e = .invalidPointer handle ∨
        allocate size (h.withRefusals refusals) = .error (.refused e) (h.withRefusals refusals) := by
  have w := (reached.restorable.withRefusals refusals).wellFormed
  have holds : (h.withRefusals refusals).RecordsHold := holds
  refine ⟨?_, ?_, ?_⟩
  · intro op e h' hop ran
    exact ((op.effects w).of_refused ran).1.eq_of_recordsHold hop holds
  · intro name alignment count size allocation hmem handle h₁ ran
    have nameable : Nameable (h.withRefusals refusals) h₁ handle := by
      simp only [List.mem_cons, List.not_mem_nil, or_false] at hmem
      obtain heq | heq | heq := hmem
      · subst heq
        exact ((allocate_ends w size).of_ok ran).nameable
      · subst heq
        exact ((allocateZeroed_ends w count size).of_ok ran).1.nameable
      · subst heq
        exact ((allocateAligned_ends w alignment size).of_ok ran).nameable
    exact nameable.allocateAs w ran
  · intro handle size e h' ran
    exact reallocate_refused w holds ran

/-- The error of an operation that is refused. -/
def refusal? (h : Heap) (op : Operation) : Option HeapError :=
  match op.run h with
  | .error (.refused e) _ => some e
  | _ => none

theorem refusal?_eq_some_iff {op : Operation} {e : HeapError} :
    h.refusal? op = some e ↔ ∃ h', op.run h = .error (.refused e) h' := by
  rw [refusal?]
  split
  · rename_i e' h₁ hrun
    rw [hrun]
    exact ⟨fun he => ⟨h₁, by cases he; rfl⟩, fun ⟨_, he⟩ => by cases he; rfl⟩
  · rename_i hrun
    exact ⟨fun he => (nomatch he), fun ⟨h', he⟩ => absurd he (hrun e h')⟩

/-- An object on a boundary inside a larger allocation is not moved where there is no room. -/
theorem refused_unchanged_small : ∃ h₀ h live, create .ample widerGeometry smallRegion = .ok h₀ ∧
    Serves h₀ h live ∧ h.aligned.start? 512 = some 256 ∧
      (Operation.reallocate 512 4000).run h = .error (.refused .outOfMemory) h := by
  have run : (onBoundary?.bind fun h => if h.aligned.start? 512 = some 256 ∧
      h.refusal? (.reallocate 512 4000) = some .outOfMemory then some h else none).isSome = true := by
    decide +kernel
  obtain ⟨h₁, run⟩ := Option.isSome_iff_exists.1 run
  obtain ⟨h, hb, run⟩ := Option.bind_eq_some_iff.1 run
  rw [Option.ite_none_right_eq_some] at run
  obtain ⟨⟨hrec, href⟩, -⟩ := run
  obtain ⟨h₀, live, hc, s, -⟩ := serves_onBoundary? hb
  have holds := (s.isolated (create_eq_ok hc).isolated).recordsHold
  obtain ⟨h', ran⟩ := refusal?_eq_some_iff.1 href
  have same : h' = h := (refused_unchanged (s.reachable hc) holds h.region.refusals).1
    (.reallocate 512 4000) .outOfMemory h' rfl ran
  rw [same] at ran
  exact ⟨h₀, h, live, hc, s, hrec, ran⟩

end Heap

end RegionHeap
