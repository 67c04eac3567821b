import RegionHeap.Proofs.Heap.ArenaEnd
import RegionHeap.Proofs.Heap.Tending

/-!
What alignment records lead to. A record is made only where a first try has missed a boundary, and
what misses a boundary is a run of blocks smaller than the boundary; so the allocation behind a record
takes whole blocks, and starts before the handle (`Operation.records_ends`). That holds of every
record for as long as it stands (`LeadToRuns`), because the object it leads to belongs to its handle
and to no other.
-/
namespace RegionHeap.Heap

open HeapM

variable {h h' : Heap} {live : Account}

/-- The object takes whole blocks, and starts before the handle. -/
def Below (h : Heap) (handle start : Nat) : Prop :=
  start < handle ∧ ∃ length, h.objectAt start = some length ∧ h.blockSize ≤ length

/-- Every record leads to the start of a run of blocks before its handle. -/
def LeadToRuns (h : Heap) : Prop :=
  ∀ handle start, h.aligned.start? handle = some start → h.Below handle start

/-- New records lead to runs of blocks. -/
def RecordsRuns (h h' : Heap) : Prop := ∀ handle start, h'.aligned.start? handle = some start →
  h.aligned.start? handle = some start ∨ h'.Below handle start

theorem RecordsRuns.of_eq (he : h'.aligned = h.aligned) : RecordsRuns h h' := fun handle start hs =>
  .inl (by rw [← he]; exact hs)

/-- A run of blocks is an object as long as a block. -/
theorem WellFormed.run_of_le (w : h.WellFormed) {start length : Nat}
    (hs : h.objectAt start = some length) (hle : h.blockSize ≤ length) :
    ∃ count, h.table.get? (h.blockOf start) = some (.run count) ∧
      start = h.blockStart (h.blockOf start) ∧ length = count * h.blockSize := by
  rcases objectAt_eq_some.1 hs with ⟨log2, hc, -, -, hsize⟩ | ⟨count, hr, hal, hsize⟩
  · have := fragmentSize_lt_blockSize (w.cut_bounds hc).2.1
    omega
  · exact ⟨count, runLength?_eq_some.1 hr, eq_blockStart rfl hal, hsize⟩

/-! ## Making records -/

theorem allocateWithSlack_records (w : h.WellFormed) {alignment padded : Nat} (ha : 0 < alignment)
    (hwide : h.blockSize ≤ padded + alignment) :
    Ends False (allocateWithSlack alignment padded) h (fun _ h' => RecordsRuns h h')
      fun _ _ => True := by
  refine Ends.bind' (Ends.orRefuse' (fun slack hslack => ?_) fun _ => trivial)
  obtain ⟨-, rfl⟩ := Size.add?_eq_some_iff.1 hslack
  refine Ends.bind' ((allocate_ends w _).or_trap.mono ?_ fun _ _ _ => trivial)
  rintro start h₁ ⟨-, length, hle, t⟩
  refine Ends.bind' (Ends.orTrap_of (fun handle hr => ?_) fun _ => not_false)
  obtain ⟨-, hge, -⟩ := Size.roundUp?_bounds ha hr
  refine Ends.ite' (fun _ => Ends.pure' (.of_eq t.aligned_eq)) fun hne => Ends.bind' (Ends.get' ?_)
  refine Ends.bind' (Ends.ofExcept' (fun records hins => ?_) fun _ _ => trivial)
  refine Ends.bind' (Ends.set' (Ends.pure' fun k s hs => ?_))
  have hrecords : records = { h₁.aligned with starts := h₁.aligned.starts.insert handle start } := by
    rw [AlignmentRecords.insert] at hins
    split at hins
    · cases hins
    · exact (Except.ok.inj hins).symm
  have hs : records.starts.find? k = some s := hs
  rw [hrecords, OrderedMap.find?_insert] at hs
  split at hs
  · rename_i hk
    cases hs
    subst hk
    refine .inr ⟨by omega, length, ?_, ?_⟩
    · exact (t.objects_eq start).trans (replaced_self _ _ _)
    · show h₁.blockSize ≤ length
      rw [blockSize_of_frame t.frame_eq]
      exact Nat.le_trans hwide hle
  · exact .inl (by rw [← t.aligned_eq]; exact hs)

theorem allocateAligned_records (w : h.WellFormed) (alignment size : Nat) :
    Ends False (allocateAligned alignment size) h (fun _ h' => RecordsRuns h h')
      fun _ _ => True := by
  refine allocateAligned_ends_of_tries w (fun _ _ _ t₁ _ => .of_eq t₁.aligned_eq)
    fun padded h₂ ha _ missed => ?_
  have t := missed.undone
  refine (allocateWithSlack_records t.wellFormed ha ?_).mono (fun _ h' r => ?_) fun _ _ hE => hE
  · rw [blockSize_of_frame t.frame_eq]
    exact Nat.le_trans (Nat.le_of_lt missed.wide) (Nat.le_add_left _ _)
  · rw [RecordsRuns, t.aligned_eq] at r
    exact r

theorem allocateAs_records {allocation : HeapM Handle} (name : String)
    (ends : Ends False allocation h (fun _ h' => RecordsRuns h h') fun _ _ => True) :
    Ends False (allocateAs name allocation) h (fun _ h' => RecordsRuns h h') fun _ _ => True := by
  refine Ends.bind' (Ends.get' (Ends.bind' (Ends.ofExcept' (fun _ _ => ?_) fun _ _ => trivial)))
  refine Ends.ite' (fun _ => Ends.refuse' trivial) fun _ => Ends.ite'
    (fun _ => Ends.refuse' trivial) fun _ => ?_
  refine Ends.bind' (ends.mono (fun handle h₁ r => ?_) fun _ _ hE => hE)
  exact Ends.bind' (Ends.onNames_of (fun _ _ _ => Ends.pure' r) (fun _ _ _ => trivial)
    fun _ _ => not_false)

/-- Operations that are granted leave only such records, or none that were not there. -/
theorem Effect.recordsRuns {op : Operation} {answer : Answer} (e : Effect h h' op answer)
    (hop : op.isOnBoundary = false) : RecordsRuns h h' := by
  have erased {h₁ : Heap} {p : Handle} (he : h₁.aligned = h.aligned.erase p) : RecordsRuns h h₁ := by
    intro k s hs
    rw [he, AlignmentRecords.start?_erase] at hs
    split at hs
    · cases hs
    · exact .inl hs
  have renamed {h₁ : Heap} {names : NameTable} (r : Renames h₁ h' names) (hr : RecordsRuns h h₁) :
      RecordsRuns h h' := by
    rw [r.eq]
    exact hr
  have allocated {h₁ : Heap} {handle size : Nat} (a : Allocated h h₁ handle size) :
      RecordsRuns h h₁ := by
    obtain ⟨-, length, -, t⟩ := a
    exact .of_eq t.aligned_eq
  cases e with
  | allocate a => exact allocated a
  | allocateZeroed a _ => exact allocated a
  | allocateAligned _ => cases hop
  | allocatePageAligned _ => cases hop
  | allocateAlignedNamed _ _ _ => cases hop
  | reallocate r =>
    obtain ⟨⟨length, -, ⟨-, -, t⟩ | ⟨-, t⟩⟩, -⟩ := r
    · exact .of_eq t.aligned_eq
    · exact erased t.aligned_eq
  | free _ t => exact erased t.aligned_eq
  | allocateNamed a _ r => exact renamed r (allocated a)
  | allocateZeroedNamed a _ _ r => exact renamed r (allocated a)
  | freeNamed _ _ t _ r => exact renamed r (erased t.aligned_eq)
  | register _ r => exact renamed r (.of_eq rfl)
  | unregister _ r => exact renamed r (.of_eq rfl)
  | write _ _ wr _ => exact .of_eq wr.aligned_eq
  | fill _ _ wr _ => exact .of_eq wr.aligned_eq
  | grow t _ => exact .of_eq t.aligned_eq
  | shrink t => exact .of_eq t.aligned_eq
  | trim t => exact .of_eq t.aligned_eq
  | sync s => exact .of_eq (by rw [s.eq])
  | lookup same _ => exact .of_eq (by rw [same])
  | resolve same => exact .of_eq (by rw [same])
  | usableFrom same _ => exact .of_eq (by rw [same])
  | read same => exact .of_eq (by rw [same])
  | names same => exact .of_eq (by rw [same])
  | usage same _ => exact .of_eq (by rw [same])
  | defects same => exact .of_eq (by rw [same])
  | freeRuns same _ => exact .of_eq (by rw [same])

theorem Operation.records_ends (w : h.WellFormed) (op : Operation) :
    Ends False op.run h (fun _ h' => RecordsRuns h h') fun _ _ => True := by
  cases hop : op.isOnBoundary with
  | false =>
    exact (op.effects w).or_trap.mono (fun _ _ e => e.recordsRuns hop) fun _ _ _ => trivial
  | true =>
    cases op with
    | allocateAligned alignment size => exact Ends.map' (allocateAligned_records w alignment size)
    | allocatePageAligned host size => exact Ends.map' (allocateAligned_records w host.page size)
    | allocateAlignedNamed name alignment size =>
      exact Ends.map' (allocateAs_records name (allocateAligned_records w alignment size))
    | _ => cases hop

/-! ## Keeping records -/

/-- An object is there as long as no handle of it is given up. -/
theorem Effect.objectAt_kept {op : Operation} {answer : Answer} (e : Effect h h' op answer)
    (i : Isolated h live) (permitted : h.Permits live op) {start length : Nat}
    (spared : ∀ p, op.givenUp h = some p → h.allocationOf p ≠ start)
    (hobj : h.objectAt start = some length) : h'.objectAt start = some length := by
  cases hw : op.writesAt with
  | some offset =>
    cases e with
    | write _ _ wr _ => exact (wr.objects_eq start).trans hobj
    | fill _ _ wr _ => exact (wr.objects_eq start).trans hobj
    | _ => cases hw
  | none =>
    refine ((e.isolated i permitted).2 start ?_ length hobj).1
    rintro ⟨p, length', hp | hp, hext⟩
    · obtain ⟨_, -, he⟩ := i.extentOf_eq (permitted p hp)
      rw [hext] at he
      exact spared p hp (congrArg Prod.fst (Except.ok.inj he)).symm
    · rw [hw] at hp
      cases hp

/-- A handle that is given up has no record any more. -/
theorem Effect.start?_givenUp {op : Operation} {answer : Answer} (e : Effect h h' op answer)
    {p : Handle} (hp : op.givenUp h = some p) : h'.aligned.start? p = none := by
  have erased {h₁ : Heap} (ha : h₁.aligned = h.aligned.erase p) : h₁.aligned.start? p = none := by
    rw [ha, AlignmentRecords.start?_erase, if_pos rfl]
  cases e with
  | free _ t =>
    cases hp
    exact erased t.aligned_eq
  | freeNamed found _ t _ r =>
    have hp := found.symm.trans hp
    cases hp
    rw [r.eq]
    exact erased t.aligned_eq
  | reallocate r =>
    cases hp
    obtain ⟨⟨_, -, ⟨-, hs, t⟩ | ⟨-, t⟩⟩, -⟩ := r
    · rw [t.aligned_eq]
      exact hs
    · exact erased t.aligned_eq
  | _ => cases hp

/-- As long as a record stands, the object that it leads to stays as it is. -/
theorem Effect.objectAt_of_start? {op : Operation} {answer : Answer} (e : Effect h h' op answer)
    (i : Isolated h live) (permitted : h.Permits live op) {handle start length : Nat}
    (hold : h.aligned.start? handle = some start) (hnew : h'.aligned.start? handle = some start)
    (hobj : h.objectAt start = some length) : h'.objectAt start = some length := by
  refine e.objectAt_kept i permitted (fun p hp heq => ?_) hobj
  -- a handle of that object is the one with the record, which would have gone with it
  have hsame : p = handle := by
    refine i.tracks.own p handle (permitted p hp) (i.live_of_contains ?_) (heq.trans ?_)
    · rw [AlignmentRecords.contains, hold]
      rfl
    · rw [startOf, hold]
      rfl
  rw [← hsame, e.start?_givenUp hp] at hnew
  cases hnew

/-- An operation that is granted keeps it that records lead to runs. -/
theorem LeadToRuns.granted {op : Operation} {answer : Answer} (l : h.LeadToRuns)
    (i : Isolated h live) (permitted : h.Permits live op) (ran : op.run h = .ok answer h') :
    h'.LeadToRuns := by
  intro handle start hs
  rcases (Operation.records_ends i.wellFormed op).of_ok ran handle start hs with hold | hnew
  · have e := (op.effects i.wellFormed).of_ok ran
    obtain ⟨hlt, length, hobj, hle⟩ := l handle start hold
    refine ⟨hlt, length, e.objectAt_of_start? i permitted hold hs hobj, ?_⟩
    rw [blockSize_of_frame (e.continues i.wellFormed).frame_eq]
    exact hle
  · exact hnew

/-- An operation that is refused leaves the names and the records. -/
theorem Refusal.registry_eq {op : Operation} (r : Refusal h h' op) :
    h'.names = h.names ∧ h'.aligned = h.aligned := by
  cases r with
  | unchanged same => rw [same]; exact ⟨rfl, rfl⟩
  | allocateAligned t => exact ⟨t.names_eq, t.aligned_eq⟩
  | allocatePageAligned t => exact ⟨t.names_eq, t.aligned_eq⟩
  | allocateAlignedNamed t => exact ⟨t.names_eq, t.aligned_eq⟩
  | reallocate k =>
    rcases k with ⟨same, -⟩ | ⟨-, -, _, _, -, t⟩
    · rw [same]; exact ⟨rfl, rfl⟩
    · exact ⟨t.names_eq, t.aligned_eq⟩
  | sync s => rw [s.eq]; exact ⟨rfl, rfl⟩

/-- Records lead to runs after an operation that is refused, too. -/
theorem LeadToRuns.refused {op : Operation} (l : h.LeadToRuns) (i : Isolated h live)
    (r : Refusal h h' op) : h'.LeadToRuns := by
  intro handle start hs
  rw [r.registry_eq.2] at hs
  obtain ⟨hlt, length, hobj, hle⟩ := l handle start hs
  refine ⟨hlt, length, ((r.isolated i).2 start length hobj).1, ?_⟩
  rw [blockSize_of_frame (r.continues i.wellFormed).frame_eq]
  exact hle

end RegionHeap.Heap
