import RegionHeap.Proofs.Heap.Custody

/-!
What a client releases. The alignment records of a client that gives up only handles that it holds
are always right: each leads from one of its handles to the run of blocks behind it and to nothing
else. So whatever is freed or resized, what is released is just the object that the handle lies in
(`held_records_sound`).
-/
namespace RegionHeap.Heap

open HeapM BlockTable

variable {h h' : Heap} {host : Host} {g : Geometry} {region : Region} {live : Account}
  {book saved : Book}

/-! ## What freeing and resizing release -/

/-- Where offsets lead once the object at `start` is gone. -/
def extentWithout (h : Heap) (start length offset : Nat) : Except Failure (Nat × Nat) :=
  if start ≤ offset ∧ offset < start + length then .error (.refused (.invalidPointer offset))
  else h.extentOf offset

/-- An object is gone, and there is one at `moved`, in its place or elsewhere. -/
structure Moved (h h' : Heap) (start length moved length' : Nat) : Prop where
  before : h.WellFormed
  after : h'.WellFormed
  old : h.objectAt start = some length
  new : h'.objectAt moved = some length'
  fresh : moved = start ∨ h.objectAt moved = none
  rest : ∀ s, s ≠ moved → h'.objectAt s = replaced h.objectAt start none s

namespace Moved

variable {start length moved length' offset : Nat} (m : Moved h h' start length moved length')

include m

/-- The other objects are those that there were. -/
theorem other_iff {s l : Nat} : h'.objectAt s = some l ∧ s ≠ moved ↔
    h.objectAt s = some l ∧ s ≠ start := by
  constructor
  · rintro ⟨hs, hne⟩
    rw [m.rest s hne] at hs
    have hold : s ≠ start := by
      rintro rfl
      rw [replaced_self] at hs
      cases hs
    rw [replaced_of_ne _ _ hold] at hs
    exact ⟨hs, hold⟩
  · rintro ⟨hs, hne⟩
    have hmoved : s ≠ moved := by
      rintro rfl
      rcases m.fresh with hold | hnone
      · exact hne hold
      · rw [hs] at hnone
        cases hnone
    rw [m.rest s hmoved, replaced_of_ne _ _ hne]
    exact ⟨hs, hmoved⟩

theorem extentOf_eq (offset : Nat) :
    h'.extentOf offset = if moved ≤ offset ∧ offset < moved + length' then .ok (moved, length')
      else h.extentWithout start length offset := by
  by_cases hin : moved ≤ offset ∧ offset < moved + length'
  · rw [if_pos hin]
    exact m.after.extentOf_eq_ok_iff.2 ⟨m.new, hin⟩
  rw [if_neg hin, extentWithout]
  have left {s l : Nat} (hs : h'.objectAt s = some l) (hl : s ≤ offset ∧ offset < s + l) :
      h.objectAt s = some l ∧ s ≠ start := by
    refine m.other_iff.1 ⟨hs, ?_⟩
    rintro rfl
    rw [m.new, Option.some.injEq] at hs
    rw [hs] at hin
    exact hin hl
  by_cases hold : start ≤ offset ∧ offset < start + length
  · rw [if_pos hold]
    refine m.after.extentOf_eq_invalid fun s l hs hl => (left hs hl).2 ?_
    exact m.before.disjoint s l start length offset (left hs hl).1 m.old hl hold
  · rw [if_neg hold]
    refine m.before.extentOf_congr m.after fun s l hl =>
      ⟨fun hs => (left hs hl).1, fun hs => (m.other_iff.2 ⟨hs, ?_⟩).1⟩
    rintro rfl
    rw [m.old, Option.some.injEq] at hs
    rw [hs] at hold
    exact hold hl

/-- The new object takes nothing from the others. -/
theorem takes (offset s l : Nat) (hlo : moved ≤ offset) (hhi : offset < moved + length')
    (he : h.extentOf offset = .ok (s, l)) : s = start := by
  obtain ⟨hs, hin⟩ := m.before.extentOf_eq_ok_iff.1 he
  refine Decidable.byContradiction fun hne => ?_
  obtain ⟨hs', hmoved⟩ := m.other_iff.2 ⟨hs, hne⟩
  exact hmoved (m.after.disjoint s l moved length' offset hs' m.new hin ⟨hlo, hhi⟩)

end Moved

theorem Reallocated.moved {handle moved size length : Nat} (r : Reallocated h h' handle moved size)
    (w : h.WellFormed) (hobj : h.objectAt (h.allocationOf handle) = some length) :
    ∃ length', size ≤ length' ∧ Moved h h' (h.allocationOf handle) length moved length' := by
  obtain ⟨⟨length', hle, ⟨rfl, hs, t⟩ | ⟨hfresh, t⟩⟩, -⟩ := r
  · have hself : h.allocationOf moved = moved := by rw [allocationOf, hs]; rfl
    refine ⟨length', hle, w, t.wellFormed, hobj, (t.objects_eq _).trans (replaced_self _ _ _),
      .inl hself.symm, fun s hne => ?_⟩
    rw [t.objects_eq, hself, replaced_of_ne _ _ hne, replaced_of_ne _ _ hne]
  · have hne : moved ≠ h.allocationOf handle := by
      intro he
      rw [he, hobj] at hfresh
      cases hfresh
    refine ⟨length', hle, w, t.wellFormed, hobj, ?_, .inr hfresh, fun s hs => ?_⟩
    · rw [t.objects_eq, replaced_of_ne _ _ hne, replaced_self]
    · rw [t.objects_eq, replaced_comm _ hne, replaced_of_ne _ _ hs]

namespace Isolated

/-- A name is freed as its handle is. -/
theorem freeNamed_granted (i : Isolated h live) {name : String} {handle : Handle}
    (found : h.names.find? name = some handle) {length : Nat}
    (hobj : h.objectAt (h.allocationOf handle) = some length) :
    ∃ h', freeNamed name h = .ok () h' ∧
      ∀ offset, h'.extentOf offset = h.extentWithout (h.allocationOf handle) length offset := by
  have w := i.wellFormed
  obtain ⟨⟨⟩, h', ran, handle', h₁, names, hf, -, t, -, -, heq, w'⟩ :=
    (freeNamed_ends w name).exists_ok fun e h' hE => by
      rcases hE.2 with ⟨hnone, -⟩ | ⟨handle', hf, hnone, -⟩
      · rw [found] at hnone
        cases hnone
      · rw [found, Option.some.injEq] at hf
        rw [← hf, hobj] at hnone
        cases hnone
  rw [found, Option.some.injEq] at hf
  subst hf
  exact ⟨h', ran, extentOf_of_replaced w w' hobj (by rw [heq]; exact t.objects_eq)⟩

/-- A handle that is resized gives up the object behind it, and the new object takes nothing from
any other. -/
theorem reallocate_granted (i : Isolated h live) {handle size moved : Nat}
    (ran : reallocate handle size h = .ok moved h') {length : Nat}
    (hobj : h.objectAt (h.allocationOf handle) = some length) :
    ∃ length', size ≤ length' ∧
      (∀ offset, h'.extentOf offset =
        if moved ≤ offset ∧ offset < moved + length' then .ok (moved, length')
        else h.extentWithout (h.allocationOf handle) length offset) ∧
      ∀ offset s l, moved ≤ offset → offset < moved + length' → h.extentOf offset = .ok (s, l) →
        s = h.allocationOf handle := by
  obtain ⟨length', hle, m⟩ :=
    ((reallocate_ends i.wellFormed handle size).of_ok ran).1.moved i.wellFormed hobj
  exact ⟨length', hle, m.extentOf_eq, m.takes⟩

/-- Nothing changes where a handle is not resized. -/
theorem reallocate_refused (i : Isolated h live) {handle size : Nat} {e : HeapError}
    (hlive : live handle ≠ none) (ran : reallocate handle size h = .error (.refused e) h') :
    h' = h := by
  rcases ((reallocate_ends i.wellFormed handle size).of_refused ran).left with ⟨same, -⟩ | ⟨-, hnone, -⟩
  · exact same
  · obtain ⟨length, hobj, -⟩ := i.extentOf_eq hlive
    rw [hobj] at hnone
    cases hnone

end Isolated

/-! ## Alignment records -/

/-- Every record leads from a handle of the client to the run of blocks that the handle lies in, one
that starts before it and is led to by no other record, and no object starts at the handle itself.
There are no more records than there may be, and no handle of the client lacks one that it needs.
Whatever handle of the client is given up, by itself, by its name or for a resized object, the
object it lies in is released and no other. -/
theorem held_records_sound (c : Custody host g region h book saved) :
    (∀ handle start, h.aligned.start? handle = some start → start < handle ∧ book.live handle ≠ none ∧
      h.objectAt handle = none ∧ ∃ block count, h.table.get? block = some (.run count) ∧
        start = h.blockStart block ∧ h.extentOf handle = .ok (start, count * h.blockSize)) ∧
    (∀ handle handle' start, h.aligned.start? handle = some start →
      h.aligned.start? handle' = some start → handle = handle') ∧
    h.aligned.size ≤ g.maxAligned ∧
    ∀ handle, book.live handle ≠ none → ∃ start length, h.extentOf handle = .ok (start, length) ∧
      (start ≠ handle → h.aligned.start? handle = some start) ∧
      ∀ refusals,
        (∃ h', free handle (h.withRefusals refusals) = .ok () h' ∧
          ∀ offset, h'.extentOf offset = h.extentWithout start length offset) ∧
        (∀ name, h.names.find? name = some handle →
          ∃ h', freeNamed name (h.withRefusals refusals) = .ok () h' ∧
            ∀ offset, h'.extentOf offset = h.extentWithout start length offset) ∧
        ∀ size,
          (∀ moved h', reallocate handle size (h.withRefusals refusals) = .ok moved h' →
            ∃ length', size ≤ length' ∧
              (∀ offset, h'.extentOf offset =
                if moved ≤ offset ∧ offset < moved + length' then .ok (moved, length')
                else h.extentWithout start length offset) ∧
              ∀ offset s l, moved ≤ offset → offset < moved + length' →
                h.extentOf offset = .ok (s, l) → s = start) ∧
          ∀ e h', reallocate handle size (h.withRefusals refusals) = .error (.refused e) h' →
            h' = h.withRefusals refusals := by
  obtain ⟨-, k, -⟩ := c.guarded
  have i := k.toIsolated
  have w := i.wellFormed
  have recordedLive {handle start : Nat} (hs : h.aligned.start? handle = some start) :
      book.live handle ≠ none :=
    i.live_of_contains (by rw [AlignmentRecords.contains, hs]; rfl)
  have recordedStart {handle start : Nat} (hs : h.aligned.start? handle = some start) :
      h.allocationOf handle = start := by rw [allocationOf, hs]; rfl
  refine ⟨fun handle start hs => ?_, fun handle handle' start hs hs' => ?_, ?_,
    fun handle hlive => ?_⟩
  · obtain ⟨hlt, length, hobj, hle⟩ := k.leadToRuns handle start hs
    obtain ⟨length', hobj', hext⟩ := i.extentOf_eq (recordedLive hs)
    rw [recordedStart hs] at hobj' hext
    obtain ⟨count, hrun, hstart, hlength⟩ := w.run_of_le hobj' (by
      rw [hobj, Option.some.injEq] at hobj'
      rw [← hobj']
      exact hle)
    rw [hlength] at hext
    refine ⟨hlt, recordedLive hs, ?_, h.blockOf start, count, hrun, hstart, hext⟩
    refine Option.eq_none_iff_forall_not_mem.2 fun l hl => Nat.ne_of_lt hlt ?_
    obtain ⟨hold, hin⟩ := w.extentOf_eq_ok_iff.1 hext
    have hpos := (w.object_bounds hl).1
    exact w.disjoint start _ handle l handle hold hl hin ⟨Nat.le_refl _, by omega⟩
  · refine i.tracks.own handle handle' (recordedLive hs) (recordedLive hs') ?_
    exact (recordedStart hs).trans (recordedStart hs').symm
  · rw [← k.capacity_eq]
    exact w.records.size_le
  · obtain ⟨length, hobj, hext⟩ := i.extentOf_eq hlive
    refine ⟨h.allocationOf handle, length, hext, fun hne => ?_, fun refusals => ?_⟩
    · rw [allocationOf] at hne ⊢
      cases hs : h.aligned.start? handle with
      | none =>
        rw [hs] at hne
        exact absurd rfl hne
      | some start => rfl
    · have i := i.withRefusals refusals
      exact ⟨i.wellFormed.free_granted hobj, fun name found => i.freeNamed_granted found hobj,
        fun size => ⟨fun moved h' ran => i.reallocate_granted ran hobj,
          fun e h' ran => i.reallocate_refused hlive ran⟩⟩

/-- The handle at 512 leads to a run of blocks at 256, and all of it is released. -/
theorem held_records_small : ∃ h book saved, Custody .ample widerGeometry smallRegion h book saved ∧
    h.aligned.start? 512 = some 256 ∧ book.live 512 ≠ none ∧ book.live 256 = none ∧
      ∃ h', free 512 h = .ok () h' ∧ h'.extentOf 256 = .error (.refused (.invalidPointer 256)) := by
  have run : (onBoundary?.bind fun h =>
      if h.aligned.start? 512 = some 256 then some h else none).isSome = true := by
    decide +kernel
  obtain ⟨h₁, run⟩ := Option.isSome_iff_exists.1 run
  obtain ⟨h, hb, run⟩ := Option.bind_eq_some_iff.1 run
  rw [Option.ite_none_right_eq_some] at run
  obtain ⟨hrecord, -⟩ := run
  obtain ⟨h₀, _, hc, s, -, h256, -⟩ := serves_onBoundary? hb
  obtain ⟨book, saved, c, rfl⟩ := s.custody hc
  obtain ⟨records, -, -, handles⟩ := held_records_sound c
  obtain ⟨-, hlive, -, block, count, -, -, hext⟩ := records 512 256 hrecord
  obtain ⟨start, length, hext', -, released⟩ := handles 512 hlive
  obtain ⟨⟨h', ran, gone⟩, -⟩ := released h.region.refusals
  refine ⟨h, book, saved, c, hrecord, hlive, h256, h', ran, ?_⟩
  rw [hext] at hext'
  cases hext'
  have hin := (c.guarded.2.1.wellFormed.extentOf_eq_ok_iff.1 hext).2
  rw [gone, extentWithout, if_pos (by omega)]

end RegionHeap.Heap
