import RegionHeap.Proofs.Blocks.Occupancy
import RegionHeap.Proofs.Heap.Releasing
import RegionHeap.Proofs.Heap.Resolution

/-!
Contents survive reallocation. The object of a handle that is resized keeps its bytes, as many as fit,
at the handle that is answered, and every other live object keeps all of its own. If the object moved,
what the old handle led to is gone; if it stayed, the rest of the arena did, too: the only blocks that
change are free ones right behind the object or at the end of the arena (`reallocate_preserves`).
-/
namespace RegionHeap.Heap

open HeapM BlockTable

variable {h h' : Heap} {host : Host} {g : Geometry} {region : Region} {live : Account}
  {book saved : Book}
  {handle moved size block length want : Nat}

/-! ## In place -/

/-- Nothing changes but the object of a handle, which was `length` bytes long and has now `length'`,
and free blocks: those right behind the object, and those at the end of the arena. -/
structure OnlyResized (h h' : Heap) (handle length length' : Nat) : Prop where
  aligned_eq : h'.aligned = h.aligned
  names_eq : h'.names = h.names
  busy_eq : h'.busy = h.busy
  runs : ∀ block, h.blockStart block ≠ handle → h'.table.busyRun? block = h.table.busyRun? block
  free : ∃ free free', h.table.freeRuns? = some free ∧ h'.table.freeRuns? = some free' ∧
    (∀ start count, (start, count) ∈ free → h.blockStart start ≠ handle + length →
      start + count ≠ h.blockCount → (start, count) ∈ free') ∧
    ∀ start count, (start, count) ∈ free' → h.blockStart start ≠ handle + length' →
      start + count ≠ h'.blockCount → (start, count) ∈ free

theorem WellFormed.onlyResized (w : h.WellFormed) (handle length : Nat) :
    OnlyResized h h handle length length := by
  obtain ⟨runs, hl⟩ := w.laidOut
  obtain ⟨free, hfree, -⟩ := hl.freeRuns?_eq
  exact ⟨rfl, rfl, rfl, fun _ _ => rfl, free, free, hfree, hfree, fun _ _ hm _ _ => hm,
    fun _ _ hm _ _ => hm⟩

/-- Blocks are right behind a run of blocks if they start at its last byte's next. -/
theorem blockStart_add_ne {start : Nat}
    (hne : h.blockStart start ≠ h.blockStart block + length * h.blockSize) : start ≠ block + length := by
  rintro rfl
  rw [blockStart, blockStart, Nat.add_mul] at hne
  exact hne rfl

/-- A run of blocks that becomes another number of blocks. -/
theorem Turns.onlyResized (w : h.WellFormed) (run : h.runLength? block = some length)
    (run' : h'.runLength? block = some want)
    (t : Turns h h' (replaced h.objectAt (h.blockStart block) (some (want * h.blockSize)))) :
    OnlyResized h h' (h.blockStart block) (length * h.blockSize) (want * h.blockSize) := by
  have hlog := blockLog2_of_frame t.frame_eq
  have same (b : Nat) (hb : b ≠ block) : SameIn h h' b := by
    refine ⟨w, t.wellFormed, hlog, fun start hs => ?_⟩
    rw [t.objects_eq, replaced_of_ne]
    rintro rfl
    rw [blockOf_blockStart] at hs
    exact hb hs.symm
  have hbusy : h'.busy = h.busy := by
    refine OrderedMap.ext_find? fun b => ?_
    by_cases hb : b = block
    · -- a run of blocks has no map
      have none_of {k : Heap} (wk : k.WellFormed) {n : Nat} (hr : k.runLength? block = some n) :
          k.busy.find? block = none := by
        refine Option.eq_none_iff_forall_not_mem.2 fun m hm => ?_
        obtain ⟨log2, hc⟩ := wk.maps block m hm
        obtain ⟨nfree, hg⟩ := cutLog2?_eq_some.1 hc
        rw [runLength?_eq_some.1 hr] at hg
        cases hg
      rw [hb, none_of w run, none_of t.wellFormed run']
    · exact (same b hb).busyMap_eq
  obtain ⟨runs, hl⟩ := w.laidOut
  obtain ⟨runs', hl'⟩ := t.wellFormed.laidOut
  obtain ⟨free, hfree, -, hgap⟩ := hl.freeRuns?_eq
  obtain ⟨free', hfree', -, hgap'⟩ := hl'.freeRuns?_eq
  have r : h.table.occupancy.Resizes h'.table.occupancy block length want :=
    ⟨hl.toTiled.sound, hl'.toTiled.sound, lengthAt?_of_runLength? run, lengthAt?_of_runLength? run',
      fun b hb => congrArg (Option.map Run.length) (same b hb).busyRun?_eq⟩
  refine ⟨t.aligned_eq, t.names_eq, hbusy, fun b hb => (same b ?_).busyRun?_eq, free, free', hfree,
    hfree', fun start count hm hne hend => ?_, fun start count hm hne hend => ?_⟩
  · rintro rfl
    exact hb rfl
  · exact (hgap' start count).2 (r.isGap ((hgap start count).1 hm) (blockStart_add_ne hne) hend)
  · exact (hgap start count).2 (r.symm.isGap ((hgap' start count).1 hm) (blockStart_add_ne hne) hend)

/-! ## Handles of a client -/

namespace Isolated

/-- A new object is no part of one that was there when it was allocated. -/
theorem moved_apart (i : Isolated h live) {h₁ : Heap} (fresh : h.objectAt moved = none)
    (t : Turns h h₁ (replaced h.objectAt moved (some want))) {start : Nat}
    (hext : h.extentOf handle = .ok (start, length)) {offset : Nat} (hlo : start ≤ offset)
    (hhi : offset < start + length) : ¬(moved ≤ offset ∧ offset < moved + want) := by
  obtain ⟨hobj, -⟩ := i.wellFormed.extentOf_eq_ok_iff.1 hext
  have hne : start ≠ moved := by
    rintro rfl
    rw [fresh] at hobj
    cases hobj
  intro hin
  refine hne (t.wellFormed.disjoint start length moved want offset ?_ ?_ ⟨hlo, hhi⟩ hin)
  · rw [t.objects_eq, replaced_of_ne _ _ hne, hobj]
  · rw [t.objects_eq, replaced_self]

/-- What a handle led to is gone once its object has moved, and its record is. -/
theorem gone_of_moved (i : Isolated h live) (hlive : live handle ≠ none)
    (r : Reallocated h h' handle moved size) (how : Resized h h' handle moved)
    (hne : moved ≠ handle) {start : Nat} (hext : h.extentOf handle = .ok (start, length)) :
    (∀ offset, start ≤ offset → offset < start + length →
      h'.extentOf offset = .error (.refused (.invalidPointer offset))) ∧
    h'.aligned = h.aligned.erase handle := by
  obtain ⟨length', hobj, hext'⟩ := i.extentOf_eq hlive
  rw [hext, Except.ok.injEq] at hext'
  cases hext'
  cases how with
  | same => exact absurd rfl hne
  | inPlace => exact absurd rfl hne
  | @moved _ new h₁ fresh t stays =>
    obtain ⟨want, -, m⟩ := r.moved i.wellFormed hobj
    have hnew : new = want := by
      have := stays (by rw [hobj]; exact Option.some_ne_none _)
      rw [m.new, Option.some.injEq] at this
      exact this.symm
    refine ⟨fun offset hlo hhi => ?_, ?_⟩
    · rw [m.extentOf_eq, if_neg, extentWithout, if_pos ⟨hlo, hhi⟩]
      rw [← hnew]
      exact i.moved_apart fresh t hext hlo hhi
    · obtain ⟨⟨_, -, ⟨rfl, -⟩ | ⟨-, t'⟩⟩, -⟩ := r
      · exact absurd rfl hne
      · exact t'.aligned_eq

/-- An object that has not moved is as it was, or a run of blocks that has another length. -/
theorem onlyResized (i : Isolated h live) (how : Resized h h' handle handle) {start length' : Nat}
    (hext : h.extentOf handle = .ok (start, length))
    (hext' : h'.extentOf handle = .ok (handle, length')) : OnlyResized h h' handle length length' := by
  have w := i.wellFormed
  cases how with
  | same eq =>
    subst eq
    rw [hext, Except.ok.injEq] at hext'
    cases hext'
    exact w.onlyResized _ _
  | inPlace handle_eq run run' t =>
    subst handle_eq
    have hobj := (w.runLength?_eq_some_iff.1 run).2
    have hpos := (w.object_bounds hobj).1
    have hself := w.extentOf_eq_ok_iff.2 ⟨hobj, Nat.le_refl _, Nat.lt_add_of_pos_right hpos⟩
    rw [hext, Except.ok.injEq] at hself
    cases hself
    have hobj' := (t.wellFormed.extentOf_eq_ok_iff.1 hext').1
    rw [t.objects_eq, replaced_self, Option.some.injEq] at hobj'
    subst hobj'
    exact t.onlyResized w run run'
  | moved fresh t stays =>
    -- the new object would lie in the old one
    obtain ⟨hle, hlt⟩ := (w.extentOf_eq_ok_iff.1 hext).2
    have hnew := (t.objects_eq handle).trans (replaced_self _ _ _)
    have hpos := (t.wellFormed.object_bounds hnew).1
    exact absurd ⟨Nat.le_refl _, Nat.lt_add_of_pos_right hpos⟩
      (i.moved_apart fresh t hext hle hlt)

end Isolated

/-- A client that reallocates an object it holds goes on with the handle that it was answered. There
the object has room for what was asked and the bytes that it had, as many as there are on both sides;
the extents and the bytes of all other objects are as they were. If that is another handle, the old
one and its record are gone and its object is. If it is the same, no record and no busy run but its
own has changed, and no free run but those behind it and at the end of the arena. -/
theorem reallocate_preserves (c : Custody host g region h book saved) (hlive : book.live handle ≠ none)
    {refusals : Option Refusals}
    (ran : reallocate handle size (h.withRefusals refusals) = .ok moved h') :
    ∃ book', Custody host g region h' book' saved ∧
      book'.live = replaced (replaced book.live handle none) moved (some size) ∧
    ∃ start length usable length',
      h.extentOf handle = .ok (start, length) ∧ usableFrom handle h = .ok usable h ∧
      h'.extentOf moved = .ok (moved, length') ∧ usableFrom moved h' = .ok length' h' ∧
      size ≤ length' ∧
      (∀ i, i < min usable size → h'.arenaByte (moved + i) = h.arenaByte (handle + i)) ∧
      (∀ other s l, book.live other ≠ none → other ≠ handle → h.extentOf other = .ok (s, l) →
        other ≠ moved ∧ book'.live other = book.live other ∧ h'.extentOf other = .ok (s, l) ∧
          ∀ i, s ≤ i → i < s + l → h'.arenaByte i = h.arenaByte i) ∧
      (moved ≠ handle → book'.live handle = none ∧
        (∀ offset, start ≤ offset → offset < start + length →
          h'.extentOf offset = .error (.refused (.invalidPointer offset))) ∧
        h'.aligned.start? handle = none ∧
        ∀ other, other ≠ handle → h'.aligned.start? other = h.aligned.start? other) ∧
      (moved = handle → OnlyResized h h' handle length length') := by
  have i := c.guarded.2.1.toIsolated.withRefusals refusals
  have w := i.wellFormed
  obtain ⟨r, how⟩ := (reallocate_ends w handle size).of_ok ran
  obtain ⟨i', keeps⟩ := i.reallocated hlive r
  have w' := i'.wellFormed
  obtain ⟨length, hobj, hext⟩ := i.extentOf_eq hlive
  obtain ⟨length', hle, m⟩ := r.moved w hobj
  obtain ⟨-, hlo, hhi⟩ := w.extentOf_eq_ok_iff.1 hext
  have hpos := (w'.object_bounds m.new).1
  have hext' := w'.extentOf_eq_ok_iff.2 ⟨m.new, Nat.le_refl _, Nat.lt_add_of_pos_right hpos⟩
  have haccount : (book.after h (.reallocate handle size) (.handle moved) h').live =
      replaced (replaced book.live handle none) moved (some size) := book.live_after _ _ _ _
  have permitted : h.Permits book.live (.reallocate handle size) := fun p hp => by
    cases hp
    exact hlive
  have custody := c.granted refusals (.reallocate handle size) _ nofun permitted (handle_eq_ok_iff.2 ran)
  have husable' := w'.usableFrom_eq hext'
  rw [Nat.add_sub_cancel_left] at husable'
  refine ⟨_, custody, haccount, _, length, _, length', hext,
    c.guarded.2.1.wellFormed.usableFrom_eq hext, hext', husable', hle, ?_, ?_, ?_, ?_⟩
  · intro n hn
    refine r.contents (by rw [hobj]; exact Option.some_ne_none _) _ _ ⟨?_, hlo, ?_⟩ n
      (Nat.lt_of_lt_of_le hn (Nat.min_le_left _ _)) (Nat.lt_of_lt_of_le hn (Nat.min_le_right _ _))
    · rw [hobj]
      congr 1
      omega
    · omega
  · intro other s l hother hne hs
    obtain ⟨l', -, hs'⟩ := i.extentOf_eq hother
    have hs : (h.withRefusals refusals).extentOf other = .ok (s, l) := hs
    rw [hs, Except.ok.injEq] at hs'
    obtain ⟨rfl, rfl⟩ := hs'
    have hstart : (h.withRefusals refusals).allocationOf other ≠
        (h.withRefusals refusals).allocationOf handle := fun heq =>
      hne (i.tracks.own other handle hother hlive heq)
    have hmoved : other ≠ moved := by
      rintro rfl
      exact hstart (m.takes other _ _ (Nat.le_refl _) (Nat.lt_add_of_pos_right hpos) hs)
    obtain ⟨hold, -⟩ := w.extentOf_eq_ok_iff.1 hs
    obtain ⟨hnew, hbytes⟩ := keeps _ hstart _ hold
    refine ⟨hmoved, ?_, w.extentOf_kept w' hs hnew, fun n hlo hhi => ?_⟩
    · rw [haccount, replaced_of_ne _ _ hmoved, replaced_of_ne _ _ hne]
    · have := hbytes (n - (h.withRefusals refusals).allocationOf other) (by omega)
      rwa [Nat.add_sub_cancel' hlo] at this
  · intro hne
    obtain ⟨gone, records⟩ := i.gone_of_moved hlive r how hne hext
    have start? (other : Nat) := AlignmentRecords.start?_erase h.aligned handle other
    refine ⟨?_, gone, ?_, fun other hother => ?_⟩
    · rw [haccount, replaced_of_ne _ _ (Ne.symm hne), replaced_self]
    · rw [records]
      exact (start? handle).trans (if_pos rfl)
    · rw [records]
      exact (start? other).trans (if_neg (Ne.symm hother))
  · rintro rfl
    have o := i.onlyResized how hext hext'
    exact ⟨o.aligned_eq, o.names_eq, o.busy_eq, o.runs, o.free⟩

/-- An object of 300 bytes in the last two blocks of the arena gets 1000 bytes where it is. -/
theorem reallocate_preserves_small : ∃ h book saved h' usable length,
    Custody .ample smallGeometry smallRegion h book saved ∧ book.live 0 = some 300 ∧
    reallocate 0 1000 h = .ok 0 h' ∧ usableFrom 0 h = .ok usable h ∧ usableFrom 0 h' = .ok length h' ∧
    1000 ≤ length ∧ (∀ i, i < min usable 1000 → h'.arenaByte (0 + i) = h.arenaByte (0 + i)) ∧
    h'.aligned = h.aligned := by
  have run : ((create .ample smallGeometry smallRegion).toOption.bind fun h =>
      (h.answering? (.allocate 300) 0).bind (·.answering? (.reallocate 0 1000) 0)).isSome = true := by
    decide +kernel
  obtain ⟨h', run⟩ := Option.isSome_iff_exists.1 run
  obtain ⟨h₀, hc, run⟩ := Option.bind_eq_some_iff.1 run
  obtain ⟨h, run₁, run₂⟩ := Option.bind_eq_some_iff.1 run
  have ran : reallocate 0 1000 (h.withRefusals h.region.refusals) = .ok 0 h' :=
    handle_eq_ok_iff.1 (answering?_eq_some_iff.1 run₂)
  obtain ⟨book, saved, c, hbook⟩ :=
    (Serves.start.answered run₁ rfl).custody (toOption_eq_some_iff.1 hc)
  have h300 : book.live 0 = some 300 := by
    rw [hbook]
    rfl
  have hlive : book.live 0 ≠ none := by
    rw [h300]
    exact Option.some_ne_none _
  obtain ⟨_, -, -, _, _, usable, length, -, husable, -, hroom, hle, bytes, -, -, stays⟩ :=
    reallocate_preserves c hlive ran
  exact ⟨h, book, saved, h', usable, length, c, h300, ran, husable, hroom, hle, bytes,
    (stays rfl).aligned_eq⟩

end RegionHeap.Heap
