import RegionHeap.Proofs.Heap.ObjectSteps

/-!
Moving and resizing objects. An object is resized where it is, or its bytes are copied to a new
object and the allocation behind its handle is freed.
-/
namespace RegionHeap.Heap

open HeapM BlockTable

variable {h h' : Heap} {E : HeapError → Heap → Prop}

/-- What becomes of the object behind a handle. It stays in place with another length, or a new
object takes its place. Its bytes are those of before, as far as both reach. -/
structure Reallocated (h h' : Heap) (handle moved size : Nat) : Prop where
  objects : ∃ length, size ≤ length ∧
    (moved = handle ∧ h.aligned.start? handle = none ∧
        Turns h h' (replaced h.objectAt handle (some length)) ∨
      h.objectAt moved = none ∧ Turns (h.forgetRecord handle) h'
        (replaced (replaced h.objectAt moved (some length)) (h.allocationOf handle) none))
  contents : h.objectAt (h.allocationOf handle) ≠ none → ∀ usable start,
    Within h handle usable start → ∀ i, i < usable → i < size →
      h'.arenaByte (moved + i) = h.arenaByte (handle + i)

/-- How an object is resized. It stays as it is, or is a run of blocks that becomes another number of
blocks, or a new object is allocated while it is still there. -/
inductive Resized (h h' : Heap) (handle : Handle) : Handle → Prop where
  | same (eq : h' = h) : Resized h h' handle handle
  | inPlace {block length want : Nat} (handle_eq : handle = h.blockStart block)
    (run : h.runLength? block = some length) (run' : h'.runLength? block = some want)
    (t : Turns h h' (replaced h.objectAt handle (some (want * h.blockSize)))) :
    Resized h h' handle handle
  | moved {moved length : Nat} {h₁ : Heap} (fresh : h.objectAt moved = none)
    (t : Turns h h₁ (replaced h.objectAt moved (some length)))
    (stays : h.objectAt (h.allocationOf handle) ≠ none → h'.objectAt moved = some length) :
    Resized h h' handle moved

/-- The object has the length of its class, under its own handle or under another one. It is there
unless it moved to where its record led, and there was nothing. -/
structure Sized (h h' : Heap) (handle moved size : Nat) : Prop where
  own : moved = handle → h.allocationOf handle = handle
  length_eq : moved = handle ∨ moved ≠ h.allocationOf handle →
    h'.objectAt moved = some (h.classLength (h.sizeClass size))

/-- An object that is resized in place. -/
theorem Sized.stays {handle size : Nat} (hs : h.aligned.start? handle = none)
    (length_eq : h'.objectAt handle = some (h.classLength (h.sizeClass size))) :
    Sized h h' handle handle size := by
  refine ⟨fun _ => ?_, fun _ => length_eq⟩
  rw [allocationOf, hs]
  rfl

/-- Why an object was not resized, and what is left. Its handle or a new object was refused, and
nothing has changed; or its alignment record led nowhere, so that it could not be freed, and there
is one more object. -/
def KeptOrLeaked (h : Heap) (handle : Handle) (size : Nat) : HeapError → Heap → Prop := fun e h' =>
  h' = h ∧ (e = .invalidPointer handle ∨ allocate size h = .error (.refused e) h) ∨
    h.aligned.contains handle = true ∧ h.objectAt (h.allocationOf handle) = none ∧
    ∃ moved length, h.objectAt moved = none ∧
      Turns h h' (replaced h.objectAt moved (some length))

/-- An object that was not resized, and the error that says why: there is no room for a new object,
or an offset was refused, that of the handle or that of the allocation behind it. -/
structure NotResized (h : Heap) (handle : Handle) (size : Nat) (e : HeapError) (h' : Heap) :
    Prop where
  left : KeptOrLeaked h handle size e h'
  cause : e = .outOfMemory ∨ e = .invalidPointer handle ∨ e = .invalidPointer (h.allocationOf handle)

/-- The handle itself is refused. -/
theorem Rejected.notResized {handle : Handle} {e : HeapError} (r : Rejected h handle e h')
    (size : Nat) : NotResized h handle size e h' :=
  ⟨.inl ⟨r.1, .inl r.2⟩, .inr (.inl r.2)⟩

/-! ## Moving an object -/

/-- The first bytes from a handle on have been copied into a new object. -/
structure Copied (h h' : Heap) (handle moved length count : Nat) : Prop where
  fresh : h.objectAt moved = none
  turns : Turns h h' (replaced h.objectAt moved (some length))
  le_length : count ≤ length
  bytes : ∀ i, i < count → h'.arenaByte (moved + i) = h.arenaByte (handle + i)

/-- An object is still there, and can be read, when a new one has been allocated beside it. -/
theorem Within.read_beside {handle usable start moved length count : Nat}
    (hin : Within h handle usable start) (hfresh : h.objectAt moved = none)
    (t : Turns h h' (replaced h.objectAt moved (some length))) (hcount : count ≤ usable) :
    ∃ data, h'.readArena? handle count = some data ∧ data.size = count ∧
      ∀ i, i < count → Bytes.byte data i = h.arenaByte (handle + i) := by
  have hlo := hin.start_le
  have hne : start ≠ moved := by
    rintro rfl
    have := hin.object
    rw [hfresh] at this
    cases this
  have hold : h'.objectAt start = some (handle - start + usable) := by
    rw [t.objects_eq, replaced_of_ne _ _ hne, hin.object]
  have hregion := t.wellFormed.object_in_region hold
  obtain ⟨data, hd, hsize, hbytes⟩ := Region.read?_eq (r := h'.region)
    (h'.arenaStart + handle) count (by omega)
  refine ⟨data, hd, hsize, fun i hi => ?_⟩
  have hkeep := t.bytes_eq start _ _ hin.object ((t.objects_eq start).symm.trans hold)
    (handle - start + i) (by omega) (by omega)
  rw [show start + (handle - start + i) = handle + i by omega] at hkeep
  rw [hbytes i hi, ← hkeep, arenaByte, Nat.add_assoc]

namespace Copied

variable {h₁ h₂ : Heap} {handle moved length count : Nat}

theorem object_eq (c : Copied h h₁ handle moved length count) : h₁.objectAt moved = some length := by
  rw [c.turns.objects_eq, replaced_self]

theorem allocationOf_eq (c : Copied h h₁ handle moved length count) :
    h₁.allocationOf handle = h.allocationOf handle := by
  rw [allocationOf, allocationOf, c.turns.aligned_eq]

/-- With the allocation behind the handle freed, the new object has taken its place. -/
theorem freed (c : Copied h h₁ handle moved length count) (w : h.WellFormed)
    (t : Turns (h₁.forgetRecord handle) h₂
      (replaced h₁.objectAt (h₁.allocationOf handle) none)) :
    Turns (h.forgetRecord handle) h₂
      (replaced (replaced h.objectAt moved (some length)) (h.allocationOf handle) none) := by
  have hobjects : h₁.objectAt = replaced h.objectAt moved (some length) := funext c.turns.objects_eq
  rw [c.allocationOf_eq, hobjects] at t
  refine (c.turns.forgotten w handle).trans t fun s l l'' hs _ => ⟨l, ?_, .inl (Nat.le_refl l)⟩
  have hs' : h.objectAt s = some l := hs
  rw [replaced_of_ne _ _ (by rintro rfl; rw [c.fresh] at hs'; cases hs'), hs']

/-- What was copied is still there when the old allocation has been freed. -/
theorem freed_bytes (c : Copied h h₁ handle moved length count)
    (t : Turns (h₁.forgetRecord handle) h₂
      (replaced h₁.objectAt (h₁.allocationOf handle) none))
    (hne : moved ≠ h.allocationOf handle) {i : Nat} (hi : i < count) :
    h₂.arenaByte (moved + i) = h.arenaByte (handle + i) := by
  have hle := c.le_length
  have hkept : replaced h₁.objectAt (h₁.allocationOf handle) none moved = some length := by
    rw [c.allocationOf_eq, replaced_of_ne _ _ hne, c.object_eq]
  rw [t.bytes_eq moved length length c.object_eq hkept i (by omega) (by omega)]
  exact c.bytes i hi

/-- The handle's record led nowhere, so nothing was freed and the new object is left. -/
theorem leaked (c : Copied h h₁ handle moved length count) {size : Nat} {e : HeapError}
    (hstands : h.aligned.contains handle = true ∨ h.objectAt handle ≠ none)
    (rejected : Rejected h₁ (h₁.allocationOf handle) e h₂)
    (hnone : h₁.objectAt (h₁.allocationOf handle) = none) : NotResized h handle size e h₂ := by
  obtain ⟨rfl, he⟩ := rejected
  rw [c.allocationOf_eq] at he
  have hvacant : h.objectAt (h.allocationOf handle) = none := by
    rw [c.allocationOf_eq, c.turns.objects_eq, replaced] at hnone
    split at hnone
    · cases hnone
    · exact hnone
  refine ⟨.inr ⟨?_, hvacant, moved, length, c.fresh, c.turns⟩, .inr (.inr he)⟩
  rcases hstands with hc | hobj
  · exact hc
  · -- without a record the handle itself would have been freed
    rw [AlignmentRecords.contains]
    cases hs : h.aligned.start? handle with
    | some start => rfl
    | none =>
      rw [allocationOf, hs] at hvacant
      exact absurd hvacant hobj

end Copied

theorem moveObject_ends (w : h.WellFormed) (handle size : Nat)
    (hstands : h.aligned.contains handle = true ∨ h.objectAt handle ≠ none) :
    Ends h.frame.Roomy (moveObject handle size) h
      (fun moved h' => Reallocated h h' handle moved size ∧ Resized h h' handle moved ∧
        Sized h h' handle moved size) (NotResized h handle size) := by
  refine Ends.bind' ((usableFrom_ends w handle).mono ?_ fun _ _ hE => hE.notResized size)
  rintro usable h' ⟨rfl, start, hin⟩
  refine Ends.bind' ((allocate_lodged w size).with_run.mono ?_ ?_)
  rotate_left
  · rintro e h₁ ⟨⟨⟨rfl, he⟩, -⟩, ran⟩
    exact ⟨.inl ⟨rfl, .inr ran⟩, .inl he⟩
  intro moved h₁ allocated
  obtain ⟨hfresh, t₁, -⟩ := allocated.1
  have hle := le_classLength w size
  generalize hlength : h'.classLength (h'.sizeClass size) = length at t₁ hle
  obtain ⟨data, hd, hsize, hbytes⟩ := hin.read_beside hfresh t₁ (Nat.min_le_left usable size)
  refine Ends.bind' (Ends.get' (Ends.bind' (Ends.orTrap' hd ?_)))
  have hnew : h₁.objectAt moved = some length := by rw [t₁.objects_eq, replaced_self]
  refine Ends.bind' ((writeObject_ends t₁.wellFormed hnew (Nat.le_refl _) (by omega)).mono ?_
    fun _ _ hE => hE)
  rintro - h₂ ⟨wr, hb⟩
  have c : Copied h' h₂ handle moved length (min usable size) := by
    refine ⟨hfresh, t₁.then_writes wr hfresh, by omega, fun i hi => ?_⟩
    rw [hb, if_pos ⟨by omega, by omega⟩, Nat.add_sub_cancel_left, hbytes i hi]
  refine Ends.bind' ((free_ends c.turns.wellFormed handle).mono ?_
    fun _ _ hE => c.leaked hstands hE.1 hE.2)
  rintro - h₃ ⟨-, t₃⟩
  have stays (hne : moved ≠ h'.allocationOf handle) : h₃.objectAt moved = some length := by
    rw [t₃.objects_eq, c.allocationOf_eq, replaced_of_ne _ _ hne, c.object_eq]
  -- the allocation behind the handle was there before, so the new object is another one
  have apart (hsome : h'.objectAt (h'.allocationOf handle) ≠ none) :
      moved ≠ h'.allocationOf handle := by
    intro heq
    rw [← heq] at hsome
    exact hsome hfresh
  have hmoved := hin.ne_of_fresh hfresh t₁
  refine Ends.pure' ⟨⟨⟨length, hle, .inr ⟨hfresh, c.freed w t₃⟩⟩,
    fun hsome usable' start' hin' i hi hi' => ?_⟩,
    .moved hfresh t₁ fun hsome => stays (apart hsome), fun heq => absurd heq hmoved,
    fun hwhere => ?_⟩
  · have hlo := hin.start_le
    have hlo' := hin'.start_le
    have hpos := hin.pos
    have hpos' := hin'.pos
    obtain ⟨rfl, hlen⟩ := w.object_unique hin.object hin'.object (i := handle) (by omega) (by omega)
    exact c.freed_bytes t₃ (apart hsome) (by omega)
  · rw [hlength]
    exact stays (hwhere.resolve_left hmoved)

/-! ## Resizing in place -/

/-- A new length in place. -/
theorem Turns.reallocated {handle length size : Nat} (w : h.WellFormed)
    (t : Turns h h' (replaced h.objectAt handle (some length)))
    (hs : h.aligned.start? handle = none) (hobj : h.objectAt handle ≠ none) (hle : size ≤ length) :
    Reallocated h h' handle handle size := by
  refine ⟨⟨length, hle, .inl ⟨rfl, hs, t⟩⟩, fun _ usable start hin i hi hi' => ?_⟩
  obtain ⟨l, hl⟩ := Option.ne_none_iff_exists'.1 hobj
  have hlo := hin.start_le
  have hpos := hin.pos
  have hl0 := (w.object_bounds hl).1
  obtain ⟨rfl, heq⟩ := w.object_unique hin.object hl (i := handle) (by omega) (by omega)
  exact t.bytes_eq start l length hl (replaced_self _ _ _) i (by omega) (by omega)

/-- An object that stays as it is. -/
theorem WellFormed.reallocated (w : h.WellFormed) {handle length size : Nat}
    (hs : h.aligned.start? handle = none) (hobj : h.objectAt handle = some length)
    (hle : size ≤ length) : Reallocated h h handle handle size := by
  have t : Turns h h (replaced h.objectAt handle (some length)) := (Turns.refl w).of_eq fun s => by
    by_cases he : s = handle
    · rw [he, replaced_self, hobj]
    · rw [replaced_of_ne _ _ he]
  exact t.reallocated w hs (by rw [hobj]; exact Option.some_ne_none _) hle

/-- A run of blocks that becomes as many blocks as its new size needs. -/
theorem Turns.resized_run {handle size length want : Nat} (w : h.WellFormed)
    (hs : h.aligned.start? handle = none) (hr : h.runLength? (h.blockOf handle) = some length)
    (hal : handle % h.blockSize = 0) (hclass : h.sizeClass size = .blocks want)
    (t : Turns h h' (replaced h.objectAt (h.blockStart (h.blockOf handle))
      (some (want * h.blockSize)))) :
    Reallocated h h' handle handle size ∧ Resized h h' handle handle ∧
      Sized h h' handle handle size := by
  have hfits := sizeClass_fits w size
  rw [hclass] at hfits
  obtain ⟨hpos, hle⟩ := hfits
  have hstart := eq_blockStart rfl hal
  have hobj : h.objectAt handle ≠ none := by
    rw [hstart, objectAt_of_run hr]
    exact Option.some_ne_none _
  have hsize := blockSize_of_frame t.frame_eq
  have hrun : h'.runLength? (h.blockOf handle) = some want := by
    refine t.wellFormed.runLength?_eq_some_iff.2 ⟨hpos, ?_⟩
    rw [blockStart, hsize, t.objects_eq]
    exact replaced_self _ _ _
  rw [← hstart] at t
  refine ⟨t.reallocated w hs hobj hle, .inPlace hstart hr hrun t, .stays hs ?_⟩
  rw [t.objects_eq, replaced_self, hclass]
  rfl

theorem resizeObject_ends (w : h.WellFormed) {handle size : Nat}
    (hobj : h.objectAt handle ≠ none) (hs : h.aligned.start? handle = none) :
    Ends h.frame.Roomy (resizeObject handle size) h
      (fun moved h' => Reallocated h h' handle moved size ∧ Resized h h' handle moved ∧
        Sized h h' handle moved size) (NotResized h handle size) := by
  obtain ⟨l, hl⟩ := Option.ne_none_iff_exists'.1 hobj
  have hfits := sizeClass_fits w size
  refine Ends.bind' (Ends.get' ?_)
  rcases objectAt_eq_some.1 hl with ⟨log2, hc, hal, hlive, rfl⟩ | ⟨length, hr, hal, rfl⟩
  · obtain ⟨nfree, hg⟩ := cutLog2?_eq_some.1 hc
    cases hclass : h.sizeClass size with
    | blocks want =>
      simp only [hg]
      exact moveObject_ends w handle size (.inr hobj)
    | fragment want =>
      rw [hclass] at hfits
      simp only [hg]
      refine Ends.ite' (fun heq => Ends.pure' ?_) fun _ => moveObject_ends w handle size (.inr hobj)
      refine ⟨w.reallocated hs hl (by rw [heq]; exact hfits.2.2), .same rfl, .stays hs ?_⟩
      rw [hl, hclass, heq]
      rfl
  · have hg := runLength?_eq_some.1 hr
    cases hclass : h.sizeClass size with
    | fragment want =>
      simp only [hg]
      exact moveObject_ends w handle size (.inr hobj)
    | blocks want =>
      rw [hclass] at hfits
      obtain ⟨hpos, hle⟩ := hfits
      have inPlace {h₁ : Heap} (t : Turns h h₁ (replaced h.objectAt (h.blockStart (h.blockOf handle))
          (some (want * h.blockSize)))) := t.resized_run w hs hr hal hclass
      simp only [hg]
      refine Ends.ite' (fun hlt => ?_) fun hge => Ends.ite' (fun heq => Ends.pure' ?_) fun hne => ?_
      · refine Ends.bind' ((shortenRun_ends w hg hpos hlt).mono (fun _ _ t => ?_) fun _ _ hE => hE)
        exact Ends.pure' (inPlace t)
      · refine ⟨w.reallocated hs hl (by rw [← heq]; exact hle), .same rfl, .stays hs ?_⟩
        rw [hl, hclass, heq]
        rfl
      · have hlt : length < want := by omega
        refine Ends.bind' ((lengthenRun_ends w hg hlt).mono ?_ fun _ _ hE => hE)
        rintro done h₁ hdone
        refine Ends.ite' (fun hd => ?_) fun hd => ?_
        · rw [if_pos hd] at hdone
          exact Ends.pure' (inPlace hdone.1)
        rw [if_neg hd] at hdone
        obtain ⟨rfl, hshort⟩ := hdone
        refine Ends.bind' ((growBehind_ends w hg hlt hshort).mono ?_ fun _ _ hE => hE)
        rintro done h₁ hdone
        refine Ends.ite' (fun hd => ?_) fun hd => ?_
        · rw [if_pos hd] at hdone
          exact Ends.pure' (inPlace hdone.1)
        · rw [if_neg hd] at hdone
          rw [hdone]
          exact moveObject_ends w handle size (.inr hobj)

theorem reallocate_ends_sized (w : h.WellFormed) (handle size : Nat) :
    Ends h.frame.Roomy (reallocate handle size) h
      (fun moved h' => Reallocated h h' handle moved size ∧ Resized h h' handle moved ∧
        Sized h h' handle moved size) (NotResized h handle size) := by
  refine Ends.bind' (Ends.get' (Ends.ite' (fun hc => moveObject_ends w handle size (.inl hc)) fun hnone => ?_))
  have hs : h.aligned.start? handle = none := by
    simpa [AlignmentRecords.contains] using hnone
  refine Ends.bind' (w.extentOf_ends ?_ fun _ he => Rejected.notResized ⟨rfl, he⟩ size)
  intro start length hp
  refine Ends.ite' (fun heq => ?_) fun _ => Ends.refuse' (Rejected.notResized ⟨rfl, rfl⟩ size)
  have hobj : h.objectAt handle ≠ none := by
    rw [← heq, (w.extentOf_eq_ok_iff.1 hp).1]
    exact Option.some_ne_none _
  exact resizeObject_ends w hobj hs

theorem reallocate_ends (w : h.WellFormed) (handle size : Nat) :
    Ends h.frame.Roomy (reallocate handle size) h
      (fun moved h' => Reallocated h h' handle moved size ∧ Resized h h' handle moved)
      (NotResized h handle size) :=
  (reallocate_ends_sized w handle size).mono (fun _ _ r => ⟨r.1, r.2.1⟩) fun _ _ hE => hE

end RegionHeap.Heap
