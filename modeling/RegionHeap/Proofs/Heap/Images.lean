import RegionHeap.Proofs.Heap.Clients
import RegionHeap.Proofs.Heap.Consistency
import RegionHeap.Proofs.Heap.Reloading

/-!
Images of any origin. A region may hold any bytes; what loading makes of them is safe to use exactly
as far as the block table in the image is in order, and the check that precedes it does not see all of
that: what stands in the later blocks of free runs is overwritten or not looked at. `Safe` is what a
heap that is in order grants whatever happens to it, and `load_accepts` says what every accepted image
has, which part is left open, and what follows if it is in order, too.
-/
namespace RegionHeap.Heap

open BlockTable

/-! ## What an allocation hands out -/

/-- The handle stands for an object that was not live before, or for the one that was given up, and
it has room for what was asked. Every other object is still there. -/
def HandsOut (h h' : Heap) (gone : Option Nat) (handle size : Nat) : Prop :=
  ∃ start length, (h.objectAt start = none ∨ gone = some start) ∧
    h'.objectAt start = some length ∧ start ≤ handle ∧ handle < start + length ∧
    handle + size ≤ start + length ∧
    ∀ s l, h.objectAt s = some l → gone ≠ some s → h'.objectAt s = some l

variable {h h' : Heap}

/-- A name makes no difference. -/
theorem HandsOut.renamed {h₁ : Heap} {gone : Option Nat} {handle size : Nat} {names : NameTable}
    (o : HandsOut h h₁ gone handle size) (r : Renames h₁ h' names) :
    HandsOut h h' gone handle size := by
  obtain ⟨heq, -, -⟩ := r
  subst heq
  exact o

/-- Where an object is new, all others stay. -/
theorem stays_of_fresh {start length : Nat} (hfresh : h.objectAt start = none)
    (hobj : ∀ s, h'.objectAt s = replaced h.objectAt start (some length) s) {s l : Nat}
    (hs : h.objectAt s = some l) : h'.objectAt s = some l := by
  rw [hobj, replaced_of_ne]
  · exact hs
  · rintro rfl
    rw [hs] at hfresh
    cases hfresh

theorem Allocated.handsOut {handle size : Nat} (a : Allocated h h' handle size) :
    HandsOut h h' none handle size := by
  obtain ⟨hfresh, length, hle, t⟩ := a
  have hobj : h'.objectAt handle = some length := (t.objects_eq handle).trans (replaced_self _ _ _)
  have hpos := (t.wellFormed.object_bounds hobj).1
  exact ⟨handle, length, .inl hfresh, hobj, Nat.le_refl _, Nat.lt_add_of_pos_right hpos,
    Nat.add_le_add_left hle _, fun _ _ hs _ => stays_of_fresh hfresh t.objects_eq hs⟩

theorem AllocatedOn.handsOut {alignment handle size : Nat}
    (a : AllocatedOn alignment h h' handle size) : HandsOut h h' none handle size := by
  obtain ⟨-, start, length, hfresh, hle, hfit, t⟩ := a
  exact ⟨start, length, .inl hfresh, (t.objects_eq start).trans (replaced_self _ _ _), hle, by omega,
    by omega, fun _ _ hs _ => stays_of_fresh hfresh t.objects_eq hs⟩

/-- A moved object is another one, unless the record of its handle led to no object. -/
theorem Reallocated.handsOut {handle moved size : Nat} (r : Reallocated h h' handle moved size)
    (hlive : h.objectAt (h.allocationOf handle) ≠ none) :
    HandsOut h h' (some (h.allocationOf handle)) moved size := by
  obtain ⟨⟨length, hle, ⟨rfl, hnone, t⟩ | ⟨hfresh, t⟩⟩, -⟩ := r
  · have hself : h.allocationOf moved = moved := by
      rw [allocationOf, hnone]
      rfl
    have hobj : h'.objectAt moved = some length := (t.objects_eq moved).trans (replaced_self _ _ _)
    have hpos := (t.wellFormed.object_bounds hobj).1
    rw [hself]
    refine ⟨moved, length, .inr rfl, hobj, Nat.le_refl _, Nat.lt_add_of_pos_right hpos,
      Nat.add_le_add_left hle _, fun s l hs hne => ?_⟩
    rw [t.objects_eq, replaced_of_ne _ _ fun he => hne (congrArg some he.symm)]
    exact hs
  · have hne : moved ≠ h.allocationOf handle := by
      intro he
      rw [← he, hfresh] at hlive
      exact hlive rfl
    have hobj : h'.objectAt moved = some length := by
      rw [t.objects_eq, replaced_of_ne _ _ hne, replaced_self]
    have hpos := (t.wellFormed.object_bounds hobj).1
    refine ⟨moved, length, .inl hfresh, hobj, Nat.le_refl _, Nat.lt_add_of_pos_right hpos,
      Nat.add_le_add_left hle _, fun s l hs hgone => ?_⟩
    rw [t.objects_eq, replaced_of_ne _ _ fun he => hgone (congrArg some he.symm), replaced_of_ne]
    · exact hs
    · rintro rfl
      rw [hs] at hfresh
      cases hfresh

/-- An operation that answers a new handle hands it out. -/
theorem Effect.handsOut {op : Operation} {answer : Answer} (e : Effect h h' op answer) {size : Nat}
    (hr : op.requested = some size)
    (hlive : ∀ handle, op.givenUp h = some handle → h.objectAt (h.allocationOf handle) ≠ none) :
    ∃ handle, answer = .handle handle ∧
      HandsOut h h' ((op.givenUp h).map h.allocationOf) handle size := by
  cases e with
  | allocate a =>
    cases hr
    exact ⟨_, rfl, a.handsOut⟩
  | allocateZeroed a _ =>
    cases hr
    exact ⟨_, rfl, a.handsOut⟩
  | allocateAligned a =>
    cases hr
    exact ⟨_, rfl, a.handsOut⟩
  | allocatePageAligned a =>
    cases hr
    exact ⟨_, rfl, a.handsOut⟩
  | reallocate r =>
    cases hr
    exact ⟨_, rfl, r.handsOut (hlive _ rfl)⟩
  | allocateNamed a _ r =>
    cases hr
    exact ⟨_, rfl, a.handsOut.renamed r⟩
  | allocateZeroedNamed a _ _ r =>
    cases hr
    exact ⟨_, rfl, a.handsOut.renamed r⟩
  | allocateAlignedNamed a _ r =>
    cases hr
    exact ⟨_, rfl, a.handsOut.renamed r⟩
  | _ => cases hr

/-! ## Heaps that are safe to use -/

/-- What holds whatever is asked of a heap, with any arguments, and whatever its region refuses. -/
structure Safe (h : Heap) : Prop where
  /-- The check finds no defect, and the parts of the heap fit together. -/
  consistent : ∀ h', Reaches h h' → h'.defects? = some {} ∧ h'.Consistent
  /-- No offset in a free run resolves to an object. -/
  free : ∀ h', Reaches h h' → ∀ block size next prev,
    h'.table.get? block = some (.free size next prev) → ∀ offset, h'.blockStart block ≤ offset →
      offset < h'.blockStart (block + size) →
        h'.extentOf offset = .error (.refused (.invalidPointer offset))
  /-- Live objects lie in the arena, and no two of them overlap. -/
  apart : ∀ h', Reaches h h' → ∀ s l, h'.objectAt s = some l →
    h'.arenaStart + (s + l) ≤ h'.region.size ∧
      ∀ s' l', h'.objectAt s' = some l' → s ≠ s' → s + l ≤ s' ∨ s' + l' ≤ s
  /-- A handle that is handed out stands for an object of its own. A record that leads to no object
  is no ground to give one up. -/
  handsOut : ∀ h' h'' refusals (op : Operation) size answer, Reaches h h' →
    op.requested = some size → op.run (h'.withRefusals refusals) = .ok answer h'' →
    (∀ handle, op.givenUp h' = some handle → h'.objectAt (h'.allocationOf handle) ≠ none) →
    ∃ handle, answer = .handle handle ∧
      HandsOut h' h'' ((op.givenUp h').map h'.allocationOf) handle size
  /-- No operation is a trap, if the largest arena ends within the range of sizes. -/
  no_trap : h.frame.Roomy → ∀ h' h'' refusals (op : Operation), Reaches h h' →
    op.run (h'.withRefusals refusals) ≠ .error .trap h''

/-- Every block of a free run is free. -/
theorem isFree_of_free {t : BlockTable} {runs : List Run} (h : t.Tiled runs) {block size i : Nat}
    {next prev : Option Nat} (hg : t.get? block = some (.free size next prev)) (hi : i < size) :
    ∃ e, t.get? (block + i) = some e ∧ e.isFree = true := by
  obtain ⟨-, -, hbody, htail⟩ := h.freeBlocks hg
  by_cases h0 : i = 0
  · rw [h0, Nat.add_zero]
    exact ⟨_, hg, rfl⟩
  · by_cases hlast : i + 1 = size
    · have := htail (by omega)
      rw [show block + size - 1 = block + i by omega] at this
      exact ⟨_, this, rfl⟩
    · exact ⟨_, hbody i (by omega) (by omega), rfl⟩

theorem extentOf_of_isFree {h : Heap} {offset : Nat} {e : Entry}
    (hg : h.table.get? (h.blockOf offset) = some e) (hf : e.isFree = true) :
    h.extentOf offset = .error (.refused (.invalidPointer offset)) := by
  rw [extentOf]
  simp only [hg]
  cases e <;> first | rfl | cases hf

theorem WellFormed.extentOf_free {h : Heap} (w : h.WellFormed) {block size offset : Nat}
    {next prev : Option Nat} (hg : h.table.get? block = some (.free size next prev))
    (hlo : h.blockStart block ≤ offset) (hhi : offset < h.blockStart (block + size)) :
    h.extentOf offset = .error (.refused (.invalidPointer offset)) := by
  obtain ⟨runs, hl⟩ := w.laidOut
  rw [blockStart, Nat.add_mul] at hhi
  have hin := blockOf_mem_iff.2 ⟨hlo, hhi⟩
  obtain ⟨e, he, hf⟩ := isFree_of_free hl.toTiled hg (i := h.blockOf offset - block) (by omega)
  rw [show block + (h.blockOf offset - block) = h.blockOf offset by omega] at he
  exact extentOf_of_isFree he hf

/-- A well-formed heap is safe. -/
theorem WellFormed.safe {h : Heap} (w : h.WellFormed) : h.Safe where
  consistent h' r := by
    obtain ⟨w', -⟩ := r.wellFormed w
    exact ⟨w'.defects?_eq_none, w'.consistent⟩
  free h' r block size next prev hg offset hlo hhi := (r.wellFormed w).1.extentOf_free hg hlo hhi
  apart h' r s l hs := by
    obtain ⟨w', -⟩ := r.wellFormed w
    have := w'.object_in_region hs
    exact ⟨by omega, fun _ _ hs' hne => w'.apart hs hs' hne⟩
  handsOut h' h'' refusals op size answer r hr ran hlive := by
    obtain ⟨w', -⟩ := r.wellFormed w
    exact ((op.effects (w'.withRefusals refusals)).of_ok ran).handsOut hr hlive
  no_trap hroomy h' h'' refusals op r := r.no_trap w hroomy refusals op

/-! ## What loading accepts -/

/-- What loading makes sure of, and what it leaves open, for a region with any bytes. The walk over the
recorded block table meets only entries that start a run, busy runs are whole, and no free run
follows another. The later blocks of free runs are not compared with anything: the recorded entries
are a layout exactly if these blocks are right. The heap is well-formed exactly if the inner ones of them
are, and then it is safe to use; if the last ones are right, too, no block that was recorded as in use
is free. -/
theorem load_accepts {region : Region} {h : Heap} (hl : load region = .ok h) :
    ∃ c runs, Image.read region = .ok (c, h.region.size) ∧
      (ofRaw c.entries).runs? = some runs ∧
      (∀ block e, (block, e) ∈ runs → c.entries[block]? = some e ∧ e.isInner = false) ∧
      (∀ block length, (block, .run length) ∈ runs → 0 < length ∧
        block + length ≤ c.entries.size ∧
        ∀ i, 0 < i → i < length → c.entries[block + i]? = some (.runBody i)) ∧
      adjacentFree runs = 0 ∧
      (IsLayout c.entries ↔ InnersBlank c.entries runs ∧ EndsLeadBack c.entries runs) ∧
      (h.WellFormed ↔ InnersBlank c.entries runs) ∧
      (InnersBlank c.entries runs → h.Safe ∧ (region.size < 1 <<< 56 → h.frame.Roomy)) ∧
      (IsLayout c.entries → ∀ block e, c.entries[block]? = some e → e.isFree = false →
        h.table.get? block = some e) := by
  obtain ⟨c, t, hr, l⟩ := load_eq_ok hl
  obtain ⟨runs, hruns, ha⟩ := l.accepted
  have hwell : h.WellFormed ↔ InnersBlank c.entries runs := l.wellFormed_iff.trans ha.laidOut_iff
  refine ⟨c, runs, hr, hruns, fun block e hp => ⟨(ha.steps.get_eq hp).2, ha.starts _ hp⟩,
    ha.bodies, ha.apart, ha.isLayout_iff, hwell,
    fun hin => ⟨(hwell.2 hin).safe, l.roomy⟩, fun hlay block e he hf => ?_⟩
  have hsame := ha.bare?_eq (ha.isLayout_iff.1 hlay).2 block
  rw [bare?_of_get? (t := ofRaw c.entries) he] at hsame
  have hbare : e.bare = e := by cases e <;> first | rfl | cases hf
  rw [hbare] at hsame
  exact get?_of_bare? hsame (by cases e <;> first | rfl | cases hf)

/-- The image of a heap with an object of two blocks, one of a fragment, and a free run with a block
inside is accepted, and in order. -/
theorem load_accepts_small : ∃ region h c, Image.read region = .ok (c, h.region.size) ∧
    c.entries =
      #[.run 2, .runBody 1, .fragmented 7 1, .free 3 none none, .freeBody, .freeTail 3] ∧
    load region = .ok h ∧ h.Safe ∧ h.frame.Roomy ∧
    h.table.get? 0 = some (.run 2) ∧ h.table.get? 2 = some (.fragmented 7 1) := by
  have run : ((create .ample widerGeometry smallRegion).toOption.bind fun h₀ =>
      (h₀.after? [.allocate 300, .allocate 100, .grow 3]).bind fun h₁ =>
        (h₁.granting? .sync).bind fun h =>
          if h.table.entries =
              #[.run 2, .runBody 1, .fragmented 7 1, .free 3 none none, .freeBody, .freeTail 3] ∧
            h.maxBlocks < Geometry.blockLimit ∧ h.region.size < 1 <<< 56 then some h
          else none).isSome = true := by
    decide +kernel
  obtain ⟨h, run⟩ := Option.isSome_iff_exists.1 run
  obtain ⟨h₀, created, run⟩ := Option.bind_eq_some_iff.1 run
  obtain ⟨h₁, history, run⟩ := Option.bind_eq_some_iff.1 run
  obtain ⟨h, synced, run⟩ := Option.bind_eq_some_iff.1 run
  obtain ⟨⟨entries, hmax, hsize⟩, -⟩ := Option.ite_none_right_eq_some.1 run
  obtain ⟨answer, synced⟩ := granting?_eq_some_iff.1 synced
  have reaches := Reaches.start.of_after? history
  have w₁ := (reaches.wellFormed (create_eq_ok (toOption_eq_some_iff.1 created)).wellFormed).1
  have saved := saved_of_leaves w₁ (.granted answer synced)
  have w := saved.wellFormed w₁
  obtain ⟨region', table, l⟩ := (Since.refl w).load w hmax saved.savedIn (Region.SameBytes.refl _)
    ⟨h.region, if_neg (Nat.lt_irrefl _)⟩
  obtain ⟨c, _, read, -, -, -, -, -, hwell, safe, busy⟩ := load_accepts l.loaded
  have read' := w.read_saved hmax saved.savedIn (Nat.le_refl _)
  obtain ⟨rfl, -⟩ := Prod.mk.inj (Except.ok.inj (read.symm.trans read'))
  obtain ⟨runs, laid⟩ := w.laidOut
  have layout : IsLayout h.contents.entries := ⟨runs, tiled_entries laid.toTiled, laid.apart⟩
  obtain ⟨safe, roomy⟩ := safe (hwell.1 l.wellFormed)
  have recorded := busy layout
  rw [show h.contents.entries = _ from entries] at recorded
  exact ⟨h.region, _, h.contents, read, entries, l.loaded, safe, roomy hsize, recorded 0 _ rfl rfl,
    recorded 2 _ rfl rfl⟩

end RegionHeap.Heap
