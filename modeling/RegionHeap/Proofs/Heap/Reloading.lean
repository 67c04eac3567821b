import RegionHeap.Proofs.Heap.Histories
import RegionHeap.Proofs.Heap.Loading
import RegionHeap.Proofs.Image.Restoring
import RegionHeap.Proofs.Region.Sizes

/-!
Loading a heap again. The tables in front of the arena say what a heap was when it was last saved. As
long as it has only grown and its objects were written to since then, they say what it is but for
the new blocks, and loading gives it back with the bytes that its objects have now (`Since.load`).
Loading a heap that has just been saved a second time changes nothing at all
(`Reloaded.load_again`).
-/
namespace RegionHeap

/-- The same bytes in use. The region may have another capacity and refuse other requests. -/
structure Region.SameBytes (r r' : Region) : Prop where
  size_eq : r'.size = r.size
  byte_eq : ∀ i, r'.byte i = r.byte i

theorem Region.SameBytes.refl (r : Region) : Region.SameBytes r r := ⟨rfl, fun _ => rfl⟩

/-- Growing the arena and writing to live objects. -/
def Operation.GrowsOrWrites : Operation → Prop
  | grow _ | write _ _ | fill _ _ _ => True
  | _ => False

namespace Heap

open BlockTable Image

/-- What a heap may become by growing and by writes to its objects, each granted or refused, on a
region that may refuse any requests at any time. -/
inductive Extends (h : Heap) : Heap → Prop where
  | start : Extends h h
  | step {h₁ h₂ : Heap} (refusals : Option Refusals) (op : Operation) (before : Extends h h₁)
    (extends' : op.GrowsOrWrites) (leaves : op.Leaves (h₁.withRefusals refusals) h₂) : Extends h h₂

/-- A heap that has only grown since, and whose objects may have been written to. -/
structure Since (h h' : Heap) : Prop where
  wellFormed : h'.WellFormed
  eq : h' = { h with region := h'.region, table := h'.table }
  inUse : ∀ block, h'.table.inUse? block = h.table.inUse? block
  size_le : h.region.size ≤ h'.region.size
  metadata : ∀ i, i < h.arenaStart → h'.region.byte i = h.region.byte i

variable {h h' h'' : Heap} {r r' region : Region}

theorem Since.refl (w : h.WellFormed) : Since h h :=
  ⟨w, rfl, fun _ => rfl, Nat.le_refl _, fun _ _ => rfl⟩

theorem Since.trans (s : Since h h') (s' : Since h' h'') : Since h h'' where
  wellFormed := s'.wellFormed
  eq := by
    have e := s'.eq
    rw [s.eq] at e
    exact e
  inUse block := (s'.inUse block).trans (s.inUse block)
  size_le := Nat.le_trans s.size_le s'.size_le
  metadata i hi := by
    rw [s'.metadata i (by rw [s.eq]; exact hi), s.metadata i hi]

theorem Since.withRefusals (w : h.WellFormed) (refusals : Option Refusals) :
    Since h (h.withRefusals refusals) :=
  ⟨w.withRefusals refusals, rfl, fun _ => rfl, Nat.le_refl _, fun _ _ => rfl⟩

theorem Grown.since {count : Nat} (w : h.WellFormed) (g : Grown h h' count)
    (t : Turns h h' h.objectAt) : Since h h' := by
  refine ⟨t.wellFormed, g.eq, g.inUse, ?_, t.metadata⟩
  rw [t.wellFormed.size_eq, w.size_eq, arenaStart_of_frame t.frame_eq,
    blockSize_of_frame t.frame_eq, g.blockCount_eq w]
  exact Nat.add_le_add_left (Nat.mul_le_mul_right _ (Nat.le_add_right _ _)) _

theorem Writes.since {start : Nat} (w : h.WellFormed) (wr : Writes h h' start) : Since h h' := by
  have table : h'.table = h.table := by rw [wr.eq]
  refine ⟨wr.wellFormed, by rw [table]; exact wr.eq, fun _ => by rw [table], Nat.le_of_eq ?_,
    wr.metadata⟩
  rw [wr.wellFormed.size_eq, w.size_eq, blockCount, blockCount, table, arenaStart_of_frame wr.frame_eq,
    blockSize_of_frame wr.frame_eq]

theorem Since.of_leaves {op : Operation} (w : h.WellFormed) (hop : op.GrowsOrWrites)
    (l : op.Leaves h h') : Since h h' := by
  cases l with
  | granted answer ran =>
    cases (op.effects w).of_ok ran with
    | grow t g => exact g.since w t
    | write _ _ wr _ => exact wr.since w
    | fill _ _ wr _ => exact wr.since w
    | _ => cases hop
  | refused e ran =>
    cases ((op.effects w).of_refused ran).1 with
    | unchanged same =>
      rw [same]
      exact Since.refl w
    | _ => cases hop

theorem Extends.since (e : Extends h h') (w : h.WellFormed) : Since h h' := by
  induction e with
  | start => exact Since.refl w
  | step refusals op _ hop leaves ih =>
    have s := Since.withRefusals ih.wellFormed refusals
    exact (ih.trans s).trans (Since.of_leaves s.wellFormed hop leaves)

/-! ## Saved tables in a region -/

/-- The tables are held as long as the bytes in front of the arena stay. -/
theorem SavedIn.congr (s : h.SavedIn r) (w : h.WellFormed) (hsize : h.arenaStart ≤ r'.size)
    (hb : ∀ i, i < h.arenaStart → r'.byte i = r.byte i) : h.SavedIn r' := by
  obtain ⟨t, ht, hheld⟩ := s
  obtain ⟨t', ht', hstop⟩ := w.tables
  rw [ht, Option.some.injEq, Option.some.injEq] at ht'
  subst ht'
  refine ⟨t, ht, fun p hp => (hheld p hp).congr ?_ fun i _ hi => hb i ?_⟩
  all_goals
    have := (w.savedTables_apart ht).2 p hp
    omega

theorem WellFormed.read_saved (w : h.WellFormed) (hmax : h.maxBlocks < Geometry.blockLimit)
    (s : h.SavedIn r) (hsize : h.region.size ≤ r.size) :
    Image.read r = .ok (h.contents, h.region.size) :=
  read_eq_ok_iff.2 ⟨w.describes hmax s, regionBytes?_eq_some_iff.2 ⟨w.size_eq, w.small⟩, hsize⟩

/-! ## What loading gives back -/

/-- The heap on another region and with another table, and the lowest empty name slot to be used
next. -/
def restored (h : Heap) (region : Region) (table : BlockTable) : Heap :=
  { h with region, table, names := .numbered h.names.capacity h.names.slots }

/-- What is loaded from the metadata of a heap. -/
theorem WellFormed.heap?_contents (w : h.WellFormed) {table : BlockTable}
    (ht : ofEntries? h.table.entries = some table) (region : Region) :
    h.contents.heap? region = some (h.restored region table) := by
  refine heap?_eq_some_iff.2 ⟨table, ht, ?_⟩
  have hfloor : min h.floor h.blockCount = h.floor := Nat.min_eq_left w.floor_le
  rw [restored]
  show _ = ({ floor := min h.floor h.blockCount, .. } : Heap)
  rw [hfloor]
  rfl

theorem exists_cut (hshrink : region.Shrinks) (bytes : Nat) :
    ∃ region', Cut region bytes region' := by
  by_cases hlt : bytes < region.size
  · obtain ⟨region', hr⟩ := hshrink bytes hlt
    exact ⟨region', by rw [Cut, if_pos hlt, hr]⟩
  · exact ⟨region, by rw [Cut, if_neg hlt]⟩

/-- What is known of a heap that was loaded again. -/
structure Reloaded (h : Heap) (region region' : Region) (table : BlockTable) : Prop where
  loaded : load region = .ok (h.restored region' table)
  rebuilt : ofEntries? h.table.entries = some table
  bare_eq : ∀ block, table.bare? block = h.table.bare? block
  size_eq : table.entries.size = h.table.entries.size
  wellFormed : (h.restored region' table).WellFormed
  cut : Cut region h.region.size region'

/-- A heap that was saved, and has only grown and been written to since, is loaded as it was saved,
with the bytes that its objects have now. -/
theorem Since.load (s : Since h h') (w : h.WellFormed) (hmax : h.maxBlocks < Geometry.blockLimit)
    (saved : h.SavedIn h'.region) (hb : Region.SameBytes h'.region region)
    (hcut : ∃ region', Cut region h.region.size region') :
    ∃ region' table, Reloaded h region region' table := by
  obtain ⟨region', hcut⟩ := hcut
  obtain ⟨runs, hl⟩ := w.laidOut
  obtain ⟨table, ht, hlaid, hbare⟩ := ofEntries?_of_tiled (tiled_entries hl.toTiled) hl.apart
  have hle : h.region.size ≤ region.size := by
    rw [hb.size_eq]
    exact s.size_le
  have hheld : h.SavedIn region :=
    saved.congr w (Nat.le_trans w.arenaStart_le hle) fun i _ => hb.byte_eq i
  obtain ⟨hsize, -, hbytes⟩ := hcut.spec hle
  have hcount : table.size = h.blockCount := hlaid.size_eq.symm.trans hl.size_eq
  have hsame (block : Nat) : table.inUse? block = h'.table.inUse? block :=
    (inUse?_congr (hbare block)).trans (s.inUse block).symm
  -- of the heap as it is now, only new blocks are missing
  have blocks : ({ h' with region := region', table, floor := h.floor } : Heap).WellFormed := by
    refine s.wellFormed.reblock region' table h.floor ⟨_, hlaid⟩
      (fun b => fragmented_iff_of_inUse? (hsame b)) ?_ ?_ (fun i _ hi => ?_) ?_ ?_
    · rw [hsize, w.size_eq, hcount, s.eq]
      rfl
    · rw [hsize]
      exact w.small
    · rw [hbytes i (by omega), hb.byte_eq]
    · rw [hcount]
      exact w.floor_le
    · rw [hcount, s.eq]
      exact w.count_le
  have wf : (h.restored region' table).WellFormed := by
    have names := NameTable.sound_numbered w.names
    rw [s.eq] at blocks
    exact blocks.with_registry NameTable.capacity_numbered rfl names w.records
  refine ⟨region', table, load_eq_ok_iff.2 ⟨_, _, region', w.read_saved hmax hheld hle, hcut,
    w.heap?_contents ht region', wf.defects?_eq_none⟩, ht, hbare, hcount, wf, hcut⟩

theorem Saved.savedIn (s : Saved h h') : h'.SavedIn h'.region := by
  rw [show h'.SavedIn h'.region = h.SavedIn h'.region by rw [s.eq]; rfl]
  exact s.image

/-- A heap that was loaded again and saved again is loaded just as it was. -/
theorem Reloaded.load_again {table : BlockTable} (l : Reloaded h region r table) (w : h.WellFormed)
    (hmax : h.maxBlocks < Geometry.blockLimit) {refusals : Option Refusals}
    (saved : Saved ((h.restored r table).withRefusals refusals) h'')
    (hb : Region.SameBytes h''.region r') :
    h'' = h.restored h''.region table ∧ Heap.load r' = .ok (h.restored r' table) := by
  have w' := l.wellFormed.withRefusals refusals
  have heq : h'' = h.restored h''.region table := saved.eq
  have w'' := saved.wellFormed w'
  refine ⟨heq, ?_⟩
  have cut : Cut r' h''.region.size r' := if_neg (by rw [hb.size_eq]; exact Nat.lt_irrefl _)
  obtain ⟨region', table', again⟩ := (Since.refl w'').load w'' (by rw [heq]; exact hmax)
    saved.savedIn hb ⟨r', cut⟩
  have hregion : region' = r' := by
    have := again.cut
    rw [Cut, if_neg (by rw [hb.size_eq]; exact Nat.lt_irrefl _)] at this
    cases this
    rfl
  -- the table was rebuilt before, and its new links do not matter
  obtain ⟨runs, hl⟩ := w.laidOut
  have htable : table' = table := by
    have hsame : ofEntries? table.entries = ofEntries? h.table.entries :=
      ofEntries?_congr (tiled_entries hl.toTiled) hl.apart l.size_eq l.bare_eq
    have h₁ := again.rebuilt
    rw [show h''.table = table by rw [heq]; rfl, hsame, l.rebuilt] at h₁
    exact (Option.some.inj h₁).symm
  rw [hregion, htable] at again
  have hload := again.loaded
  rw [heq, restored] at hload
  simp only [restored, NameTable.numbered_numbered] at hload
  exact hload

end Heap

end RegionHeap
