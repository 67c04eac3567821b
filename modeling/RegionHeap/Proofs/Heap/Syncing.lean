import RegionHeap.Proofs.Heap.Frugality
import RegionHeap.Proofs.Heap.SameArena

/-!
What saving does, and all that it does. Every table of a heap has a range of its own in front of the
arena, and whatever the heap has become, each table has room in its range (`WellFormed.tablesFit`).
Saving writes the tables there and changes nothing else. So a heap that was just saved is saved with
the same bytes, and a run of operations is answered alike with and without saving on the way
(`sync_confined`).
-/
namespace RegionHeap

/-! ## The ranges of the tables -/

/-- The range of the header and that of each table, from its first byte to the first behind it. -/
def TableOffsets.ranges (t : TableOffsets) : List (Nat × Nat) :=
  [(0, t.entries), (t.entries, t.lists), (t.lists, t.slots), (t.slots, t.records),
    (t.records, t.busy), (t.busy, t.stop)]

theorem TableOffsets.Placed.ranges_apart {t : TableOffsets} {blocks names aligned : Nat}
    (placed : t.Placed blocks names aligned) :
    (t.ranges.Pairwise fun range next => range.2 ≤ next.1) ∧
      ∀ range ∈ t.ranges, range.1 ≤ range.2 ∧ range.2 ≤ t.stop := by
  have hl := placed.lists
  have hs := placed.slots
  have hr := placed.records
  have hb := placed.busy
  have hstop := placed.stop
  simp only [ranges, List.pairwise_cons, List.Pairwise.nil, List.mem_cons, List.not_mem_nil, or_false,
    forall_eq_or_imp, forall_eq, false_implies, implies_true, and_true]
  omega

namespace Heap

variable {host : Host} {g : Geometry} {region : Region} {h h₁ h₂ : Heap} {t : TableOffsets}

/-- What is saved of a heap has room in the ranges of its tables, which stand apart in front of the
arena, and no list, name or busy map is cut short. -/
structure TablesFit (h : Heap) (t : TableOffsets) : Prop where
  offsets : h.tables? = some (some t)
  inside : List.Forall₂ (fun table range => range.1 ≤ table.1 ∧ table.1 + table.2.size ≤ range.2)
    (h.savedTables t) t.ranges
  apart : t.ranges.Pairwise fun range next => range.2 ≤ next.1
  in_front : ∀ range ∈ t.ranges, range.1 ≤ range.2 ∧ range.2 ≤ h.arenaStart
  lists_whole : h.freeLists.size ≤ Metadata.listHeads
  names_whole : ∀ (slot : Nat) (o : NamedObject), h.names.slots[slot]? = some (some o) →
    o.name.toUTF8.size ≤ NameTable.longestName
  maps_whole : ∀ block m, h.busy.find? block = some m → m.size * 8 ≤ t.mapBytes

theorem WellFormed.tablesFit (w : h.WellFormed) : ∃ t, h.TablesFit t := by
  obtain ⟨t, ht, hstop⟩ := w.tables
  obtain ⟨-, placed⟩ := TableOffsets.forBlocks?_eq_some ht
  obtain ⟨hapart, hends⟩ := placed.ranges_apart
  refine ⟨t, ht, ?_, hapart, fun range hr => ?_, ?_, fun slot o ho => ?_, fun block m hm => ?_⟩
  · have he := placed.entries
    have hl := placed.lists
    have hs := placed.slots
    have hr := placed.records
    have hb := placed.busy
    have hstop := placed.stop
    have sizes := h.size_savedTables t
    simp only [savedTables, List.map_cons, List.map_nil, List.cons.injEq, and_true] at sizes
    obtain ⟨s₀, s₁, s₂, s₃, s₄, s₅⟩ := sizes
    -- no table is longer than what it has room for
    have c₁ := Nat.mul_le_mul_right Metadata.entryBytes w.count_le
    have c₃ := Nat.mul_le_mul_right Metadata.slotBytes w.names.slots_le
    have c₄ := Nat.mul_le_mul_right Metadata.recordBytes w.records.size_le
    have c₅ := Nat.mul_le_mul_right t.mapBytes w.count_le
    simp only [savedTables, TableOffsets.ranges, List.forall₂_cons, List.forall₂_nil_left_iff,
      and_true, s₀, s₁, s₂, s₃, s₄, s₅]
    omega
  · have hrange := hends range hr
    omega
  · have hmax := w.max_block
    have hlists : Geometry.maxBlockLog2 ≤ Metadata.listHeads := by decide
    rw [w.heads]
    omega
  · exact (NameTable.acceptName_eq_ok_iff.1 (w.names.accepted slot o ho).1).2
  · exact w.words_fit ht hm

/-! ## Saving once and twice -/

theorem TablesFit.stop_le (f : h.TablesFit t) : t.stop ≤ h.arenaStart :=
  (f.in_front (t.busy, t.stop) (by simp [TableOffsets.ranges])).2

theorem TablesFit.on (f : h.TablesFit t) (region : Region) : (h.on region).TablesFit t :=
  ⟨f.offsets, f.inside, f.apart, f.in_front, f.lists_whole, f.names_whole, f.maps_whole⟩

/-- Saving writes the tables, granted or refused. -/
theorem TablesFit.sync_writes (f : h.TablesFit t) (w : h.WellFormed)
    (leaves : Operation.sync.Leaves h h₁) : WritesTables h h₁ t := by
  have ends : Ends True Operation.sync.run h (fun _ h' => WritesTables h h' t)
      fun _ h' => WritesTables h h' t :=
    Ends.map' ((Heap.sync_writes w f.offsets f.stop_le).mono (fun _ _ writes => writes)
      fun _ _ writes => writes.1)
  cases leaves with
  | granted answer ran => exact ends.of_ok ran
  | refused e ran => exact ends.of_refused ran

/-- Saving a heap again that was just saved writes what stands there already. -/
theorem WritesTables.again {refusals : Option Refusals} (writes : WritesTables h h₁ t)
    (writes' : WritesTables (h₁.withRefusals refusals) h₂ t) (i : Nat) :
    h₂.region.byte i = h₁.region.byte i := by
  have htables : (h₁.withRefusals refusals).savedTables t = h.savedTables t := by
    rw [writes.eq]
    rfl
  by_cases hin : ∃ p ∈ h.savedTables t, p.1 ≤ i ∧ i < p.1 + p.2.size
  · obtain ⟨p, hp, hlo, hhi⟩ := hin
    have first := (writes.written p hp).2 (i - p.1) (by omega)
    have second := (writes'.written p (by rw [htables]; exact hp)).2 (i - p.1) (by omega)
    rw [Nat.add_sub_cancel' hlo] at first second
    rw [first, second]
  · refine writes'.others i fun p hp hrange => hin ⟨p, ?_, hrange⟩
    rwa [htables] at hp

/-! ## All that saving does -/

/-- Whatever a client has done with a heap, saving it writes its tables, each in a range of its own in
front of the arena, and changes neither the heap nor its arena, whether the region refuses to make the
bytes durable or not. Saving it again leaves the same bytes. A run of requests is answered as if those
to save were left out, and each heap on the way differs in its metadata bytes only. -/
theorem sync_confined (reached : Reachable host g region h) :
    g.arenaStart host = .ok h.arenaStart ∧
      ∃ t, h.TablesFit t ∧
        (∀ refusals, ∃ h₁, Operation.sync.Leaves (h.withRefusals refusals) h₁ ∧
          WritesTables (h.withRefusals refusals) h₁ t ∧
          (∀ i, h.arenaStart ≤ i → h₁.region.byte i = h.region.byte i) ∧
          ∀ refusals', ∃ h₂, Operation.sync.Leaves (h₁.withRefusals refusals') h₂ ∧
            h₂ = { h₁ with region := h₂.region } ∧
            ∀ i, h₂.region.byte i = h₁.region.byte i) ∧
        ∀ requests : List Request,
          List.Forall₂ Exchange.Alike ((h.exchanges requests).filter fun x => !x.saves)
            (h.exchanges (requests.filter fun q => !q.op.saves)) := by
  have w := reached.restorable.wellFormed
  obtain ⟨t, fit⟩ := w.tablesFit
  refine ⟨reached.standsOn.arenaStart_eq, t, fit, fun refusals => ?_, fun requests => ?_⟩
  · have w' := w.withRefusals refusals
    have fit' : (h.withRefusals refusals).TablesFit t := fit.on _
    obtain ⟨h₁, leaves⟩ := w'.sync_leaves
    have writes := fit'.sync_writes w' leaves
    have saved := saved_of_leaves w' leaves
    refine ⟨h₁, leaves, writes, saved.arena, fun refusals' => ?_⟩
    have w₁ := (saved.wellFormed w').withRefusals refusals'
    obtain ⟨h₂, leaves₂⟩ := w₁.sync_leaves
    have fit₁ : (h₁.withRefusals refusals').TablesFit t := by
      rw [writes.eq]
      exact fit'.on _
    have writes₂ := fit₁.sync_writes w₁ leaves₂
    exact ⟨h₂, leaves₂, writes₂.eq, writes.again writes₂⟩
  · exact SameArena.exchanges_filter w (.refl _) requests

/-- A small heap is saved twice while an object is filled and read. -/
theorem sync_confined_small : ∃ h t, create .ample smallGeometry smallRegion = .ok h ∧ h.TablesFit t ∧
    t.ranges = [(0, 128), (128, 192), (192, 448), (448, 512), (512, 528), (528, 560)] ∧
    h.arenaStart = 4096 ∧
    List.Forall₂ Exchange.Alike
      ((h.exchanges [⟨none, .allocate 100⟩, ⟨none, .sync⟩, ⟨none, .fill 0 100 7⟩, ⟨none, .sync⟩,
        ⟨none, .read 0 4⟩]).filter fun x => !x.saves)
      (h.exchanges [⟨none, .allocate 100⟩, ⟨none, .fill 0 100 7⟩, ⟨none, .read 0 4⟩]) := by
  obtain ⟨h, -, hc, -⟩ := created_of_smallAfter? [] (by decide +kernel)
  obtain ⟨hstart, t, fit, -, hexchanges⟩ := sync_confined (.created hc)
  have frame := (create_eq_ok hc).frame_eq
  have hlog : h.blockLog2 = 8 := congrArg Frame.blockLog2 frame
  have hmax : h.maxBlocks = 4 := congrArg Frame.maxBlocks frame
  have hnames : h.names.capacity = 1 := congrArg Frame.nameCapacity frame
  have hrecords : h.aligned.capacity = 1 := congrArg Frame.recordCapacity frame
  have ht := fit.offsets
  rw [tables?, hlog, hmax, hnames, hrecords] at ht
  have hranges : ((TableOffsets.forBlocks? 8 4 1 1).join.map TableOffsets.ranges) =
      some [(0, 128), (128, 192), (192, 448), (448, 512), (512, 528), (528, 560)] := by
    decide
  rw [ht] at hranges
  have hplace : smallGeometry.arenaStart .ample = .ok 4096 := rfl
  rw [hplace] at hstart
  refine ⟨h, t, hc, fit, Option.some.inj hranges, (Except.ok.inj hstart).symm, ?_⟩
  exact hexchanges _

end Heap

end RegionHeap
