import Mathlib.Data.List.Basic
import RegionHeap.Proofs.Blocks.Occupancy
import RegionHeap.Proofs.Heap.Census
import RegionHeap.Proofs.Heap.Checking

/-!
What the figures of use count. They are added up over the runs of the block table, from the lengths
and the free counts that its entries record. Each run accounts for the objects and the free fragments
that lie in it (`counted_addRun`), so the sums are those over all live objects, all free fragments and
all free runs (`WellFormed.tallied`).
-/
namespace RegionHeap.Heap

open BlockTable

variable {h : Heap} {runs runs' : List (Nat × Entry)} {u u' u'' : Usage}

/-! ## What lies in a run -/

/-- The fragments of a block that are in use. -/
def busyFragmentsIn (h : Heap) (block log2 : Nat) : List Nat :=
  (h.fragmentsIn block log2).filter fun x => h.isLiveFragment block x log2

/-- The objects in a run, by starts and lengths. -/
def objectsIn (h : Heap) : Nat × Entry → List (Nat × Nat)
  | (block, .run length) => [(h.blockStart block, length * h.blockSize)]
  | (block, .fragmented log2 _) => (h.busyFragmentsIn block log2).map fun x => (x, fragmentSize log2)
  | _ => []

/-- The free fragments in a run. -/
def freeIn (h : Heap) : Nat × Entry → List Nat
  | (block, .fragmented log2 _) => h.freeFragmentsIn block log2
  | _ => []

theorem mem_busyFragmentsIn {block log2 : Nat} (hlt : log2 ≤ h.blockLog2) {x : Nat} :
    x ∈ h.busyFragmentsIn block log2 ↔ h.blockOf x = block ∧ x % fragmentSize log2 = 0 ∧
      h.isLiveFragment block x log2 = true := by
  rw [busyFragmentsIn, List.mem_filter, mem_fragmentsIn hlt, and_assoc]

theorem CutOk.length_busyFragmentsIn {block log2 nfree : Nat} (hok : h.CutOk block log2 nfree) :
    (h.busyFragmentsIn block log2).length = h.fragmentsPerBlock log2 - nfree := by
  have hfree : ((h.fragmentsIn block log2).filter fun x => !h.isLiveFragment block x log2).length =
      nfree := hok.length_freeFragmentsIn
  have hall := List.length_eq_length_filter_add (l := h.fragmentsIn block log2)
    fun x => h.isLiveFragment block x log2
  rw [hfree, fragmentsIn, List.length_map, List.length_range] at hall
  rw [hall]
  exact (Nat.add_sub_cancel _ _).symm

/-- An object lies in the run that starts at its block. -/
theorem Walked.mem_objectsIn (w : Walked h runs) {p : Nat × Entry} (hp : p ∈ runs) {s l : Nat} :
    (s, l) ∈ h.objectsIn p ↔ h.blockOf s = p.1 ∧ h.objectAt s = some l := by
  obtain ⟨block, e⟩ := p
  obtain ⟨hg, hinner⟩ := (w.mem_iff block e).1 hp
  have only {e' : Entry} (he' : h.table.get? block = some e') : e = e' :=
    Option.some.inj (hg.symm.trans he')
  cases e with
  | free size next prev =>
    constructor
    · intro hm
      cases hm
    · rintro ⟨rfl, hs⟩
      rcases objectAt_eq_some.1 hs with ⟨log2, hc, -⟩ | ⟨n, hr, -⟩
      · obtain ⟨nfree, hcut⟩ := cutLog2?_eq_some.1 hc
        cases only hcut
      · cases only (runLength?_eq_some.1 hr)
  | freeTail head => cases hinner
  | freeBody => cases hinner
  | runBody back => cases hinner
  | run n =>
    rw [objectsIn, List.mem_singleton, Prod.mk.injEq]
    constructor
    · rintro ⟨rfl, rfl⟩
      exact ⟨blockOf_blockStart block, objectAt_of_run (runLength?_eq_some.2 hg)⟩
    · rintro ⟨rfl, hs⟩
      rcases objectAt_eq_some.1 hs with ⟨log2, hc, -⟩ | ⟨n', hr, hal, rfl⟩
      · obtain ⟨nfree, hcut⟩ := cutLog2?_eq_some.1 hc
        cases only hcut
      · cases only (runLength?_eq_some.1 hr)
        exact ⟨eq_blockStart rfl hal, rfl⟩
  | fragmented log2 nfree =>
    have hlt := Nat.le_of_lt (w.cuts _ _ _ hg).lt_block
    have hc : h.cutLog2? block = some log2 := cutLog2?_eq_some.2 ⟨nfree, hg⟩
    rw [objectsIn, List.mem_map]
    constructor
    · rintro ⟨x, hx, heq⟩
      obtain ⟨rfl, rfl⟩ := Prod.mk.inj heq
      obtain ⟨rfl, hal, hlive⟩ := (mem_busyFragmentsIn hlt).1 hx
      exact ⟨rfl, objectAt_eq_some.2 (.inl ⟨log2, hc, hal, hlive, rfl⟩)⟩
    · rintro ⟨rfl, hs⟩
      rw [objectAt_of_cut log2 hc, Option.ite_none_right_eq_some] at hs
      obtain ⟨⟨hal, hlive⟩, hl⟩ := hs
      cases hl
      exact ⟨s, (mem_busyFragmentsIn hlt).2 ⟨rfl, hal, hlive⟩, rfl⟩

/-- The runs that a walk meets hold all objects. -/
theorem Walked.mem_objects (w : Walked h runs) {s l : Nat} :
    (s, l) ∈ runs.flatMap h.objectsIn ↔ h.objectAt s = some l := by
  rw [List.mem_flatMap]
  constructor
  · rintro ⟨p, hp, hin⟩
    exact ((w.mem_objectsIn hp).1 hin).2
  · intro hs
    obtain ⟨e, hg, hinner⟩ : ∃ e, h.table.get? (h.blockOf s) = some e ∧ e.isInner = false := by
      rcases objectAt_eq_some.1 hs with ⟨log2, hc, -⟩ | ⟨n, hr, -⟩
      · obtain ⟨nfree, hg⟩ := cutLog2?_eq_some.1 hc
        exact ⟨_, hg, rfl⟩
      · exact ⟨_, runLength?_eq_some.1 hr, rfl⟩
    have hp := (w.mem_iff _ e).2 ⟨hg, hinner⟩
    exact ⟨_, hp, (w.mem_objectsIn hp).2 ⟨rfl, hs⟩⟩

theorem Walked.nodup_objects (w : Walked h runs) : (runs.flatMap h.objectsIn).Nodup := by
  refine w.surveyed.nodup_flatMap (fun o => h.blockOf o.1) fun p hp =>
    ⟨?_, fun o ho => ((w.mem_objectsIn hp).1 ho).1⟩
  obtain ⟨block, e⟩ := p
  cases e with
  | run n => exact List.pairwise_singleton _ _
  | fragmented log2 nfree =>
    refine List.pairwise_map.2 (((nodup_fragmentsIn h _ _).filter _).imp fun hne heq => hne ?_)
    exact congrArg Prod.fst heq
  | _ => exact List.nodup_nil

theorem Walked.mem_free (w : Walked h runs) {x : Nat} :
    x ∈ runs.flatMap h.freeIn ↔ ∃ log2, h.freeFragment x = some log2 := by
  simp only [← w.surveyed.mem_freeFragmentsOf, freeFragmentsOf, List.mem_flatMap]
  constructor
  · rintro ⟨⟨block, e⟩, hp, hx⟩
    cases e with
    | fragmented log2 nfree =>
      refine ⟨log2, _, hp, ?_⟩
      simp only [if_true]
      exact hx
    | _ => cases hx
  · rintro ⟨log2, ⟨block, e⟩, hp, hx⟩
    refine ⟨_, hp, ?_⟩
    cases e with
    | fragmented k nfree =>
      simp only at hx
      split at hx
      · exact hx
      · cases hx
    | _ => cases hx

theorem Walked.nodup_free (w : Walked h runs) : (runs.flatMap h.freeIn).Nodup := by
  refine w.surveyed.nodup_flatMap h.blockOf fun p hp => ?_
  obtain ⟨block, e⟩ := p
  obtain ⟨hg, -⟩ := (w.mem_iff block e).1 hp
  cases e with
  | fragmented log2 nfree =>
    have hlt := Nat.le_of_lt (w.cuts _ _ _ hg).lt_block
    exact ⟨nodup_freeFragmentsIn h block log2, fun x hx => ((mem_freeFragmentsIn hlt).1 hx).1⟩
  | _ => exact ⟨List.nodup_nil, fun x hx => by cases hx⟩

/-! ## Adding up -/

/-- The figures `u'` are those of `u` and of what lies in these runs. -/
structure Tallied (h : Heap) (runs : List (Nat × Entry)) (u u' : Usage) : Prop where
  bytesTotal_eq : u'.bytesTotal = u.bytesTotal
  namedObjects_eq : u'.namedObjects = u.namedObjects
  bytesUsed_eq : u'.bytesUsed = u.bytesUsed + Size.total ((runs.flatMap h.objectsIn).map Prod.snd)
  bytes_eq : u'.bytesUsed + u'.bytesFree =
    u.bytesUsed + u.bytesFree + Size.total (runs.map fun p => p.2.step) * h.blockSize
  fragmentsUsed_eq : u'.fragmentsUsed =
    u.fragmentsUsed + (runs.flatMap h.objectsIn).countP (·.2 < h.blockSize)
  fragmentsFree_eq : u'.fragmentsFree = u.fragmentsFree + (runs.flatMap h.freeIn).length
  chunksUsed_eq : u'.chunksUsed = u.chunksUsed +
    ((runs.flatMap h.objectsIn).countP (h.blockSize ≤ ·.2) + runs.countP isCut)
  chunksFree_eq : u'.chunksFree = u.chunksFree + (runs.filterMap freeRun?).length

namespace Tallied

theorem nil (h : Heap) (u : Usage) : Tallied h [] u u := by
  constructor <;> simp

theorem append (t : Tallied h runs u u') (t' : Tallied h runs' u' u'') :
    Tallied h (runs ++ runs') u u'' where
  bytesTotal_eq := t'.bytesTotal_eq.trans t.bytesTotal_eq
  namedObjects_eq := t'.namedObjects_eq.trans t.namedObjects_eq
  bytesUsed_eq := by
    rw [t'.bytesUsed_eq, t.bytesUsed_eq, List.flatMap_append, List.map_append, Size.total_append,
      Nat.add_assoc]
  bytes_eq := by
    rw [t'.bytes_eq, t.bytes_eq, List.map_append, Size.total_append, Nat.add_mul, Nat.add_assoc]
  fragmentsUsed_eq := by
    rw [t'.fragmentsUsed_eq, t.fragmentsUsed_eq, List.flatMap_append, List.countP_append, Nat.add_assoc]
  fragmentsFree_eq := by
    rw [t'.fragmentsFree_eq, t.fragmentsFree_eq, List.flatMap_append, List.length_append,
      Nat.add_assoc]
  chunksUsed_eq := by
    rw [t'.chunksUsed_eq, t.chunksUsed_eq, List.flatMap_append, List.countP_append,
      List.countP_append]
    omega
  chunksFree_eq := by
    rw [t'.chunksFree_eq, t.chunksFree_eq, List.filterMap_append, List.length_append, Nat.add_assoc]

end Tallied

/-- The first `done` blocks have been counted. No figure exceeds what so many blocks can hold. -/
structure Counted (h : Heap) (done : Nat) (u : Usage) : Prop where
  chunks_le : u.chunksUsed + u.chunksFree ≤ done
  bytes_eq : u.bytesUsed + u.bytesFree = done * h.blockSize
  fragments_le : u.fragmentsUsed + u.fragmentsFree ≤ done * h.blockSize

/-- The figures with those of a block that is cut into `busy` fragments in use and `free` others. -/
def withCut (u : Usage) (log2 busy free : Nat) : Usage :=
  { u with
    chunksUsed := u.chunksUsed + 1
    fragmentsUsed := u.fragmentsUsed + busy
    fragmentsFree := u.fragmentsFree + free
    bytesUsed := u.bytesUsed + busy * fragmentSize log2
    bytesFree := u.bytesFree + free * fragmentSize log2 }

/-- A block cut into fragments accounts for as many objects as it has busy fragments, and the others
are free. -/
theorem CutOk.tallied {block log2 busy nfree : Nat} (hok : h.CutOk block log2 nfree)
    (hcount : h.fragmentsPerBlock log2 = busy + nfree) (u : Usage) :
    Tallied h [(block, .fragmented log2 nfree)] u (withCut u log2 busy nfree) := by
  have hshort := fragmentSize_lt_blockSize hok.lt_block
  have hfill : (busy + nfree) * fragmentSize log2 = h.blockSize := by
    rw [← hcount]
    exact h.fragments_fill (Nat.le_of_lt hok.lt_block)
  have hall : ∀ o ∈ h.objectsIn (block, .fragmented log2 nfree), o.2 = fragmentSize log2 := by
    intro o ho
    obtain ⟨x, -, rfl⟩ := List.mem_map.1 ho
    rfl
  have hobjects : (h.objectsIn (block, .fragmented log2 nfree)).length = busy := by
    rw [objectsIn, List.length_map, hok.length_busyFragmentsIn, hcount, Nat.add_sub_cancel]
  constructor <;> try rfl
  case bytesUsed_eq =>
    rw [List.flatMap_singleton, Size.total_of_eq (List.forall_mem_map.2 hall), List.length_map,
      hobjects, withCut]
  case bytes_eq =>
    show u.bytesUsed + busy * fragmentSize log2 + (u.bytesFree + nfree * fragmentSize log2) =
      _ + (1 + 0) * h.blockSize
    rw [Nat.add_zero, Nat.one_mul, ← hfill, Nat.add_mul]
    omega
  case fragmentsUsed_eq =>
    rw [List.flatMap_singleton, List.countP_eq_length.2, hobjects, withCut]
    intro o ho
    rw [hall o ho]
    exact decide_eq_true hshort
  case fragmentsFree_eq =>
    rw [List.flatMap_singleton, freeIn, hok.length_freeFragmentsIn, withCut]
  case chunksUsed_eq =>
    rw [List.flatMap_singleton, List.countP_eq_zero.2]
    · rfl
    · intro o ho
      rw [hall o ho, decide_eq_true_eq]
      exact Nat.not_le_of_lt hshort

/-- A block cut into fragments is counted, and no sum leaves the range of sizes. -/
theorem CutOk.counted_addRun {block log2 nfree done : Nat} (hok : h.CutOk block log2 nfree)
    (c : Counted h done u) (hrange : h.blockLog2 < 64)
    (hroom : (done + 1) * h.blockSize < Size.limit) :
    ∃ u', u.addRun? h.blockLog2 (.fragmented log2 nfree) = some u' ∧
      Tallied h [(block, .fragmented log2 nfree)] u u' ∧ Counted h (done + 1) u' := by
  have hle := Nat.le_of_lt hok.lt_block
  have hlt : log2 < 64 := Nat.lt_trans hok.lt_block hrange
  obtain ⟨busy, hcount⟩ : ∃ busy, h.fragmentsPerBlock log2 = busy + nfree :=
    ⟨_, (Nat.sub_add_cancel (Nat.le_of_lt hok.some_busy)).symm⟩
  have hfill : busy * fragmentSize log2 + nfree * fragmentSize log2 = h.blockSize := by
    rw [← Nat.add_mul, ← hcount]
    exact h.fragments_fill hle
  have hsplit : fragmentsIn? h.blockLog2 log2 = some (busy + nfree) := by
    rw [fragmentsIn?_eq hle hrange, ← hcount]
    rfl
  -- no figure exceeds the bytes of the blocks that have been counted
  obtain ⟨hchunks, hbytes, hfragments⟩ := c
  have hbusy_le := Nat.le_mul_of_pos_right busy (fragmentSize_pos log2)
  have hfree_le := Nat.le_mul_of_pos_right nfree (fragmentSize_pos log2)
  have hdone := Nat.le_mul_of_pos_right done h.blockSize_pos
  have hpos := h.blockSize_pos
  rw [Nat.add_mul, Nat.one_mul] at hroom
  have hused : Size.shiftLeft? busy log2 = some (busy * fragmentSize log2) :=
    Size.shiftLeft?_eq hlt (by rw [← fragmentSize]; omega)
  have hunused : Size.shiftLeft? nfree log2 = some (nfree * fragmentSize log2) :=
    Size.shiftLeft?_eq hlt (by rw [← fragmentSize]; omega)
  refine ⟨withCut u log2 busy nfree, ?_, hok.tallied hcount u, ?_⟩
  · simp only [Usage.addRun?, hsplit, hused, hunused, bind, Option.bind_some,
      Size.sub?_eq_some_iff.2 ⟨Nat.le_add_left nfree busy, rfl⟩, Nat.add_sub_cancel]
    rw [Size.add?_eq_some_iff.2 ⟨by omega, rfl⟩, Size.add?_eq_some_iff.2 ⟨by omega, rfl⟩,
      Size.add?_eq_some_iff.2 ⟨by omega, rfl⟩, Size.add?_eq_some_iff.2 ⟨by omega, rfl⟩,
      Size.add?_eq_some_iff.2 ⟨by omega, rfl⟩]
    rfl
  · refine ⟨?_, ?_, ?_⟩ <;> simp only [withCut, Nat.add_mul, Nat.one_mul] <;> omega

/-- A free run is counted as one chunk. -/
theorem Counted.addRun_free {block done size : Nat} {next prev : Option Nat} (c : Counted h done u)
    (hsize : 0 < size) (hrange : h.blockLog2 < 64)
    (hroom : (done + size) * h.blockSize < Size.limit) :
    ∃ u', u.addRun? h.blockLog2 (.free size next prev) = some u' ∧
      Tallied h [(block, .free size next prev)] u u' ∧ Counted h (done + size) u' := by
  obtain ⟨hchunks, hbytes, hfragments⟩ := c
  have hdone := Nat.le_mul_of_pos_right done h.blockSize_pos
  rw [Nat.add_mul] at hroom
  have hlong : h.blockSize ≤ size * h.blockSize := Nat.le_mul_of_pos_left _ hsize
  have hpos := h.blockSize_pos
  have hshift : Size.shiftLeft? size h.blockLog2 = some (size * h.blockSize) :=
    Size.shiftLeft?_eq hrange (by rw [← blockSize]; omega)
  refine ⟨{ u with
    chunksFree := u.chunksFree + 1
    bytesFree := u.bytesFree + size * h.blockSize }, ?_, ?_, ?_⟩
  · simp only [Usage.addRun?, hshift, bind, Option.bind_some]
    rw [Size.add?_eq_some_iff.2 ⟨by omega, rfl⟩, Size.add?_eq_some_iff.2 ⟨by omega, rfl⟩]
    rfl
  · constructor <;> try rfl
    show u.bytesUsed + (u.bytesFree + size * h.blockSize) = _ + (max size 1 + 0) * h.blockSize
    rw [Nat.max_eq_left hsize, Nat.add_assoc, Nat.add_zero]
  · refine ⟨?_, ?_, ?_⟩ <;> simp only [Nat.add_mul] <;> omega

/-- A busy run is counted as one chunk, and is one object. -/
theorem Counted.addRun_busy {block done length : Nat} (c : Counted h done u) (hlength : 0 < length)
    (hrange : h.blockLog2 < 64) (hroom : (done + length) * h.blockSize < Size.limit) :
    ∃ u', u.addRun? h.blockLog2 (.run length) = some u' ∧
      Tallied h [(block, .run length)] u u' ∧ Counted h (done + length) u' := by
  obtain ⟨hchunks, hbytes, hfragments⟩ := c
  have hdone := Nat.le_mul_of_pos_right done h.blockSize_pos
  rw [Nat.add_mul] at hroom
  have hlong : h.blockSize ≤ length * h.blockSize := Nat.le_mul_of_pos_left _ hlength
  have hpos := h.blockSize_pos
  have hshift : Size.shiftLeft? length h.blockLog2 = some (length * h.blockSize) :=
    Size.shiftLeft?_eq hrange (by rw [← blockSize]; omega)
  refine ⟨{ u with
    chunksUsed := u.chunksUsed + 1
    bytesUsed := u.bytesUsed + length * h.blockSize }, ?_, ?_, ?_⟩
  · simp only [Usage.addRun?, hshift, bind, Option.bind_some]
    rw [Size.add?_eq_some_iff.2 ⟨by omega, rfl⟩, Size.add?_eq_some_iff.2 ⟨by omega, rfl⟩]
    rfl
  · constructor <;> try rfl
    case bytes_eq =>
      show u.bytesUsed + length * h.blockSize + u.bytesFree = _ + (max length 1 + 0) * h.blockSize
      rw [Nat.max_eq_left hlength, Nat.add_zero]
      omega
    case fragmentsUsed_eq => simp [objectsIn, hlong]
    case chunksUsed_eq => simp [objectsIn, hlong, isCut]
  · refine ⟨?_, ?_, ?_⟩ <;> simp only [Nat.add_mul] <;> omega

/-- One run of a table in order is counted, and no sum leaves the range of sizes. -/
theorem counted_addRun {block done : Nat} {e : Entry} (hinner : e.isInner = false)
    (hfree : ∀ size next prev, e = .free size next prev → 0 < size)
    (hrun : ∀ length, e = .run length → 0 < length)
    (hcut : ∀ log2 nfree, e = .fragmented log2 nfree → h.CutOk block log2 nfree)
    (c : Counted h done u) (hrange : h.blockLog2 < 64)
    (hroom : (done + e.step) * h.blockSize < Size.limit) :
    ∃ u', u.addRun? h.blockLog2 e = some u' ∧ Tallied h [(block, e)] u u' ∧
      Counted h (done + e.step) u' := by
  cases e with
  | freeTail head => cases hinner
  | freeBody => cases hinner
  | runBody back => cases hinner
  | free size next prev =>
    have hsize := hfree size next prev rfl
    have hstep : (Entry.free size next prev).step = size := Nat.max_eq_left hsize
    rw [hstep] at hroom ⊢
    exact c.addRun_free hsize hrange hroom
  | run length =>
    have hlength := hrun length rfl
    have hstep : (Entry.run length).step = length := Nat.max_eq_left hlength
    rw [hstep] at hroom ⊢
    exact c.addRun_busy hlength hrange hroom
  | fragmented log2 nfree => exact (hcut log2 nfree rfl).counted_addRun c hrange hroom

/-- The figures of a heap can be added up over what a walk meets. -/
theorem Walked.tallied (w : Walked h runs) {layout : List Run} (ht : h.table.Tiled layout)
    (hrange : h.blockLog2 < 64)
    (hroom : Size.total (runs.map fun p => p.2.step) * h.blockSize < Size.limit) (c : Counted h 0 u) :
    ∃ u', runs.foldlM (fun u p => u.addRun? h.blockLog2 p.2) u = some u' ∧ Tallied h runs u u' := by
  -- over the rest of the walk, in which all runs are in order
  have rest (l : List (Nat × Entry)) (hl : ∀ p ∈ l, p ∈ runs) (u : Usage) (done : Nat)
      (c : Counted h done u)
      (hroom : (done + Size.total (l.map fun p => p.2.step)) * h.blockSize < Size.limit) :
      ∃ u', l.foldlM (fun u p => u.addRun? h.blockLog2 p.2) u = some u' ∧ Tallied h l u u' := by
    induction l generalizing u done with
    | nil => exact ⟨u, rfl, .nil h u⟩
    | cons p l ih =>
      obtain ⟨block, e⟩ := p
      obtain ⟨hg, hinner⟩ := (w.mem_iff block e).1 (hl _ List.mem_cons_self)
      rw [List.map_cons, Size.total_cons, ← Nat.add_assoc] at hroom
      have hfirst : (done + e.step) * h.blockSize < Size.limit :=
        Nat.lt_of_le_of_lt (Nat.mul_le_mul_right _ (Nat.le_add_right _ _)) hroom
      obtain ⟨u₁, hadd, first, c₁⟩ := counted_addRun hinner
        (fun size next prev he => (ht.freeBlocks (he ▸ hg)).1) (fun n he => (ht.bodies (he ▸ hg)).1)
        (fun log2 nfree he => w.cuts _ _ _ (he ▸ hg)) c hrange hfirst
      obtain ⟨u', hfold, others⟩ := ih (fun q hq => hl q (List.mem_cons_of_mem _ hq)) u₁ _ c₁ hroom
      refine ⟨u', ?_, first.append others⟩
      rw [List.foldlM_cons, hadd]
      exact hfold
  exact rest runs (fun _ hp => hp) u 0 c (by rw [Nat.zero_add]; exact hroom)

/-- The runs that a walk over a well-formed heap meets make up its arena, and its figures of use are
theirs. -/
theorem WellFormed.tallied (w : h.WellFormed) :
    ∃ runs u, h.table.runs? = some runs ∧ h.usage? = some u ∧ Walked h runs ∧
      Size.total (runs.map fun p => p.2.step) = h.blockCount ∧
      Tallied h runs
        { bytesTotal := h.blockCount * h.blockSize, namedObjects := h.names.size } u := by
  obtain ⟨layout, hl⟩ := w.laidOut
  obtain ⟨runs, hr, hs, hstarts, hmem⟩ := hl.toTiled.walk
  have wk : Walked h runs := ⟨hs.keysIncrease, hmem, w.cuts⟩
  have hsteps := congrArg (fun l => Size.total (l.map fun p => p.2.step)) hstarts
  simp only [List.map_map, Run.total_step_starts hl.spells] at hsteps
  have htotal : Size.total (runs.map fun p => p.2.step) = h.blockCount := by
    rw [blockCount, ← hl.size_eq, ← hsteps]
    exact congrArg Size.total (List.map_congr_left fun p _ => (Entry.step_bare p.2).symm)
  have hroom : h.blockCount * h.blockSize < Size.limit :=
    Nat.lt_of_le_of_lt (Nat.le_add_left _ _) (w.size_eq ▸ w.small)
  have hshift : Size.shiftLeft? h.blockCount h.blockLog2 = some (h.blockCount * h.blockSize) :=
    Size.shiftLeft?_eq w.blockLog2_lt hroom
  obtain ⟨u, hfold, tally⟩ := wk.tallied hl.toTiled w.blockLog2_lt (by rw [htotal]; exact hroom)
    (u := { bytesTotal := h.blockCount * h.blockSize, namedObjects := h.names.size })
    ⟨Nat.le_refl _, (Nat.zero_mul _).symm, Nat.zero_le _⟩
  refine ⟨runs, u, hr, ?_, wk, htotal, tally⟩
  rw [usage?, hshift, hr]
  exact hfold

end RegionHeap.Heap
