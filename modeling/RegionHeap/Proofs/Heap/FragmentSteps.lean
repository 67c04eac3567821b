import RegionHeap.Proofs.Heap.BlockSteps
import RegionHeap.Proofs.Heap.Cuts
import RegionHeap.Proofs.Heap.Steady

/-!
Steps that hand out fragments and take them back. A fragment comes from the list of its size or from
a block that is cut for it, and goes back to the list or, as the last of its block, with the block.
-/
namespace RegionHeap.Heap

open HeapM BlockTable

variable {h h' : Heap} {E : HeapError → Heap → Prop} {roomy : Prop} {block log2 : Nat}

/-! ## Counting busy fragments -/

/-- The count of a map that is bounded by its fragments is the number of busy ones. -/
theorem CutOk.busy_count {nfree : Nat} (hok : h.CutOk block log2 nfree) :
    ∃ m, h.busy.find? block = some m ∧
      h.fragmentsPerBlock log2 ≤ m.size * BusyMap.wordBits ∧
      (List.range (h.fragmentsPerBlock log2)).countP m.isBusy + nfree =
        h.fragmentsPerBlock log2 ∧ m.count + nfree = h.fragmentsPerBlock log2 := by
  obtain ⟨m, hm, hsize, hbound, hcount⟩ := hok.map
  have hle : h.fragmentsPerBlock log2 ≤ m.size * BusyMap.wordBits := by
    rw [hsize]
    exact BusyMap.le_wordsFor_mul _
  refine ⟨m, hm, hle, ?_, hcount⟩
  rw [← BusyMap.count_eq_of_bound hbound]
  exact hcount

/-- A block with a free fragment counts one. -/
theorem CutOk.free_pos {nfree i : Nat} {m : BusyMap} (hok : h.CutOk block log2 nfree)
    (hm : h.busy.find? block = some m) (hi : i < h.fragmentsPerBlock log2)
    (hf : m.isBusy i = false) : 0 < nfree := by
  obtain ⟨m', hm', -, hcount, -⟩ := hok.busy_count
  rw [hm, Option.some.injEq] at hm'
  subst hm'
  refine Nat.pos_of_ne_zero fun h0 => ?_
  rw [h0, Nat.add_zero] at hcount
  have := (List.countP_eq_length (p := m.isBusy)
    (l := List.range (h.fragmentsPerBlock log2))).1 (by rw [hcount, List.length_range]) i
    (List.mem_range.2 hi)
  rw [hf] at this
  cases this

/-- If only one fragment is not free, all others are. -/
theorem CutOk.others_free {nfree i j : Nat} {m : BusyMap} (hok : h.CutOk block log2 nfree)
    (hm : h.busy.find? block = some m) (hlast : h.fragmentsPerBlock log2 ≤ nfree + 1)
    (hi : i < h.fragmentsPerBlock log2) (hb : m.isBusy i = true)
    (hj : j < h.fragmentsPerBlock log2) (hne : j ≠ i) : m.isBusy j = false := by
  obtain ⟨m', hm', -, hcount, -⟩ := hok.busy_count
  rw [hm, Option.some.injEq] at hm'
  subst hm'
  have hupdate := BusyMap.countP_update (f := m.isBusy) (b := false)
    (g := fun k => if k = i then false else m.isBusy k) hi fun _ => rfl
  rw [hb, if_pos rfl] at hupdate
  have hzero : (List.range (h.fragmentsPerBlock log2)).countP
      (fun k => if k = i then false else m.isBusy k) = 0 := by
    have := hok.some_busy
    simp only [Bool.false_eq_true, if_false] at hupdate
    omega
  have := List.countP_eq_zero.1 hzero j (List.mem_range.2 hj)
  rw [if_neg hne] at this
  simpa using this

theorem isLiveFragment_of_find? {m : BusyMap} (hm : h.busy.find? block = some m) (offset log2 : Nat) :
    h.isLiveFragment block offset log2 = m.isBusy (h.indexInBlock offset log2) := by
  rw [isLiveFragment, BusyMaps.isBusy, hm, Option.any_some]

/-- A block with fewer free fragments than fragments has a live one. -/
theorem CutOk.exists_live {block log2 nfree : Nat} (hok : h.CutOk block log2 nfree)
    (hg : h.table.get? block = some (.fragmented log2 nfree)) :
    ∃ start, h.blockOf start = block ∧ h.objectAt start = some (fragmentSize log2) := by
  obtain ⟨m, hm, -, hcount, -⟩ := hok.busy_count
  have hlt := Nat.le_of_lt hok.lt_block
  have hpos : 0 < (List.range (h.fragmentsPerBlock log2)).countP m.isBusy := by
    have := hok.some_busy
    omega
  obtain ⟨i, hi, hbusy⟩ := List.countP_pos_iff.1 hpos
  have hi := List.mem_range.1 hi
  have hblock : h.blockOf (nthFragment log2 (h.blockStart block) i) = block :=
    blockOf_nthFragment hlt hi
  have hc : h.cutLog2? block = some log2 := cutLog2?_eq_some.2 ⟨nfree, hg⟩
  have hlive : h.isLiveFragment block (nthFragment log2 (h.blockStart block) i) log2 = true := by
    rw [isLiveFragment_of_find? hm, indexInBlock_nthFragment hlt hi]
    exact hbusy
  refine ⟨nthFragment log2 (h.blockStart block) i, hblock, ?_⟩
  rw [objectAt_of_cut log2 (by rw [hblock]; exact hc), hblock,
    if_pos ⟨nthFragment_mod hlt i, hlive⟩]

/-! ## A fragment changes hands -/

/-- After one fragment of a cut block was marked, one object has come or gone, and so has one free
fragment. -/
theorem Reworked.flipped (r : Reworked h h' block) {offset : Nat} (busy : Bool)
    (hb : h.blockOf offset = block) (hal : offset % fragmentSize log2 = 0)
    (hc : h.cutLog2? block = some log2) (hc' : h'.cutLog2? block = some log2)
    (hlive : ∀ x, x % fragmentSize log2 = 0 → h.blockOf x = block →
      h'.isLiveFragment block x log2 = if x = offset then busy else h.isLiveFragment block x log2) :
    (∀ x, h'.freeFragment x =
      replaced h.freeFragment offset (if busy then none else some log2) x) ∧
    ∀ s, h.blockOf s = block → h'.objectAt s =
      replaced h.objectAt offset (if busy then some (fragmentSize log2) else none) s := by
  constructor
  · intro x
    by_cases hx : h.blockOf x = block
    · rw [freeFragment_of_cut log2 (by rw [r.blockOf_eq, hx]; exact hc'), r.blockOf_eq, hx]
      by_cases he : x = offset
      · subst he
        rw [replaced_self, hlive x hal hx, if_pos rfl]
        cases busy <;> simp [hal]
      · rw [replaced_of_ne _ _ he, freeFragment_of_cut log2 (by rw [hx]; exact hc), hx]
        refine ite_congr (propext (and_congr_right fun hxal => ?_)) (fun _ => rfl) fun _ => rfl
        rw [hlive x hxal hx, if_neg he]
    · rw [r.freeFragment_eq hx, replaced_of_ne _ _ (by rintro rfl; exact hx hb)]
  · intro s hs
    rw [objectAt_of_cut log2 (by rw [r.blockOf_eq, hs]; exact hc'), r.blockOf_eq, hs]
    by_cases he : s = offset
    · subst he
      rw [replaced_self, hlive s hal hs, if_pos rfl]
      cases busy <;> simp [hal]
    · rw [replaced_of_ne _ _ he, objectAt_of_cut log2 (by rw [hs]; exact hc), hs]
      refine ite_congr (propext (and_congr_right fun hsal => ?_)) (fun _ => rfl) fun _ => rfl
      rw [hlive s hsal hs, if_neg he]

/-- A fragment has changed hands once its map, its list and the entry of its block agree on it. -/
theorem Marked.turns {h₁ h₂ h₃ : Heap} {offset nfree nfree' : Nat} {busy : Bool} {m m' : BusyMap}
    (w : h.WellFormed) (hg : h.table.get? (h.blockOf offset) = some (.fragmented log2 nfree))
    (hal : offset % fragmentSize log2 = 0)
    (k : Marked h h₁ (h.blockOf offset) (h.indexInBlock offset log2) busy m m')
    (hwas : m.isBusy (h.indexInBlock offset log2) = !busy) (rel : Relisted h₁ h₂)
    (l₂ : h₂.Lists (replaced h.freeFragment offset (if busy then none else some log2)))
    (hkeep : KeepsOutside h₁ h₂ h.freeFragment offset)
    (r₃ : Reworked h₂ h₃ (h.blockOf offset)) (heq : h₃ = { h₂ with table := h₃.table })
    (hg₃ : h₃.table.get? (h.blockOf offset) = some (.fragmented log2 nfree'))
    (hlt' : nfree' < h.fragmentsPerBlock log2)
    (hnfree : nfree' + (if busy then 1 else 0) = nfree + if busy then 0 else 1) :
    Turns h h₃ (replaced h.objectAt offset (if busy then some (fragmentSize log2) else none)) := by
  have hc : h.cutLog2? (h.blockOf offset) = some log2 := cutLog2?_eq_some.2 ⟨nfree, hg⟩
  have hok := w.cuts _ _ _ hg
  have hlt := Nat.le_of_lt hok.lt_block
  have r := (k.reworked.trans (Reworked.of_relisted rel _)).trans r₃
  have hbusy : h₃.busy = h₁.busy := by rw [heq, rel.eq]
  have hlog : h₃.blockLog2 = h₁.blockLog2 := by rw [r.blockLog2_eq, k.reworked.blockLog2_eq]
  have hcount : m'.count + nfree' = h.fragmentsPerBlock log2 := by
    obtain ⟨m₀, hm, -, -, hsum⟩ := hok.busy_count
    rw [k.before, Option.some.injEq] at hm
    subst hm
    have := k.count
    rw [hwas] at this
    cases busy <;>
      simp only [Bool.not_true, Bool.not_false, Bool.false_eq_true, if_false, if_true] at * <;> omega
  have hok' := (k.cutOk hok (indexInBlock_lt hlt offset) hlt' hcount).of_busy h₃ hlog
    (by rw [hbusy])
  have hsettled : Reworked.Settled h₃ (h.blockOf offset) := .inl ⟨log2, nfree', hg₃, hok'⟩
  obtain ⟨hfrag, hobjects⟩ := r.flipped busy rfl hal hc (cutLog2?_eq_some.2 ⟨_, hg₃⟩)
    fun x hxal hxb => by
      rw [isLiveFragment_congr h₁ h₃ hlog (by rw [hbusy])]
      exact k.isLiveFragment_eq hlt hal rfl hxal hxb
  have hlists : h₃.Lists h₃.freeFragment :=
    (r₃.lists l₂ (by rw [heq]) (by rw [heq])).of_eq hfrag
  have w₃ := r.wellFormed w hsettled hlists
  refine r.turns w hsettled hlists rfl hobjects fun s l l' hs hs' i hi hi' => ?_
  have h₁b (i : Nat) : h₁.arenaByte i = h.arenaByte i := by rw [k.eq]; rfl
  have h₃b (i : Nat) : h₃.arenaByte i = h₂.arenaByte i := by rw [heq]; rfl
  rw [h₃b, ← h₁b]
  refine hkeep (s + i) ?_ (w.links_outside hs (by omega))
  -- the fragment is free before or after, so its links lie in no object that is there both times
  cases busy with
  | true =>
    refine w.links_outside hs (by omega) offset log2 (freeFragment_eq_some.2 ⟨hc, hal, ?_⟩)
    rw [isLiveFragment_of_find? k.before]
    exact hwas
  | false =>
    refine w₃.links_outside hs' (by omega) offset log2 ?_
    rw [hfrag, replaced_self]
    rfl

/-- The first free fragment of a list is handed out. -/
theorem reuseFragment_ends (w : h.WellFormed) {offset : Nat}
    (hx : h.freeFragment offset = some log2) :
    Ends roomy (reuseFragment log2 offset) h (fun handle h' => handle = offset ∧
      h.objectAt offset = none ∧
      Turns h h' (replaced h.objectAt offset (some (fragmentSize log2)))) E := by
  obtain ⟨hc, hal, hfree⟩ := freeFragment_eq_some.1 hx
  obtain ⟨nfree, hg, hok⟩ := w.cutOk hc
  obtain ⟨m, hm, hle, -, -⟩ := hok.busy_count
  have hidx := indexInBlock_lt (h := h) (Nat.le_of_lt hok.lt_block) offset
  have hbit : m.isBusy (h.indexInBlock offset log2) = false := by
    rw [← isLiveFragment_of_find? hm]
    exact hfree
  have hpos := hok.free_pos hm hidx hbit
  have hnone : h.objectAt offset = none := by
    rw [objectAt_of_cut _ hc, hfree]
    simp
  unfold reuseFragment
  refine Ends.bind' (Ends.get' ?_)
  simp only [hg]
  refine Ends.ite' (fun _ => ?_) fun hne => absurd ⟨trivial, hpos⟩ hne
  refine Ends.bind' (Ends.orTrap' (indexInBlock?_eq (w.cut_lt hc) offset) ?_)
  refine Ends.bind' ((markFragment_ends _ hm (by omega) true).mono ?_ fun _ _ hE => hE)
  rintro was h₁ ⟨rfl, m', k⟩
  refine Ends.ite' (fun _ => ?_) fun hne => absurd (by rw [hbit]) hne
  have r₁ := k.reworked
  have l₁ : h₁.Lists h.freeFragment := r₁.lists w.lists (by rw [k.eq]) (by rw [k.eq])
  refine Ends.bind' ((unlistFragment_ends l₁ (by rw [r₁.region.size_eq]; exact w.small) hx).mono ?_
    fun _ _ hE => hE)
  rintro - h₂ ⟨rel, l₂, hkeep⟩
  have r₂ := r₁.trans (Reworked.of_relisted rel (h.blockOf offset))
  have hg₂ : h₂.table.get? (h.blockOf offset) = some (.fragmented log2 nfree) := by
    rw [rel.eq, k.eq]
    exact hg
  refine Ends.bind' ((setEntry_ends (r₂.laidOut w.laidOut) hg₂ (.inr ⟨_, _, rfl⟩) log2
    (nfree - 1)).mono ?_ fun _ _ hE => hE)
  rintro - h₃ ⟨r₃, heq, hg₃⟩
  have hlt := hok.some_busy
  exact Ends.pure' ⟨rfl, hnone, k.turns w hg hal hbit rel l₂ hkeep r₃ heq hg₃ (by omega)
    (by rw [if_pos rfl, if_pos rfl]; omega)⟩

/-! ## Cutting a block -/

theorem replaced_twice {α : Type} (f : Nat → α) (x : Nat) (a b : α) :
    replaced (replaced f x a) x b = replaced f x b := by
  funext y
  by_cases hy : y = x <;> simp [replaced, hy]

/-- What is put where nothing was is taken away again. -/
theorem replaced_back {α : Type} {f : Nat → Option α} {x : Nat} (hx : f x = none) (a : Option α) :
    replaced (replaced f x a) x none = f := by
  rw [replaced_twice]
  funext y
  by_cases hy : y = x
  · rw [hy, replaced_self, hx]
  · rw [replaced_of_ne _ _ hy]

theorem nthFragment_holdsLinks (w : h.WellFormed) (hmin : minFragmentLog2 ≤ log2)
    (hlt : log2 ≤ h.blockLog2) (hb : block < h.blockCount) {i : Nat}
    (hi : i < h.fragmentsPerBlock log2) :
    h.HoldsLinks (nthFragment log2 (h.blockStart block) i) := by
  have h16 : 16 ∣ fragmentSize log2 := one_shiftLeft_dvd hmin
  have hend := fragment_end_le hlt hi
  have hle := Nat.le_of_dvd (fragmentSize_pos log2) h16
  have hblock := Nat.mul_le_mul_right h.blockSize (show block + 1 ≤ h.blockCount from hb)
  rw [Nat.add_mul, Nat.one_mul] at hblock
  refine ⟨?_, ?_⟩
  · exact Nat.mod_eq_zero_of_dvd (Nat.dvd_trans h16 (Nat.dvd_of_mod_eq_zero (nthFragment_mod hlt i)))
  · rw [w.size_eq, nthFragment, blockStart]
    omega

theorem count_replicate (words : Nat) : BusyMap.count (Array.replicate words 0) = 0 := by
  rw [BusyMap.count_eq_countP, List.countP_eq_zero]
  intro i _
  rw [BusyMap.isBusy_replicate]
  exact Bool.false_ne_true

/-- A block that held a run of one block has been cut, and its first fragment is busy. -/
structure FreshCut (h h' : Heap) (block log2 : Nat) : Prop where
  reworked : Reworked h h' block
  run : h.runLength? block = some 1
  min_le : minFragmentLog2 ≤ log2
  lt_block : log2 < h.blockLog2
  entry : h'.table.get? block = some (.fragmented log2 (h.fragmentsPerBlock log2 - 1))
  map : ∃ m, h'.busy.find? block = some m ∧
    m.size = BusyMap.wordsFor (h.fragmentsPerBlock log2) ∧ m.count = 1 ∧
    ∀ i, m.isBusy i = decide (i = 0)

namespace FreshCut

theorem cut (c : FreshCut h h' block log2) : h'.cutLog2? block = some log2 :=
  cutLog2?_eq_some.2 ⟨_, c.entry⟩

theorem not_cut (c : FreshCut h h' block log2) : h.cutLog2? block = none := by
  rw [cutLog2?, runLength?_eq_some.1 c.run]

theorem freeFragment_before (c : FreshCut h h' block log2) {x : Nat} (hx : h.blockOf x = block) :
    h.freeFragment x = none := by
  rw [freeFragment, hx, c.not_cut]
  rfl

theorem isLiveFragment_eq (c : FreshCut h h' block log2) (x : Nat) :
    h'.isLiveFragment block x log2 = decide (h.indexInBlock x log2 = 0) := by
  obtain ⟨m, hm, -, -, hbit⟩ := c.map
  rw [isLiveFragment_of_find? hm, hbit, c.reworked.indexInBlock_eq]

theorem settled (c : FreshCut h h' block log2) : Reworked.Settled h' block := by
  obtain ⟨m, hm, hsize, hcount, hbit⟩ := c.map
  have hpos := fragmentsPerBlock_pos h log2
  have hf := c.reworked.fragmentsPerBlock_eq log2
  refine .inl ⟨log2, _, c.entry, c.min_le, by rw [c.reworked.blockLog2_eq]; exact c.lt_block,
    by rw [hf]; omega, m, hm, by rw [hf]; exact hsize, fun i hge => ?_, by rw [hf]; omega⟩
  rw [hf] at hge
  rw [hbit, decide_eq_false (by omega)]

theorem nthFragment_index (c : FreshCut h h' block log2) {x : Nat} (hx : h.blockOf x = block)
    (hal : x % fragmentSize log2 = 0) :
    nthFragment log2 (h.blockStart block) (h.indexInBlock x log2) = x := by
  have := nthFragment_indexInBlock (Nat.le_of_lt c.lt_block) hal
  rwa [hx] at this

/-- All fragments of the block but the first are free. -/
theorem freeFragment_eq (c : FreshCut h h' block log2) {h₁ : Heap} {home : Nat → Option Nat}
    (u : RowListed h₁ h' h.freeFragment home log2 (h.blockStart block)
      (h.fragmentsPerBlock log2 - 1)) (x : Nat) : h'.freeFragment x = home x := by
  have r := c.reworked
  have hle := Nat.le_of_lt c.lt_block
  by_cases hx : h.blockOf x = block
  · rw [freeFragment_of_cut log2 (by rw [r.blockOf_eq, hx]; exact c.cut), r.blockOf_eq, hx,
      c.isLiveFragment_eq]
    by_cases hf : x % fragmentSize log2 = 0 ∧ h.indexInBlock x log2 ≠ 0
    · have hidx := indexInBlock_lt (h := h) hle x
      rw [if_pos ⟨hf.1, decide_eq_false hf.2⟩, ← u.listed (h.indexInBlock x log2) (by omega)
        (by omega), c.nthFragment_index hx hf.1]
    · rw [if_neg fun hn => hf ⟨hn.1, of_decide_eq_false hn.2⟩, u.others x, c.freeFragment_before hx]
      rintro i h1 hi rfl
      rw [indexInBlock_nthFragment hle (by omega)] at hf
      exact hf ⟨nthFragment_mod hle i, by omega⟩
  · rw [r.freeFragment_eq hx, u.others x]
    rintro i h1 hi rfl
    exact hx (blockOf_nthFragment hle (by omega))

/-- The one object of the block shrinks to its first fragment. -/
theorem objectAt_eq (c : FreshCut h h' block log2) {s : Nat} (hs : h.blockOf s = block) :
    h'.objectAt s = replaced h.objectAt (h.blockStart block) (some (fragmentSize log2)) s := by
  have r := c.reworked
  have hle := Nat.le_of_lt c.lt_block
  have hzero : nthFragment log2 (h.blockStart block) 0 = h.blockStart block := by
    rw [nthFragment, Nat.zero_mul, Nat.add_zero]
  rw [objectAt_of_cut log2 (by rw [r.blockOf_eq, hs]; exact c.cut), r.blockOf_eq, hs,
    c.isLiveFragment_eq]
  by_cases he : s = h.blockStart block
  · subst he
    rw [replaced_self, if_pos]
    refine ⟨blockStart_mod_fragment hle block, decide_eq_true ?_⟩
    rw [← hzero]
    exact indexInBlock_nthFragment hle (fragmentsPerBlock_pos h log2)
  · rw [replaced_of_ne _ _ he, if_neg, objectAt, hs, c.not_cut]
    · have : s % h.blockSize ≠ 0 := fun hal => he (eq_blockStart hs hal)
      simp only [if_neg this]
    · rintro ⟨hal, hi⟩
      refine he ?_
      rw [← c.nthFragment_index hs hal, of_decide_eq_true hi, hzero]

/-- The block holds its first fragment and nothing else, and the lists hold the others. -/
theorem turns (c : FreshCut h h' block log2) (w : h.WellFormed) {h₁ : Heap}
    {home : Nat → Option Nat} (u : RowListed h₁ h' h.freeFragment home log2 (h.blockStart block)
      (h.fragmentsPerBlock log2 - 1)) (hbytes : ∀ i, h₁.arenaByte i = h.arenaByte i) :
    Turns h h' (replaced h.objectAt (h.blockStart block) (some (fragmentSize log2))) := by
  have hhome := c.freeFragment_eq u
  have hlists := u.lists.of_eq hhome
  have w' := c.reworked.wellFormed w c.settled hlists
  refine c.reworked.turns w c.settled hlists (blockOf_blockStart block) (fun s hs => c.objectAt_eq hs)
    fun s l l' _ hs' i _ hi' => ?_
  -- links were written, and these lie in no object
  rw [← hbytes]
  exact u.bytes (s + i) fun x k hx => w'.links_outside hs' (by omega) x k ((hhome x).trans hx)

/-- Its entry, its map and the mark of its first fragment make a block a cut one. -/
theorem of_marked {h₂ h₃ : Heap} {m : BusyMap} (r : Reworked h h₂ block)
    (run : h.runLength? block = some 1) (min_le : minFragmentLog2 ≤ log2)
    (lt_block : log2 < h.blockLog2)
    (entry : h₂.table.get? block = some (.fragmented log2 (h.fragmentsPerBlock log2 - 1)))
    (k : Marked { h₂ with busy := h₂.busy.insert block (Array.replicate
      (BusyMap.wordsFor (h.fragmentsPerBlock log2)) 0) } h₃ block 0 true
      (Array.replicate (BusyMap.wordsFor (h.fragmentsPerBlock log2)) 0) m) :
    FreshCut h h₃ block log2 := by
  have inserted : Reworked h₂ { h₂ with busy := h₂.busy.insert block (Array.replicate
      (BusyMap.wordsFor (h.fragmentsPerBlock log2)) 0) } block :=
    Reworked.of_busy _ fun y hy => by rw [OrderedMap.find?_insert, if_neg (Ne.symm hy)]
  refine ⟨(r.trans inserted).trans k.reworked, run, min_le, lt_block, ?_, m, k.after, ?_, ?_,
    fun i => ?_⟩
  · rw [k.eq]
    exact entry
  · rw [k.size_eq, Array.size_replicate]
  · have := k.count
    rwa [count_replicate, BusyMap.isBusy_replicate] at this
  · rw [k.bits, BusyMap.isBusy_replicate]
    by_cases h0 : i = 0 <;> simp [h0]

/-- Listing fragments leaves the entry and the map of the block. -/
theorem relisted {h₂ : Heap} (c : FreshCut h h' block log2) (rel : Relisted h' h₂) :
    FreshCut h h₂ block log2 := by
  refine { c with
    reworked := c.reworked.trans (Reworked.of_relisted rel block), entry := ?_, map := ?_ }
  · rw [rel.eq]
    exact c.entry
  · rw [rel.eq]
    exact c.map

/-- The fragments of the block are not on any list yet. -/
theorem unlisted (c : FreshCut h h' block log2) (w : h.WellFormed) {i : Nat}
    (hi : i < h.fragmentsPerBlock log2) :
    h'.HoldsLinks (nthFragment log2 (h.blockStart block) i) ∧
      h.freeFragment (nthFragment log2 (h.blockStart block) i) = none := by
  have hle := Nat.le_of_lt c.lt_block
  have hb : block < h.blockCount := by
    have := (w.run_bounds c.run).2
    omega
  exact ⟨c.reworked.holdsLinks (nthFragment_holdsLinks w c.min_le hle hb hi),
    c.freeFragment_before (blockOf_nthFragment hle hi)⟩

end FreshCut

/-- A map for the fragments of a block can be made. -/
theorem WellFormed.allFree?_eq (w : h.WellFormed) (log2 : Nat) :
    BusyMap.allFree? (h.fragmentsPerBlock log2) =
      some (Array.replicate (BusyMap.wordsFor (h.fragmentsPerBlock log2)) 0) := by
  have hmax := w.max_block
  have hle : h.fragmentsPerBlock log2 ≤ 1 <<< Geometry.maxBlockLog2 := one_shiftLeft_le (by omega)
  have : 1 <<< Geometry.maxBlockLog2 + BusyMap.wordBits < Size.limit := by decide
  exact BusyMap.allFree?_eq (by omega)

/-- A block that was claimed for one object holds another one instead. -/
theorem Claimed.then_replaced {h₁ : Heap} {length : Nat} (claimed : Claimed h h₁ block 1)
    (t : Turns h₁ h' (replaced h₁.objectAt (h₁.blockStart block) (some length))) :
    Turns h h' (replaced h.objectAt (h.blockStart block) (some length)) := by
  have hfresh := claimed.fresh
  have t₁ := claimed.2.2
  have hstart := blockStart_of_frame t₁.frame_eq block
  have hobjects : h₁.objectAt = replaced h.objectAt (h.blockStart block) (some (1 * h.blockSize)) :=
    funext t₁.objects_eq
  rw [hstart, hobjects, replaced_twice] at t
  refine t₁.trans t fun s l l'' hs hs'' => ⟨l, ?_, .inl (Nat.le_refl l)⟩
  rw [replaced_of_ne _ _ (by rintro rfl; rw [hfresh] at hs; cases hs), hs]

/-- A new block is cut: its first fragment is handed out and the others are listed. What else is
known of the claim is passed on. -/
theorem cutBlock_ends_of (hmin : minFragmentLog2 ≤ log2) (hlt : log2 < h.blockLog2)
    {Q : Nat → Heap → Prop} (claim : Ends h.frame.Roomy (claimBlocks 1) h
      (fun block h₁ => Claimed h h₁ block 1 ∧ Q block h₁) E) :
    Ends h.frame.Roomy (cutBlock log2) h (fun handle h' => ∃ block h₁, handle = h.blockStart block ∧
      Claimed h h₁ block 1 ∧ Q block h₁ ∧ SameExtent h₁ h' ∧
      Turns h h' (replaced h.objectAt handle (some (fragmentSize log2)))) E := by
  refine Ends.bind' (claim.mono ?_ fun _ _ hE => hE)
  rintro block h₁ ⟨claimed, hq⟩
  have hrun := claimed.2.1
  have t₁ := claimed.2.2
  have w₁ := t₁.wellFormed
  have hlog := blockLog2_of_frame t₁.frame_eq
  rw [← hlog] at hlt
  have hpos := fragmentsPerBlock_pos h₁ log2
  refine Ends.bind' (Ends.get' (Ends.bind' (Ends.orTrap' (w₁.fragmentsIn?_eq hlt) ?_)))
  refine Ends.bind' ((setEntry_ends w₁.laidOut (runLength?_eq_some.1 hrun) (.inl rfl) log2
    (h₁.fragmentsPerBlock log2 - 1)).mono ?_ fun _ _ hE => hE)
  rintro - h₂ ⟨r₂, heq, hg₂⟩
  refine Ends.bind' (Ends.orTrap' (w₁.allFree?_eq log2) (Ends.bind' (Ends.modify' ?_)))
  have hmap : (h₂.busy.insert block (Array.replicate
      (BusyMap.wordsFor (h₁.fragmentsPerBlock log2)) 0)).find? block =
      some (Array.replicate (BusyMap.wordsFor (h₁.fragmentsPerBlock log2)) 0) := by
    rw [OrderedMap.find?_insert, if_pos rfl]
  have hsize := BusyMap.le_wordsFor_mul (h₁.fragmentsPerBlock log2)
  refine Ends.bind' (Ends.discard' ((markFragment_ends 0 hmap
    (by rw [Array.size_replicate]; omega) true).mono ?_ fun _ _ hE => hE))
  rintro - h₄ ⟨-, m, k⟩
  have c₄ := FreshCut.of_marked r₂ hrun hmin hlt hg₂ k
  -- the lists are still those of the heap before the cut
  have l₄ : h₄.Lists h₁.freeFragment :=
    c₄.reworked.lists w₁.lists (by rw [k.eq, heq]) (by rw [k.eq, heq])
  refine Ends.bind' ((listFragments_ends l₄ (by rw [c₄.reworked.region.size_eq]; exact w₁.small)
    (by rw [c₄.reworked.heads, w₁.heads]; exact hlt)
    fun i _ _ => c₄.unlisted w₁ (by omega)).mono ?_ fun _ _ hE => hE)
  rintro - h₅ ⟨home, u⟩
  have c := c₄.relisted u.relisted
  have hstart : h₁.blockStart block = h.blockStart block := by
    simp only [blockStart, blockSize, hlog]
  have t := c.turns w₁ u fun i => by rw [k.eq, heq]; rfl
  exact Ends.pure' ⟨block, h₁, hstart, claimed, hq,
    ⟨c.reworked.region.size_eq, by rw [c.reworked.eq]⟩, hstart ▸ claimed.then_replaced t⟩

theorem cutBlock_ends (w : h.WellFormed) (hmin : minFragmentLog2 ≤ log2) (hlt : log2 < h.blockLog2) :
    Ends h.frame.Roomy (cutBlock log2) h (fun handle h' => h.objectAt handle = none ∧
      Turns h h' (replaced h.objectAt handle (some (fragmentSize log2)))) (Exhausted h) := by
  refine (cutBlock_ends_of hmin hlt (claimBlocks_ends w Nat.one_pos)).mono ?_ fun _ _ hE => hE
  rintro handle h' ⟨block, h₁, rfl, claimed, -, -, t⟩
  exact ⟨claimed.fresh, t⟩

/-- There is a list for each size of fragment. -/
theorem WellFormed.freeLists_eq (w : h.WellFormed) (hlt : log2 < h.blockLog2) :
    h.freeLists[log2]? = some (h.listHead log2) := by
  rw [listHead, Array.getElem?_eq_getElem (by rw [w.heads]; exact hlt)]
  rfl

/-! ## Taking a fragment back -/

/-- The fragment is the only object of its block. -/
structure OnlyLive (h : Heap) (log2 offset : Nat) : Prop where
  cut : h.cutLog2? (h.blockOf offset) = some log2
  le_block : log2 ≤ h.blockLog2
  notFree : h.freeFragment offset = none
  others : ∀ x, h.blockOf x = h.blockOf offset → x % fragmentSize log2 = 0 → x ≠ offset →
    h.isLiveFragment (h.blockOf offset) x log2 = false

/-- Where all fragments of a block but one are counted as free, a busy one is its only object. -/
theorem WellFormed.onlyLive (w : h.WellFormed) {offset nfree : Nat}
    (hg : h.table.get? (h.blockOf offset) = some (.fragmented log2 nfree))
    (hal : offset % fragmentSize log2 = 0)
    (hlive : h.isLiveFragment (h.blockOf offset) offset log2 = true)
    (hlast : h.fragmentsPerBlock log2 ≤ nfree + 1) : OnlyLive h log2 offset := by
  have hc : h.cutLog2? (h.blockOf offset) = some log2 := cutLog2?_eq_some.2 ⟨nfree, hg⟩
  have hok := w.cuts _ _ _ hg
  obtain ⟨m, hm, -, -, -⟩ := hok.busy_count
  have hlt := Nat.le_of_lt hok.lt_block
  have hnotfree : h.freeFragment offset = none := by
    rw [freeFragment_of_cut _ hc, hlive]
    simp
  refine ⟨hc, hlt, hnotfree, fun x hx hxal hne => ?_⟩
  rw [isLiveFragment_of_find? hm] at hlive ⊢
  exact hok.others_free hm hlast (indexInBlock_lt hlt offset) hlive (indexInBlock_lt hlt x)
    fun he => hne (indexInBlock_inj hlt hxal hal hx he)

/-- All other fragments of the block are free. -/
theorem OnlyLive.freeFragment_eq {offset i : Nat} (o : OnlyLive h log2 offset)
    (hi : i < h.fragmentsPerBlock log2)
    (hne : nthFragment log2 (h.blockStart (h.blockOf offset)) i ≠ offset) :
    h.freeFragment (nthFragment log2 (h.blockStart (h.blockOf offset)) i) = some log2 := by
  have hblock : h.blockOf (nthFragment log2 (h.blockStart (h.blockOf offset)) i) =
      h.blockOf offset := blockOf_nthFragment o.le_block hi
  have hmod : nthFragment log2 (h.blockStart (h.blockOf offset)) i % fragmentSize log2 = 0 :=
    nthFragment_mod o.le_block i
  rw [freeFragment_of_cut _ (by rw [hblock]; exact o.cut), hblock,
    if_pos ⟨hmod, o.others _ hblock hmod hne⟩]

/-- No fragment of the block is on a list any more, and all others are where they were. -/
theorem OnlyLive.home_eq {h₁ : Heap} {offset : Nat} {home : Nat → Option Nat}
    (o : OnlyLive h log2 offset) (u : RowUnlisted h h₁ h.freeFragment home log2 offset
      (h.blockStart (h.blockOf offset)) (h.fragmentsPerBlock log2)) (x : Nat) :
    home x = if h.blockOf x = h.blockOf offset then none else h.freeFragment x := by
  by_cases hx : h.blockOf x = h.blockOf offset
  · rw [if_pos hx]
    by_cases hxal : x % fragmentSize log2 = 0
    · have hi := indexInBlock_lt (h := h) o.le_block x
      have hxn := nthFragment_indexInBlock (h := h) o.le_block hxal
      rw [hx] at hxn
      by_cases hne : x = offset
      · rw [u.kept x (.inl hne), hne, o.notFree]
      · rw [← hxn, u.gone _ hi (by rw [hxn]; exact hne)]
    · rw [u.kept x, freeFragment_of_cut _ (by rw [hx]; exact o.cut), if_neg fun hf => hxal hf.1]
      refine .inr fun i _ hxi => hxal ?_
      rw [hxi]
      exact nthFragment_mod o.le_block i
  · rw [if_neg hx]
    refine u.kept x (.inr fun i hi hxi => hx ?_)
    rw [hxi]
    exact blockOf_nthFragment o.le_block hi

/-- A block is returned together with its last object. -/
theorem OnlyLive.turns {h₁ : Heap} {offset : Nat} {home : Nat → Option Nat} {table : BlockTable}
    (o : OnlyLive h log2 offset) (w : h.WellFormed)
    (u : RowUnlisted h h₁ h.freeFragment home log2 offset (h.blockStart (h.blockOf offset))
      (h.fragmentsPerBlock log2)) (hl : ∃ runs, table.LaidOut runs) (hsize : table.size = h₁.table.size)
    (hu : ∀ y, table.inUse? y = if y = h.blockOf offset then none else h₁.table.inUse? y) :
    Turns h { h₁ with busy := h₁.busy.erase (h.blockOf offset), table }
      (replaced h.objectAt offset none) := by
  have r₁ := Reworked.of_relisted u.relisted (h.blockOf offset)
  have r₂ : Reworked h₁ { h₁ with busy := h₁.busy.erase (h.blockOf offset) } (h.blockOf offset) :=
    Reworked.of_busy _ fun y hy => by rw [OrderedMap.find?_erase, if_neg (Ne.symm hy)]
  have r₃ := Reworked.of_table (h := { h₁ with busy := h₁.busy.erase (h.blockOf offset) })
    (h.blockOf offset) table hl hsize fun y hy => by rw [hu, if_neg hy]
  have r := (r₁.trans r₂).trans r₃
  have hnone : table.inUse? (h.blockOf offset) = none := by rw [hu, if_pos rfl]
  have hcut : ({ h₁ with busy := h₁.busy.erase (h.blockOf offset), table } : Heap).cutLog2?
      (h.blockOf offset) = none := by
    refine Option.eq_none_iff_forall_not_mem.2 fun k hk => ?_
    obtain ⟨n, hn⟩ := cutLog2?_eq_some.1 hk
    rw [inUse?_eq_some.2 ⟨hn, rfl⟩] at hnone
    cases hnone
  have hsettled : Reworked.Settled
      { h₁ with busy := h₁.busy.erase (h.blockOf offset), table } (h.blockOf offset) :=
    .inr ⟨hcut, by
      show (h₁.busy.erase (h.blockOf offset)).find? (h.blockOf offset) = none
      rw [OrderedMap.find?_erase, if_pos rfl]⟩
  refine r.turns w hsettled ?_ rfl (fun s hs => ?_) fun s l l' hs _ i hi _ => ?_
  · refine ((r₂.trans r₃).lists u.lists rfl rfl).of_eq fun x => ?_
    rw [o.home_eq u x]
    by_cases hx : h.blockOf x = h.blockOf offset
    · rw [if_pos hx, freeFragment, r.blockOf_eq, hx, hcut, Option.filter_none]
    · rw [if_neg hx, r.freeFragment_eq hx]
  · rw [objectAt_eq_none_of_inUse? (by rw [r.blockOf_eq, hs]; exact hnone)]
    by_cases hne : s = offset
    · rw [hne, replaced_self]
    · rw [replaced_of_ne _ _ hne, objectAt_of_cut _ (by rw [hs]; exact o.cut), hs, if_neg]
      rintro ⟨hsal, hlive⟩
      rw [o.others s hs hsal hne] at hlive
      cases hlive
  · exact u.bytes (s + i) (w.links_outside hs (by omega))

/-- A fragment of a block that has others in use is marked free and listed. -/
theorem returnFragment_ends (w : h.WellFormed) {offset nfree : Nat}
    (hg : h.table.get? (h.blockOf offset) = some (.fragmented log2 nfree))
    (hal : offset % fragmentSize log2 = 0)
    (hlive : h.isLiveFragment (h.blockOf offset) offset log2 = true)
    (hsome : nfree + 1 < h.fragmentsPerBlock log2) :
    Ends roomy (do
      discard (markFragment (h.blockOf offset) (h.indexInBlock offset log2) false)
      listFragment log2 offset
      setEntry (h.blockOf offset) (.fragmented log2 (nfree + 1))) h
      (fun _ h' => Turns h h' (replaced h.objectAt offset none)) E := by
  have hc : h.cutLog2? (h.blockOf offset) = some log2 := cutLog2?_eq_some.2 ⟨nfree, hg⟩
  have hok := w.cuts _ _ _ hg
  obtain ⟨m, hm, hle, -, -⟩ := hok.busy_count
  have hlt := Nat.le_of_lt hok.lt_block
  have hidx := indexInBlock_lt (h := h) hlt offset
  have hbit : m.isBusy (h.indexInBlock offset log2) = true := by
    rw [← isLiveFragment_of_find? hm]
    exact hlive
  have hnotfree : h.freeFragment offset = none := by
    rw [freeFragment_of_cut _ hc, hlive]
    simp
  refine Ends.bind' (Ends.discard' ((markFragment_ends _ hm (by omega) false).mono ?_
    fun _ _ hE => hE))
  rintro - h₁ ⟨-, m', k⟩
  have r₁ := k.reworked
  have l₁ : h₁.Lists h.freeFragment := r₁.lists w.lists (by rw [k.eq]) (by rw [k.eq])
  have hplace : h.HoldsLinks offset := by
    have := nthFragment_holdsLinks w hok.min_le hlt (BlockTable.lt_size_of_get? hg) hidx
    rwa [nthFragment_indexInBlock hlt hal] at this
  refine Ends.bind' ((listFragment_ends l₁ (by rw [r₁.region.size_eq]; exact w.small)
    (by rw [r₁.heads, w.heads]; exact hok.lt_block) (r₁.holdsLinks hplace) hnotfree).mono ?_
    fun _ _ hE => hE)
  rintro - h₂ ⟨rel, l₂, hkeep⟩
  have r₂ := r₁.trans (Reworked.of_relisted rel (h.blockOf offset))
  have hg₂ : h₂.table.get? (h.blockOf offset) = some (.fragmented log2 nfree) := by
    rw [rel.eq, k.eq]
    exact hg
  refine (setEntry_ends (r₂.laidOut w.laidOut) hg₂ (.inr ⟨_, _, rfl⟩) log2
    (nfree + 1)).mono ?_ fun _ _ hE => hE
  rintro - h₃ ⟨r₃, heq, hg₃⟩
  exact k.turns w hg hal hbit rel l₂ hkeep r₃ heq hg₃ hsome (by simp)

/-- The block of the last fragment in use is given back. -/
theorem OnlyLive.return_ends {offset nfree : Nat} (o : OnlyLive h log2 offset) (w : h.WellFormed)
    (hg : h.table.get? (h.blockOf offset) = some (.fragmented log2 nfree)) :
    Ends roomy (do
      unlistFragments log2 offset (h.blockStart (h.blockOf offset)) (h.fragmentsPerBlock log2)
      modify fun k => { k with busy := k.busy.erase (h.blockOf offset) }
      returnBlocks (h.blockOf offset) 1) h
      (fun _ h' => Turns h h' (replaced h.objectAt offset none)) E := by
  refine Ends.bind' ((unlistFragments_ends w.lists w.small fun _ hi hne =>
    o.freeFragment_eq hi hne).mono ?_ fun _ _ hE => hE)
  rintro - h₁ ⟨home, u⟩
  refine Ends.bind' (Ends.modify' ?_)
  have hg₁ : h₁.table.get? (h.blockOf offset) = some (.fragmented log2 nfree) := by
    rw [u.relisted.eq]
    exact hg
  have hlaid : ∃ runs, h₁.table.LaidOut runs := by
    rw [u.relisted.eq]
    exact w.laidOut
  obtain ⟨runs, hl⟩ := hlaid
  obtain ⟨l, run, r', rfl, hblock, hlen, hf⟩ := locate_single hl hg₁ (.inr ⟨_, _, rfl⟩)
  obtain ⟨table, he, hl', hsize, hu⟩ := hl.giveBack?_eq hf
  rw [hlen, ← hblock] at he hu
  refine Ends.onTable' (show _ = some ((), table) by rw [he]; rfl) ?_
  refine o.turns w u ⟨_, hl'⟩ hsize fun y => ?_
  rw [hu]
  exact ite_congr (propext ⟨fun _ => by omega, fun _ => by omega⟩) (fun _ => rfl) fun _ => rfl

/-- A fragment is taken back, alone or with its block, unless it is no object. -/
theorem freeSmall_ends (w : h.WellFormed) {offset nfree : Nat}
    (hg : h.table.get? (h.blockOf offset) = some (.fragmented log2 nfree)) :
    Ends roomy (freeSmall (h.blockOf offset) offset log2 nfree) h (fun _ h' =>
      h.objectAt offset ≠ none ∧ Turns h h' (replaced h.objectAt offset none))
      (fun e h' => Rejected h offset e h' ∧ h.objectAt offset = none) := by
  have hc : h.cutLog2? (h.blockOf offset) = some log2 := cutLog2?_eq_some.2 ⟨nfree, hg⟩
  have hrange := w.cut_lt hc
  refine Ends.bind' (Ends.get' (Ends.bind' (Ends.orTrap' (Size.shiftLeft?_one hrange) ?_)))
  refine Ends.bind' (Ends.orTrap' (isLiveFragment?_eq hrange _ _) ?_)
  refine Ends.ite' (fun hbad => Ends.refuse' ⟨⟨rfl, rfl⟩, ?_⟩) fun hnot => ?_
  · rw [objectAt_of_cut _ hc, if_neg]
    rintro ⟨hal, hlive⟩
    rw [hlive] at hbad
    exact hbad.elim (fun hne => hne hal) fun hf => Bool.noConfusion hf
  obtain ⟨hal, hlive⟩ := not_or.1 hnot
  have hal : offset % fragmentSize log2 = 0 := Decidable.of_not_not hal
  have hlive : h.isLiveFragment (h.blockOf offset) offset log2 = true := by simpa using hlive
  have hobj : h.objectAt offset ≠ none := by
    rw [objectAt_of_cut _ hc, if_pos ⟨hal, hlive⟩]
    exact Option.some_ne_none _
  refine Ends.bind' (Ends.orTrap' (w.fragmentsIn?_eq (w.cut_bounds hc).2.1) ?_)
  refine Ends.bind' (Ends.orTrap' (Size.add?_eq_some_iff.2 ⟨w.nfree_lt hg, rfl⟩) ?_)
  refine Ends.ite' (fun hsome => ?_) fun hlast => ?_
  · -- others of the block are busy, so the fragment goes on the list
    refine Ends.bind' (Ends.orTrap' (indexInBlock?_eq hrange offset) ?_)
    exact (returnFragment_ends w hg hal hlive hsome).mono (fun _ _ t => ⟨hobj, t⟩)
      fun _ _ hE => hE
  · -- all others of the block are free, so the block goes back
    have o := w.onlyLive hg hal hlive (Nat.le_of_not_lt hlast)
    exact (o.return_ends w hg).mono (fun _ _ t => ⟨hobj, t⟩) fun _ _ hE => hE

end RegionHeap.Heap
