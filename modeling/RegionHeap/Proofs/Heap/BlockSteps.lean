import RegionHeap.Proofs.Blocks.Claiming
import RegionHeap.Proofs.Blocks.InUse
import RegionHeap.Proofs.Heap.Turns

/-!
Steps that move whole blocks: growing and shrinking the arena, taking a run of blocks, giving one
back, and changing the length of one. Each keeps the heap well-formed and is described by what
becomes of the objects.
-/
namespace RegionHeap.Heap

open HeapM BlockTable

variable {h h' : Heap} {E : HeapError → Heap → Prop}

/-- The refusal of an operation that changes nothing when it is refused. -/
def Unchanged (h : Heap) : HeapError → Heap → Prop := fun _ h' => h' = h

/-- A refusal that names an offset and leaves all as it was. -/
def Rejected (h : Heap) (offset : Nat) : HeapError → Heap → Prop := fun e h' =>
  h' = h ∧ e = .invalidPointer offset

/-- A refusal for want of room that leaves all as it was. -/
def Exhausted (h : Heap) : HeapError → Heap → Prop := fun e h' => h' = h ∧ e = .outOfMemory

/-- A refusal of the region to take a smaller size that leaves all as it was. -/
def Held (h : Heap) : HeapError → Heap → Prop := fun e h' =>
  h' = h ∧ ∃ bytes err, bytes < h.region.size ∧ h.region.resize bytes = .error err ∧ e = .region err

/-- A refusal to hand back blocks that are in use. -/
def Occupied (h : Heap) (count : Nat) : HeapError → Heap → Prop := fun e h' =>
  h' = h ∧ ∃ available, h.table.freeAtEnd? = some available ∧ available < count ∧
    e = .shrinkBusy count available

/-! ## What the table's answers mean for the objects -/

/-- Tables with the same blocks in use have the same fragmented blocks. -/
theorem fragmented_iff_of_inUse? {t t' : BlockTable} {b : Nat} (hu : t'.inUse? b = t.inUse? b)
    (log2 nfree : Nat) :
    t'.get? b = some (.fragmented log2 nfree) ↔ t.get? b = some (.fragmented log2 nfree) := by
  have (t : BlockTable) : t.get? b = some (.fragmented log2 nfree) ↔
      t.inUse? b = some (.fragmented log2 nfree) := by
    rw [inUse?_eq_some]
    simp [Entry.isFree]
  rw [this, this, hu]

/-- A step that leaves the blocks in use as they are keeps every object. -/
theorem WellFormed.turns_same (w : h.WellFormed) (region : Region) (table : BlockTable)
    (floor : Nat)
    (hlaid : ∃ runs, table.LaidOut runs) (hu : ∀ y, table.inUse? y = h.table.inUse? y)
    (hsize : region.size = h.arenaStart + table.size * h.blockSize)
    (hsmall : region.size < Size.limit)
    (hbytes : ∀ i, i < h.region.size → i < region.size → region.byte i = h.region.byte i)
    (hcap : region.capacity = h.region.capacity) (href : region.refusals = h.region.refusals)
    (hfloor : floor ≤ table.size) (hmax : table.size ≤ h.maxBlocks) :
    Turns h { h with region, table, floor } h.objectAt := by
  have wf := w.reblock region table floor hlaid (fun b => fragmented_iff_of_inUse? (hu b)) hsize hsmall hbytes hfloor
    hmax
  have same (s : Nat) : ({ h with region, table, floor } : Heap).objectAt s = h.objectAt s :=
    objectAt_congr h { h with region, table, floor } rfl
      (cutLog2?_congr h { h with region, table, floor } (hu _))
      (runLength?_congr h { h with region, table, floor } (hu _)) rfl
  refine ⟨wf, ?_, rfl, rfl, fun i hi => ?_, same, fun s l l' hs hs' i hi hi' => ?_⟩
  · simp only [frame, hcap, href]
  · have hlt : i < h.region.size := by rw [w.size_eq]; omega
    exact hbytes i hlt (by rw [hsize]; omega)
  · have h₁ := w.object_in_region hs
    have h₂ := wf.object_in_region ((same s).trans hs)
    exact hbytes (h.arenaStart + (s + i)) (by omega) (by
      show _ < ({ h with region, table, floor } : Heap).region.size
      have : ({ h with region, table, floor } : Heap).arenaStart = h.arenaStart := rfl
      omega)

/-- From `block` up to `stop` the table holds nothing in use, or only the run of `n` blocks that
starts at `block`. -/
def OnlyRun (t : BlockTable) (block stop : Nat) (n : Option Nat) : Prop :=
  t.inUse? block = n.map .run ∧
    ∀ y, block < y → y < stop → ∀ e, t.inUse? y = some e → ∃ i, e = .runBody i

theorem OnlyRun.cutLog2?_eq {block stop : Nat} {n : Option Nat}
    (o : OnlyRun h.table block stop n) {y : Nat} (hlo : block ≤ y) (hhi : y = block ∨ y < stop) :
    h.cutLog2? y = none := by
  refine Option.eq_none_iff_forall_not_mem.2 fun log2 hc => ?_
  obtain ⟨nfree, hg⟩ := cutLog2?_eq_some.1 hc
  have hu := inUse?_eq_some.2 ⟨hg, rfl⟩
  by_cases hy : y = block
  · rw [hy, o.1] at hu
    cases n <;> cases hu
  · obtain ⟨i, hi⟩ := o.2 y (by omega) (by omega) _ hu
    cases hi

theorem OnlyRun.runLength?_eq {block stop : Nat} {n : Option Nat}
    (o : OnlyRun h.table block stop n) {y : Nat} (hlo : block ≤ y) (hhi : y = block ∨ y < stop) :
    h.runLength? y = if y = block then n else none := by
  by_cases hy : y = block
  · rw [if_pos hy, hy]
    have := o.1
    cases n with
    | none =>
      refine Option.eq_none_iff_forall_not_mem.2 fun m hm => ?_
      rw [inUse?_eq_some.2 ⟨runLength?_eq_some.1 hm, rfl⟩] at this
      cases this
    | some n => exact runLength?_eq_some.2 (inUse?_eq_some.1 this).1
  · rw [if_neg hy]
    refine Option.eq_none_iff_forall_not_mem.2 fun m hm => ?_
    obtain ⟨i, hi⟩ := o.2 y (by omega) (by omega) _
      (inUse?_eq_some.2 ⟨runLength?_eq_some.1 hm, rfl⟩)
    cases hi

/-- A step that changes a run in the table changes one object. -/
theorem WellFormed.turns_run (w : h.WellFormed) {table : BlockTable} {block stop : Nat}
    {m n : Option Nat} (hlaid : ∃ runs, table.LaidOut runs) (hsize : table.size = h.table.size)
    (hout : ∀ y, ¬(block ≤ y ∧ (y = block ∨ y < stop)) → table.inUse? y = h.table.inUse? y)
    (o : OnlyRun h.table block stop m) (o' : OnlyRun table block stop n) :
    Turns h { h with table }
      (replaced h.objectAt (h.blockStart block) (n.map (· * h.blockSize))) := by
  have cut (y : Nat) : ({ h with table } : Heap).cutLog2? y = h.cutLog2? y := by
    by_cases hin : block ≤ y ∧ (y = block ∨ y < stop)
    · rw [o.cutLog2?_eq hin.1 hin.2, OnlyRun.cutLog2?_eq (h := { h with table }) o' hin.1 hin.2]
    · exact cutLog2?_congr h { h with table } (hout y hin)
  have hcut (b log2 nfree : Nat) : table.get? b = some (.fragmented log2 nfree) ↔
      h.table.get? b = some (.fragmented log2 nfree) := by
    by_cases hin : block ≤ b ∧ (b = block ∨ b < stop)
    · constructor
      · intro hg
        have := cutLog2?_eq_some (h := { h with table }).2 ⟨nfree, hg⟩
        rw [OnlyRun.cutLog2?_eq (h := { h with table }) o' hin.1 hin.2] at this
        cases this
      · intro hg
        have := cutLog2?_eq_some.2 ⟨nfree, hg⟩
        rw [o.cutLog2?_eq hin.1 hin.2] at this
        cases this
    · exact fragmented_iff_of_inUse? (hout b hin) _ _
  have wf : ({ h with table } : Heap).WellFormed :=
    w.reblock h.region table h.floor hlaid hcut
      (by rw [hsize]; exact w.size_eq) w.small (fun _ _ _ => rfl) (by rw [hsize]; exact w.floor_le)
      (by rw [hsize]; exact w.count_le)
  refine ⟨wf, rfl, rfl, rfl, fun _ _ => rfl, objectAt_of_runLength? h { h with table } rfl rfl cut
    (fun y => ?_) (o.cutLog2?_eq (Nat.le_refl _) (.inl rfl)), fun _ _ _ _ _ _ _ _ => rfl⟩
  by_cases hin : block ≤ y ∧ (y = block ∨ y < stop)
  · rw [OnlyRun.runLength?_eq (h := { h with table }) o' hin.1 hin.2, o.runLength?_eq hin.1 hin.2]
    split <;> rfl
  · rw [if_neg (by omega)]
    exact runLength?_congr h { h with table } (hout y hin)

/-- The blocks of a busy run hold nothing else in use. -/
theorem onlyRun_of_run {runs : List Run} (hl : h.table.LaidOut runs) {block length : Nat}
    (hg : h.table.get? block = some (.run length)) :
    OnlyRun h.table block (block + length) (some length) := by
  refine ⟨inUse?_eq_some.2 ⟨hg, rfl⟩, fun y hlo hhi e he => ⟨y - block, ?_⟩⟩
  have := (hl.toTiled.bodies hg).2.2 (y - block) (by omega) (by omega)
  rw [show block + (y - block) = y by omega, (inUse?_eq_some.1 he).1] at this
  exact Option.some.inj this

/-- Where nothing is in use there is no run. -/
theorem onlyRun_none {t : BlockTable} {block stop : Nat}
    (hnone : ∀ y, block ≤ y → (y = block ∨ y < stop) → t.inUse? y = none) :
    OnlyRun t block stop none :=
  ⟨hnone block (Nat.le_refl _) (.inl rfl), fun y hlo hhi e he => by
    rw [hnone y (by omega) (.inr hhi)] at he
    cases he⟩

/-- The entries of a busy run hold just that run. -/
theorem onlyRun_of_entry {t t' : BlockTable} {block count : Nat} (hpos : 0 < count)
    (hu : ∀ y, t'.inUse? y = if block ≤ y ∧ y < block + count
      then some ((Run.busy count).entry block (y - block)) else t.inUse? y) :
    OnlyRun t' block (block + count) (some count) := by
  constructor
  · rw [hu, if_pos (by omega), Nat.sub_self]
    rfl
  · intro y hlo hhi e he
    rw [hu, if_pos (by omega)] at he
    simp only [Run.entry] at he
    rw [if_neg (by omega)] at he
    exact ⟨_, (Option.some.inj he).symm⟩

/-- The run that starts at a block stands between the runs before it and behind it. -/
theorem locate_run {runs : List Run} (hl : h.table.LaidOut runs) {block length : Nat}
    (hg : h.table.get? block = some (.run length)) :
    ∃ l r, runs = l ++ .busy length :: r ∧ block = Run.total l := by
  obtain ⟨l, run, r, rfl, hx, he⟩ := hl.spells.locate_first (Nat.zero_le _)
    (by have := hl.size_eq; have := BlockTable.lt_size_of_get? hg; omega) (bare?_of_get? hg) rfl
  rw [Nat.zero_add] at hx
  cases run with
  | busy n => cases he; exact ⟨l, r, rfl, hx⟩
  | free size => cases he
  | cut log2 nfree => cases he

/-! ## Growing -/

/-- What growing by `count` blocks does to the rest of the heap. -/
structure Grown (h h' : Heap) (count : Nat) : Prop where
  eq : h' = { h with region := h'.region, table := h'.table }
  bytes : ∀ i, i < h.region.size → h'.region.byte i = h.region.byte i
  inUse : ∀ block, h'.table.inUse? block = h.table.inUse? block
  joined : ∀ runs, h.table.LaidOut runs →
    if count = 0 then h' = h else h'.table.LaidOut (Run.join runs count [])

theorem grow_ends (w : h.WellFormed) (count : Nat) :
    Ends h.frame.Roomy (grow count) h (fun _ h' => Turns h h' h.objectAt ∧ Grown h h' count ∧
      (count ≠ 0 → ∃ bytes, h.region.resize bytes = .ok h'.region)) (Exhausted h) := by
  refine Ends.bind' (Ends.get' (Ends.ite' (fun h0 => Ends.pure' ?_) fun h0 => ?_))
  · exact ⟨Turns.refl w, ⟨rfl, fun _ _ => rfl, fun _ => rfl, fun _ _ => by rw [if_pos h0]⟩,
      fun hne => absurd h0 hne⟩
  refine Ends.ite' (fun _ => Ends.refuse' ⟨rfl, rfl⟩) fun hlim => ?_
  obtain ⟨hlim, hmax⟩ := not_or.1 hlim
  have hmax := Nat.le_of_not_lt hmax
  have hbs : 256 ≤ h.blockSize := one_shiftLeft_le w.min_block
  refine Ends.bind' (Ends.orTrap_of (fun bytes hbytes => ?_) fun hnone hroom => ?_)
  · obtain ⟨hsmall, rfl⟩ := Size.add?_eq_some_iff.1 hbytes
    cases hres : h.region.resize (h.arenaStart + (h.blockCount + count) * h.blockSize) with
    | error e => exact Ends.refuse' ⟨rfl, rfl⟩
    | ok region =>
      obtain ⟨hsize, hcap, href, -, hb⟩ := Region.resize_eq hres
      obtain ⟨runs, hl⟩ := w.laidOut
      have hfit : h.table.size + count ≤ maxEntries := by
        have := Nat.mul_le_mul_left (h.blockCount + count) hbs
        have hentries : Size.limit / 256 ≤ maxEntries := by decide
        have : h.blockCount + count < Size.limit / 256 + 1 := by
          simp only [Size.limit] at *
          omega
        simp only [blockCount] at *
        omega
      obtain ⟨table, he, hl', hu⟩ := append?_eq hl (by omega) hfit
      refine Ends.bind' (Ends.orTrap' he (Ends.set' ?_))
      have htotal : table.size = h.table.size + count := by
        rw [← hl'.size_eq, total_join, hl.size_eq]
        simp
      have hge : h.region.size ≤ region.size := by
        rw [hsize, w.size_eq, Nat.add_mul]
        omega
      refine ⟨?_, ⟨rfl, fun i hi => hb i (by omega) hi, hu, fun runs' hruns' => ?_⟩,
        fun _ => ⟨_, hres⟩⟩
      · refine w.turns_same region table h.floor ⟨_, hl'⟩ hu (by rw [hsize, htotal]; rfl)
          (by rw [hsize]; exact hsmall) (fun i hi _ => hb i (by omega) hi) hcap href ?_ ?_
        · have := w.floor_le
          rw [htotal]
          simp only [blockCount] at this
          omega
        · rw [htotal]
          exact hmax
      · rw [if_neg h0]
        obtain ⟨table', he', hl'', -⟩ := append?_eq hruns' (by omega) hfit
        rw [he, Option.some.injEq, Prod.mk.injEq] at he'
        rw [he'.2]
        exact hl''
  · have hle : h.arenaStart + (h.blockCount + count) * h.blockSize ≤
        h.arenaStart + h.maxBlocks * h.blockSize :=
      Nat.add_le_add_left (Nat.mul_le_mul_right _ hmax) _
    have hroom : h.arenaStart + h.maxBlocks * h.blockSize < Size.limit := hroom
    rw [Size.add?, if_pos (by omega)] at hnone
    cases hnone

/-- An arena that has grown ends with one free run: the free blocks that it ended with before and the
new ones. -/
theorem Grown.tail {runs : List Run} {count : Nat} (g : Grown h h' count) (hl : h.table.LaidOut runs)
    (hne : count ≠ 0) :
    h'.table.freeSize? (Run.total (Run.trimEnd runs)) = some (Run.freeEnd runs + count) ∧
      h'.blockCount = Run.total (Run.trimEnd runs) + (Run.freeEnd runs + count) := by
  have hjoined := g.joined runs hl
  rw [if_neg hne] at hjoined
  constructor
  · have hfirst := hjoined.spells.first_eq
    rw [Nat.zero_add, show Run.freeStart [] = 0 from rfl, Nat.add_zero] at hfirst
    exact freeSize?_eq_some.2 hfirst
  · have htotal := hjoined.size_eq
    rw [total_join, Run.total_nil, ← Run.total_trimEnd] at htotal
    rw [blockCount]
    omega

theorem Grown.blockCount_eq {count : Nat} (g : Grown h h' count) (w : h.WellFormed) :
    h'.blockCount = h.blockCount + count := by
  obtain ⟨runs, hl⟩ := w.laidOut
  by_cases h0 : count = 0
  · have hsame := g.joined runs hl
    rw [if_pos h0] at hsame
    rw [hsame, h0, Nat.add_zero]
  · have hsize := hl.size_eq
    rw [← Run.total_trimEnd] at hsize
    rw [(g.tail hl h0).2, blockCount]
    omega

/-! ## Shrinking -/

theorem freeEnd_le {runs : List Run} (hl : h.table.LaidOut runs) :
    Run.freeEnd runs ≤ h.blockCount := by
  have := Run.total_trimEnd runs
  have := hl.size_eq
  simp only [blockCount]
  omega

/-- What handing `count` blocks back does: they are gone from the end, and the floor is no higher
than what is left. -/
structure Shrunk (h h' : Heap) (count : Nat) : Prop where
  used_le : h.table.usedBlocks + count ≤ h.blockCount
  count_eq : h'.blockCount = h.blockCount - count
  floor_eq : h'.floor = min h.floor h'.blockCount

theorem shrink_ends (w : h.WellFormed) (count : Nat) {roomy : Prop} :
    Ends roomy (shrink count) h (fun _ h' => Turns h h' h.objectAt ∧ Shrunk h h' count)
      fun e h' => Held h e h' ∨ Occupied h count e h' := by
  obtain ⟨runs, hl⟩ := w.laidOut
  have hused : h.table.usedBlocks + Run.freeEnd runs = h.blockCount := hl.usedBlocks_add
  have hend := freeAtEnd?_eq hl
  refine Ends.bind' (Ends.get' (Ends.bind' (Ends.orTrap' hend ?_)))
  refine Ends.ite' (fun hlt => Ends.refuse' (.inr ⟨rfl, _, hend, hlt, rfl⟩)) fun hfit => ?_
  refine Ends.ite' (fun h0 => Ends.pure' ⟨Turns.refl w, ?_⟩) fun h0 => ?_
  · subst h0
    exact ⟨by omega, rfl, (Nat.min_eq_left w.floor_le).symm⟩
  have hle := freeEnd_le hl
  have hsize := w.size_eq
  have hsmall := w.small
  have hkept : (h.blockCount - count) * h.blockSize ≤ h.blockCount * h.blockSize :=
    Nat.mul_le_mul_right _ (Nat.sub_le _ _)
  have hadd : Size.add? h.arenaStart ((h.blockCount - count) * h.blockSize) =
      some (h.arenaStart + (h.blockCount - count) * h.blockSize) :=
    Size.add?_eq_some_iff.2 ⟨by omega, rfl⟩
  refine Ends.bind' (Ends.orTrap' (Size.sub?_eq_some_iff.2 ⟨by omega, rfl⟩) ?_)
  refine Ends.bind' (Ends.orTrap' hadd ?_)
  cases hres : h.region.resize (h.arenaStart + (h.blockCount - count) * h.blockSize) with
  | error e =>
    refine Ends.refuse' (.inl ⟨rfl, _, e, ?_, hres, rfl⟩)
    have := Nat.mul_lt_mul_of_pos_right (show h.blockCount - count < h.blockCount by omega)
      h.blockSize_pos
    omega
  | ok region =>
    obtain ⟨hs, hcap, href, -, hb⟩ := Region.resize_eq hres
    obtain ⟨table, he, hl', htotal, hu⟩ := cutTail?_eq hl (show 0 < count by omega)
      (show count ≤ Run.freeEnd runs by omega)
    refine Ends.bind' (Ends.orTrap' he (Ends.set' ?_))
    have htable : table.size = h.blockCount - count := by
      simp only [blockCount] at *
      omega
    refine ⟨?_, by omega, htable, congrArg (min h.floor) htable.symm⟩
    refine w.turns_same region table (min h.floor (h.blockCount - count)) ⟨_, hl'⟩ hu
      (by rw [hs, htable]) (by rw [hs]; omega)
      (fun i hi hi' => hb i (by omega) hi) hcap href ?_ ?_
    · rw [htable]
      exact Nat.min_le_right _ _
    · have := w.count_le
      omega

theorem returnTail_ends (w : h.WellFormed) {roomy : Prop} :
    Ends roomy returnTail h (fun _ h' => Turns h h' h.objectAt) E := by
  obtain ⟨runs, hl⟩ := w.laidOut
  refine Ends.bind' (Ends.get' (Ends.bind' (Ends.orTrap' (freeAtEnd?_eq hl) ?_)))
  refine Ends.ite' (fun _ => Ends.pure' (Turns.refl w)) fun _ => ?_
  refine Ends.discard' (Ends.granted' ((shrink_ends w _).mono (fun _ _ t => t.1) ?_))
  rintro e h' (⟨rfl, -⟩ | ⟨rfl, -⟩) <;> exact Turns.refl w

theorem trim_ends (w : h.WellFormed) {roomy : Prop} :
    Ends roomy trim h (fun count h' => Turns h h' h.objectAt ∧ Shrunk h h' count) (Held h) := by
  obtain ⟨runs, hl⟩ := w.laidOut
  have hend := freeAtEnd?_eq hl
  refine Ends.bind' (Ends.get' (Ends.bind' (Ends.orTrap' hend ?_)))
  refine Ends.bind' ((shrink_ends w _).mono (fun _ _ t => Ends.pure' t) ?_)
  rintro e h' (held | ⟨-, available, havailable, hlt, -⟩)
  · exact held
  · rw [hend, Option.some.injEq] at havailable
    omega

/-! ## Taking a run of blocks -/

/-- A run of `count` blocks has become one more object. -/
def Claimed (h h' : Heap) (block count : Nat) : Prop :=
  h.table.inUse? block = none ∧ h'.runLength? block = some count ∧
    Turns h h' (replaced h.objectAt (h.blockStart block) (some (count * h.blockSize)))

theorem objectAt_eq_none_of_inUse? {start : Nat}
    (hu : h.table.inUse? (h.blockOf start) = none) : h.objectAt start = none := by
  have not_of {e : Entry} (he : e.isFree = false) : h.table.get? (h.blockOf start) ≠ some e :=
    fun hg => by rw [inUse?_eq_some.2 ⟨hg, he⟩] at hu; cases hu
  refine Option.eq_none_iff_forall_not_mem.2 fun l hl => ?_
  rcases objectAt_eq_some.1 hl with ⟨log2, hc, -⟩ | ⟨n, hr, -⟩
  · obtain ⟨nfree, hg⟩ := cutLog2?_eq_some.1 hc
    exact not_of rfl hg
  · exact not_of rfl (runLength?_eq_some.1 hr)

theorem Claimed.fresh {block count : Nat} (c : Claimed h h' block count) :
    h.objectAt (h.blockStart block) = none := by
  refine objectAt_eq_none_of_inUse? ?_
  rw [blockOf_blockStart]
  exact c.1

/-- The arena has grown to `stop` blocks; only the region and the table show it. -/
structure GrownTo (h h' : Heap) (stop : Nat) : Prop where
  blockCount_eq : h'.blockCount = stop
  resized : ∃ bytes, h.region.resize bytes = .ok h'.region
  eq : h' = { h with region := h'.region, table := h'.table }

/-- A run of `count` blocks was taken from the lower end of a free run. -/
structure Fitted (h h' : Heap) (block count : Nat) : Prop where
  exists_free : ∃ size, h.table.freeSize? block = some size ∧ count ≤ size
  eq : h' = { h with table := h'.table }

/-- Where a run of `count` blocks comes from: from a free run that is long enough, or else from the
end of the arena, which grows by what is missing there. -/
inductive Placed (h h' : Heap) (block count : Nat) : Prop where
  | inside (fitted : Fitted h h' block count)
  | behind (short : ∀ b size, h.table.freeSize? b = some size → size < count)
    (block_eq : block = h.table.usedBlocks) (grown : GrownTo h h' (block + count))

/-- Taking blocks gives a new run, or shows that no free run is long enough. -/
theorem claimFree_ends (w : h.WellFormed) {count : Nat} (hpos : 0 < count) {roomy : Prop} :
    Ends roomy (claimFree count) h (fun block h' => match block with
      | some block => Claimed h h' block count ∧ Fitted h h' block count
      | none => h' = h ∧ ∀ b s, h.table.freeSize? b = some s → s < count) E := by
  obtain ⟨runs, hl⟩ := w.laidOut
  rcases claim?_eq hl hpos with ⟨he, hnone⟩ | ⟨l, size, r, table, rfl, hle, -, he, hl', hu⟩
  · exact Ends.onTable' he ⟨rfl, hnone⟩
  · refine Ends.onTable' he ?_
    have hsize : table.size = h.table.size := by
      have := Run.total_rest hle r
      have h₁ := hl.size_eq
      have h₂ := hl'.size_eq
      simp only [Run.total_append, Run.total_cons, Run.length] at h₁ h₂
      omega
    have hout (y : Nat) (hlo : Run.total l ≤ y) (hhi : y = Run.total l ∨ y < Run.total l + count) :
        h.table.inUse? y = none := by
      have hrun := (Spells.append.1 hl.spells).2
      rw [Nat.zero_add] at hrun
      have := hrun.2.1 (y - Run.total l) (by simp only [Run.length]; omega)
      rw [show Run.total l + (y - Run.total l) = y by omega] at this
      exact inUse?_of_bare? this (isFree_entry _ _ _)
    have o := onlyRun_of_entry hpos hu
    have hfree : h.table.freeSize? (Run.total l) = some size := by
      have := hl.spells.first_eq
      rw [Nat.zero_add] at this
      exact freeSize?_eq_some.2 this
    refine ⟨⟨hout _ (Nat.le_refl _) (.inl rfl), runLength?_eq_some.2 (inUse?_eq_some.1 o.1).1, ?_⟩,
      ⟨size, hfree, hle⟩, rfl⟩
    exact w.turns_run ⟨_, hl'⟩ hsize (fun y hy => by rw [hu, if_neg (by omega)])
      (onlyRun_none hout) o

/-- Only the end of a longer arena with the same blocks in use has room for what found none
before. -/
theorem WellFormed.block_eq_of_short {h₁ : Heap} {block count size : Nat} (w : h.WellFormed)
    (w₁ : h₁.WellFormed) (hu : ∀ b, h₁.table.inUse? b = h.table.inUse? b) (hpos : 0 < count)
    (short : ∀ b s, h.table.freeSize? b = some s → s < count)
    (hsize : h₁.blockCount = h.table.usedBlocks + count)
    (hfree : h₁.table.freeSize? block = some size) (hle : count ≤ size) :
    block = h.table.usedBlocks := by
  obtain ⟨runs, hl⟩ := w.laidOut
  obtain ⟨runs₁, hl₁⟩ := w₁.laidOut
  obtain ⟨next, prev, hg⟩ := exists_free_of_bare? (freeSize?_eq_some.1 hfree)
  have hfit : block + size ≤ h₁.blockCount := (hl₁.toTiled.freeBlocks hg).2.1
  obtain ⟨l, r, rfl, hblock⟩ := hl₁.locate_free hfree
  have hspells := (Spells.append.1 hl₁.spells).2
  rw [Nat.zero_add, ← hblock] at hspells
  have hnone (b : Nat) (hlo : block ≤ b) (hhi : b < block + count) : h.table.inUse? b = none := by
    have := inUse?_of_isFree hspells rfl (i := b - block) (show b - block < size by omega)
    rwa [show block + (b - block) = b by omega, hu] at this
  -- the old arena had no such row of free blocks
  have hbeyond : h.blockCount < block + count := by
    refine Nat.lt_of_not_le fun hin => ?_
    obtain ⟨head, s, hs, hlo, hhi⟩ := hl.exists_freeRun hpos hin hnone
    have := short head s hs
    omega
  have hused : h.table.usedBlocks ≤ block := usedBlocks_le_iff.2 fun b hb => by
    by_cases hlt : b < block + count
    · exact hnone b hb hlt
    · exact inUse?_of_size_le (show h.blockCount ≤ b by omega)
  omega

/-- Where no free run is long enough, the one at the end of the arena is not. -/
theorem freeEnd_lt {runs : List Run} {count : Nat} (hl : h.table.LaidOut runs) (hpos : 0 < count)
    (short : ∀ b s, h.table.freeSize? b = some s → s < count) : Run.freeEnd runs < count := by
  rcases Run.end_cases runs with ⟨l, size, rfl, -, hsize⟩ | ⟨-, -, hzero⟩
  · rw [hsize]
    refine short (Run.total l) size (freeSize?_eq_some.2 ?_)
    have := hl.spells.first_eq
    rwa [Nat.zero_add] at this
  · omega

/-- Blocks are taken from a free run or from a grown arena; a refusal leaves all as it was. -/
theorem claimBlocks_ends (w : h.WellFormed) {count : Nat} (hpos : 0 < count) :
    Ends h.frame.Roomy (claimBlocks count) h
      (fun block h' => Claimed h h' block count ∧ Placed h h' block count) (Exhausted h) := by
  refine Ends.bind' (Ends.get' (Ends.ite' (fun _ => Ends.refuse' ⟨rfl, rfl⟩) fun _ => ?_))
  refine Ends.bind' ((claimFree_ends w hpos).mono ?_ fun _ _ hE => hE)
  rintro (_ | block) h' hclaim
  · obtain ⟨rfl, hnone⟩ := hclaim
    obtain ⟨runs, hl⟩ := w.laidOut
    refine Ends.bind' (Ends.get' (Ends.bind' (Ends.orTrap' (freeAtEnd?_eq hl) ?_)))
    -- the free run at the end is too short, so something is missing
    have hshort := freeEnd_lt hl hpos hnone
    refine Ends.bind' (Ends.orTrap' (Size.sub?_eq_some_iff.2 ⟨by omega, rfl⟩) ?_)
    refine Ends.bind' ((grow_ends w _).mono ?_ fun _ _ hE => hE)
    rintro - h₁ ⟨t₁, g₁, hresized⟩
    obtain ⟨hfree₁, hcount₁⟩ := g₁.tail hl (by omega)
    rw [Nat.add_sub_cancel' (Nat.le_of_lt hshort)] at hfree₁ hcount₁
    refine Ends.bind' ((claimFree_ends t₁.wellFormed hpos).mono ?_ fun _ _ hE => hE)
    rintro (_ | block) h₂ hclaim
    · -- the grown arena has room
      obtain ⟨rfl, hnone'⟩ := hclaim
      exact absurd (hnone' _ _ hfree₁) (Nat.lt_irrefl _)
    · obtain ⟨⟨hu, hr, t₂⟩, ⟨size, hfree, hle⟩, heq⟩ := hclaim
      have hgrown : h₁.blockCount = h'.table.usedBlocks + count := by
        rw [hcount₁, hl.usedBlocks_eq]
      have hat := w.block_eq_of_short t₁.wellFormed g₁.inUse hpos hnone hgrown hfree hle
      have hcount := t₁.wellFormed.blockCount_eq t₂.wellFormed t₂.frame_eq (by rw [heq])
      have grown : GrownTo h' h₂ (block + count) := by
        refine ⟨by rw [hcount, hgrown, hat], ?_, by rw [heq, g₁.eq]⟩
        rw [heq]
        exact hresized (by omega)
      refine Ends.pure' ⟨⟨(g₁.inUse block).symm.trans hu, hr, ?_⟩, .behind hnone hat grown⟩
      refine t₁.after_same (t₂.of_eq fun s => ?_)
      rw [blockStart_of_frame t₁.frame_eq, blockSize_of_frame t₁.frame_eq,
        show h₁.objectAt = h'.objectAt from funext t₁.objects_eq]
  · exact Ends.pure' ⟨hclaim.1, .inside hclaim.2⟩

/-! ## Giving back and changing the length of a run -/

theorem returnBlocks_ends (w : h.WellFormed) {block length : Nat} {roomy : Prop}
    (hg : h.table.get? block = some (.run length)) :
    Ends roomy (returnBlocks block length) h
      (fun _ h' => Turns h h' (replaced h.objectAt (h.blockStart block) none)) E := by
  obtain ⟨runs, hl⟩ := w.laidOut
  have o := onlyRun_of_run hl hg
  obtain ⟨hpos, -, -⟩ := hl.toTiled.bodies hg
  obtain ⟨l, r, rfl, rfl⟩ := locate_run hl hg
  obtain ⟨table, he, hl', hsize, hu⟩ := hl.giveBack?_eq rfl
  rw [Run.length] at he hu
  refine Ends.onTable' (show _ = some ((), table) by rw [he]; rfl) ?_
  exact w.turns_run ⟨_, hl'⟩ hsize (fun y hy => by rw [hu, if_neg (by omega)]) o
    (onlyRun_none fun y hlo hhi => by rw [hu, if_pos (by omega)])

/-- Lengthening a run leaves all as it was, or makes one object longer. -/
theorem lengthenRun_ends (w : h.WellFormed) {block length want : Nat} {roomy : Prop}
    (hg : h.table.get? block = some (.run length)) (hlt : length < want) :
    Ends roomy (lengthenRun block length want) h
      (fun done h' => if done = true
        then Turns h h' (replaced h.objectAt (h.blockStart block) (some (want * h.blockSize))) ∧
          h' = { h with table := h'.table }
        else h' = h ∧ (h.table.freeSize? (block + length)).getD 0 < want - length) E := by
  obtain ⟨runs, hl⟩ := w.laidOut
  obtain ⟨hpos, -, -⟩ := hl.toTiled.bodies hg
  have o := onlyRun_of_run hl hg
  obtain ⟨l, r, rfl, rfl⟩ := locate_run hl hg
  have hbehind : (h.table.freeSize? (Run.total l + length)).getD 0 = Run.freeStart r := by
    have hcons : l ++ Run.busy length :: r = (l ++ [.busy length]) ++ r := by simp
    rw [hcons] at hl
    have := freeSize?_behind hl
    rwa [Run.total_append, Run.total_cons, Run.total_nil, Nat.add_zero, Run.length] at this
  have ends := lengthen?_eq hl rfl (Nat.le_of_lt hlt) (.inl hlt)
  rw [Run.length] at ends
  rcases ends with ⟨he, hshort⟩ | ⟨table, he, hle, hl', hu⟩
  · exact Ends.onTable' he ⟨rfl, by rw [hbehind]; exact hshort⟩
  refine Ends.onTable' he ?_
  rw [if_pos rfl]
  have hsize : table.size = h.table.size := by
    have := Run.total_rest hle (Run.trimStart r)
    have := Run.total_trimStart r
    have h₁ := hl.size_eq
    have h₂ := hl'.size_eq
    simp only [Run.total_append, Run.total_cons, Run.length] at h₁ h₂
    omega
  refine ⟨w.turns_run (m := some length) ⟨_, hl'⟩ hsize
    (fun y hy => by rw [hu, if_neg (by omega)]) ?_ (onlyRun_of_entry (by omega) hu), rfl⟩
  -- behind the run there were free blocks
  refine ⟨o.1, fun y hlo hhi e he => ?_⟩
  by_cases hy : y < Run.total l + length
  · exact o.2 y hlo hy e he
  · have hbehind := (Spells.append.1 hl.spells).2.2.2
    rw [Nat.zero_add] at hbehind
    rw [inUse?_of_freeStart y hbehind (by simp only [Run.length]; omega)
      (by simp only [Run.length]; omega)] at he
    cases he

/-- A run is cut short, and the rest of it is free. -/
theorem shorten_ends (w : h.WellFormed) {block length want : Nat} {roomy : Prop}
    (hg : h.table.get? block = some (.run length)) (hpos : 0 < want) (hlt : want < length) :
    Ends roomy (onTable fun t => (t.shorten? block length want).map ((), ·)) h
      (fun _ h' => Turns h h'
        (replaced h.objectAt (h.blockStart block) (some (want * h.blockSize)))) E := by
  obtain ⟨runs, hl⟩ := w.laidOut
  have o := onlyRun_of_run hl hg
  obtain ⟨l, r, rfl, rfl⟩ := locate_run hl hg
  obtain ⟨table, he, hl', hu⟩ := shorten?_eq hl hpos hlt
  refine Ends.onTable' (show _ = some ((), table) by rw [he]; rfl) ?_
  have hsize : table.size = h.table.size := by
    rw [← hl'.size_eq, total_join, ← hl.size_eq]
    simp [Run.length]
    omega
  exact w.turns_run (n := some want) ⟨_, hl'⟩ hsize
    (fun y hy => by rw [hu, if_neg (by omega), if_neg (by omega)]) o
    ⟨by rw [hu, if_pos rfl]; rfl, fun y hlo hhi e he => by
      rw [hu, if_neg (by omega)] at he
      split at he
      · cases he
      · exact o.2 y hlo hhi e he⟩

theorem shortenRun_ends (w : h.WellFormed) {block length want : Nat} {roomy : Prop}
    (hg : h.table.get? block = some (.run length)) (hpos : 0 < want) (hlt : want < length) :
    Ends roomy (shortenRun block length want) h
      (fun _ h' => Turns h h'
        (replaced h.objectAt (h.blockStart block) (some (want * h.blockSize)))) E :=
  Ends.bind' ((shorten_ends w hg hpos hlt).mono (fun _ _ t =>
    (returnTail_ends t.wellFormed).mono (fun _ _ t' => t.then_same t') fun _ _ hE => hE)
    fun _ _ hE => hE)

/-- What lies behind a run is looked up without leaving the range of sizes. -/
theorem WellFormed.exists_tailBehind? (w : h.WellFormed) (stop : Nat) :
    ∃ tail, h.tailBehind? stop = some tail := by
  obtain ⟨runs, hl⟩ := w.laidOut
  rw [tailBehind?]
  cases hg : h.table.get? stop with
  | none => exact ⟨_, rfl⟩
  | some e =>
    cases e with
    | free size next prev =>
      obtain ⟨-, hbound, -⟩ := hl.freeBlocks hg
      have := hl.small
      dsimp only
      rw [Size.add?_eq_some_iff.2 ⟨by omega, rfl⟩]
      exact ⟨_, rfl⟩
    | _ => exact ⟨_, rfl⟩

theorem tailBehind?_le {stop trailing : Nat} (ht : h.tailBehind? stop = some (some trailing)) :
    trailing ≤ (h.table.freeSize? stop).getD 0 := by
  rw [tailBehind?] at ht
  rw [BlockTable.freeSize?]
  cases hg : h.table.get? stop with
  | none => rw [hg] at ht; cases ht; exact Nat.zero_le _
  | some e =>
    rw [hg] at ht
    cases e with
    | free size next prev =>
      obtain ⟨last, -, ht⟩ := Option.map_eq_some_iff.1 ht
      obtain ⟨-, ht⟩ := Option.ite_none_right_eq_some.1 ht
      cases ht
      exact Nat.le_refl _
    | _ => cases ht

/-- Where only `trailing` free blocks lie behind a run, the arena ends with the run and those. -/
theorem freeEnd_of_tailBehind? {runs : List Run} (hl : h.table.LaidOut runs) {block length : Nat}
    (hg : h.table.get? block = some (.run length)) {trailing : Nat}
    (ht : h.tailBehind? (block + length) = some (some trailing)) :
    Run.total (Run.trimEnd runs) = block + length ∧ Run.freeEnd runs = trailing := by
  obtain ⟨l, r, rfl, rfl⟩ := locate_run hl hg
  have hcons : l ++ Run.busy length :: r = (l ++ [.busy length]) ++ r := by simp
  have htotal : Run.total (l ++ [Run.busy length]) = Run.total l + length := by simp [Run.length]
  rw [hcons] at hl ⊢
  rw [tailBehind?] at ht
  cases r with
  | nil =>
    have hsize := hl.size_eq
    rw [List.append_nil, htotal] at hsize
    rw [BlockTable.get?_eq_none (by omega)] at ht
    cases ht
    have hends : Run.endsFree (l ++ [Run.busy length]) = false := by
      rw [Run.endsFree_append_singleton]
      rfl
    rw [List.append_nil, Run.trimEnd, if_neg (by rw [hends]; decide), htotal]
    exact ⟨rfl, by simp [Run.freeEnd]⟩
  | cons run r =>
    have hfirst := hl.spells.first_eq
    rw [Nat.zero_add, htotal] at hfirst
    cases run with
    | busy n =>
      rw [get?_of_bare? hfirst rfl] at ht
      cases ht
    | cut log2 nfree =>
      rw [get?_of_bare? hfirst rfl] at ht
      cases ht
    | free size =>
      obtain ⟨next, prev, hfree⟩ := exists_free_of_bare? hfirst
      rw [hfree] at ht
      obtain ⟨last, hlast, ht⟩ := Option.map_eq_some_iff.1 ht
      obtain ⟨-, rfl⟩ := Size.add?_eq_some_iff.1 hlast
      obtain ⟨hend, ht⟩ := Option.ite_none_right_eq_some.1 ht
      cases ht
      -- no run fits behind the free one
      have hnil : r = [] := by
        have hsize := hl.size_eq
        rw [Run.total_append, Run.total_cons, htotal, Run.length] at hsize
        cases r with
        | nil => rfl
        | cons run r =>
          have hpos := hl.spells.length_pos (r := run) (by simp)
          rw [Run.total_cons] at hsize
          simp only [blockCount] at hend
          omega
      have hends : Run.endsFree (l ++ [Run.busy length] ++ [Run.free trailing]) = true := by
        rw [Run.endsFree_append_singleton]
        rfl
      rw [hnil, Run.trimEnd, if_pos hends, List.dropLast_concat, htotal]
      exact ⟨rfl, by simp [Run.freeEnd]⟩

/-- The last run of the arena is made longer by growing the arena, or nothing happens. Once the
arena has grown, the run is as long as it should be. -/
theorem growBehind_ends (w : h.WellFormed) {block length want : Nat}
    (hg : h.table.get? block = some (.run length)) (hlt : length < want)
    (hshort : (h.table.freeSize? (block + length)).getD 0 < want - length) :
    Ends h.frame.Roomy (growBehind block length want) h
      (fun done h' => if done = true
        then Turns h h' (replaced h.objectAt (h.blockStart block) (some (want * h.blockSize))) ∧
          GrownTo h h' (block + want)
        else h' = h) E := by
  obtain ⟨runs, hl⟩ := w.laidOut
  obtain ⟨tail, ht⟩ := w.exists_tailBehind? (block + length)
  have hstop : block + length < Size.limit := by
    have := (w.run_bounds (runLength?_eq_some.2 hg)).2
    have := hl.small
    rw [blockCount] at *
    omega
  refine Ends.bind' (Ends.get' (Ends.bind' (Ends.orTrap' (Size.add?_eq_some_iff.2 ⟨hstop, rfl⟩) ?_)))
  refine Ends.bind' (Ends.orTrap' ht ?_)
  cases tail with
  | none => exact Ends.pure' rfl
  | some trailing =>
    have hle := tailBehind?_le ht
    obtain ⟨htrim, hend⟩ := freeEnd_of_tailBehind? hl hg ht
    refine Ends.ite' (fun _ => Ends.pure' rfl) fun _ => ?_
    refine Ends.bind' (Ends.orTrap' (Size.sub?_eq_some_iff.2 ⟨by omega, rfl⟩) ?_)
    refine Ends.ite' (fun _ => Ends.pure' rfl) fun _ => ?_
    refine Ends.bind' (Ends.granted' ((grow_ends w _).mono ?_ ?_))
    · rintro - h₁ ⟨t₁, g₁, hresized⟩
      have hg₁ : h₁.table.get? block = some (.run length) :=
        (inUse?_eq_some.1 ((g₁.inUse block).trans (inUse?_eq_some.2 ⟨hg, rfl⟩))).1
      -- what was missing now lies behind the run
      obtain ⟨hfree, hcount₁⟩ := g₁.tail hl (by omega)
      rw [htrim, hend, show trailing + (want - (length + trailing)) = want - length by omega]
        at hfree hcount₁
      refine Ends.ite' (fun _ => ?_) fun hne => absurd rfl hne
      refine (lengthenRun_ends t₁.wellFormed hg₁ hlt).mono ?_ fun _ _ hE => hE
      rintro (_ | _) h₂ ht₂
      · rw [if_neg (by simp), hfree] at ht₂
        exact absurd ht₂.2 (Nat.lt_irrefl _)
      · rw [if_pos rfl] at ht₂ ⊢
        obtain ⟨t₂, heq⟩ := ht₂
        have hcount := t₁.wellFormed.blockCount_eq t₂.wellFormed t₂.frame_eq (by rw [heq])
        have grown : GrownTo h h₂ (block + want) := by
          refine ⟨by omega, ?_, by rw [heq, g₁.eq]⟩
          rw [heq]
          exact hresized (by omega)
        refine ⟨t₁.after_same (t₂.of_eq fun s => ?_), grown⟩
        rw [blockStart_of_frame t₁.frame_eq, blockSize_of_frame t₁.frame_eq,
          show h₁.objectAt = h.objectAt from funext t₁.objects_eq]
    · rintro e h₁ ⟨rfl, -⟩
      exact Ends.ite' (fun hne => absurd hne (by simp)) fun _ => Ends.pure' rfl

end RegionHeap.Heap
