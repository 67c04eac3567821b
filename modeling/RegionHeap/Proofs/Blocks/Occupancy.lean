import RegionHeap.Proofs.Blocks.Claiming
import RegionHeap.Proofs.Blocks.InUse
import RegionHeap.Proofs.Blocks.Rebuilding

/-!
What a table says, apart from how it says it: its length, and its busy runs by the block that each
starts at. The free runs need no mention, for they are the longest rows of blocks in no busy run
(`isGap_iff`); so tables that agree about the busy runs agree about the free ones.
-/
namespace RegionHeap

/-- The run in use that an entry starts. -/
def Entry.busyRun? : Entry → Option Run
  | .run length => some (.busy length)
  | .fragmented log2 nfree => some (.cut log2 nfree)
  | _ => none

@[simp] theorem Entry.busyRun?_bare (e : Entry) : e.bare.busyRun? = e.busyRun? := by
  cases e <;> rfl

/-- A row of blocks that are not occupied, among the first `limit` blocks, that no other such row
contains. -/
structure IsGap (occupied : Nat → Prop) (limit start count : Nat) : Prop where
  pos : 0 < count
  inside : start + count ≤ limit
  clear : ∀ block, start ≤ block → block < start + count → ¬occupied block
  before : 0 < start → occupied (start - 1)
  behind : start + count < limit → occupied (start + count)

/-- The length of a table, and its busy runs by the block that each starts at. -/
structure Occupancy where
  size : Nat
  busyRun? : Nat → Option Run

namespace Occupancy

/-- The length of the busy run that starts at a block. -/
def lengthAt? (o : Occupancy) (block : Nat) : Option Nat := (o.busyRun? block).map Run.length

/-- Whether a block lies in a busy run. -/
def Covers (o : Occupancy) (block : Nat) : Prop :=
  ∃ start length, o.lengthAt? start = some length ∧ start ≤ block ∧ block < start + length

/-- A row of blocks in no busy run that no other such row contains. -/
abbrev IsGap (o : Occupancy) (start count : Nat) : Prop :=
  RegionHeap.IsGap o.Covers o.size start count

/-- Just the last `count` blocks follow the last busy run. -/
structure EndsClear (o : Occupancy) (count : Nat) : Prop where
  le_size : count ≤ o.size
  clear : ∀ block, o.size - count ≤ block → block < o.size → ¬o.Covers block
  before : count < o.size → o.Covers (o.size - count - 1)

/-- Busy runs are inside the table and do not overlap. -/
structure Sound (o : Occupancy) : Prop where
  inside : ∀ block length, o.lengthAt? block = some length → 0 < length ∧ block + length ≤ o.size
  apart : ∀ block block' length, o.lengthAt? block = some length → (o.lengthAt? block').isSome →
    block < block' → block + length ≤ block'

/-- Lets a run start at a block, or none. -/
def put (o : Occupancy) (block : Nat) (run? : Option Run) : Occupancy :=
  ⟨o.size, replaced o.busyRun? block run?⟩

/-- The same busy runs in a table of another length. -/
def withSize (o : Occupancy) (size : Nat) : Occupancy := ⟨size, o.busyRun?⟩

variable {o o' : Occupancy}

theorem covers_congr (h : ∀ b, o'.lengthAt? b = o.lengthAt? b) (block : Nat) :
    o'.Covers block ↔ o.Covers block := by
  simp only [Covers, h]

theorem IsGap.congr (hs : o'.size = o.size) (h : ∀ b, o'.lengthAt? b = o.lengthAt? b)
    {start count : Nat} (g : o.IsGap start count) : o'.IsGap start count where
  pos := g.pos
  inside := by rw [hs]; exact g.inside
  clear b h₁ h₂ hc := g.clear b h₁ h₂ ((covers_congr h b).1 hc)
  before h₁ := (covers_congr h _).2 (g.before h₁)
  behind h₁ := (covers_congr h _).2 (g.behind (by rw [← hs]; exact h₁))

/-- Of two rows at the end neither can be the longer one. -/
theorem EndsClear.unique {count count' : Nat} (h : o.EndsClear count) (h' : o.EndsClear count') :
    count' = count := by
  have key {count count' : Nat} (h : o.EndsClear count) (h' : o.EndsClear count') :
      count' ≤ count := by
    refine Nat.le_of_not_lt fun hlt => ?_
    have hle := h'.le_size
    exact h'.clear _ (by omega) (by omega) (h.before (by omega))
  exact Nat.le_antisymm (key h h') (key h' h)

/-- One busy run becomes longer or shorter, and no other changes. -/
structure Resizes (o o' : Occupancy) (block length want : Nat) : Prop where
  sound : o.Sound
  sound' : o'.Sound
  before : o.lengthAt? block = some length
  after : o'.lengthAt? block = some want
  others : ∀ b, b ≠ block → o'.lengthAt? b = o.lengthAt? b

namespace Resizes

variable {block length want start count : Nat}

theorem symm (r : Resizes o o' block length want) : Resizes o' o block want length :=
  ⟨r.sound', r.sound, r.after, r.before, fun b hb => (r.others b hb).symm⟩

/-- What is behind another busy run is behind this one, too, however long it is. -/
theorem le_of_covers (r : Resizes o o' block length want) {b : Nat} (hb : block + length ≤ b)
    (hc : o.Covers b) : block + want ≤ b ∧ o'.Covers b := by
  obtain ⟨s, l, hs, hlo, hhi⟩ := hc
  have hlength := (r.sound.inside block length r.before).1
  have hne : s ≠ block := by
    rintro rfl
    rw [r.before, Option.some.injEq] at hs
    omega
  have hs' : o'.lengthAt? s = some l := (r.others s hne).trans hs
  have hlt : block < s := by
    refine Nat.lt_of_le_of_ne (Nat.le_of_not_lt fun hlt => ?_) (Ne.symm hne)
    have := r.sound.apart s block l hs (by rw [r.before]; rfl) hlt
    omega
  have := r.sound'.apart block s want r.after (by rw [hs']; rfl) hlt
  exact ⟨by omega, s, l, hs', hlo, hhi⟩

/-- The free blocks that are neither right behind the run nor at the end stay as they are. -/
theorem isGap (r : Resizes o o' block length want) (g : o.IsGap start count)
    (hbehind : start ≠ block + length) (hend : start + count ≠ o.size) : o'.IsGap start count := by
  have hlength := (r.sound.inside block length r.before).1
  obtain ⟨hwant, hinside⟩ := r.sound'.inside block want r.after
  have hin := g.inside
  have hfollowed : o.Covers (start + count) := g.behind (by omega)
  have covered (b : Nat) (hlo : block ≤ b) (hhi : b < block + length) : o.Covers b :=
    ⟨block, length, r.before, hlo, hhi⟩
  -- a busy run that covers a block in one of the two covers it in the other, unless it is this one
  have still {b : Nat} (hc : o.Covers b) (hb : b < block) : o'.Covers b := by
    obtain ⟨s, l, hs, hlo, hhi⟩ := hc
    exact ⟨s, l, (r.others s (by omega)).trans hs, hlo, hhi⟩
  have clear {b : Nat} (hlo : start ≤ b) (hhi : b < start + count)
      (hout : b < block ∨ block + want ≤ b) : ¬o'.Covers b := by
    intro hc
    obtain ⟨s, l, hs, hslo, hshi⟩ := hc
    have hne : s ≠ block := by
      rintro rfl
      rw [r.after, Option.some.injEq] at hs
      omega
    exact g.clear b hlo hhi ⟨s, l, (r.others s hne).symm.trans hs, hslo, hshi⟩
  rcases Nat.lt_or_ge block start with hlt | hge
  · -- the run ends before the gap, and another run lies between the two
    have hpast : block + length < start := by
      refine Nat.lt_of_le_of_ne (Nat.le_of_not_lt fun hin => ?_) (Ne.symm hbehind)
      exact g.clear start (Nat.le_refl _) (Nat.lt_add_of_pos_right g.pos) (covered start (by omega) hin)
    obtain ⟨hwithin, hbefore⟩ := r.le_of_covers (by omega) (g.before (by omega))
    obtain ⟨-, hafter⟩ := r.le_of_covers (by omega) hfollowed
    refine ⟨g.pos, ?_, fun b hlo hhi => clear hlo hhi (.inr (by omega)), fun _ => hbefore,
      fun _ => hafter⟩
    obtain ⟨s, l, hs, -, hhi⟩ := hafter
    have := (r.sound'.inside s l hs).2
    omega
  · have hpast : start + count ≤ block := by
      refine Nat.le_of_not_lt fun hin => ?_
      exact g.clear block hge hin (covered block (Nat.le_refl _) (by omega))
    refine ⟨g.pos, by omega, fun b hlo hhi => clear hlo hhi (.inl (by omega)),
      fun h0 => still (g.before h0) (by omega), fun _ => ?_⟩
    by_cases hb : start + count = block
    · exact ⟨block, want, r.after, by omega, by omega⟩
    · exact still hfollowed (by omega)

end Resizes

end Occupancy

namespace BlockTable

/-- The busy run that starts at a block. -/
def busyRun? (t : BlockTable) (block : Nat) : Option Run := (t.get? block).bind Entry.busyRun?

/-- What a table says about its blocks. -/
def occupancy (t : BlockTable) : Occupancy := ⟨t.size, t.busyRun?⟩

variable {t t' : BlockTable} {l r : List Run} {run : Run} {block : Nat}

@[simp] theorem size_occupancy (t : BlockTable) : t.occupancy.size = t.size := rfl
@[simp] theorem busyRun?_occupancy (t : BlockTable) : t.occupancy.busyRun? = t.busyRun? := rfl

theorem busyRun?_eq_bare (t : BlockTable) (block : Nat) :
    t.busyRun? block = (t.bare? block).bind Entry.busyRun? := by
  rw [busyRun?, bare?]
  cases t.get? block <;> simp

/-- Only blocks in use start busy runs. -/
theorem busyRun?_eq_inUse (t : BlockTable) (block : Nat) :
    t.busyRun? block = (t.inUse? block).bind Entry.busyRun? := by
  rw [busyRun?, inUse?]
  cases h : t.get? block with
  | none => rfl
  | some e => cases e <;> rfl

theorem busyRun?_congr (h : t'.inUse? block = t.inUse? block) :
    t'.busyRun? block = t.busyRun? block := by
  rw [busyRun?_eq_inUse, busyRun?_eq_inUse, h]

theorem busyRun?_of_clear (h : t.inUse? block = none) : t.busyRun? block = none := by
  rw [busyRun?_eq_inUse, h]
  rfl

theorem busyRun?_entry (run : Run) (block : Nat) {i : Nat} (hi : i < run.length) :
    (run.entry block i).busyRun? = if i = 0 ∧ run.isFree = false then some run else none := by
  cases run with
  | free size =>
    rw [if_neg fun h => Bool.noConfusion h.2]
    simp only [Run.entry]
    split
    · rfl
    · split <;> rfl
  | busy length =>
    simp only [Run.entry, Run.isFree, and_true]
    split <;> rfl
  | cut log2 nfree =>
    rw [Run.length] at hi
    rw [if_pos ⟨by omega, rfl⟩]
    rfl

/-- A busy run is recorded at its first block and at no other. -/
theorem Tiled.busyRun?_eq (h : t.Tiled (l ++ run :: r)) {i : Nat} (hi : i < run.length) :
    t.busyRun? (Run.total l + i) = if i = 0 ∧ run.isFree = false then some run else none := by
  have hrun := (Spells.append.1 h.spells).2
  rw [Nat.zero_add] at hrun
  rw [busyRun?_eq_bare, hrun.2.1 i hi, Option.bind_some, busyRun?_entry run _ hi]

/-- A block with a busy run is where a run of the layout starts. -/
theorem Tiled.locate_busyRun {runs : List Run} (h : t.Tiled runs)
    (hb : t.busyRun? block = some run) :
    ∃ l r, runs = l ++ run :: r ∧ block = Run.total l ∧ run.isFree = false := by
  obtain ⟨e, hg, -⟩ := Option.bind_eq_some_iff.1 hb
  obtain ⟨l, run', r, i, rfl, hi, rfl, -⟩ := h.spells.locate (Nat.zero_le block)
    (by rw [Nat.zero_add, h.size_eq]; exact lt_size_of_get? hg)
  rw [Nat.zero_add, h.busyRun?_eq hi] at hb
  split at hb
  · rename_i hfirst
    cases hb
    exact ⟨l, r, rfl, by omega, hfirst.2⟩
  · cases hb

theorem lengthAt?_eq_some {length : Nat} :
    t.occupancy.lengthAt? block = some length ↔
      ∃ run, t.busyRun? block = some run ∧ run.length = length :=
  Option.map_eq_some_iff

theorem Tiled.covers_iff {runs : List Run} (h : t.Tiled runs) :
    t.occupancy.Covers block ↔ t.inUse? block ≠ none := by
  constructor
  · rintro ⟨start, length, hs, hlo, hhi⟩
    obtain ⟨run, hb, rfl⟩ := lengthAt?_eq_some.1 hs
    obtain ⟨l, r, rfl, rfl, hf⟩ := h.locate_busyRun hb
    have hrun := (Spells.append.1 h.spells).2
    have he := hrun.2.1 (block - Run.total l) (by omega)
    rw [show 0 + Run.total l + (block - Run.total l) = block by omega] at he
    rw [inUse?_eq_bare, he, Option.filter_some, isFree_entry, hf]
    exact Option.some_ne_none _
  · intro hne
    obtain ⟨e, hu⟩ := Option.ne_none_iff_exists'.1 hne
    obtain ⟨hg, he⟩ := inUse?_eq_some.1 hu
    obtain ⟨l, run, r, i, rfl, hi, rfl, hb⟩ := h.spells.locate (Nat.zero_le block)
      (by rw [Nat.zero_add, h.size_eq]; exact lt_size_of_get? hg)
    rw [inUse?_eq_bare, hb, Option.filter_some, isFree_entry] at hu
    have hf : run.isFree = false := by
      cases hf : run.isFree with
      | false => rfl
      | true => rw [hf] at hu; cases hu
    have hfirst := h.busyRun?_eq (i := 0) (by omega)
    rw [if_pos ⟨rfl, hf⟩] at hfirst
    exact ⟨Run.total l, run.length, lengthAt?_eq_some.2 ⟨run, hfirst, rfl⟩, by omega, by omega⟩

theorem Tiled.sound {runs : List Run} (h : t.Tiled runs) : t.occupancy.Sound where
  inside block length hb := by
    obtain ⟨run, hrun, rfl⟩ := lengthAt?_eq_some.1 hb
    obtain ⟨l, r, rfl, rfl, -⟩ := h.locate_busyRun hrun
    have hsize := h.size_eq
    rw [Run.total_append, Run.total_cons] at hsize
    exact ⟨(Spells.append.1 h.spells).2.1, by rw [size_occupancy]; omega⟩
  apart block block' length hb hb' hlt := by
    obtain ⟨run, hrun, rfl⟩ := lengthAt?_eq_some.1 hb
    obtain ⟨l, r, rfl, rfl, -⟩ := h.locate_busyRun hrun
    refine Nat.le_of_not_lt fun hin => ?_
    have hnone := h.busyRun?_eq (i := block' - Run.total l) (by omega)
    rw [show Run.total l + (block' - Run.total l) = block' by omega, if_neg (by omega)] at hnone
    rw [Occupancy.lengthAt?, busyRun?_occupancy, hnone] at hb'
    cases hb'

/-! ## Free runs are gaps -/

/-- The last run of a layout, if it is not free, is in use to its last block. -/
theorem inUse?_before (h : Spells t.bare? 0 (l ++ [run])) (hf : run.isFree = false) :
    t.inUse? (Run.total (l ++ [run]) - 1) ≠ none := by
  obtain ⟨-, hrun⟩ := Spells.append.1 h
  have hpos := hrun.1
  have he := hrun.2.1 (run.length - 1) (by omega)
  rw [Run.total_append, Run.total_cons, Run.total_nil, inUse?_eq_bare,
    show Run.total l + (run.length + 0) - 1 = 0 + Run.total l + (run.length - 1) by omega, he,
    Option.filter_some, isFree_entry, hf]
  exact Option.some_ne_none _

theorem LaidOut.isGap_of_freeSize? {runs : List Run} (h : t.LaidOut runs) {start count : Nat}
    (hs : t.freeSize? start = some count) : t.occupancy.IsGap start count := by
  obtain ⟨l, r, rfl, rfl⟩ := h.locate_free hs
  have hsize := h.size_eq
  rw [Run.total_append, Run.total_cons, Run.length] at hsize
  obtain ⟨hl, hrun⟩ := Spells.append.1 h.spells
  rw [Nat.zero_add] at hrun
  obtain ⟨-, hr, hnot⟩ := Run.apart_append.1 h.apart
  refine ⟨hrun.1, by rw [size_occupancy]; omega, fun b hlo hhi hc => ?_, fun hpos => ?_,
    fun hlt => ?_⟩
  · have hnone : t.inUse? (Run.total l + (b - Run.total l)) = none :=
      inUse?_of_isFree hrun rfl (by rw [Run.length]; omega)
    rw [show Run.total l + (b - Run.total l) = b by omega] at hnone
    exact h.toTiled.covers_iff.1 hc hnone
  · -- the run before, which there is, is not free
    rw [h.toTiled.covers_iff]
    rcases List.eq_nil_or_concat l with rfl | ⟨l', last, rfl⟩
    · exact absurd hpos (Nat.lt_irrefl 0)
    · rw [List.concat_eq_append] at hl hnot ⊢
      refine inUse?_before hl ?_
      rw [Run.endsFree_append_singleton] at hnot
      simpa [Run.isFree] using hnot
  · -- and neither is the run behind
    rw [h.toTiled.covers_iff]
    cases r with
    | nil =>
      rw [size_occupancy] at hlt
      rw [Run.total_nil] at hsize
      omega
    | cons next r =>
      have hf : next.isFree = false := by simpa [Run.isFree] using (Run.apart_cons.1 hr).1
      have hfirst : t.inUse? (Run.total l + count) = _ := inUse?_first hrun.2.2
      rw [hfirst, hf]
      exact Option.some_ne_none _

/-- The free runs are the gaps between busy runs. -/
theorem LaidOut.isGap_iff {runs : List Run} (h : t.LaidOut runs) {start count : Nat} :
    t.occupancy.IsGap start count ↔ t.freeSize? start = some count := by
  refine ⟨fun g => ?_, h.isGap_of_freeSize?⟩
  have hin := g.inside
  rw [size_occupancy] at hin
  obtain ⟨head, size, hs, hlo, hhi⟩ := h.exists_freeRun g.pos hin fun b h₁ h₂ =>
    Decidable.byContradiction fun hne => g.clear b h₁ h₂ (h.toTiled.covers_iff.2 hne)
  have g' := h.isGap_of_freeSize? hs
  -- blocks next to the gap are in use, so the free run cannot reach beyond it
  have hhead : head = start := by
    refine Nat.le_antisymm hlo (Nat.le_of_not_lt fun hlt => ?_)
    exact g'.clear (start - 1) (by omega) (by omega) (g.before (by omega))
  have hend : start + count = head + size := by
    refine Nat.le_antisymm hhi (Nat.le_of_not_lt fun hlt => ?_)
    have := g'.inside
    exact g'.clear (start + count) (by omega) hlt (g.behind (by omega))
  rw [← hhead, hs, show size = count by omega]

theorem LaidOut.endsClear {runs : List Run} (h : t.LaidOut runs) :
    t.occupancy.EndsClear (Run.freeEnd runs) := by
  have hsum := h.usedBlocks_add
  have hlen : t.occupancy.size - Run.freeEnd runs = t.usedBlocks := by
    rw [size_occupancy]
    omega
  refine ⟨by rw [size_occupancy]; omega, fun b hlo _ hc => ?_, fun hlt => ?_⟩
  · rw [hlen] at hlo
    exact h.toTiled.covers_iff.1 hc (usedBlocks_le_iff.1 (Nat.le_refl _) b hlo)
  · rw [hlen, h.toTiled.covers_iff]
    intro hnone
    rw [size_occupancy] at hlt
    have hle : t.usedBlocks ≤ t.usedBlocks - 1 := usedBlocks_le_iff.2 fun b hb => by
      by_cases heq : b = t.usedBlocks - 1
      · rw [heq, hnone]
      · exact usedBlocks_le_iff.1 (Nat.le_refl _) b (by omega)
    omega

/-- The free runs that a walk meets are the gaps, in the order of addresses. -/
theorem LaidOut.freeRuns?_eq {runs : List Run} (h : t.LaidOut runs) :
    ∃ free, t.freeRuns? = some free ∧ KeysIncrease free ∧
      ∀ start count, (start, count) ∈ free ↔ t.occupancy.IsGap start count := by
  obtain ⟨free, hfree, hk, hmem⟩ := h.toTiled.freeRuns?_eq
  exact ⟨free, hfree, hk, fun start count => (hmem start count).trans h.isGap_iff.symm⟩

/-- Tables of one length with busy runs at the same places and of the same lengths have the same
free runs. -/
theorem LaidOut.freeRuns?_congr {runs runs' : List Run} (h : t.LaidOut runs)
    (h' : t'.LaidOut runs') (hs : t'.size = t.size)
    (hb : ∀ b, t'.occupancy.lengthAt? b = t.occupancy.lengthAt? b) :
    t'.freeRuns? = t.freeRuns? := by
  obtain ⟨free, hfree, hk, hmem⟩ := h.freeRuns?_eq
  obtain ⟨free', hfree', hk', hmem'⟩ := h'.freeRuns?_eq
  have same (p : Nat × Nat) : p ∈ free' ↔ p ∈ free := by
    rw [hmem, hmem']
    exact ⟨fun g => g.congr hs.symm fun b => (hb b).symm, fun g => g.congr hs hb⟩
  rw [hfree, hfree', eq_of_lookupPair hk' hk fun k => Option.ext fun s => ?_]
  rw [lookupPair_eq_some_iff hk, lookupPair_eq_some_iff hk', same]

end BlockTable

end RegionHeap
