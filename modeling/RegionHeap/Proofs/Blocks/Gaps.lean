import RegionHeap.Proofs.Blocks.Bins

/-!
Block tables in order, and block tables with a gap. `LaidOut` is the invariant of block tables: the
runs tile the table, no two free runs meet, and the bins list the free runs. While blocks change
hands the table has a `Gap`: some blocks in a row belong to no run and to no bin, all others are in
order. Every operation on tables opens a gap, widens or narrows it, and closes it again; the lemmas
here are those steps. What clients hold is read off `inUse?`, which no step changes outside the gap.
-/
namespace RegionHeap.BlockTable

/-- The entry of a block that is in use. -/
def inUse? (t : BlockTable) (block : Nat) : Option Entry := (t.get? block).filter fun e => !e.isFree

/-- The free runs that start outside some blocks. -/
def freeOutside (t : BlockTable) (start count block : Nat) : Option Nat :=
  if start ≤ block ∧ block < start + count then none else t.freeSize? block

/-- The runs tile the table. -/
structure Tiled (t : BlockTable) (runs : List Run) : Prop where
  spells : Spells t.bare? 0 runs
  size_eq : Run.total runs = t.size
  small : t.size < Size.limit

/-- The runs tile the table, free runs are apart from each other, and the bins list them. -/
structure LaidOut (t : BlockTable) (runs : List Run) : Prop extends Tiled t runs where
  apart : Run.Apart runs
  listed : t.Listed t.freeSize?

/-- All but `count` blocks are in order: those of the runs `l` before and of the runs `r` behind. -/
structure Gap (t : BlockTable) (l : List Run) (count : Nat) (r : List Run) : Prop where
  before : Spells t.bare? 0 l
  behind : Spells t.bare? (Run.total l + count) r
  size_eq : Run.total l + count + Run.total r = t.size
  listed : t.Listed (t.freeOutside (Run.total l) count)
  small : t.size < Size.limit

variable {t t' : BlockTable} {l r : List Run} {count : Nat}

/-- Tables with the same runs have the same entries but for the links. -/
theorem Tiled.bare?_of_runs {runs : List Run} (h : t.Tiled runs) (h' : t'.Tiled runs)
    (block : Nat) : t'.bare? block = t.bare? block := by
  have hsize := h.size_eq
  have hsize' := h'.size_eq
  by_cases hlt : block < Run.total runs
  · exact h.spells.eqOn h'.spells (Nat.zero_le block) (by omega)
  · rw [bare?_eq_none (by omega), bare?_eq_none (by omega)]

/-! ## Blocks in use -/

theorem inUse?_eq_some {block : Nat} {e : Entry} :
    t.inUse? block = some e ↔ t.get? block = some e ∧ e.isFree = false := by
  simp [inUse?, Option.filter_eq_some_iff]

theorem inUse?_eq_bare (t : BlockTable) (block : Nat) :
    t.inUse? block = (t.bare? block).filter fun e => !e.isFree := by
  rw [inUse?, bare?]
  cases h : t.get? block with
  | none => rfl
  | some e => cases e <;> rfl

theorem inUse?_congr {block : Nat} (h : t'.bare? block = t.bare? block) :
    t'.inUse? block = t.inUse? block := by
  rw [inUse?_eq_bare, inUse?_eq_bare, h]

theorem inUse?_of_bare? {block : Nat} {e : Entry} (h : t.bare? block = some e)
    (he : e.isFree = true) : t.inUse? block = none := by
  rw [inUse?_eq_bare, h]
  simp [Option.filter, he]

theorem Listed.of_eq {sizes sizes' : Nat → Option Nat} (hl : t.Listed sizes)
    (h : ∀ b, sizes' b = sizes b) : t.Listed sizes' := by
  rw [show sizes' = sizes from funext h]
  exact hl

/-! ## Runs and their free blocks -/

theorem freeSize?_of_spells {block : Nat} {run : Run} {rest : List Run} {i : Nat}
    (h : Spells t.bare? block (run :: rest)) (hi : i < run.length) :
    t.freeSize? (block + i) = (run.entry block i).freeSize? := by
  rw [freeSize?_eq_bind, h.2.1 i hi]
  rfl

/-- Only the first block of a free run records a size. -/
theorem freeSize?_entry (run : Run) (block i : Nat) :
    (run.entry block i).freeSize? = if run.isFree ∧ i = 0 then some run.length else none := by
  cases run with
  | free size =>
    simp only [Run.entry, Run.isFree, true_and, Run.length]
    split
    · rfl
    · split <;> rfl
  | busy length =>
    simp only [Run.entry]
    split <;> simp [Entry.freeSize?, Run.isFree]
  | cut log2 nfree => simp [Run.entry, Entry.freeSize?, Run.isFree]

theorem isFree_entry (run : Run) (block i : Nat) : (run.entry block i).isFree = run.isFree := by
  cases run with
  | free size =>
    simp only [Run.entry]
    split
    · rfl
    · split <;> rfl
  | busy length => simp only [Run.entry]; split <;> rfl
  | cut log2 nfree => rfl

/-! ## Busy runs in a layout -/

/-- The later blocks of a busy run hold their distance from the first. -/
theorem Tiled.bodies {runs : List Run} (h : t.Tiled runs) {block length : Nat}
    (hg : t.get? block = some (.run length)) :
    0 < length ∧ block + length ≤ t.size ∧
      ∀ i, 0 < i → i < length → t.get? (block + i) = some (.runBody i) := by
  have hsize := h.size_eq
  obtain ⟨l, r, rest, rfl, hx, hf⟩ := h.spells.locate_first (Nat.zero_le _)
    (by have := lt_size_of_get? hg; omega) (bare?_of_get? hg) rfl
  rw [Nat.zero_add] at hx
  subst hx
  have hrun := (Spells.append.1 h.spells).2
  rw [Nat.zero_add] at hrun
  rw [Run.total_append, Run.total_cons] at hsize
  cases r with
  | free size => cases hf
  | cut log2 nfree => cases hf
  | busy n =>
    cases hf
    rw [Run.length] at hsize
    refine ⟨hrun.1, by omega, fun i h0 hi => ?_⟩
    have := hrun.2.1 i hi
    simp only [Run.entry] at this
    rw [if_neg (by omega)] at this
    exact get?_of_bare? this rfl

/-- Behind its first block a free run has inner blocks, and a last one that leads back. -/
theorem Tiled.freeBlocks {runs : List Run} (h : t.Tiled runs) {block size : Nat}
    {next prev : Option Nat} (hg : t.get? block = some (.free size next prev)) :
    0 < size ∧ block + size ≤ t.size ∧
      (∀ i, 0 < i → i + 1 < size → t.get? (block + i) = some .freeBody) ∧
      (1 < size → t.get? (block + size - 1) = some (.freeTail block)) := by
  have hsize := h.size_eq
  obtain ⟨l, r, rest, rfl, hx, hf⟩ := h.spells.locate_first (Nat.zero_le _)
    (by have := lt_size_of_get? hg; omega) (bare?_of_get? hg) rfl
  rw [Nat.zero_add] at hx
  subst hx
  have hrun := (Spells.append.1 h.spells).2
  rw [Nat.zero_add] at hrun
  rw [Run.total_append, Run.total_cons] at hsize
  cases r with
  | busy n => cases hf
  | cut log2 nfree => cases hf
  | free n =>
    cases hf
    rw [Run.length] at hsize
    refine ⟨hrun.1, by omega, fun i h0 hi => ?_, fun h1 => ?_⟩
    · have := hrun.2.1 i (by rw [Run.length]; omega)
      simp only [Run.entry] at this
      rw [if_neg (by omega), if_neg (by omega)] at this
      exact get?_of_bare? this rfl
    · have := hrun.2.1 (size - 1) (by rw [Run.length]; omega)
      simp only [Run.entry] at this
      rw [if_neg (by omega), if_pos (by omega)] at this
      rw [show Run.total l + size - 1 = Run.total l + (size - 1) by omega]
      exact get?_of_bare? this rfl

/-- A later block of a busy run leads to the first. -/
theorem Tiled.head_of_body {runs : List Run} (h : t.Tiled runs) {block back : Nat}
    (hg : t.get? block = some (.runBody back)) :
    back ≤ block ∧ ∃ length, t.get? (block - back) = some (.run length) ∧ back < length := by
  have hb := bare?_of_get? hg
  obtain ⟨l, r, rest, i, rfl, hi, rfl, hf⟩ := h.spells.locate (Nat.zero_le block)
    (by have := h.size_eq; have := lt_size_of_get? hg; omega)
  rw [hb, Option.some.injEq] at hf
  have hrun := (Spells.append.1 h.spells).2
  rw [Nat.zero_add] at hrun
  cases r with
  | free size =>
    simp only [Run.entry] at hf
    split at hf
    · cases hf
    · split at hf <;> cases hf
  | cut log2 nfree => cases hf
  | busy n =>
    simp only [Run.entry] at hf
    split at hf
    · cases hf
    · cases hf
      have hhead := hrun.2.1 0 hrun.1
      refine ⟨by omega, n, ?_, hi⟩
      rw [show 0 + Run.total l + back - back = Run.total l + 0 by omega]
      exact get?_of_bare? hhead rfl

/-! ## Opening and closing -/

theorem LaidOut.gap_zero (h : t.LaidOut (l ++ r)) : t.Gap l 0 r where
  before := (Spells.append.1 h.spells).1
  behind := by simpa using (Spells.append.1 h.spells).2
  size_eq := by have := h.size_eq; rw [Run.total_append] at this; omega
  listed := h.listed.of_eq fun b => by rw [freeOutside, if_neg (by omega)]
  small := h.small

theorem Gap.laidOut (g : t.Gap l 0 r) (h : Run.Apart (l ++ r)) : t.LaidOut (l ++ r) where
  spells := Spells.append.2 ⟨g.before, by simpa using g.behind⟩
  size_eq := by have := g.size_eq; rw [Run.total_append]; omega
  apart := h
  listed := g.listed.of_eq fun b => by rw [freeOutside, if_neg (by omega)]
  small := g.small

/-- What happens to entries of the gap does not matter. -/
theorem Gap.congr (g : t.Gap l count r) (hb : t'.bins = t.bins) (hs : t'.size = t.size)
    (h : ∀ y, ¬(Run.total l ≤ y ∧ y < Run.total l + count) → t'.get? y = t.get? y) :
    t'.Gap l count r := by
  have bare (y : Nat) (hy : ¬(Run.total l ≤ y ∧ y < Run.total l + count)) :
      t'.bare? y = t.bare? y := by rw [bare?, bare?, h y hy]
  have outside (y : Nat) : t'.freeOutside (Run.total l) count y =
      t.freeOutside (Run.total l) count y := by
    unfold freeOutside
    split
    · rfl
    · exact freeSize?_congr (bare y ‹_›)
  refine ⟨g.before.congr fun i _ hi => bare i (by omega), g.behind.congr fun i hi _ => bare i (by omega),
    by rw [hs]; exact g.size_eq, ?_, by rw [hs]; exact g.small⟩
  refine (g.listed.congr hb fun b hne => h b fun hin => hne ?_).of_eq outside
  rw [freeOutside, if_pos hin]

/-- The last run before a gap falls into the gap if it is in use. -/
theorem Gap.absorb {run : Run} (g : t.Gap (l ++ [run]) count r) (hf : run.isFree = false) :
    t.Gap l (run.length + count) r := by
  obtain ⟨hl, hrun⟩ := Spells.append.1 g.before
  have htotal : Run.total (l ++ [run]) = Run.total l + run.length := by simp
  refine ⟨hl, ?_, ?_, g.listed.of_eq fun b => ?_, g.small⟩
  · have := g.behind
    rwa [htotal, Nat.add_assoc] at this
  · have := g.size_eq
    omega
  · unfold freeOutside
    by_cases hb : Run.total l ≤ b ∧ b < Run.total l + run.length
    · have := freeSize?_of_spells (i := b - Run.total l) hrun (by omega)
      rw [show 0 + Run.total l + (b - Run.total l) = b by omega, freeSize?_entry, hf] at this
      rw [if_pos (by omega), if_neg (by omega), this]
      simp
    · by_cases hb' : Run.total (l ++ [run]) ≤ b ∧ b < Run.total (l ++ [run]) + count
      · rw [if_pos (by omega), if_pos hb']
      · rw [if_neg (by omega), if_neg hb']

/-- The first blocks of a gap may be those of a run in use. -/
theorem Gap.yield (run : Run) (g : t.Gap l (run.length + count) r) (hf : run.isFree = false)
    (hrun : Spells t.bare? (Run.total l) [run]) : t.Gap (l ++ [run]) count r := by
  have htotal : Run.total (l ++ [run]) = Run.total l + run.length := by simp
  refine ⟨Spells.append.2 ⟨g.before, by rwa [Nat.zero_add]⟩, ?_, ?_, g.listed.of_eq fun b => ?_,
    g.small⟩
  · rw [htotal, Nat.add_assoc]
    exact g.behind
  · have := g.size_eq
    omega
  · unfold freeOutside
    by_cases hb : Run.total l ≤ b ∧ b < Run.total l + run.length
    · have := freeSize?_of_spells (i := b - Run.total l) hrun (by omega)
      rw [show Run.total l + (b - Run.total l) = b by omega, freeSize?_entry, hf] at this
      rw [if_neg (by omega), if_pos (by omega), this]
      simp
    · by_cases hb' : Run.total (l ++ [run]) ≤ b ∧ b < Run.total (l ++ [run]) + count
      · rw [if_pos hb', if_pos (by omega)]
      · rw [if_neg hb', if_neg (by omega)]

/-! ## Free runs next to a gap -/

/-- The free run before a gap, taken off its bin, falls into the gap. -/
theorem Gap.delist_before {size : Nat} (g : t.Gap (l ++ [.free size]) count r) :
    ∃ t', t.delist? (Run.total l) = some (size, t') ∧ t'.Gap l (size + count) r ∧
      Relinked t t' := by
  obtain ⟨hl, hrun⟩ := Spells.append.1 g.before
  rw [Nat.zero_add] at hrun
  have hpos : 0 < size := hrun.1
  have htotal : Run.total (l ++ [.free size]) = Run.total l + size := by simp [Run.length]
  have first (i : Nat) (hi : i < size) :
      t.freeSize? (Run.total l + i) = if i = 0 then some size else none := by
    have := freeSize?_of_spells (i := i) hrun hi
    rw [freeSize?_entry] at this
    simpa [Run.isFree, Run.length] using this
  have hs : t.freeOutside (Run.total (l ++ [.free size])) count (Run.total l) = some size := by
    rw [freeOutside, if_neg (by omega)]
    simpa using first 0 hpos
  obtain ⟨t', hd, hlisted, hr⟩ := delist?_eq g.listed hs
  refine ⟨t', hd, ⟨hl.congr fun i _ _ => hr.bare?_eq i, ?_, ?_, ?_, ?_⟩, hr⟩
  · have := g.behind.congr fun i _ _ => hr.bare?_eq i
    rwa [htotal, Nat.add_assoc] at this
  · have := g.size_eq
    have := hr.size_eq
    omega
  · refine hlisted.of_eq fun b => ?_
    by_cases hb : b = Run.total l
    · subst hb
      rw [replaced_self, freeOutside, if_pos (by omega)]
    · rw [replaced_of_ne _ _ hb]
      unfold freeOutside
      rw [freeSize?_congr (hr.bare?_eq b), htotal]
      by_cases hin : Run.total l ≤ b ∧ b < Run.total l + size
      · have := first (b - Run.total l) (by omega)
        rw [show Run.total l + (b - Run.total l) = b by omega, if_neg (by omega)] at this
        rw [if_pos (by omega), if_neg (by omega), this]
      · by_cases hin' : Run.total l + size ≤ b ∧ b < Run.total l + size + count
        · rw [if_pos (by omega), if_pos hin']
        · rw [if_neg (by omega), if_neg hin']
  · rw [hr.size_eq]; exact g.small

/-- The free run behind a gap, taken off its bin, falls into the gap. -/
theorem Gap.delist_behind {size : Nat} (g : t.Gap l count (.free size :: r)) :
    ∃ t', t.delist? (Run.total l + count) = some (size, t') ∧ t'.Gap l (count + size) r ∧
      Relinked t t' := by
  have hpos : 0 < size := g.behind.1
  have first (i : Nat) (hi : i < size) :
      t.freeSize? (Run.total l + count + i) = if i = 0 then some size else none := by
    have := freeSize?_of_spells (i := i) g.behind hi
    rw [freeSize?_entry] at this
    simpa [Run.isFree, Run.length] using this
  have hs : t.freeOutside (Run.total l) count (Run.total l + count) = some size := by
    rw [freeOutside, if_neg (by omega)]
    simpa using first 0 hpos
  obtain ⟨t', hd, hlisted, hr⟩ := delist?_eq g.listed hs
  refine ⟨t', hd, ⟨g.before.congr fun i _ _ => hr.bare?_eq i, ?_, ?_, ?_, ?_⟩, hr⟩
  · have := g.behind.2.2.congr fun i _ _ => hr.bare?_eq i
    rwa [Run.length, Nat.add_assoc] at this
  · have hsize := g.size_eq
    rw [Run.total_cons, Run.length] at hsize
    rw [hr.size_eq]
    omega
  · refine hlisted.of_eq fun b => ?_
    by_cases hb : b = Run.total l + count
    · subst hb
      rw [replaced_self, freeOutside, if_pos (by omega)]
    · rw [replaced_of_ne _ _ hb]
      unfold freeOutside
      rw [freeSize?_congr (hr.bare?_eq b)]
      by_cases hin : Run.total l + count ≤ b ∧ b < Run.total l + count + size
      · have := first (b - (Run.total l + count)) (by omega)
        rw [show Run.total l + count + (b - (Run.total l + count)) = b by omega,
          if_neg (by omega)] at this
        rw [if_pos (by omega), if_neg (by omega), this]
      · by_cases hin' : Run.total l ≤ b ∧ b < Run.total l + count
        · rw [if_pos (by omega), if_pos hin']
        · rw [if_neg (by omega), if_neg hin']
  · rw [hr.size_eq]; exact g.small

/-- The blocks of a gap from the `kept`-th on become a free run, if those between the first and the
last of them are cleared. -/
theorem Gap.enlist (g : t.Gap l count r) (kept : Nat) (hk : kept < count)
    (hclear : ∀ i, kept < i → i + 1 < count → t.bare? (Run.total l + i) = some .freeBody) :
    ∃ t', t.enlist? (Run.total l + kept) (count - kept) = some t' ∧
      t'.Gap l kept (.free (count - kept) :: r) ∧
      ∀ y, y < Run.total l + kept ∨ Run.total l + count ≤ y → t'.bare? y = t.bare? y := by
  have hsize := g.size_eq
  have hsmall := g.small
  have inGap (b : Nat) (h₁ : Run.total l ≤ b) (h₂ : b < Run.total l + count) :
      t.freeOutside (Run.total l) count b = none := by rw [freeOutside, if_pos ⟨h₁, h₂⟩]
  obtain ⟨t', he, hlisted, hs, hbare⟩ := enlist?_eq g.listed
    (show 0 < count - kept by omega) (by omega)
    (show Run.total l + kept + (count - kept) ≤ t.size by omega) (inGap _ (by omega) (by omega)) (inGap _ (by omega) (by omega))
  have outside (y : Nat) (hy : y < Run.total l + kept ∨ Run.total l + count ≤ y) :
      t'.bare? y = t.bare? y := by
    rw [hbare, if_neg (by omega), if_neg (by omega)]
  refine ⟨t', he, ⟨g.before.congr fun i _ hi => outside i (by omega), ⟨by simp [Run.length]; omega,
    fun i hi => ?_, ?_⟩, ?_, ?_, ?_⟩, outside⟩
  · rw [Run.length] at hi
    rw [hbare]
    simp only [Run.entry]
    by_cases h0 : i = 0
    · subst h0
      rw [if_pos (by omega), if_pos rfl]
    · rw [if_neg (by omega), if_neg h0]
      by_cases h1 : i + 1 = count - kept
      · rw [if_pos (by omega), if_pos h1]
      · rw [if_neg (by omega), if_neg h1]
        have := hclear (kept + i) (by omega) (by omega)
        rwa [← Nat.add_assoc] at this
  · rw [Run.length, show Run.total l + kept + (count - kept) = Run.total l + count by omega]
    exact g.behind.congr fun i hi _ => outside i (by omega)
  · rw [Run.total_cons, Run.length, hs]; omega
  · refine hlisted.of_eq fun b => ?_
    by_cases hb : b = Run.total l + kept
    · subst hb
      rw [replaced_self, freeOutside, if_neg (by omega), freeSize?_eq_bind, hbare, if_pos rfl]
      rfl
    · rw [replaced_of_ne _ _ hb]
      unfold freeOutside
      by_cases hin : Run.total l ≤ b ∧ b < Run.total l + kept
      · rw [if_pos hin, if_pos (by omega)]
      · rw [if_neg hin]
        by_cases hup : Run.total l + kept ≤ b ∧ b < Run.total l + count
        · rw [if_pos (by omega), freeSize?_eq_bind, hbare, if_neg hb]
          by_cases hlast : b = Run.total l + kept + (count - kept) - 1
          · rw [if_pos hlast]; rfl
          · have := hclear (b - Run.total l) (by omega) (by omega)
            rw [show Run.total l + (b - Run.total l) = b by omega] at this
            rw [if_neg hlast, this]; rfl
        · rw [if_neg (by omega), freeSize?_congr (outside b (by omega))]
  · rw [hs]; exact hsmall

/-! ## Filling a gap -/

/-- Writes to entries of a gap leave the others alone. -/
theorem Gap.set (g : t.Gap l count r) (block : Nat) (hlo : Run.total l ≤ block)
    (hhi : block < Run.total l + count) (e : Entry) :
    ∃ t', t.set? block e = some t' ∧ t'.Gap l count r ∧
      ∀ y, t'.bare? y = if y = block then some e.bare else t.bare? y := by
  have hsize := g.size_eq
  obtain ⟨t', ht, hb, hs, hget⟩ := set?_eq (t := t) e (show block < t.size by omega)
  refine ⟨t', ht, g.congr hb hs fun y hy => ?_, fun y => ?_⟩
  · rw [hget, if_neg (by omega)]
  · rw [bare?, hget]
    by_cases hy : y = block
    · rw [if_pos hy, if_pos hy]; rfl
    · rw [if_neg hy, if_neg hy]; rfl

/-- The blocks of a gap become a busy run. -/
theorem Gap.writeRun (g : t.Gap l count r) (hpos : 0 < count) :
    ∃ t', t.writeRun? (Run.total l) count = some t' ∧ t'.Gap (l ++ [.busy count]) 0 r ∧
      ∀ y, ¬(Run.total l ≤ y ∧ y < Run.total l + count) → t'.bare? y = t.bare? y := by
  have hsize := g.size_eq
  have hlt : Run.total l < t.entries.size := show Run.total l < t.size by omega
  have hle : Run.total l + count ≤ t.entries.size := show Run.total l + count ≤ t.size by omega
  let t' : BlockTable := { t with
    entries := overwrite (t.entries.setIfInBounds (Run.total l) (.run count)) (Run.total l + 1)
      (count - 1) fun i => .runBody (i + 1) }
  have hget (y : Nat) : t'.get? y =
      if Run.total l ≤ y ∧ y < Run.total l + count then
        some ((Run.busy count).entry (Run.total l) (y - Run.total l))
      else t.get? y := by
    show (overwrite _ _ _ _)[y]? = _
    rw [getElem?_overwrite, Array.size_setIfInBounds, Array.getElem?_setIfInBounds]
    simp only [Run.entry]
    by_cases h0 : y = Run.total l
    · subst h0
      rw [if_neg (by omega), if_pos rfl, if_pos hlt, if_pos (by omega), if_pos (by omega)]
    · by_cases hin : Run.total l ≤ y ∧ y < Run.total l + count
      · rw [if_pos (by omega), if_pos hin, if_neg (by omega)]
        congr 2
        omega
      · rw [if_neg (by omega), if_neg (Ne.symm h0), if_neg hin]
        rfl
  have gap : t'.Gap l ((Run.busy count).length + 0) r := g.congr rfl (by simp [t', size])
    fun y hy => by rw [hget, if_neg hy]
  refine ⟨t', if_pos ⟨hlt, hle⟩, gap.yield (.busy count) rfl (Spells.singleton hpos fun i hi => ?_),
    fun y hy => ?_⟩
  · rw [bare?, hget, if_pos (by simp only [Run.length] at hi; omega), Option.map_some,
      Nat.add_sub_cancel_left]
    simp only [Run.entry]
    split <;> rfl
  · rw [bare?, hget, if_neg hy]
    rfl

end RegionHeap.BlockTable
