import RegionHeap.Proofs.Blocks.Gaps

/-!
Giving blocks back. The blocks of a gap become free and are merged with the free runs on either
side (`giveBack?_eq`); a table is lengthened by free blocks, cut at its free end, and a busy run is
cut down. Each result is the whole layout that the operation leaves, and what it leaves in use.
-/
namespace RegionHeap

namespace Run

/-- Blocks of the free run that a layout ends with. -/
def freeEnd (l : List Run) : Nat :=
  match l.getLast? with
  | some (.free size) => size
  | _ => 0

/-- A layout without the free run that it ends with. -/
def trimEnd (l : List Run) : List Run := if endsFree l then l.dropLast else l

/-- Blocks of the free run that a layout starts with. -/
def freeStart : List Run → Nat
  | .free size :: _ => size
  | _ => 0

/-- A layout without the free run that it starts with. -/
def trimStart : List Run → List Run
  | .free _ :: r => r
  | r => r

/-- Two layouts with `count` free blocks between them, merged with the free runs at the seams. -/
def join (l : List Run) (count : Nat) (r : List Run) : List Run :=
  trimEnd l ++ .free (freeEnd l + count + freeStart r) :: trimStart r

/-- A layout ends with a free run, or no run needs to be merged. -/
theorem end_cases (l : List Run) :
    (∃ l' size, l = l' ++ [.free size] ∧ trimEnd l = l' ∧ freeEnd l = size) ∨
      endsFree l = false ∧ trimEnd l = l ∧ freeEnd l = 0 := by
  rcases List.eq_nil_or_concat l with rfl | ⟨l', run, rfl⟩
  · exact .inr ⟨rfl, rfl, rfl⟩
  · rw [List.concat_eq_append]
    cases run with
    | free size => exact .inl ⟨l', size, rfl, by simp [trimEnd, isFree], by simp [freeEnd]⟩
    | busy length => exact .inr (by simp [trimEnd, freeEnd, isFree])
    | cut log2 nfree => exact .inr (by simp [trimEnd, freeEnd, isFree])

theorem start_cases (r : List Run) :
    (∃ r' size, r = .free size :: r' ∧ trimStart r = r' ∧ freeStart r = size) ∨
      startsFree r = false ∧ trimStart r = r ∧ freeStart r = 0 := by
  cases r with
  | nil => exact .inr ⟨rfl, rfl, rfl⟩
  | cons run r =>
    cases run with
    | free size => exact .inl ⟨r, size, rfl, rfl, rfl⟩
    | busy length => exact .inr ⟨rfl, rfl, rfl⟩
    | cut log2 nfree => exact .inr ⟨rfl, rfl, rfl⟩

theorem total_trimEnd (l : List Run) : total (trimEnd l) + freeEnd l = total l := by
  rcases end_cases l with ⟨l', size, rfl, h₁, h₂⟩ | ⟨-, h₁, h₂⟩ <;> rw [h₁, h₂]
  · simp [length]
  · omega

theorem total_trimStart (r : List Run) : freeStart r + total (trimStart r) = total r := by
  rcases start_cases r with ⟨r', size, rfl, h₁, h₂⟩ | ⟨-, h₁, h₂⟩ <;> rw [h₁, h₂]
  · simp [length]
  · omega

/-- Merging leaves no two free runs side by side. -/
theorem Apart.join {l r : List Run} (hl : Apart l) (hr : Apart r) (count : Nat) :
    Apart (join l count r) := by
  have hl' : Apart (trimEnd l) ∧ endsFree (trimEnd l) = false := by
    rcases end_cases l with ⟨l', size, rfl, h₁, -⟩ | ⟨hf, h₁, -⟩ <;> rw [h₁]
    · obtain ⟨ha, -, hs⟩ := apart_append.1 hl
      simp only [startsFree_cons, isFree, and_true, Bool.not_eq_true] at hs
      exact ⟨ha, hs⟩
    · exact ⟨hl, hf⟩
  have hr' : Apart (trimStart r) ∧ startsFree (trimStart r) = false := by
    rcases start_cases r with ⟨r', size, rfl, h₁, -⟩ | ⟨hf, h₁, -⟩ <;> rw [h₁]
    · obtain ⟨hs, ha⟩ := apart_cons.1 hr
      simp only [isFree, true_and, Bool.not_eq_true] at hs
      exact ⟨ha, hs⟩
    · exact ⟨hr, hf⟩
  refine apart_append.2 ⟨hl'.1, apart_cons.2 ⟨?_, hr'.1⟩, ?_⟩
  · rw [hr'.2]; simp
  · rw [hl'.2]; simp

end Run

namespace BlockTable

variable {t t' : BlockTable} {l r : List Run} {count : Nat}

/-! ## The free run before a block -/

/-- The head of the free run that a block with this entry ends. -/
def headOf? (block : Nat) : Entry → Option Nat
  | .free size _ _ => if size = 1 then some block else none
  | .freeTail head => some head
  | _ => none

theorem headEndingAt?_eq (t : BlockTable) (block : Nat) :
    t.headEndingAt? block = (t.bare? block).bind (headOf? block) := by
  rw [headEndingAt?, bare?]
  cases t.get? block with
  | none => rfl
  | some e =>
    cases e with
    | free size next prev =>
      by_cases h : size = 1
      · subst h; rfl
      · simp [headOf?, h]
    | _ => rfl

/-- The last block of a layout leads to the head of a free run, if it ends one. -/
theorem headEndingAt?_of_spells (h : Spells t.bare? 0 l) :
    (if Run.total l = 0 then none else t.headEndingAt? (Run.total l - 1)) =
      if Run.endsFree l then some (Run.total (Run.trimEnd l)) else none := by
  rcases List.eq_nil_or_concat l with rfl | ⟨l', run, rfl⟩
  · rfl
  · rw [List.concat_eq_append] at h ⊢
    obtain ⟨-, hrun⟩ := Spells.append.1 h
    rw [Nat.zero_add] at hrun
    have hpos : 0 < run.length := hrun.1
    have hlast := hrun.2.1 (run.length - 1) (by omega)
    have htotal : Run.total (l' ++ [run]) = Run.total l' + run.length := by simp
    rw [if_neg (by omega), headEndingAt?_eq, htotal,
      show Run.total l' + run.length - 1 = Run.total l' + (run.length - 1) by omega, hlast,
      Run.endsFree_append_singleton, Option.bind_some]
    cases run with
    | free size =>
      rw [Run.length] at hpos
      rw [Run.trimEnd, Run.endsFree_append_singleton, Run.isFree, if_pos rfl, if_pos rfl,
        List.dropLast_concat, Run.length, Run.entry]
      by_cases h1 : size = 1
      · subst h1; rfl
      · rw [if_neg (by omega), if_pos (by omega)]; rfl
    | busy length =>
      have hf : Run.isFree (.busy length) ≠ true := Bool.false_ne_true
      rw [if_neg hf, Run.entry]
      split <;> rfl
    | cut log2 nfree => rfl

/-- The free run that a layout ends with is not in use. -/
theorem inUse?_of_freeEnd {block : Nat} (h : Spells t.bare? 0 l)
    (hlo : Run.total (Run.trimEnd l) ≤ block) (hhi : block < Run.total l) :
    t.inUse? block = none := by
  rcases Run.end_cases l with ⟨l', size, rfl, h₁, -⟩ | ⟨-, h₁, -⟩
  · rw [h₁] at hlo
    obtain ⟨-, hrun⟩ := Spells.append.1 h
    have := hrun.2.1 (block - Run.total l') (by simp [Run.length] at hhi ⊢; omega)
    rw [show 0 + Run.total l' + (block - Run.total l') = block by omega] at this
    exact inUse?_of_bare? this (isFree_entry _ _ _)
  · rw [h₁] at hlo
    omega

/-- Nothing is in use from the free run at the end of a table on. -/
theorem LaidOut.inUse?_behind {runs : List Run} (h : t.LaidOut runs) {block : Nat}
    (hlo : Run.total (Run.trimEnd runs) ≤ block) : t.inUse? block = none := by
  by_cases hlt : block < Run.total runs
  · exact inUse?_of_freeEnd h.spells hlo hlt
  · rw [h.size_eq] at hlt
    rw [inUse?, get?_eq_none (Nat.le_of_not_lt hlt)]
    rfl

theorem inUse?_of_freeStart (block : Nat) {start : Nat} (h : Spells t.bare? start r) (hlo : start ≤ block)
    (hhi : block < start + Run.freeStart r) : t.inUse? block = none := by
  rcases Run.start_cases r with ⟨r', size, rfl, -, h₁⟩ | ⟨-, -, h₁⟩
  · have := h.2.1 (block - start) (by simp only [Run.length]; omega)
    rw [show start + (block - start) = block by omega] at this
    exact inUse?_of_bare? this (isFree_entry _ _ _)
  · omega

/-! ## Merging -/

/-- The free run before a gap joins it. -/
theorem Gap.mergeBefore (g : t.Gap l count r) (hpos : 0 < count)
    (hclear : ∀ i, i < count → t.bare? (Run.total l + i) = some .freeBody) :
    ∃ t', t.mergeBefore? (Run.total l) count =
        some ((Run.total (Run.trimEnd l), Run.freeEnd l + count), t') ∧
      t'.Gap (Run.trimEnd l) (Run.freeEnd l + count) r ∧
      (∀ i, 0 < i → i < Run.freeEnd l + count →
        t'.bare? (Run.total (Run.trimEnd l) + i) = some .freeBody) ∧
      ∀ y, t'.inUse? y = t.inUse? y := by
  rw [mergeBefore?, headEndingAt?_of_spells g.before]
  rcases Run.end_cases l with ⟨l', size, rfl, h₁, h₂⟩ | ⟨hf, h₁, h₂⟩
  · rw [h₁, h₂, if_pos (by simp [Run.isFree])]
    obtain ⟨t₁, hd, g₁, hr⟩ := g.delist_before
    have htotal : Run.total (l' ++ [.free size]) = Run.total l' + size := by simp [Run.length]
    have hrun := (Spells.append.1 g.before).2
    rw [Nat.zero_add] at hrun
    have hsize : 0 < size := hrun.1
    obtain ⟨t₂, hset, g₂, hbare⟩ := g₁.set (Run.total l' + size - 1) (by omega) (by omega)
      .freeBody
    refine ⟨t₂, ?_, g₂, fun i h0 hi => ?_, fun y => ?_⟩
    · rw [htotal]
      simp only [hd, hset, Option.bind_eq_bind, Option.bind_some, Nat.add_comm count]
    · rw [hbare, hr.bare?_eq]
      by_cases hl : Run.total l' + i = Run.total l' + size - 1
      · rw [if_pos hl]; rfl
      · rw [if_neg hl]
        by_cases hin : i < size
        · have := hrun.2.1 i (by simpa [Run.length] using hin)
          rw [this]
          simp only [Run.entry]
          rw [if_neg (by omega), if_neg (by omega)]
        · have := hclear (i - size) (by omega)
          rwa [htotal, show Run.total l' + size + (i - size) = Run.total l' + i by omega] at this
    · by_cases hy : y = Run.total l' + size - 1
      · rw [inUse?_of_bare? (e := .freeBody) (by rw [hbare, if_pos hy]; rfl) rfl]
        have := hrun.2.1 (size - 1) (by simp only [Run.length]; omega)
        rw [show Run.total l' + (size - 1) = y by omega] at this
        rw [inUse?_of_bare? this (isFree_entry _ _ _)]
      · rw [inUse?_congr (t := t) (by rw [hbare, if_neg hy, hr.bare?_eq])]
  · rw [h₁, h₂, if_neg (by simp [hf])]
    exact ⟨t, by simp, by simpa using g, fun i _ hi => hclear i (by omega), fun _ => rfl⟩

/-- The free run behind a gap joins it. -/
theorem Gap.mergeAfter (g : t.Gap l count r) (hpos : 0 < count)
    (hclear : ∀ i, 0 < i → i < count → t.bare? (Run.total l + i) = some .freeBody) :
    ∃ t', t.mergeAfter? (Run.total l + count) count = some (count + Run.freeStart r, t') ∧
      t'.Gap l (count + Run.freeStart r) (Run.trimStart r) ∧
      (∀ i, 0 < i → i + 1 < count + Run.freeStart r →
        t'.bare? (Run.total l + i) = some .freeBody) ∧
      ∀ y, t'.inUse? y = t.inUse? y := by
  have hstart : (t.get? (Run.total l + count)).any Entry.isFreeHead = Run.startsFree r := by
    have hany : (t.get? (Run.total l + count)).any Entry.isFreeHead =
        (t.bare? (Run.total l + count)).any Entry.isFreeHead := by
      rw [bare?]
      cases t.get? (Run.total l + count) <;> simp
    rw [hany]
    cases r with
    | nil =>
      have := g.size_eq
      rw [bare?_eq_none (by simp at this; omega)]
      rfl
    | cons run r =>
      have := g.behind.2.1 0 g.behind.1
      rw [Nat.add_zero, Run.entry_zero] at this
      rw [this]
      cases run <;> rfl
  rw [mergeAfter?, hstart]
  rcases Run.start_cases r with ⟨r', size, rfl, h₁, h₂⟩ | ⟨hf, h₁, h₂⟩
  · rw [h₁, h₂, if_pos (by simp [Run.isFree])]
    obtain ⟨t₁, hd, g₁, hr⟩ := g.delist_behind
    have hrun := g.behind
    have hsize : 0 < size := hrun.1
    obtain ⟨t₂, hset, g₂, hbare⟩ := g₁.set (Run.total l + count) (by omega) (by omega)
      .freeBody
    refine ⟨t₂, ?_, g₂, fun i h0 hi => ?_, fun y => ?_⟩
    · simp only [hd, hset, Option.bind_eq_bind, Option.bind_some]
    · rw [hbare, hr.bare?_eq]
      by_cases hl : i = count
      · rw [if_pos (by omega)]; rfl
      · rw [if_neg (by omega)]
        by_cases hin : i < count
        · exact hclear i h0 hin
        · have := hrun.2.1 (i - count) (by simp only [Run.length]; omega)
          rw [show Run.total l + count + (i - count) = Run.total l + i by omega] at this
          rw [this]
          simp only [Run.entry]
          rw [if_neg (by omega), if_neg (by omega)]
    · by_cases hy : y = Run.total l + count
      · rw [inUse?_of_bare? (e := .freeBody) (by rw [hbare, if_pos hy]; rfl) rfl]
        have := hrun.2.1 0 hsize
        rw [show Run.total l + count + 0 = y by omega] at this
        rw [inUse?_of_bare? this (isFree_entry _ _ _)]
      · rw [inUse?_congr (t := t) (by rw [hbare, if_neg hy, hr.bare?_eq])]
  · rw [h₁, h₂, if_neg (by simp [hf])]
    exact ⟨t, rfl, by simpa using g, fun i h0 hi => hclear i h0 (by omega), fun _ => rfl⟩

/-! ## Giving back -/

/-- The blocks of a gap become free. Nothing but what lay in the gap goes out of use. -/
theorem giveBack?_eq (g : t.Gap l count r) (hpos : 0 < count) (hl : Run.Apart l)
    (hr : Run.Apart r) :
    ∃ t', t.giveBack? (Run.total l) count = some ((Run.total (Run.trimEnd l),
        Run.freeEnd l + count + Run.freeStart r), t') ∧
      t'.LaidOut (Run.join l count r) ∧
      ∀ y, t'.inUse? y =
        if Run.total l ≤ y ∧ y < Run.total l + count then none else t.inUse? y := by
  have hsize := g.size_eq
  let t₁ : BlockTable := { t with entries := overwrite t.entries (Run.total l) count fun _ => .freeBody }
  have hget (y : Nat) : t₁.get? y =
      if Run.total l ≤ y ∧ y < Run.total l + count then some .freeBody else t.get? y := by
    show (overwrite _ _ _ _)[y]? = _
    rw [getElem?_overwrite]
    by_cases hin : Run.total l ≤ y ∧ y < Run.total l + count
    · rw [if_pos ⟨hin.1, hin.2, show y < t.size by omega⟩, if_pos hin]
    · rw [if_neg fun h => hin ⟨h.1, h.2.1⟩, if_neg hin]
      rfl
  have g₁ : t₁.Gap l count r := g.congr rfl (size_overwrite _ _ _ _) fun y hy => by
    rw [hget, if_neg hy]
  obtain ⟨t₂, e₂, g₂, clear₂, use₂⟩ := g₁.mergeBefore hpos fun i hi => by
    rw [bare?, hget, if_pos (by omega)]; rfl
  have hstop : Run.total (Run.trimEnd l) + (Run.freeEnd l + count) = Run.total l + count := by
    have := Run.total_trimEnd l
    omega
  obtain ⟨t₃, e₃, g₃, clear₃, use₃⟩ := g₂.mergeAfter (by omega) clear₂
  rw [hstop] at e₃
  obtain ⟨t₄, e₄, g₄, bare₄⟩ := g₃.enlist 0 (by omega) clear₃
  have fin := g₄.laidOut (hl.join hr count)
  refine ⟨t₄, ?_, fin, fun y => ?_⟩
  · rw [giveBack?, if_neg (by omega)]
    simp only [t₁] at e₂
    simp only [e₂, Option.bind_eq_bind, Option.bind_some, e₃]
    rw [Nat.add_zero, Nat.sub_zero] at e₄
    rw [e₄]
    rfl
  · have kept (hin : ¬(Run.total l ≤ y ∧ y < Run.total l + count)) : t₃.inUse? y = t.inUse? y := by
      rw [use₃, use₂, inUse?, hget, if_neg hin]
      rfl
    by_cases hc : Run.total (Run.trimEnd l) ≤ y ∧
        y < Run.total (Run.trimEnd l) + (Run.freeEnd l + count + Run.freeStart r)
    · -- the free run that is left covers the gap and what was free around it
      have := g₄.behind.2.1 (y - Run.total (Run.trimEnd l)) (by simp only [Run.length]; omega)
      rw [show Run.total (Run.trimEnd l) + 0 + (y - Run.total (Run.trimEnd l)) = y by omega] at this
      rw [inUse?_of_bare? this (isFree_entry _ _ _)]
      by_cases hin : Run.total l ≤ y ∧ y < Run.total l + count
      · rw [if_pos hin]
      · rw [if_neg hin]
        by_cases hy : y < Run.total l
        · exact (inUse?_of_freeEnd g.before hc.1 hy).symm
        · exact (inUse?_of_freeStart y g.behind (by omega) (by omega)).symm
    · rw [if_neg (by omega), inUse?_congr (bare₄ y (by omega)), kept (by omega)]

/-! ## Growing and cutting the table -/

theorem total_join (l r : List Run) (count : Nat) :
    Run.total (Run.join l count r) = Run.total l + count + Run.total r := by
  have := Run.total_trimEnd l
  have := Run.total_trimStart r
  rw [Run.join, Run.total_append, Run.total_cons, Run.length]
  omega

/-- A run in use is given back. -/
theorem LaidOut.giveBack?_eq {run : Run} (h : t.LaidOut (l ++ run :: r)) (hf : run.isFree = false) :
    ∃ t', t.giveBack? (Run.total l) run.length = some ((Run.total (Run.trimEnd l),
        Run.freeEnd l + run.length + Run.freeStart r), t') ∧
      t'.LaidOut (Run.join l run.length r) ∧ t'.size = t.size ∧
      ∀ y, t'.inUse? y =
        if Run.total l ≤ y ∧ y < Run.total l + run.length then none else t.inUse? y := by
  have hcons : l ++ run :: r = (l ++ [run]) ++ r := by simp
  have hsize := h.size_eq
  obtain ⟨hl, hrun, -⟩ := Run.apart_append.1 h.apart
  have hpos : 0 < run.length := (Spells.append.1 h.spells).2.1
  rw [hcons] at h
  have g := h.gap_zero.absorb hf
  rw [Nat.add_zero] at g
  obtain ⟨t', he, hl', hu⟩ := BlockTable.giveBack?_eq g hpos hl (Run.apart_cons.1 hrun).2
  refine ⟨t', he, hl', ?_, hu⟩
  rw [← hl'.size_eq, ← hsize, total_join]
  simp
  omega

theorem freeAtEnd?_eq {runs : List Run} (h : t.LaidOut runs) :
    t.freeAtEnd? = some (Run.freeEnd runs) := by
  have hhead := headEndingAt?_of_spells h.spells
  rw [h.size_eq] at hhead
  rw [freeAtEnd?]
  by_cases hz : t.size = 0
  · rw [if_pos hz] at hhead ⊢
    rcases Run.end_cases runs with ⟨l', size, rfl, -, -⟩ | ⟨-, -, h₂⟩
    · simp [Run.isFree] at hhead
    · rw [h₂]
  · rw [if_neg hz] at hhead ⊢
    rw [hhead]
    have htotal := Run.total_trimEnd runs
    rcases Run.end_cases runs with ⟨l', size, rfl, -, -⟩ | ⟨hf, -, h₂⟩
    · rw [if_pos (by simp [Run.isFree])]
      exact Size.sub?_eq_some_iff.2 ⟨by have := h.size_eq; omega, by have := h.size_eq; omega⟩
    · simp [hf, h₂]

/-- A table is lengthened by free blocks. -/
theorem append?_eq {runs : List Run} (h : t.LaidOut runs) (hpos : 0 < count)
    (hfit : t.size + count ≤ maxEntries) :
    ∃ t', t.append? count = some ((Run.total (Run.trimEnd runs), Run.freeEnd runs + count), t') ∧
      t'.LaidOut (Run.join runs count []) ∧ ∀ y, t'.inUse? y = t.inUse? y := by
  let t₁ : BlockTable := { t with entries := t.entries ++ Array.replicate count Entry.freeBody }
  have hget (y : Nat) (hy : y < t.size) : t₁.get? y = t.get? y :=
    Array.getElem?_append_left hy
  have hget' (y : Nat) (hlo : t.size ≤ y) (hhi : y < t.size + count) :
      t₁.get? y = some .freeBody := by
    show (t.entries ++ Array.replicate count Entry.freeBody)[y]? = _
    have hlo' : t.entries.size ≤ y := hlo
    have hhi' : y < t.entries.size + count := hhi
    rw [Array.getElem?_append_right hlo', Array.getElem?_replicate, if_pos (by omega)]
  have hs : t₁.size = t.size + count := by simp [t₁, size]
  have hmax : maxEntries < Size.limit := by decide
  have htotal := h.size_eq
  have g : t₁.Gap runs count [] := by
    refine ⟨h.spells.congr fun i _ hi => ?_, trivial, ?_, ?_, ?_⟩
    · rw [bare?, hget i (by omega), bare?]
    · rw [Run.total_nil]; omega
    · have hl : t₁.Listed t.freeSize? := h.listed.congr rfl fun b hne => hget b (by
        cases hb : t.freeSize? b with
        | none => exact absurd hb hne
        | some s => exact h.listed.lt_size hb)
      refine hl.of_eq fun b => ?_
      unfold freeOutside
      by_cases hb : b < t.size
      · rw [if_neg (by omega), freeSize?, hget b hb, freeSize?]
      · rw [freeSize?, freeSize?, get?_eq_none (by omega : t.size ≤ b)]
        by_cases hb' : b < t.size + count
        · rw [if_pos (by omega)]; rfl
        · rw [if_neg (by omega), get?_eq_none (by omega : t₁.size ≤ b)]
    · omega
  obtain ⟨t', he, hl, hu⟩ := giveBack?_eq g hpos h.apart Run.apart_nil
  refine ⟨t', ?_, hl, fun y => ?_⟩
  · rw [append?, if_neg (by omega), ← htotal]
    exact he
  · rw [hu]
    by_cases hin : Run.total runs ≤ y ∧ y < Run.total runs + count
    · rw [if_pos hin, inUse?, get?_eq_none (by omega : t.size ≤ y)]; rfl
    · rw [if_neg hin, inUse?, inUse?]
      by_cases hy : y < t.size
      · rw [hget y hy]
      · rw [get?_eq_none (by omega : t.size ≤ y), get?_eq_none (by omega : t₁.size ≤ y)]

/-- A layout whose free end is cut by `count` blocks. -/
def cutEnd (runs : List Run) (count : Nat) : List Run :=
  Run.trimEnd runs ++ if count < Run.freeEnd runs then [.free (Run.freeEnd runs - count)] else []

theorem total_trimEnd_cutEnd_le (runs : List Run) (count : Nat) :
    Run.total (Run.trimEnd (cutEnd runs count)) ≤ Run.total (Run.trimEnd runs) := by
  rw [cutEnd]
  split
  · refine Nat.le_of_eq (congrArg Run.total ?_)
    rw [Run.trimEnd, Run.endsFree_append_singleton, Run.isFree, if_pos rfl, List.dropLast_concat]
  · rw [List.append_nil, ← Run.total_trimEnd (Run.trimEnd runs)]
    exact Nat.le_add_right _ _

/-- A gap at the end of a table may lose its last blocks. -/
theorem Gap.cut (g : t.Gap l count []) (kept : Nat) (hk : kept ≤ count) :
    ∃ t', { t with entries := t.entries.take (Run.total l + kept) } = t' ∧ t'.Gap l kept [] ∧
      ∀ y, y < Run.total l + kept → t'.get? y = t.get? y := by
  have hsize : Run.total l + count = t.size := g.size_eq
  have hentries : t.entries.size = t.size := rfl
  generalize ht : ({ t with entries := t.entries.take (Run.total l + kept) } : BlockTable) = t'
  have hs : t'.size = Run.total l + kept := by
    subst ht
    show (t.entries.take (Run.total l + kept)).size = _
    rw [Array.take_eq_extract, Array.size_extract]
    omega
  have hget (y : Nat) (hy : y < Run.total l + kept) : t'.get? y = t.get? y := by
    subst ht
    show (t.entries.take (Run.total l + kept))[y]? = t.entries[y]?
    rw [Array.take_eq_extract, Array.getElem?_extract, if_pos (by omega), Nat.zero_add]
  refine ⟨t', rfl, ⟨g.before.congr fun i _ hi => ?_, trivial, by rw [hs]; rfl, ?_, ?_⟩, hget⟩
  · rw [bare?, hget i (by omega), bare?]
  · have hl : t'.Listed (t.freeOutside (Run.total l) count) := by
      refine g.listed.congr (by subst ht; rfl) fun b hne => hget b ?_
      by_cases hb : Run.total l ≤ b
      · refine absurd ?_ hne
        by_cases hb' : b < Run.total l + count
        · rw [freeOutside, if_pos ⟨hb, hb'⟩]
        · rw [freeOutside, if_neg (by omega), freeSize?, get?_eq_none (by omega)]; rfl
      · omega
    refine hl.of_eq fun b => ?_
    unfold freeOutside
    by_cases hb : b < Run.total l
    · rw [if_neg (by omega), if_neg (by omega), freeSize?, hget b (by omega), freeSize?]
    · by_cases hb' : b < Run.total l + kept
      · rw [if_pos (by omega), if_pos (by omega)]
      · rw [if_neg (by omega), freeSize?, get?_eq_none (by omega : t'.size ≤ b)]
        split
        · rfl
        · rw [freeSize?, get?_eq_none (by omega : t.size ≤ b)]
  · have := g.small
    omega

/-- Free blocks are cut off the end of a table. -/
theorem cutTail?_eq {runs : List Run} (h : t.LaidOut runs) (hpos : 0 < count)
    (hfit : count ≤ Run.freeEnd runs) :
    ∃ t', t.cutTail? count = some (true, t') ∧ t'.LaidOut (cutEnd runs count) ∧
      t'.size + count = t.size ∧ ∀ y, t'.inUse? y = t.inUse? y := by
  rcases Run.end_cases runs with ⟨l, size, rfl, h₁, h₂⟩ | ⟨-, -, h₂⟩
  · rw [h₂] at hfit
    have htotal := h.size_eq
    simp only [Run.total_append, Run.total_cons, Run.total_nil, Run.length, Nat.add_zero] at htotal
    have hhead : t.headEndingAt? (t.size - 1) = some (Run.total l) := by
      have := headEndingAt?_of_spells h.spells
      rw [h.size_eq, if_neg (by omega), if_pos (by simp [Run.isFree]), h₁] at this
      exact this
    have hend : Spells t.bare? (Run.total l) [.free size] := by
      simpa using (Spells.append.1 h.spells).2
    obtain ⟨t₁, hd, g₁, hr⟩ := h.gap_zero.delist_behind
    rw [Nat.zero_add] at g₁
    rw [Nat.add_zero] at hd
    obtain ⟨t₂, e₂, g₂, get₂⟩ := g₁.cut (size - count) (by omega)
    have hkept : Run.total l + (size - count) = t.size - count := by omega
    have hs₂ : Run.total l + (size - count) = t₂.size := g₂.size_eq
    have opened : t.cutTail? count = (if count < size then
        t₂.enlist? (Run.total l) (size - count) else some t₂).map (true, ·) := by
      rw [cutTail?, if_neg (by omega), freeAtEnd?_eq h, h₂, Option.bind_eq_bind, Option.bind_some,
        if_neg (by omega), hhead]
      simp only [hd, Option.bind_eq_bind, Option.bind_some, ← hkept, e₂]
      split
      · exact Option.map_eq_bind.symm
      · rfl
    -- all that is in use stands in front of the free run, before and after
    have same {t' : BlockTable} (hl : t'.LaidOut (cutEnd (l ++ [.free size]) count))
        (hb : ∀ y, y < Run.total l → t'.bare? y = t₂.bare? y) (y : Nat) :
        t'.inUse? y = t.inUse? y := by
      by_cases hy : y < Run.total l
      · refine inUse?_congr ?_
        rw [hb y hy, bare?, get₂ y (by omega), ← bare?, hr.bare?_eq]
      · have hcut := total_trimEnd_cutEnd_le (l ++ [.free size]) count
        rw [h₁] at hcut
        rw [hl.inUse?_behind (by omega), h.inUse?_behind (by rw [h₁]; omega)]
    rw [opened]
    by_cases hc : count < size
    · have hcut : cutEnd (l ++ [.free size]) count = l ++ [.free (size - count)] := by
        rw [cutEnd, h₁, h₂, if_pos hc]
      rw [if_pos hc]
      obtain ⟨t₃, he, g₃, bare₃⟩ := g₂.enlist 0 (by omega) fun i h0 hi => by
        have := hend.2.1 i (by simp only [Run.length]; omega)
        rw [bare?, get₂ _ (by omega), ← bare?, hr.bare?_eq, this]
        simp only [Run.entry]
        rw [if_neg (by omega), if_neg (by omega)]
      rw [Nat.add_zero, Nat.sub_zero] at he
      rw [Nat.sub_zero] at g₃
      have hl := g₃.laidOut (Run.apart_append.2 ⟨(Run.apart_append.1 h.apart).1,
        Run.apart_singleton _, (Run.apart_append.1 h.apart).2.2⟩)
      have hs₃ : Run.total l + 0 + (size - count + 0) = t₃.size := g₃.size_eq
      rw [← hcut] at hl
      exact ⟨t₃, by rw [he]; rfl, hl, by omega, same hl fun y hy => bare₃ y (by omega)⟩
    · have hcut : cutEnd (l ++ [.free size]) count = l := by
        rw [cutEnd, h₁, h₂, if_neg hc, List.append_nil]
      rw [if_neg hc]
      rw [show size - count = 0 by omega] at g₂
      have hl := g₂.laidOut (by simpa using (Run.apart_append.1 h.apart).1)
      rw [List.append_nil, ← hcut] at hl
      exact ⟨t₂, rfl, hl, by omega, same hl fun _ _ => rfl⟩
  · omega

/-! ## Cutting a busy run down -/

/-- The blocks that a busy run gives up become free. -/
theorem shorten?_eq {length want : Nat} (h : t.LaidOut (l ++ .busy length :: r)) (hpos : 0 < want)
    (hlt : want < length) :
    ∃ t', t.shorten? (Run.total l) length want = some t' ∧
      t'.LaidOut (Run.join (l ++ [.busy want]) (length - want) r) ∧
      ∀ y, t'.inUse? y =
        if y = Run.total l then some (.run want)
        else if Run.total l + want ≤ y ∧ y < Run.total l + length then none else t.inUse? y := by
  have hrun : Spells t.bare? (Run.total l) (.busy length :: r) := by
    simpa using (Spells.append.1 h.spells).2
  have g₀ : t.Gap l length r := by
    have hcons : l ++ .busy length :: r = (l ++ [.busy length]) ++ r := by simp
    rw [hcons] at h
    exact h.gap_zero.absorb rfl
  obtain ⟨t₁, e₁, g₁, hbare⟩ := g₀.set (Run.total l) (by omega) (by omega) (.run want)
  have g₂ : t₁.Gap (l ++ [.busy want]) (length - want) r := by
    refine Gap.yield (.busy want) ?_ rfl (Spells.singleton hpos fun i hi => ?_)
    · rwa [Run.length, show want + (length - want) = length by omega]
    · rw [Run.length] at hi
      rw [hbare]
      by_cases h0 : i = 0
      · subst h0; rw [if_pos (by omega)]; rfl
      · have := hrun.2.1 i (by simp only [Run.length]; omega)
        rw [if_neg (by omega), this]
        simp only [Run.entry]
        rw [if_neg h0, if_neg h0]
  have hap := Run.apart_append.1 h.apart
  have ha : Run.Apart (l ++ [.busy want]) :=
    Run.apart_append.2 ⟨hap.1, Run.apart_singleton _, by simp [Run.isFree]⟩
  have htotal : Run.total (l ++ [.busy want]) = Run.total l + want := by simp [Run.length]
  obtain ⟨t', he, hl, hu⟩ := giveBack?_eq g₂ (by omega) ha (Run.apart_cons.1 hap.2.1).2
  rw [htotal] at he hu
  refine ⟨t', ?_, hl, fun y => ?_⟩
  · rw [shorten?, if_neg (by omega)]
    simp only [e₁, he, Option.bind_eq_bind, Option.bind_some]
  · rw [hu, show Run.total l + want + (length - want) = Run.total l + length by omega]
    by_cases h0 : y = Run.total l
    · rw [if_neg (by omega), if_pos h0, inUse?_eq_bare, hbare, if_pos h0]
      rfl
    · rw [if_neg h0]
      by_cases hin : Run.total l + want ≤ y ∧ y < Run.total l + length
      · rw [if_pos hin, if_pos hin]
      · rw [if_neg hin, if_neg hin]
        exact inUse?_congr (by rw [hbare, if_neg h0])

end BlockTable

end RegionHeap
