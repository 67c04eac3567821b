import RegionHeap.Proofs.Blocks.Releasing

/-!
What the blocks in use say about a table. Free runs never meet, so every row of free blocks lies in
one free run (`LaidOut.exists_freeRun`), and two tables of one size with the same blocks in use have
the same runs (`LaidOut.unique`). `usedBlocks` is the number of blocks up to the last one in use; the
blocks behind it are the free run at the end.
-/
namespace RegionHeap

theorem Run.first_inj {r r' : Run} (h : r'.first = r.first) : r' = r := by
  cases r <;> cases r' <;> simp_all [Run.first]

namespace BlockTable

variable {t t' : BlockTable} {block : Nat} {r : Run} {rest runs runs' : List Run}

/-! ## Rows of free blocks -/

/-- Whether the first block of a run is in use says what the run is. -/
theorem inUse?_first (h : Spells t.bare? block (r :: rest)) :
    t.inUse? block = if r.isFree then none else some r.first := by
  have hbare : t.bare? block = some r.first := Spells.first_eq (l := []) h
  have hfree : r.first.isFree = r.isFree := by rw [← Run.entry_zero 0, isFree_entry]
  rw [inUse?_eq_bare, hbare, Option.filter_some, hfree]
  cases r.isFree <;> rfl

theorem inUse?_of_isFree (h : Spells t.bare? block (r :: rest)) (hf : r.isFree = true) {i : Nat}
    (hi : i < r.length) : t.inUse? (block + i) = none :=
  inUse?_of_bare? (h.2.1 i hi) (by rw [isFree_entry]; exact hf)

/-- A free run is at least as long as the row of free blocks at its start. -/
theorem le_of_row {size count : Nat} (h : Spells t.bare? block (.free size :: rest))
    (hap : Run.Apart (.free size :: rest)) (hfit : count ≤ Run.total (.free size :: rest))
    (hrow : ∀ i, i < count → t.inUse? (block + i) = none) : count ≤ size := by
  refine Nat.le_of_not_lt fun hlt => ?_
  have hnone := hrow size hlt
  cases rest with
  | nil =>
    rw [Run.total_cons, Run.total_nil, Run.length] at hfit
    omega
  | cons r rest =>
    -- the run behind a free one is in use
    have hnot := (Run.apart_cons.1 hap).1
    have hused : r.isFree = false := by simpa [Run.isFree] using hnot
    have hfirst : t.inUse? (block + size) = _ := inUse?_first h.2.2
    rw [hnone, hused] at hfirst
    cases hfirst

/-- Entries are the same runs if the same blocks are in use. -/
theorem unique_of_spells (h : Spells t.bare? block runs) (h' : Spells t'.bare? block runs')
    (hap : Run.Apart runs) (hap' : Run.Apart runs') (htotal : Run.total runs' = Run.total runs)
    (hu : ∀ b, t'.inUse? b = t.inUse? b) : runs' = runs := by
  induction runs generalizing block runs' with
  | nil =>
    cases runs' with
    | nil => rfl
    | cons r' rest' =>
      have := h'.1
      rw [Run.total_cons, Run.total_nil] at htotal
      omega
  | cons r rest ih =>
    cases runs' with
    | nil =>
      have := h.1
      rw [Run.total_cons, Run.total_nil] at htotal
      omega
    | cons r' rest' =>
      have hfirst := hu block
      rw [inUse?_first h', inUse?_first h] at hfirst
      have same : r' = r := by
        cases hf : r.isFree with
        | false =>
          cases hf' : r'.isFree with
          | false =>
            rw [hf, hf'] at hfirst
            exact Run.first_inj (Option.some.inj hfirst)
          | true =>
            rw [hf, hf'] at hfirst
            cases hfirst
        | true =>
          cases hf' : r'.isFree with
          | false =>
            rw [hf, hf'] at hfirst
            cases hfirst
          | true =>
            -- two free runs, neither of which can be the longer one
            obtain ⟨size, rfl⟩ : ∃ size, r = .free size := by cases r <;> simp_all [Run.isFree]
            obtain ⟨size', rfl⟩ : ∃ size, r' = .free size := by cases r' <;> simp_all [Run.isFree]
            have hle : size' ≤ size := le_of_row h hap
              (by rw [← htotal, Run.total_cons]; exact Nat.le_add_right _ _)
              fun i hi => by rw [← hu]; exact inUse?_of_isFree h' rfl hi
            have hge : size ≤ size' := le_of_row h' hap'
              (by rw [htotal, Run.total_cons]; exact Nat.le_add_right _ _)
              fun i hi => by rw [hu]; exact inUse?_of_isFree h rfl hi
            rw [Nat.le_antisymm hle hge]
      subst same
      rw [Run.total_cons, Run.total_cons] at htotal
      rw [ih h.2.2 h'.2.2 (Run.apart_cons.1 hap).2 (Run.apart_cons.1 hap').2 (by omega)]

/-- The blocks in use determine the runs of a table. -/
theorem LaidOut.unique (h : t.LaidOut runs) (h' : t'.LaidOut runs') (hs : t'.size = t.size)
    (hu : ∀ b, t'.inUse? b = t.inUse? b) : runs' = runs :=
  unique_of_spells h.spells h'.spells h.apart h'.apart (by rw [h.size_eq, h'.size_eq, hs]) hu

/-- Free blocks in a row lie in one free run. -/
theorem LaidOut.exists_freeRun (h : t.LaidOut runs) {start count : Nat} (hpos : 0 < count)
    (hfit : start + count ≤ t.size)
    (hrow : ∀ b, start ≤ b → b < start + count → t.inUse? b = none) :
    ∃ head size, t.freeSize? head = some size ∧ head ≤ start ∧ start + count ≤ head + size := by
  obtain ⟨l, r, rest, i, rfl, hi, rfl, hb⟩ := h.spells.locate (Nat.zero_le start)
    (by have := h.size_eq; omega)
  have hspells := (Spells.append.1 h.spells).2
  rw [Nat.zero_add] at hspells hb
  have htotal := h.size_eq
  rw [Run.total_append] at htotal
  cases r with
  | free size =>
    refine ⟨Run.total l, size, freeSize?_eq_some.2 (Spells.first_eq (l := []) hspells), by omega, ?_⟩
    have hle : i + count ≤ size :=
      le_of_row hspells (Run.apart_append.1 h.apart).2.1 (by omega) fun j hj => by
        by_cases hlt : j < i
        · exact inUse?_of_isFree hspells rfl (show j < size from Nat.lt_trans hlt hi)
        · exact hrow _ (by omega) (by omega)
    omega
  | busy length =>
    have := hrow (0 + Run.total l + i) (by omega) (by omega)
    rw [Nat.zero_add, inUse?_eq_bare, hb, Option.filter_some, isFree_entry] at this
    cases this
  | cut log2 nfree =>
    have := hrow (0 + Run.total l + i) (by omega) (by omega)
    rw [Nat.zero_add, inUse?_eq_bare, hb, Option.filter_some, isFree_entry] at this
    cases this

/-! ## The last block in use -/

/-- The number of blocks up to the last one in use below `n`. -/
def usedBelow (t : BlockTable) : (n : Nat) → Nat
  | 0 => 0
  | n + 1 => if (t.inUse? n).isSome then n + 1 else usedBelow t n

/-- The number of blocks up to the last one in use. -/
def usedBlocks (t : BlockTable) : Nat := t.usedBelow t.size

theorem usedBelow_le (t : BlockTable) (n : Nat) : t.usedBelow n ≤ n := by
  induction n with
  | zero => exact Nat.le_refl 0
  | succ n ih =>
    rw [usedBelow]
    split <;> omega

theorem usedBelow_le_iff {n m : Nat} :
    t.usedBelow n ≤ m ↔ ∀ b, m ≤ b → b < n → t.inUse? b = none := by
  induction n with
  | zero => simp [usedBelow]
  | succ n ih =>
    rw [usedBelow]
    split
    · rename_i hn
      constructor
      · intro hm b hlo hhi
        omega
      · intro hb
        refine Nat.le_of_not_lt fun hlt => ?_
        rw [hb n (by omega) (by omega)] at hn
        cases hn
    · rename_i hn
      rw [ih]
      constructor
      · intro hb b hlo hhi
        by_cases heq : b = n
        · rw [heq]
          simpa using hn
        · exact hb b hlo (by omega)
      · intro hb b hlo hhi
        exact hb b hlo (by omega)

theorem inUse?_of_size_le {b : Nat} (h : t.size ≤ b) : t.inUse? b = none := by
  rw [inUse?, get?_eq_none h]
  rfl

theorem usedBlocks_le_iff {n : Nat} : t.usedBlocks ≤ n ↔ ∀ b, n ≤ b → t.inUse? b = none := by
  rw [usedBlocks, usedBelow_le_iff]
  constructor
  · intro hb b hlo
    by_cases hlt : b < t.size
    · exact hb b hlo hlt
    · exact inUse?_of_size_le (Nat.le_of_not_lt hlt)
  · intro hb b hlo _
    exact hb b hlo

theorem usedBlocks_le_size (t : BlockTable) : t.usedBlocks ≤ t.size := usedBelow_le t t.size

theorem lt_usedBlocks {b : Nat} (h : t.inUse? b ≠ none) : b < t.usedBlocks :=
  Nat.lt_of_not_le fun hle => h (usedBlocks_le_iff.1 hle b (Nat.le_refl b))

theorem usedBlocks_mono (h : ∀ b, t'.inUse? b = none → t.inUse? b = none) :
    t.usedBlocks ≤ t'.usedBlocks :=
  usedBlocks_le_iff.2 fun b hb => h b (usedBlocks_le_iff.1 (Nat.le_refl _) b hb)

theorem usedBlocks_congr (h : ∀ b, t'.inUse? b = t.inUse? b) : t'.usedBlocks = t.usedBlocks :=
  Nat.le_antisymm (usedBlocks_mono fun b hb => by rw [h, hb])
    (usedBlocks_mono fun b hb => by rw [← h, hb])

/-- The blocks behind the last one in use are the free run at the end. -/
theorem LaidOut.usedBlocks_eq (h : t.LaidOut runs) :
    t.usedBlocks = Run.total (Run.trimEnd runs) := by
  have htotal := Run.total_trimEnd runs
  apply Nat.le_antisymm
  · exact usedBlocks_le_iff.2 fun b hb => h.inUse?_behind hb
  · -- the run before it, if there is one, is in use
    rcases List.eq_nil_or_concat (Run.trimEnd runs) with hnil | ⟨l, r, hconcat⟩
    · rw [hnil]
      exact Nat.zero_le _
    · have hspells : Spells t.bare? 0 (l ++ [r]) := by
        rcases Run.end_cases runs with ⟨l', size, rfl, htrim, -⟩ | ⟨-, htrim, -⟩
        · rw [← List.concat_eq_append, ← hconcat, htrim]
          exact (Spells.append.1 h.spells).1
        · rw [← List.concat_eq_append, ← hconcat, htrim]
          exact h.spells
      have hused : r.isFree = false := by
        rcases Run.end_cases runs with ⟨l', size, rfl, htrim, -⟩ | ⟨hend, htrim, -⟩
        · rw [← htrim, hconcat, List.concat_eq_append] at h
          have := (Run.apart_append.1 h.apart).2.2
          simpa [Run.isFree] using this
        · rw [← htrim, hconcat, List.concat_eq_append, Run.endsFree_append_singleton] at hend
          exact hend
      have hr := (Spells.append.1 hspells).2
      rw [Nat.zero_add] at hr
      have hpos := hr.1
      rw [hconcat, List.concat_eq_append, Run.total_append, Run.total_cons, Run.total_nil,
        Nat.add_zero]
      have hlast : t.inUse? (Run.total l + (r.length - 1)) ≠ none := by
        rw [inUse?_eq_bare, hr.2.1 (r.length - 1) (by omega), Option.filter_some, isFree_entry, hused]
        exact Option.some_ne_none _
      have := lt_usedBlocks hlast
      omega

theorem LaidOut.usedBlocks_add (h : t.LaidOut runs) :
    t.usedBlocks + Run.freeEnd runs = t.size := by
  rw [h.usedBlocks_eq, Run.total_trimEnd, h.size_eq]

/-- A table in which no block is in use is one free run, unless it has no blocks. -/
theorem LaidOut.runs_of_unused (h : t.LaidOut runs) (hu : t.usedBlocks = 0) :
    runs = if t.size = 0 then [] else [.free t.size] := by
  have hsize := h.size_eq
  rw [h.usedBlocks_eq] at hu
  rcases Run.end_cases runs with ⟨l, size, rfl, htrim, -⟩ | ⟨-, htrim, -⟩
  · rw [htrim] at hu
    obtain ⟨hl, hpos, -⟩ := Spells.append.1 h.spells
    have hnil := hl.eq_nil_of_total hu
    subst hnil
    rw [List.nil_append, Run.total_cons, Run.total_nil] at hsize
    simp only [Run.length] at hpos hsize
    rw [if_neg (by omega), List.nil_append, ← hsize, Nat.add_zero]
  · rw [htrim] at hu
    rw [if_pos (by omega)]
    exact h.spells.eq_nil_of_total hu

end BlockTable

end RegionHeap
