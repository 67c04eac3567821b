import RegionHeap.Proofs.Blocks.Accepting

/-!
Tables of any origin. If only no run reaches behind the end of its table and no free run is empty
(`InRange`), the table can be walked over, rebuilt and checked, whatever else its entries and links
say. Lists of free runs may lead anywhere and back: no list is followed further than the table is
long (`InRange.exists_walkBin?`).
-/
namespace RegionHeap.BlockTable

variable {t : BlockTable} {entries : Array Entry} {runs : List (Nat × Entry)}

/-- No run reaches behind the end of the table, and no free run is empty. -/
structure InRange (t : BlockTable) : Prop where
  step_le : ∀ b e, t.get? b = some e → b + e.step ≤ t.size
  free_pos : ∀ b s next prev, t.get? b = some (.free s next prev) → 0 < s

theorem exists_runsFrom? {start : Nat}
    (hsmall : ∀ (b : Nat) e, entries[b]? = some e → b + e.step < Size.limit) :
    ∃ runs, runsFrom? entries start = some runs := by
  fun_induction runsFrom? entries start with
  | case1 start hlt _ ih =>
    obtain ⟨rest, hrest⟩ := ih
    rw [hrest]
    exact ⟨_, rfl⟩
  | case2 start hlt hlarge => exact absurd (hsmall start _ (Array.getElem?_eq_getElem hlt)) hlarge
  | case3 => exact ⟨[], rfl⟩

/-! ## Walking and checking -/

namespace InRange

variable (r : t.InRange)
include r

theorem exists_runs? (hsmall : t.size < Size.limit) : ∃ runs, t.runs? = some runs :=
  exists_runsFrom? fun b e he => Nat.lt_of_le_of_lt (r.step_le b e he) hsmall

theorem exists_tagsOk? {b : Nat} {e : Entry} (he : t.get? b = some e) :
    ∃ ok, t.tagsOk? (b, e) = some ok := by
  cases e with
  | free size next prev =>
    have hpos := r.free_pos b size next prev he
    rw [tagsOk?, tailOk?]
    split
    · exact ⟨_, rfl⟩
    · rw [Size.sub?_eq_some_iff.2 ⟨by omega, rfl⟩]
      exact ⟨_, rfl⟩
  | _ => exact ⟨_, rfl⟩

/-- Wherever a list of free runs leads, it is left after as many runs as there is fuel. -/
theorem exists_walkBin? (bin fuel : Nat) (cursor : Option Nat) (met : Nat × Nat) :
    ∃ found, t.walkBin? bin fuel cursor met = some found ∧ found.1 ≤ met.1 + fuel := by
  induction fuel generalizing cursor met with
  | zero => cases cursor <;> exact ⟨_, rfl, Nat.le_refl _⟩
  | succ fuel ih =>
    cases cursor with
    | none => exact ⟨_, rfl, Nat.le_add_right _ _⟩
    | some head =>
      rw [walkBin?]
      split
      · rename_i size next prev hget
        rw [bin?_eq (r.free_pos head size next prev hget)]
        obtain ⟨found, hw, hle⟩ :=
          ih next (met.1 + 1, if size.log2 = bin then met.2 else met.2 + 1)
        exact ⟨found, hw, Nat.le_trans hle (by simp only; omega)⟩
      · exact ⟨_, rfl, Nat.le_add_right _ _⟩

theorem exists_defects? (hsmall : t.size < Size.limit) : ∃ d, t.defects? = some d := by
  obtain ⟨runs, hr⟩ := r.exists_runs? hsmall
  have hs : Steps t.get? 0 runs := steps_of_runsFrom? hr
  obtain ⟨tags, ht⟩ := exists_mapM fun p hp => r.exists_tagsOk? (hs.get_eq hp).2
  obtain ⟨walks, hw⟩ : ∃ walks, (List.range binCount).mapM
      (fun bin => t.walkBin? bin t.size (t.binHead bin) (0, 0)) = some walks :=
    exists_mapM fun bin _ => by
      obtain ⟨found, hfound, -⟩ := r.exists_walkBin? bin t.size (t.binHead bin) (0, 0)
      exact ⟨found, hfound⟩
  rw [defects?, hr]
  simp only [Option.bind_eq_bind, Option.bind_some, ht, hw]
  exact ⟨_, rfl⟩

end InRange

/-! ## Rebuilding -/

/-- A table whose runs end in it can be rebuilt from its entries. -/
theorem InRange.exists_rebuilt (r : (ofRaw entries).InRange) (hsmall : entries.size < Size.limit) :
    ∃ t runs, ofEntries? entries = some t ∧ Rebuilt entries runs t := by
  have hin (b s : Nat) (next prev : Option Nat) (hb : entries[b]? = some (.free s next prev)) :
      0 < s ∧ b + s ≤ entries.size := by
    have := r.free_pos b s next prev hb
    have := r.step_le b _ hb
    simp only [Entry.step, size, ofRaw] at this
    omega
  obtain ⟨runs, hr⟩ := r.exists_runs? hsmall
  have hs : Steps (ofRaw entries).get? 0 runs := steps_of_runsFrom? hr
  have spread := spread_of_steps hs fun b s next prev hp => hin b s next prev (hs.get_eq hp).2
  obtain ⟨t, ht, -⟩ := ofEntries?_spec
    (show (ofRaw entries).freeRuns? = some (freeOf runs) by rw [freeRuns?, hr]; rfl) spread hsmall
  obtain ⟨runs', -, rebuilt⟩ := BlockTable.exists_rebuilt ht hsmall hin
  exact ⟨t, runs', ht, rebuilt⟩

/-- Rebuilding writes the ends of free runs and changes no other entry but for its links. -/
theorem Rebuilt.of_get? (r : Rebuilt entries runs t) {b : Nat} {e : Entry} (he : t.get? b = some e) :
    (∃ head, e = .freeTail head) ∨ ∃ e', (ofRaw entries).get? b = some e' ∧ e'.bare = e.bare := by
  have hbare := bare?_of_get? he
  -- whether the entry is the end of a free run, where rebuilding writes
  by_cases hb : ∀ p ∈ freeOf runs, 1 < p.2 → b ≠ p.1 + p.2 - 1
  · rw [r.others b hb, bare?, Option.map_eq_some_iff] at hbare
    exact .inr hbare
  · simp only [Classical.not_forall, Decidable.not_not] at hb
    obtain ⟨q, hq, h1, rfl⟩ := hb
    rw [r.ends q hq h1, Option.some.injEq] at hbare
    refine .inl ⟨q.1, ?_⟩
    cases e <;> cases hbare
    rfl

theorem Rebuilt.inRange (r : Rebuilt entries runs t) (h : (ofRaw entries).InRange) : t.InRange where
  step_le b e he := by
    obtain ⟨head, rfl⟩ | ⟨e', he', hbare⟩ := r.of_get? he
    · exact lt_size_of_get? he
    · have := h.step_le b e' he'
      rw [r.size_eq, ← Entry.step_bare, ← hbare, Entry.step_bare]
      exact this
  free_pos b s next prev he := by
    obtain ⟨head, hne⟩ | ⟨e', he', hbare⟩ := r.of_get? he
    · cases hne
    · cases e' <;> cases hbare
      exact h.free_pos b _ _ _ he'

end RegionHeap.BlockTable
