import RegionHeap.Proofs.Blocks.Releasing

/-!
Taking blocks. The search of the bins finds a free run that is long enough whenever there is one
(`fits_of_search`), and taking blocks from it makes them one busy run. A busy run is lengthened
into the free run behind it in the same way.
-/
namespace RegionHeap

/-- What is left of a free run of `size` blocks without its lower `count`, in front of other runs. -/
def Run.rest (size count : Nat) (r : List Run) : List Run :=
  if count < size then .free (size - count) :: r else r

theorem Run.total_rest {size count : Nat} (h : count ≤ size) (r : List Run) :
    Run.total (Run.rest size count r) + count = size + Run.total r := by
  unfold Run.rest
  split
  · rw [Run.total_cons, Run.length]; omega
  · omega

/-- A run in use and what is left of a free one may stand where the free one stood. -/
theorem Run.Apart.rest {l r : List Run} {size : Nat} {run : Run} (hl : Run.Apart l)
    (hr : Run.Apart (.free size :: r)) (n : Nat) (hf : run.isFree = false) :
    Run.Apart ((l ++ [run]) ++ Run.rest size n r) := by
  obtain ⟨hs, hr⟩ := Run.apart_cons.1 hr
  have hrest : Run.Apart (Run.rest size n r) := by
    unfold Run.rest
    split
    · exact Run.apart_cons.2 ⟨hs, hr⟩
    · exact hr
  exact Run.apart_append.2 ⟨Run.apart_append.2 ⟨hl, Run.apart_singleton _, by simp [hf]⟩, hrest,
    by simp [hf]⟩

namespace BlockTable

variable {t t' : BlockTable} {l r : List Run} {count : Nat}

/-- A free run is found in the layout by the size that its first block records. -/
theorem LaidOut.locate_free {runs : List Run} (h : t.LaidOut runs) {block size : Nat}
    (hs : t.freeSize? block = some size) :
    ∃ l r, runs = l ++ .free size :: r ∧ block = Run.total l := by
  have hb := freeSize?_eq_some.1 hs
  have hlt := lt_size_of_bare? hb
  obtain ⟨l, run, r, rfl, rfl, he⟩ := h.spells.locate_first (Nat.zero_le _)
    (by rw [h.size_eq]; omega) hb rfl
  cases run with
  | free size' => cases he; exact ⟨l, r, rfl, Nat.zero_add _⟩
  | busy length => cases he
  | cut log2 nfree => cases he

/-! ## The search -/

theorem firstFit?_of_chained {head : Option Nat} {members : List Nat}
    (c : Chained t.next t.prev head members) (hfree : ∀ b ∈ members, ∃ s, t.freeSize? b = some s)
    (fuel i : Nat) (hfuel : members.length ≤ i + fuel) :
    ∃ found, t.firstFit? count fuel members[i]? = some found ∧
      (∀ b ∈ found, b ∈ members ∧ ∃ s, t.freeSize? b = some s ∧ count ≤ s) ∧
      (found = none → ∀ j b s, i ≤ j → members[j]? = some b → t.freeSize? b = some s → s < count) := by
  induction fuel generalizing i with
  | zero =>
    have hn : members[i]? = none := List.getElem?_eq_none (by omega)
    refine ⟨none, by rw [hn, firstFit?], by simp, fun _ j b s hj hb => ?_⟩
    rw [List.getElem?_eq_none (by omega)] at hb
    cases hb
  | succ fuel ih =>
    cases hi : members[i]? with
    | none =>
      refine ⟨none, rfl, by simp, fun _ j b s hj hb => ?_⟩
      have := List.getElem?_eq_none_iff.1 hi
      rw [List.getElem?_eq_none (by omega)] at hb
      cases hb
    | some block =>
      obtain ⟨size, hs⟩ := hfree block (List.mem_of_getElem? hi)
      have hget := get?_of_bare?_free (freeSize?_eq_some.1 hs)
      have hstep : t.firstFit? count (fuel + 1) (some block) =
          if count ≤ size then some (some block) else t.firstFit? count fuel (t.next block) := by
        rw [firstFit?, hget]
      rw [hstep]
      by_cases hc : count ≤ size
      · rw [if_pos hc]
        refine ⟨some block, rfl, fun b hb => ?_, by simp⟩
        cases hb
        exact ⟨List.mem_of_getElem? hi, size, hs, hc⟩
      · rw [if_neg hc, c.next_eq i block hi]
        obtain ⟨found, he, hfit, hnone⟩ := ih (i + 1) (by omega)
        refine ⟨found, he, hfit, fun hf j b s hj hb hbs => ?_⟩
        by_cases hij : j = i
        · subst hij
          rw [hi] at hb
          cases hb
          rw [hs] at hbs
          cases hbs
          omega
        · exact hnone hf j b s (by omega) hb hbs

/-- The bin of `count` is searched to its end: a run is found if one of that bin fits. -/
theorem firstFit?_eq (hl : t.Listed t.freeSize?) (count bin : Nat) :
    ∃ found, t.firstFit? count t.size (t.binHead bin) = some found ∧
      (∀ b ∈ found, ∃ s, t.freeSize? b = some s ∧ count ≤ s ∧ s.log2 = bin) ∧
      (found = none → ∀ b s, t.freeSize? b = some s → s.log2 = bin → s < count) := by
  obtain ⟨members, c, hm⟩ := hl.threads bin
  have hfree (b : Nat) (hb : b ∈ members) : ∃ s, t.freeSize? b = some s := by
    obtain ⟨s, hs, -⟩ := Option.map_eq_some_iff.1 ((hm b).1 hb)
    exact ⟨s, hs⟩
  have hlen : members.length ≤ t.size := by
    have hsub : members ⊆ List.range t.size := fun b hb => by
      obtain ⟨s, hs⟩ := hfree b hb
      exact List.mem_range.2 (hl.lt_size hs)
    simpa using c.nodup.length_le_of_subset hsub
  obtain ⟨found, he, hfit, hnone⟩ := firstFit?_of_chained c hfree t.size 0 (by omega)
  refine ⟨found, by rw [c.head_eq]; exact he, fun b hb => ?_, fun hf b s hs hlog => ?_⟩
  · obtain ⟨hmem, s, hs, hle⟩ := hfit b hb
    have hhome : (t.freeSize? b).map Nat.log2 = some bin := (hm b).1 hmem
    rw [hs, Option.map_some, Option.some.injEq] at hhome
    exact ⟨s, hs, hle, hhome⟩
  · obtain ⟨j, hj⟩ := List.mem_iff_getElem?.1 ((hm b).2 (by simp [hs, hlog]))
    exact hnone hf j b s (Nat.zero_le _) hj hs

/-- What is found in a list of heads is the first of them. -/
theorem findSome?_join (heads : List (Option Nat)) :
    (∀ b : Nat, heads.findSome? id = some b →
      ∃ i : Nat, heads[i]?.join = some b ∧ ∀ j, j < i → heads[j]?.join = none) ∧
      (heads.findSome? id = none → ∀ i : Nat, heads[i]?.join = none) := by
  induction heads with
  | nil => exact ⟨fun b hb => (nomatch hb), fun _ i => rfl⟩
  | cons head rest ih =>
    obtain ⟨hsome, hnone⟩ := ih
    cases head with
    | some b =>
      refine ⟨fun b' hb => ⟨0, hb, fun j hj => absurd hj (Nat.not_lt_zero j)⟩, fun hn => ?_⟩
      cases hn
    | none =>
      refine ⟨fun b hb => ?_, fun hn i => ?_⟩
      · obtain ⟨i, hi, hbefore⟩ := hsome b hb
        refine ⟨i + 1, hi, fun j hj => ?_⟩
        cases j with
        | zero => rfl
        | succ j => exact hbefore j (by omega)
      · cases i with
        | zero => rfl
        | succ i => exact hnone hn i

/-- The first run of the first later bin that is not empty is found, if there is any. -/
theorem firstBehind_eq (hl : t.Listed t.freeSize?) (bin : Nat) :
    (∀ b, t.firstBehind bin = some b → ∃ s, t.freeSize? b = some s ∧ bin < s.log2 ∧
        ∀ b' s', t.freeSize? b' = some s' → bin < s'.log2 → s.log2 ≤ s'.log2) ∧
      (t.firstBehind bin = none → ∀ b s, t.freeSize? b = some s → s.log2 ≤ bin) := by
  have hdrop (i : Nat) : (t.bins.toList.drop (bin + 1))[i]?.join = t.binHead (bin + 1 + i) := by
    rw [List.getElem?_drop, binHead, Array.getElem?_toList]
  obtain ⟨hsome, hnone⟩ := findSome?_join (t.bins.toList.drop (bin + 1))
  -- a later bin without a head lists no run
  have hempty {b s : Nat} (hs : t.freeSize? b = some s) (hlt : bin < s.log2) :
      (t.bins.toList.drop (bin + 1))[s.log2 - (bin + 1)]?.join ≠ none := by
    rw [hdrop, show bin + 1 + (s.log2 - (bin + 1)) = s.log2 by omega]
    exact fun hn => hl.threads.head_eq_none_iff.1 hn b (by rw [hs]; rfl)
  constructor
  · intro b hb
    obtain ⟨i, hi, hbefore⟩ := hsome b hb
    rw [hdrop] at hi
    obtain ⟨s, hs, hlog⟩ := hl.exists_of_binHead hi
    refine ⟨s, hs, by omega, fun b' s' hs' hlt => Nat.le_of_not_lt fun hless => ?_⟩
    exact hempty hs' hlt (hbefore _ (by omega))
  · intro hn b s hs
    exact Nat.le_of_not_lt fun hlt => hempty hs hlt (hnone hn _)

/-- A run of a later bin is longer. -/
theorem lt_of_log2_lt {a b : Nat} (h : a.log2 < b.log2) : a < b := by
  have hb : b ≠ 0 := by rintro rfl; simp at h
  exact Nat.lt_of_lt_of_le Nat.lt_log2_self
    (Nat.le_trans (Nat.pow_le_pow_right (by omega) (by omega : a.log2 + 1 ≤ b.log2))
      (Nat.log2_self_le hb))

theorem log2_mono {a b : Nat} (h : a ≤ b) : a.log2 ≤ b.log2 :=
  Nat.le_of_not_lt fun hlt => absurd (lt_of_log2_lt hlt) (by omega)

/-- The search of the bins finds a run that is long enough whenever there is one, and no lower bin
holds one. -/
theorem fits_of_search (hl : t.Listed t.freeSize?) (count : Nat) :
    ∃ found, t.firstFit? count t.size (t.binHead count.log2) = some found ∧
      (∀ b, (found.orElse fun _ => t.firstBehind count.log2) = some b →
        ∃ s, t.freeSize? b = some s ∧ count ≤ s ∧
          ∀ b' s', t.freeSize? b' = some s' → count ≤ s' → s.log2 ≤ s'.log2) ∧
      ((found.orElse fun _ => t.firstBehind count.log2) = none →
        ∀ b s, t.freeSize? b = some s → s < count) := by
  obtain ⟨found, he, hfit, hnone⟩ := firstFit?_eq hl count count.log2
  obtain ⟨hsome', hnone'⟩ := firstBehind_eq hl count.log2
  refine ⟨found, he, fun b hb => ?_, fun hn b s hs => ?_⟩
  · cases found with
    | some b' =>
      cases hb
      obtain ⟨s, hs, hle, hlog⟩ := hfit b rfl
      exact ⟨s, hs, hle, fun _ _ _ hle' => by rw [hlog]; exact log2_mono hle'⟩
    | none =>
      obtain ⟨s, hs, hlt, hfirst⟩ := hsome' b hb
      refine ⟨s, hs, Nat.le_of_lt (lt_of_log2_lt hlt), fun b' s' hs' hle' => hfirst b' s' hs' ?_⟩
      -- no run of the bin of `count` itself is long enough
      refine Nat.lt_of_le_of_ne (log2_mono hle') fun hlog => ?_
      exact absurd (hnone rfl b' s' hs' hlog.symm) (by omega)
  · cases found with
    | some b' => cases hn
    | none =>
      refine Nat.lt_of_not_le fun hle => ?_
      have hlog : s.log2 = count.log2 := Nat.le_antisymm (hnone' hn b s hs) (log2_mono hle)
      exact absurd (hnone rfl b s hs hlog) (by omega)

/-! ## Taking blocks from a free run -/

/-- All but the lower blocks of a gap become free again. -/
theorem Gap.keepLower {size : Nat} (g : t.Gap l size r) (count : Nat) (hle : count ≤ size)
    (hclear : ∀ i, 0 < i → i + 1 < size → t.bare? (Run.total l + i) = some .freeBody) :
    ∃ t', (if count < size then t.enlist? (Run.total l + count) (size - count) else some t) =
        some t' ∧ t'.Gap l count (Run.rest size count r) ∧
      ∀ y, y < Run.total l + count ∨ Run.total l + size ≤ y → t'.bare? y = t.bare? y := by
  unfold Run.rest
  by_cases hc : count < size
  · rw [if_pos hc, if_pos hc]
    exact g.enlist count hc fun i h0 hi => hclear i (by omega) hi
  · rw [if_neg hc, if_neg hc]
    rw [show size = count by omega] at g
    exact ⟨t, rfl, g, fun _ _ => rfl⟩

/-- What is in use after a busy run was written that ends in a free run: the blocks of the busy run,
and all that was in use elsewhere. -/
theorem inUse?_of_taken {head taken size : Nat} (hrun : Spells t.bare? head (.free size :: r))
    (hlo : Run.total l ≤ head) (hend : head + taken = Run.total l + count) (hle : taken ≤ size)
    (g : t'.Gap (l ++ [.busy count]) 0 (Run.rest size taken r))
    (hbare : ∀ y, ¬(Run.total l ≤ y ∧ y < Run.total l + count) → ¬(head ≤ y ∧ y < head + size) →
      t'.bare? y = t.bare? y) (y : Nat) :
    t'.inUse? y = if Run.total l ≤ y ∧ y < Run.total l + count
      then some ((Run.busy count).entry (Run.total l) (y - Run.total l)) else t.inUse? y := by
  by_cases hin : Run.total l ≤ y ∧ y < Run.total l + count
  · rw [if_pos hin, inUse?_eq_bare]
    obtain ⟨-, hbusy⟩ := Spells.append.1 g.before
    have := hbusy.2.1 (y - Run.total l) (by simp only [Run.length]; omega)
    rw [show 0 + Run.total l + (y - Run.total l) = y by omega, Nat.zero_add] at this
    rw [this, Option.filter_some, isFree_entry]
    rfl
  · rw [if_neg hin]
    by_cases hfree : head ≤ y ∧ y < head + size
    · -- a block of the free run that is left
      have hrest : Spells t'.bare? (Run.total l + count) (Run.rest size taken r) := by
        simpa [Run.length] using g.behind
      have := inUse?_of_freeStart y hrest (by omega) (by
        unfold Run.rest
        rw [if_pos (by omega), Run.freeStart]
        omega)
      rw [this]
      exact (inUse?_of_freeStart y hrun hfree.1 hfree.2).symm
    · exact inUse?_congr (hbare y hin hfree)

/-- The lower blocks of a free run become a busy run. -/
theorem split?_eq {size : Nat} (h : t.LaidOut (l ++ .free size :: r)) (hpos : 0 < count)
    (hle : count ≤ size) :
    ∃ t', t.split? (Run.total l) count = some t' ∧
      t'.LaidOut (l ++ .busy count :: Run.rest size count r) ∧
      ∀ y, t'.inUse? y = if Run.total l ≤ y ∧ y < Run.total l + count
        then some ((Run.busy count).entry (Run.total l) (y - Run.total l)) else t.inUse? y := by
  have hrun : Spells t.bare? (Run.total l) (.free size :: r) := by
    simpa using (Spells.append.1 h.spells).2
  obtain ⟨t₁, hd, g₁, hr⟩ := h.gap_zero.delist_behind
  rw [Nat.zero_add] at g₁
  rw [Nat.add_zero] at hd
  obtain ⟨t₂, e₂, g₂, bare₂⟩ := g₁.keepLower count hle fun i h0 hi => by
    rw [hr.bare?_eq, hrun.2.1 i (by simp only [Run.length]; omega)]
    simp only [Run.entry]
    rw [if_neg (by omega), if_neg (by omega)]
  obtain ⟨t₃, e₃, g₃, bare₃⟩ := g₂.writeRun hpos
  obtain ⟨hl, hr', -⟩ := Run.apart_append.1 h.apart
  have hl := g₃.laidOut (hl.rest hr' count rfl)
  have hcons : l ++ .busy count :: Run.rest size count r =
      (l ++ [.busy count]) ++ Run.rest size count r := by simp
  refine ⟨t₃, ?_, hcons ▸ hl, fun y => ?_⟩
  · rw [split?]
    simp only [hd, Option.bind_eq_bind, Option.bind_some]
    by_cases hc : count < size
    · rw [if_pos hc] at e₂ ⊢
      rw [e₂]
      exact e₃
    · rw [if_neg hc] at e₂ ⊢
      cases e₂
      exact e₃
  · exact inUse?_of_taken hrun (Nat.le_refl _) rfl hle g₃ (fun y hin hfree => by
      rw [bare₃ y hin, bare₂ y (by omega), hr.bare?_eq]) y

/-- Blocks are taken from a free run that is long enough, in the lowest bin that holds one, and
refused only where there is none. -/
theorem claim?_eq {runs : List Run} (h : t.LaidOut runs) (hpos : 0 < count) :
    (t.claim? count = some (none, t) ∧ ∀ b s, t.freeSize? b = some s → s < count) ∨
      ∃ l size r t', runs = l ++ .free size :: r ∧ count ≤ size ∧
        (∀ b s, t.freeSize? b = some s → count ≤ s → size.log2 ≤ s.log2) ∧
        t.claim? count = some (some (Run.total l), t') ∧
        t'.LaidOut (l ++ .busy count :: Run.rest size count r) ∧
        ∀ y, t'.inUse? y = if Run.total l ≤ y ∧ y < Run.total l + count
          then some ((Run.busy count).entry (Run.total l) (y - Run.total l)) else t.inUse? y := by
  obtain ⟨found, he, hsome, hnone⟩ := fits_of_search h.listed count
  cases hf : found.orElse fun _ => t.firstBehind count.log2 with
  | none =>
    refine .inl ⟨?_, hnone hf⟩
    rw [claim?, bin?_eq hpos]
    simp only [he, Option.bind_eq_bind, Option.bind_some, hf]
  | some block =>
    obtain ⟨size, hs, hle, hlowest⟩ := hsome block hf
    obtain ⟨l, r, rfl, rfl⟩ := h.locate_free hs
    obtain ⟨t', hsplit, hl, hu⟩ := split?_eq h hpos hle
    refine .inr ⟨l, size, r, t', rfl, hle, hlowest, ?_, hl, hu⟩
    rw [claim?, bin?_eq hpos]
    simp only [he, Option.bind_eq_bind, Option.bind_some, hf, hsplit, Option.map_some]

/-! ## Lengthening a busy run -/

/-- The size of the free run that starts behind a layout. -/
theorem freeSize?_behind (h : t.LaidOut (l ++ r)) :
    (t.freeSize? (Run.total l)).getD 0 = Run.freeStart r := by
  rw [freeSize?_eq_bind]
  cases r with
  | nil =>
    have := h.size_eq
    rw [List.append_nil] at this
    rw [bare?_eq_none (by omega)]
    rfl
  | cons run r =>
    have hfirst := h.spells.first_eq
    rw [Nat.zero_add] at hfirst
    rw [hfirst]
    cases run <;> rfl

theorem lengthen?_unfold (t : BlockTable) (head length want : Nat) :
    t.lengthen? head length want =
      (Size.add? head length).bind fun next => (Size.sub? want length).bind fun extra =>
        if (t.freeSize? next).getD 0 < extra then some (false, t)
        else (t.delist? next).bind fun (size, t) =>
          (if extra < size then t.enlist? (next + extra) (size - extra) else some t).bind fun t =>
            (t.writeRun? head want).map (true, ·) := by
  rw [lengthen?]
  cases Size.add? head length with
  | none => rfl
  | some next =>
    cases Size.sub? want length with
    | none => rfl
    | some extra =>
      simp only [Option.bind_eq_bind, Option.bind_some, freeSize?, Option.map_eq_bind]
      refine ite_congr ?_ (fun _ => rfl) fun _ => congrArg _ (funext fun p => ?_)
      · cases t.get? next with
        | none => rfl
        | some e => cases e <;> rfl
      · obtain ⟨size, t⟩ := p
        dsimp only
        split <;> rfl

/-- What starts no free run is on no bin to be taken off. -/
theorem delist?_eq_none {head : Nat} (h : t.freeSize? head = none) : t.delist? head = none := by
  rw [delist?]
  rw [freeSize?] at h
  cases hg : t.get? head with
  | none => rfl
  | some e =>
    rw [hg, Option.bind_some] at h
    cases e <;> first | rfl | cases h

/-- A busy run takes blocks from the free run behind it, and stays as it is if there are not
enough. It may ask for no more than it has if there is a free run behind it. -/
theorem lengthen?_eq {run : Run} {want : Nat} (h : t.LaidOut (l ++ run :: r))
    (hf : run.isFree = false) (hle : run.length ≤ want)
    (hmore : run.length < want ∨ 0 < Run.freeStart r) :
    (t.lengthen? (Run.total l) run.length want = some (false, t) ∧
        Run.freeStart r < want - run.length) ∨
      ∃ t', t.lengthen? (Run.total l) run.length want = some (true, t') ∧
        want - run.length ≤ Run.freeStart r ∧
        t'.LaidOut (l ++ .busy want :: Run.rest (Run.freeStart r) (want - run.length)
          (Run.trimStart r)) ∧
        ∀ y, t'.inUse? y = if Run.total l ≤ y ∧ y < Run.total l + want
          then some ((Run.busy want).entry (Run.total l) (y - Run.total l)) else t.inUse? y := by
  have hcons (r : List Run) : l ++ run :: r = (l ++ [run]) ++ r := by simp
  have htotal : Run.total (l ++ [run]) = Run.total l + run.length := by simp
  have hsmall : Run.total l + run.length < Size.limit := by
    have hs := h.size_eq
    have := h.small
    rw [Run.total_append, Run.total_cons] at hs
    omega
  have hadd : Size.add? (Run.total l) run.length = some (Run.total l + run.length) :=
    Size.add?_eq_some_iff.2 ⟨hsmall, rfl⟩
  have hsub : Size.sub? want run.length = some (want - run.length) :=
    Size.sub?_eq_some_iff.2 ⟨hle, rfl⟩
  have hpos : 0 < run.length := h.spells.length_pos (by simp)
  rw [hcons] at h
  have havail := freeSize?_behind h
  rw [htotal] at havail
  rw [lengthen?_unfold, hadd, hsub, Option.bind_some, Option.bind_some, havail]
  by_cases hfew : Run.freeStart r < want - run.length
  · exact .inl ⟨if_pos hfew, hfew⟩
  · rw [if_neg hfew]
    right
    rcases Run.start_cases r with ⟨r', size, rfl, h₁, h₂⟩ | ⟨-, -, h₂⟩
    · rw [h₂] at hfew
      rw [h₁, h₂]
      have hrun : Spells t.bare? (Run.total l + run.length) (.free size :: r') := by
        simpa using (Spells.append.1 h.spells).2
      obtain ⟨t₁, hd, g₁, hr⟩ := h.gap_zero.delist_behind
      rw [Nat.zero_add] at g₁
      rw [Nat.add_zero, htotal] at hd
      obtain ⟨t₂, e₂, g₂, bare₂⟩ := g₁.keepLower (want - run.length) (by omega)
        fun i h0 hi => by
          rw [htotal, hr.bare?_eq, hrun.2.1 i (by simp only [Run.length]; omega)]
          simp only [Run.entry]
          rw [if_neg (by omega), if_neg (by omega)]
      rw [htotal] at e₂ bare₂
      have g₂' := g₂.absorb hf
      rw [show run.length + (want - run.length) = want by omega] at g₂'
      obtain ⟨t₃, e₃, g₃, bare₃⟩ := g₂'.writeRun (by omega)
      obtain ⟨hl, hr', -⟩ := Run.apart_append.1 h.apart
      have hl := g₃.laidOut ((Run.apart_append.1 hl).1.rest hr' (want - run.length) rfl)
      have hcons' : l ++ .busy want :: Run.rest size (want - run.length) r' =
          (l ++ [.busy want]) ++ Run.rest size (want - run.length) r' := by simp
      refine ⟨t₃, ?_, by omega, hcons' ▸ hl, fun y => ?_⟩
      · simp only [hd, Option.bind_some, e₂, e₃, Option.map_some]
      · exact inUse?_of_taken hrun (by omega) (by omega) (by omega) g₃ (fun y hin hfree => by
          rw [bare₃ y hin, bare₂ y (by omega), hr.bare?_eq]) y
    · omega

/-! ## One busy block -/

/-- The entry of a busy block by itself becomes that of a fragmented block. -/
theorem setBusy?_eq {run : Run} (log2 nfree : Nat) (h : t.LaidOut (l ++ run :: r))
    (hlen : run.length = 1) (hf : run.isFree = false) :
    ∃ t', t.setBusy? (Run.total l) (.fragmented log2 nfree) = some t' ∧
      t'.LaidOut (l ++ .cut log2 nfree :: r) ∧
      ∀ y, t'.inUse? y =
        if y = Run.total l then some (.fragmented log2 nfree) else t.inUse? y := by
  have hcons (run : Run) : l ++ run :: r = (l ++ [run]) ++ r := by simp
  rw [hcons] at h ⊢
  have g := h.gap_zero.absorb hf
  rw [hlen] at g
  obtain ⟨t', ht, g', hbare⟩ := g.set (Run.total l) (by omega) (by omega)
    (.fragmented log2 nfree)
  have g'' : t'.Gap (l ++ [.cut log2 nfree]) 0 r := by
    refine Gap.yield (.cut log2 nfree) g' rfl (Spells.singleton Nat.one_pos fun i hi => ?_)
    rw [Run.length] at hi
    rw [hbare, if_pos (by omega)]
    rfl
  obtain ⟨hl, hr, -⟩ := Run.apart_append.1 h.apart
  refine ⟨t', by rw [setBusy?, if_neg (by simp [Entry.isFree])]; exact ht,
    g''.laidOut (Run.apart_append.2 ⟨Run.apart_append.2 ⟨(Run.apart_append.1 hl).1,
      Run.apart_singleton _, by simp [Run.isFree]⟩, hr, by simp [Run.isFree]⟩), fun y => ?_⟩
  by_cases hy : y = Run.total l
  · rw [if_pos hy, inUse?_eq_bare, hbare, if_pos hy]
    rfl
  · rw [if_neg hy]
    exact inUse?_congr (by rw [hbare, if_neg hy])

end BlockTable

end RegionHeap
