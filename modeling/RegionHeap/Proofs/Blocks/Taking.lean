import RegionHeap.Proofs.Blocks.Refinement

/-!
Taking blocks, run by run and bin by bin. `RunAt` says which run starts at a block, and `InBin` what a
bin leads to from one free run to the next. Blocks are taken from a free run of the lowest bin that
holds one of enough blocks, if there is any (`claim_lowest_bin`); a busy run is lengthened into the
free run behind it, if that is long enough (`lengthen_or_unchanged`). Either way a busy run and the
rest of the free run stand where the free run stood, and every other run keeps its place and its bin.
-/
namespace RegionHeap

namespace Run

variable {block start : Nat} {run : Run} {runs : List Run}

theorem starts_append (l r : List Run) :
    starts block (l ++ r) = starts block l ++ starts (block + total l) r := by
  induction l generalizing block with
  | nil => simp [starts]
  | cons a l ih => rw [List.cons_append, starts, ih, starts, total_cons, Nat.add_assoc]; rfl

theorem mem_starts_cons {r : Run} {rest : List Run} :
    (start, run.first) ∈ starts block (r :: rest) ↔
      start = block ∧ run = r ∨ (start, run.first) ∈ starts (block + r.length) rest := by
  rw [starts, List.mem_cons, Prod.mk.injEq]
  refine or_congr_left (and_congr_right fun _ => ⟨first_inj, congrArg first⟩)

theorem bounds_of_mem_starts (h : (start, run.first) ∈ starts block runs) :
    block ≤ start ∧ start + run.length ≤ block + total runs := by
  induction runs generalizing block with
  | nil => cases h
  | cons r rest ih =>
    rw [total_cons]
    rcases mem_starts_cons.1 h with ⟨rfl, rfl⟩ | h
    · exact ⟨Nat.le_refl _, by omega⟩
    · have := ih h
      omega

end Run

theorem Spells.entries_of_mem_starts {f : Nat → Option Entry} {block start : Nat} {run : Run}
    {runs : List Run} (h : Spells f block runs) (hm : (start, run.first) ∈ Run.starts block runs) :
    0 < run.length ∧ ∀ i, i < run.length → f (start + i) = some (run.entry start i) := by
  induction runs generalizing block with
  | nil => cases hm
  | cons r rest ih =>
    obtain ⟨hpos, hr, hrest⟩ := h
    rcases Run.mem_starts_cons.1 hm with ⟨rfl, rfl⟩ | hm
    · exact ⟨hpos, hr⟩
    · exact ih hrest hm

namespace BlockTable

/-- The entries from a block on are those of a run, but for list links. -/
structure RunAt (t : BlockTable) (start : Nat) (run : Run) : Prop where
  pos : 0 < run.length
  entries : ∀ i, i < run.length → t.bare? (start + i) = some (run.entry start i)

/-- What a bin leads to, from its first free run to the next and on. -/
inductive InBin (t : BlockTable) (bin : Nat) : Nat → Prop where
  | head {block : Nat} (first : t.binHead bin = some block) : InBin t bin block
  | next {block next : Nat} (before : InBin t bin block) (link : t.next block = some next) :
    InBin t bin next

variable {t t' : BlockTable} {l r runs : List Run} {run : Run} {start bin block size : Nat}

/-! ## Runs and bins of a table in order -/

theorem RunAt.first_eq (h : t.RunAt start run) : t.bare? start = some run.first := by
  have := h.entries 0 h.pos
  rwa [Run.entry_zero] at this

theorem Tiled.locate_runAt (h : t.Tiled runs) (hr : t.RunAt start run) :
    ∃ l r, runs = l ++ run :: r ∧ start = Run.total l := by
  have hlt := lt_size_of_bare? hr.first_eq
  have hsize := h.size_eq
  obtain ⟨l, run', r, rfl, hstart, he⟩ :=
    h.spells.locate_first (Nat.zero_le _) (by omega) hr.first_eq run.isInner_first
  rw [Run.first_inj he, hstart, Nat.zero_add]
  exact ⟨l, r, rfl, rfl⟩

/-- A run of the table is one of its layout. -/
theorem Tiled.runAt_iff (h : t.Tiled runs) :
    t.RunAt start run ↔ (start, run.first) ∈ Run.starts 0 runs := by
  constructor
  · intro hr
    obtain ⟨l, r, rfl, rfl⟩ := h.locate_runAt hr
    rw [Run.starts_append, List.mem_append, Run.mem_starts_cons, Nat.zero_add]
    exact .inr (.inl ⟨rfl, rfl⟩)
  · intro hm
    obtain ⟨hpos, hentries⟩ := h.spells.entries_of_mem_starts hm
    exact ⟨hpos, hentries⟩

theorem LaidOut.freeSize?_eq_some_iff (h : t.LaidOut runs) :
    t.freeSize? block = some size ↔ t.RunAt block (.free size) := by
  constructor
  · intro hs
    obtain ⟨l, r, rfl, rfl⟩ := h.locate_free hs
    rw [h.runAt_iff, Run.starts_append, List.mem_append, Run.mem_starts_cons, Nat.zero_add]
    exact .inr (.inl ⟨rfl, rfl⟩)
  · exact fun hr => freeSize?_eq_some.2 hr.first_eq

/-- Each bin leads to the free runs of its sizes and to nothing else. -/
theorem LaidOut.inBin_iff (h : t.LaidOut runs) :
    t.InBin bin block ↔ ∃ size, t.RunAt block (.free size) ∧ size.log2 = bin := by
  obtain ⟨members, c, hm⟩ := h.listed.threads bin
  have hmem : t.InBin bin block ↔ block ∈ members := by
    constructor
    · intro hin
      induction hin with
      | head first => exact c.head_mem first
      | next _ link ih => exact c.next_mem ih link
    · intro hin
      obtain ⟨i, hi⟩ := List.mem_iff_getElem?.1 hin
      clear hin
      induction i generalizing block with
      | zero => exact .head (c.head_eq.trans hi)
      | succ i ih =>
        have hlt := (List.getElem?_eq_some_iff.1 hi).1
        have hbefore : members[i]? = some members[i] := List.getElem?_eq_getElem (by omega)
        exact .next (ih hbefore) ((c.next_eq i _ hbefore).trans hi)
  rw [hmem, hm, Option.map_eq_some_iff]
  exact exists_congr fun size => and_congr_left fun _ => h.freeSize?_eq_some_iff

/-! ## What taking blocks changes -/

/-- Of the free run of `size` blocks at `free`, the blocks below `head + count` have become part of
a busy run of `count` blocks from `head` on. The others are a free run, if there are any, and every
other run keeps its place and its bin. -/
structure Taken (t t' : BlockTable) (head count free size : Nat) : Prop where
  laidOut : ∃ runs, t'.LaidOut runs
  size_eq : t'.size = t.size
  runs : ∀ start run, t'.RunAt start run ↔
    start = head ∧ run = .busy count ∨
      (head + count < free + size ∧ start = head + count ∧
        run = .free (free + size - (head + count))) ∨
      (start ≠ head ∧ start ≠ free ∧ t.RunAt start run)
  bins : ∀ bin block, t'.InBin bin block ↔
    (head + count < free + size ∧ block = head + count ∧
        bin = (free + size - (head + count)).log2) ∨
      (block ≠ head ∧ block ≠ free ∧ t.InBin bin block)

/-- The runs before a place of the layout, the one that may stand at it and the ones behind. -/
theorem LaidOut.runAt_append (h : t.LaidOut (l ++ r)) :
    t.RunAt start run ↔
      (start, run.first) ∈ Run.starts 0 l ∨ (start, run.first) ∈ Run.starts (Run.total l) r := by
  rw [h.runAt_iff, Run.starts_append, List.mem_append, Nat.zero_add]

theorem Run.mem_starts_rest {block size used : Nat} :
    (start, run.first) ∈ Run.starts block (Run.rest size used r) ↔
      (used < size ∧ start = block ∧ run = .free (size - used)) ∨
        (start, run.first) ∈ Run.starts (block + (size - used)) r := by
  unfold Run.rest
  by_cases hu : used < size
  · rw [if_pos hu, Run.mem_starts_cons, Run.length]
    simp [hu]
  · rw [if_neg hu, show size - used = 0 by omega]
    simp [hu]

/-- But for a free run and one that may stand right before it, the runs of a layout lie before the
two or behind them. -/
theorem LaidOut.runAt_others {old : Option Run}
    (h : t.LaidOut (l ++ (old.toList ++ .free size :: r))) :
    (start ≠ Run.total l ∧ start ≠ Run.total l + Run.total old.toList ∧ t.RunAt start run) ↔
      (start, run.first) ∈ Run.starts 0 l ∨
        (start, run.first) ∈ Run.starts (Run.total l + Run.total old.toList + size) r := by
  have hsize : 0 < size := h.spells.length_pos (r := .free size) (by simp)
  constructor
  · intro ⟨hhead, hfree, hr⟩
    rw [h.runAt_append, Run.starts_append, List.mem_append, Run.mem_starts_cons] at hr
    rcases hr with hm | hm | ⟨heq, -⟩ | hm
    · exact .inl hm
    · cases old with
      | none => cases hm
      | some run' =>
        rw [Option.toList_some, Run.mem_starts_cons] at hm
        rcases hm with ⟨heq, -⟩ | hm
        · exact absurd heq hhead
        · cases hm
    · exact absurd heq hfree
    · exact .inr hm
  · intro hm
    have hr : t.RunAt start run := by
      rw [h.runAt_append, Run.starts_append, List.mem_append, Run.mem_starts_cons]
      exact hm.imp_right fun hm => .inr (.inr hm)
    have hpos := hr.pos
    rcases hm with hm | hm
    · have hend := (Run.bounds_of_mem_starts hm).2
      exact ⟨by omega, by omega, hr⟩
    · have hle := (Run.bounds_of_mem_starts hm).1
      exact ⟨by omega, by omega, hr⟩

/-- The lower `used` blocks of a free run have gone to a busy run, which is new or stood right before
them. -/
theorem LaidOut.taken (old : Option Run) (used : Nat)
    (h : t.LaidOut (l ++ (old.toList ++ .free size :: r)))
    (h' : t'.LaidOut (l ++ .busy (Run.total old.toList + used) :: Run.rest size used r))
    (hused : used ≤ size) :
    t.Taken t' (Run.total l) (Run.total old.toList + used) (Run.total l + Run.total old.toList)
      size := by
  have hruns (start : Nat) (run : Run) : t'.RunAt start run ↔
      start = Run.total l ∧ run = .busy (Run.total old.toList + used) ∨
        (Run.total l + (Run.total old.toList + used) < Run.total l + Run.total old.toList + size ∧
          start = Run.total l + (Run.total old.toList + used) ∧
          run = .free (Run.total l + Run.total old.toList + size -
            (Run.total l + (Run.total old.toList + used)))) ∨
        (start ≠ Run.total l ∧ start ≠ Run.total l + Run.total old.toList ∧
          t.RunAt start run) := by
    rw [h.runAt_others, h'.runAt_append, Run.mem_starts_cons, Run.mem_starts_rest, Run.length,
      show Run.total l + (Run.total old.toList + used) + (size - used) =
        Run.total l + Run.total old.toList + size by omega,
      show Run.total l + Run.total old.toList + size - (Run.total l + (Run.total old.toList + used)) =
        size - used by omega,
      show Run.total l + (Run.total old.toList + used) < Run.total l + Run.total old.toList + size ↔
        used < size by omega, or_left_comm]
    exact or_congr_right or_left_comm
  refine ⟨⟨_, h'⟩, ?_, hruns, fun bin block => ?_⟩
  · have hsize := h.size_eq
    have hsize' := h'.size_eq
    have hrest := Run.total_rest hused r
    simp only [Run.total_append, Run.total_cons, Run.length] at hsize hsize'
    omega
  · simp only [h'.inBin_iff, h.inBin_iff, hruns]
    constructor
    · intro hin
      obtain ⟨size', hr, hbin⟩ := hin
      rcases hr with ⟨-, hr⟩ | ⟨hlt, hblock, hr⟩ | ⟨hhead, hfree, hr⟩
      · cases hr
      · cases hr
        exact .inl ⟨hlt, hblock, hbin.symm⟩
      · exact .inr ⟨hhead, hfree, size', hr, hbin⟩
    · intro hin
      rcases hin with ⟨hlt, hblock, hbin⟩ | ⟨hhead, hfree, size', hr, hbin⟩
      · exact ⟨_, .inr (.inl ⟨hlt, hblock, rfl⟩), hbin.symm⟩
      · exact ⟨size', .inr (.inr ⟨hhead, hfree, hr⟩), hbin⟩

/-! ## Taking blocks from the lowest bin that has enough -/

/-- Blocks are refused, and the table left as it is, just if every free run is too short. Otherwise
they are the first of a free run that is long enough, and no lower bin holds such a run. -/
theorem claim_lowest_bin (h : t.LaidOut runs) {count : Nat} (hpos : 0 < count) :
    (t.claim? count = some (none, t) ↔
        ∀ block size, t.RunAt block (.free size) → size < count) ∧
      ((∃ block size, t.RunAt block (.free size) ∧ count ≤ size) →
        ∃ head size t', t.claim? count = some (some head, t') ∧
          t.RunAt head (.free size) ∧ count ≤ size ∧ t.InBin size.log2 head ∧
          (∀ bin block size', t.InBin bin block → t.RunAt block (.free size') → count ≤ size' →
            size.log2 ≤ bin) ∧
          t.Taken t' head count head size) := by
  rcases claim?_eq h hpos with ⟨he, hshort⟩ |
    ⟨l, size, r, t', rfl, hle, hlowest, he, hl, -⟩
  · have hnone (block size : Nat) (hr : t.RunAt block (.free size)) : size < count :=
      hshort block size (h.freeSize?_eq_some_iff.2 hr)
    refine ⟨⟨fun _ => hnone, fun _ => he⟩, fun ⟨block, size, hr, hle⟩ => ?_⟩
    exact absurd (hnone block size hr) (by omega)
  · have hr : t.RunAt (Run.total l) (.free size) :=
      h.runAt_append.2 (.inr (Run.mem_starts_cons.2 (.inl ⟨rfl, rfl⟩)))
    have htaken := LaidOut.taken none count (by simpa using h) (by simpa using hl) hle
    simp only [Option.toList_none, Run.total_nil, Nat.zero_add, Nat.add_zero] at htaken
    constructor
    · rw [he]
      refine ⟨fun hn => (nomatch hn), fun hn => ?_⟩
      exact absurd (hn _ _ hr) (by omega)
    · intro _
      refine ⟨Run.total l, size, t', he, hr, hle, h.inBin_iff.2 ⟨size, hr, rfl⟩,
        fun bin block size' hin hr' hle' => ?_, htaken⟩
      obtain ⟨size'', hr'', hbin⟩ := h.inBin_iff.1 hin
      have heq := h.freeSize?_eq_some_iff.2 hr'
      rw [h.freeSize?_eq_some_iff.2 hr''] at heq
      cases heq
      rw [← hbin]
      exact hlowest block _ (h.freeSize?_eq_some_iff.2 hr'') hle'

/-- The bin of three blocks leads to a run of two blocks and then to one of three. The run of three
is taken, although the next bin has a longer one. -/
theorem claim_lowest_bin_small :
    ∃ t t', empty.after? [.append 12, .claim 3, .claim 1, .claim 2, .claim 1, .giveBack 0 3,
        .giveBack 4 2] = some t ∧
      t.binHead 1 = some 4 ∧ t.freeSize? 4 = some 2 ∧ t.next 4 = some 0 ∧
      t.binHead 2 = some 7 ∧ t.freeSize? 7 = some 5 ∧
      t.claim? 3 = some (some 0, t') ∧ t.Taken t' 0 3 0 3 := by
  obtain ⟨t, t', ht, hrest, hs, hc⟩ : ∃ t t',
      empty.after? [.append 12, .claim 3, .claim 1, .claim 2, .claim 1, .giveBack 0 3,
        .giveBack 4 2] = some t ∧
      (t.binHead 1 = some 4 ∧ t.freeSize? 4 = some 2 ∧ t.next 4 = some 0 ∧
        t.binHead 2 = some 7 ∧ t.freeSize? 7 = some 5) ∧
      t.freeSize? 0 = some 3 ∧ t.claim? 3 = some (some 0, t') := by
    exact ⟨_, _, rfl, ⟨rfl, rfl, rfl, rfl, rfl⟩, rfl, rfl⟩
  obtain ⟨runs, h⟩ := (Made.empty.after? ht).laidOut
  obtain ⟨head, size, t₁, he, hr, -, -, -, htaken⟩ :=
    (claim_lowest_bin h (by decide : 0 < 3)).2
      ⟨0, 3, h.freeSize?_eq_some_iff.1 hs, Nat.le_refl 3⟩
  rw [hc] at he
  cases he
  have heq := h.freeSize?_eq_some_iff.2 hr
  rw [hs] at heq
  cases heq
  obtain ⟨h₁, h₂, h₃, h₄, h₅⟩ := hrest
  exact ⟨t, t', ht, h₁, h₂, h₃, h₄, h₅, hc, htaken⟩

/-! ## Lengthening a busy run in place -/

/-- A free run behind the runs of a layout is the first of those that follow. -/
theorem LaidOut.runAt_behind (h : t.LaidOut (l ++ r)) :
    t.RunAt (Run.total l) (.free size) ↔ 0 < size ∧ Run.freeStart r = size := by
  have hs := freeSize?_behind h
  constructor
  · intro hr
    rw [h.freeSize?_eq_some_iff.2 hr] at hs
    exact ⟨hr.pos, hs.symm⟩
  · intro ⟨hpos, hr⟩
    rw [hr] at hs
    cases hb : t.freeSize? (Run.total l) with
    | none =>
      rw [hb, Option.getD_none] at hs
      omega
    | some size' =>
      rw [hb, Option.getD_some] at hs
      rw [← h.freeSize?_eq_some_iff, hb, hs]

/-- No more blocks than it has are asked for a run, and there is no free run behind it to take them
from. -/
theorem lengthen?_eq_none {head length : Nat} (h : t.freeSize? (head + length) = none) :
    t.lengthen? head length length = none := by
  rw [lengthen?_unfold]
  cases hadd : Size.add? head length with
  | none => rfl
  | some next =>
    obtain ⟨-, rfl⟩ := Size.add?_eq_some_iff.1 hadd
    have hsub : Size.sub? length length = some 0 :=
      Size.sub?_eq_some_iff.2 ⟨Nat.le_refl _, (Nat.sub_self _).symm⟩
    rw [hsub, Option.bind_some, Option.bind_some, if_neg (Nat.not_lt_zero _), delist?_eq_none h]
    rfl

/-- A busy run takes what it asks for from the free run behind it, if that is long enough, and
otherwise nothing changes. The one request that is not answered is that for no more blocks than the
run has when there is no free run behind it. -/
theorem lengthen_or_unchanged (h : t.LaidOut runs) {head want : Nat} (hr : t.RunAt head run)
    (hf : run.isFree = false) (hle : run.length ≤ want) :
    (∀ size, t.RunAt (head + run.length) (.free size) → want - run.length ≤ size →
        ∃ t', t.lengthen? head run.length want = some (true, t') ∧
          t.Taken t' head want (head + run.length) size) ∧
      (run.length < want →
        (∀ size, t.RunAt (head + run.length) (.free size) → size < want - run.length) →
        t.lengthen? head run.length want = some (false, t)) ∧
      (t.lengthen? head run.length want = none ↔
        want = run.length ∧ ∀ size, ¬ t.RunAt (head + run.length) (.free size)) := by
  obtain ⟨l, r, rfl, rfl⟩ := h.locate_runAt hr
  have hbehind {size : Nat} : t.RunAt (Run.total l + run.length) (.free size) ↔
      0 < size ∧ Run.freeStart r = size := by
    have h' : t.LaidOut ((l ++ [run]) ++ r) := by simpa using h
    have hiff : t.RunAt (Run.total (l ++ [run])) (.free size) ↔ _ := h'.runAt_behind
    simpa using hiff
  refine ⟨fun size hfree hfits => ?_, fun hlt hshort => ?_, fun hnone => ?_, fun ⟨heq, hno⟩ => ?_⟩
  · obtain ⟨hpos, hstart⟩ := hbehind.1 hfree
    rcases lengthen?_eq h hf hle (.inr (by omega)) with ⟨-, hfew⟩ | ⟨t', he, -, hl, -⟩
    · omega
    · rcases Run.start_cases r with ⟨r', size', rfl, htrim, hsize⟩ | ⟨-, -, hzero⟩
      · rw [hsize] at hstart
        subst hstart
        rw [htrim, hsize] at hl
        have hused : run.length + (want - run.length) = want := by omega
        have htaken := LaidOut.taken (some run) (want - run.length) h
          (by simpa [hused] using hl) hfits
        simp only [Option.toList_some, Run.total_cons, Run.total_nil, Nat.add_zero, hused]
          at htaken
        exact ⟨t', he, htaken⟩
      · omega
  · rcases lengthen?_eq h hf hle (.inl hlt) with ⟨he, -⟩ | ⟨t', -, hfits, -⟩
    · exact he
    · have hsome := hshort _ (hbehind.2 ⟨by omega, rfl⟩)
      omega
  · by_cases hmore : run.length < want ∨ 0 < Run.freeStart r
    · rcases lengthen?_eq h hf hle hmore with ⟨he, -⟩ | ⟨t', he, -⟩ <;> rw [hnone] at he <;> cases he
    · refine ⟨by omega, fun size hfree => ?_⟩
      have hpos := hbehind.1 hfree
      omega
  · subst heq
    apply lengthen?_eq_none
    cases hs : t.freeSize? (Run.total l + run.length) with
    | none => rfl
    | some size => exact absurd (h.freeSize?_eq_some_iff.1 hs) (hno size)

/-- Behind two runs of two blocks two are free. The second run takes one of them; the first finds
none, whether it asks for one or not. -/
theorem lengthen_or_unchanged_small :
    ∃ t, empty.after? [.append 6, .claim 2, .claim 2] = some t ∧
      (∃ t', t.lengthen? 2 2 3 = some (true, t') ∧ t.Taken t' 2 3 4 2) ∧
      t.lengthen? 0 2 3 = some (false, t) ∧ t.lengthen? 0 2 2 = none := by
  obtain ⟨t, ht, hfree, hnone, hbusy⟩ : ∃ t,
      empty.after? [.append 6, .claim 2, .claim 2] = some t ∧ t.freeSize? 4 = some 2 ∧
      t.freeSize? 2 = none ∧
      (t.bare? 0 = some (.run 2) ∧ t.bare? 1 = some (.runBody 1) ∧
        t.bare? 2 = some (.run 2) ∧ t.bare? 3 = some (.runBody 1)) := by
    exact ⟨_, rfl, rfl, rfl, rfl, rfl, rfl, rfl⟩
  obtain ⟨h₀, h₁, h₂, h₃⟩ := hbusy
  obtain ⟨runs, h⟩ := (Made.empty.after? ht).laidOut
  have hfirst : t.RunAt 0 (.busy 2) := ⟨by decide, fun i hi => by
    rcases (by simp only [Run.length] at hi; omega : i = 0 ∨ i = 1) with rfl | rfl
    · exact h₀
    · exact h₁⟩
  have hsecond : t.RunAt 2 (.busy 2) := ⟨by decide, fun i hi => by
    rcases (by simp only [Run.length] at hi; omega : i = 0 ∨ i = 1) with rfl | rfl
    · exact h₂
    · exact h₃⟩
  have hno (size : Nat) : ¬ t.RunAt 2 (.free size) := fun hr => by
    rw [h.freeSize?_eq_some_iff.2 hr] at hnone
    cases hnone
  obtain ⟨hlengthened, -, -⟩ :=
    lengthen_or_unchanged h hsecond rfl (by decide : Run.length (.busy 2) ≤ 3)
  obtain ⟨-, hunchanged, -⟩ :=
    lengthen_or_unchanged h hfirst rfl (by decide : Run.length (.busy 2) ≤ 3)
  obtain ⟨-, -, htrap⟩ :=
    lengthen_or_unchanged h hfirst rfl (by decide : Run.length (.busy 2) ≤ 2)
  refine ⟨t, ht, ?_, ?_, ?_⟩
  · exact hlengthened 2 (h.freeSize?_eq_some_iff.1 hfree) (by decide)
  · exact hunchanged (by decide) fun size hr => absurd hr (hno size)
  · exact htrap.2 ⟨rfl, hno⟩

end BlockTable

end RegionHeap
