import RegionHeap.Blocks.Defects
import RegionHeap.OrderedMap
import RegionHeap.Proofs.Blocks.Gaps

/-!
Walking over the runs of a block table. A walk trusts the lengths that it finds (`Steps`); over a
table in order it meets exactly the blocks that start a run (`Tiled.walk`), and the checks made
along the way find no defect (`LaidOut.defects?_eq`).
-/
namespace RegionHeap

/-- Following the lengths that the entries record from `block` on meets these entries and then
leaves the table. -/
def Steps (f : Nat → Option Entry) : (block : Nat) → List (Nat × Entry) → Prop
  | block, [] => f block = none
  | block, (b, e) :: rest => b = block ∧ f block = some e ∧ Steps f (block + e.step) rest

namespace Steps

variable {f : Nat → Option Entry} {block : Nat} {pairs : List (Nat × Entry)}

theorem get_eq (h : Steps f block pairs) {p : Nat × Entry} (hp : p ∈ pairs) :
    block ≤ p.1 ∧ f p.1 = some p.2 := by
  induction pairs generalizing block with
  | nil => cases hp
  | cons q rest ih =>
    obtain ⟨b, e⟩ := q
    obtain ⟨rfl, he, hrest⟩ := h
    rcases List.mem_cons.1 hp with rfl | hp
    · exact ⟨Nat.le_refl _, he⟩
    · obtain ⟨hle, hf⟩ := ih hrest hp
      exact ⟨by omega, hf⟩

/-- Each run starts where the one before it ends, or behind that. -/
theorem pairwise (h : Steps f block pairs) :
    pairs.Pairwise fun p q => p.1 + p.2.step ≤ q.1 := by
  induction pairs generalizing block with
  | nil => exact List.Pairwise.nil
  | cons q rest ih =>
    obtain ⟨b, e⟩ := q
    obtain ⟨rfl, -, hrest⟩ := h
    exact List.pairwise_cons.2 ⟨fun p hp => (hrest.get_eq hp).1, ih hrest⟩

/-- Of two runs that a walk meets one ends before the other starts. -/
theorem apart (h : Steps f block pairs) {p q : Nat × Entry} (hp : p ∈ pairs) (hq : q ∈ pairs) :
    p = q ∨ p.1 + p.2.step ≤ q.1 ∨ q.1 + q.2.step ≤ p.1 := by
  have hpair := h.pairwise
  clear h
  induction pairs with
  | nil => cases hp
  | cons a rest ih =>
    obtain ⟨hfirst, hrest⟩ := List.pairwise_cons.1 hpair
    rcases List.mem_cons.1 hp with hpa | hp <;> rcases List.mem_cons.1 hq with hqa | hq
    · exact .inl (hpa.trans hqa.symm)
    · exact .inr (.inl (hpa ▸ hfirst q hq))
    · exact .inr (.inr (hqa ▸ hfirst p hp))
    · exact ih hp hq hrest

theorem keysIncrease (h : Steps f block pairs) : KeysIncrease pairs :=
  h.pairwise.imp fun {p q} hpq => by
    have := p.2.one_le_step
    omega

end Steps

namespace BlockTable

theorem steps_of_runsFrom? {entries : Array Entry} {start : Nat} {pairs : List (Nat × Entry)}
    (h : runsFrom? entries start = some pairs) : Steps (fun b => entries[b]?) start pairs := by
  induction pairs generalizing start with
  | nil =>
    rw [runsFrom?] at h
    split at h
    · split at h
      · simp at h
      · cases h
    · exact Array.getElem?_eq_none (by omega)
  | cons q rest ih =>
    rw [runsFrom?] at h
    split at h
    · split at h
      · obtain ⟨rest', hrest, hq⟩ := Option.map_eq_some_iff.1 h
        cases hq
        exact ⟨rfl, Array.getElem?_eq_getElem _, ih hrest⟩
      · cases h
    · cases h

theorem runsFrom?_of_steps {entries : Array Entry} {start : Nat} {pairs : List (Nat × Entry)}
    (h : Steps (fun b => entries[b]?) start pairs)
    (hsmall : ∀ p ∈ pairs, p.1 + p.2.step < Size.limit) :
    runsFrom? entries start = some pairs := by
  induction pairs generalizing start with
  | nil =>
    rw [runsFrom?, dif_neg (Nat.not_lt.2 (Array.getElem?_eq_none_iff.1 h))]
  | cons q rest ih =>
    obtain ⟨b, e⟩ := q
    obtain ⟨rfl, he, hrest⟩ := h
    obtain ⟨hlt, rfl⟩ := Array.getElem?_eq_some_iff.1 he
    rw [runsFrom?, dif_pos hlt, if_pos (hsmall _ List.mem_cons_self),
      ih hrest fun p hp => hsmall p (List.mem_cons_of_mem _ hp)]
    rfl

variable {t : BlockTable} {runs : List Run}

theorem runs?_eq_some_iff_steps {pairs : List (Nat × Entry)}
    (hsmall : ∀ p ∈ pairs, p.1 + p.2.step < Size.limit) :
    t.runs? = some pairs ↔ Steps t.get? 0 pairs :=
  ⟨steps_of_runsFrom?, fun h => runsFrom?_of_steps h hsmall⟩

end BlockTable

/-- The first blocks of a layout and their entries. -/
def Run.starts (block : Nat) : List Run → List (Nat × Entry)
  | [] => []
  | r :: rest => (block, r.first) :: starts (block + r.length) rest

theorem Run.isInner_first (r : Run) : r.first.isInner = false := by cases r <;> rfl

theorem Run.step_first {r : Run} (h : 0 < r.length) : r.first.step = r.length := by
  cases r with
  | free size => exact Nat.max_eq_left h
  | busy length => exact Nat.max_eq_left h
  | cut log2 nfree => rfl

theorem Run.total_step_starts {f : Nat → Option Entry} {block : Nat} {runs : List Run}
    (h : Spells f block runs) :
    Size.total ((Run.starts block runs).map fun p => p.2.step) = Run.total runs := by
  induction runs generalizing block with
  | nil => rfl
  | cons r rest ih =>
    rw [Run.starts, List.map_cons, Size.total_cons, Run.total_cons, ih h.2.2, Run.step_first h.1]

namespace BlockTable

variable {t : BlockTable} {runs : List Run}

theorem exists_steps {block : Nat} (h : Spells t.bare? block runs)
    (hend : block + Run.total runs = t.size) :
    ∃ pairs, Steps t.get? block pairs ∧
      pairs.map (fun p => (p.1, p.2.bare)) = Run.starts block runs ∧
      ∀ p ∈ pairs, p.1 + p.2.step ≤ t.size := by
  induction runs generalizing block with
  | nil => exact ⟨[], get?_eq_none (by simp at hend; omega), rfl, by simp⟩
  | cons r rest ih =>
    obtain ⟨hpos, hr, hrest⟩ := h
    rw [Run.total_cons] at hend
    obtain ⟨pairs, hs, hm, hle⟩ := ih hrest (by omega)
    have hfirst := hr 0 hpos
    rw [Nat.add_zero, Run.entry_zero] at hfirst
    obtain ⟨e, hg, hbare⟩ := Option.map_eq_some_iff.1 hfirst
    have hstep : e.step = r.length := by rw [← Entry.step_bare, hbare, Run.step_first hpos]
    refine ⟨(block, e) :: pairs, ⟨rfl, hg, hstep ▸ hs⟩, ?_, fun p hp => ?_⟩
    · rw [List.map_cons, hm, hbare]
      rfl
    · rcases List.mem_cons.1 hp with rfl | hp
      · show block + e.step ≤ t.size
        omega
      · exact hle p hp

/-- The walk over a table in order meets each block that starts a run, once. -/
theorem Tiled.walk (h : t.Tiled runs) :
    ∃ pairs, t.runs? = some pairs ∧ Steps t.get? 0 pairs ∧
      pairs.map (fun p => (p.1, p.2.bare)) = Run.starts 0 runs ∧
      ∀ b e, (b, e) ∈ pairs ↔ t.get? b = some e ∧ e.isInner = false := by
  obtain ⟨pairs, hs, hm, hle⟩ := exists_steps h.spells (by have := h.size_eq; omega)
  have hsmall := h.small
  refine ⟨pairs, (runs?_eq_some_iff_steps fun p hp => by have := hle p hp; omega).2 hs, hs, hm,
    fun b e => ?_⟩
  have hmem (block : Nat) (l r : List Run) (run : Run) :
      (block + Run.total l, run.first) ∈ Run.starts block (l ++ run :: r) := by
    induction l generalizing block with
    | nil => exact List.mem_cons_self
    | cons a l ih =>
      rw [Run.total_cons, ← Nat.add_assoc]
      exact List.mem_cons_of_mem _ (ih (block + a.length))
  have hinner (block : Nat) (runs : List Run) (p : Nat × Entry) (hp : p ∈ Run.starts block runs) :
      p.2.isInner = false := by
    induction runs generalizing block with
    | nil => cases hp
    | cons r rest ih =>
      rcases List.mem_cons.1 hp with rfl | hp
      · exact r.isInner_first
      · exact ih _ hp
  constructor
  · intro hp
    have hp' : (b, e.bare) ∈ Run.starts 0 runs := hm ▸ List.mem_map_of_mem hp
    exact ⟨(hs.get_eq hp).2, by simpa using hinner 0 runs _ hp'⟩
  · rintro ⟨hg, he⟩
    have hb := bare?_of_get? hg
    obtain ⟨l, r, rest, rfl, rfl, hf⟩ := h.spells.locate_first (Nat.zero_le b)
      (by have := h.size_eq; have := lt_size_of_get? hg; omega) hb (by simpa using he)
    have hin := hmem 0 l rest r
    rw [← hm, List.mem_map] at hin
    obtain ⟨p, hp, hpe⟩ := hin
    obtain ⟨h₁, -⟩ := Prod.mk.inj hpe
    have := (hs.get_eq hp).2
    rw [h₁, hg, Option.some.injEq] at this
    rw [this, ← h₁]
    exact hp

/-- What is read off a walk without a look at the links is read off the runs. -/
theorem Tiled.map_runs?_eq {α : Type} (h : t.Tiled runs) {f : List (Nat × Entry) → α}
    (hf : ∀ pairs, f pairs = f (pairs.map fun p => (p.1, p.2.bare))) :
    t.runs?.map f = some (f (Run.starts 0 runs)) := by
  obtain ⟨pairs, hw, -, hm, -⟩ := h.walk
  rw [hw, Option.map_some, hf pairs, hm]

/-- What is computed of the runs is the same in every table that has them. -/
theorem Tiled.bind_runs? {t' : BlockTable} {α : Type} (h : t.Tiled runs) (h' : t'.Tiled runs)
    {f : List (Nat × Entry) → Option α}
    (hf : ∀ pairs, f pairs = f (pairs.map fun p => (p.1, p.2.bare))) :
    t'.runs?.bind f = t.runs?.bind f := by
  obtain ⟨pairs, hw, -, hm, -⟩ := h.walk
  obtain ⟨pairs', hw', -, hm', -⟩ := h'.walk
  rw [hw, hw', Option.bind_some, Option.bind_some, hf pairs, hf pairs', hm, hm']

theorem freeRun?_bare (p : Nat × Entry) : freeRun? (p.1, p.2.bare) = freeRun? p := by
  obtain ⟨block, e⟩ := p
  cases e <;> rfl

theorem Tiled.freeRuns?_eq_starts (h : t.Tiled runs) :
    t.freeRuns? = some ((Run.starts 0 runs).filterMap freeRun?) :=
  h.map_runs?_eq fun pairs => by
    rw [List.filterMap_map]
    exact congrArg (pairs.filterMap ·) (funext fun p => (freeRun?_bare p).symm)

theorem Tiled.freeRuns?_of_runs {t' : BlockTable} (h : t.Tiled runs) (h' : t'.Tiled runs) :
    t'.freeRuns? = t.freeRuns? :=
  h'.freeRuns?_eq_starts.trans h.freeRuns?_eq_starts.symm

/-- The free runs that a walk meets are those that the table records. -/
theorem Tiled.freeRuns?_eq (h : t.Tiled runs) :
    ∃ free, t.freeRuns? = some free ∧ KeysIncrease free ∧
      ∀ b s, (b, s) ∈ free ↔ t.freeSize? b = some s := by
  obtain ⟨pairs, hw, hs, -, hmem⟩ := h.walk
  have hfree (p : Nat × Entry) (q : Nat × Nat) (hp : freeRun? p = some q) :
      q.1 = p.1 ∧ p.2.freeSize? = some q.2 := by
    obtain ⟨b, e⟩ := p
    cases e <;> simp [freeRun?] at hp
    subst hp
    exact ⟨rfl, rfl⟩
  refine ⟨pairs.filterMap freeRun?, by rw [freeRuns?, hw]; rfl, ?_, fun b s => ?_⟩
  · rw [KeysIncrease, List.pairwise_filterMap]
    refine hs.keysIncrease.imp fun {p q} hlt a ha b hb => ?_
    rw [(hfree p a ha).1, (hfree q b hb).1]
    exact hlt
  · rw [List.mem_filterMap, freeSize?]
    constructor
    · rintro ⟨p, hp, hq⟩
      obtain ⟨h₁, h₂⟩ := hfree p (b, s) hq
      rw [show b = p.1 from h₁, (hs.get_eq hp).2]
      exact h₂
    · intro hb
      obtain ⟨e, hg, he⟩ := Option.bind_eq_some_iff.1 hb
      cases e <;> simp [Entry.freeSize?] at he
      subst he
      exact ⟨_, (hmem _ _).2 ⟨hg, rfl⟩, rfl⟩

/-! ## No defects -/

theorem adjacentFree_eq_zero {block : Nat} {pairs : List (Nat × Entry)}
    (hm : pairs.map (fun p => (p.1, p.2.bare)) = Run.starts block runs) (h : Run.Apart runs) :
    adjacentFree pairs = 0 := by
  induction runs generalizing block pairs with
  | nil =>
    rw [Run.starts, List.map_eq_nil_iff] at hm
    subst hm
    rfl
  | cons r rest ih =>
    obtain ⟨p, pairs', rfl, hp, hrest⟩ := List.map_eq_cons_iff.1 hm
    have hfirst (r : Run) (p : Nat × Entry) (b : Nat) (hp : (p.1, p.2.bare) = (b, r.first)) :
        p.2.isFreeHead = r.isFree := by
      rw [← Entry.isFreeHead_bare, (Prod.mk.inj hp).2]
      cases r <;> rfl
    obtain ⟨happ, hap⟩ := Run.apart_cons.1 h
    cases rest with
    | nil =>
      rw [Run.starts, List.map_eq_nil_iff] at hrest
      subst hrest
      rfl
    | cons r' rest =>
      have := ih hrest hap
      obtain ⟨q, pairs'', rfl, hq, -⟩ := List.map_eq_cons_iff.1 hrest
      obtain ⟨b, e⟩ := p
      obtain ⟨b', e'⟩ := q
      have h₁ : e.isFreeHead = r.isFree := hfirst r _ _ hp
      have h₂ : e'.isFreeHead = r'.isFree := hfirst r' _ _ hq
      rw [adjacentFree, this, h₁, h₂, if_neg (by simpa using happ)]

/-- Every inner block of a table in order fits the run that the walk takes it to be in. -/
theorem Tiled.tagsOk?_eq (h : t.Tiled runs) {b : Nat} {e : Entry} (hg : t.get? b = some e)
    (he : e.isInner = false) : t.tagsOk? (b, e) = some true := by
  have hlt := lt_size_of_get? hg
  obtain ⟨l, r, rest, rfl, rfl, hf⟩ := h.spells.locate_first (Nat.zero_le b)
    (by have := h.size_eq; omega) (bare?_of_get? hg) (by simpa using he)
  have hsize := h.size_eq
  rw [Run.total_append, Run.total_cons] at hsize
  rw [Nat.zero_add] at *
  have hrun : Spells t.bare? (Run.total l) (r :: rest) := by
    simpa using (Spells.append.1 h.spells).2
  have hpos := hrun.1
  cases r with
  | free size =>
    obtain ⟨n, p, rfl⟩ := Entry.bare_eq_free hf
    rw [Run.length] at hpos hsize
    show t.tailOk? (Run.total l) size = some true
    rw [tailOk?]
    by_cases h1 : size = 1
    · rw [if_pos h1]
    · rw [if_neg h1, Size.sub?_eq_some_iff.2 ⟨by omega, rfl⟩, Option.map_some]
      have := hrun.2.1 (size - 1) (by simp only [Run.length]; omega)
      simp only [Run.entry] at this
      rw [if_neg (by omega), if_pos (by omega)] at this
      rw [show Run.total l + size - 1 = Run.total l + (size - 1) by omega,
        get?_of_bare? this rfl, beq_self_eq_true]
  | busy length =>
    have := Entry.bare_eq_self hf rfl
    subst this
    rw [Run.length] at hpos hsize
    show some (t.bodiesOk (Run.total l) length) = some true
    rw [bodiesOk, Option.some.injEq, Bool.and_eq_true, Bool.and_eq_true, decide_eq_true_eq,
      decide_eq_true_eq, List.all_eq_true]
    refine ⟨⟨hpos, by omega⟩, fun i hi => ?_⟩
    rw [List.mem_range] at hi
    have := hrun.2.1 (i + 1) (by simp only [Run.length]; omega)
    simp only [Run.entry] at this
    rw [if_neg (by omega)] at this
    rw [get?_of_bare? this rfl, beq_self_eq_true]
  | cut log2 nfree =>
    have := Entry.bare_eq_self hf rfl
    subst this
    rfl

/-- A bin's walk counts the runs on the bin and finds nothing wrong. -/
theorem walkBin?_of_chained (bin : Nat) {head : Option Nat} {members : List Nat}
    (c : Chained t.next t.prev head members)
    (hfree : ∀ b ∈ members, ∃ s, 0 < s ∧ t.freeSize? b = some s ∧ s.log2 = bin)
    (fuel i met : Nat) (hfuel : members.length ≤ i + fuel) :
    t.walkBin? bin fuel members[i]? (met, 0) = some (met + (members.length - i), 0) := by
  induction fuel generalizing i met with
  | zero => rw [List.getElem?_eq_none (by omega), walkBin?, show members.length - i = 0 by omega]; rfl
  | succ fuel ih =>
    cases hi : members[i]? with
    | none =>
      have := List.getElem?_eq_none_iff.1 hi
      rw [walkBin?, show members.length - i = 0 by omega]
      rfl
    | some block =>
      obtain ⟨hlt, -⟩ := List.getElem?_eq_some_iff.1 hi
      obtain ⟨size, hpos, hs, hlog⟩ := hfree block (List.mem_of_getElem? hi)
      have hget := get?_of_bare?_free (freeSize?_eq_some.1 hs)
      rw [walkBin?, hget]
      simp only [bin?_eq hpos, hlog, if_true]
      rw [c.next_eq i block hi, ih (i + 1) (met + 1) (by omega)]
      congr 2
      omega

end BlockTable

namespace Size

@[simp] theorem total_append (a b : List Nat) : total (a ++ b) = total a + total b := by
  induction a with
  | nil => simp
  | cons n a ih => simp [ih, Nat.add_assoc]

theorem total_perm {a b : List Nat} (h : a.Perm b) : total a = total b := by
  induction h with
  | nil => rfl
  | cons n _ ih => rw [total_cons, total_cons, ih]
  | swap n m l => simp only [total_cons]; omega
  | trans _ _ ih₁ ih₂ => rw [ih₁, ih₂]

theorem total_of_eq {l : List Nat} {n : Nat} (h : ∀ m ∈ l, m = n) : total l = l.length * n := by
  induction l with
  | nil => rw [total_nil, List.length_nil, Nat.zero_mul]
  | cons m l ih =>
    rw [total_cons, ih fun k hk => h k (List.mem_cons_of_mem _ hk), h m List.mem_cons_self,
      List.length_cons, Nat.add_mul, Nat.one_mul, Nat.add_comm]

theorem length_flatMap {α β : Type} (l : List α) (f : α → List β) :
    (l.flatMap f).length = total (l.map fun a => (f a).length) := by
  induction l with
  | nil => rfl
  | cons a l ih => rw [List.flatMap_cons, List.length_append, ih, List.map_cons, total_cons]

/-- Counting by value counts everything once. -/
theorem total_countP {α : Type} (l : List α) (value : α → Nat) (n : Nat) :
    total ((List.range n).map fun k => l.countP fun a => value a == k) =
      l.countP fun a => decide (value a < n) := by
  induction n with
  | zero => simp
  | succ n ih =>
    rw [List.range_succ, List.map_append, total_append, ih]
    clear ih
    induction l with
    | nil => rfl
    | cons a l ih =>
      simp only [List.map_cons, List.map_nil, total_cons, total_nil, Nat.add_zero,
        List.countP_cons, beq_iff_eq, decide_eq_true_eq] at ih ⊢
      rcases Nat.lt_trichotomy (value a) n with h | h | h
      · rw [if_pos h, if_neg (by omega), if_pos (by omega)]; omega
      · rw [if_neg (by omega), if_pos h, if_pos (by omega)]; omega
      · rw [if_neg (by omega), if_neg (by omega), if_neg (by omega)]; omega

end Size

namespace BlockTable

variable {t : BlockTable} {runs : List Run}

theorem mapM_eq_some {α β : Type} {f : α → Option β} {g : α → β} {l : List α}
    (h : ∀ a ∈ l, f a = some (g a)) : l.mapM f = some (l.map g) := by
  induction l with
  | nil => rfl
  | cons a l ih =>
    rw [List.mapM_cons, h a List.mem_cons_self, ih fun b hb => h b (List.mem_cons_of_mem _ hb)]
    rfl

theorem exists_mapM {α β : Type} {f : α → Option β} {l : List α} (h : ∀ a ∈ l, ∃ b, f a = some b) :
    ∃ ys, l.mapM f = some ys := by
  induction l with
  | nil => exact ⟨[], rfl⟩
  | cons a l ih =>
    obtain ⟨b, hb⟩ := h a List.mem_cons_self
    obtain ⟨ys, hys⟩ := ih fun c hc => h c (List.mem_cons_of_mem _ hc)
    rw [List.mapM_cons, hb, hys]
    exact ⟨b :: ys, rfl⟩

theorem exists_of_mapM {α β : Type} {f : α → Option β} {l : List α} {ys : List β}
    (h : l.mapM f = some ys) {x : α} (hx : x ∈ l) : ∃ y ∈ ys, f x = some y := by
  induction l generalizing ys with
  | nil => cases hx
  | cons a l ih =>
    rw [List.mapM_cons] at h
    obtain ⟨y, hy, h⟩ := Option.bind_eq_some_iff.1 h
    obtain ⟨ys', hys, h⟩ := Option.bind_eq_some_iff.1 h
    cases h
    rcases List.mem_cons.1 hx with rfl | hx
    · exact ⟨y, List.mem_cons_self, hy⟩
    · obtain ⟨z, hz, hfz⟩ := ih hys hx
      exact ⟨z, List.mem_cons_of_mem _ hz, hfz⟩

/-- The free runs of a bin's size are as many as the bin's walk counts. -/
theorem LaidOut.walkBin?_eq (h : t.LaidOut runs) {free : List (Nat × Nat)} (hk : KeysIncrease free)
    (hmem : ∀ b s, (b, s) ∈ free ↔ t.freeSize? b = some s) (bin : Nat) :
    t.walkBin? bin t.size (t.binHead bin) (0, 0) =
      some (free.countP fun p => p.2.log2 == bin, 0) := by
  obtain ⟨members, c, hm⟩ := h.listed.threads bin
  have hhome (b : Nat) : b ∈ members ↔ ∃ s, t.freeSize? b = some s ∧ s.log2 = bin := by
    rw [hm, Option.map_eq_some_iff]
  have hlen : members.length ≤ t.size := by
    have hsub : members ⊆ List.range t.size := fun b hb => by
      obtain ⟨s, hs, -⟩ := (hhome b).1 hb
      exact List.mem_range.2 (h.listed.lt_size hs)
    simpa using c.nodup.length_le_of_subset hsub
  have hwalk := walkBin?_of_chained bin c (fun b hb => by
    obtain ⟨s, hs, hlog⟩ := (hhome b).1 hb
    exact ⟨s, (h.listed.free b s hs).1, hs, hlog⟩) t.size 0 0 (by omega)
  rw [c.head_eq, hwalk, Nat.zero_add, Nat.sub_zero, List.countP_eq_length_filter]
  congr 2
  -- the bin and the free runs of its size hold the same blocks, each once
  have hnodup : ((free.filter fun p => p.2.log2 == bin).map Prod.fst).Nodup := by
    refine List.pairwise_map.2 ((hk.filter _).imp fun hlt => Nat.ne_of_lt hlt)
  have hperm := (List.perm_ext_iff_of_nodup c.nodup hnodup).2 fun b => by
    rw [hhome, List.mem_map]
    constructor
    · rintro ⟨s, hs, hlog⟩
      exact ⟨(b, s), List.mem_filter.2 ⟨(hmem b s).2 hs, by simpa using hlog⟩, rfl⟩
    · rintro ⟨p, hp, rfl⟩
      obtain ⟨hp, hlog⟩ := List.mem_filter.1 hp
      exact ⟨p.2, (hmem _ _).1 hp, by simpa using hlog⟩
  simpa using hperm.length_eq

/-- A table in order has no defects. -/
theorem LaidOut.defects?_eq (h : t.LaidOut runs) : t.defects? = some {} := by
  obtain ⟨pairs, hw, hs, hm, hmem⟩ := h.toTiled.walk
  obtain ⟨free, hfree, hk, hfm⟩ := h.toTiled.freeRuns?_eq
  have htags : pairs.mapM t.tagsOk? = some (pairs.map fun _ => true) :=
    mapM_eq_some fun p hp => by
      obtain ⟨hg, he⟩ := (hmem p.1 p.2).1 hp
      exact h.tagsOk?_eq hg he
  have hwalks : (List.range binCount).mapM
      (fun bin => t.walkBin? bin t.size (t.binHead bin) (0, 0)) =
        some ((List.range binCount).map fun bin => (free.countP fun p => p.2.log2 == bin, 0)) :=
    mapM_eq_some fun bin _ => h.walkBin?_eq hk hfm bin
  have hcount : (pairs.countP fun p => p.2.isFreeHead) = free.length := by
    rw [freeRuns?, hw] at hfree
    cases hfree
    rw [List.length_filterMap_eq_countP]
    refine List.countP_congr fun p _ => ?_
    obtain ⟨b, e⟩ := p
    cases e <;> simp [Entry.isFreeHead, freeRun?]
  have hlisted : Size.total (((List.range binCount).map fun bin =>
      (free.countP fun p => p.2.log2 == bin, 0)).map Prod.fst) = free.length := by
    rw [List.map_map]
    refine (Size.total_countP free (fun p => p.2.log2) binCount).trans (List.countP_eq_length.2 ?_)
    intro p hp
    have := (h.listed.free p.1 p.2 ((hfm _ _).1 hp)).2.1
    simpa using log2_lt_binCount this
  have hzero : Size.total (((List.range binCount).map fun bin =>
      (free.countP fun p => p.2.log2 == bin, 0)).map Prod.snd) = 0 := by
    rw [List.map_map]
    generalize List.range binCount = bins
    induction bins with
    | nil => rfl
    | cons b bins ih => rw [List.map_cons, Size.total_cons, ih]; rfl
  have hmisplaced : (pairs.countP fun p => p.2.isInner) = 0 :=
    List.countP_eq_zero.2 fun p hp => by rw [((hmem p.1 p.2).1 hp).2]; exact Bool.false_ne_true
  have hbroken : ((pairs.map fun _ => true).countP fun ok => !ok) = 0 :=
    List.countP_eq_zero.2 fun ok hok => by
      obtain ⟨_, -, rfl⟩ := List.mem_map.1 hok
      exact Bool.false_ne_true
  rw [defects?]
  simp only [hw, htags, hwalks, Option.bind_eq_bind, Option.bind_some, hlisted, hzero,
    adjacentFree_eq_zero hm h.apart, hmisplaced, hbroken, hcount, gap, Nat.sub_self]

end BlockTable

end RegionHeap
