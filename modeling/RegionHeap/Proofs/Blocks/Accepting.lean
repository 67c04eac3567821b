import RegionHeap.Proofs.Blocks.Rebuilding

/-!
What the check of a rebuilt table accepts. Rebuilding writes the two ends of every free run that the
walk meets before the check looks at them, and the check skips what lies between, so of recorded
free runs neither the inner blocks nor the last one are ever compared with anything. All else is:
the recorded entries are a layout exactly if these blocks are right (`Accepted.isLayout_iff`), and
the rebuilt table is in order exactly if the inner ones are (`Accepted.laidOut_iff`).
-/
namespace RegionHeap

/-- The run that an entry starts, if it is no inner one. -/
def Entry.run? : Entry → Option Run
  | .free size _ _ => some (.free size)
  | .run length => some (.busy length)
  | .fragmented log2 nfree => some (.cut log2 nfree)
  | _ => none

namespace BlockTable

/-- The entries spell a layout in which no two free runs are neighbours. -/
def IsLayout (entries : Array Entry) : Prop :=
  ∃ runs, (ofRaw entries).Tiled runs ∧ Run.Apart runs

/-- The blocks between the first and the last of the free runs that a walk meets say so. -/
def InnersBlank (entries : Array Entry) (runs : List (Nat × Entry)) : Prop :=
  ∀ block size next prev, (block, .free size next prev) ∈ runs →
    ∀ i, 0 < i → i + 1 < size → entries[block + i]? = some .freeBody

/-- The last blocks of the free runs that a walk meets lead back to the first. -/
def EndsLeadBack (entries : Array Entry) (runs : List (Nat × Entry)) : Prop :=
  ∀ block size next prev, (block, .free size next prev) ∈ runs → 1 < size →
    entries[block + size - 1]? = some (.freeTail block)

variable {t : BlockTable} {entries : Array Entry} {f g : Nat → Option Entry} {block : Nat}
  {pairs : List (Nat × Entry)}

/-! ## From a walk to a layout -/

/-- The blocks of the run that an entry starts hold what they should. -/
def Fits (f : Nat → Option Entry) (p : Nat × Entry) (r : Run) : Prop :=
  p.2.run? = some r ∧ 0 < r.length ∧ ∀ i, i < r.length → f (p.1 + i) = some (r.entry p.1 i)

theorem step_of_run? {e : Entry} {r : Run} (he : e.run? = some r) (hpos : 0 < r.length) :
    e.step = r.length := by
  cases e <;> cases he
  · exact Nat.max_eq_left hpos
  · exact Nat.max_eq_left hpos
  · rfl

/-- A walk over runs that all fit reads off a layout. -/
theorem spells_of_steps (hs : Steps g block pairs) (hf : ∀ p ∈ pairs, ∃ r, Fits f p r) :
    ∃ runs, Spells f block runs ∧ g (block + Run.total runs) = none ∧
      pairs.filterMap (fun p => p.2.run?) = runs := by
  induction pairs generalizing block with
  | nil => exact ⟨[], trivial, hs, rfl⟩
  | cons p rest ih =>
    obtain ⟨b, e⟩ := p
    obtain ⟨rfl, -, hrest⟩ := hs
    obtain ⟨r, he, hpos, hr⟩ := hf _ List.mem_cons_self
    rw [step_of_run? he hpos] at hrest
    obtain ⟨runs, hspell, hend, hmap⟩ := ih hrest fun p hp => hf p (List.mem_cons_of_mem _ hp)
    refine ⟨r :: runs, ⟨hpos, hr, hspell⟩, ?_, ?_⟩
    · rw [Run.total_cons, ← Nat.add_assoc]
      exact hend
    · rw [List.filterMap_cons, he, hmap]

/-- Neighbours that are not both free heads are not both free runs. -/
theorem apart_of_adjacentFree (hp : ∀ p ∈ pairs, p.2.run?.isSome = true)
    (ha : adjacentFree pairs = 0) : Run.Apart (pairs.filterMap fun p => p.2.run?) := by
  induction pairs with
  | nil => trivial
  | cons p rest ih =>
    obtain ⟨b, e⟩ := p
    obtain ⟨r, he⟩ := Option.isSome_iff_exists.1 (hp _ List.mem_cons_self)
    have hrest : ∀ p ∈ rest, p.2.run?.isSome = true := fun p h => hp p (List.mem_cons_of_mem _ h)
    rw [List.filterMap_cons, he]
    cases rest with
    | nil => trivial
    | cons q rest =>
      obtain ⟨b', e'⟩ := q
      obtain ⟨r', he'⟩ := Option.isSome_iff_exists.1 (hrest _ List.mem_cons_self)
      rw [adjacentFree] at ha
      refine Run.apart_cons.2 ⟨fun hfree => ?_, ih hrest (by omega)⟩
      rw [List.filterMap_cons, he', Run.startsFree_cons] at hfree
      have head {e : Entry} {r : Run} (he : e.run? = some r) (hr : r.isFree = true) :
          e.isFreeHead = true := by
        cases e <;> cases he <;> first | rfl | cases hr
      rw [head he hfree.1, head he' hfree.2] at ha
      simp at ha

/-- Where a walk over runs that fit ends, the table ends. -/
theorem total_of_spells {runs : List Run} (hs : Spells t.bare? 0 runs)
    (hend : t.get? (Run.total runs) = none) : Run.total runs = t.size := by
  have hge : t.size ≤ Run.total runs := by
    refine Nat.le_of_not_lt fun hlt => ?_
    obtain ⟨e, he⟩ := exists_get? hlt
    rw [he] at hend
    cases hend
  refine Nat.le_antisymm (Nat.le_of_not_lt fun hlt => ?_) hge
  obtain ⟨l, r, rest, i, -, -, -, he⟩ := hs.locate (Nat.zero_le t.size) (by omega)
  rw [bare?_eq_none (Nat.le_refl _)] at he
  cases he

/-! ## Rebuilt tables -/

/-- The free runs that a walk meets. -/
def freeOf (runs : List (Nat × Entry)) : List (Nat × Nat) := runs.filterMap freeRun?

theorem mem_freeOf {runs : List (Nat × Entry)} {b s : Nat} :
    (b, s) ∈ freeOf runs ↔ ∃ next prev, (b, .free s next prev) ∈ runs := by
  rw [freeOf, List.mem_filterMap]
  constructor
  · rintro ⟨⟨b', e⟩, hp, hq⟩
    cases e <;> simp [freeRun?] at hq
    obtain ⟨rfl, rfl⟩ := hq
    exact ⟨_, _, hp⟩
  · rintro ⟨next, prev, hp⟩
    exact ⟨_, hp, rfl⟩

/-- A table that was rebuilt from entries over which a walk meets `runs`. -/
structure Rebuilt (entries : Array Entry) (runs : List (Nat × Entry)) (t : BlockTable) : Prop where
  steps : Steps (ofRaw entries).get? 0 runs
  spread : Spread (freeOf runs) entries.size
  size_eq : t.size = entries.size
  small : entries.size < Size.limit
  listed : t.Listed (lookupPair · (freeOf runs))
  ends : ∀ p ∈ freeOf runs, 1 < p.2 → t.bare? (p.1 + p.2 - 1) = some (.freeTail p.1)
  others : ∀ y, (∀ p ∈ freeOf runs, 1 < p.2 → y ≠ p.1 + p.2 - 1) →
    t.bare? y = (ofRaw entries).bare? y

/-- Free runs that a walk meets within the table lie one behind the other. -/
theorem spread_of_steps {runs : List (Nat × Entry)} (hs : Steps f 0 runs) {size : Nat}
    (hin : ∀ b s next prev, (b, .free s next prev) ∈ runs → 0 < s ∧ b + s ≤ size) :
    Spread (freeOf runs) size := by
  refine ⟨?_, fun p hp => ?_⟩
  · rw [freeOf, List.pairwise_filterMap]
    refine hs.pairwise.imp fun {p p'} hpp' q hq q' hq' => ?_
    obtain ⟨b, e⟩ := p
    obtain ⟨b', e'⟩ := p'
    cases e <;> simp [freeRun?] at hq
    cases e' <;> simp [freeRun?] at hq'
    subst hq
    subst hq'
    simp only [Entry.step] at hpp'
    omega
  · obtain ⟨next, prev, hmem⟩ := mem_freeOf.1 (show (p.1, p.2) ∈ freeOf runs from hp)
    exact hin _ _ _ _ hmem

theorem exists_rebuilt (ht : ofEntries? entries = some t) (hsmall : entries.size < Size.limit)
    (hin : ∀ b s next prev, entries[b]? = some (.free s next prev) →
      0 < s ∧ b + s ≤ entries.size) :
    ∃ runs, (ofRaw entries).runs? = some runs ∧ Rebuilt entries runs t := by
  cases hr : (ofRaw entries).runs? with
  | none =>
    rw [ofEntries?, show (⟨entries, emptyBins⟩ : BlockTable) = ofRaw entries from rfl, freeRuns?,
      hr] at ht
    cases ht
  | some runs =>
    have hs : Steps (ofRaw entries).get? 0 runs := steps_of_runsFrom? hr
    have hspread := spread_of_steps hs fun b s next prev hp =>
      hin b s next prev (hs.get_eq hp).2
    obtain ⟨t', ht', hsize, hl, hends, hrest⟩ := ofEntries?_spec
      (show (ofRaw entries).freeRuns? = some (freeOf runs) by rw [freeRuns?, hr]; rfl) hspread hsmall
    rw [ht, Option.some.injEq] at ht'
    subst ht'
    refine ⟨runs, rfl, hs, hspread, hsize, hsmall, hl, hends, fun y hy => ?_⟩
    by_cases hb : IsBetween (freeOf runs) y
    · exact hrest y hb
    · simp only [IsBetween, Classical.not_forall] at hb
      obtain ⟨⟨b, s⟩, hp, hne⟩ := hb
      have hpos := (hspread.inside _ hp).1
      have hlast := hy _ hp
      simp only at hpos hlast hne
      have hyb : y = b := by omega
      obtain ⟨next, prev, hmem⟩ := mem_freeOf.1 hp
      have hget := (hs.get_eq hmem).2
      rw [hyb, (hl.free b s (lookupPair_eq_some hspread.keysIncrease hp)).2.2]
      exact (bare?_of_get? hget).symm

namespace Rebuilt

variable {runs : List (Nat × Entry)} (r : Rebuilt entries runs t)
include r

/-- A block of a run that is not free is no last block of a free run. -/
theorem bare?_inside {b i : Nat} {e : Entry} (hp : (b, e) ∈ runs) (hi : i < e.step)
    (hfree : e.freeSize? = none) : t.bare? (b + i) = (ofRaw entries).bare? (b + i) := by
  refine r.others _ fun q hq h1 heq => ?_
  obtain ⟨next, prev, hmem⟩ := mem_freeOf.1 (show (q.1, q.2) ∈ freeOf runs from hq)
  rcases r.steps.apart hp hmem with h | h | h
  · cases h
    cases hfree
  · simp only at h
    omega
  · simp only [Entry.step] at h
    omega

/-- The blocks of a free run before the last are those that were recorded. -/
theorem bare?_before {b s i : Nat} {next prev : Option Nat} (hp : (b, .free s next prev) ∈ runs)
    (hi : i + 1 < s ∨ i = 0) : t.bare? (b + i) = (ofRaw entries).bare? (b + i) := by
  refine r.others _ fun q hq h1 heq => ?_
  obtain ⟨next', prev', hmem⟩ := mem_freeOf.1 (show (q.1, q.2) ∈ freeOf runs from hq)
  rcases r.steps.apart hp hmem with h | h | h
  · cases h
    omega
  · simp only [Entry.step] at h
    omega
  · simp only [Entry.step] at h
    omega

/-- A block in use is recorded as it is. -/
theorem recorded {y : Nat} {e : Entry} (hg : t.get? y = some e) (hfree : e.isFree = false) :
    entries[y]? = some e := by
  have hb := bare?_of_get? hg
  have hbare : e.bare = e := by cases e <;> first | rfl | cases hfree
  rw [hbare] at hb
  have hsize : e.freeSize? = none := by cases e <;> first | rfl | cases hfree
  refine get?_of_bare? (t := ofRaw entries) ?_ hsize
  by_cases hy : ∀ p ∈ freeOf runs, 1 < p.2 → y ≠ p.1 + p.2 - 1
  · rw [← r.others y hy, hb]
  · simp only [Classical.not_forall, Decidable.not_not] at hy
    obtain ⟨q, hq, h1, rfl⟩ := hy
    rw [r.ends q hq h1, Option.some.injEq] at hb
    subst hb
    cases hfree

theorem bare?_start {b : Nat} {e : Entry} (hp : (b, e) ∈ runs) : t.bare? b = some e.bare := by
  have hget := bare?_of_get? (r.steps.get_eq hp).2
  rw [← hget]
  cases hf : e.freeSize? with
  | none => exact r.bare?_inside hp e.one_le_step hf
  | some s =>
    cases e <;> simp [Entry.freeSize?] at hf
    exact r.bare?_before hp (.inr rfl)

/-- The check walks over the rebuilt table as it would over the recorded entries. -/
theorem walk {pairs : List (Nat × Entry)} (hw : t.runs? = some pairs) :
    pairs.map (fun p => (p.1, p.2.bare)) = runs.map fun p => (p.1, p.2.bare) := by
  have steps {block : Nat} {pairs : List (Nat × Entry)} {runs' : List (Nat × Entry)}
      (hs : Steps t.get? block pairs) (hs' : Steps (ofRaw entries).get? block runs')
      (hsub : ∀ p ∈ runs', p ∈ runs) :
      pairs.map (fun p => (p.1, p.2.bare)) = runs'.map fun p => (p.1, p.2.bare) := by
    induction runs' generalizing block pairs with
    | nil =>
      cases pairs with
      | nil => rfl
      | cons p rest =>
        have hlt := lt_size_of_get? hs.2.1
        rw [r.size_eq] at hlt
        obtain ⟨e, he⟩ := exists_get? (t := ofRaw entries) hlt
        rw [show (ofRaw entries).get? block = none from hs'] at he
        cases he
    | cons q rest' ih =>
      obtain ⟨b', e'⟩ := q
      obtain ⟨rfl, he', hrest'⟩ := hs'
      have hb := r.bare?_start (hsub _ List.mem_cons_self)
      cases pairs with
      | nil =>
        rw [bare?, show t.get? b' = none from hs] at hb
        cases hb
      | cons p rest =>
        obtain ⟨b, e⟩ := p
        obtain ⟨rfl, he, hrest⟩ := hs
        rw [bare?_of_get? he, Option.some.injEq] at hb
        have hstep : e.step = e'.step := by rw [← Entry.step_bare, hb, Entry.step_bare]
        rw [hstep] at hrest
        rw [List.map_cons, List.map_cons, hb,
          ih hrest hrest' fun p hp => hsub p (List.mem_cons_of_mem _ hp)]
  exact steps (steps_of_runsFrom? hw) r.steps fun _ hp => hp

end Rebuilt

/-! ## Accepted tables -/

theorem freeOf_congr {pairs pairs' : List (Nat × Entry)}
    (h : pairs.map (fun p => (p.1, p.2.bare)) = pairs'.map fun p => (p.1, p.2.bare)) :
    freeOf pairs = freeOf pairs' := by
  have all (l : List (Nat × Entry)) :
      freeOf l = (l.map fun p => (p.1, p.2.bare)).filterMap freeRun? := by
    rw [List.filterMap_map]
    exact congrArg (l.filterMap ·) (funext fun p => (freeRun?_bare p).symm)
  rw [all, all, h]

/-- What the check makes sure of: the runs that the walk meets start as runs do, busy runs are whole,
and no free run follows another. -/
structure Accepted (entries : Array Entry) (runs : List (Nat × Entry)) (t : BlockTable) : Prop
    extends Rebuilt entries runs t where
  starts : ∀ p ∈ runs, p.2.isInner = false
  bodies : ∀ b n, (b, .run n) ∈ runs → 0 < n ∧ b + n ≤ entries.size ∧
    ∀ i, 0 < i → i < n → entries[b + i]? = some (.runBody i)
  apart : adjacentFree runs = 0

theorem adjacentFree_congr {pairs pairs' : List (Nat × Entry)}
    (h : pairs.map (fun p => (p.1, p.2.bare)) = pairs'.map fun p => (p.1, p.2.bare)) :
    adjacentFree pairs = adjacentFree pairs' := by
  have head {p q : Nat × Entry} (h : (p.1, p.2.bare) = (q.1, q.2.bare)) :
      p.2.isFreeHead = q.2.isFreeHead := by
    rw [← Entry.isFreeHead_bare, (Prod.mk.inj h).2, Entry.isFreeHead_bare]
  induction pairs generalizing pairs' with
  | nil =>
    rw [List.map_nil, eq_comm, List.map_eq_nil_iff] at h
    rw [h]
  | cons p rest ih =>
    obtain ⟨q, rest', rfl, hq, hrest⟩ := List.map_eq_cons_iff.1 h.symm
    have hih := ih hrest.symm
    cases rest with
    | nil =>
      rw [List.map_nil, List.map_eq_nil_iff] at hrest
      rw [hrest]
      rfl
    | cons p' rest =>
      obtain ⟨q', rest'', rfl, hq', -⟩ := List.map_eq_cons_iff.1 hrest
      obtain ⟨b, e⟩ := p
      obtain ⟨b', e'⟩ := p'
      obtain ⟨c, f⟩ := q
      obtain ⟨c', f'⟩ := q'
      have h₁ : f.isFreeHead = e.isFreeHead := head hq
      have h₂ : f'.isFreeHead = e'.isFreeHead := head hq'
      rw [adjacentFree, adjacentFree, hih, h₁, h₂]

/-- The check accepts a rebuilt table only if it is so. -/
theorem Rebuilt.accepted {runs : List (Nat × Entry)} (r : Rebuilt entries runs t)
    (hd : t.defects? = some {}) : Accepted entries runs t := by
  simp only [defects?, Option.bind_eq_bind, Option.bind_eq_some_iff, Option.some.injEq,
    Defects.mk.injEq] at hd
  obtain ⟨pairs, hw, tags, htags, walks, -, hadj, hmis, hbroken, -, -⟩ := hd
  have hsame := r.walk hw
  have hst := steps_of_runsFrom? hw
  have hstart (p : Nat × Entry) (hp : p ∈ runs) : p.2.isInner = false := by
    have : (p.1, p.2.bare) ∈ pairs.map fun p => (p.1, p.2.bare) := by
      rw [hsame]
      exact List.mem_map_of_mem hp
    obtain ⟨q, hq, heq⟩ := List.mem_map.1 this
    have := List.countP_eq_zero.1 hmis q hq
    rw [← Entry.isInner_bare, ← (Prod.mk.inj heq).2, Entry.isInner_bare]
    simpa using this
  refine ⟨r, hstart, fun b n hp => ?_, ?_⟩
  · have hget : t.get? b = some (.run n) := get?_of_bare? (r.bare?_start hp) rfl
    have hmem : (b, Entry.run n) ∈ pairs := by
      have : (b, (Entry.run n).bare) ∈ pairs.map fun p => (p.1, p.2.bare) := by
        rw [hsame]
        exact List.mem_map_of_mem hp
      obtain ⟨⟨b', e⟩, hq, heq⟩ := List.mem_map.1 this
      obtain ⟨h₁, h₂⟩ := Prod.mk.inj heq
      have h₁ : b' = b := h₁
      have h₂ : e = .run n := Entry.bare_eq_self h₂ rfl
      rwa [h₁, h₂] at hq
    obtain ⟨tag, htag, hok⟩ := exists_of_mapM htags hmem
    have htag : t.tagsOk? (b, .run n) = some true := by
      rw [hok]
      simpa using List.countP_eq_zero.1 hbroken tag htag
    simp only [tagsOk?, bodiesOk, Option.some.injEq, Bool.and_eq_true, decide_eq_true_eq,
      List.all_eq_true, List.mem_range, beq_iff_eq] at htag
    obtain ⟨⟨hpos, hfit⟩, hbody⟩ := htag
    rw [r.size_eq] at hfit
    refine ⟨hpos, hfit, fun i h0 hi => ?_⟩
    have hb := hbody (i - 1) (by omega)
    rw [show i - 1 + 1 = i by omega] at hb
    have hin := r.bare?_inside hp (i := i) (by simp only [Entry.step]; omega) rfl
    rw [bare?_of_get? hb] at hin
    exact get?_of_bare? (t := ofRaw entries) hin.symm rfl
  · rw [← adjacentFree_congr hsame]
    exact hadj

namespace Accepted

variable {runs : List (Nat × Entry)} (a : Accepted entries runs t)
include a

theorem run?_isSome {p : Nat × Entry} (hp : p ∈ runs) : p.2.run?.isSome = true := by
  have := a.starts p hp
  obtain ⟨b, e⟩ := p
  cases e <;> first | rfl | cases this

/-- All that the check leaves open is what the later blocks of free runs hold. -/
theorem fits (hstart : ∀ p ∈ runs, f p.1 = some p.2.bare)
    (hbody : ∀ b n, (b, .run n) ∈ runs → ∀ i, 0 < i → i < n → f (b + i) = some (.runBody i))
    (hfree : ∀ b s next prev, (b, .free s next prev) ∈ runs → ∀ i, 0 < i → i < s →
      f (b + i) = some (if i + 1 = s then .freeTail b else .freeBody)) :
    ∀ p ∈ runs, ∃ r, Fits f p r := by
  rintro ⟨b, e⟩ hp
  have hb := hstart _ hp
  have hinner := a.starts _ hp
  have zero {i : Nat} (hi : i = 0) : f (b + i) = some e.bare := by
    rw [hi, Nat.add_zero]
    exact hb
  cases e with
  | freeTail head => cases hinner
  | freeBody => cases hinner
  | runBody offset => cases hinner
  | free s next prev =>
    refine ⟨.free s, rfl, (a.spread.inside _ (mem_freeOf.2 ⟨next, prev, hp⟩)).1, fun i hi => ?_⟩
    rw [Run.entry]
    by_cases h0 : i = 0
    · rw [if_pos h0]
      exact zero h0
    · rw [if_neg h0]
      exact hfree b s next prev hp i (by omega) hi
  | run n =>
    refine ⟨.busy n, rfl, (a.bodies b n hp).1, fun i hi => ?_⟩
    rw [Run.entry]
    by_cases h0 : i = 0
    · rw [if_pos h0]
      exact zero h0
    · rw [if_neg h0]
      exact hbody b n hp i (by omega) hi
  | fragmented log2 nfree =>
    exact ⟨.cut log2 nfree, rfl, Nat.one_pos, fun i hi => zero (Nat.lt_one_iff.1 hi)⟩

/-- The recorded entries are a layout exactly if the later blocks of free runs are right. -/
theorem isLayout_iff :
    IsLayout entries ↔ InnersBlank entries runs ∧ EndsLeadBack entries runs := by
  constructor
  · rintro ⟨layout, tiled, -⟩
    have blocks {b s : Nat} {next prev : Option Nat} (hp : (b, .free s next prev) ∈ runs) :=
      tiled.freeBlocks (a.steps.get_eq hp).2
    exact ⟨fun b s next prev hp => (blocks hp).2.2.1, fun b s next prev hp => (blocks hp).2.2.2⟩
  · rintro ⟨hin, hend⟩
    have hfits := a.fits (f := (ofRaw entries).bare?)
      (fun p hp => bare?_of_get? (a.steps.get_eq hp).2)
      (fun b n hp i h0 hi => bare?_of_get? (t := ofRaw entries) ((a.bodies b n hp).2.2 i h0 hi))
      fun b s next prev hp i h0 hi => by
        by_cases hlast : i + 1 = s
        · rw [if_pos hlast]
          have := hend b s next prev hp (by omega)
          rw [show b + s - 1 = b + i by omega] at this
          exact bare?_of_get? (t := ofRaw entries) this
        · rw [if_neg hlast]
          exact bare?_of_get? (t := ofRaw entries) (hin b s next prev hp i h0 (by omega))
    obtain ⟨layout, hspell, hnone, hmap⟩ := spells_of_steps a.steps hfits
    rw [Nat.zero_add] at hnone
    exact ⟨layout, ⟨hspell, total_of_spells hspell hnone, a.small⟩,
      hmap ▸ apart_of_adjacentFree (fun p hp => a.run?_isSome hp) a.apart⟩

/-- If the last blocks of free runs are right, too, rebuilding changes nothing but links. -/
theorem bare?_eq (hend : EndsLeadBack entries runs) (y : Nat) :
    t.bare? y = (ofRaw entries).bare? y := by
  by_cases hy : ∀ p ∈ freeOf runs, 1 < p.2 → y ≠ p.1 + p.2 - 1
  · exact a.others y hy
  · simp only [Classical.not_forall, Decidable.not_not] at hy
    obtain ⟨⟨b, s⟩, hp, h1, rfl⟩ := hy
    obtain ⟨next, prev, hmem⟩ := mem_freeOf.1 hp
    rw [a.ends _ hp h1]
    exact (bare?_of_get? (t := ofRaw entries) (hend b s next prev hmem h1)).symm

/-- The rebuilt table is in order exactly if the inner blocks of free runs are right. -/
theorem laidOut_iff : (∃ layout, t.LaidOut layout) ↔ InnersBlank entries runs := by
  constructor
  · rintro ⟨layout, hl⟩ b s next prev hp i h0 hi
    obtain ⟨next', prev', hg⟩ := exists_free_of_bare? (a.bare?_start hp)
    have hbody := (hl.toTiled.freeBlocks hg).2.2.1 i h0 hi
    have := a.bare?_before hp (.inl hi)
    rw [bare?_of_get? hbody] at this
    exact get?_of_bare? (t := ofRaw entries) this.symm rfl
  · intro hin
    have hfits := a.fits (fun p hp => a.bare?_start hp)
      (fun b n hp i h0 hi => by
        rw [a.bare?_inside hp (by simp only [Entry.step]; omega) rfl]
        exact bare?_of_get? (t := ofRaw entries) ((a.bodies b n hp).2.2 i h0 hi))
      fun b s next prev hp i h0 hi => by
        by_cases hlast : i + 1 = s
        · rw [if_pos hlast]
          have := a.ends (b, s) (mem_freeOf.2 ⟨next, prev, hp⟩) (show 1 < s by omega)
          rwa [show (b, s).1 + (b, s).2 - 1 = b + i by simp only; omega] at this
        · rw [if_neg hlast, a.bare?_before hp (.inl (by omega))]
          exact bare?_of_get? (t := ofRaw entries) (hin b s next prev hp i h0 (by omega))
    obtain ⟨layout, hspell, hnone, hmap⟩ := spells_of_steps a.steps hfits
    rw [Nat.zero_add] at hnone
    have hend : t.get? (Run.total layout) = none := by
      refine get?_eq_none ?_
      rw [a.size_eq]
      exact Array.getElem?_eq_none_iff.1 hnone
    have tiled : t.Tiled layout :=
      ⟨hspell, total_of_spells hspell hend, by rw [a.size_eq]; exact a.small⟩
    refine ⟨layout, tiled, hmap ▸ apart_of_adjacentFree (fun p hp => a.run?_isSome hp) a.apart,
      a.listed.of_eq fun b => ?_⟩
    -- the bins list the free runs that the walk met, and there are no others
    obtain ⟨pairs, hw, -⟩ := tiled.walk
    obtain ⟨free, hfree, hk, hmem⟩ := tiled.freeRuns?_eq
    rw [freeRuns?, hw] at hfree
    have hfree : freeOf pairs = free := Option.some.inj hfree
    rw [freeOf_congr (a.walk hw)] at hfree
    rw [hfree]
    cases hs : t.freeSize? b with
    | some s => exact ((lookupPair_eq_some_iff hk).2 ((hmem b s).2 hs)).symm
    | none =>
      refine (Option.eq_none_iff_forall_not_mem.2 fun s hl => ?_).symm
      rw [(hmem b s).1 ((lookupPair_eq_some_iff hk).1 hl)] at hs
      cases hs

end Accepted

end BlockTable

end RegionHeap
