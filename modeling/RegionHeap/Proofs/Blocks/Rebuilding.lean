import RegionHeap.Proofs.Blocks.Walking

/-!
Rebuilding a table from entries alone. Whatever the entries are, if the free runs that the walk
meets stay within the table, the bins list just these afterwards, and apart from list links only the
last blocks of these runs are rewritten (`ofEntries?_spec`). Entries of a layout come out as they
went in (`ofEntries?_of_spells`), and the links that they held do not matter (`ofEntries?_congr`).
-/
namespace RegionHeap.BlockTable

variable {t t' : BlockTable}

/-- Free runs that lie one behind the other within `size` blocks. -/
structure Spread (free : List (Nat × Nat)) (size : Nat) : Prop where
  ordered : free.Pairwise fun p q => p.1 + p.2 ≤ q.1
  inside : ∀ p ∈ free, 0 < p.2 ∧ p.1 + p.2 ≤ size

/-- A block that none of these runs starts or ends with. -/
def IsBetween (free : List (Nat × Nat)) (block : Nat) : Prop :=
  ∀ p ∈ free, block ≠ p.1 ∧ block ≠ p.1 + p.2 - 1

theorem Spread.tail {free : List (Nat × Nat)} {size : Nat} {p : Nat × Nat}
    (h : Spread (p :: free) size) : Spread free size :=
  ⟨(List.pairwise_cons.1 h.ordered).2, fun q hq => h.inside q (List.mem_cons_of_mem _ hq)⟩

theorem Spread.keysIncrease {free : List (Nat × Nat)} {size : Nat} (h : Spread free size) :
    KeysIncrease free :=
  List.Pairwise.imp_of_mem (fun {p q} hp _ hpq => by
    have := (h.inside p hp).1
    omega) h.ordered

/-! ## Listing many runs -/

/-- Runs that lie behind all that is listed are put on their bins one after another. -/
theorem enlistAll {free : List (Nat × Nat)} {sizes : Nat → Option Nat} (hl : t.Listed sizes)
    (hs : Spread free t.size) (hsmall : t.size < Size.limit)
    (hnew : ∀ p ∈ free, ∀ y, p.1 ≤ y → sizes y = none) :
    ∃ t', free.foldlM (fun t p => t.enlist? p.1 p.2) t = some t' ∧ t'.size = t.size ∧
      t'.Listed (fun y => (lookupPair y free).or (sizes y)) ∧
      (∀ p ∈ free, 1 < p.2 → t'.bare? (p.1 + p.2 - 1) = some (.freeTail p.1)) ∧
      ∀ y, IsBetween free y → t'.bare? y = t.bare? y := by
  induction free generalizing t sizes with
  | nil => exact ⟨t, rfl, rfl, hl, by simp, fun _ _ => rfl⟩
  | cons p free ih =>
    obtain ⟨b, s⟩ := p
    obtain ⟨hpos, hfit⟩ := hs.inside _ List.mem_cons_self
    obtain ⟨hafter, -⟩ := List.pairwise_cons.1 hs.ordered
    simp only at hpos hfit hafter
    have hfirst := hnew _ List.mem_cons_self
    obtain ⟨t₁, e₁, l₁, s₁, bare₁⟩ := enlist?_eq hl hpos (by omega) hfit
      (hfirst b (Nat.le_refl _)) (hfirst (b + s - 1) (by simp only; omega))
    obtain ⟨t', he, hs', hl', htail, hrest⟩ := ih l₁ (by rw [s₁]; exact hs.tail)
      (by rw [s₁]; exact hsmall) fun q hq y hy => by
        have := hafter q hq
        rw [replaced_of_ne _ _ (by omega)]
        exact hfirst y (by simp only; omega)
    have between {y : Nat} (hy : y < b + s) : IsBetween free y := fun q hq => by
      have := hafter q hq
      have := (hs.tail.inside q hq).1
      omega
    refine ⟨t', ?_, by rw [hs', s₁], hl'.of_eq fun y => ?_, fun q hq h1 => ?_, fun y hy => ?_⟩
    · rw [List.foldlM_cons, e₁]
      exact he
    · rw [lookupPair]
      by_cases hy : b = y
      · subst hy
        rw [if_pos rfl, lookupPair_eq_none fun q hq => by have := hafter q hq; omega, replaced_self]
        rfl
      · rw [if_neg hy, replaced_of_ne _ _ (Ne.symm hy)]
    · rcases List.mem_cons.1 hq with rfl | hq
      · simp only at h1 ⊢
        rw [hrest _ (between (by omega)), bare₁, if_neg (by omega), if_pos rfl]
      · exact htail q hq h1
    · obtain ⟨h₁, h₂⟩ := hy _ List.mem_cons_self
      rw [hrest y fun q hq => hy q (List.mem_cons_of_mem _ hq), bare₁, if_neg h₁, if_neg h₂]

/-! ## The rebuilt table -/

/-- The entries as a table whose bins are empty. -/
def ofRaw (entries : Array Entry) : BlockTable := ⟨entries, emptyBins⟩

theorem listed_ofRaw (entries : Array Entry) : (ofRaw entries).Listed fun _ => none where
  bins_size := by rw [ofRaw, emptyBins, Array.size_replicate]
  free b s h := by cases h
  threads := Threads.empty fun k => by
    show (emptyBins[k]?).join = none
    rw [emptyBins, Array.getElem?_replicate]
    split <;> rfl

theorem laidOut_empty : empty.LaidOut [] where
  spells := trivial
  size_eq := rfl
  small := by decide
  apart := trivial
  listed := (listed_ofRaw #[]).of_eq fun b => rfl

theorem tiled_entries {runs : List Run} (h : t.Tiled runs) : (ofRaw t.entries).Tiled runs :=
  ⟨h.spells, h.size_eq, h.small⟩

/-- Listing the free runs that the walk meets gives a table that lists just these. Their last
blocks lead back to the first; all else stays as it was, list links apart. -/
theorem ofEntries?_spec {entries : Array Entry} {free : List (Nat × Nat)}
    (hfree : (ofRaw entries).freeRuns? = some free) (hs : Spread free entries.size)
    (hsmall : entries.size < Size.limit) :
    ∃ t, ofEntries? entries = some t ∧ t.size = entries.size ∧
      t.Listed (lookupPair · free) ∧
      (∀ p ∈ free, 1 < p.2 → t.bare? (p.1 + p.2 - 1) = some (.freeTail p.1)) ∧
      ∀ y, IsBetween free y → t.bare? y = (entries[y]?).map Entry.bare := by
  obtain ⟨t, he, hsize, hl, htail, hrest⟩ := enlistAll (t := ofRaw entries) (listed_ofRaw entries)
    hs hsmall fun _ _ _ _ => rfl
  refine ⟨t, ?_, hsize, hl.of_eq fun y => by rw [Option.or_none], htail, hrest⟩
  rw [ofEntries?, show (⟨entries, emptyBins⟩ : BlockTable) = ofRaw entries from rfl, hfree]
  exact he

theorem lookupPair_eq_some_iff {α : Type} {free : List (Nat × α)} (h : KeysIncrease free) {b : Nat}
    {s : α} :
    lookupPair b free = some s ↔ (b, s) ∈ free := by
  constructor
  · intro hb
    induction free with
    | nil => cases hb
    | cons p free ih =>
      obtain ⟨b', s'⟩ := p
      rw [lookupPair] at hb
      split at hb
      · rename_i heq
        cases hb
        rw [← heq]
        exact List.mem_cons_self
      · exact List.mem_cons_of_mem _ (ih (List.pairwise_cons.1 h).2 hb)
  · exact fun hp => lookupPair_eq_some h hp

/-- The free runs of a layout lie one behind the other. -/
theorem Tiled.spread {runs : List Run} (h : t.Tiled runs) {free : List (Nat × Nat)}
    (hfree : t.freeRuns? = some free) : Spread free t.size := by
  obtain ⟨pairs, hw, hs, -, -⟩ := h.walk
  rw [freeRuns?, hw] at hfree
  cases hfree
  have hq {p : Nat × Entry} {q : Nat × Nat} (hp : freeRun? p = some q) :
      q.1 = p.1 ∧ q.2 ≤ p.2.step ∧ p.2.freeSize? = some q.2 := by
    obtain ⟨b, e⟩ := p
    cases e <;> simp [freeRun?] at hp
    subst hp
    exact ⟨rfl, Nat.le_max_left _ _, rfl⟩
  constructor
  · rw [List.pairwise_filterMap]
    refine hs.pairwise.imp fun {p p'} hpp' q hqp q' hqp' => ?_
    have h₁ := hq hqp
    have h₂ := hq hqp'
    omega
  · intro q hqm
    obtain ⟨p, hp, hqp⟩ := List.mem_filterMap.1 hqm
    obtain ⟨h₁, -, h₂⟩ := hq hqp
    have hbare : t.bare? q.1 = some (.free q.2 none none) := by
      rw [← freeSize?_eq_some, freeSize?, h₁, (hs.get_eq hp).2]
      exact h₂
    obtain ⟨l, r, rest, rfl, hx, hf⟩ := h.spells.locate_first (Nat.zero_le _)
      (by have := h.size_eq; have := lt_size_of_bare? hbare; omega) hbare rfl
    have hsize := h.size_eq
    have hpos := h.spells.length_pos (r := r) (by simp)
    rw [Run.total_append, Run.total_cons] at hsize
    cases r with
    | free s =>
      cases hf
      rw [Run.length] at hsize hpos
      omega
    | busy n => cases hf
    | cut a b => cases hf

/-- Entries that spell a layout are rebuilt to a table in order, with the same entries but for their
list links. -/
theorem ofEntries?_of_tiled {entries : Array Entry} {runs : List Run}
    (h : (ofRaw entries).Tiled runs) (hap : Run.Apart runs) :
    ∃ t, ofEntries? entries = some t ∧ t.LaidOut runs ∧
      ∀ y, t.bare? y = (ofRaw entries).bare? y := by
  obtain ⟨free, hfree, hk, hmem⟩ := h.freeRuns?_eq
  have hspread := h.spread hfree
  obtain ⟨t, he, hsize, hl, htail, hrest⟩ := ofEntries?_spec hfree hspread h.small
  have hsame (y : Nat) : t.bare? y = (ofRaw entries).bare? y := by
    by_cases hb : IsBetween free y
    · exact hrest y hb
    · simp only [IsBetween, Classical.not_forall] at hb
      obtain ⟨⟨b, s⟩, hp, hne⟩ := hb
      obtain ⟨hpos, hfit⟩ := hspread.inside _ hp
      have hhead := freeSize?_eq_some.1 ((hmem b s).1 hp)
      have hhead' := (hl.free b s ((lookupPair_eq_some_iff hk).2 hp)).2.2
      by_cases hy : y = b
      · rw [hy, hhead, hhead']
      · have hlast : y = b + s - 1 := Decidable.byContradiction fun hn => hne ⟨hy, hn⟩
        simp only at hpos hfit
        rw [hlast, htail _ hp (show 1 < s by omega)]
        -- in a layout the last block of the run leads back already
        obtain ⟨l, r, rest, rfl, hx, hf⟩ := h.spells.locate_first (Nat.zero_le _)
          (by have := h.size_eq; have := lt_size_of_bare? hhead; omega) hhead rfl
        have hrun := (Spells.append.1 h.spells).2
        rw [Nat.zero_add] at hx hrun
        subst hx
        cases r with
        | free s' =>
          cases hf
          have := hrun.2.1 (s - 1) (by simp only [Run.length]; omega)
          simp only [Run.entry] at this
          rw [if_neg (by omega), if_pos (by omega)] at this
          rw [show Run.total l + s - 1 = Run.total l + (s - 1) by omega, this]
        | busy n => cases hf
        | cut a b => cases hf
  refine ⟨t, he, ⟨⟨h.spells.congr fun y _ _ => hsame y, ?_, ?_⟩, hap, hl.of_eq fun y => ?_⟩, hsame⟩
  · rw [hsize]; exact h.size_eq
  · rw [hsize]; exact h.small
  · rw [freeSize?_congr (hsame y)]
    cases hs : (ofRaw entries).freeSize? y with
    | none =>
      cases hlook : lookupPair y free with
      | none => rfl
      | some s =>
        rw [(hmem y s).1 ((lookupPair_eq_some_iff hk).1 hlook)] at hs
        cases hs
    | some s => exact ((lookupPair_eq_some_iff hk).2 ((hmem y s).2 hs)).symm

/-! ## The old links do not matter -/

/-- An entry with another back link. -/
def withPrev (prev : Option Nat) : Entry → Entry
  | .free size next _ => .free size next prev
  | e => e

theorem get?_of_set? {block : Nat} {e : Entry} (h : t.set? block e = some t') :
    t'.bins = t.bins ∧ ∀ y, t'.get? y = if y = block then some e else t.get? y := by
  rw [set?] at h
  split at h
  · rename_i hb
    obtain ⟨t'', he, hbins, -, hget⟩ := set?_eq (t := t) e hb
    rw [set?, dif_pos hb] at he
    cases he
    cases h
    exact ⟨hbins, hget⟩
  · cases h

theorem get?_of_setPrev? {block : Nat} {link : Option Nat} (h : t.setPrev? block link = some t') :
    t'.bins = t.bins ∧
      ∀ y, t'.get? y = if y = block then (t.get? y).map (withPrev link) else t.get? y := by
  rw [setPrev?] at h
  cases hg : t.get? block with
  | none => rw [hg] at h; cases h
  | some e =>
    rw [hg] at h
    have keep (ht : t = t') (hw : withPrev link e = e) : t'.bins = t.bins ∧ ∀ y, t'.get? y =
        if y = block then (t.get? y).map (withPrev link) else t.get? y := by
      subst ht
      refine ⟨rfl, fun y => ?_⟩
      by_cases hy : y = block
      · rw [if_pos hy, hy, hg, Option.map_some, hw]
      · rw [if_neg hy]
    cases e with
    | free size next prev =>
      obtain ⟨hb, hget⟩ := get?_of_set? h
      refine ⟨hb, fun y => ?_⟩
      rw [hget]
      by_cases hy : y = block
      · rw [if_pos hy, if_pos hy, hy, hg]; rfl
      · rw [if_neg hy, if_neg hy]
    | freeTail head => exact keep (Option.some.inj h) rfl
    | freeBody => exact keep (Option.some.inj h) rfl
    | run length => exact keep (Option.some.inj h) rfl
    | runBody offset => exact keep (Option.some.inj h) rfl
    | fragmented log2 nfree => exact keep (Option.some.inj h) rfl

theorem get?_of_setPrev?_behind {behind link : Option Nat}
    (h : behind.elim (some t) (t.setPrev? · link) = some t') :
    t'.bins = t.bins ∧ ∀ y, t'.get? y =
      if behind = some y then (t.get? y).map (withPrev link) else t.get? y := by
  cases behind with
  | none =>
    cases h
    exact ⟨rfl, fun y => by simp⟩
  | some n =>
    obtain ⟨hb, hget⟩ := get?_of_setPrev? h
    refine ⟨hb, fun y => ?_⟩
    rw [hget]
    simp only [Option.some.injEq, eq_comm]

theorem get?_of_set?_last {head size : Nat} (hpos : 0 < size)
    (h : (if 1 < size then t.set? (head + size - 1) (.freeTail head) else some t) = some t') :
    t'.bins = t.bins ∧ ∀ y, t'.get? y =
      if y ≠ head ∧ y = head + size - 1 then some (.freeTail head) else t.get? y := by
  by_cases h1 : 1 < size
  · rw [if_pos h1] at h
    obtain ⟨hb, hget⟩ := get?_of_set? h
    refine ⟨hb, fun y => ?_⟩
    rw [hget]
    by_cases hy : y = head + size - 1
    · rw [if_pos hy, if_pos ⟨by omega, hy⟩]
    · rw [if_neg hy, if_neg fun h => hy h.2]
  · rw [if_neg h1] at h
    cases h
    exact ⟨rfl, fun y => by rw [if_neg (by omega)]⟩

/-- Everything that putting a run on its bin writes. -/
theorem get?_of_enlist? {head size : Nat} (hpos : 0 < size) (h : t.enlist? head size = some t') :
    t'.bins = t.bins.setIfInBounds size.log2 (some head) ∧
      ∀ y, t'.get? y =
        if y = head then some (.free size (t.binHead size.log2) none)
        else if y = head + size - 1 then some (.freeTail head)
        else if t.binHead size.log2 = some y then (t.get? y).map (withPrev (some head))
        else t.get? y := by
  rw [enlist?_unfold hpos] at h
  obtain ⟨t₁, e₁, h⟩ := Option.bind_eq_some_iff.1 h
  obtain ⟨t₂, e₂, h⟩ := Option.bind_eq_some_iff.1 h
  obtain ⟨t₃, e₃, rfl⟩ := Option.map_eq_some_iff.1 h
  obtain ⟨b₁, get₁⟩ := get?_of_setPrev?_behind e₁
  obtain ⟨b₂, get₂⟩ := get?_of_set? e₂
  obtain ⟨b₃, get₃⟩ := get?_of_set?_last hpos e₃
  refine ⟨?_, fun y => ?_⟩
  · rw [setBinHead, b₃, b₂, b₁]
  · show t₃.get? y = _
    rw [get₃, get₂, get₁]
    by_cases hy : y = head
    · rw [if_neg fun h => h.1 hy, if_pos hy, if_pos hy]
    · by_cases hy' : y = head + size - 1
      · rw [if_pos ⟨hy, hy'⟩, if_neg hy, if_pos hy']
      · rw [if_neg fun h => hy' h.2, if_neg hy, if_neg hy, if_neg hy']

/-- Tables that are alike but for the links of runs that are still to be listed. -/
structure Alike (pending : List (Nat × Nat)) (t t' : BlockTable) : Prop where
  bins_eq : t'.bins = t.bins
  get?_eq : ∀ y, (∀ p ∈ pending, y ≠ p.1) → t'.get? y = t.get? y
  listed : ∀ bin y, t.binHead bin = some y → ∀ p ∈ pending, y ≠ p.1

theorem Alike.enlistAll {free : List (Nat × Nat)} {u u' : BlockTable} (h : Alike free t t')
    (hk : KeysIncrease free) (hpos : ∀ p ∈ free, 0 < p.2)
    (e : free.foldlM (fun t p => t.enlist? p.1 p.2) t = some u)
    (e' : free.foldlM (fun t p => t.enlist? p.1 p.2) t' = some u') : u' = u := by
  induction free generalizing t t' with
  | nil =>
    cases e
    cases e'
    have hentries : u'.entries = u.entries := Array.ext_getElem? fun i => h.get?_eq i (by simp)
    cases u
    cases u'
    simp only at hentries
    have := h.bins_eq
    simp_all
  | cons p free ih =>
    obtain ⟨hafter, hk⟩ := List.pairwise_cons.1 hk
    rw [List.foldlM_cons] at e e'
    obtain ⟨t₁, e₁, e⟩ := Option.bind_eq_some_iff.1 e
    obtain ⟨t₁', e₁', e'⟩ := Option.bind_eq_some_iff.1 e'
    have hp := hpos p List.mem_cons_self
    obtain ⟨b₁, get₁⟩ := get?_of_enlist? hp e₁
    obtain ⟨b₁', get₁'⟩ := get?_of_enlist? hp e₁'
    have hbin (k : Nat) : t'.binHead k = t.binHead k := binHead_congr h.bins_eq k
    refine ih ⟨?_, fun y hy => ?_, fun k y hy q hq => ?_⟩ hk
      (fun q hq => hpos q (List.mem_cons_of_mem _ hq)) e e'
    · rw [b₁, b₁', h.bins_eq]
    · rw [get₁, get₁', hbin]
      by_cases hy' : y = p.1
      · rw [if_pos hy', if_pos hy']
      · have old : t'.get? y = t.get? y := h.get?_eq y fun q hq => by
          rcases List.mem_cons.1 hq with rfl | hq
          · exact hy'
          · exact hy q hq
        rw [old]
    · rw [binHead, b₁, Array.getElem?_setIfInBounds] at hy
      by_cases hk' : p.2.log2 = k
      · rw [if_pos hk'] at hy
        split at hy
        · cases hy
          exact Nat.ne_of_lt (hafter q hq)
        · cases hy
      · rw [if_neg hk'] at hy
        exact h.listed k y hy q (List.mem_cons_of_mem _ hq)

/-- Two lists of entries that differ in list links only are rebuilt to the same table. -/
theorem ofEntries?_congr {entries entries' : Array Entry} {runs : List Run}
    (h : (ofRaw entries).Tiled runs) (hap : Run.Apart runs) (hsize : entries'.size = entries.size)
    (hsame : ∀ y, (ofRaw entries').bare? y = (ofRaw entries).bare? y) :
    ofEntries? entries' = ofEntries? entries := by
  have h' : (ofRaw entries').Tiled runs :=
    ⟨h.spells.congr fun y _ _ => hsame y, h.size_eq.trans hsize.symm,
      show entries'.size < Size.limit by rw [hsize]; exact h.small⟩
  obtain ⟨free, hfree, hk, hmem⟩ := h.freeRuns?_eq
  have hfree' : (ofRaw entries').freeRuns? = some free := (h.freeRuns?_of_runs h').trans hfree
  obtain ⟨u, e, -⟩ := ofEntries?_of_tiled h hap
  obtain ⟨u', e', -⟩ := ofEntries?_of_tiled h' hap
  have unfolded (entries : Array Entry) (hf : (ofRaw entries).freeRuns? = some free) :
      ofEntries? entries = free.foldlM (fun t p => t.enlist? p.1 p.2) (ofRaw entries) := by
    rw [ofEntries?, show (⟨entries, emptyBins⟩ : BlockTable) = ofRaw entries from rfl, hf]
    rfl
  have hempty (bin y : Nat) : (ofRaw entries).binHead bin ≠ some y := by
    show (emptyBins[bin]?).join ≠ some y
    rw [emptyBins, Array.getElem?_replicate]
    split <;> simp
  have alike : Alike free (ofRaw entries) (ofRaw entries') := by
    refine ⟨rfl, fun y hy => ?_, fun bin y hb => absurd hb (hempty bin y)⟩
    -- an entry that starts no free run has no links
    have hsizeless : (ofRaw entries).freeSize? y = none := by
      cases hs : (ofRaw entries).freeSize? y with
      | none => rfl
      | some s => exact absurd rfl (hy _ ((hmem y s).2 hs))
    have hb := hsame y
    cases hg : (ofRaw entries).bare? y with
    | none =>
      rw [hg] at hb
      rw [Option.map_eq_none_iff.1 hb, Option.map_eq_none_iff.1 hg]
    | some e =>
      rw [hg] at hb
      have he : e.freeSize? = none := by
        rw [freeSize?_eq_bind, hg] at hsizeless
        exact hsizeless
      rw [get?_of_bare? hb he, get?_of_bare? hg he]
  rw [e, e']
  rw [unfolded _ hfree] at e
  rw [unfolded _ hfree'] at e'
  exact congrArg some (alike.enlistAll hk (fun p hp => ((h.spread hfree).inside p hp).1) e e')

end RegionHeap.BlockTable
