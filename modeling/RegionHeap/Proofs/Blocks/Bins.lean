import RegionHeap.Proofs.Blocks.Layout
import RegionHeap.Proofs.Threads

/-!
The bins of a block table. `Listed` says that the bins thread exactly the free runs of given sizes,
each in the bin of its size. While an operation is under way these are not yet, or no longer, the
free runs that the entries spell, so the sizes are a parameter. Putting a run on its bin and taking
one off are described by their effect on the sizes and on the bare entries.
-/
namespace RegionHeap

namespace Entry

/-- The link to the next free run of the bin. -/
def next : Entry → Option Nat
  | .free _ next _ => next
  | _ => none

/-- The link to the previous free run of the bin. -/
def prev : Entry → Option Nat
  | .free _ _ prev => prev
  | _ => none

end Entry

namespace BlockTable

def next (t : BlockTable) (block : Nat) : Option Nat := (t.get? block).bind Entry.next

def prev (t : BlockTable) (block : Nat) : Option Nat := (t.get? block).bind Entry.prev

/-- The bins hold the free runs of these sizes, and no others. -/
structure Listed (t : BlockTable) (sizes : Nat → Option Nat) : Prop where
  bins_size : t.bins.size = binCount
  free : ∀ block size, sizes block = some size →
    0 < size ∧ size < Size.limit ∧ t.bare? block = some (.free size none none)
  threads : Threads t.next t.prev t.binHead fun block => (sizes block).map Nat.log2

theorem log2_lt_binCount {size : Nat} (h : size < Size.limit) : size.log2 < binCount := by
  by_cases hz : size = 0
  · subst hz; decide
  · exact (Nat.log2_lt hz).2 (by rwa [Size.limit, Nat.one_shiftLeft] at h)

theorem bin?_eq {size : Nat} (h : 0 < size) : bin? size = some size.log2 := if_neg (by omega)

/-! ## Single entries -/

/-- A free entry is its size and its two links. -/
theorem get?_of_bare?_free {t : BlockTable} {block size : Nat}
    (h : t.bare? block = some (.free size none none)) :
    t.get? block = some (.free size (t.next block) (t.prev block)) := by
  obtain ⟨n, p, hg⟩ := exists_free_of_bare? h
  rw [next, prev, hg]
  rfl

theorem set?_eq {t : BlockTable} {block : Nat} (e : Entry) (h : block < t.size) :
    ∃ t', t.set? block e = some t' ∧ t'.bins = t.bins ∧ t'.size = t.size ∧
      ∀ y, t'.get? y = if y = block then some e else t.get? y := by
  have hb : block < t.entries.size := h
  refine ⟨{ t with entries := t.entries.set block e }, dif_pos h, rfl, Array.size_set hb, fun y => ?_⟩
  show (t.entries.set block e)[y]? = _
  rw [Array.getElem?_set]
  by_cases hy : block = y
  · rw [if_pos hy, if_pos hy.symm]
  · rw [if_neg hy, if_neg (Ne.symm hy)]
    rfl

/-- Two tables that differ in list links only. -/
structure Relinked (t t' : BlockTable) : Prop where
  bare?_eq : ∀ block, t'.bare? block = t.bare? block
  size_eq : t'.size = t.size

theorem Relinked.refl (t : BlockTable) : Relinked t t := ⟨fun _ => rfl, rfl⟩

theorem Relinked.trans {t t' t'' : BlockTable} (h : Relinked t t') (h' : Relinked t' t'') :
    Relinked t t'' :=
  ⟨fun b => (h'.bare?_eq b).trans (h.bare?_eq b), h'.size_eq.trans h.size_eq⟩

/-- Changing the back link of a free run changes nothing else. -/
theorem setPrev?_eq {t : BlockTable} {block size : Nat} (link : Option Nat)
    (h : t.bare? block = some (.free size none none)) :
    ∃ t', t.setPrev? block link = some t' ∧ Relinked t t' ∧ t'.bins = t.bins ∧
      (∀ y, t'.next y = t.next y) ∧ ∀ y, t'.prev y = if y = block then link else t.prev y := by
  have hg := get?_of_bare?_free h
  obtain ⟨t', ht, hb, hs, hget⟩ := set?_eq (.free size (t.next block) link) (lt_size_of_get? hg)
  refine ⟨t', by rw [setPrev?, hg]; exact ht, ⟨fun y => ?_, hs⟩, hb, fun y => ?_, fun y => ?_⟩
  · rw [bare?, hget]
    by_cases hy : y = block
    · subst hy; rw [if_pos rfl, h]; rfl
    · rw [if_neg hy]; rfl
  · rw [next, hget]
    by_cases hy : y = block
    · subst hy; rw [if_pos rfl]; rfl
    · rw [if_neg hy]; rfl
  · rw [prev, hget]
    by_cases hy : y = block
    · rw [if_pos hy, if_pos hy]; rfl
    · rw [if_neg hy, if_neg hy]; rfl

/-- Changing the forward link of a free run changes nothing else. -/
theorem setNext?_eq {t : BlockTable} {block size : Nat} (link : Option Nat)
    (h : t.bare? block = some (.free size none none)) :
    ∃ t', t.setNext? block link = some t' ∧ Relinked t t' ∧ t'.bins = t.bins ∧
      (∀ y, t'.prev y = t.prev y) ∧ ∀ y, t'.next y = if y = block then link else t.next y := by
  have hg := get?_of_bare?_free h
  obtain ⟨t', ht, hb, hs, hget⟩ := set?_eq (.free size link (t.prev block)) (lt_size_of_get? hg)
  refine ⟨t', by rw [setNext?, hg]; exact ht, ⟨fun y => ?_, hs⟩, hb, fun y => ?_, fun y => ?_⟩
  · rw [bare?, hget]
    by_cases hy : y = block
    · subst hy; rw [if_pos rfl, h]; rfl
    · rw [if_neg hy]; rfl
  · rw [prev, hget]
    by_cases hy : y = block
    · subst hy; rw [if_pos rfl]; rfl
    · rw [if_neg hy]; rfl
  · rw [next, hget]
    by_cases hy : y = block
    · rw [if_pos hy, if_pos hy]; rfl
    · rw [if_neg hy, if_neg hy]; rfl

theorem binHead_setBinHead {t : BlockTable} (hb : t.bins.size = binCount) {bin : Nat}
    (h : bin < binCount) (head : Option Nat) (k : Nat) :
    (t.setBinHead bin head).binHead k = if k = bin then head else t.binHead k := by
  simp only [binHead, setBinHead, Array.getElem?_setIfInBounds]
  by_cases hk : bin = k
  · rw [if_pos hk, if_pos hk.symm, if_pos (by omega)]; rfl
  · rw [if_neg hk, if_neg (Ne.symm hk)]

theorem binHead_congr {t t' : BlockTable} (h : t'.bins = t.bins) (k : Nat) :
    t'.binHead k = t.binHead k := by
  rw [binHead, binHead, h]

/-- The back link of the free run behind, if there is one, is set. -/
theorem setPrev?_behind {t : BlockTable} (behind link : Option Nat)
    (h : ∀ n ∈ behind, ∃ size, t.bare? n = some (.free size none none)) :
    ∃ t', behind.elim (some t) (t.setPrev? · link) = some t' ∧ Relinked t t' ∧ t'.bins = t.bins ∧
      (∀ y, t'.next y = t.next y) ∧
      ∀ y, t'.prev y = if behind = some y then link else t.prev y := by
  cases behind with
  | none => exact ⟨t, rfl, Relinked.refl t, rfl, fun _ => rfl, fun y => by simp⟩
  | some n =>
    obtain ⟨size, hn⟩ := h n rfl
    obtain ⟨t', ht, r, hb, hnext, hprev⟩ := setPrev?_eq link hn
    refine ⟨t', ht, r, hb, hnext, fun y => ?_⟩
    rw [hprev]
    simp only [Option.some.injEq, eq_comm]

/-- The forward link of the free run before is set, or else the head of its bin. -/
theorem setNext?_before {t : BlockTable} {before : Option Nat} (link : Option Nat) {size : Nat}
    (hb : t.bins.size = binCount) (hpos : 0 < size) (hlim : size < Size.limit)
    (h : ∀ p ∈ before, ∃ size, t.bare? p = some (.free size none none)) :
    ∃ t', before.elim ((bin? size).map fun bin => t.setBinHead bin link) (t.setNext? · link) =
        some t' ∧
      Relinked t t' ∧ t'.bins.size = t.bins.size ∧
      (∀ k, t'.binHead k = if k = size.log2 ∧ before = none then link else t.binHead k) ∧
      (∀ y, t'.next y = if before = some y then link else t.next y) ∧
      ∀ y, t'.prev y = t.prev y := by
  cases before with
  | none =>
    refine ⟨t.setBinHead size.log2 link, by rw [bin?_eq hpos]; rfl, ⟨fun _ => rfl, rfl⟩,
      by simp [setBinHead], fun k => ?_, fun y => by simp; rfl, fun _ => rfl⟩
    rw [binHead_setBinHead hb (log2_lt_binCount hlim)]
    simp
  | some p =>
    obtain ⟨s, hp⟩ := h p rfl
    obtain ⟨t', ht, r, hb, hprev, hnext⟩ := setNext?_eq link hp
    refine ⟨t', ht, r, by rw [hb], fun k => by simp [binHead_congr hb], fun y => ?_, hprev⟩
    rw [hnext]
    simp only [Option.some.injEq, eq_comm]

namespace Listed

variable {t t' : BlockTable} {sizes : Nat → Option Nat}

/-- Entries of blocks that are not listed do not matter. -/
theorem congr (hl : t.Listed sizes) (hb : t'.bins = t.bins)
    (h : ∀ block, sizes block ≠ none → t'.get? block = t.get? block) : t'.Listed sizes where
  bins_size := by rw [hb]; exact hl.bins_size
  free block size hs := by
    obtain ⟨hpos, hlim, he⟩ := hl.free block size hs
    exact ⟨hpos, hlim, by rw [bare?, h block (by rw [hs]; simp)]; exact he⟩
  threads := by
    refine hl.threads.congr (binHead_congr hb) fun x hx => ?_
    have hne : sizes x ≠ none := by
      intro hn
      rw [hn] at hx
      exact hx rfl
    rw [next, prev, h x hne]
    exact ⟨rfl, rfl⟩

theorem lt_size (hl : t.Listed sizes) {block size : Nat} (h : sizes block = some size) :
    block < t.size :=
  lt_size_of_bare? (hl.free block size h).2.2

theorem exists_of_home (_hl : t.Listed sizes) {block bin : Nat}
    (h : (sizes block).map Nat.log2 = some bin) :
    ∃ size, sizes block = some size ∧ size.log2 = bin :=
  Option.map_eq_some_iff.1 h

/-- What a list link or a bin leads to is a listed free run. -/
theorem exists_of_binHead (hl : t.Listed sizes) {bin block : Nat} (h : t.binHead bin = some block) :
    ∃ size, sizes block = some size ∧ size.log2 = bin :=
  hl.exists_of_home (hl.threads.home_of_head h)

theorem exists_of_next (hl : t.Listed sizes) {block size next : Nat} (hs : sizes block = some size)
    (h : t.next block = some next) : ∃ size', sizes next = some size' ∧ size'.log2 = size.log2 :=
  hl.exists_of_home (hl.threads.home_next (by rw [hs]; rfl) h)

theorem exists_of_prev (hl : t.Listed sizes) {block size prev : Nat} (hs : sizes block = some size)
    (h : t.prev block = some prev) : ∃ size', sizes prev = some size' ∧ size'.log2 = size.log2 :=
  hl.exists_of_home (hl.threads.home_prev (by rw [hs]; rfl) h)

theorem free_of_home (hl : t.Listed sizes) {block bin : Nat}
    (h : ∃ size, sizes block = some size ∧ size.log2 = bin) :
    ∃ size, t.bare? block = some (.free size none none) := by
  obtain ⟨size, hs, -⟩ := h
  exact ⟨size, (hl.free block size hs).2.2⟩

end Listed

/-! ## Putting a run on its bin -/

/-- The writes that put a run on its bin, one after another. -/
theorem enlist?_unfold {t : BlockTable} {head size : Nat} (hpos : 0 < size) :
    t.enlist? head size =
      ((t.binHead size.log2).elim (some t) (t.setPrev? · (some head))).bind fun t₁ =>
      (t₁.set? head (.free size (t.binHead size.log2) none)).bind fun t₂ =>
      (if 1 < size then t₂.set? (head + size - 1) (.freeTail head) else some t₂).map fun t₃ =>
        t₃.setBinHead size.log2 (some head) := by
  rw [enlist?, bin?_eq hpos]
  simp only [Option.bind_eq_bind, Option.bind_some, Option.map_eq_bind]
  cases t.binHead size.log2 with
  | none => by_cases h1 : 1 < size <;> simp only [h1, if_true, if_false] <;> rfl
  | some n => by_cases h1 : 1 < size <;> simp only [h1, if_true, if_false] <;> rfl

/-- The first and the last entry of a free run are set. -/
theorem set?_ends {t : BlockTable} {head size : Nat} (next : Option Nat) (hpos : 0 < size)
    (hfit : head + size ≤ t.size) :
    ∃ t₁ t₂, t.set? head (.free size next none) = some t₁ ∧
      (if 1 < size then t₁.set? (head + size - 1) (.freeTail head) else some t₁) = some t₂ ∧
      t₂.bins = t.bins ∧ t₂.size = t.size ∧ ∀ y, t₂.get? y =
        if y = head then some (.free size next none)
        else if y = head + size - 1 then some (.freeTail head) else t.get? y := by
  obtain ⟨t₁, e₁, b₁, s₁, get₁⟩ := set?_eq (.free size next none) (show head < t.size by omega)
  by_cases h1 : 1 < size
  · obtain ⟨t₂, e₂, b₂, s₂, get₂⟩ := set?_eq (.freeTail head)
      (show head + size - 1 < t₁.size by omega)
    refine ⟨t₁, t₂, e₁, by rw [if_pos h1]; exact e₂, b₂.trans b₁, s₂.trans s₁, fun y => ?_⟩
    rw [get₂, get₁]
    by_cases hy : y = head
    · rw [if_neg (by omega), if_pos hy, if_pos hy]
    · rw [if_neg hy, if_neg hy]
  · refine ⟨t₁, t₁, e₁, by rw [if_neg h1], b₁, s₁, fun y => ?_⟩
    rw [get₁]
    -- the run is one block, so its last entry is its first one
    by_cases hy : y = head
    · rw [if_pos hy, if_pos hy]
    · rw [if_neg hy, if_neg hy, if_neg (by omega)]

/-- A run that is not listed gets its first and last entry and is put first in its bin. -/
theorem enlist?_eq {t : BlockTable} {sizes : Nat → Option Nat} {head size : Nat}
    (hl : t.Listed sizes) (hpos : 0 < size) (hlim : size < Size.limit) (hfit : head + size ≤ t.size)
    (hhead : sizes head = none) (htail : sizes (head + size - 1) = none) :
    ∃ t', t.enlist? head size = some t' ∧ t'.Listed (replaced sizes head (some size)) ∧
      t'.size = t.size ∧ ∀ y, t'.bare? y =
        if y = head then some (.free size none none)
        else if y = head + size - 1 then some (.freeTail head) else t.bare? y := by
  obtain ⟨t₁, e₁, r₁, b₁, next₁, prev₁⟩ := setPrev?_behind (t.binHead size.log2) (some head)
    fun n hn => hl.free_of_home (hl.exists_of_binHead hn)
  obtain ⟨t₂, t₃, e₂, e₃, b₃, s₃, get⟩ := set?_ends (t.binHead size.log2) hpos
    (show head + size ≤ t₁.size by rw [r₁.size_eq]; exact hfit)
  have bare (y : Nat) : (t₃.setBinHead size.log2 (some head)).bare? y =
      if y = head then some (.free size none none)
      else if y = head + size - 1 then some (.freeTail head) else t.bare? y := by
    show (t₃.get? y).map Entry.bare = _
    rw [get]
    by_cases hy : y = head
    · rw [if_pos hy, if_pos hy]; rfl
    · rw [if_neg hy, if_neg hy]
      by_cases hy' : y = head + size - 1
      · rw [if_pos hy', if_pos hy']; rfl
      · rw [if_neg hy', if_neg hy']
        exact r₁.bare?_eq y
  have ne_of_listed {y : Nat} (hy : (sizes y).map Nat.log2 ≠ none) :
      y ≠ head ∧ y ≠ head + size - 1 := by
    constructor
    · rintro rfl; rw [hhead] at hy; exact hy rfl
    · rintro rfl; rw [htail] at hy; exact hy rfl
  have bins : t₃.bins = t.bins := by rw [b₃, b₁]
  refine ⟨t₃.setBinHead size.log2 (some head), ?_, ?_, ?_, bare⟩
  · rw [enlist?_unfold hpos, e₁, Option.bind_some, e₂, Option.bind_some, e₃, Option.map_some]
  · refine ⟨?_, fun b s hs => ?_, ?_⟩
    · simp [setBinHead, bins, hl.bins_size]
    · by_cases hb : b = head
      · subst hb
        rw [replaced_self, Option.some.injEq] at hs
        subst hs
        exact ⟨hpos, hlim, by rw [bare, if_pos rfl]⟩
      · rw [replaced_of_ne _ _ hb] at hs
        obtain ⟨h0, h1, h2⟩ := hl.free b s hs
        obtain ⟨hne, hne'⟩ := ne_of_listed (y := b) (by rw [hs]; simp)
        exact ⟨h0, h1, by rw [bare, if_neg hne, if_neg hne']; exact h2⟩
    · rw [map_replaced (Option.map Nat.log2)]
      refine hl.threads.push (by simp [hhead]) (fun k => ?_) ?_ ?_ (fun y hy => ?_) fun y hy => ?_
      · rw [binHead_setBinHead (by rw [bins]; exact hl.bins_size) (log2_lt_binCount hlim),
          binHead_congr bins]
      · show (t₃.get? head).bind Entry.next = _
        rw [get, if_pos rfl]; rfl
      · show (t₃.get? head).bind Entry.prev = _
        rw [get, if_pos rfl]; rfl
      · obtain ⟨hne, hne'⟩ := ne_of_listed hy
        show (t₃.get? y).bind Entry.next = _
        rw [get, if_neg hne, if_neg hne']
        exact next₁ y
      · obtain ⟨hne, hne'⟩ := ne_of_listed hy
        show (t₃.get? y).bind Entry.prev = _
        rw [get, if_neg hne, if_neg hne']
        exact prev₁ y
  · show t₃.size = t.size
    rw [s₃, r₁.size_eq]

/-! ## Taking a run off its bin -/

theorem delist?_of_steps {t t₁ t₂ : BlockTable} {head size : Nat} {next prev : Option Nat}
    (hget : t.get? head = some (.free size next prev))
    (e₁ : prev.elim ((bin? size).map fun bin => t.setBinHead bin next) (t.setNext? · next) = some t₁)
    (e₂ : next.elim (some t₁) (t₁.setPrev? · prev) = some t₂) :
    t.delist? head = some (size, t₂) := by
  rw [delist?, hget]
  cases prev <;> cases next <;> simp only [Option.elim] at e₁ e₂ <;> simp [e₁, e₂]

/-- A listed run is taken off its bin; its entries stay. -/
theorem delist?_eq {t : BlockTable} {sizes : Nat → Option Nat} {head size : Nat}
    (hl : t.Listed sizes) (hs : sizes head = some size) :
    ∃ t', t.delist? head = some (size, t') ∧ t'.Listed (replaced sizes head none) ∧
      Relinked t t' := by
  obtain ⟨hpos, hlim, hbare⟩ := hl.free head size hs
  have hget := get?_of_bare?_free hbare
  have hhome : (sizes head).map Nat.log2 = some size.log2 := by rw [hs]; rfl
  -- the run before, or the bin, now leads to the run behind
  obtain ⟨t₁, e₁, r₁, bs₁, heads₁, next₁, prev₁⟩ :=
    setNext?_before (t.next head) hl.bins_size hpos hlim
      fun p hp => hl.free_of_home (hl.exists_of_prev hs hp)
  -- the run behind now leads back to the run before
  obtain ⟨t₂, e₂, r₂, b₂, next₂, prev₂⟩ :=
    setPrev?_behind (t := t₁) (t.next head) (t.prev head) fun n hn => by
      rw [r₁.bare?_eq]
      exact hl.free_of_home (hl.exists_of_next hs hn)
  have r := r₁.trans r₂
  refine ⟨t₂, ?_, ⟨?_, fun b s hb => ?_, ?_⟩, r⟩
  · exact delist?_of_steps hget e₁ e₂
  · rw [b₂, bs₁]; exact hl.bins_size
  · by_cases hb' : b = head
    · subst hb'; simp at hb
    · rw [replaced_of_ne _ _ hb'] at hb
      rw [r.bare?_eq]
      exact hl.free b s hb
  · rw [map_replaced (Option.map Nat.log2)]
    exact hl.threads.remove hhome (fun k => by rw [binHead_congr b₂, heads₁])
      (fun y _ _ => by rw [next₂, next₁]) fun y _ _ => by rw [prev₂, prev₁]

end BlockTable

end RegionHeap
