import RegionHeap.Heap.Fragments
import RegionHeap.Proofs.Heap.Outcome
import RegionHeap.Proofs.Region.Words
import RegionHeap.Proofs.Threads

/-!
The lists of free fragments. Their links lie in the arena, in the first 16 bytes of each listed
fragment, so listing a fragment and taking it off write there and nowhere else. `Lists` says which
fragments are on which list; while an operation is under way these need not be the ones that the
busy maps call free.
-/
namespace RegionHeap

namespace Heap

open HeapM

/-- A byte of the arena. -/
def arenaByte (h : Heap) (offset : Nat) : UInt8 := h.region.byte (h.arenaStart + offset)

/-- The forward link in a fragment. -/
def nextFragment (h : Heap) (offset : Nat) : Option Nat :=
  (h.arenaNumber? offset).bind Link.decode

/-- The back link in a fragment. -/
def prevFragment (h : Heap) (offset : Nat) : Option Nat :=
  (h.arenaNumber? (offset + 8)).bind Link.decode

/-- The first free fragment of a size. -/
def listHead (h : Heap) (log2 : Nat) : Option Nat := h.freeLists[log2]?.join

/-- Two heaps that differ in bytes of the arena and in heads of fragment lists only. -/
structure Relisted (h h' : Heap) : Prop where
  eq : h' = { h with region := h'.region, freeLists := h'.freeLists }
  region : Region.Rewritten h.region h'.region
  lists : h'.freeLists.size = h.freeLists.size
  metadata : ∀ i, i < h.arenaStart → h'.region.byte i = h.region.byte i

variable {h h' h'' : Heap}

theorem Relisted.refl (h : Heap) : Relisted h h :=
  ⟨rfl, Region.Rewritten.refl _, rfl, fun _ _ => rfl⟩

theorem Relisted.arenaStart_eq (r : Relisted h h') : h'.arenaStart = h.arenaStart := by
  rw [r.eq]

theorem Relisted.size_eq (r : Relisted h h') : h'.region.size = h.region.size := r.region.size_eq

theorem Relisted.trans (r : Relisted h h') (r' : Relisted h' h'') : Relisted h h'' where
  eq := by
    have e := r'.eq
    rw [r.eq] at e
    exact e
  region := r.region.trans r'.region
  lists := r'.lists.trans r.lists
  metadata i hi := by
    rw [r'.metadata i (by rw [r.arenaStart_eq]; exact hi), r.metadata i hi]

/-- A place for the two links of a fragment. -/
def HoldsLinks (h : Heap) (offset : Nat) : Prop :=
  offset % 16 = 0 ∧ h.arenaStart + offset + 16 ≤ h.region.size

theorem Relisted.holdsLinks (r : Relisted h h') {offset : Nat} (hx : h.HoldsLinks offset) :
    h'.HoldsLinks offset := by
  unfold HoldsLinks at *
  rw [r.arenaStart_eq, r.size_eq]
  exact hx

/-- The fragments at home on each list. -/
structure Lists (h : Heap) (home : Nat → Option Nat) : Prop where
  place : ∀ x k, home x = some k → k < h.freeLists.size ∧ h.HoldsLinks x
  threads : Threads h.nextFragment h.prevFragment h.listHead home

/-! ## Reading links -/

theorem arenaNumber?_eq_some {offset : Nat} (h8 : h.arenaStart + offset + 8 ≤ h.region.size) :
    ∃ n, h.arenaNumber? offset = some n :=
  ⟨_, Region.number?_eq_some h8⟩

theorem linksAt?_eq {offset : Nat} (hx : h.HoldsLinks offset) :
    h.linksAt? offset = some (h.nextFragment offset, h.prevFragment offset) := by
  obtain ⟨hal, hfit⟩ := hx
  obtain ⟨n, hn⟩ := arenaNumber?_eq_some (show h.arenaStart + offset + 8 ≤ h.region.size by omega)
  obtain ⟨p, hp⟩ := arenaNumber?_eq_some
    (show h.arenaStart + (offset + 8) + 8 ≤ h.region.size by omega)
  rw [linksAt?, nextFragment, prevFragment, hn, hp]
  rfl

/-- A link is read from the eight bytes that hold it. -/
theorem arenaNumber?_congr (hstart : h'.arenaStart = h.arenaStart) {offset : Nat}
    (hfit : h.arenaStart + offset + 8 ≤ h.region.size)
    (hfit' : h.arenaStart + offset + 8 ≤ h'.region.size)
    (hb : ∀ i, offset ≤ i → i < offset + 8 → h'.arenaByte i = h.arenaByte i) :
    h'.arenaNumber? offset = h.arenaNumber? offset := by
  rw [arenaNumber?, arenaNumber?, hstart]
  refine Region.number?_congr hfit hfit' fun i hlo hhi => ?_
  have := hb (i - h.arenaStart) (by omega) (by omega)
  rw [arenaByte, arenaByte, hstart, show h.arenaStart + (i - h.arenaStart) = i by omega] at this
  exact this

theorem links_congr (hstart : h'.arenaStart = h.arenaStart) {offset : Nat}
    (hx : h.HoldsLinks offset) (hx' : h'.HoldsLinks offset)
    (hb : ∀ i, offset ≤ i → i < offset + 16 → h'.arenaByte i = h.arenaByte i) :
    h'.nextFragment offset = h.nextFragment offset ∧
      h'.prevFragment offset = h.prevFragment offset := by
  obtain ⟨-, hfit⟩ := hx
  obtain ⟨-, hfit'⟩ := hx'
  rw [nextFragment, nextFragment, prevFragment, prevFragment,
    arenaNumber?_congr hstart (by omega) (by omega) fun i h₁ h₂ => hb i h₁ (by omega),
    arenaNumber?_congr hstart (by omega) (by omega) fun i h₁ h₂ => hb i (by omega) (by omega)]
  exact ⟨rfl, rfl⟩

/-- Lists are read from the links of the listed fragments and from nothing else. -/
theorem Lists.congr {home : Nat → Option Nat} (l : h.Lists home)
    (hstart : h'.arenaStart = h.arenaStart) (hlists : h'.freeLists = h.freeLists)
    (hfit : ∀ x k, home x = some k → h'.HoldsLinks x)
    (hb : ∀ x k, home x = some k → ∀ i, x ≤ i → i < x + 16 → h'.arenaByte i = h.arenaByte i) :
    h'.Lists home where
  place x k hx := ⟨by rw [hlists]; exact (l.place x k hx).1, hfit x k hx⟩
  threads := by
    refine l.threads.congr (fun k => by rw [listHead, listHead, hlists]) fun x hne => ?_
    obtain ⟨k, hk⟩ := Option.ne_none_iff_exists'.1 hne
    exact links_congr hstart (l.place x k hk).2 (hfit x k hk) (hb x k hk)

theorem Lists.of_eq {home home' : Nat → Option Nat} (l : h.Lists home)
    (he : ∀ x, home' x = home x) : h.Lists home' := by
  rw [show home' = home from funext he]
  exact l

/-! ## Writing links -/

variable {roomy : Prop} {E : HeapError → Heap → Prop}

/-- A write inside the arena changes the bytes it covers. -/
theorem writeArena_ends {offset : Nat} {data : ByteArray}
    (hfit : h.arenaStart + offset + data.size ≤ h.region.size) :
    Ends roomy (writeArena offset data) h (fun _ h' =>
      Relisted h h' ∧ h'.freeLists = h.freeLists ∧ ∀ i, h'.arenaByte i =
        if offset ≤ i ∧ i < offset + data.size then Bytes.byte data (i - offset)
        else h.arenaByte i) E := by
  obtain ⟨r', hr, hw, hb⟩ := Region.write?_eq hfit
  refine Ends.bind' (Ends.get' (Ends.modifyRegion' hr ⟨⟨rfl, hw, rfl, fun i hi => ?_⟩, rfl,
    fun i => ?_⟩))
  · rw [hb, if_neg (by omega)]
  · show r'.byte (h.arenaStart + i) = _
    rw [hb]
    by_cases hin : offset ≤ i ∧ i < offset + data.size
    · rw [if_pos (by omega), if_pos hin]
      congr 1
      omega
    · rw [if_neg (by omega), if_neg hin]
      rfl

/-- A link that can be written. -/
def IsLink (link : Option Nat) : Prop := ∀ offset ∈ link, offset < Link.nil

theorem encode_lt {link : Option Nat} (hl : IsLink link) : Link.encode link < 1 <<< (8 * 8) := by
  cases link with
  | none => decide
  | some offset =>
    have := hl offset rfl
    simp only [Link.encode, Option.getD_some, Link.nil] at this ⊢
    omega

theorem writeLink_ends {offset : Nat} {link : Option Nat}
    (hfit : h.arenaStart + offset + 8 ≤ h.region.size) (hl : IsLink link) :
    Ends roomy (writeArena offset (Bytes.ofNumber 8 (Link.encode link))) h (fun _ h' =>
      Relisted h h' ∧ h'.freeLists = h.freeLists ∧
      (h'.arenaNumber? offset).bind Link.decode = link ∧
      ∀ i, ¬(offset ≤ i ∧ i < offset + 8) → h'.arenaByte i = h.arenaByte i) E := by
  refine (writeArena_ends (by rw [Bytes.size_ofNumber]; exact hfit)).mono ?_ fun _ _ hE => hE
  rintro - h' ⟨hr, hlists, hb⟩
  rw [Bytes.size_ofNumber] at hb
  refine ⟨hr, hlists, ?_, fun i hi => by rw [hb, if_neg hi]⟩
  have : h'.arenaNumber? offset = some (Link.encode link) := by
    rw [arenaNumber?, hr.arenaStart_eq]
    refine Region.number?_of_bytes (by rw [hr.size_eq]; exact hfit) (encode_lt hl) fun i hi => ?_
    have := hb (offset + i)
    rw [if_pos (by omega), Nat.add_sub_cancel_left, arenaByte, hr.arenaStart_eq] at this
    rw [← this, Nat.add_assoc]
  rw [this, Option.bind_some, Link.decode_encode hl]

/-- Setting the forward link of a fragment changes no other link. -/
theorem linkForward_ends {offset : Nat} {link : Option Nat} (hx : h.HoldsLinks offset)
    (hl : IsLink link) :
    Ends roomy (linkForward offset link) h (fun _ h' =>
      Relisted h h' ∧ h'.freeLists = h.freeLists ∧
      (∀ y, h.HoldsLinks y →
        h'.nextFragment y = (if y = offset then link else h.nextFragment y) ∧
        h'.prevFragment y = h.prevFragment y) ∧
      ∀ i, ¬(offset ≤ i ∧ i < offset + 16) → h'.arenaByte i = h.arenaByte i) E := by
  obtain ⟨hal, hfit⟩ := hx
  refine (writeLink_ends (by omega) hl).mono ?_ fun _ _ hE => hE
  rintro - h' ⟨hr, hlists, hnew, hb⟩
  refine ⟨hr, hlists, fun y hy => ?_, fun i hi => hb i (by omega)⟩
  obtain ⟨hy, hyfit⟩ := hy
  have hs := hr.size_eq
  constructor
  · by_cases hyx : y = offset
    · subst hyx
      rw [if_pos rfl, nextFragment, hnew]
    · rw [if_neg hyx, nextFragment, nextFragment,
        arenaNumber?_congr hr.arenaStart_eq (by omega) (by omega) fun i _ _ => hb i (by omega)]
  · rw [prevFragment, prevFragment,
      arenaNumber?_congr hr.arenaStart_eq (by omega) (by omega) fun i _ _ => hb i (by omega)]

/-- Setting the back link of a fragment changes no other link. -/
theorem linkBack_ends {offset : Nat} {link : Option Nat} (hx : h.HoldsLinks offset)
    (hl : IsLink link) :
    Ends roomy (linkBack offset link) h (fun _ h' =>
      Relisted h h' ∧ h'.freeLists = h.freeLists ∧
      (∀ y, h.HoldsLinks y →
        h'.nextFragment y = h.nextFragment y ∧
        h'.prevFragment y = (if y = offset then link else h.prevFragment y)) ∧
      ∀ i, ¬(offset ≤ i ∧ i < offset + 16) → h'.arenaByte i = h.arenaByte i) E := by
  obtain ⟨hal, hfit⟩ := hx
  refine (writeLink_ends (by omega) hl).mono ?_ fun _ _ hE => hE
  rintro - h' ⟨hr, hlists, hnew, hb⟩
  refine ⟨hr, hlists, fun y hy => ?_, fun i hi => hb i (by omega)⟩
  obtain ⟨hy, hyfit⟩ := hy
  have hs := hr.size_eq
  constructor
  · rw [nextFragment, nextFragment,
      arenaNumber?_congr hr.arenaStart_eq (by omega) (by omega) fun i _ _ => hb i (by omega)]
  · by_cases hyx : y = offset
    · subst hyx
      rw [if_pos rfl, prevFragment, hnew]
    · rw [if_neg hyx, prevFragment, prevFragment,
        arenaNumber?_congr hr.arenaStart_eq (by omega) (by omega) fun i _ _ => hb i (by omega)]

/-- Setting the head of a list changes no link and no byte. -/
theorem setFirstFree_ends {log2 : Nat} {head : Option Nat} (hk : log2 < h.freeLists.size) :
    Ends roomy (setFirstFree log2 head) h (fun _ h' =>
      Relisted h h' ∧ (∀ k, h'.listHead k = if k = log2 then head else h.listHead k) ∧
      (∀ y, h'.nextFragment y = h.nextFragment y ∧ h'.prevFragment y = h.prevFragment y) ∧
      ∀ i, h'.arenaByte i = h.arenaByte i) E := by
  refine Ends.bind' (Ends.get' (Ends.ite' (fun _ => Ends.set' ?_) fun hout => absurd hk hout))
  refine ⟨⟨rfl, Region.Rewritten.refl _, by simp, fun _ _ => rfl⟩, fun k => ?_,
    fun _ => ⟨rfl, rfl⟩, fun _ => rfl⟩
  show ((h.freeLists.setIfInBounds log2 head)[k]?).join = _
  rw [Array.getElem?_setIfInBounds]
  by_cases hkk : log2 = k
  · subst hkk
    rw [if_pos rfl, if_pos hk, if_pos rfl]
    rfl
  · rw [if_neg hkk, if_neg (Ne.symm hkk)]
    rfl

/-- The fragment behind, if there is one, is linked back. -/
theorem linkBehind_ends {next link : Option Nat} (hplace : ∀ y ∈ next, h.HoldsLinks y)
    (hl : IsLink link) :
    Ends roomy (next.elim (pure ()) (linkBack · link)) h (fun _ h' =>
      Relisted h h' ∧ h'.freeLists = h.freeLists ∧
      (∀ y, h.HoldsLinks y → h'.nextFragment y = h.nextFragment y ∧
        h'.prevFragment y = if next = some y then link else h.prevFragment y) ∧
      ∀ i, (∀ y ∈ next, ¬(y ≤ i ∧ i < y + 16)) → h'.arenaByte i = h.arenaByte i) E := by
  cases next with
  | none => exact Ends.pure' ⟨Relisted.refl _, rfl, fun _ _ => ⟨rfl, by simp⟩, fun _ _ => rfl⟩
  | some next =>
    refine (linkBack_ends (hplace next rfl) hl).mono ?_ fun _ _ hE => hE
    rintro - h' ⟨r, f, n, b⟩
    refine ⟨r, f, fun y hy => ⟨(n y hy).1, ?_⟩, fun i hi => b i (hi next rfl)⟩
    rw [(n y hy).2]
    simp only [Option.some.injEq, eq_comm]

/-- What leads to a fragment is linked forward: the fragment before it, or else the head of its
list. -/
theorem linkBefore_ends {log2 : Nat} {prev link : Option Nat} (hk : log2 < h.freeLists.size)
    (hplace : ∀ y ∈ prev, h.HoldsLinks y) (hl : IsLink link) :
    Ends roomy (prev.elim (setFirstFree log2 link) (linkForward · link)) h (fun _ h' =>
      Relisted h h' ∧
      (∀ k, h'.listHead k = if k = log2 ∧ prev = none then link else h.listHead k) ∧
      (∀ y, h.HoldsLinks y →
        h'.nextFragment y = (if prev = some y then link else h.nextFragment y) ∧
        h'.prevFragment y = h.prevFragment y) ∧
      ∀ i, (∀ y ∈ prev, ¬(y ≤ i ∧ i < y + 16)) → h'.arenaByte i = h.arenaByte i) E := by
  cases prev with
  | none =>
    refine (setFirstFree_ends hk).mono ?_ fun _ _ hE => hE
    rintro - h' ⟨r, heads, n, b⟩
    exact ⟨r, fun k => by rw [heads]; simp, fun y _ => ⟨by rw [(n y).1]; simp, (n y).2⟩,
      fun i _ => b i⟩
  | some prev =>
    refine (linkForward_ends (hplace prev rfl) hl).mono ?_ fun _ _ hE => hE
    rintro - h' ⟨r, f, n, b⟩
    refine ⟨r, fun k => by simp [listHead, f], fun y hy => ⟨?_, (n y hy).2⟩,
      fun i hi => b i (hi prev rfl)⟩
    rw [(n y hy).1]
    simp only [Option.some.injEq, eq_comm]

/-! ## Listing and unlisting -/

variable {home : Nat → Option Nat}

/-- Listed fragments have their place also when links are rewritten. -/
theorem Lists.place_of_relisted (l : h.Lists home) (r : Relisted h h') {x k : Nat}
    (hx : home x = some k) : k < h'.freeLists.size ∧ h'.HoldsLinks x := by
  obtain ⟨hk, hplace⟩ := l.place x k hx
  exact ⟨by rw [r.lists]; exact hk, r.holdsLinks hplace⟩

/-- Listed fragments can be linked to. -/
theorem Lists.isLink_home (l : h.Lists home) (hsmall : h.region.size < Size.limit) {link : Option Nat}
    {log2 : Nat} (hl : ∀ x ∈ link, home x = some log2) : IsLink link := by
  intro x hx
  have := (l.place x log2 (hl x hx)).2.2
  simp only [Link.nil, Size.limit] at *
  omega

theorem isLink_some {x : Nat} (hx : h.HoldsLinks x) (hsmall : h.region.size < Size.limit) :
    IsLink (some x) := by
  rintro _ ⟨⟩
  have := hx.2
  simp only [Link.nil, Size.limit] at *
  omega

theorem isLink_none : IsLink none := by simp [IsLink]

/-- Bytes outside the links of listed fragments and of one more stay as they are. -/
def KeepsOutside (h h' : Heap) (home : Nat → Option Nat) (offset : Nat) : Prop :=
  ∀ i, ¬(offset ≤ i ∧ i < offset + 16) →
    (∀ x k, home x = some k → ¬(x ≤ i ∧ i < x + 16)) → h'.arenaByte i = h.arenaByte i

theorem listFragment_eq (log2 offset : Nat) :
    listFragment log2 offset = firstFree log2 >>= fun head =>
      linkForward offset head >>= fun _ => linkBack offset none >>= fun _ =>
      head.elim (pure ()) (linkBack · (some offset)) >>= fun _ =>
      setFirstFree log2 (some offset) := by
  unfold listFragment
  congr 1
  funext head
  cases head <;> rfl

theorem unlistFragment_eq (log2 offset : Nat) :
    unlistFragment log2 offset = get >>= fun h => orTrap (h.linksAt? offset) >>= fun links =>
      links.2.elim (setFirstFree log2 links.1) (linkForward · links.1) >>= fun _ =>
      links.1.elim (pure ()) (linkBack · links.2) := by
  unfold unlistFragment
  congr 1
  funext h
  congr 1
  funext links
  obtain ⟨next, prev⟩ := links
  cases prev <;> cases next <;> rfl

/-- A fragment is put first on a list. -/
theorem listFragment_ends {log2 offset : Nat} (l : h.Lists home) (hsmall : h.region.size < Size.limit)
    (hk : log2 < h.freeLists.size) (hx : h.HoldsLinks offset) (hnew : home offset = none) :
    Ends roomy (listFragment log2 offset) h (fun _ h' =>
      Relisted h h' ∧ h'.Lists (replaced home offset (some log2)) ∧
        KeepsOutside h h' home offset) E := by
  have hhead : ∀ x ∈ h.listHead log2, home x = some log2 := fun x hx => l.threads.home_of_head hx
  have hfirst : h.freeLists[log2]? = some (h.listHead log2) := by
    rw [listHead, Array.getElem?_eq_getElem hk]; rfl
  rw [listFragment_eq]
  refine Ends.bind' (Ends.bind' (Ends.get' (Ends.orTrap' hfirst ?_)))
  refine Ends.bind' ((linkForward_ends hx (l.isLink_home hsmall hhead)).mono ?_ fun _ _ hE => hE)
  rintro - h₁ ⟨r₁, f₁, n₁, b₁⟩
  refine Ends.bind' ((linkBack_ends (r₁.holdsLinks hx) isLink_none).mono ?_ fun _ _ hE => hE)
  rintro - h₂ ⟨r₂, f₂, n₂, b₂⟩
  have r₁₂ := r₁.trans r₂
  refine Ends.bind' ((linkBehind_ends (fun y hy => r₁₂.holdsLinks (l.place y _ (hhead y hy)).2)
    (isLink_some hx hsmall)).mono ?_ fun _ _ hE => hE)
  rintro - h₃ ⟨r₃, f₃, n₃, b₃⟩
  have r₁₃ := r₁₂.trans r₃
  refine (setFirstFree_ends (by rw [r₁₃.lists]; exact hk)).mono ?_ fun _ _ hE => hE
  rintro - h₄ ⟨r₄, head₄, n₄, b₄⟩
  have r := r₁₃.trans r₄
  have links (y : Nat) (hy : h.HoldsLinks y) :
      h₄.nextFragment y = (if y = offset then h.listHead log2 else h.nextFragment y) ∧
      h₄.prevFragment y = if h.listHead log2 = some y then some offset
        else if y = offset then none else h.prevFragment y := by
    obtain ⟨p₁, q₁⟩ := n₁ y hy
    obtain ⟨p₂, q₂⟩ := n₂ y (r₁.holdsLinks hy)
    obtain ⟨p₃, q₃⟩ := n₃ y (r₁₂.holdsLinks hy)
    exact ⟨by rw [(n₄ y).1, p₃, p₂, p₁], by rw [(n₄ y).2, q₃, q₂, q₁]⟩
  have listed {y : Nat} (hy : home y ≠ none) : h.HoldsLinks y ∧ y ≠ offset := by
    obtain ⟨k, hk⟩ := Option.ne_none_iff_exists'.1 hy
    exact ⟨(l.place y k hk).2, by rintro rfl; exact hy hnew⟩
  have hself : h.listHead log2 ≠ some offset := fun hh => by
    rw [hhead offset hh] at hnew
    cases hnew
  refine ⟨r, ⟨fun y k hy => ?_, ?_⟩, fun i hi hout => ?_⟩
  · by_cases hyo : y = offset
    · subst hyo
      rw [replaced_self, Option.some.injEq] at hy
      subst hy
      exact ⟨by rw [r.lists]; exact hk, r.holdsLinks hx⟩
    · rw [replaced_of_ne _ _ hyo] at hy
      exact l.place_of_relisted r hy
  · refine l.threads.push hnew (fun k => ?_) ?_ ?_ (fun y hy => ?_) fun y hy => ?_
    · rw [head₄]
      simp only [listHead, f₃, f₂, f₁]
    · rw [(links offset hx).1, if_pos rfl]
    · rw [(links offset hx).2, if_neg hself, if_pos rfl]
    · rw [(links y (listed hy).1).1, if_neg (listed hy).2]
    · rw [(links y (listed hy).1).2, if_neg (c := y = offset) (listed hy).2]
  · rw [b₄, b₃ i fun y hy => hout y _ (hhead y hy), b₂ i hi, b₁ i hi]

/-- A fragment is taken off the list that it is on. -/
theorem unlistFragment_ends {log2 offset : Nat} (l : h.Lists home)
    (hsmall : h.region.size < Size.limit) (hin : home offset = some log2) :
    Ends roomy (unlistFragment log2 offset) h (fun _ h' =>
      Relisted h h' ∧ h'.Lists (replaced home offset none) ∧
        KeepsOutside h h' home offset) E := by
  obtain ⟨hk, hx⟩ := l.place offset log2 hin
  have hnext : ∀ x ∈ h.nextFragment offset, home x = some log2 := fun x hx =>
    l.threads.home_next hin hx
  have hprev : ∀ x ∈ h.prevFragment offset, home x = some log2 := fun x hx =>
    l.threads.home_prev hin hx
  rw [unlistFragment_eq]
  refine Ends.bind' (Ends.get' (Ends.bind' (Ends.orTrap' (linksAt?_eq hx) ?_)))
  -- the fragment before, or the list's head, now leads to the fragment behind
  refine Ends.bind' ((linkBefore_ends hk (fun y hy => (l.place y _ (hprev y hy)).2)
    (l.isLink_home hsmall hnext)).mono ?_ fun _ _ hE => hE)
  rintro - h₁ ⟨r₁, head₁, n₁, b₁⟩
  -- the fragment behind now leads back to the fragment before
  refine (linkBehind_ends (fun y hy => r₁.holdsLinks (l.place y _ (hnext y hy)).2)
    (l.isLink_home hsmall hprev)).mono ?_ fun _ _ hE => hE
  rintro - h₂ ⟨r₂, f₂, n₂, b₂⟩
  have r := r₁.trans r₂
  have listed {y : Nat} (hy : home y ≠ none) : h.HoldsLinks y := by
    obtain ⟨k, hk⟩ := Option.ne_none_iff_exists'.1 hy
    exact (l.place y k hk).2
  refine ⟨r, ⟨fun y k hy => ?_, ?_⟩, fun i hi hout => ?_⟩
  · by_cases hyo : y = offset
    · subst hyo
      rw [replaced_self] at hy
      cases hy
    · rw [replaced_of_ne _ _ hyo] at hy
      exact l.place_of_relisted r hy
  · refine l.threads.remove hin (fun k => ?_) (fun y hy _ => ?_) fun y hy _ => ?_
    · rw [← head₁, listHead, f₂, listHead]
    · rw [(n₂ y (r₁.holdsLinks (listed hy))).1, (n₁ y (listed hy)).1]
    · rw [(n₂ y (r₁.holdsLinks (listed hy))).2, (n₁ y (listed hy)).2]
  · rw [b₂ i fun y hy => hout y _ (hnext y hy), b₁ i fun y hy => hout y _ (hprev y hy)]

/-! ## All fragments of a block -/

theorem one_shiftLeft_pos (a : Nat) : 0 < 1 <<< a := by
  rw [Nat.one_shiftLeft]
  exact Nat.two_pow_pos _

theorem one_shiftLeft_le {a b : Nat} (hab : a ≤ b) : 1 <<< a ≤ 1 <<< b := by
  rw [Nat.one_shiftLeft, Nat.one_shiftLeft]
  exact Nat.pow_le_pow_right (by decide) hab

theorem one_shiftLeft_dvd {a b : Nat} (hab : a ≤ b) : 1 <<< a ∣ 1 <<< b := by
  rw [Nat.one_shiftLeft, Nat.one_shiftLeft]
  exact Nat.pow_dvd_pow 2 hab

theorem fragmentSize_pos (log2 : Nat) : 0 < fragmentSize log2 := one_shiftLeft_pos _

/-- The `i`-th fragment of the block that starts at `base`. -/
def nthFragment (log2 base i : Nat) : Nat := base + i * fragmentSize log2

/-- Fragments `1` to `count` of a block have been put on the list of their size. -/
structure RowListed (h h' : Heap) (home home' : Nat → Option Nat) (log2 base count : Nat) : Prop where
  relisted : Relisted h h'
  lists : h'.Lists home'
  listed : ∀ i, 1 ≤ i → i ≤ count → home' (nthFragment log2 base i) = some log2
  others : ∀ y, (∀ i, 1 ≤ i → i ≤ count → y ≠ nthFragment log2 base i) → home' y = home y
  bytes : ∀ i, (∀ x k, home' x = some k → ¬(x ≤ i ∧ i < x + 16)) → h'.arenaByte i = h.arenaByte i

theorem nthFragment_inj {log2 base i j : Nat} (he : nthFragment log2 base i = nthFragment log2 base j) :
    i = j :=
  Nat.eq_of_mul_eq_mul_right (fragmentSize_pos log2) (Nat.add_left_cancel he)

/-- Fragments `1` to `count` of a block are put on a list, the last of them first. -/
theorem listFragments_ends {log2 base count : Nat} (l : h.Lists home)
    (hsmall : h.region.size < Size.limit) (hk : log2 < h.freeLists.size)
    (hnew : ∀ i, 1 ≤ i → i ≤ count →
      h.HoldsLinks (nthFragment log2 base i) ∧ home (nthFragment log2 base i) = none) :
    Ends roomy (listFragments log2 base count) h
      (fun _ h' => ∃ home', RowListed h h' home home' log2 base count) E := by
  induction count generalizing h home with
  | zero =>
    exact Ends.pure' ⟨home, Relisted.refl _, l, fun i h₁ h₂ => by omega, fun _ _ => rfl,
      fun _ _ => rfl⟩
  | succ count ih =>
    have ne {i : Nat} (hi : i ≤ count) :
        nthFragment log2 base i ≠ nthFragment log2 base (count + 1) := by
      intro he
      have := nthFragment_inj he
      omega
    obtain ⟨hx, hfresh⟩ := hnew (count + 1) (by omega) (Nat.le_refl _)
    refine Ends.bind' ((listFragment_ends l hsmall hk hx hfresh).mono ?_ fun _ _ hE => hE)
    rintro - h₁ ⟨r₁, l₁, b₁⟩
    refine (ih l₁ (by rw [r₁.size_eq]; exact hsmall) (by rw [r₁.lists]; exact hk)
      fun i h1 hi => ⟨r₁.holdsLinks (hnew i h1 (by omega)).1, ?_⟩).mono ?_ fun _ _ hE => hE
    · exact (replaced_of_ne _ _ (ne hi)).trans (hnew i h1 (by omega)).2
    · rintro - h₂ ⟨home', r₂, l₂, hin, hout, b₂⟩
      have hlast : home' (nthFragment log2 base (count + 1)) = some log2 :=
        (hout _ fun i _ hi => Ne.symm (ne hi)).trans (replaced_self _ _ _)
      refine ⟨home', r₁.trans r₂, l₂, fun i h1 hi => ?_, fun y hy => ?_, fun i hi => ?_⟩
      · by_cases hi' : i = count + 1
        · subst hi'; exact hlast
        · exact hin i h1 (by omega)
      · rw [hout y fun i h1 hi => hy i h1 (by omega),
          replaced_of_ne _ _ (hy (count + 1) (by omega) (Nat.le_refl _))]
      · rw [b₂ i hi]
        refine b₁ i (hi _ _ hlast) fun x k hxk => ?_
        -- a fragment that was listed before still is
        refine hi x k ?_
        rw [hout x, replaced_of_ne _ _, hxk]
        · rintro rfl
          rw [hfresh] at hxk
          cases hxk
        · rintro j h1 hj rfl
          rw [(hnew j h1 (by omega)).2] at hxk
          cases hxk

/-- The `count` fragments of a row have been taken off their list, save one that was not on it. -/
structure RowUnlisted (h h' : Heap) (home home' : Nat → Option Nat)
    (log2 skip fragment count : Nat) : Prop where
  relisted : Relisted h h'
  lists : h'.Lists home'
  gone : ∀ i, i < count → nthFragment log2 fragment i ≠ skip →
    home' (nthFragment log2 fragment i) = none
  kept : ∀ y, (y = skip ∨ ∀ i, i < count → y ≠ nthFragment log2 fragment i) → home' y = home y
  bytes : ∀ i, (∀ x k, home x = some k → ¬(x ≤ i ∧ i < x + 16)) → h'.arenaByte i = h.arenaByte i

theorem nthFragment_zero (log2 fragment : Nat) : nthFragment log2 fragment 0 = fragment := by
  rw [nthFragment, Nat.zero_mul, Nat.add_zero]

theorem nthFragment_succ (log2 fragment i : Nat) :
    nthFragment log2 fragment (i + 1) = nthFragment log2 (fragment + fragmentSize log2) i := by
  rw [nthFragment, nthFragment, Nat.succ_mul]
  omega

theorem nthFragment_succ_ne (log2 fragment i : Nat) :
    nthFragment log2 fragment (i + 1) ≠ fragment := by
  intro he
  have := nthFragment_inj (he.trans (nthFragment_zero log2 fragment).symm)
  omega

/-- The first fragment of a row, if it was listed, and then the others. -/
theorem RowUnlisted.cons {h₁ h₂ : Heap} {home₁ home₂ : Nat → Option Nat}
    {log2 skip fragment count : Nat} (r₁ : Relisted h h₁)
    (hfirst : fragment ≠ skip → home₁ fragment = none)
    (hothers : ∀ y, (y = skip ∨ y ≠ fragment) → home₁ y = home y)
    (b₁ : ∀ i, (∀ x k, home x = some k → ¬(x ≤ i ∧ i < x + 16)) → h₁.arenaByte i = h.arenaByte i)
    (u : RowUnlisted h₁ h₂ home₁ home₂ log2 skip (fragment + fragmentSize log2) count) :
    RowUnlisted h h₂ home home₂ log2 skip fragment (count + 1) := by
  obtain ⟨r₂, l₂, hin, hout, b₂⟩ := u
  refine ⟨r₁.trans r₂, l₂, fun i hi hne => ?_, fun y hy => ?_, fun i hi => ?_⟩
  · cases i with
    | zero =>
      rw [nthFragment_zero] at hne ⊢
      rw [hout fragment (.inr fun i _ => ?_)]
      · exact hfirst hne
      · rw [← nthFragment_succ]
        exact Ne.symm (nthFragment_succ_ne log2 fragment i)
    | succ i =>
      rw [nthFragment_succ] at hne ⊢
      exact hin i (by omega) hne
  · rw [hout y, hothers y]
    · rcases hy with hy | hy
      · exact .inl hy
      · have h0 := hy 0 (by omega)
        rw [nthFragment_zero] at h0
        exact .inr h0
    · rcases hy with hy | hy
      · exact .inl hy
      · refine .inr fun i hi => ?_
        rw [← nthFragment_succ]
        exact hy (i + 1) (by omega)
  · rw [b₂ i fun x k hx => ?_, b₁ i hi]
    by_cases hxf : x = skip ∨ x ≠ fragment
    · exact hi x k (by rw [← hothers x hxf]; exact hx)
    · obtain ⟨hxs, hxf⟩ := not_or.1 hxf
      have hxf : x = fragment := Decidable.not_not.1 hxf
      subst hxf
      rw [hfirst hxs] at hx
      cases hx

/-- Fragments in a row are taken off their list, save one that is not on it. -/
theorem unlistFragments_ends {log2 skip fragment count : Nat} (l : h.Lists home)
    (hsmall : h.region.size < Size.limit)
    (hlisted : ∀ i, i < count → nthFragment log2 fragment i ≠ skip →
      home (nthFragment log2 fragment i) = some log2) :
    Ends roomy (unlistFragments log2 skip fragment count) h
      (fun _ h' => ∃ home', RowUnlisted h h' home home' log2 skip fragment count) E := by
  induction count generalizing h home fragment with
  | zero =>
    exact Ends.pure' ⟨home, Relisted.refl _, l, fun i hi => by omega, fun _ _ => rfl,
      fun _ _ => rfl⟩
  | succ count ih =>
    -- the first fragment has been dealt with, and the others are as before
    have rest {h₁ : Heap} {home₁ : Nat → Option Nat} (r₁ : Relisted h h₁) (l₁ : h₁.Lists home₁)
        (hfirst : fragment ≠ skip → home₁ fragment = none)
        (hothers : ∀ y, (y = skip ∨ y ≠ fragment) → home₁ y = home y)
        (b₁ : ∀ i, (∀ x k, home x = some k → ¬(x ≤ i ∧ i < x + 16)) →
          h₁.arenaByte i = h.arenaByte i) :
        Ends roomy (unlistFragments log2 skip (fragment + fragmentSize log2) count) h₁
          (fun _ h' => ∃ home', RowUnlisted h h' home home' log2 skip fragment (count + 1)) E := by
      refine (ih l₁ (by rw [r₁.size_eq]; exact hsmall) fun i hi hne => ?_).mono ?_ fun _ _ hE => hE
      · rw [← nthFragment_succ] at hne ⊢
        rw [hothers _ (.inr (nthFragment_succ_ne log2 fragment i))]
        exact hlisted (i + 1) (by omega) hne
      · rintro - h₂ ⟨home', u⟩
        exact ⟨home', .cons r₁ hfirst hothers b₁ u⟩
    rw [unlistFragments]
    by_cases hskip : fragment = skip
    · rw [if_pos hskip]
      exact Ends.bind' (Ends.pure' (rest (Relisted.refl _) l (fun hne => absurd hskip hne)
        (fun _ _ => rfl) fun _ _ => rfl))
    · rw [if_neg hskip]
      have hin := hlisted 0 (by omega) (by rw [nthFragment_zero]; exact hskip)
      rw [nthFragment_zero] at hin
      refine Ends.bind' ((unlistFragment_ends l hsmall hin).mono ?_ fun _ _ hE => hE)
      rintro - h₁ ⟨r₁, l₁, b₁⟩
      refine rest r₁ l₁ (fun _ => replaced_self _ _ _) (fun y hy => replaced_of_ne _ _ ?_)
        fun i hi => b₁ i (hi _ _ hin) hi
      rcases hy with rfl | hy
      · exact Ne.symm hskip
      · exact hy

end Heap

end RegionHeap
