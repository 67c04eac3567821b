import RegionHeap.Heap.Objects
import RegionHeap.Proofs.Heap.Census
import RegionHeap.Proofs.Heap.SizeClasses
import RegionHeap.Proofs.Region.Sizes

/-!
Where a new object lies. A free fragment of its class is used again if there is one, else blocks are
taken: from a free run that is long enough, or from the end of a longer arena (`Site`). An allocation
over a region that grants every arena is refused only where none of these is to be had (`Lacks`), and
there it is never granted (`Lodged.not_lacks`).
-/
namespace RegionHeap.Heap

open HeapM BlockTable

variable {h h' : Heap} {handle count log2 : Nat} {c : SizeClass}

/-! ## Refusals -/

/-- The region grants every size up to that of the largest arena. -/
def Ample (h : Heap) : Prop :=
  ∀ bytes, bytes ≤ h.arenaStart + h.maxBlocks * h.blockSize → ∃ r, h.region.resize bytes = .ok r

/-- No free run has so many blocks, and with as many behind the last one in use the arena would be too
long. -/
structure Full (h : Heap) (count : Nat) : Prop where
  short : ∀ block size, h.table.freeSize? block = some size → size < count
  max_lt : h.maxBlocks < h.table.usedBlocks + count

/-- Over an ample region the arena is kept from growing by its greatest length alone. -/
theorem grow_limited (h : Heap) (count : Nat) : Ends False (grow count) h (fun _ _ => True)
    fun _ _ => h.frame.Roomy → h.Ample → h.maxBlocks < h.blockCount + count := by
  have hpos := h.blockSize_pos
  refine Ends.bind' (Ends.get' (Ends.ite' (fun _ => Ends.pure' trivial) fun _ => ?_))
  refine Ends.ite' (fun hlimit => Ends.refuse' ?_) fun hfits => ?_
  · intro hroomy _
    have hroomy : h.arenaStart + h.maxBlocks * h.blockSize < Size.limit := hroomy
    have := Nat.le_mul_of_pos_right h.maxBlocks hpos
    omega
  refine Ends.bind' (Ends.orTrap_of (fun bytes hbytes => ?_) fun _ => not_false)
  obtain ⟨-, rfl⟩ := Size.add?_eq_some_iff.1 hbytes
  cases hres : h.region.resize (h.arenaStart + (h.blockCount + count) * h.blockSize) with
  | error e =>
    refine Ends.refuse' ?_
    intro _ ample
    have hle := Nat.mul_le_mul_right h.blockSize (show h.blockCount + count ≤ h.maxBlocks by omega)
    obtain ⟨r, hr⟩ := ample _ (Nat.add_le_add_left hle _)
    rw [hres] at hr
    cases hr
  | ok region =>
    exact Ends.bind' (Ends.orTrap_of (fun _ _ => Ends.set' trivial) fun _ => not_false)

/-- Over an ample region blocks are refused only if the arena is full. -/
theorem claimBlocks_full (w : h.WellFormed) (hpos : 0 < count) :
    Ends False (claimBlocks count) h (fun _ _ => True)
      fun e _ => e = .outOfMemory → h.frame.Roomy → h.Ample → h.Full count := by
  obtain ⟨runs, hl⟩ := w.laidOut
  have hcount := w.count_le
  have hused : h.table.usedBlocks + Run.freeEnd runs = h.blockCount := hl.usedBlocks_add
  refine Ends.bind' (Ends.get' (Ends.ite' (fun hlt => Ends.refuse' ?_) fun _ => ?_))
  · -- no arena has so many blocks at all
    intro _ _ _
    refine ⟨fun block size hs => ?_, by omega⟩
    obtain ⟨next, prev, hg⟩ := exists_free_of_bare? (freeSize?_eq_some.1 hs)
    have hfit : block + size ≤ h.blockCount := (hl.toTiled.freeBlocks hg).2.1
    omega
  refine Ends.bind' ((claimFree_ends w hpos).mono ?_ fun _ _ hE => hE)
  intro found h₁ hclaim
  cases found with
  | some block => exact Ends.pure' trivial
  | none =>
    obtain ⟨rfl, short⟩ := hclaim
    have hshort := freeEnd_lt hl hpos short
    refine Ends.bind' (Ends.get' (Ends.bind' (Ends.orTrap' (freeAtEnd?_eq hl) ?_)))
    refine Ends.bind' (Ends.orTrap' (Size.sub?_eq_some_iff.2 ⟨Nat.le_of_lt hshort, rfl⟩) ?_)
    refine Ends.bind' (((grow_ends w _).both (grow_limited h₁ _)).or_trap.mono ?_ ?_)
    · intro _ h₂ grown
      obtain ⟨⟨t, -⟩, -⟩ := grown
      refine Ends.bind' ((claimFree_ends t.wellFormed hpos).mono ?_ fun _ _ hE => hE)
      intro found h₃ _
      cases found with
      | some block => exact Ends.pure' trivial
      | none => exact Ends.refuse' nofun
    · intro e h₂ limited _ hroomy ample
      have := limited.2 hroomy ample
      exact ⟨short, by omega⟩

/-! ## Sites -/

/-- No fragment of the class is free. -/
def NoneFree (h : Heap) (c : SizeClass) : Prop :=
  ∀ log2, c = .fragment log2 → ∀ offset, h.freeFragment offset ≠ some log2

/-- There is neither a free fragment of the class nor room for new blocks. -/
def Lacks (h : Heap) (c : SizeClass) : Prop := h.NoneFree c ∧ h.Full c.blockCount

/-- Taking blocks from a free run leaves the arena as long as it is. -/
theorem Fitted.sameExtent {block : Nat} (f : Fitted h h' block count) : SameExtent h h' := by
  rw [f.eq]
  exact ⟨rfl, rfl⟩

/-- Where a new object of a class lies: in a free fragment, or in blocks that were taken. -/
inductive Site (h h' : Heap) (handle : Nat) (c : SizeClass) : Prop where
  | reused {log2 : Nat} (class_eq : c = .fragment log2) (free : h.freeFragment handle = some log2)
    (same : SameExtent h h')
  | taken {block : Nat} {h₁ : Heap} (noneFree : h.NoneFree c)
    (handle_eq : handle = h.blockStart block) (claimed : Claimed h h₁ block c.blockCount)
    (placed : Placed h h₁ block c.blockCount) (same : SameExtent h₁ h')
    (whole : ∀ count, c = .blocks count → h' = h₁)

/-- A new object of a class. -/
structure Lodged (h h' : Heap) (handle : Nat) (c : SizeClass) : Prop where
  fresh : h.objectAt handle = none
  turns : Turns h h' (replaced h.objectAt handle (some (h.classLength c)))
  site : Site h h' handle c

/-- An allocation gives a new object of the class of the request, and over an ample region it is
refused only where that lacks room. -/
theorem allocate_lodged (w : h.WellFormed) (size : Nat) :
    Ends h.frame.Roomy (allocate size) h (fun handle h' => Lodged h h' handle (h.sizeClass size))
      fun e h' => Exhausted h e h' ∧
        (h.frame.Roomy → h.Ample → h.Lacks (h.sizeClass size)) := by
  have claim {count : Nat} (hpos : 0 < count) := (claimBlocks_ends w hpos).both (claimBlocks_full w hpos)
  have hfits := sizeClass_fits w size
  refine Ends.bind' (Ends.get' ?_)
  cases hc : h.sizeClass size with
  | fragment log2 =>
    rw [hc] at hfits
    obtain ⟨hmin, hlt, -⟩ := hfits
    refine Ends.bind' (Ends.bind' (Ends.get' (Ends.orTrap' (w.freeLists_eq hlt) ?_)))
    cases hh : h.listHead log2 with
    | some offset =>
      refine ((reuseFragment_ends w (w.lists.threads.home_of_head hh)).both
        (steady_reuseFragment (R := SameExtent) log2 offset h)).mono ?_ fun _ _ hE => hE.1
      rintro _ h' ⟨⟨rfl, fresh, t⟩, same⟩
      exact ⟨fresh, t, .reused rfl (w.lists.threads.home_of_head hh) same⟩
    | none =>
      have noneFree : h.NoneFree (.fragment log2) := by
        intro k hk
        cases hk
        exact w.lists.threads.head_eq_none_iff.1 hh
      refine (cutBlock_ends_of hmin hlt ((claim Nat.one_pos).mono (fun _ _ hQ => hQ.1)
        fun _ _ hE => hE)).mono ?_ ?_
      · rintro handle h' ⟨block, h₁, rfl, claimed, placed, same, t⟩
        exact ⟨claimed.fresh, t, .taken noneFree rfl claimed placed same nofun⟩
      · intro e h' hE
        exact ⟨hE.1, fun hroomy ample => ⟨noneFree, hE.2 hE.1.2 hroomy ample⟩⟩
  | blocks count =>
    rw [hc] at hfits
    have noneFree : h.NoneFree (.blocks count) := nofun
    refine Ends.bind' ((claim hfits.1).mono ?_ ?_)
    · rintro block h' ⟨⟨claimed, placed⟩, -⟩
      exact Ends.pure' ⟨claimed.fresh, claimed.2.2,
        .taken noneFree rfl claimed placed (SameExtent.refl _) fun _ _ => rfl⟩
    · intro e h' hE
      exact ⟨hE.1, fun hroomy ample => ⟨noneFree, hE.2 hE.1.2 hroomy ample⟩⟩

/-- An object that takes whole blocks is the run that was claimed. -/
theorem Lodged.run (o : Lodged h h' handle (.blocks count)) : ∃ block, handle = h.blockStart block ∧
    Claimed h h' block count ∧ Placed h h' block count := by
  cases o.site with
  | reused class_eq => cases class_eq
  | taken _ handle_eq claimed placed _ whole =>
    obtain rfl := whole count rfl
    exact ⟨_, handle_eq, claimed, placed⟩

/-- Where a class lacks room, nothing is made. -/
theorem Lodged.not_lacks (o : Lodged h h' handle c) : ¬h.Lacks c := by
  rintro ⟨noneFree, full⟩
  cases o.site with
  | reused class_eq free => exact noneFree _ class_eq _ free
  | taken _ _ claimed placed =>
    cases placed with
    | inside fitted =>
      obtain ⟨size, hs, hle⟩ := fitted.exists_free
      have := full.short _ _ hs
      omega
    | behind _ block_eq grown =>
      have hmax := congrArg Frame.maxBlocks claimed.2.2.frame_eq
      have hle := claimed.2.2.wellFormed.count_le
      have hlt := full.max_lt
      rw [grown.blockCount_eq, block_eq] at hle
      exact absurd (Nat.lt_of_lt_of_le hlt hle) (Nat.not_lt_of_le (Nat.le_of_eq hmax))

end RegionHeap.Heap
