import RegionHeap.Proofs.Heap.Census
import RegionHeap.Proofs.Heap.Placing
import RegionHeap.Proofs.Heap.Registering
import RegionHeap.Proofs.Heap.Resizing

/-!
Where the arena ends. It is tight if it does not end in free blocks above the floor (`Tight`). Over a
region that grants every smaller size, allocations grow a tight arena by just what is missing, and
whatever frees blocks hands back those at the end (`StaysTight`).
-/
namespace RegionHeap

open HeapM BlockTable

namespace Heap

variable {h h' h'' : Heap} {objects : Nat → Option Nat} {block count length : Nat}

/-! ## Tight arenas -/

/-- The arena does not end in free blocks above the floor. -/
def Tight (h : Heap) : Prop := h.blockCount ≤ max h.floor h.table.usedBlocks

theorem Tight.blockCount_eq (t : h.Tight) (w : h.WellFormed) :
    h.blockCount = max h.floor h.table.usedBlocks :=
  Nat.le_antisymm t (Nat.max_le.2 ⟨w.floor_le, h.table.usedBlocks_le_size⟩)

/-- An object in the last block leaves no free blocks behind it. -/
theorem WellFormed.tight_of_object (w : h.WellFormed) {start : Nat}
    (hs : h.objectAt start = some length) (hlast : (h.blockCount - 1) * h.blockSize < start + length) :
    h.Tight := by
  have hreach := w.usedBlocks_le_iff.1 (Nat.le_refl _) start length hs
  have := Nat.lt_of_mul_lt_mul_right (Nat.lt_of_lt_of_le hlast hreach)
  unfold Tight
  omega

/-- The floor is where it was, and the region has not outgrown its backing. -/
structure SameFloor (h h' : Heap) : Prop where
  floor_eq : h'.floor = h.floor
  within : h.region.size ≤ h.region.capacity → h'.region.size ≤ h'.region.capacity

/-- On the same floor, an arena that was tight still is. -/
structure StaysTight (h h' : Heap) : Prop extends SameFloor h h' where
  tight : h.Tight → h'.Tight

/-- On the same floor, the arena is tight, whatever it was. -/
structure EndsTight (h h' : Heap) : Prop extends SameFloor h h' where
  tight : h'.Tight

theorem SameFloor.trans (s : SameFloor h h') (s' : SameFloor h' h'') : SameFloor h h'' :=
  ⟨s'.floor_eq.trans s.floor_eq, s'.within ∘ s.within⟩

theorem SameFloor.endsTight (s : SameFloor h h') (e : EndsTight h' h'') : EndsTight h h'' :=
  ⟨s.trans e.toSameFloor, e.tight⟩

theorem EndsTight.staysTight (e : EndsTight h h') : StaysTight h h' := ⟨e.toSameFloor, fun _ => e.tight⟩

namespace StaysTight

theorem refl (h : Heap) : StaysTight h h := ⟨⟨rfl, id⟩, id⟩

theorem of_eq (same : h' = h) : StaysTight h h' := same ▸ refl h

theorem trans (s : StaysTight h h') (s' : StaysTight h' h'') : StaysTight h h'' :=
  ⟨s.toSameFloor.trans s'.toSameFloor, s'.tight ∘ s.tight⟩

end StaysTight

theorem SameExtent.sameFloor (s : SameExtent h h') (hf : h'.frame = h.frame) : SameFloor h h' where
  floor_eq := s.floor_eq
  within hle := by
    have hcap : h'.region.capacity = h.region.capacity := congrArg Frame.regionCapacity hf
    rwa [s.size_eq, hcap]

/-- A region that has not outgrown its backing does not with fewer blocks. -/
theorem WellFormed.within_of_blockCount_le (w : h.WellFormed) (w' : h'.WellFormed)
    (hf : h'.frame = h.frame) (hle : h'.blockCount ≤ h.blockCount)
    (hwithin : h.region.size ≤ h.region.capacity) : h'.region.size ≤ h'.region.capacity := by
  have hcap : h'.region.capacity = h.region.capacity := congrArg Frame.regionCapacity hf
  rw [hcap]
  exact Nat.le_trans (w.size_le_of_blockCount_le w' hf hle) hwithin

/-- A heap of the same extent in which no object has gone or become shorter. -/
theorem Turns.staysTight (t : Turns h h' objects) (w : h.WellFormed) (s : SameExtent h h')
    (hkeep : ∀ start length, h.objectAt start = some length →
      ∃ length', objects start = some length' ∧ length ≤ length') : StaysTight h h' where
  toSameFloor := s.sameFloor t.frame_eq
  tight ht := by
    have hused := w.usedBlocks_mono t.wellFormed (blockLog2_of_frame t.frame_eq)
      fun start length hs => by rw [t.objects_eq]; exact hkeep start length hs
    have hcount := w.blockCount_eq t.wellFormed t.frame_eq s.size_eq
    have hfloor := s.floor_eq
    unfold Tight at *
    omega

/-- However the operation ends, the heap stays tight. -/
def Tightly {α : Type} (x : HeapM α) (h : Heap) : Prop :=
  Ends False x h (fun _ h' => StaysTight h h') fun _ h' => StaysTight h h'

/-! ## Allocating -/

theorem keeps_of_fresh {start : Nat} (hfresh : h.objectAt start = none) (length : Option Nat)
    (s l : Nat) (hs : h.objectAt s = some l) :
    ∃ l', replaced h.objectAt start length s = some l' ∧ l ≤ l' := by
  refine ⟨l, ?_, Nat.le_refl l⟩
  rw [replaced_of_ne _ _ (by rintro rfl; rw [hfresh] at hs; cases hs), hs]

theorem GrownTo.sameFloor {stop : Nat} (g : GrownTo h h' stop) : SameFloor h h' where
  floor_eq := by rw [g.eq]
  within _ := by
    obtain ⟨bytes, hres⟩ := g.resized
    obtain ⟨hsize, hcap, -⟩ := Region.resize_eq hres
    rw [hsize, hcap]
    exact Region.le_capacity_of_resize hres

/-- A grown arena is tight once an object reaches into its last block. -/
theorem GrownTo.endsTight {h₁ : Heap} {stop start : Nat} (g : GrownTo h h₁ stop)
    (w₁ : h₁.WellFormed) (hf : h'.frame = h₁.frame) (s : SameExtent h₁ h') (w' : h'.WellFormed)
    (hs : h'.objectAt start = some length) (hlast : (stop - 1) * h'.blockSize < start + length) :
    EndsTight h h' where
  toSameFloor := g.sameFloor.trans (s.sameFloor hf)
  tight := by
    refine w'.tight_of_object hs ?_
    rwa [w₁.blockCount_eq w' hf s.size_eq, g.blockCount_eq]

/-- Blocks were claimed, and steps that keep the extent have made an object of them. -/
theorem Placed.staysTight {h₁ : Heap} (p : Placed h h₁ block count) (w : h.WellFormed)
    (c : Claimed h h₁ block count) (s : SameExtent h₁ h')
    (t : Turns h h' (replaced h.objectAt (h.blockStart block) (some length)))
    (hlast : (block + count - 1) * h.blockSize < h.blockStart block + length) : StaysTight h h' := by
  cases p with
  | inside fitted =>
    exact t.staysTight w (fitted.sameExtent.trans s) (keeps_of_fresh c.fresh _)
  | behind short block_eq grown =>
    refine (grown.endsTight c.2.2.wellFormed (t.frame_eq.trans c.2.2.frame_eq.symm) s t.wellFormed
      (by rw [t.objects_eq, replaced_self]) ?_).staysTight
    rwa [blockSize_of_frame t.frame_eq]

/-- A run at the end of a grown arena fills it. -/
theorem Claimed.endsTight (c : Claimed h h' block count) (g : GrownTo h h' (block + count)) :
    EndsTight h h' := by
  have t := c.2.2
  have hpos := (t.wellFormed.run_bounds c.2.1).1
  refine g.endsTight t.wellFormed rfl (SameExtent.refl h') t.wellFormed
    (by rw [t.objects_eq, replaced_self]) ?_
  rw [blockSize_of_frame t.frame_eq, blockStart, ← Nat.add_mul]
  exact Nat.mul_lt_mul_of_pos_right (by omega) h.blockSize_pos

/-- A new object keeps the arena tight, wherever it lies. -/
theorem Lodged.staysTight {handle : Nat} {c : SizeClass} (o : Lodged h h' handle c)
    (w : h.WellFormed) : StaysTight h h' := by
  have t := o.turns
  cases o.site with
  | reused _ _ same => exact t.staysTight w same (keeps_of_fresh o.fresh _)
  | @taken block h₁ _ handle_eq claimed placed same _ =>
    subst handle_eq
    refine placed.staysTight w claimed same t ?_
    -- the object reaches into the last of its blocks
    cases c with
    | fragment log2 => exact Nat.lt_add_of_pos_right (fragmentSize_pos log2)
    | blocks count =>
      have hpos : 0 < count := (claimed.2.2.wellFormed.run_bounds claimed.2.1).1
      rw [SizeClass.blockCount, classLength, blockStart, ← Nat.add_mul]
      exact Nat.mul_lt_mul_of_pos_right (by omega) h.blockSize_pos

theorem allocate_tightly (w : h.WellFormed) (size : Nat) : Tightly (allocate size) h :=
  (allocate_lodged w size).or_trap.mono (fun _ _ o => o.staysTight w)
    fun _ _ hE => StaysTight.of_eq hE.1.1

/-- Writing into the arena changes no block. -/
theorem Writes.staysTight {start : Nat} (wr : Writes h h' start) (w : h.WellFormed) :
    StaysTight h h' := by
  have htable : h'.table = h.table := by rw [wr.eq]
  have hfloor : h'.floor = h.floor := by rw [wr.eq]
  have hsize : h'.region.size = h.region.size := by
    rw [wr.wellFormed.size_eq, w.size_eq, arenaStart_of_frame wr.frame_eq, blockCount, blockCount, htable,
      blockSize_of_frame wr.frame_eq]
  refine ⟨SameExtent.sameFloor ⟨hsize, hfloor⟩ wr.frame_eq, fun ht => ?_⟩
  unfold Tight blockCount at *
  rwa [htable, hfloor]

theorem allocateZeroed_tightly (w : h.WellFormed) (count size : Nat) :
    Tightly (allocateZeroed count size) h := by
  refine Ends.bind' (Ends.orRefuse' (fun total _ => ?_) fun _ => StaysTight.refl h)
  refine Ends.bind' (((allocate_ends w total).both (allocate_tightly w total)).or_trap.mono ?_
    fun _ _ ⟨_, s⟩ => s)
  rintro handle h₁ ⟨⟨-, length, hle, t⟩, s⟩
  have hs : h₁.objectAt handle = some length := by rw [t.objects_eq, replaced_self]
  have hfit : handle + (Bytes.zeros total).size ≤ handle + length := by simpa using hle
  refine Ends.bind' ((writeObject_ends t.wellFormed hs (Nat.le_refl handle) hfit).mono ?_
    fun _ _ s => s)
  rintro - h₂ ⟨wr, -⟩
  exact Ends.pure' (s.trans (wr.staysTight t.wellFormed))

/-! ## Handing blocks back -/

theorem Turns.sameObjects (t : Turns h h' objects) (w : h.WellFormed)
    (hobj : ∀ start, objects start = h.objectAt start) : SameObjects h h' :=
  ⟨w, t.wellFormed, blockLog2_of_frame t.frame_eq, fun s => (t.objects_eq s).trans (hobj s)⟩

/-- The free blocks at the end are handed back as far as the floor, which stays. -/
theorem returnTail_endsTight (w : h.WellFormed) (hs : h.region.Shrinks)
    {E : HeapError → Heap → Prop} :
    Ends False returnTail h (fun _ h' => EndsTight h h') E := by
  obtain ⟨runs, hl⟩ := w.laidOut
  have hend := freeAtEnd?_eq hl
  have hused : h.table.usedBlocks + Run.freeEnd runs = h.blockCount := hl.usedBlocks_add
  have hfloor := w.floor_le
  refine Ends.bind' (Ends.get' (Ends.bind' (Ends.orTrap' hend ?_)))
  refine Ends.ite' (fun hnone => Ends.pure' ⟨⟨rfl, id⟩, ?_⟩) fun hsome => ?_
  · unfold Tight
    omega
  refine Ends.discard' (Ends.granted' ((shrink_ends w _).mono ?_ ?_))
  · rintro - h' ⟨t, -, hcount, hmin⟩
    have hused' := (t.sameObjects w fun _ => rfl).usedBlocks_eq
    refine ⟨⟨by omega, w.within_of_blockCount_le t.wellFormed t.frame_eq (by omega)⟩, ?_⟩
    unfold Tight
    omega
  · -- neither the region nor an object stands in the way
    rintro e h' (⟨-, bytes, err, hlt, hres, -⟩ | ⟨-, available, havailable, hlt, -⟩)
    · obtain ⟨r', hr'⟩ := hs bytes hlt
      rw [hres] at hr'
      cases hr'
    · rw [hend, Option.some.injEq] at havailable
      omega

theorem free_endsTight (w : h.WellFormed) (hs : h.region.Shrinks) (handle : Handle) :
    Ends False (free handle) h (fun _ h' => EndsTight h h') fun _ h' => StaysTight h h' := by
  refine Ends.bind' (Ends.get' (Ends.bind' (((freeAllocation_ends w _).both
    (steady_freeAllocation (R := SameExtent) _ h)).mono ?_ fun _ _ hE => StaysTight.of_eq hE.1.1.1)))
  rintro - h₁ ⟨⟨-, t₁⟩, s₁⟩
  have shrinks : h₁.region.Shrinks := hs.congr s₁.size_eq (congrArg Frame.regionCapacity t₁.frame_eq)
    (congrArg Frame.refusals t₁.frame_eq)
  have before : SameFloor h h₁ := s₁.sameFloor t₁.frame_eq
  cases hrec : h.aligned.start? handle with
  | none =>
    exact (returnTail_endsTight t₁.wellFormed shrinks).mono (fun _ _ e => before.endsTight e)
      fun _ _ hE => hE
  | some start =>
    -- the record is erased before the tail is handed back
    have w₂ : ({ h₁ with aligned := h₁.aligned.erase handle } : Heap).WellFormed :=
      t₁.wellFormed.with_registry rfl rfl t₁.wellFormed.names (t₁.wellFormed.records.erase handle)
    refine Ends.bind' (Ends.modify' ((returnTail_endsTight w₂ shrinks).mono (fun _ _ e => ?_)
      fun _ _ hE => hE))
    exact before.endsTight ⟨⟨e.floor_eq, e.within⟩, e.tight⟩

/-! ## Resizing -/

theorem SameFloor.yields (s : SameFloor h h') (y : h.region.Yields) (hf : h'.frame = h.frame) :
    h'.region.Yields where
  within := s.within y.within
  spared := by
    have hr : h'.region.refusals = h.region.refusals := congrArg Frame.refusals hf
    rw [hr]
    exact y.spared

theorem moveObject_tightly (w : h.WellFormed) (y : h.region.Yields) (handle size : Nat) :
    Tightly (moveObject handle size) h := by
  refine Ends.bind' ((usableFrom_ends w handle).mono ?_ fun _ _ hE => StaysTight.of_eq hE.1)
  rintro usable h' ⟨rfl, -⟩
  refine Ends.bind' (((allocate_ends w size).both (allocate_tightly w size)).or_trap.mono ?_
    fun _ _ hE => hE.2)
  rintro moved h₁ ⟨⟨-, length, hle, t₁⟩, s₁⟩
  refine Ends.bind' (Ends.get' (Ends.bind' (Ends.orTrap_of (fun data hd => ?_) fun _ => not_false)))
  have hsize := Region.size_of_read? hd
  refine Ends.bind' ((writeObject_ends t₁.wellFormed (by rw [t₁.objects_eq, replaced_self])
    (Nat.le_refl moved) (by omega)).mono ?_ fun _ _ hE => hE)
  rintro - h₂ ⟨wr, -⟩
  have s₂ := s₁.trans (wr.staysTight t₁.wellFormed)
  have y₂ : h₂.region.Yields := s₂.toSameFloor.yields y (wr.frame_eq.trans t₁.frame_eq)
  refine Ends.bind' ((free_endsTight wr.wellFormed y₂.shrinks handle).mono
    (fun _ _ e => Ends.pure' (s₂.trans e.staysTight)) fun _ _ s => s₂.trans s)

theorem shortenRun_tightly (w : h.WellFormed) (hs : h.region.Shrinks) {want : Nat}
    (hg : h.table.get? block = some (.run length)) (hpos : 0 < want) (hlt : want < length) :
    Tightly (shortenRun block length want) h := by
  refine Ends.bind' (((shorten_ends w hg hpos hlt).both (Steady.onTable' (R := SameExtent) _ h)).mono ?_
    fun _ _ hE => hE.1)
  rintro - h₁ ⟨t, s⟩
  have shrinks : h₁.region.Shrinks := hs.congr s.size_eq (congrArg Frame.regionCapacity t.frame_eq)
    (congrArg Frame.refusals t.frame_eq)
  exact (returnTail_endsTight t.wellFormed shrinks).mono
    (fun _ _ e => ((s.sameFloor t.frame_eq).endsTight e).staysTight) fun _ _ hE => hE

/-- A run that becomes longer in place is an object that does. -/
theorem keeps_of_longer (w : h.WellFormed) {want : Nat}
    (hg : h.table.get? block = some (.run length)) (hle : length ≤ want) (s l : Nat)
    (hs : h.objectAt s = some l) :
    ∃ l', replaced h.objectAt (h.blockStart block) (some (want * h.blockSize)) s = some l' ∧
      l ≤ l' := by
  by_cases heq : s = h.blockStart block
  · subst heq
    have hrun := (w.runLength?_eq_some_iff.1 (runLength?_eq_some.2 hg)).2
    rw [hs, Option.some.injEq] at hrun
    refine ⟨_, replaced_self _ _ _, ?_⟩
    rw [hrun]
    exact Nat.mul_le_mul_right _ hle
  · exact ⟨l, by rw [replaced_of_ne _ _ heq, hs], Nat.le_refl l⟩

theorem resizeObject_tightly (w : h.WellFormed) (y : h.region.Yields) (handle size : Nat) :
    Tightly (resizeObject handle size) h := by
  have hfits := sizeClass_fits w size
  refine Ends.bind' (Ends.get' ?_)
  simp only
  split
  · rename_i length want hg hclass
    rw [hclass] at hfits
    -- a run for a run stays in place while it can: shorter, as it is, into the free blocks behind it,
    -- into new ones behind the arena; only then the object moves
    refine Ends.ite' (fun hlt => ?_) fun hge => Ends.ite' (fun _ => Ends.pure' (.refl h)) fun hne => ?_
    · exact Ends.bind' ((shortenRun_tightly w y.shrinks hg hfits.1 hlt).mono
        (fun _ _ s => Ends.pure' s) fun _ _ s => s)
    have hlt : length < want := by omega
    refine Ends.bind' ((lengthenRun_ends w hg hlt).mono ?_ fun _ _ hE => hE)
    rintro done h₁ hdone
    refine Ends.ite' (fun hd => ?_) fun hd => ?_
    · rw [if_pos hd] at hdone
      have extent : SameExtent h h₁ := by
        rw [hdone.2]
        exact ⟨rfl, rfl⟩
      exact Ends.pure' (hdone.1.staysTight w extent (keeps_of_longer w hg (Nat.le_of_lt hlt)))
    rw [if_neg hd] at hdone
    obtain ⟨rfl, hshort⟩ := hdone
    refine Ends.bind' ((growBehind_ends w hg hlt hshort).or_trap.mono ?_ fun _ _ hE => hE)
    rintro done h' hdone
    refine Ends.ite' (fun hd => ?_) fun hd => ?_
    · rw [if_pos hd] at hdone
      obtain ⟨t, g⟩ := hdone
      refine Ends.pure' (g.endsTight t.wellFormed rfl (SameExtent.refl _) t.wellFormed
        (by rw [t.objects_eq, replaced_self]) ?_).staysTight
      rw [blockSize_of_frame t.frame_eq, blockStart, ← Nat.add_mul]
      exact Nat.mul_lt_mul_of_pos_right (by omega) h₁.blockSize_pos
    · rw [if_neg hd] at hdone
      rw [hdone]
      exact moveObject_tightly w y handle size
  · exact Ends.ite' (fun _ => Ends.pure' (.refl h)) fun _ => moveObject_tightly w y handle size
  · exact moveObject_tightly w y handle size

theorem reallocate_tightly (w : h.WellFormed) (y : h.region.Yields) (handle size : Nat) :
    Tightly (reallocate handle size) h := by
  refine Ends.bind' (Ends.get' (Ends.ite' (fun _ => moveObject_tightly w y handle size) fun _ => ?_))
  refine Ends.bind' (w.extentOf_ends (fun start length _ => ?_) fun _ _ => StaysTight.refl h)
  exact Ends.ite' (fun _ => resizeObject_tightly w y handle size)
    fun _ => Ends.refuse' (StaysTight.refl h)

/-! ## Allocating on a boundary -/

/-- What starts on a boundary and misses another one misses a wider one. -/
theorem lt_of_misaligned {k alignment start : Nat} (hpow : Size.isPowerOfTwo alignment = true)
    (hk : start % 1 <<< k = 0) (hmis : ¬start % alignment = 0) : 1 <<< k < alignment := by
  obtain ⟨a, rfl⟩ := Size.isPowerOfTwo_iff.1 hpow
  refine Nat.lt_of_not_le fun hle => hmis ?_
  have hak : a ≤ k := by
    rw [Nat.one_shiftLeft, Nat.one_shiftLeft] at hle
    exact (Nat.pow_le_pow_iff_right (by decide)).1 hle
  exact Nat.mod_eq_zero_of_dvd (Nat.dvd_trans (one_shiftLeft_dvd hak) (Nat.dvd_of_mod_eq_zero hk))

/-- A first try misses the boundary only with a run of blocks that are smaller than the boundary. -/
theorem firstTry_ends (w : h.WellFormed) {alignment size : Nat}
    (hpow : Size.isPowerOfTwo alignment = true) (hle : alignment ≤ size) :
    Ends False (allocate size) h (fun start h₁ => StaysTight h h₁ ∧ (¬start % alignment = 0 →
      h.blockSize < alignment ∧ ∃ block count, h.sizeClass size = .blocks count ∧
        Claimed h h₁ block count ∧ Placed h h₁ block count)) fun _ _ => True := by
  have hfits := sizeClass_fits w size
  refine (allocate_lodged w size).or_trap.mono (fun start h₁ o => ?_) fun _ _ _ => trivial
  refine ⟨o.staysTight w, fun hmis => ?_⟩
  have t := o.turns
  have hobj := (t.objects_eq start).trans (replaced_self _ _ _)
  cases hclass : h.sizeClass size with
  | fragment log2 =>
    -- a fragment as large as the boundary does not miss it
    rw [hclass] at hfits hobj
    obtain ⟨-, hlt, hfit⟩ := hfits
    have hc := t.wellFormed.cutLog2?_of_objectAt hobj (by rw [blockLog2_of_frame t.frame_eq]; exact hlt)
    rw [objectAt_of_cut log2 hc, Option.ite_none_right_eq_some] at hobj
    have := lt_of_misaligned hpow hobj.1.1 hmis
    rw [fragmentSize] at hfit
    omega
  | blocks count =>
    rw [hclass] at o
    obtain ⟨block, handle_eq, claimed, placed⟩ := o.run
    rw [handle_eq] at hmis
    exact ⟨lt_of_misaligned hpow (blockStart_mod block) hmis, block, count, rfl, claimed, placed⟩

/-- An allocation after a shorter run has been claimed and given back, by steps that kept the extent.
If the arena grew for that run, it has to grow for this one. -/
theorem secondTry_ends {h₁ h₂ : Heap} {size count' : Nat} (w : h.WellFormed)
    (c : Claimed h h₁ block count) (p : Placed h h₁ block count) (s : SameExtent h₁ h₂)
    (t : Turns h h₂ h.objectAt) (hclass : h.sizeClass size = .blocks count') (hlt : count < count') :
    Ends False (allocate size) h₂ (fun _ h' => StaysTight h h') fun _ _ => True := by
  have t₁ := c.2.2
  have hpos := (t₁.wellFormed.run_bounds c.2.1).1
  cases p with
  | inside fitted =>
    have back := t.staysTight w (fitted.sameExtent.trans s) fun _ l hs => ⟨l, hs, Nat.le_refl l⟩
    exact (allocate_tightly t.wellFormed size).mono (fun _ _ s' => back.trans s') fun _ _ _ => trivial
  | behind short block_eq grown =>
    have hf : h₂.frame = h₁.frame := t.frame_eq.trans t₁.frame_eq.symm
    have hclass₂ : h₂.sizeClass size = .blocks count' := by
      rw [← hclass, sizeClass, sizeClass, blockSize_of_frame t.frame_eq]
    -- the blocks of the shorter run are still there, behind the last one in use
    have hsize : h₂.blockCount = h.table.usedBlocks + count := by
      rw [t₁.wellFormed.blockCount_eq t.wellFormed hf s.size_eq, grown.blockCount_eq, block_eq]
    refine (allocate_lodged t.wellFormed size).or_trap.mono (fun start h₃ o => ?_) fun _ _ _ => trivial
    rw [hclass₂] at o
    obtain ⟨block', -, c', p'⟩ := o.run
    cases p' with
    | inside fitted =>
      -- what was given back is the only free run of its length, and too short
      obtain ⟨room, hfree, hle⟩ := fitted.exists_free
      have hat := w.block_eq_of_short t.wellFormed (t.sameObjects w fun _ => rfl).inUse?_eq hpos short
        hsize hfree (by omega)
      obtain ⟨runs, hl⟩ := t.wellFormed.laidOut
      obtain ⟨next, prev, hg⟩ := exists_free_of_bare? (freeSize?_eq_some.1 hfree)
      have hfit : block' + room ≤ h₂.blockCount := (hl.toTiled.freeBlocks hg).2.1
      omega
    | behind _ _ grown' =>
      exact ((grown.sameFloor.trans (s.sameFloor hf)).endsTight (c'.endsTight grown')).staysTight

theorem allocateWithSlack_tightly {k : Heap} {alignment padded : Nat}
    (ends : Ends False (allocate (padded + alignment)) h (fun _ h' => StaysTight k h')
      fun _ _ => True) :
    Ends False (allocateWithSlack alignment padded) h (fun _ h' => StaysTight k h')
      fun _ _ => True := by
  refine Ends.bind' (Ends.orRefuse' (fun slack hslack => ?_) fun _ => trivial)
  obtain ⟨-, rfl⟩ := Size.add?_eq_some_iff.1 hslack
  refine Ends.bind' (ends.mono (fun start h₁ s => ?_) fun _ _ _ => trivial)
  refine Ends.bind' (Ends.orTrap_of (fun handle _ => ?_) fun _ => not_false)
  refine Ends.ite' (fun _ => Ends.pure' s) fun _ => Ends.bind' (Ends.get' ?_)
  refine Ends.bind' (Ends.ofExcept' (fun aligned _ => ?_) fun _ _ => trivial)
  exact Ends.bind' (Ends.set' (Ends.pure' ⟨⟨s.floor_eq, s.within⟩, s.tight⟩))

/-- A first try missed the boundary with a run of blocks, which has been given back. -/
structure MissedTry (h h' : Heap) (alignment padded : Nat) : Prop where
  wide : h.blockSize < alignment
  undone : Turns h h' h.objectAt
  place : ∃ block count h₁, h.sizeClass padded = .blocks count ∧ Claimed h h₁ block count ∧
    Placed h h₁ block count ∧ SameExtent h₁ h'

/-- An allocation on a boundary is a first try that meets it, or one with slack after a first try
that missed it. -/
theorem allocateAligned_ends_of_tries (w : h.WellFormed) {alignment size : Nat}
    {Q : Handle → Heap → Prop}
    (first : ∀ start h₁ length, Turns h h₁ (replaced h.objectAt start (some length)) →
      StaysTight h h₁ → Q start h₁)
    (again : ∀ padded h₂, 0 < alignment → alignment ≤ padded → MissedTry h h₂ alignment padded →
      Ends False (allocateWithSlack alignment padded) h₂ Q fun _ _ => True) :
    Ends False (allocateAligned alignment size) h Q fun _ _ => True := by
  refine Ends.ite' (fun _ => Ends.refuse' trivial) fun hpow => ?_
  have hpow : Size.isPowerOfTwo alignment = true := by simpa using hpow
  have ha := Size.pos_of_isPowerOfTwo hpow
  refine Ends.bind' (Ends.orRefuse' (fun room hroom => ?_) fun _ => trivial)
  have hpadded := (leastMultiple_roundDown ha hroom).step_le
  refine Ends.bind' (((allocate_ends w _).both (firstTry_ends w hpow hpadded)).or_trap.mono ?_
    fun _ _ _ => trivial)
  rintro start h₁ ⟨⟨hfresh, length, -, t₁⟩, s₁, missed⟩
  refine Ends.ite' (fun _ => Ends.pure' (first start h₁ length t₁ s₁)) fun hmis => ?_
  obtain ⟨hwide, block, count, hclass, c, p⟩ := missed hmis
  refine Ends.bind' (((freeAllocation_ends t₁.wellFormed start).both
    (steady_freeAllocation (R := SameExtent) start h₁)).mono ?_ fun _ _ _ => trivial)
  rintro - h₂ ⟨⟨-, t₂⟩, s₂⟩
  refine Ends.bind' (Ends.get' (Ends.ite' (fun _ => Ends.refuse' trivial) fun _ => ?_))
  exact again _ h₂ ha hpadded
    ⟨hwide, t₁.undone hfresh t₂, block, count, h₁, hclass, c, p, s₂⟩

/-- Granted on a boundary, an allocation keeps the arena tight, also where a first try was given
back. -/
theorem allocateAligned_tightly (w : h.WellFormed) (alignment size : Nat) :
    Ends False (allocateAligned alignment size) h (fun _ h' => StaysTight h h')
      fun _ _ => True := by
  refine allocateAligned_ends_of_tries w (fun _ _ _ _ s₁ => s₁) fun padded h₂ _ hpadded missed => ?_
  obtain ⟨block, count, h₁, hclass, c, p, s₂⟩ := missed.place
  have hwide := missed.wide
  -- the padding makes the second run at least a block longer than the first
  obtain ⟨count', hclass'⟩ := exists_sizeClass_blocks (h := h)
    (show h.blockSize ≤ padded + alignment by omega)
  refine allocateWithSlack_tightly (secondTry_ends w c p s₂ missed.undone hclass' ?_)
  have hlo := (sizeClass_blocks hclass).2
  have hhi := (sizeClass_blocks hclass').1
  exact Nat.lt_of_mul_lt_mul_right (Nat.lt_of_lt_of_le hlo (by omega))

end Heap

end RegionHeap
