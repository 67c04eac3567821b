import RegionHeap.Proofs.Heap.Registering
import RegionHeap.Proofs.Heap.SharedLinks
import RegionHeap.Proofs.Image.Saving

/-!
Heaps that differ in the contents of their objects. Two heaps are alike if only the bytes of their
regions differ, and not those of the links in free fragments (`Alike`). Every fragment that an
operation leaves free was free before, or has just been freed, or lies in a block that was just cut:
it holds a link that both heaps share, or one that was written into both. So operations keep heaps
alike.
-/
namespace RegionHeap.Heap

open HeapM BlockTable

variable {h k h' k' : Heap} {log2 : Nat} {common : Nat → Prop}

/-- The heaps differ in bytes of their regions only, and agree on the links of every free fragment. -/
structure Alike (h k : Heap) : Prop extends Beside h k where
  links : ∀ x log2, h.freeFragment x = some log2 →
    ∀ i, i < 16 → k.arenaByte (x + i) = h.arenaByte (x + i)

/-- Heaps that are alike, and have the bytes at some offsets of their regions in common. -/
structure AlikeOn (common : Nat → Prop) (h k : Heap) : Prop extends Alike h k where
  agrees : ∀ i, common i → Agrees h k i

/-- Heaps that are alike share the links of each free fragment. -/
theorem Alike.shares (a : Alike h k) (w : h.WellFormed) {x : Nat} (hx : h.freeFragment x = some log2) :
    Shares h k x := by
  intro i hi
  have := a.links x log2 hx i hi
  rw [arenaByte, arenaByte, a.arenaStart_eq, ← Nat.add_assoc] at this
  have := (w.lists.place x log2 hx).2.2
  exact agrees_of_byte_eq a.toBeside (by omega) ‹_›

theorem Beside.alike (b : Beside h k) (s : ∀ x log2, h.freeFragment x = some log2 → Shares h k x) :
    Alike h k := by
  refine ⟨b, fun x log2 hx i hi => ?_⟩
  rw [arenaByte, arenaByte, b.arenaStart_eq, ← Nat.add_assoc]
  exact (s x log2 hx i hi).byte_eq b

theorem AlikeOn.of_carried (a : AlikeOn common h k) (c : Carried h k h' k')
    (s : ∀ x log2, h'.freeFragment x = some log2 → Shares h k x ∨ Shares h' k' x) :
    AlikeOn common h' k' := by
  refine ⟨c.toBeside.alike fun x log2 hx => ?_, fun i hi => c.agrees i (a.agrees i hi)⟩
  rcases s x log2 hx with s | s
  · exact c.shares s
  · exact s

theorem AlikeOn.mono {common' : Nat → Prop} (a : AlikeOn common h k) (sub : ∀ i, common' i → common i) :
    AlikeOn common' h k :=
  ⟨a.toAlike, fun i hi => a.agrees i (sub i hi)⟩

/-- No fragment is free that was not free before. -/
def FreesNone (h h' : Heap) : Prop :=
  ∀ x log2, h'.freeFragment x = some log2 → h.freeFragment x = some log2

theorem FreesNone.of_eq (he : h' = h) : FreesNone h h' := by
  intro x log2 hx
  rw [he] at hx
  exact hx

theorem AlikeOn.carried (a : AlikeOn common h k) (w : h.WellFormed) (c : Carried h k h' k')
    (hfree : FreesNone h h') : AlikeOn common h' k' :=
  a.of_carried c fun x log2 hx => .inl (a.shares w (hfree x log2 hx))

/-- An operation that carries over what the heaps share, and frees no fragment, keeps them alike. -/
theorem Carries.alike {α : Type} {x : HeapM α} {Q : α → Heap → Prop} {E : HeapError → Heap → Prop}
    (hx : Carries x h k) (w : h.WellFormed) (a : AlikeOn common h k)
    (ends : Ends h.frame.Roomy x h Q E) (hQ : ∀ b h', Q b h' → FreesNone h h')
    (hE : ∀ e h', E e h' → FreesNone h h') : Preserves (AlikeOn common) x h k := by
  refine (hx.with_ends ends).mono ?_ ?_
  · intro b b' h' k' ⟨⟨he, c⟩, left⟩
    exact ⟨he, a.carried w c (hQ b h' left)⟩
  · intro e h' k' ⟨c, left⟩
    exact a.carried w c (hE e h' left)

/-- What is well-formed about a heap depends on its bytes only where they are links. -/
theorem Alike.wellFormed (a : Alike h k) (w : h.WellFormed) : k.WellFormed := by
  obtain ⟨r, rfl⟩ : ∃ r, k = h.on r := ⟨_, a.eq⟩
  have hsize : r.size = h.region.size := a.twin.size_eq
  exact { w with
    cuts := fun b log2 nfree hg => (w.cuts b log2 nfree hg).of_busy _ rfl rfl
    lists := by
      refine w.lists.congr rfl rfl (fun x log2 hx => ?_) fun x log2 hx i hlo hhi => ?_
      · have := (w.lists.place x log2 hx).2
        unfold HoldsLinks at *
        exact ⟨this.1, Nat.le_trans this.2 (Nat.le_of_eq hsize.symm)⟩
      · have := a.links x log2 hx (i - x) (by omega)
        rwa [show x + (i - x) = i by omega] at this
    size_eq := hsize.trans w.size_eq
    small := by
      show r.size < Size.limit
      rw [hsize]
      exact w.small }

/-! ## Which fragments are free -/

/-- Where a fragment of a cut block is no object, it is free. -/
theorem freeFragment_of_cut_of_none {x : Nat} (hc : h.cutLog2? (h.blockOf x) = some log2)
    (hal : x % fragmentSize log2 = 0) (hx : h.objectAt x = none) : h.freeFragment x = some log2 := by
  refine freeFragment_eq_some.2 ⟨hc, hal, ?_⟩
  cases hlive : h.isLiveFragment (h.blockOf x) x log2 with
  | false => rfl
  | true =>
    rw [objectAt_of_cut log2 hc, if_pos ⟨hal, hlive⟩] at hx
    cases hx

/-- An object as small as a fragment is one, and what else of its block is no object is free. -/
theorem WellFormed.freeFragment_beside (w : h.WellFormed) {s x : Nat}
    (hs : h.objectAt s = some (fragmentSize log2)) (hlt : log2 < h.blockLog2)
    (hb : h.blockOf s = h.blockOf x) (hal : x % fragmentSize log2 = 0) (hx : h.objectAt x = none) :
    h.freeFragment x = some log2 := by
  have hc := w.cutLog2?_of_objectAt hs hlt
  rw [hb] at hc
  exact freeFragment_of_cut_of_none hc hal hx

/-- In the block of a free fragment some object has its size. -/
theorem WellFormed.exists_beside (w : h.WellFormed) {x : Nat} (hx : h.freeFragment x = some log2) :
    log2 < h.blockLog2 ∧ x % fragmentSize log2 = 0 ∧ h.objectAt x = none ∧
      ∃ s, h.blockOf s = h.blockOf x ∧ h.objectAt s = some (fragmentSize log2) := by
  obtain ⟨hc, hal, hfree⟩ := freeFragment_eq_some.1 hx
  obtain ⟨nfree, hg, hok⟩ := w.cutOk hc
  refine ⟨hok.lt_block, hal, ?_, hok.exists_live hg⟩
  rw [objectAt_of_cut log2 hc, if_neg]
  rintro ⟨-, hlive⟩
  rw [hfree] at hlive
  cases hlive

/-- One object has come, gone or changed its length. A fragment that is free then was free before,
unless it is that object or lies beside it. -/
theorem Turns.freeFragment_cases (w : h.WellFormed) {start x : Nat} {length : Option Nat}
    (t : Turns h h' (replaced h.objectAt start length)) (hx : h'.freeFragment x = some log2) :
    h.freeFragment x = some log2 ∨
    (x = start ∧ length = none ∧ ∃ s, s ≠ start ∧ h.blockOf s = h.blockOf start ∧
      h.objectAt s = some (fragmentSize log2)) ∨
    (x ≠ start ∧ length = some (fragmentSize log2) ∧ h.blockOf x = h.blockOf start ∧
      log2 < h.blockLog2 ∧ x % fragmentSize log2 = 0 ∧ h.objectAt x = none) := by
  have hlog := blockLog2_of_frame t.frame_eq
  obtain ⟨hlt, hal, hnone, s, hb, hs⟩ := t.wellFormed.exists_beside hx
  rw [t.objects_eq] at hnone hs
  rw [hlog] at hlt
  rw [blockOf, blockOf, hlog] at hb
  by_cases hxs : x = start
  · subst hxs
    rw [replaced_self] at hnone
    have hne : s ≠ x := by
      intro he
      rw [he, replaced_self, hnone] at hs
      cases hs
    rw [replaced_of_ne _ _ hne] at hs
    exact .inr (.inl ⟨rfl, hnone, s, hne, hb, hs⟩)
  rw [replaced_of_ne _ _ hxs] at hnone
  by_cases hss : s = start
  · subst hss
    rw [replaced_self] at hs
    exact .inr (.inr ⟨hxs, hs, hb.symm, hlt, hal, hnone⟩)
  · rw [replaced_of_ne _ _ hss] at hs
    exact .inl (w.freeFragment_beside hs hlt hb hal hnone)

/-- Heaps with the same objects have the same free fragments. -/
theorem freesNone_of_objects (w : h.WellFormed) (w' : h'.WellFormed) (hlog : h'.blockLog2 = h.blockLog2)
    (hobj : ∀ s, h'.objectAt s = h.objectAt s) : FreesNone h h' := by
  intro x log2 hx
  obtain ⟨hlt, hal, hnone, s, hb, hs⟩ := w'.exists_beside hx
  rw [hobj] at hnone hs
  rw [hlog] at hlt
  rw [blockOf, blockOf, hlog] at hb
  exact w.freeFragment_beside hs hlt hb hal hnone

theorem Turns.freesNone (w : h.WellFormed) (t : Turns h h' h.objectAt) : FreesNone h h' :=
  freesNone_of_objects w t.wellFormed (blockLog2_of_frame t.frame_eq) t.objects_eq

/-- A run of blocks that comes, or takes on another length, frees no fragment. -/
theorem Turns.freesNone_of_run (w : h.WellFormed) {start count : Nat} (hpos : 0 < count)
    (t : Turns h h' (replaced h.objectAt start (some (count * h.blockSize)))) : FreesNone h h' := by
  intro x log2 hx
  rcases t.freeFragment_cases w hx with hfree | ⟨-, hn, -⟩ | ⟨-, hlength, -, hlt, -⟩
  · exact hfree
  · cases hn
  · have := fragmentSize_lt_blockSize hlt
    have := Nat.le_mul_of_pos_left h.blockSize hpos
    rw [Option.some.injEq] at hlength
    omega

/-! ## Blocks -/

theorem grow_preserves (w : h.WellFormed) (a : AlikeOn common h k) (count : Nat) :
    Preserves (AlikeOn common) (grow count) h k :=
  (grow_carries a.toBeside count).alike w a (grow_ends w count)
    (fun _ _ ⟨t, _⟩ => t.freesNone w) fun _ _ hE => .of_eq hE.1

theorem shrink_preserves (w : h.WellFormed) (a : AlikeOn common h k) (count : Nat) :
    Preserves (AlikeOn common) (shrink count) h k :=
  (shrink_carries a.toBeside count).alike w a (shrink_ends w count)
    (fun _ _ ⟨t, _⟩ => t.freesNone w) fun _ _ hE => .of_eq (hE.elim And.left And.left)

theorem returnTail_preserves (w : h.WellFormed) (a : AlikeOn common h k) :
    Preserves (AlikeOn common) returnTail h k :=
  (returnTail_carries a.toBeside).alike w a (returnTail_ends w (E := fun _ _ => False))
    (fun _ _ t => t.freesNone w) fun _ _ hE => hE.elim

theorem trim_preserves (w : h.WellFormed) (a : AlikeOn common h k) :
    Preserves (AlikeOn common) trim h k := by
  refine Preserves.get_bind a.toBeside (fun _ => rfl) ?_
  apply Preserves.orTrap_bind
  intro count _
  apply Preserves.bind (shrink_preserves w a count)
  intro _ h₁ k₁ a₁
  exact Preserves.pure a₁ count

/-! ## Allocating and freeing -/

/-- A block that has a free fragment is cut, and what else of it is free then was free before. -/
theorem reuseFragment_preserves (w : h.WellFormed) (a : AlikeOn common h k) {offset : Nat}
    (hx : h.freeFragment offset = some log2) :
    Preserves (AlikeOn common) (reuseFragment log2 offset) h k := by
  obtain ⟨hc, -, -⟩ := freeFragment_eq_some.1 hx
  refine (reuseFragment_carries a.toBeside (a.shares w hx)).alike w a
    (reuseFragment_ends w hx (E := fun _ _ => False)) ?_ fun _ _ hE => hE.elim
  intro _ h' reused x size hfree
  rcases reused.2.2.freeFragment_cases w hfree with hold | ⟨-, hn, -⟩ | ⟨-, hsize, hb, -, hal, hnone⟩
  · exact hold
  · cases hn
  · cases fragmentSize_inj (Option.some.inj hsize)
    rw [← hb] at hc
    exact freeFragment_of_cut_of_none hc hal hnone

/-- Links were written into all fragments of a block that was cut, but for the first. -/
theorem cutBlock_preserves (w : h.WellFormed) (a : AlikeOn common h k) (hmin : minFragmentLog2 ≤ log2)
    (hlt : log2 < h.blockLog2) : Preserves (AlikeOn common) (cutBlock log2) h k := by
  refine ((cutBlock_lockstep w a.toBeside log2).with_ends (cutBlock_ends w hmin hlt)).mono ?_ ?_
  · rintro handle _ h' k' ⟨⟨rfl, c, block, hstart, s⟩, -, t⟩
    refine ⟨rfl, a.of_carried c fun x size hx => ?_⟩
    rcases t.freeFragment_cases w hx with hfree | ⟨-, hn, -⟩ | ⟨hne, hsize, hb, -, hal, -⟩
    · exact .inl (a.shares w hfree)
    · cases hn
    · right
      cases fragmentSize_inj (Option.some.inj hsize)
      rw [hstart, blockOf_blockStart] at hb
      have hle := Nat.le_of_lt hlt
      have hnth := nthFragment_indexInBlock hle hal
      rw [hb, ← hstart] at hnth
      have hpos : 1 ≤ h.indexInBlock x log2 := by
        refine Nat.pos_of_ne_zero fun h0 => hne ?_
        rw [← hnth, h0, nthFragment_zero]
      have shared := s (h.indexInBlock x log2) hpos (indexInBlock_lt hle x)
      rwa [hnth] at shared
  · intro e h' k' refused
    exact a.carried w refused.1 (.of_eq refused.2.1)

theorem allocateSmall_preserves (w : h.WellFormed) (a : AlikeOn common h k)
    (hmin : minFragmentLog2 ≤ log2) (hlt : log2 < h.blockLog2) :
    Preserves (AlikeOn common) (allocateSmall log2) h k := by
  have hfirst : h.freeLists[log2]? = some (h.listHead log2) := by
    rw [listHead, Array.getElem?_eq_getElem (by rw [w.heads]; exact hlt)]
    rfl
  have hfirst' : firstFree log2 = (get >>= fun h => orTrap h.freeLists[log2]? : HeapM _) := rfl
  unfold allocateSmall
  rw [hfirst', bind_assoc]
  refine Preserves.get_bind a.toBeside (fun _ => rfl) ?_
  apply Preserves.orTrap_bind
  intro head hhead
  rw [hfirst, Option.some.injEq] at hhead
  cases head with
  | some offset => exact reuseFragment_preserves w a (w.lists.threads.home_of_head hhead)
  | none => exact cutBlock_preserves w a hmin hlt

theorem allocate_preserves (w : h.WellFormed) (a : AlikeOn common h k) (size : Nat) :
    Preserves (AlikeOn common) (allocate size) h k := by
  have hfits := sizeClass_fits w size
  refine Preserves.get_bind a.toBeside (fun _ => rfl) ?_
  cases hc : h.sizeClass size with
  | fragment log2 =>
    rw [hc] at hfits
    exact allocateSmall_preserves w a hfits.1 hfits.2.1
  | blocks count =>
    rw [hc] at hfits
    have hpos := hfits.1
    refine Preserves.bind (R := AlikeOn common) ?_ fun block _ _ a' => Preserves.pure a' _
    exact (claimBlocks_carries a.toBeside count).alike w a (claimBlocks_ends w hpos)
      (fun _ _ ⟨claimed, _⟩ => claimed.2.2.freesNone_of_run w hpos) fun _ _ hE => .of_eq hE.1

theorem freeSmall_preserves (w : h.WellFormed) (a : AlikeOn common h k) {offset nfree : Nat}
    (hg : h.table.get? (h.blockOf offset) = some (.fragmented log2 nfree)) :
    Preserves (AlikeOn common) (freeSmall (h.blockOf offset) offset log2 nfree) h k := by
  have hc : h.cutLog2? (h.blockOf offset) = some log2 := cutLog2?_eq_some.2 ⟨nfree, hg⟩
  have frees := freeSmall_lockstep a.toBeside fun hlive hal hlast i hi hne =>
    a.shares w ((w.onlyLive hg hal hlive hlast).freeFragment_eq hi hne)
  refine (frees.with_ends (freeSmall_ends w hg)).mono ?_ ?_
  · intro _ _ h' k' ⟨⟨c, s⟩, hobj, t⟩
    refine ⟨rfl, a.of_carried c fun x size hx => ?_⟩
    rcases t.freeFragment_cases w hx with hfree | ⟨rfl, -, y, hne, hb, hy⟩ | ⟨-, hn, -⟩
    · exact .inl (a.shares w hfree)
    · -- another object of the block is left, so the fragment was listed
      refine .inr (s (Nat.lt_of_not_le fun hlast => ?_))
      rw [objectAt_of_cut log2 hc] at hobj
      obtain ⟨_, hobj⟩ := Option.ne_none_iff_exists'.1 hobj
      obtain ⟨hal, hlive⟩ := (Option.ite_none_right_eq_some.1 hobj).1
      have o := w.onlyLive hg hal hlive hlast
      rw [objectAt_of_cut log2 (by rw [hb]; exact hc), Option.ite_none_right_eq_some, hb] at hy
      rw [o.others y hb hy.1.1 hne] at hy
      cases hy.1.2
    · cases hn
  · intro e h' k' ⟨c, ⟨same, _⟩, _⟩
    exact a.carried w c (.of_eq same)

/-- Giving back a run of blocks frees no fragment. -/
theorem returnBlocks_preserves (w : h.WellFormed) (a : AlikeOn common h k) {block length : Nat}
    (hg : h.table.get? block = some (.run length)) :
    Preserves (AlikeOn common) (returnBlocks block length) h k := by
  refine ((oblivious_onTable _).carries a.toBeside).alike w a
    (returnBlocks_ends w hg (E := fun _ _ => False)) (fun _ h' t => ?_)
    fun _ _ hE => hE.elim
  intro x log2 hx
  rcases t.freeFragment_cases w hx with hfree | ⟨-, -, y, hne, hb, hy⟩ | ⟨-, hn, -⟩
  · exact hfree
  · -- all of the block belongs to the run
    rw [blockOf_blockStart] at hb
    rcases objectAt_eq_some.1 hy with ⟨size, hc, -⟩ | ⟨n, -, hal, -⟩
    · rw [hb, cutLog2?, hg] at hc
      cases hc
    · exact absurd (eq_blockStart hb hal) hne
  · cases hn

theorem freeAllocation_preserves (w : h.WellFormed) (a : AlikeOn common h k) (offset : Nat) :
    Preserves (AlikeOn common) (freeAllocation offset) h k := by
  refine Preserves.get_bind a.toBeside (fun _ => rfl) ?_
  dsimp only
  split
  · rename_i length hg
    exact Preserves.ite (fun _ => returnBlocks_preserves w a hg) fun _ => Preserves.refuse a _
  · rename_i log2 nfree hg
    exact freeSmall_preserves w a hg
  · exact Preserves.refuse a _

/-- Names and records make no difference to what heaps have in common. -/
theorem AlikeOn.with_registry (a : AlikeOn common h k) (names : NameTable)
    (aligned : AlignmentRecords) :
    AlikeOn common { h with names, aligned } { k with names, aligned } where
  eq := by
    rw [a.eq]
    rfl
  twin := a.twin
  links := a.links
  agrees := a.agrees

theorem free_preserves (w : h.WellFormed) (a : AlikeOn common h k) (handle : Handle) :
    Preserves (AlikeOn common) (free handle) h k := by
  refine Preserves.get_bind a.toBeside (fun _ => rfl) ?_
  dsimp only
  refine Preserves.bind_ends (freeAllocation_preserves w a _) (freeAllocation_ends w _)
    fun _ h₁ k₁ ⟨_, t⟩ a₁ => ?_
  have w₁ := t.wellFormed
  refine Preserves.ite (fun _ => ?_) fun _ => returnTail_preserves w₁ a₁
  obtain ⟨r, rfl⟩ : ∃ r, k₁ = h₁.on r := ⟨_, a₁.eq⟩
  apply Lockstep.bind'
  apply Lockstep.modify'
  exact returnTail_preserves (w₁.with_registry rfl rfl w₁.names (w₁.records.erase handle))
    (a₁.with_registry h₁.names (h₁.aligned.erase handle))

/-! ## The bytes of an object -/

theorem usableFrom_preserves (a : AlikeOn common h k) (offset : Nat) :
    Preserves (AlikeOn common) (usableFrom offset) h k := by
  refine Preserves.get_bind a.toBeside (fun _ => rfl) ?_
  apply Preserves.orFail_bind a
  intro extent _
  apply Preserves.orTrap_bind
  intro stop _
  exact Lockstep.orTrap' fun _ _ => ⟨rfl, a⟩

theorem checkExtent_preserves (a : AlikeOn common h k) (offset count : Nat) :
    Preserves (AlikeOn common) (checkExtent offset count) h k := by
  apply Preserves.bind (usableFrom_preserves a offset)
  intro usable h₁ k₁ a₁
  exact Preserves.ite (fun _ => Preserves.refuse a₁ _) fun _ => Preserves.pure a₁ ()

/-- What stands at these offsets of the region, but for `count` bytes of the arena. -/
def Outside (h : Heap) (offset count : Nat) (common : Nat → Prop) (i : Nat) : Prop :=
  common i ∧ ¬(h.arenaStart + offset ≤ i ∧ i < h.arenaStart + offset + count)

/-- Objects may be written with different bytes in the two heaps: no link lies in an object. -/
theorem writeObject_lockstep (w : h.WellFormed) (a : AlikeOn common h k) {start l offset : Nat}
    {data data' : ByteArray} (hs : h.objectAt start = some l) (hlo : start ≤ offset)
    (hhi : offset + data.size ≤ start + l) (hsize : data'.size = data.size) :
    Lockstep (writeArena offset data) (writeArena offset data') h k
      (fun _ _ h' k' => AlikeOn (Outside h' offset data.size common) h' k') fun _ _ _ => False := by
  refine (writeArena_lockstep a.toBeside offset hsize).mono ?_ fun _ _ _ hE => hE
  rintro - - h' k' ⟨wr, wr'⟩
  have free : h'.freeFragment = h.freeFragment := by rw [wr.eq]; rfl
  have hstart : h'.arenaStart = h.arenaStart := by rw [wr.eq]; rfl
  have kept {i : Nat} (hi : ¬(h.arenaStart + offset ≤ i ∧ i < h.arenaStart + offset + data.size))
      (c : Agrees h k i) : Agrees h' k' i := by
    rw [Agrees, wr.grownByte_eq hi, wr'.grownByte_eq (by rw [hsize]; exact hi)]
    exact c
  refine ⟨(wr.beside a.toBeside wr').alike fun x log2 hx i hi => ?_,
    fun i hi => kept (by rw [← hstart]; exact hi.2) (a.agrees i hi.1)⟩
  rw [free] at hx
  rw [hstart]
  refine kept (fun hin => ?_) (a.shares w hx i hi)
  exact w.links_outside hs (i := x + i) (by omega) x log2 hx (by omega)

theorem Beside.isSome_readArena? (b : Beside h k) (offset count : Nat) :
    (k.readArena? offset count).isSome = (h.readArena? offset count).isSome := by
  rw [readArena?, readArena?, b.arenaStart_eq]
  exact b.twin.isSome_read? _ _

/-- What is read may differ, but not how much. -/
theorem read_lockstep (a : AlikeOn common h k) (offset count : Nat) :
    Lockstep (read offset count) (read offset count) h k
      (fun data data' h' k' => data'.size = data.size ∧ AlikeOn common h' k')
      fun _ h' k' => AlikeOn common h' k' := by
  refine (checkExtent_preserves a offset count).andThen ?_ fun _ _ _ a' => a'
  intro _ h' k' a'
  apply Lockstep.get_bind
  apply Lockstep.orTrap_both (a'.toBeside.isSome_readArena? offset count)
  intro data data' hd hd'
  exact ⟨(Region.size_of_read? hd').trans (Region.size_of_read? hd).symm, a'⟩

theorem write_lockstep (w : h.WellFormed) (a : AlikeOn common h k) (offset : Nat)
    {data data' : ByteArray} (hsize : data'.size = data.size) :
    Lockstep (write offset data) (write offset data') h k
      (fun _ _ h' k' => AlikeOn (Outside h' offset data.size common) h' k')
      fun _ h' k' => AlikeOn common h' k' := by
  unfold write
  rw [hsize]
  refine (checkExtent_preserves a offset data.size).andThen_ends (checkExtent_ends w offset data.size)
    ?_ fun _ _ _ a' => a'
  rintro - h' k' ⟨rfl, start, usable, hin, hle⟩ a'
  have hlo := hin.start_le
  exact (writeObject_lockstep w a' hin.object hlo (by omega) hsize).mono (fun _ _ _ _ a'' => a'')
    fun _ _ _ hE => hE.elim

/-- The same bytes are written into an object. -/
theorem writeObject_preserves (w : h.WellFormed) (a : AlikeOn common h k) {start l offset : Nat}
    {data : ByteArray} (hs : h.objectAt start = some l) (hlo : start ≤ offset)
    (hhi : offset + data.size ≤ start + l) :
    Preserves (AlikeOn common) (writeArena offset data) h k := by
  refine (writeArena_carries a.toBeside offset data).alike w a
    (writeObject_ends w hs hlo hhi (E := fun _ _ => False)) (fun _ h' ⟨wr, _⟩ => ?_)
    fun _ _ hE => hE.elim
  intro x log2 hx
  rw [wr.eq] at hx
  exact hx

theorem allocateZeroed_preserves (w : h.WellFormed) (a : AlikeOn common h k) (count size : Nat) :
    Preserves (AlikeOn common) (allocateZeroed count size) h k := by
  apply Preserves.orRefuse_bind a
  intro total _
  apply Preserves.bind_ends (allocate_preserves w a total) (allocate_ends w total)
  intro handle h₁ k₁ ⟨_, length, hle, t⟩ a₁
  have hobj : h₁.objectAt handle = some length := by rw [t.objects_eq, replaced_self]
  have hfit : handle + (Bytes.zeros total).size ≤ handle + length := by
    rw [Bytes.size_zeros]
    exact Nat.add_le_add_left hle handle
  apply Preserves.bind (writeObject_preserves t.wellFormed a₁ hobj (Nat.le_refl _) hfit)
  intro _ h₂ k₂ a₂
  exact Preserves.pure a₂ handle

/-! ## Moving and resizing -/

/-- What stands at these offsets of the region, but for the bytes of objects. -/
def OutsideObjects (h : Heap) (common : Nat → Prop) (i : Nat) : Prop :=
  common i ∧ ∀ s l, h.objectAt s = some l → ¬(h.arenaStart + s ≤ i ∧ i < h.arenaStart + s + l)

/-- An object is resized in both heaps. Its bytes may have been moved, or left behind in an object that
was not freed. -/
def Resizes (common : Nat → Prop) (handle size : Nat) (x : HeapM Handle) (h k : Heap) : Prop :=
  Lockstep x x h k
    (fun moved moved' h' k' => moved = moved' ∧ AlikeOn common h' k' ∨ moved = moved' ∧
      moved ≠ handle ∧ AlikeOn (h'.Outside moved size common) h' k')
    fun _ h' k' => AlikeOn (h'.OutsideObjects common) h' k'

theorem Resizes.andThen_ends {α : Type} {x : HeapM α} {f : α → HeapM Handle} {handle size : Nat}
    {Q : α → Heap → Prop} {E : HeapError → Heap → Prop} (hx : Preserves (AlikeOn common) x h k)
    (ends : Ends h.frame.Roomy x h Q E)
    (hf : ∀ a h' k', Q a h' → AlikeOn common h' k' → Resizes common handle size (f a) h' k') :
    Resizes common handle size (x >>= f) h k :=
  hx.andThen_ends ends hf fun _ _ _ a => a.mono fun _ hi => hi.1

/-- The bytes of an object are copied, whatever they are in each heap. -/
theorem moveObject_resizes (w : h.WellFormed) (a : AlikeOn common h k) (handle size : Nat) :
    Resizes common handle size (moveObject handle size) h k := by
  apply Resizes.andThen_ends (usableFrom_preserves a handle) (usableFrom_ends w handle)
  rintro available h₁ k₁ ⟨rfl, start, hin⟩ a₁
  apply Resizes.andThen_ends (allocate_preserves w a₁ size) (allocate_ends w size)
  intro moved h₂ k₂ ⟨hfresh, length, hle, t⟩ a₂
  have w₂ := t.wellFormed
  have hnew : h₂.objectAt moved = some length := by rw [t.objects_eq, replaced_self]
  have hne := hin.ne_of_fresh hfresh t
  apply Lockstep.get_bind
  apply Lockstep.bind'
  apply Lockstep.orTrap_both (a₂.toBeside.isSome_readArena? _ _)
  intro data data' hd hd'
  have hs := Region.size_of_read? hd
  have hs' := Region.size_of_read? hd'
  have hfit : moved + data.size ≤ moved + length := Nat.add_le_add_left (by omega) _
  have writes := writeObject_lockstep w₂ a₂ hnew (Nat.le_refl _) hfit (hs'.trans hs.symm)
  refine Lockstep.bind' ((writes.with_ends (writeObject_ends w₂ hnew (Nat.le_refl _) hfit
    (E := fun _ _ => False))).mono ?_ fun _ _ _ hE => hE.1.elim)
  intro _ _ h₃ k₃ ⟨a₃, wr, _⟩
  have hstart : h₃.arenaStart = h₂.arenaStart := arenaStart_of_frame wr.frame_eq
  have frees := free_preserves wr.wellFormed a₃ handle
  refine Lockstep.bind' ((frees.with_ends (free_ends wr.wellFormed handle)).mono ?_ ?_)
  · intro _ _ h₄ k₄ ⟨⟨_, a₄⟩, _, t₄⟩
    have hstart₄ : h₄.arenaStart = h₃.arenaStart := arenaStart_of_frame t₄.frame_eq
    refine Lockstep.pure' (.inr ⟨rfl, hne, a₄.mono fun i hi => ⟨hi.1, fun hin => hi.2 ?_⟩⟩)
    omega
  · -- the old object is not freed, but the new one stays and holds its bytes
    rintro e h₄ k₄ ⟨a₄, ⟨rfl, -⟩, -⟩
    have hnew₄ : h₄.objectAt moved = some length := (wr.objects_eq moved).trans hnew
    refine a₄.mono fun i hi => ⟨hi.1, fun hin => hi.2 moved length hnew₄ ?_⟩
    omega

theorem growBehind_carries (b : Beside h k) (block length want : Nat) :
    Carries (growBehind block length want) h k := by
  have stays := Carried.refl b
  refine Preserves.get_bind b (fun _ => rfl) ?_
  apply Preserves.orTrap_bind
  intro stop _
  apply Preserves.orTrap_bind
  intro trailing _
  split
  · exact Preserves.pure stays false
  apply Preserves.ite
  · exact fun _ => Preserves.pure stays false
  intro _
  apply Preserves.orTrap_bind
  intro missing _
  apply Preserves.ite
  · exact fun _ => Preserves.pure stays false
  intro _
  apply Carries.bind
  · apply Lockstep.granted'
    apply (grow_carries b missing).mono
    · intro _ _ h' k' ⟨_, c⟩
      exact ⟨rfl, c⟩
    · intro _ h' k' c
      exact ⟨rfl, c⟩
  intro grown h₁ k₁ c
  exact Preserves.ite (fun _ => (oblivious_onTable _).carries c.toBeside) fun _ =>
    Preserves.pure (.refl c.toBeside) false

section

variable {block length want : Nat}

theorem shortenRun_preserves (w : h.WellFormed) (a : AlikeOn common h k)
    (hg : h.table.get? block = some (.run length)) (hpos : 0 < want) (hlt : want < length) :
    Preserves (AlikeOn common) (shortenRun block length want) h k := by
  have shortens : Ends h.frame.Roomy _ h _ _ := shorten_ends w hg hpos hlt (E := fun _ _ => False)
  have first := ((oblivious_onTable _).carries a.toBeside).alike w a shortens
    (fun _ _ t => t.freesNone_of_run w hpos) fun _ _ hE => hE.elim
  apply Preserves.bind_ends first shortens
  intro _ h₁ k₁ t a₁
  exact returnTail_preserves t.wellFormed a₁

theorem lengthenRun_preserves (w : h.WellFormed) (a : AlikeOn common h k)
    (hg : h.table.get? block = some (.run length)) (hpos : 0 < want) (hlt : length < want) :
    Preserves (AlikeOn common) (lengthenRun block length want) h k := by
  refine ((oblivious_onTable _).carries a.toBeside).alike w a
    (lengthenRun_ends w hg hlt (E := fun _ _ => False)) ?_ fun _ _ hE => hE.elim
  intro done h' hdone
  split at hdone
  · exact hdone.1.freesNone_of_run w hpos
  · exact .of_eq hdone.1

theorem growBehind_preserves (w : h.WellFormed) (a : AlikeOn common h k)
    (hg : h.table.get? block = some (.run length)) (hpos : 0 < want) (hlt : length < want)
    (hshort : (h.table.freeSize? (block + length)).getD 0 < want - length) :
    Preserves (AlikeOn common) (growBehind block length want) h k := by
  refine (growBehind_carries a.toBeside _ _ _).alike w a
    (growBehind_ends w hg hlt hshort (E := fun _ _ => False)) ?_ fun _ _ hE => hE.elim
  intro done h' hdone
  split at hdone
  · exact hdone.1.freesNone_of_run w hpos
  · exact .of_eq hdone

end

section

variable {Q : Handle → Handle → Heap → Heap → Prop} {E : HeapError → Heap → Heap → Prop}

/-- An object that is resized stays where it is in both heaps, or is moved in both. -/
theorem resizeObject_lockstep (w : h.WellFormed) (a : AlikeOn common h k) (handle size : Nat)
    (stays : ∀ h' k', AlikeOn common h' k' → Q handle handle h' k')
    (refused : ∀ e h' k', AlikeOn common h' k' → E e h' k')
    (moves : ∀ k', AlikeOn common h k' →
      Lockstep (moveObject handle size) (moveObject handle size) h k' Q E) :
    Lockstep (resizeObject handle size) (resizeObject handle size) h k Q E := by
  have hfits := sizeClass_fits w size
  refine a.toBeside.get_bind (fun _ => rfl) ?_
  dsimp only
  split
  · rename_i length want hg hclass
    rw [hclass] at hfits
    have hpos := hfits.1
    refine Lockstep.ite' (fun hlt => ?_) fun hge =>
      Lockstep.ite' (fun _ => Lockstep.pure' (stays h k a)) fun hne => ?_
    · refine (shortenRun_preserves w a hg hpos hlt).andThen (fun _ h' k' a' => ?_) refused
      exact Lockstep.pure' (stays h' k' a')
    have hlt : length < want := by omega
    refine (lengthenRun_preserves w a hg hpos hlt).andThen_ends
      (lengthenRun_ends w hg hlt (E := fun _ _ => False)) (fun done h₁ k₁ hdone a₁ => ?_) refused
    refine Lockstep.ite' (fun _ => Lockstep.pure' (stays h₁ k₁ a₁)) fun hd => ?_
    rw [if_neg hd] at hdone
    obtain ⟨rfl, hshort⟩ := hdone
    refine (growBehind_preserves w a₁ hg hpos hlt hshort).andThen_ends
      (growBehind_ends w hg hlt hshort (E := fun _ _ => False)) (fun done h₂ k₂ hdone a₂ => ?_) refused
    refine Lockstep.ite' (fun _ => Lockstep.pure' (stays h₂ k₂ a₂)) fun hd => ?_
    rw [if_neg hd] at hdone
    subst hdone
    exact moves k₂ a₂
  · exact Lockstep.ite' (fun _ => Lockstep.pure' (stays h k a)) fun _ => moves k a
  · exact moves k a

theorem reallocate_lockstep (w : h.WellFormed) (a : AlikeOn common h k) (handle size : Nat)
    (stays : ∀ h' k', AlikeOn common h' k' → Q handle handle h' k')
    (refused : ∀ e h' k', AlikeOn common h' k' → E e h' k')
    (moves : ∀ k', AlikeOn common h k' →
      Lockstep (moveObject handle size) (moveObject handle size) h k' Q E) :
    Lockstep (reallocate handle size) (reallocate handle size) h k Q E := by
  refine a.toBeside.get_bind (fun _ => rfl) ?_
  apply Lockstep.ite'
  · exact fun _ => moves k a
  intro _
  refine Lockstep.bind' (Lockstep.orFail' (fun extent _ => ?_) fun e => refused e h k a)
  apply Lockstep.ite'
  · exact fun _ => resizeObject_lockstep w a handle size stays refused moves
  · exact fun _ => Lockstep.refuse' (refused _ h k a)

end

theorem reallocate_resizes (w : h.WellFormed) (a : AlikeOn common h k) (handle size : Nat) :
    Resizes common handle size (reallocate handle size) h k := by
  apply reallocate_lockstep w a handle size
  · exact fun _ _ a' => .inl ⟨rfl, a'⟩
  · exact fun _ _ _ a' => a'.mono fun _ hi => hi.1
  · exact fun _ a' => moveObject_resizes w a' handle size

/-! ## Alignment -/

theorem allocateWithSlack_preserves (w : h.WellFormed) (a : AlikeOn common h k)
    (alignment padded : Nat) : Preserves (AlikeOn common) (allocateWithSlack alignment padded) h k := by
  apply Preserves.orRefuse_bind a
  intro slack _
  apply Preserves.bind (allocate_preserves w a slack)
  intro start h₁ k₁ a₁
  apply Preserves.orTrap_bind
  intro handle _
  apply Preserves.ite
  · exact fun _ => Preserves.pure a₁ start
  intro _
  obtain ⟨r, rfl⟩ : ∃ r, k₁ = h₁.on r := ⟨_, a₁.eq⟩
  apply Lockstep.get_bind
  refine Lockstep.bind' (Lockstep.ofExcept' (fun records _ => ?_) fun _ => a₁)
  apply Lockstep.bind'
  apply Lockstep.set'
  exact Preserves.pure (a₁.with_registry h₁.names records) handle

theorem allocateAligned_preserves (w : h.WellFormed) (a : AlikeOn common h k) (alignment size : Nat) :
    Preserves (AlikeOn common) (allocateAligned alignment size) h k := by
  apply Preserves.ite
  · exact fun _ => Preserves.refuse a _
  intro _
  apply Preserves.orRefuse_bind a
  intro room _
  apply Preserves.bind_ends (allocate_preserves w a _) (allocate_ends w _)
  intro start h₁ k₁ ⟨_, _, _, t₁⟩ a₁
  apply Preserves.ite
  · exact fun _ => Preserves.pure a₁ start
  intro _
  apply Preserves.bind_ends (freeAllocation_preserves t₁.wellFormed a₁ start)
    (freeAllocation_ends t₁.wellFormed start)
  intro _ h₂ k₂ ⟨_, t₂⟩ a₂
  refine Preserves.get_bind a₂.toBeside (fun _ => rfl) ?_
  apply Preserves.ite
  · exact fun _ => Preserves.refuse a₂ _
  · exact fun _ => allocateWithSlack_preserves t₂.wellFormed a₂ _ _

/-! ## Names -/

/-- The heaps have one table of names. -/
theorem onNames_preserves {α : Type} (a : AlikeOn common h k) (x : NamesM α) :
    Preserves (AlikeOn common) (onNames x) h k := by
  obtain ⟨r, rfl⟩ : ∃ r, k = h.on r := ⟨_, a.eq⟩
  unfold Preserves Lockstep onNames
  dsimp only [on]
  cases x h.names with
  | ok answer names => exact .granted ⟨rfl, a.with_registry names h.aligned⟩
  | error failure names =>
    cases failure with
    | refused e => exact .refused (a.with_registry names h.aligned)
    | trap => exact .trap

theorem resolve_preserves (a : AlikeOn common h k) (offset : Nat) :
    Preserves (AlikeOn common) (resolve offset) h k := by
  refine Preserves.get_bind a.toBeside (fun _ => rfl) ?_
  exact Preserves.orFail_bind a fun _ _ => Preserves.pure a _

theorem register_preserves (a : AlikeOn common h k) (name : String) (offset : Nat) :
    Preserves (AlikeOn common) (register name offset) h k :=
  Preserves.bind ((resolve_preserves a offset).map _) fun _ _ _ a₁ => onNames_preserves a₁ _

theorem lookup_preserves (a : AlikeOn common h k) (name : String) :
    Preserves (AlikeOn common) (lookup name) h k := onNames_preserves a _

theorem unregister_preserves (a : AlikeOn common h k) (name : String) :
    Preserves (AlikeOn common) (unregister name) h k := onNames_preserves a _

/-- An allocation that is named. -/
theorem allocateAs_preserves (a : AlikeOn common h k) (name : String) {allocation : HeapM Handle}
    (hx : Preserves (AlikeOn common) allocation h k) :
    Preserves (AlikeOn common) (allocateAs name allocation) h k := by
  refine Preserves.get_bind a.toBeside (fun _ => rfl) ?_
  apply Preserves.ofExcept_bind a
  intro _ _
  apply Preserves.ite
  · exact fun _ => Preserves.refuse a _
  intro _
  apply Preserves.ite
  · exact fun _ => Preserves.refuse a _
  intro _
  apply Preserves.bind hx
  intro handle h₁ k₁ a₁
  exact Preserves.bind (onNames_preserves a₁ _) fun _ _ _ a₂ => Preserves.pure a₂ handle

theorem freeNamed_preserves (w : h.WellFormed) (a : AlikeOn common h k) (name : String) :
    Preserves (AlikeOn common) (freeNamed name) h k := by
  apply Preserves.bind_ends (lookup_preserves a name) (lookup_ends w name)
  rintro handle h₁ k₁ ⟨rfl, -⟩ a₁
  apply Preserves.bind (free_preserves w a₁ handle)
  intro _ h₂ k₂ a₂
  exact (unregister_preserves a₂ name).map _

end RegionHeap.Heap
