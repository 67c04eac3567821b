import RegionHeap.Proofs.Heap.FragmentSteps
import RegionHeap.Proofs.Heap.Lockstep

/-!
Lists of free fragments in two heaps at once. The heaps share a fragment's links if they have these
16 bytes in common (`Shares`). Listing a fragment writes the same links into both heaps, so that they
share them from then on; taking one off reads its links, so that the heaps have to share them. All
other steps on fragments look at the busy maps and the block table only.
-/
namespace RegionHeap.Heap

open HeapM BlockTable

variable {h k h' k' : Heap} {log2 : Nat}

/-- The heaps have the links of the fragment at an offset in common. -/
def Shares (h k : Heap) (offset : Nat) : Prop :=
  ∀ i, i < 16 → Agrees h k (h.arenaStart + offset + i)

/-- What two heaps share, they go on to share. -/
theorem Carried.shares (c : Carried h k h' k') {offset : Nat} (s : Shares h k offset) :
    Shares h' k' offset := by
  intro i hi
  rw [c.start_eq]
  exact c.agrees _ (s i hi)

theorem Beside.arenaStart_eq (b : Beside h k) : k.arenaStart = h.arenaStart := by
  rw [b.eq]
  rfl

/-- Eight bytes that two heaps have in common are read alike. -/
theorem Beside.arenaNumber?_eq (b : Beside h k) {offset : Nat}
    (c : ∀ i, i < 8 → Agrees h k (h.arenaStart + offset + i)) :
    k.arenaNumber? offset = h.arenaNumber? offset := by
  have hsize := b.twin.size_eq
  rw [arenaNumber?, arenaNumber?, b.arenaStart_eq]
  by_cases hfit : h.arenaStart + offset + 8 ≤ h.region.size
  · refine Region.number?_congr hfit (by omega) fun i hlo hhi => ?_
    have := (c (i - (h.arenaStart + offset)) (by omega)).byte_eq b
    rwa [Nat.add_sub_cancel' hlo] at this
  · rw [Region.number?, Region.number?, if_neg hfit, if_neg (by omega)]

/-- The links that two heaps share are read alike. -/
theorem Shares.linksAt?_eq {offset : Nat} (s : Shares h k offset) (b : Beside h k) :
    k.linksAt? offset = h.linksAt? offset := by
  rw [linksAt?, linksAt?, b.arenaNumber?_eq fun i hi => s i (by omega),
    b.arenaNumber?_eq fun i hi => by
      rw [← Nat.add_assoc h.arenaStart, Nat.add_assoc _ 8]
      exact s (8 + i) (by omega)]

/-! ## Writing links -/

/-- Bytes of the region have been written, and nothing else has changed. -/
structure Written (h h' : Heap) (start : Nat) (data : ByteArray) : Prop where
  eq : h' = h.on h'.region
  region : Region.Rewritten h.region h'.region
  fits : start + data.size ≤ h.region.size
  bytes : ∀ i, h'.region.byte i =
    if start ≤ i ∧ i < start + data.size then Bytes.byte data (i - start) else h.region.byte i

/-- As many bytes are written at the same place in both regions, or both runs are traps. -/
theorem modifyRegion_lockstep (b : Beside h k) (start : Nat) {data data' : ByteArray}
    (hsize : data'.size = data.size) :
    Lockstep (modifyRegion fun r => r.write? start data) (modifyRegion fun r => r.write? start data')
      h k
      (fun _ _ h' k' => Written h h' start data ∧ Written k k' start data') fun _ _ _ => False := by
  have hregion : k.region.size = h.region.size := b.twin.size_eq
  by_cases hfit : start + data.size ≤ h.region.size
  · have hfit' : start + data'.size ≤ k.region.size := by omega
    obtain ⟨s, hs, hw, hb⟩ := Region.write?_eq hfit
    obtain ⟨s', hs', hw', hb'⟩ := Region.write?_eq hfit'
    exact Lockstep.modifyRegion' hs hs' ⟨⟨rfl, hw, hfit, hb⟩, ⟨rfl, hw', hfit', hb'⟩⟩
  · exact Lockstep.modifyRegion_none (if_neg hfit) (if_neg (by omega))

theorem writeArena_lockstep (b : Beside h k) (offset : Nat) {data data' : ByteArray}
    (hsize : data'.size = data.size) :
    Lockstep (writeArena offset data) (writeArena offset data') h k
      (fun _ _ h' k' => Written h h' (h.arenaStart + offset) data ∧
        Written k k' (h.arenaStart + offset) data') fun _ _ _ => False := by
  refine Lockstep.bind' (Lockstep.get' ?_)
  rw [b.arenaStart_eq]
  exact modifyRegion_lockstep b _ hsize

section

variable {start : Nat} {data data' : ByteArray} (wr : Written h h' start data)
include wr

theorem Written.grownByte_eq {i : Nat} (hi : ¬(start ≤ i ∧ i < start + data.size)) :
    h'.region.grownByte i = h.region.grownByte i :=
  wr.region.grownByte_eq (by rw [wr.bytes, if_neg hi])

theorem Written.beside (b : Beside h k) (wr' : Written k k' start data') : Beside h' k' := by
  refine ⟨?_, b.twin.rewritten wr.region wr'.region⟩
  rw [wr'.eq, wr.eq, b.eq]
  rfl

/-- The same bytes were written into both regions, which now have them in common. -/
theorem Written.carried (b : Beside h k) (wr' : Written k k' start data) :
    Carried h k h' k' ∧ ∀ i, start ≤ i → i < start + data.size → Agrees h' k' i := by
  have written := wr.beside b wr'
  have inside {i : Nat} (hi : start ≤ i ∧ i < start + data.size) : Agrees h' k' i := by
    have hfit := wr.fits
    refine agrees_of_byte_eq written (by rw [wr.region.size_eq]; omega) ?_
    rw [wr.bytes, wr'.bytes, if_pos hi, if_pos hi]
  refine ⟨⟨written, by rw [wr.eq]; rfl, fun i c => ?_⟩, fun i hlo hhi => inside ⟨hlo, hhi⟩⟩
  by_cases hi : start ≤ i ∧ i < start + data.size
  · exact inside hi
  · rw [Agrees, wr.grownByte_eq hi, wr'.grownByte_eq hi]
    exact c

end

/-- The same bytes are written into both regions. -/
theorem modifyRegion_carries (b : Beside h k) (start : Nat) (data : ByteArray) :
    Carries (modifyRegion fun r => r.write? start data) h k :=
  (modifyRegion_lockstep b start rfl).mono (fun _ _ _ _ ⟨wr, wr'⟩ => ⟨rfl, (wr.carried b wr').1⟩)
    fun _ _ _ hE => hE.elim

theorem writeArena_carries (b : Beside h k) (offset : Nat) (data : ByteArray) :
    Carries (writeArena offset data) h k := by
  refine Lockstep.bind' (Lockstep.get' ?_)
  rw [b.arenaStart_eq]
  exact modifyRegion_carries b _ data

theorem oblivious_firstFree (log2 : Nat) : Oblivious (firstFree log2) := by
  intro h region arenaStart
  show orTrap h.freeLists[log2]? _ = onHeap _ (orTrap h.freeLists[log2]? h)
  cases h.freeLists[log2]? <;> rfl

theorem oblivious_setFirstFree (log2 : Nat) (head : Option Nat) :
    Oblivious (setFirstFree log2 head) := by
  intro h region arenaStart
  rw [setFirstFree, bind_get, bind_get]
  dsimp only
  split <;> rfl

/-- A fragment that is put on a list has its links in common from then on. -/
theorem listFragment_lockstep (b : Beside h k) (log2 offset : Nat) :
    Lockstep (listFragment log2 offset) (listFragment log2 offset) h k
      (fun _ _ h' k' => Carried h k h' k' ∧ Shares h' k' offset) fun _ h' k' => Carried h k h' k' := by
  rw [listFragment_eq]
  refine Preserves.andThen ((oblivious_firstFree log2).carries b) ?_ fun _ _ _ c => c
  intro head h₁ k₁ c₁
  refine Lockstep.bind' ((writeArena_lockstep c₁.toBeside offset rfl).mono ?_ fun _ _ _ hE => hE.elim)
  intro _ _ h₂ k₂ ⟨wr₂, wr₂'⟩
  obtain ⟨c₂, hbytes₂⟩ := wr₂.carried c₁.toBeside wr₂'
  rw [Bytes.size_ofNumber] at hbytes₂
  refine Lockstep.bind' ((writeArena_lockstep c₂.toBeside (offset + 8) rfl).mono ?_
    fun _ _ _ hE => hE.elim)
  intro _ _ h₃ k₃ ⟨wr₃, wr₃'⟩
  obtain ⟨c₃, hbytes₃⟩ := wr₃.carried c₂.toBeside wr₃'
  rw [Bytes.size_ofNumber] at hbytes₃
  have c := (c₁.trans c₂).trans c₃
  -- one link was written after the other, and the second write carried the first over
  have s₃ : Shares h₃ k₃ offset := by
    intro i hi
    rw [c₃.start_eq]
    by_cases hlow : i < 8
    · refine c₃.agrees _ ?_
      rw [c₂.start_eq]
      exact hbytes₂ _ (by omega) (by omega)
    · exact hbytes₃ _ (by omega) (by omega)
  have rest : Carries (head.elim (pure ()) (linkBack · (some offset)) >>= fun _ =>
      setFirstFree log2 (some offset)) h₃ k₃ := by
    apply Carries.bind
    · cases head with
      | none => exact Preserves.pure (.refl c₃.toBeside) ()
      | some next => exact writeArena_carries c₃.toBeside _ _
    · exact fun _ _ _ c₄ => (oblivious_setFirstFree log2 _).carries c₄.toBeside
  refine rest.mono ?_ fun _ _ _ c₄ => c.trans c₄
  intro _ _ h₄ k₄ ⟨_, c₄⟩
  exact ⟨c.trans c₄, c₄.shares s₃⟩

/-- A fragment whose links both heaps share is taken off its list. -/
theorem unlistFragment_carries (b : Beside h k) {offset : Nat} (s : Shares h k offset) :
    Carries (unlistFragment log2 offset) h k := by
  rw [unlistFragment_eq]
  apply Lockstep.get_bind
  rw [s.linksAt?_eq b]
  apply Preserves.orTrap_bind
  intro links _
  refine Carries.bind ?_ fun _ _ _ c => ?_
  · cases links.2 with
    | none => exact (oblivious_setFirstFree log2 _).carries b
    | some p => exact writeArena_carries b _ _
  · cases links.1 with
    | none => exact Preserves.pure (.refl c.toBeside) ()
    | some n => exact writeArena_carries c.toBeside _ _

/-! ## All fragments of a block -/

/-- Fragments `1` to `count` of a block have their links in common once they are listed. -/
theorem listFragments_lockstep (b : Beside h k) (log2 base count : Nat) :
    Lockstep (listFragments log2 base count) (listFragments log2 base count) h k
      (fun _ _ h' k' => Carried h k h' k' ∧
        ∀ i, 1 ≤ i → i ≤ count → Shares h' k' (nthFragment log2 base i))
      fun _ h' k' => Carried h k h' k' := by
  induction count generalizing h k with
  | zero => exact Lockstep.pure' ⟨Carried.refl b, fun i h1 h0 => by omega⟩
  | succ count ih =>
    refine Lockstep.bind' ((listFragment_lockstep b log2 _).mono ?_ fun _ _ _ c => c)
    intro _ _ h₁ k₁ ⟨c₁, s₁⟩
    refine (ih c₁.toBeside).mono ?_ fun _ _ _ c => c₁.trans c
    intro _ _ h₂ k₂ ⟨c₂, s₂⟩
    refine ⟨c₁.trans c₂, fun i h1 hi => ?_⟩
    by_cases hlast : i = count + 1
    · rw [hlast]
      exact c₂.shares s₁
    · exact s₂ i h1 (by omega)

/-- Fragments in a row are taken off their list if both heaps share their links. -/
theorem unlistFragments_carries (b : Beside h k) {skip fragment count : Nat}
    (s : ∀ i, i < count → nthFragment log2 fragment i ≠ skip →
      Shares h k (nthFragment log2 fragment i)) :
    Carries (unlistFragments log2 skip fragment count) h k := by
  induction count generalizing h k fragment with
  | zero => exact Preserves.pure (.refl b) ()
  | succ count ih =>
    have rest {h₁ k₁ : Heap} (c : Carried h k h₁ k₁) :
        Carries (unlistFragments log2 skip (fragment + fragmentSize log2) count) h₁ k₁ := by
      refine ih c.toBeside fun i hi hne => ?_
      rw [← nthFragment_succ] at hne ⊢
      exact c.shares (s (i + 1) (by omega) hne)
    refine Preserves.ite (fun _ => rest (Carried.refl b)) fun hne => ?_
    have hfirst := s 0 (by omega)
    rw [nthFragment_zero] at hfirst
    exact Carries.bind (unlistFragment_carries b (hfirst hne)) fun _ _ _ c => rest c

/-! ## Handing out a fragment -/

theorem oblivious_markFragment (block index : Nat) (busy : Bool) :
    Oblivious (markFragment block index busy) := by
  intro h region arenaStart
  rw [markFragment, bind_get, bind_get]
  dsimp only
  cases BusyMaps.set? h.busy block index busy <;> rfl

theorem reuseFragment_carries (b : Beside h k) {offset : Nat} (s : Shares h k offset) :
    Carries (reuseFragment log2 offset) h k := by
  unfold reuseFragment
  refine Preserves.get_bind b (fun _ => rfl) ?_
  dsimp only
  split
  · refine Preserves.ite (fun _ => ?_) fun _ => Preserves.refuse (.refl b) _
    apply Preserves.orTrap_bind
    intro index _
    apply Carries.bind ((oblivious_markFragment _ _ _).carries b)
    intro was h₁ k₁ c₁
    refine Preserves.ite (fun _ => ?_) fun _ => Preserves.refuse (.refl c₁.toBeside) _
    apply Carries.bind (unlistFragment_carries c₁.toBeside (c₁.shares s))
    intro _ h₂ k₂ c₂
    apply Carries.bind ((oblivious_onTable _).carries c₂.toBeside)
    intro _ h₃ k₃ c₃
    exact Preserves.pure (.refl c₃.toBeside) offset
  · exact Preserves.refuse (.refl b) _

/-- The fragments of a block that was cut have their links in common, all but the first. -/
theorem cutBlock_lockstep (w : h.WellFormed) (b : Beside h k) (log2 : Nat) :
    Lockstep (cutBlock log2) (cutBlock log2) h k
      (fun handle handle' h' k' => handle = handle' ∧ Carried h k h' k' ∧
        ∃ block, handle = h.blockStart block ∧ ∀ i, 1 ≤ i → i < h.fragmentsPerBlock log2 →
          Shares h' k' (nthFragment log2 handle i))
      fun _ h' k' => Carried h k h' k' := by
  refine (claimBlocks_carries b 1).andThen_ends (claimBlocks_ends w Nat.one_pos) ?_ fun _ _ _ c => c
  intro block h₁ k₁ ⟨claimed, _⟩ c₁
  have hlog := blockLog2_of_frame claimed.2.2.frame_eq
  have hcount : h₁.fragmentsPerBlock log2 = h.fragmentsPerBlock log2 := by
    rw [fragmentsPerBlock, fragmentsPerBlock, hlog]
  have hstart := blockStart_of_frame claimed.2.2.frame_eq block
  obtain ⟨r₁, rfl⟩ : ∃ r, k₁ = h₁.on r := ⟨_, c₁.eq⟩
  apply Lockstep.get_bind
  apply Lockstep.orTrap_bind
  intro count hcut
  rw [fragmentsIn?_eq_some hcut, ← fragmentsPerBlock]
  refine Preserves.andThen ((oblivious_onTable _).carries c₁.toBeside) ?_ fun _ _ _ c => c₁.trans c
  intro _ h₂ k₂ c₂
  apply Lockstep.orTrap_bind
  intro map _
  have hinsert : Oblivious (modify fun h => { h with busy := h.busy.insert block map } : HeapM PUnit) :=
    oblivious_modify fun _ _ _ => rfl
  refine Preserves.andThen (hinsert.carries c₂.toBeside) ?_ fun _ _ _ c => (c₁.trans c₂).trans c
  intro _ h₃ k₃ c₃
  have c₃ := (c₁.trans c₂).trans c₃
  refine Lockstep.bind' (Lockstep.discard' (((oblivious_markFragment _ _ _).carries c₃.toBeside).mono ?_
    fun _ _ _ c => c₃.trans c))
  rintro - - h₄ k₄ ⟨-, c₄⟩
  have c₄ := c₃.trans c₄
  -- only now the links of the new fragments are the same in both heaps
  refine Lockstep.bind' ((listFragments_lockstep c₄.toBeside log2 _ _).mono ?_
    fun _ _ _ c => c₄.trans c)
  rintro - - h₅ k₅ ⟨c₅, s₅⟩
  exact Lockstep.pure' ⟨rfl, c₄.trans c₅, block, hstart, fun i h1 hi => s₅ i h1 (by omega)⟩

/-! ## Taking a fragment back -/

/-- A fragment that is taken back has its links in common if it is listed. The others of its block
are taken off their list if the block is given back, so the heaps have to share their links. -/
theorem freeSmall_lockstep (b : Beside h k) {block offset nfree : Nat}
    (s : h.isLiveFragment block offset log2 = true → offset % fragmentSize log2 = 0 →
      h.fragmentsPerBlock log2 ≤ nfree + 1 → ∀ i, i < h.fragmentsPerBlock log2 →
        nthFragment log2 (h.blockStart block) i ≠ offset →
        Shares h k (nthFragment log2 (h.blockStart block) i)) :
    Lockstep (freeSmall block offset log2 nfree) (freeSmall block offset log2 nfree) h k
      (fun _ _ h' k' => Carried h k h' k' ∧
        (nfree + 1 < h.fragmentsPerBlock log2 → Shares h' k' offset))
      fun _ h' k' => Carried h k h' k' := by
  have stays := Carried.refl b
  obtain ⟨r, rfl⟩ : ∃ r, k = h.on r := ⟨_, b.eq⟩
  apply Lockstep.get_bind
  apply Lockstep.orTrap_bind
  intro size hsize
  rw [Size.shiftLeft?_one_eq_some hsize, ← fragmentSize]
  apply Lockstep.orTrap_bind
  intro live hknown
  rw [isLiveFragment?_eq_some hknown]
  apply Lockstep.ite'
  · exact fun _ => Lockstep.refuse' stays
  intro hlive
  apply Lockstep.orTrap_bind
  intro count hcut
  rw [fragmentsIn?_eq_some hcut, ← fragmentsPerBlock]
  apply Lockstep.orTrap_bind
  intro free hfree
  rw [(Size.add?_eq_some_iff.1 hfree).2]
  refine Lockstep.ite' (fun hsome => ?_) fun hlast => ?_
  · apply Lockstep.orTrap_bind
    intro index _
    refine Lockstep.bind' (Lockstep.discard' (((oblivious_markFragment _ _ _).carries b).mono ?_
      fun _ _ _ c => c))
    rintro _ _ h₁ k₁ ⟨-, c₁⟩
    refine Lockstep.bind' ((listFragment_lockstep c₁.toBeside log2 offset).mono ?_
      fun _ _ _ c => c₁.trans c)
    rintro _ _ h₂ k₂ ⟨c₂, s₂⟩
    refine ((oblivious_onTable _).carries c₂.toBeside).mono ?_ fun _ _ _ c => (c₁.trans c₂).trans c
    rintro _ _ h₃ k₃ ⟨-, c₃⟩
    exact ⟨(c₁.trans c₂).trans c₃, fun _ => c₃.shares s₂⟩
  · obtain ⟨hal, hlive⟩ := not_or.1 hlive
    have shared := s (by simpa using hlive) (Decidable.of_not_not hal) (Nat.le_of_not_lt hlast)
    refine Preserves.andThen (unlistFragments_carries b shared) ?_ fun _ _ _ c => c
    intro _ h₁ k₁ c₁
    have herase : Oblivious (modify fun h => { h with busy := h.busy.erase block } : HeapM PUnit) :=
      oblivious_modify fun _ _ _ => rfl
    refine Preserves.andThen (herase.carries c₁.toBeside) ?_ fun _ _ _ c => c₁.trans c
    intro _ h₂ k₂ c₂
    refine ((oblivious_onTable _).carries c₂.toBeside).mono ?_ fun _ _ _ c => (c₁.trans c₂).trans c
    rintro _ _ h₃ k₃ ⟨-, c₃⟩
    exact ⟨(c₁.trans c₂).trans c₃, fun hsome => absurd hsome hlast⟩

end RegionHeap.Heap
