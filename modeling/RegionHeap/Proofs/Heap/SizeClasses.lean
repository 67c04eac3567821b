import RegionHeap.Proofs.Heap.WellFormed

/-!
Size classes. How long an object is that is made for a number of bytes, said without the classes: the
least power of two that holds it, and no less than sixteen, up to half a block, and whole blocks above
(`MadeFor`). The class of a request gives just that length (`madeFor_sizeClass`).
-/
namespace RegionHeap.Heap

variable {h : Heap} {size length count log2 : Nat}

/-- The least power of two that is no less than a number. -/
structure LeastPower (n power : Nat) : Prop where
  isPower : ∃ k, power = 1 <<< k
  le : n ≤ power
  least : ∀ k, n ≤ 1 <<< k → power ≤ 1 <<< k

theorem LeastPower.unique {n a b : Nat} (ha : LeastPower n a) (hb : LeastPower n b) : a = b := by
  obtain ⟨i, rfl⟩ := ha.isPower
  obtain ⟨j, rfl⟩ := hb.isPower
  exact Nat.le_antisymm (ha.least j hb.le) (hb.least i ha.le)

/-- The blocks that a request needs where it gets new ones: a single one that is cut, if it is for no
more than half a block, or else as many as hold it. -/
def blocksFor (h : Heap) (size : Nat) : Nat :=
  if size ≤ h.blockSize / 2 then 1 else (size + (h.blockSize - 1)) / h.blockSize

/-- The length of an object that is made for a number of bytes. -/
def MadeFor (h : Heap) (size length : Nat) : Prop :=
  if size ≤ h.blockSize / 2 then LeastPower (max size 16) length
  else length = h.blocksFor size * h.blockSize

theorem MadeFor.unique {length' : Nat} (m : h.MadeFor size length) (m' : h.MadeFor size length') :
    length' = length := by
  unfold MadeFor at *
  split at m
  · rw [if_pos ‹_›] at m'
    exact m'.unique m
  · rw [if_neg ‹_›] at m'
    rw [m, m']

/-- Bytes of an object of a class. -/
def classLength (h : Heap) : SizeClass → Nat
  | .fragment log2 => fragmentSize log2
  | .blocks count => count * h.blockSize

/-- Blocks that a class needs where it gets new ones. -/
def SizeClass.blockCount : SizeClass → Nat
  | .fragment _ => 1
  | .blocks count => count

/-- A size class gives at least the bytes that were asked for. -/
theorem sizeClass_fits (w : h.WellFormed) (size : Nat) :
    match h.sizeClass size with
    | .fragment log2 =>
      minFragmentLog2 ≤ log2 ∧ log2 < h.blockLog2 ∧ size ≤ fragmentSize log2
    | .blocks count => 0 < count ∧ size ≤ count * h.blockSize := by
  have hmin := w.min_block
  have hpos := h.blockSize_pos
  simp only [Geometry.minBlockLog2] at hmin
  rw [sizeClass]
  by_cases hs : size ≤ h.blockSize / 2
  · rw [if_pos hs]
    have hhalf : h.blockSize / 2 = 1 <<< (h.blockLog2 - 1) := by
      rw [blockSize, Nat.one_shiftLeft, Nat.one_shiftLeft, show h.blockLog2 = h.blockLog2 - 1 + 1 by omega,
        Nat.pow_succ, Nat.mul_div_cancel _ (by decide), Nat.add_sub_cancel]
    rw [hhalf] at hs
    have hlog := Size.ceilLog2_le hs
    refine ⟨Nat.le_max_right _ _, ?_, ?_⟩
    · simp only [minFragmentLog2]
      omega
    · exact Nat.le_trans (Size.le_one_shiftLeft_ceilLog2 size) (one_shiftLeft_le (Nat.le_max_left _ _))
  · rw [if_neg hs]
    have hdiv := Nat.div_add_mod' size h.blockSize
    have hmod := Nat.mod_lt size hpos
    show 0 < _ ∧ _
    by_cases h0 : size % h.blockSize = 0
    · rw [if_pos h0, Nat.add_zero]
      refine ⟨?_, by omega⟩
      refine Nat.pos_of_ne_zero fun hz => ?_
      rw [hz, Nat.zero_mul] at hdiv
      omega
    · rw [if_neg h0]
      refine ⟨Nat.succ_pos _, ?_⟩
      rw [Nat.add_mul]
      omega

theorem le_classLength (w : h.WellFormed) (size : Nat) :
    size ≤ h.classLength (h.sizeClass size) := by
  have hfits := sizeClass_fits w size
  cases hc : h.sizeClass size with
  | fragment log2 =>
    rw [hc] at hfits
    exact hfits.2.2
  | blocks count =>
    rw [hc] at hfits
    exact hfits.2

/-- A run of blocks is as long as the request, up to the end of a block. -/
theorem sizeClass_blocks (hc : h.sizeClass size = .blocks count) :
    size ≤ count * h.blockSize ∧ count * h.blockSize < size + h.blockSize := by
  have hpos := h.blockSize_pos
  have hdiv := Nat.div_add_mod' size h.blockSize
  have hmod := Nat.mod_lt size hpos
  unfold sizeClass at hc
  split at hc
  · cases hc
  · cases hc
    by_cases h0 : size % h.blockSize = 0
    · rw [if_pos h0, Nat.add_zero]
      omega
    · rw [if_neg h0, Nat.add_mul, Nat.one_mul]
      omega

theorem exists_sizeClass_blocks (hle : h.blockSize ≤ size) :
    ∃ count, h.sizeClass size = .blocks count := by
  have := h.blockSize_pos
  exact ⟨_, if_neg (by omega)⟩

/-- Fragments are for no more than half a block. -/
theorem le_half_of_sizeClass (hc : h.sizeClass size = .fragment log2) : size ≤ h.blockSize / 2 := by
  unfold sizeClass at hc
  split at hc
  · assumption
  · cases hc

theorem half_lt_of_sizeClass (hc : h.sizeClass size = .blocks count) : ¬size ≤ h.blockSize / 2 := by
  unfold sizeClass at hc
  split at hc
  · cases hc
  · assumption

theorem blockCount_sizeClass (h : Heap) (size : Nat) :
    (h.sizeClass size).blockCount = h.blocksFor size := by
  cases hc : h.sizeClass size with
  | fragment log2 => exact (if_pos (le_half_of_sizeClass hc)).symm
  | blocks count =>
    obtain ⟨hlo, hhi⟩ := sizeClass_blocks hc
    rw [blocksFor, if_neg (half_lt_of_sizeClass hc), SizeClass.blockCount]
    refine (Nat.div_eq_of_lt_le ?_ ?_).symm
    · omega
    · rw [Nat.succ_mul]
      omega

theorem leastPower_fragmentSize (n : Nat) :
    LeastPower (max n 16) (fragmentSize (max (Size.ceilLog2 n) minFragmentLog2)) where
  isPower := ⟨_, rfl⟩
  le := by
    have hn := Size.le_one_shiftLeft_ceilLog2 n
    have hl : 1 <<< Size.ceilLog2 n ≤ fragmentSize (max (Size.ceilLog2 n) minFragmentLog2) :=
      one_shiftLeft_le (Nat.le_max_left _ _)
    have hr : 16 ≤ fragmentSize (max (Size.ceilLog2 n) minFragmentLog2) :=
      one_shiftLeft_le (Nat.le_max_right _ minFragmentLog2)
    omega
  least k hk := by
    refine one_shiftLeft_le (Nat.max_le.2 ⟨Size.ceilLog2_le (by omega), ?_⟩)
    refine Nat.le_of_not_lt fun hlt => ?_
    have hle : 1 <<< k ≤ 1 <<< 3 := one_shiftLeft_le (Nat.le_of_lt_succ hlt)
    omega

/-- The class of a request gives an object of the length that is made for it. -/
theorem madeFor_sizeClass (h : Heap) (size : Nat) :
    h.MadeFor size (h.classLength (h.sizeClass size)) := by
  cases hc : h.sizeClass size with
  | fragment log2 =>
    have hle := le_half_of_sizeClass hc
    rw [sizeClass, if_pos hle, SizeClass.fragment.injEq] at hc
    rw [MadeFor, if_pos hle, classLength, ← hc]
    exact leastPower_fragmentSize size
  | blocks count =>
    have hcount := blockCount_sizeClass h size
    rw [hc] at hcount
    rw [MadeFor, if_neg (half_lt_of_sizeClass hc), ← hcount]
    rfl

end RegionHeap.Heap
