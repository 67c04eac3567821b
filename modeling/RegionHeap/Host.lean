import RegionHeap.Size

/-!
The machine that heaps are on. It decides how long the pages of memory are, and whether it has the
memory or the addresses that a region asks for; nothing else about it matters to a heap.
-/
namespace RegionHeap

structure Host where
  /-- Bytes of one page of memory. -/
  page : Nat
  /-- Whether that many bytes of private memory are given. -/
  givesMemory : Nat → Bool
  /-- Whether a range of that many addresses is given for a mapping. -/
  givesRange : Nat → Bool
  /-- A page is as long as a power of two, -/
  page_isPowerOfTwo : Size.isPowerOfTwo page = true
  /-- and its length is a size. -/
  page_lt : page < Size.limit

namespace Host

variable (host : Host)

theorem page_pos : 0 < host.page := Size.pos_of_isPowerOfTwo host.page_isPowerOfTwo

/-- The length of a page has one binary digit. -/
theorem exists_log2 : ∃ k, host.page = 1 <<< k ∧ k < 64 := by
  obtain ⟨k, hk⟩ := Size.isPowerOfTwo_iff.1 host.page_isPowerOfTwo
  refine ⟨k, hk, ?_⟩
  have hlt := host.page_lt
  rw [hk, Size.limit, Nat.one_shiftLeft, Nat.one_shiftLeft] at hlt
  exact (Nat.pow_lt_pow_iff_right (by decide)).1 hlt

/-- A machine with pages of 4096 bytes that refuses nothing. -/
def ample : Host where
  page := 4096
  givesMemory _ := true
  givesRange _ := true
  page_isPowerOfTwo := by decide
  page_lt := by decide

end Host

end RegionHeap
