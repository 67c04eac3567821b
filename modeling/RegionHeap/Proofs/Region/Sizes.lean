import RegionHeap.Proofs.Region.Words

/-!
Which sizes a region grants. It grants those up to the capacity of its backing, but for the changes
that it is told to refuse.
-/
namespace RegionHeap

/-- No change to a smaller size is among the requests to refuse. -/
def Refusals.SpareShrinking (refusals : Option Refusals) : Prop :=
  ∀ size wanted, wanted < size → refusals.any (·.resize size wanted) = false

/-- The region grants every smaller size. -/
def Region.Shrinks (r : Region) : Prop := ∀ n, n < r.size → ∃ r', r.resize n = .ok r'

namespace Region

variable {r r' : Region}

/-- Now and at any other size, every smaller size is granted. -/
structure Yields (r : Region) : Prop where
  within : r.size ≤ r.capacity
  spared : Refusals.SpareShrinking r.refusals

/-- At this size and at any smaller one, every smaller size is granted. -/
def Shrinkable (r : Region) : Prop := ∀ size wanted, size ≤ r.size → wanted < size →
  wanted ≤ r.capacity ∧ r.refusals.any (·.resize size wanted) = false

theorem exists_resize_iff {n : Nat} :
    (∃ r', r.resize n = .ok r') ↔ r.refusals.any (·.resize r.size n) = false ∧ n ≤ r.capacity := by
  constructor
  · rintro ⟨r', h⟩
    refine ⟨?_, le_capacity_of_resize h⟩
    rw [resize] at h
    split at h
    · cases h
    · rename_i hnot
      exact Bool.eq_false_iff.2 hnot
  · rintro ⟨hspared, hle⟩
    rw [resize, hspared]
    cases hb : r.backing.resize n with
    | error e => exact absurd hle (Nat.not_le_of_lt (Backing.resize_eq_error_iff.1 hb).1)
    | ok b => exact ⟨_, rfl⟩

theorem Shrinkable.shrinks (l : r.Shrinkable) : r.Shrinks := fun n hn =>
  exists_resize_iff.2 ⟨(l r.size n (Nat.le_refl _) hn).2, (l r.size n (Nat.le_refl _) hn).1⟩

theorem Shrinkable.of_size_le (l : r.Shrinkable) (hs : r'.size ≤ r.size) (hc : r'.capacity = r.capacity)
    (hr : r'.refusals = r.refusals) : r'.Shrinkable := by
  intro size wanted hle hlt
  rw [hc, hr]
  exact l size wanted (Nat.le_trans hle hs) hlt

theorem Yields.shrinkable (y : r.Yields) : r.Shrinkable := fun size wanted hle hlt =>
  ⟨by have := y.within; omega, y.spared size wanted hlt⟩

theorem Yields.shrinks (y : r.Yields) : r.Shrinks := y.shrinkable.shrinks

/-- A region that refuses nothing of its own grants every size up to its capacity. -/
theorem shrinks_of_capacity (href : r.refusals = none) (hcap : r.size ≤ r.capacity) : r.Shrinks :=
  Yields.shrinks ⟨hcap, fun _ _ _ => by rw [href]; rfl⟩

theorem Shrinks.congr (s : r.Shrinks) (hs : r'.size = r.size) (hc : r'.capacity = r.capacity)
    (hr : r'.refusals = r.refusals) : r'.Shrinks := by
  intro n hn
  rw [exists_resize_iff, hs, hc, hr]
  exact exists_resize_iff.1 (s n (by rwa [← hs]))

end Region

end RegionHeap
