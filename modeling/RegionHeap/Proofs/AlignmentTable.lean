import RegionHeap.AlignmentRecords
import RegionHeap.Size

/-!
Alignment records. Their table is bounded, and stays so: a record is refused when there are as many as
there may be.
-/
namespace RegionHeap

/-- The records are no more than there may be, and hold offsets. -/
structure AlignmentRecords.Sound (r : AlignmentRecords) : Prop where
  size_le : r.size ≤ r.capacity
  offsets : ∀ p ∈ r.toList, p.1 < Size.limit ∧ p.2 < Size.limit

/-- A map that is made from pairs in the order of their keys holds these pairs. -/
theorem OrderedMap.find?_ofList {α : Type} {pairs : List (Nat × α)} (h : KeysIncrease pairs) (k : Nat) :
    (OrderedMap.ofList pairs).find? k = lookupPair k pairs := by
  have fold (l : List (Nat × α)) (hl : KeysIncrease l) (m : OrderedMap α) :
      (l.foldl (fun m (p : Nat × α) => m.insert p.1 p.2) m).find? k =
        (lookupPair k l).or (m.find? k) := by
    induction l generalizing m with
    | nil => rfl
    | cons p rest ih =>
      obtain ⟨hp, hrest⟩ := List.pairwise_cons.1 hl
      rw [List.foldl_cons, ih hrest, OrderedMap.find?_insert, lookupPair]
      by_cases hk : p.1 = k
      · rw [if_pos hk, if_pos hk, lookupPair_eq_none fun q hq => by have := hp q hq; omega]
        rfl
      · rw [if_neg hk, if_neg hk]
  rw [OrderedMap.ofList]
  refine (fold pairs h OrderedMap.empty).trans ?_
  rw [OrderedMap.find?_empty, Option.or_none]

namespace AlignmentRecords

variable {r r' : AlignmentRecords}

theorem empty_sound (capacity : Nat) : (empty capacity).Sound :=
  ⟨Nat.zero_le _, fun p hp => by cases hp⟩

theorem Sound.erase (s : r.Sound) (handle : Nat) : (r.erase handle).Sound := by
  refine ⟨?_, fun p hp => s.offsets p (List.mem_filter.1 hp).1⟩
  have h₁ := s.size_le
  have h₂ := List.length_filter_le (fun p => p.1 != handle) r.starts.pairs
  exact Nat.le_trans h₂ h₁

theorem erase_of_none {handle : Nat} (hn : r.start? handle = none) : r.erase handle = r := by
  rw [erase, show r.starts.erase handle = r.starts from OrderedMap.ext_find? fun k => ?_]
  rw [OrderedMap.find?_erase]
  split
  · rename_i hk
    rw [← hk]
    exact hn.symm
  · rfl

theorem start?_erase (r : AlignmentRecords) (handle k : Nat) :
    (r.erase handle).start? k = if handle = k then none else r.start? k :=
  OrderedMap.find?_erase _ _ _

theorem length_insertPair_le {α : Type} (key : Nat) (value : α) (pairs : List (Nat × α)) :
    (insertPair key value pairs).length ≤ pairs.length + 1 := by
  induction pairs with
  | nil => exact Nat.le_refl _
  | cons p rest ih =>
    obtain ⟨k, v⟩ := p
    rw [insertPair]
    split
    · exact Nat.le_refl _
    · split
      · exact Nat.le_succ _
      · exact Nat.succ_le_succ ih

/-- A record is made while there is room for one more. -/
theorem insert_eq (s : r.Sound) (hf : r.isFull = false) {handle start : Nat}
    (hh : handle < Size.limit) (hs : start < Size.limit) :
    ∃ r', r.insert handle start = .ok r' ∧ r'.Sound ∧ r'.capacity = r.capacity ∧
      ∀ k, r'.start? k = if handle = k then some start else r.start? k := by
  have hlt : r.size < r.capacity := by simpa [isFull] using hf
  refine ⟨{ r with starts := r.starts.insert handle start }, ?_, ⟨?_, fun p hp => ?_⟩, rfl,
    fun k => OrderedMap.find?_insert _ _ _ _⟩
  · rw [insert, hf]
    rfl
  · exact Nat.le_trans (length_insertPair_le handle start r.starts.pairs) hlt
  · rcases mem_insertPair hp with rfl | hp
    · exact ⟨hh, hs⟩
    · exact s.offsets p hp

end AlignmentRecords

end RegionHeap
