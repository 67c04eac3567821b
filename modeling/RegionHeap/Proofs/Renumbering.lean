import RegionHeap.Proofs.Registry

/-!
Tables of names that are made from their slots. Whatever the slots are, the table that takes them in
from the last to the first lists just the empty ones as vacant (`mem_vacant_numbered`); its index is
right if no name stands in two of them (`tidy_numbered`), and otherwise there is no such table
(`ofSlots?_eq_some_iff`).
-/
namespace RegionHeap

theorem fromUTF8?_toUTF8 (name : String) : String.fromUTF8? name.toUTF8 = some name :=
  dif_pos name.isValidUTF8

theorem toUTF8_of_fromUTF8? {data : ByteArray} {name : String}
    (h : String.fromUTF8? data = some name) : name.toUTF8 = data := by
  unfold String.fromUTF8? at h
  split at h
  · cases h
    rfl
  · cases h

namespace NameTable

variable {t : NameTable}

/-- Adds slot `i` to the vacant slots or to the index, whatever is indexed already. -/
def numberSlot (entry : Option NamedObject × Nat) (t : NameTable) : NameTable :=
  match entry with
  | (none, i) => { t with vacant := i :: t.vacant }
  | (some object, i) => { t with index := t.index.insert object.name i }

/-- The table of these slots in which the lowest empty slot is the next to be used. -/
def numbered (capacity : Nat) (slots : Array (Option NamedObject)) : NameTable :=
  slots.toList.zipIdx.foldr numberSlot { slots, capacity }

section Numbering

variable (entries : List (Option NamedObject × Nat))

theorem slots_foldr_numberSlot (t : NameTable) :
    (entries.foldr numberSlot t).slots = t.slots ∧
      (entries.foldr numberSlot t).capacity = t.capacity := by
  induction entries with
  | nil => exact ⟨rfl, rfl⟩
  | cons entry rest ih =>
    obtain ⟨_ | o, i⟩ := entry
    · exact ih
    · exact ih

theorem vacant_foldr_numberSlot (t : NameTable) : (entries.foldr numberSlot t).vacant =
    (entries.filter fun entry => entry.1.isNone).map Prod.snd ++ t.vacant := by
  induction entries with
  | nil => rfl
  | cons entry rest ih =>
    obtain ⟨_ | o, i⟩ := entry
    · exact congrArg (i :: ·) ih
    · exact ih

theorem contains_foldr_numberSlot (t : NameTable) (name : String) :
    (entries.foldr numberSlot t).contains name = true ↔
      name ∈ entries.filterMap (fun entry => entry.1.map NamedObject.name) ∨
        t.contains name = true := by
  induction entries with
  | nil => simp
  | cons entry rest ih =>
    obtain ⟨_ | o, i⟩ := entry
    · exact ih
    · simp only [List.filterMap_cons, Option.map_some, List.mem_cons, or_assoc]
      rw [← ih, List.foldr_cons, numberSlot, contains, Std.ExtTreeMap.contains_insert,
        Bool.or_eq_true, beq_iff_eq, Std.compare_eq_iff_eq, eq_comm]
      rfl

theorem index_foldr_numberSlot {t : NameTable} {name : String} {i : Nat}
    (h : (entries.foldr numberSlot t).index[name]? = some i) :
    (∃ offset, (some ⟨name, offset⟩, i) ∈ entries) ∨ t.index[name]? = some i := by
  induction entries with
  | nil => exact .inr h
  | cons entry rest ih =>
    have earlier (h : (rest.foldr numberSlot t).index[name]? = some i) :
        (∃ offset, (some ⟨name, offset⟩, i) ∈ entry :: rest) ∨ t.index[name]? = some i :=
      (ih h).imp_left fun ⟨offset, hmem⟩ => ⟨offset, List.mem_cons_of_mem _ hmem⟩
    obtain ⟨_ | o, j⟩ := entry
    · exact earlier h
    · rw [List.foldr_cons, numberSlot, getElem?_index_insert] at h
      split at h
      · rename_i hn
        cases h
        exact .inl ⟨o.offset, by rw [← hn]; exact List.mem_cons_self⟩
      · exact earlier h

/-- Slots are taken in as long as no name comes a second time. -/
theorem foldrM_indexSlot?_eq_some_iff {t t' : NameTable} :
    entries.foldrM indexSlot? t = some t' ↔ t' = entries.foldr numberSlot t ∧
      (entries.filterMap fun entry => entry.1.map NamedObject.name).Nodup ∧
      ∀ name ∈ entries.filterMap fun entry => entry.1.map NamedObject.name,
        t.contains name = false := by
  induction entries generalizing t' with
  | nil =>
    simp only [List.foldrM_nil, List.filterMap_nil, List.not_mem_nil, List.nodup_nil, List.foldr_nil,
      false_imp_iff, implies_true, and_true]
    exact ⟨fun h => (Option.some.inj h).symm, fun h => congrArg some h.symm⟩
  | cons entry rest ih =>
    rw [List.foldrM_cons, Option.bind_eq_bind, Option.bind_eq_some_iff]
    simp only [ih, and_assoc, exists_eq_left, List.foldr_cons]
    obtain ⟨_ | o, i⟩ := entry
    · simp only [List.filterMap_cons, Option.map_none, indexSlot?, numberSlot, Option.some.injEq]
      constructor
      · rintro ⟨hnd, hnew, rfl⟩
        exact ⟨rfl, hnd, hnew⟩
      · rintro ⟨rfl, hnd, hnew⟩
        exact ⟨hnd, hnew, rfl⟩
    · simp only [List.filterMap_cons, Option.map_some, indexSlot?, numberSlot, List.nodup_cons,
        List.forall_mem_cons, Option.ite_none_left_eq_some, Option.some.injEq,
        contains_foldr_numberSlot, not_or, Bool.not_eq_true]
      constructor
      · rintro ⟨hnd, hnew, ⟨hmem, hc⟩, rfl⟩
        exact ⟨rfl, ⟨hmem, hnd⟩, hc, hnew⟩
      · rintro ⟨rfl, ⟨hmem, hnd⟩, hc, hnew⟩
        exact ⟨hnd, hnew, ⟨hmem, hc⟩, rfl⟩

end Numbering

section

variable {capacity : Nat} {slots : Array (Option NamedObject)}

theorem slots_numbered : (numbered capacity slots).slots = slots := (slots_foldr_numberSlot _ _).1

theorem capacity_numbered : (numbered capacity slots).capacity = capacity :=
  (slots_foldr_numberSlot _ _).2

theorem names_numbered : (numbered capacity slots).names =
    slots.toList.zipIdx.filterMap fun entry => entry.1.map NamedObject.name := by
  rw [names, slots_numbered]
  calc slots.toList.filterMap (fun slot => slot.map NamedObject.name)
      = (slots.toList.zipIdx.map Prod.fst).filterMap (fun slot => slot.map NamedObject.name) := by
        rw [List.zipIdx_map_fst]
    _ = _ := List.filterMap_map

/-- Just the empty slots are to be used again. -/
theorem mem_vacant_numbered {i : Nat} :
    i ∈ (numbered capacity slots).vacant ↔ slots[i]? = some none := by
  rw [numbered, vacant_foldr_numberSlot, List.append_nil, List.mem_map, ← Array.getElem?_toList]
  constructor
  · rintro ⟨⟨slot, j⟩, hmem, rfl⟩
    obtain ⟨hmem, hnone⟩ := List.mem_filter.1 hmem
    obtain rfl : slot = none := Option.isNone_iff_eq_none.1 hnone
    exact List.mem_zipIdx_iff_getElem?.1 hmem
  · intro hi
    exact ⟨(none, i), List.mem_filter.2 ⟨List.mem_zipIdx_iff_getElem?.2 hi, rfl⟩, rfl⟩

theorem nodup_vacant_numbered : (numbered capacity slots).vacant.Nodup := by
  rw [numbered, vacant_foldr_numberSlot, List.append_nil]
  refine (List.filter_sublist.map Prod.snd).nodup ?_
  rw [List.zipIdx_map_snd]
  exact List.nodup_range' ..

theorem length_vacant_numbered :
    (numbered capacity slots).vacant.length = slots.toList.countP Option.isNone := by
  rw [numbered, vacant_foldr_numberSlot, List.append_nil, List.length_map,
    ← List.countP_eq_length_filter]
  calc slots.toList.zipIdx.countP (fun entry => entry.1.isNone)
      = (slots.toList.zipIdx.map Prod.fst).countP Option.isNone := by
        rw [List.countP_map]
        rfl
    _ = slots.toList.countP Option.isNone := by rw [List.zipIdx_map_fst]

/-- Under distinct names the index leads to each of them. -/
theorem tidy_numbered (fits : slots.size ≤ capacity) (hnd : (numbered capacity slots).names.Nodup) :
    (numbered capacity slots).Tidy where
  vacant_nodup := nodup_vacant_numbered
  vacant_empty i hi := by rw [slots_numbered]; exact mem_vacant_numbered.1 hi
  slots_le := by rw [slots_numbered, capacity_numbered]; exact fits
  index_iff name i := by
    have leads {j : Nat} (h : (numbered capacity slots).index[name]? = some j) :
        ∃ offset, (numbered capacity slots).slots[j]? = some (some ⟨name, offset⟩) := by
      rcases index_foldr_numberSlot _ h with ⟨offset, hmem⟩ | hempty
      · rw [slots_numbered, ← Array.getElem?_toList]
        exact ⟨offset, List.mem_zipIdx_iff_getElem?.1 hmem⟩
      · simp at hempty
    refine ⟨leads, ?_⟩
    rintro ⟨offset, hi⟩
    have hname : name ∈ (numbered capacity slots).names := by
      rw [slots_numbered, ← Array.getElem?_toList] at hi
      rw [names, slots_numbered]
      exact List.mem_filterMap.2 ⟨_, List.mem_of_getElem? hi, rfl⟩
    rw [names_numbered] at hname
    have hindexed := (contains_foldr_numberSlot _ { slots, capacity } name).2 (.inl hname)
    rw [contains, Std.ExtTreeMap.contains_eq_isSome_getElem?, Option.isSome_iff_exists] at hindexed
    obtain ⟨j, hj⟩ := hindexed
    obtain ⟨offset', hj'⟩ := leads hj
    rw [nodup_names_iff.1 hnd i j _ _ hi hj' rfl]
    exact hj

/-- Numbering the slots of a table anew keeps it in order. -/
theorem sound_numbered (s : t.Sound) : (numbered t.capacity t.slots).Sound where
  toTidy := tidy_numbered s.slots_le (by rw [names, slots_numbered]; exact s.nodup)
  accepted := by
    rw [slots_numbered]
    exact s.accepted

/-- Numbering a second time changes nothing. -/
theorem numbered_numbered :
    numbered (numbered capacity slots).capacity (numbered capacity slots).slots =
      numbered capacity slots := by
  rw [capacity_numbered, slots_numbered]

/-- Slots make a table unless a name stands in two of them. -/
theorem ofSlots?_eq_some_iff : ofSlots? capacity slots = some t ↔
    t = numbered capacity slots ∧ (numbered capacity slots).names.Nodup := by
  rw [ofSlots?, foldrM_indexSlot?_eq_some_iff, ← names_numbered, numbered]
  refine and_congr_right fun _ => and_iff_left fun name _ => ?_
  rw [contains_eq_false_iff]
  simp

end

end NameTable

end RegionHeap
