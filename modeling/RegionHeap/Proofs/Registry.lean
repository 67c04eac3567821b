import RegionHeap.Names
import RegionHeap.Proofs.Sequencing
import RegionHeap.Size

/-!
Names. A table of them is bounded and stays so: a name is registered once, under a name that can be
saved. The index leads from the names to their slots and nowhere else (`NameTable.Tidy`), so that no
slot is missed and no name is found in an empty one: the one report of a damaged index is never made.
-/
namespace RegionHeap

/-- What a name stands for. -/
def NameTable.find? (t : NameTable) (name : String) : Option Nat :=
  (t.index[name]?.bind fun slot => t.slots[slot]?.join).map NamedObject.offset

/-- The slots, the index and the slots to be used again agree. Those to be used again are empty, and
none is to be used twice; the index leads from the name of every object to its slot, and from no other
name anywhere. -/
structure NameTable.Tidy (t : NameTable) : Prop where
  vacant_nodup : t.vacant.Nodup
  vacant_empty : ∀ i ∈ t.vacant, t.slots[i]? = some none
  slots_le : t.slots.size ≤ t.capacity
  index_iff : ∀ (name : String) (i : Nat),
    t.index[name]? = some i ↔ ∃ offset, t.slots[i]? = some (some ⟨name, offset⟩)

/-- Besides, each name can be registered and stands for an offset. -/
structure NameTable.Sound (t : NameTable) : Prop extends t.Tidy where
  accepted : ∀ (i : Nat) (o : NamedObject), t.slots[i]? = some (some o) →
    acceptName o.name = .ok () ∧ o.offset < Size.limit

namespace NameTable

variable {t t' : NameTable} {name : String} {offset slot : Nat}

/-! ## What each operation does -/

theorem claimSlot_eq (t : NameTable) : claimSlot t =
    match t.vacant with
    | slot :: rest => .ok slot { t with vacant := rest }
    | [] =>
      if t.slots.size < t.capacity then .ok t.slots.size { t with slots := t.slots.push none }
      else .error (.refused (.namesFull t.capacity)) t := by
  rw [claimSlot, bind_get]
  cases t.vacant with
  | cons slot rest => rfl
  | nil =>
    simp only
    split <;> rfl

theorem replaceSlot_eq (t : NameTable) (slot : Nat) (object : Option NamedObject) :
    replaceSlot slot object t =
      match t.slots[slot]? with
      | some was => .ok was { t with slots := t.slots.setIfInBounds slot object }
      | none => .error .trap t := by
  rw [replaceSlot, bind_get]
  cases t.slots[slot]? <;> rfl

theorem register_eq (name : String) (offset : Nat) (t : NameTable) : register name offset t =
    match acceptName name, t.contains name, claimSlot t with
    | .error e, _, _ => .error (.refused e) t
    | .ok (), true, _ => .error (.refused (.nameExists name)) t
    | .ok (), false, .error e t => .error e t
    | .ok (), false, .ok slot t =>
      match t.slots[slot]? with
      | none => .error .trap t
      | some _ => .ok () { t with
          slots := t.slots.setIfInBounds slot (some ⟨name, offset⟩)
          index := t.index.insert name slot } := by
  rw [register]
  cases acceptName name with
  | error e => rfl
  | ok u =>
    refine (bind_get _ t).trans ?_
    cases t.contains name with
    | true => rfl
    | false =>
      rw [if_neg Bool.false_ne_true]
      cases claimed : claimSlot t with
      | error e t => exact bind_of_error claimed
      | ok slot t =>
        rw [bind_of_ok claimed]
        have replaced := replaceSlot_eq t slot (some ⟨name, offset⟩)
        dsimp only
        split
        · rename_i outside
          rw [outside] at replaced
          exact bind_of_error (discard_of_error replaced)
        · rename_i was inside
          rw [inside] at replaced
          exact bind_of_ok (discard_of_ok replaced)

theorem lookup_eq (name : String) (t : NameTable) : lookup name t =
    match t.index[name]? with
    | none => .error (.refused (.notFound name)) t
    | some slot =>
      match t.slots[slot]? with
      | none => .error .trap t
      | some none => .error (.refused (.notFound name)) t
      | some (some object) => .ok object.offset t := by
  rw [lookup, bind_get]
  cases t.index[name]? with
  | none => rfl
  | some slot => simp only; rcases t.slots[slot]? with _ | _ | object <;> rfl

theorem unregister_eq (name : String) (t : NameTable) : unregister name t =
    match t.index[name]? with
    | none => .error (.refused (.notFound name)) t
    | some slot =>
      match t.slots[slot]? with
      | none => .error .trap { t with index := t.index.erase name }
      | some none => .error (.refused (.corrupt .emptyNameSlot))
          { t with index := t.index.erase name, slots := t.slots.setIfInBounds slot none }
      | some (some object) => .ok object.offset { t with
          index := t.index.erase name
          slots := t.slots.setIfInBounds slot none
          vacant := slot :: t.vacant } := by
  rw [unregister, bind_get]
  cases t.index[name]? with
  | none => rfl
  | some slot =>
    refine (bind_set _ _ t).trans ?_
    have replaced := replaceSlot_eq { t with index := t.index.erase name } slot none
    dsimp only at replaced ⊢
    split
    · rename_i outside
      rw [outside] at replaced
      exact bind_of_error replaced
    all_goals
      rename_i inside
      rw [inside] at replaced
      exact bind_of_ok replaced

theorem acceptName_eq_ok_iff {name : String} :
    acceptName name = .ok () ↔ 0 < name.toUTF8.size ∧ name.toUTF8.size ≤ longestName := by
  have hsize : name.utf8ByteSize = name.toUTF8.size := rfl
  rw [acceptName, String.isEmpty_eq_utf8ByteSize_beq_zero, hsize]
  split
  · rename_i h0
    have := beq_iff_eq.1 h0
    simp only [reduceCtorEq, false_iff]
    omega
  · rename_i h0
    have : name.toUTF8.size ≠ 0 := fun h => h0 (beq_iff_eq.2 h)
    split
    · simp only [reduceCtorEq, false_iff]
      omega
    · simp only [true_iff]
      omega

/-! ## Slots and index -/

theorem getElem?_index_insert (index : Std.ExtTreeMap String Nat) (name : String) (slot : Nat)
    (other : String) :
    (index.insert name slot)[other]? = if name = other then some slot else index[other]? := by
  rw [Std.ExtTreeMap.getElem?_insert]
  simp only [Std.compare_eq_iff_eq]

theorem getElem?_index_erase (index : Std.ExtTreeMap String Nat) (name other : String) :
    (index.erase name)[other]? = if name = other then none else index[other]? := by
  rw [Std.ExtTreeMap.getElem?_erase]
  simp only [Std.compare_eq_iff_eq]

theorem empty_sound (capacity : Nat) : (empty capacity).Sound where
  vacant_nodup := List.nodup_nil
  vacant_empty i hi := by cases hi
  slots_le := Nat.zero_le _
  index_iff name i := by
    rw [empty, Std.ExtTreeMap.getElem?_empty]
    simp
  accepted i o ho := by simp [empty] at ho

/-- No name stands in two slots. -/
theorem Tidy.distinct (s : t.Tidy) (i j : Nat) (o o' : NamedObject) (ho : t.slots[i]? = some (some o))
    (ho' : t.slots[j]? = some (some o')) (hn : o.name = o'.name) : i = j := by
  have hi := (s.index_iff o.name i).2 ⟨o.offset, ho⟩
  have hj := (s.index_iff o.name j).2 ⟨o'.offset, by rw [hn]; exact ho'⟩
  rw [hi] at hj
  exact Option.some.inj hj

/-- A name stands for what its slot says. -/
theorem Tidy.find?_eq_some_iff (s : t.Tidy) :
    t.find? name = some offset ↔ ∃ i : Nat, t.slots[i]? = some (some ⟨name, offset⟩) := by
  rw [find?, Option.map_eq_some_iff]
  constructor
  · rintro ⟨o, ho, rfl⟩
    obtain ⟨i, hi, hslot⟩ := Option.bind_eq_some_iff.1 ho
    obtain ⟨offset, hobject⟩ := (s.index_iff name i).1 hi
    rw [hobject] at hslot
    cases hslot
    exact ⟨i, hobject⟩
  · rintro ⟨i, hi⟩
    exact ⟨_, Option.bind_eq_some_iff.2 ⟨i, (s.index_iff name i).2 ⟨offset, hi⟩, by rw [hi]; rfl⟩, rfl⟩

/-- The index leads to an object. -/
theorem Tidy.index_eq_none_iff (s : t.Tidy) : t.index[name]? = none ↔ t.find? name = none := by
  constructor
  · intro h
    rw [find?, h]
    rfl
  · intro h
    refine Option.eq_none_iff_forall_ne_some.2 fun i hi => ?_
    obtain ⟨offset, hslot⟩ := (s.index_iff name i).1 hi
    rw [s.find?_eq_some_iff.2 ⟨i, hslot⟩] at h
    cases h

theorem contains_eq_false_iff : t.contains name = false ↔ t.index[name]? = none := by
  rw [contains, Std.ExtTreeMap.contains_eq_isSome_getElem?]
  cases t.index[name]? <;> simp

theorem Tidy.ne_of_contains (s : t.Tidy) (hc : t.contains name = false) {i : Nat} {o : NamedObject}
    (ho : t.slots[i]? = some (some o)) : o.name ≠ name := by
  rintro rfl
  rw [contains_eq_false_iff, s.index_eq_none_iff] at hc
  rw [s.find?_eq_some_iff.2 ⟨i, ho⟩] at hc
  cases hc

/-- As many names are indexed as stand in the slots. -/
theorem Tidy.size_eq (s : t.Tidy) (hnd : t.names.Nodup) : t.size = t.names.length := by
  have hperm : t.index.keys.Perm t.names := by
    refine (List.perm_ext_iff_of_nodup Std.ExtTreeMap.nodup_keys hnd).2 fun name => ?_
    rw [Std.ExtTreeMap.mem_keys, Std.ExtTreeMap.mem_iff_isSome_getElem?, Option.isSome_iff_exists,
      names, List.mem_filterMap]
    constructor
    · rintro ⟨i, hi⟩
      obtain ⟨offset, hslot⟩ := (s.index_iff name i).1 hi
      exact ⟨_, List.mem_of_getElem? (by rw [Array.getElem?_toList]; exact hslot), rfl⟩
    · rintro ⟨slot, hmem, hslot⟩
      obtain ⟨o, rfl, rfl⟩ := Option.map_eq_some_iff.1 hslot
      obtain ⟨i, hi⟩ := List.mem_iff_getElem?.1 hmem
      rw [Array.getElem?_toList] at hi
      exact ⟨i, (s.index_iff _ i).2 ⟨_, hi⟩⟩
  rw [size, ← Std.ExtTreeMap.length_keys, hperm.length_eq]

/-! ## Registering -/

/-- A claimed slot is empty and will not be claimed again, and no name changes. -/
theorem claimSlot_ok (h : claimSlot t = .ok slot t') (s : t.Tidy) :
    t'.capacity = t.capacity ∧ t'.index = t.index ∧ t'.slots.size ≤ t.capacity ∧
      (∀ (i : Nat) (o : NamedObject), t'.slots[i]? = some (some o) ↔ t.slots[i]? = some (some o)) ∧
      t'.slots[slot]? = some none ∧ t'.vacant.Nodup ∧
      ∀ i ∈ t'.vacant, i ≠ slot ∧ t'.slots[i]? = some none := by
  rw [claimSlot_eq] at h
  split at h
  · rename_i first rest hvac
    cases h
    have hempty := s.vacant_empty
    have hnodup := s.vacant_nodup
    rw [hvac] at hempty hnodup
    obtain ⟨hnew, hrest⟩ := List.nodup_cons.1 hnodup
    refine ⟨rfl, rfl, s.slots_le, fun _ _ => Iff.rfl, hempty slot (by simp), hrest, ?_⟩
    intro i hi
    exact ⟨fun he => hnew (he ▸ hi), hempty i (List.mem_cons_of_mem _ hi)⟩
  · rename_i hvac
    split at h
    · cases h
      refine ⟨rfl, rfl, by rw [Array.size_push]; omega, fun i o => ?_, by simp, by simp [hvac], ?_⟩
      · rw [Array.getElem?_push]
        split
        · rename_i hi
          rw [hi, Array.getElem?_eq_none (Nat.le_refl _)]
          simp
        · rfl
      · intro i hi
        simp [hvac] at hi
    · cases h

theorem claimSlot_of_hasVacancy (hv : t.hasVacancy = true) :
    ∃ slot t', claimSlot t = .ok slot t' := by
  rw [claimSlot_eq]
  rw [hasVacancy] at hv
  cases hvac : t.vacant with
  | cons slot rest => exact ⟨_, _, rfl⟩
  | nil =>
    rw [hvac] at hv
    have hlt : t.slots.size < t.capacity := by simpa using hv
    simp only
    rw [if_pos hlt]
    exact ⟨_, _, rfl⟩

theorem claimSlot_of_full (hv : t.hasVacancy = false) :
    claimSlot t = .error (.refused (.namesFull t.capacity)) t := by
  rw [hasVacancy, Bool.or_eq_false_iff] at hv
  obtain ⟨hvacant, hfull⟩ := hv
  have hnil : t.vacant = [] := by simpa using hvacant
  have hge : ¬t.slots.size < t.capacity := by simpa using hfull
  rw [claimSlot_eq, hnil]
  exact if_neg hge

/-- What becomes of a name that can be registered. -/
theorem Tidy.register_of_vacancy (s : t.Tidy) (ha : acceptName name = .ok ())
    (hc : t.contains name = false) (hv : t.hasVacancy = true) (offset : Nat) :
    ∃ slot t₁, claimSlot t = .ok slot t₁ ∧
      register name offset t = .ok () { t₁ with
        slots := t₁.slots.setIfInBounds slot (some ⟨name, offset⟩)
        index := t₁.index.insert name slot } := by
  obtain ⟨slot, t₁, hs⟩ := claimSlot_of_hasVacancy hv
  obtain ⟨-, -, -, -, hempty, -⟩ := claimSlot_ok hs s
  refine ⟨slot, t₁, hs, ?_⟩
  rw [register_eq, ha, hc, hs]
  simp only [hempty]

/-- A name is registered in a slot that was claimed for it, or refused and nothing has changed. -/
theorem Tidy.register_cases (s : t.Tidy) (name : String) (offset : Nat) :
    (∃ slot t₁, acceptName name = .ok () ∧ t.contains name = false ∧ claimSlot t = .ok slot t₁ ∧
      register name offset t = .ok () { t₁ with
        slots := t₁.slots.setIfInBounds slot (some ⟨name, offset⟩)
        index := t₁.index.insert name slot }) ∨
    ∃ e, (e = .unsupported .emptyName ∨ e = .unsupported .longName ∨ e = .nameExists name ∨
        e = .namesFull t.capacity) ∧
      ∀ offset, register name offset t = .error (.refused e) t := by
  cases ha : acceptName name with
  | error e =>
    refine .inr ⟨e, ?_, fun offset => by rw [register_eq, ha]⟩
    rw [acceptName] at ha
    split at ha
    · cases ha; exact .inl rfl
    · split at ha
      · cases ha; exact .inr (.inl rfl)
      · cases ha
  | ok u =>
    cases hc : t.contains name with
    | true => exact .inr ⟨_, .inr (.inr (.inl rfl)), fun offset => by rw [register_eq, ha, hc]⟩
    | false =>
      cases hv : t.hasVacancy with
      | false =>
        refine .inr ⟨_, .inr (.inr (.inr rfl)), fun offset => ?_⟩
        rw [register_eq, ha, hc, claimSlot_of_full hv]
      | true =>
        obtain ⟨slot, t₁, hs, hr⟩ := s.register_of_vacancy ha hc hv offset
        exact .inl ⟨slot, t₁, rfl, rfl, hs, hr⟩

/-- Registering a name puts it into the slot that was claimed for it. -/
theorem Tidy.register_ok (s : t.Tidy) (h : register name offset t = .ok () t') :
    ∃ slot t₁, acceptName name = .ok () ∧ t.contains name = false ∧ claimSlot t = .ok slot t₁ ∧
      t' = { t₁ with
        slots := t₁.slots.setIfInBounds slot (some ⟨name, offset⟩)
        index := t₁.index.insert name slot } := by
  rcases s.register_cases name offset with ⟨slot, t₁, ha, hc, hs, hr⟩ | ⟨e, -, hr⟩
  · rw [hr] at h
    cases h
    exact ⟨slot, t₁, ha, hc, hs, rfl⟩
  · rw [hr] at h
    cases h

/-- A name is refused whatever it is to stand for, and nothing changes. -/
theorem Tidy.register_refused {e : Failure} (s : t.Tidy) (h : register name offset t = .error e t') :
    t' = t ∧ ∃ e', e = .refused e' ∧
      (e' = .unsupported .emptyName ∨ e' = .unsupported .longName ∨ e' = .nameExists name ∨
        e' = .namesFull t.capacity) ∧
      ∀ offset, register name offset t = .error (.refused e') t := by
  rcases s.register_cases name offset with ⟨slot, t₁, -, -, -, hr⟩ | ⟨e', he', hr⟩
  · rw [hr] at h
    cases h
  · rw [hr] at h
    cases h
    exact ⟨rfl, e', rfl, he', hr⟩

/-- Registering puts the name into one slot that was empty, and no other slot changes. -/
theorem Tidy.register_slots (s : t.Tidy) (h : register name offset t = .ok () t') :
    ∃ slot, (∀ o, t.slots[slot]? ≠ some (some o)) ∧ t'.index = t.index.insert name slot ∧
      ∀ (i : Nat) (o : NamedObject), t'.slots[i]? = some (some o) ↔
        i = slot ∧ o = ⟨name, offset⟩ ∨ t.slots[i]? = some (some o) := by
  obtain ⟨slot, t₁, -, -, hs, rfl⟩ := s.register_ok h
  obtain ⟨-, hindex, -, hslots, hslot, -⟩ := claimSlot_ok hs s
  have hfree (o : NamedObject) : t.slots[slot]? ≠ some (some o) := by
    rw [Ne, ← hslots, hslot]
    simp
  refine ⟨slot, hfree, by rw [hindex], fun i o => ?_⟩
  rw [← hslots, Array.getElem?_setIfInBounds]
  by_cases hi : slot = i
  · subst hi
    rw [if_pos rfl, if_pos (Array.getElem?_eq_some_iff.1 hslot).1, hslot]
    simp [eq_comm]
  · rw [if_neg hi]
    simp [Ne.symm hi]

theorem Tidy.register_tidy (s : t.Tidy) (h : register name offset t = .ok () t') :
    t'.Tidy ∧ t'.capacity = t.capacity := by
  obtain ⟨slot', -, hindex, entry⟩ := s.register_slots h
  obtain ⟨slot, t₁, -, hc, hs, rfl⟩ := s.register_ok h
  obtain ⟨hcap, hsame, hsize, -, -, hnodup, hempty⟩ := claimSlot_ok hs s
  refine ⟨⟨hnodup, fun i hi => ?_, ?_, fun other i => ?_⟩, hcap⟩
  · rw [Array.getElem?_setIfInBounds_ne (Ne.symm (hempty i hi).1)]
    exact (hempty i hi).2
  · rw [Array.size_setIfInBounds, hcap]
    exact hsize
  · simp only [entry]
    rw [show t₁.index.insert name slot = t.index.insert name slot' from hindex,
      getElem?_index_insert]
    by_cases hn : name = other
    · subst hn
      rw [if_pos rfl, Option.some.injEq]
      constructor
      · rintro rfl
        exact ⟨offset, .inl ⟨rfl, rfl⟩⟩
      · rintro ⟨_, ⟨rfl, -⟩ | hi⟩
        · rfl
        · exact absurd rfl (s.ne_of_contains hc hi)
    · rw [if_neg hn, s.index_iff]
      refine exists_congr fun _ => (or_iff_right ?_).symm
      rintro ⟨-, ho⟩
      cases ho
      exact hn rfl

theorem Sound.register_sound (s : t.Sound) (ho : offset < Size.limit)
    (h : register name offset t = .ok () t') : t'.Sound ∧ t'.capacity = t.capacity := by
  obtain ⟨tidy, hcap⟩ := s.register_tidy h
  obtain ⟨slot, -, -, entry⟩ := s.register_slots h
  obtain ⟨-, -, haccept, -⟩ := s.register_ok h
  refine ⟨⟨tidy, fun i o hi => ?_⟩, hcap⟩
  rcases (entry i o).1 hi with ⟨-, rfl⟩ | hi
  · exact ⟨haccept, ho⟩
  · exact s.accepted i o hi

/-- A name that was registered stands for its offset, every other name for what it stood for. -/
theorem Tidy.find?_after_register (s : t.Tidy) (h : register name offset t = .ok () t')
    (other : String) : t'.find? other = if other = name then some offset else t.find? other := by
  obtain ⟨tidy, -⟩ := s.register_tidy h
  obtain ⟨slot, hfree, -, entry⟩ := s.register_slots h
  have hnew (i : Nat) (o : NamedObject) (hi : t.slots[i]? = some (some o)) : o.name ≠ name := by
    have hi' := (entry i o).2 (.inr hi)
    rintro rfl
    have := tidy.distinct i slot o _ hi' ((entry slot _).2 (.inl ⟨rfl, rfl⟩)) rfl
    exact hfree o (this ▸ hi)
  refine Option.ext fun p => ?_
  rw [tidy.find?_eq_some_iff]
  simp only [entry]
  by_cases hn : other = name
  · subst hn
    rw [if_pos rfl, Option.some.injEq]
    constructor
    · rintro ⟨i, ⟨-, ho⟩ | hi⟩
      · cases ho
        rfl
      · exact absurd rfl (hnew i _ hi)
    · rintro rfl
      exact ⟨slot, .inl ⟨rfl, rfl⟩⟩
  · rw [if_neg hn, s.find?_eq_some_iff]
    refine exists_congr fun i => or_iff_right ?_
    rintro ⟨-, ho⟩
    cases ho
    exact hn rfl

/-- A name that was registered stands for its offset. -/
theorem Tidy.find?_register (s : t.Tidy) (h : register name offset t = .ok () t') :
    t'.find? name = some offset := by
  rw [s.find?_after_register h, if_pos rfl]

/-! ## Looking up and forgetting -/

theorem lookup_of_find? (hf : t.find? name = some offset) : lookup name t = .ok offset t := by
  rw [find?, Option.map_eq_some_iff] at hf
  obtain ⟨o, ho, rfl⟩ := hf
  obtain ⟨i, hi, hslot⟩ := Option.bind_eq_some_iff.1 ho
  rw [lookup_eq, hi]
  simp only
  rw [Option.join_eq_some_iff.1 hslot]

theorem Tidy.lookup_of_find?_eq_none (s : t.Tidy) (hf : t.find? name = none) :
    lookup name t = .error (.refused (.notFound name)) t := by
  rw [lookup_eq, s.index_eq_none_iff.2 hf]

/-- A name that is found can be forgotten, and answers the same offset. -/
theorem unregister_of_find? (hf : t.find? name = some offset) :
    ∃ t', unregister name t = .ok offset t' := by
  rw [find?, Option.map_eq_some_iff] at hf
  obtain ⟨o, ho, rfl⟩ := hf
  obtain ⟨i, hi, hslot⟩ := Option.bind_eq_some_iff.1 ho
  rw [unregister_eq, hi]
  simp only
  rw [Option.join_eq_some_iff.1 hslot]
  exact ⟨_, rfl⟩

/-- A name that is not there is refused before anything changes, and so the index is never found to
lead to an empty slot. -/
theorem Tidy.unregister_of_find?_eq_none (s : t.Tidy) (hf : t.find? name = none) :
    unregister name t = .error (.refused (.notFound name)) t := by
  rw [unregister_eq, s.index_eq_none_iff.2 hf]

/-- Only a name that is not there cannot be forgotten, and then nothing changes. -/
theorem Tidy.unregister_refused {e : Failure} (s : t.Tidy) (h : unregister name t = .error e t') :
    t' = t ∧ t.find? name = none ∧ e = .refused (.notFound name) := by
  cases hf : t.find? name with
  | some offset =>
    obtain ⟨t'', hun⟩ := unregister_of_find? hf
    rw [hun] at h
    cases h
  | none =>
    rw [s.unregister_of_find?_eq_none hf] at h
    cases h
    exact ⟨rfl, rfl, rfl⟩

/-- Forgetting a name empties its slot, and no other slot changes. -/
theorem Tidy.unregister_slots (s : t.Tidy) (h : unregister name t = .ok offset t') :
    ∃ slot, t.slots[slot]? = some (some ⟨name, offset⟩) ∧
      t' = { t with
        slots := t.slots.setIfInBounds slot none
        vacant := slot :: t.vacant
        index := t.index.erase name } ∧
      ∀ (i : Nat) (o : NamedObject), t'.slots[i]? = some (some o) ↔
        i ≠ slot ∧ t.slots[i]? = some (some o) := by
  rw [unregister_eq] at h
  cases hi : t.index[name]? with
  | none =>
    rw [hi] at h
    cases h
  | some slot =>
    obtain ⟨offset', hslot⟩ := (s.index_iff name slot).1 hi
    rw [hi] at h
    simp only [hslot] at h
    cases h
    refine ⟨slot, hslot, rfl, fun i o => ?_⟩
    have hlt := (Array.getElem?_eq_some_iff.1 hslot).1
    rw [Array.getElem?_setIfInBounds]
    by_cases hne : slot = i
    · subst hne
      simp [hlt]
    · simp [hne, Ne.symm hne]

theorem Tidy.unregister_tidy (s : t.Tidy) (h : unregister name t = .ok offset t') :
    t'.Tidy ∧ t'.capacity = t.capacity := by
  obtain ⟨slot, hslot, rfl, entry⟩ := s.unregister_slots h
  -- the slot was a name's, so it was not to be used again
  have hnew : slot ∉ t.vacant := by
    intro hmem
    rw [s.vacant_empty slot hmem] at hslot
    cases hslot
  refine ⟨⟨List.nodup_cons.2 ⟨hnew, s.vacant_nodup⟩, fun i hi => ?_, ?_, fun other i => ?_⟩, rfl⟩
  · rw [Array.getElem?_setIfInBounds]
    rcases List.mem_cons.1 hi with rfl | hi
    · rw [if_pos rfl, if_pos (Array.getElem?_eq_some_iff.1 hslot).1]
    · rw [if_neg (show slot ≠ i from fun he => hnew (he ▸ hi))]
      exact s.vacant_empty i hi
  · rw [Array.size_setIfInBounds]
    exact s.slots_le
  · simp only [entry]
    rw [getElem?_index_erase]
    by_cases hn : name = other
    · subst hn
      rw [if_pos rfl]
      refine iff_of_false nofun ?_
      rintro ⟨_, hne, hi⟩
      exact hne (s.distinct i slot _ _ hi hslot rfl)
    · rw [if_neg hn, s.index_iff]
      refine exists_congr fun _ => (and_iff_right_of_imp ?_).symm
      rintro hi rfl
      rw [hslot] at hi
      cases hi
      exact hn rfl

theorem Sound.unregister_sound (s : t.Sound) (h : unregister name t = .ok offset t') :
    t'.Sound ∧ t'.capacity = t.capacity := by
  obtain ⟨tidy, hcap⟩ := s.unregister_tidy h
  obtain ⟨slot, -, -, entry⟩ := s.unregister_slots h
  exact ⟨⟨tidy, fun i o hi => s.accepted i o ((entry i o).1 hi).2⟩, hcap⟩

/-- A name that was forgotten stands for nothing, every other name for what it stood for. -/
theorem Tidy.find?_after_unregister (s : t.Tidy) (h : unregister name t = .ok offset t')
    (other : String) : t'.find? other = if other = name then none else t.find? other := by
  obtain ⟨tidy, -⟩ := s.unregister_tidy h
  obtain ⟨slot, hslot, -, entry⟩ := s.unregister_slots h
  refine Option.ext fun p => ?_
  rw [tidy.find?_eq_some_iff]
  simp only [entry]
  by_cases hn : other = name
  · subst hn
    rw [if_pos rfl]
    refine iff_of_false ?_ nofun
    rintro ⟨i, hne, hi⟩
    exact hne (s.distinct i slot _ _ hi hslot rfl)
  · rw [if_neg hn, s.find?_eq_some_iff]
    refine exists_congr fun i => and_iff_right_of_imp ?_
    rintro hi rfl
    rw [hslot] at hi
    cases hi
    exact hn rfl

/-! ## The names in use -/

/-- No name stands in two slots. -/
theorem nodup_names_iff {t : NameTable} : t.names.Nodup ↔
    ∀ (i j : Nat) (o o' : NamedObject), t.slots[i]? = some (some o) →
      t.slots[j]? = some (some o') → o.name = o'.name → i = j := by
  have slot {i : Nat} (hi : i < t.slots.toList.length) {o : NamedObject} :
      t.slots.toList[i] = some o ↔ t.slots[i]? = some (some o) := by
    rw [← Array.getElem?_toList, List.getElem?_eq_getElem hi, Option.some.injEq]
  rw [names, List.Nodup, List.pairwise_filterMap, List.pairwise_iff_getElem]
  constructor
  · intro hall i j o o' hi hj hn
    have hi' : i < t.slots.toList.length := (Array.getElem?_eq_some_iff.1 hi).1
    have hj' : j < t.slots.toList.length := (Array.getElem?_eq_some_iff.1 hj).1
    have name {i : Nat} {o : NamedObject} (hi : i < t.slots.toList.length)
        (ho : t.slots[i]? = some (some o)) :
        Option.map NamedObject.name t.slots.toList[i] = some o.name := by
      rw [(slot hi).2 ho]
      rfl
    rcases Nat.lt_trichotomy i j with hlt | heq | hgt
    · exact absurd hn (hall i j hi' hj' hlt _ (name hi' hi) _ (name hj' hj))
    · exact heq
    · exact absurd hn.symm (hall j i hj' hi' hgt _ (name hj' hj) _ (name hi' hi))
  · intro hall i j hi hj hij n hn n' hn' heq
    obtain ⟨o, ho, rfl⟩ := Option.map_eq_some_iff.1 hn
    obtain ⟨o', ho', rfl⟩ := Option.map_eq_some_iff.1 hn'
    have := hall i j o o' ((slot hi).1 ho) ((slot hj).1 ho') heq
    omega

theorem Tidy.nodup (s : t.Tidy) : t.names.Nodup := nodup_names_iff.2 s.distinct

/-- What stands in an empty slot is one more. -/
theorem perm_filterMap_set {α β : Type} {f : α → Option β} {b : β} {a e : α} {l : List α} {i : Nat}
    (hi : l[i]? = some e) (he : f e = none) (ha : f a = some b) :
    ((l.set i a).filterMap f).Perm (b :: l.filterMap f) := by
  induction l generalizing i with
  | nil => cases hi
  | cons x rest ih =>
    cases i with
    | zero =>
      cases hi
      rw [List.set_cons_zero, List.filterMap_cons_some ha, List.filterMap_cons_none he]
    | succ i =>
      rw [List.set_cons_succ]
      cases hx : f x with
      | none =>
        rw [List.filterMap_cons_none hx, List.filterMap_cons_none hx]
        exact ih hi
      | some y =>
        rw [List.filterMap_cons_some hx, List.filterMap_cons_some hx]
        exact ((ih hi).cons y).trans (List.Perm.swap b y _)

/-- The same names, in the same order and for the same offsets. -/
structure SameNames (t t' : NameTable) : Prop where
  names_eq : t'.names = t.names
  find?_eq : ∀ name, t'.find? name = t.find? name
  size_eq : t'.size = t.size

theorem SameNames.of_eq (h : t' = t) : SameNames t t' := by
  subst h
  exact ⟨rfl, fun _ => rfl, rfl⟩

/-- An empty slot at the end makes no difference. -/
theorem SameNames.of_slots (hi : t'.index = t.index)
    (h : t'.slots = t.slots ∨ t'.slots = t.slots.push none) : SameNames t t' := by
  rcases h with h | h
  · exact ⟨by rw [names, names, h], fun name => by rw [find?, find?, h, hi], by rw [size, size, hi]⟩
  · refine ⟨by simp [names, h], fun name => ?_, by rw [size, size, hi]⟩
    have hslot (i : Nat) : (t.slots.push none)[i]?.join = t.slots[i]?.join := by
      rw [Array.getElem?_push]
      split
      · rename_i hi
        rw [hi, Array.getElem?_eq_none (Nat.le_refl _)]
        rfl
      · rfl
    simp only [find?, h, hi, hslot]

/-- The slots say what the index is. -/
theorem Tidy.index_eq (s : t.Tidy) (s' : t'.Tidy) (h : t'.slots = t.slots) : t'.index = t.index := by
  refine Std.ExtTreeMap.ext_getElem? fun name => Option.ext fun i => ?_
  rw [s'.index_iff, s.index_iff, h]

theorem Tidy.sameNames_of_slots (s : t.Tidy) (s' : t'.Tidy) (h : t'.slots = t.slots) :
    SameNames t t' := .of_slots (s.index_eq s' h) (.inl h)

theorem claimSlot_slots (h : claimSlot t = .ok slot t') :
    t'.index = t.index ∧ (t'.slots = t.slots ∨ t'.slots = t.slots.push none) := by
  rw [claimSlot_eq] at h
  split at h
  · cases h
    exact ⟨rfl, .inl rfl⟩
  · split at h
    · cases h
      exact ⟨rfl, .inr rfl⟩
    · cases h

theorem SameNames.of_claimSlot (h : claimSlot t = .ok slot t') : SameNames t t' :=
  .of_slots (claimSlot_slots h).1 (claimSlot_slots h).2

/-- Registering adds the name to those in use. -/
theorem Tidy.names_register (s : t.Tidy) (h : register name offset t = .ok () t') :
    t'.names.Perm (name :: t.names) := by
  obtain ⟨slot, t₁, -, -, hs, rfl⟩ := s.register_ok h
  obtain ⟨-, -, -, -, hempty, -⟩ := claimSlot_ok hs s
  rw [← (SameNames.of_claimSlot hs).names_eq, names, names, Array.toList_setIfInBounds]
  exact perm_filterMap_set (by rw [Array.getElem?_toList]; exact hempty) rfl rfl

/-- Forgetting takes the name from those in use. -/
theorem Tidy.names_unregister (s : t.Tidy) (h : unregister name t = .ok offset t') :
    t.names.Perm (name :: t'.names) := by
  obtain ⟨slot, hslot, rfl, -⟩ := s.unregister_slots h
  have hin : slot < t.slots.toList.length := (Array.getElem?_eq_some_iff.1 hslot).1
  -- putting the object back makes the slots what they were
  have back : (t.slots.toList.set slot none).set slot (some ⟨name, offset⟩) = t.slots.toList := by
    rw [← Array.getElem?_toList, List.getElem?_eq_getElem hin, Option.some.injEq] at hslot
    rw [List.set_set, ← hslot]
    exact List.set_getElem_self hin
  have added := perm_filterMap_set (f := fun o : Option NamedObject => o.map NamedObject.name)
    (a := some ⟨name, offset⟩) (List.getElem?_set_self (a := none) hin) rfl rfl
  rw [back] at added
  rw [names, names, Array.toList_setIfInBounds]
  exact added

/-- Forgetting the name that was registered last leaves the names that there were. -/
theorem Tidy.sameNames_of_unregister {t'' : NameTable} {offset' : Nat} (s : t.Tidy)
    (h : register name offset t = .ok () t') (h' : unregister name t' = .ok offset' t'') :
    SameNames t t'' := by
  obtain ⟨tidy, -⟩ := s.register_tidy h
  obtain ⟨slot', hslot', rfl, -⟩ := tidy.unregister_slots h'
  obtain ⟨slot, t₁, -, hc, hs, rfl⟩ := s.register_ok h
  obtain ⟨-, hindex, -, -, hempty, -⟩ := claimSlot_ok hs s
  have hlt := (Array.getElem?_eq_some_iff.1 hempty).1
  -- the name stands in no other slot
  have hslot : slot = slot' := by
    refine tidy.distinct slot slot' ⟨name, offset⟩ _ ?_ hslot' rfl
    rw [Array.getElem?_setIfInBounds_self_of_lt hlt]
  subst hslot
  have hback : (t₁.slots.setIfInBounds slot (some ⟨name, offset⟩)).setIfInBounds slot none =
      t₁.slots := by
    refine Array.ext_getElem? fun i => ?_
    rw [Array.getElem?_setIfInBounds, Array.getElem?_setIfInBounds, Array.size_setIfInBounds]
    by_cases hi : slot = i
    · subst hi
      rw [if_pos rfl, if_pos hlt, hempty]
    · rw [if_neg hi, if_neg hi]
  have hforgotten : (t₁.index.insert name slot).erase name = t₁.index := by
    refine Std.ExtTreeMap.ext_getElem? fun other => ?_
    rw [getElem?_index_erase, getElem?_index_insert]
    split
    · rename_i hn
      rw [hindex, ← hn, contains_eq_false_iff.1 hc]
    · rfl
  refine .of_slots (hforgotten.trans hindex) ?_
  simp only [hback]
  exact (claimSlot_slots hs).2

end NameTable

end RegionHeap
