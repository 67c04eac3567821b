import RegionHeap.Heap.Named
import RegionHeap.Proofs.Heap.Resizing

/-!
Handles that stand for more than an offset: those that were moved up to a boundary, with a record of
where their allocation starts, and those that were given a name.
-/
namespace RegionHeap.Heap

open HeapM

variable {h h' : Heap} {E : HeapError → Heap → Prop} {roomy : Prop}

/-! ## Alignment -/

/-- The records after a handle was answered for an allocation: those of before, or one more if the
handle does not start the allocation. -/
def recorded (r : AlignmentRecords) (handle start : Nat) : AlignmentRecords :=
  if handle = start then r else { r with starts := r.starts.insert handle start }

/-- A new allocation with `size` bytes from its handle on, which lies on a boundary. -/
def AllocatedOn (alignment : Nat) (h h' : Heap) (handle size : Nat) : Prop :=
  alignment ∣ handle ∧ ∃ start length, h.objectAt start = none ∧ start ≤ handle ∧
    handle + max size 1 ≤ start + length ∧
    Turns { h with aligned := recorded h.aligned handle start } h'
      (replaced h.objectAt start (some length))

/-- A refusal that keeps every object, though it may have moved free blocks around. -/
def KeptObjects (h : Heap) : HeapError → Heap → Prop := fun _ h' => Turns h h' h.objectAt

/-- A refusal for want of room or of a record that keeps every object. -/
structure NotAligned (h : Heap) (e : HeapError) (h' : Heap) : Prop where
  kept : KeptObjects h e h'
  error_eq : e = .outOfMemory

theorem Exhausted.notAligned (w : h.WellFormed) {e : HeapError} (hu : Exhausted h e h') :
    NotAligned h e h' := by
  obtain ⟨rfl, he⟩ := hu
  exact ⟨Turns.refl w, he⟩

theorem AllocatedOn.of_start {alignment handle size : Nat} (hd : alignment ∣ handle) {length : Nat}
    (hfresh : h.objectAt handle = none) (hle : max size 1 ≤ length)
    (t : Turns h h' (replaced h.objectAt handle (some length))) :
    AllocatedOn alignment h h' handle size := by
  refine ⟨hd, handle, length, hfresh, Nat.le_refl _, by omega, ?_⟩
  rw [recorded, if_pos rfl]
  exact t

/-- Rounding up inside an allocation that leaves room for it. -/
theorem roundUp?_of_lt {value step : Nat} (hlt : value + step < Size.limit) :
    ∃ r, Size.roundUp? value step = some r := by
  rw [Size.roundUp?]
  by_cases h0 : value = 0
  · rw [if_pos h0]
    exact ⟨_, rfl⟩
  · rw [if_neg h0, Size.mul?, if_pos]
    · exact ⟨_, rfl⟩
    · have := Nat.mul_div_le (value - 1) step
      rw [Nat.mul_add, Nat.mul_one]
      omega

theorem allocateWithSlack_ends (w : h.WellFormed) {alignment : Nat} (padded : Nat)
    (ha : 0 < alignment) (hf : h.aligned.isFull = false) :
    Ends h.frame.Roomy (allocateWithSlack alignment padded) h
      (fun handle h' => AllocatedOn alignment h h' handle padded) (NotAligned h) := by
  refine Ends.bind' (Ends.orRefuse' (fun slack hslack => ?_) fun _ => ⟨Turns.refl w, rfl⟩)
  obtain ⟨-, rfl⟩ := Size.add?_eq_some_iff.1 hslack
  refine Ends.bind' ((allocate_ends w _).mono ?_ fun _ _ hE => hE.notAligned w)
  rintro (start : Nat) h₁ ⟨hfresh, length, hle, t⟩
  have hregion := t.wellFormed.object_in_region
    (show h₁.objectAt start = some length by rw [t.objects_eq, replaced_self])
  have hsmall := t.wellFormed.small
  obtain ⟨handle, hr⟩ := roundUp?_of_lt (show start + alignment < Size.limit by omega)
  obtain ⟨hd, hge, hlt⟩ := Size.roundUp?_bounds ha hr
  refine Ends.bind' (Ends.orTrap' hr (Ends.ite' (fun heq => Ends.pure' ?_) fun hne => ?_))
  · subst heq
    exact AllocatedOn.of_start hd hfresh (by omega) t
  · obtain ⟨records, hins, hsound, hcap, -⟩ := AlignmentRecords.insert_eq w.records hf
      (show handle < Size.limit by omega) (show start < Size.limit by omega)
    refine Ends.bind' (Ends.get' (Ends.bind' (Ends.ofExcept' (fun records' hins' => ?_) fun e he => ?_)))
    · rw [t.aligned_eq, hins] at hins'
      cases hins'
      refine Ends.bind' (Ends.set' (Ends.pure' ⟨hd, start, length, hfresh, hge, by omega, ?_⟩))
      have hrec : recorded h.aligned handle start = records := by
        rw [AlignmentRecords.insert, hf] at hins
        cases hins
        rw [recorded, if_neg hne]
      rw [hrec]
      exact t.with_records hcap hsound
    · rw [t.aligned_eq, hins] at he
      cases he

/-- The least multiple of `step` that is no less than `size`, and not zero. -/
structure LeastMultiple (step size multiple : Nat) : Prop where
  dvd : step ∣ multiple
  pos : 0 < multiple
  size_le : size ≤ multiple
  least : ∀ n, step ∣ n → 0 < n → size ≤ n → multiple ≤ n

theorem LeastMultiple.step_le {step size multiple : Nat} (m : LeastMultiple step size multiple) :
    step ≤ multiple := Nat.le_of_dvd m.pos m.dvd

theorem LeastMultiple.unique {step size a b : Nat} (ha : LeastMultiple step size a)
    (hb : LeastMultiple step size b) : a = b :=
  Nat.le_antisymm (ha.least b hb.dvd hb.pos hb.size_le) (hb.least a ha.dvd ha.pos ha.size_le)

/-- What is asked for on a boundary is padded to a multiple of it. -/
theorem leastMultiple_roundDown {size alignment room : Nat} (ha : 0 < alignment)
    (hr : Size.add? (max size 1) (alignment - 1) = some room) :
    LeastMultiple alignment size (Size.roundDown room alignment) := by
  obtain ⟨-, rfl⟩ := Size.add?_eq_some_iff.1 hr
  have hlt := Size.lt_roundDown_add (max size 1 + (alignment - 1)) ha
  refine ⟨Size.dvd_roundDown _ _, by omega, by omega, fun n hd hpos hle => ?_⟩
  obtain ⟨k, hk⟩ := Size.dvd_roundDown (max size 1 + (alignment - 1)) alignment
  obtain ⟨q, rfl⟩ := hd
  have hdown := Size.roundDown_le (max size 1 + (alignment - 1)) alignment
  rw [hk] at hdown ⊢
  -- what is rounded down is less than the next multiple
  have hnext : alignment * k < alignment * (q + 1) := by
    rw [Nat.mul_succ]
    omega
  exact Nat.mul_le_mul_left alignment (Nat.le_of_lt_succ (Nat.lt_of_mul_lt_mul_left hnext))

/-- An allocation on a boundary after one that was given back. -/
theorem AllocatedOn.after_undone {h₁ : Heap} {alignment handle size : Nat}
    (a : AllocatedOn alignment h₁ h' handle size) (t : Turns h h₁ h.objectAt) :
    AllocatedOn alignment h h' handle size := by
  obtain ⟨hd, start, length, hfresh, hle, hfit, t'⟩ := a
  rw [show h₁.objectAt = h.objectAt from funext t.objects_eq] at hfresh t'
  rw [t.aligned_eq] at t'
  refine ⟨hd, start, length, hfresh, hle, hfit, ?_⟩
  have hcap : (recorded h.aligned handle start).capacity = h.aligned.capacity := by
    rw [recorded]
    split <;> rfl
  have hsound := t'.wellFormed.records
  rw [t'.aligned_eq] at hsound
  exact (t.with_records hcap hsound).after_same t'

/-- A request on a boundary is granted the padded size. -/
theorem allocateAligned_ends_padded (w : h.WellFormed) (alignment size : Nat) :
    Ends h.frame.Roomy (allocateAligned alignment size) h
      (fun handle h' => ∃ padded, LeastMultiple alignment size padded ∧
        AllocatedOn alignment h h' handle padded)
      fun e h' => NotAligned h e h' ∨ h' = h ∧ Size.isPowerOfTwo alignment = false ∧
        e = .unsupported .alignment := by
  refine Ends.ite' (fun hpow => Ends.refuse' (.inr ⟨rfl, by simpa using hpow, rfl⟩)) fun hpow => ?_
  have ha := Size.pos_of_isPowerOfTwo (show Size.isPowerOfTwo alignment = true by simpa using hpow)
  refine Ends.bind' (Ends.orRefuse' (fun room hroom => ?_) fun _ => .inl ⟨Turns.refl w, rfl⟩)
  have padded := leastMultiple_roundDown ha hroom
  refine Ends.bind' ((allocate_ends w _).mono ?_ fun _ _ hE => .inl (hE.notAligned w))
  rintro start h₁ ⟨hfresh, length, hle, t₁⟩
  refine Ends.ite' (fun hal => Ends.pure' ?_) fun _ => ?_
  · have := padded.pos
    exact ⟨_, padded, AllocatedOn.of_start (Nat.dvd_of_mod_eq_zero hal) hfresh (by omega) t₁⟩
  -- the first try is given back
  have hstart : h₁.objectAt start = some length := by rw [t₁.objects_eq, replaced_self]
  refine Ends.bind' ((freeAllocation_ends t₁.wellFormed start).mono ?_ ?_)
  · rintro - h₂ ⟨-, t₂⟩
    have t : Turns h h₂ h.objectAt := t₁.undone hfresh t₂
    refine Ends.bind' (Ends.get' (Ends.ite' (fun _ => Ends.refuse' (.inl ⟨t, rfl⟩)) fun hfull => ?_))
    have hroom : h₂.frame = h.frame := t.frame_eq
    rw [← hroom]
    refine (allocateWithSlack_ends t.wellFormed _ ha (by simpa using hfull)).mono
      (fun handle h₃ a => ⟨_, padded, a.after_undone t⟩) ?_
    rintro e h₃ ⟨t₃, he⟩
    exact .inl ⟨t.then_same t₃, he⟩
  · rintro e h₂ ⟨-, hnone⟩
    rw [hstart] at hnone
    cases hnone

theorem allocateAligned_ends (w : h.WellFormed) (alignment size : Nat) :
    Ends h.frame.Roomy (allocateAligned alignment size) h
      (fun handle h' => AllocatedOn alignment h h' handle size)
      fun e h' => NotAligned h e h' ∨ h' = h ∧ Size.isPowerOfTwo alignment = false ∧
        e = .unsupported .alignment := by
  refine (allocateAligned_ends_padded w alignment size).mono ?_ fun _ _ hE => hE
  intro handle h' granted
  obtain ⟨padded, m, hd, start, length, hfresh, hle, hfit, t⟩ := granted
  have := m.size_le
  exact ⟨hd, start, length, hfresh, hle, by omega, t⟩

/-! ## Names -/

theorem resolve_ends (w : h.WellFormed) (offset : Nat) :
    Ends roomy (resolve offset) h (fun start h' => h' = h ∧ ∃ length,
      h.objectAt start = some length ∧ start ≤ offset ∧ offset < start + length)
      (Rejected h offset) := by
  refine Ends.bind' (Ends.get' (Ends.bind' (w.extentOf_ends ?_ fun _ he => ⟨rfl, he⟩)))
  intro start length hp
  exact Ends.pure' ⟨rfl, length, w.extentOf_eq_ok_iff.1 hp⟩

/-- A name is given to an offset of a live object. -/
theorem register_ends (w : h.WellFormed) (name : String) (offset : Nat) :
    Ends roomy (register name offset) h (fun _ h' => ∃ names,
      NameTable.register name offset h.names = .ok () names ∧ names.capacity = h.names.capacity ∧
      h' = { h with names } ∧ h'.WellFormed)
      fun e h' => h' = h ∧ (e = .invalidPointer offset ∨
        NameTable.register name offset h.names = .error (.refused e) h.names) := by
  refine Ends.bind' (Ends.discard' ((resolve_ends w offset).mono ?_ fun _ _ hE =>
    ⟨hE.1, .inl hE.2⟩))
  rintro start h' ⟨rfl, length, hobj, hle, hlt⟩
  have := w.object_in_region hobj
  have := w.small
  refine Ends.onNames_of (fun _ names hn => ?_) (fun e names hn => ?_) fun names hn => ?_
  · obtain ⟨hsound, hcap⟩ := w.names.register_sound (show offset < Size.limit by omega) hn
    exact ⟨names, hn, hcap, rfl, w.with_registry hcap rfl hsound w.records⟩
  · obtain ⟨rfl, -⟩ := w.names.register_refused hn
    exact ⟨rfl, .inr hn⟩
  · obtain ⟨-, _, he, -⟩ := w.names.register_refused hn
    cases he

theorem lookup_ends (w : h.WellFormed) (name : String) :
    Ends roomy (lookup name) h (fun offset h' => h' = h ∧ h.names.find? name = some offset)
      (fun e h' => h' = h ∧ h.names.find? name = none ∧ e = .notFound name) := by
  cases hf : h.names.find? name with
  | none =>
    have hl := w.names.lookup_of_find?_eq_none hf
    refine Ends.onNames_of (fun _ _ hn => ?_) (fun _ _ hn => ?_) fun _ hn => ?_
    all_goals
      rw [hl] at hn
      cases hn
    exact ⟨rfl, rfl, rfl⟩
  | some offset =>
    have hl := NameTable.lookup_of_find? hf
    refine Ends.onNames_of (fun _ _ hn => ?_) (fun _ _ hn => ?_) fun _ hn => ?_
    all_goals
      rw [hl] at hn
      cases hn
    exact ⟨rfl, rfl⟩

theorem unregister_ends (w : h.WellFormed) (name : String) :
    Ends roomy (unregister name) h (fun offset h' => ∃ names,
      NameTable.unregister name h.names = .ok offset names ∧ names.capacity = h.names.capacity ∧
      h' = { h with names } ∧ h'.WellFormed)
      (fun e h' => h' = h ∧ NameTable.unregister name h.names = .error (.refused e) h.names) := by
  refine Ends.onNames_of (fun _ names hn => ?_) (fun e names hn => ?_) fun names hn => ?_
  · obtain ⟨hsound, hcap⟩ := w.names.unregister_sound hn
    exact ⟨names, hn, hcap, rfl, w.with_registry hcap rfl hsound w.records⟩
  · obtain ⟨rfl, -⟩ := w.names.unregister_refused hn
    exact ⟨rfl, hn⟩
  · obtain ⟨-, -, he⟩ := w.names.unregister_refused hn
    cases he

/-- An allocation is named unless the allocation itself is refused: whether the name can be
registered is settled before. -/
theorem allocateAs_ends {name : String} {allocation : HeapM Handle} {Q : Handle → Heap → Prop}
    (w : h.WellFormed) (ha : Ends roomy allocation h Q E)
    (hunchanged : ∀ e, (∀ offset,
      NameTable.register name offset h.names = .error (.refused e) h.names) → E e h)
    (hQ : ∀ handle h', Q handle h' → h'.names = h.names ∧ h'.WellFormed ∧ handle < Size.limit) :
    Ends roomy (allocateAs name allocation) h (fun handle h' => ∃ h₁ names, Q handle h₁ ∧
      NameTable.register name handle h.names = .ok () names ∧ names.capacity = h.names.capacity ∧
      h' = { h₁ with names } ∧ h'.WellFormed) E := by
  refine Ends.bind' (Ends.get' (Ends.bind' (Ends.ofExcept' (fun _ haccept => ?_)
    fun e he => hunchanged e fun offset => ?_)))
  rotate_left
  · rw [NameTable.register_eq, he]
  refine Ends.ite' (fun hold => Ends.refuse' (hunchanged _ fun offset => ?_)) fun hnew =>
    Ends.ite' (fun hfull => Ends.refuse' (hunchanged _ fun offset => ?_)) fun hvacant => ?_
  · rw [NameTable.register_eq, haccept, hold]
  · rw [NameTable.register_eq, haccept, Bool.eq_false_iff.2 hnew,
      NameTable.claimSlot_of_full (by simpa using hfull)]
  refine Ends.bind' (ha.mono ?_ fun _ _ hE => hE)
  intro handle h₁ hq
  obtain ⟨hnames, w₁, hlt⟩ := hQ handle h₁ hq
  obtain ⟨slot, t₁, -, hreg⟩ := w.names.register_of_vacancy haccept (by simpa using hnew)
    (by simpa using hvacant) handle
  rw [← hnames] at hreg
  refine Ends.bind' (Ends.onNames_of (fun _ names hn => ?_) (fun _ _ hn => ?_) fun _ hn => ?_)
  · obtain ⟨hsound, hcap⟩ := w₁.names.register_sound hlt hn
    exact Ends.pure' ⟨h₁, names, hq, by rw [← hnames]; exact hn, by rw [← hnames]; exact hcap, rfl,
      w₁.with_registry hcap rfl hsound w₁.records⟩
  · rw [hreg] at hn
    cases hn
  · rw [hreg] at hn
    cases hn

/-- A named object is freed like any other, and its name is forgotten. -/
theorem freeNamed_ends (w : h.WellFormed) (name : String) :
    Ends roomy (freeNamed name) h (fun _ h' => ∃ handle h₁ names,
      h.names.find? name = some handle ∧ h.objectAt (h.allocationOf handle) ≠ none ∧
      Turns (h.forgetRecord handle) h₁ (replaced h.objectAt (h.allocationOf handle) none) ∧
      NameTable.unregister name h.names = .ok handle names ∧ names.capacity = h.names.capacity ∧
      h' = { h₁ with names } ∧ h'.WellFormed)
      (fun e h' => h' = h ∧ (h.names.find? name = none ∧ e = .notFound name ∨
        ∃ handle, h.names.find? name = some handle ∧ h.objectAt (h.allocationOf handle) = none ∧
          e = .invalidPointer (h.allocationOf handle))) := by
  refine Ends.bind' ((lookup_ends w name).mono ?_ fun e h' hE => ⟨hE.1, .inl hE.2⟩)
  · rintro handle h' ⟨rfl, hf⟩
    refine Ends.bind' ((free_ends w handle).mono ?_ ?_)
    · rintro - h₁ ⟨hobj, t⟩
      have hnames : h₁.names = h'.names := t.names_eq
      obtain ⟨names, hun⟩ := NameTable.unregister_of_find? hf
      refine Ends.discard' ((unregister_ends t.wellFormed name).mono ?_ fun e h₂ hbad => ?_)
      · rintro offset h₂ ⟨names', hun', hcap, rfl, w₂⟩
        rw [hnames, hun] at hun'
        cases hun'
        exact ⟨handle, h₁, names, hf, hobj, t, hun, by rw [hcap, hnames], rfl, w₂⟩
      · rw [hnames, hun] at hbad
        cases hbad.2
    · rintro e h₁ ⟨⟨rfl, he⟩, hnone⟩
      exact ⟨rfl, .inr ⟨handle, hf, hnone, he⟩⟩

end RegionHeap.Heap
