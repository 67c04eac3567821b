import Mathlib.Logic.Function.Basic
import RegionHeap.Proofs.Heap.Outcome
import RegionHeap.Session

/-!
The slots of a session. A descriptor is given out by filling the lowest empty slot (`insert_eq`), and
everything that is done under a descriptor changes its own slot and no other. Each step of a session
is described by the slots that it leaves, as a function of the descriptor.
-/
namespace RegionHeap.Session

variable {α : Type} {s : Session} {index : Nat} {o : OpenHeap} {host : Host}
  {g : Geometry} {region : Region}

theorem lt_size_of_open? (ho : s.open? index = some o) : index < s.heaps.size := by
  rw [open?, Option.join_eq_some_iff] at ho
  exact (Array.getElem?_eq_some_iff.1 ho).1

theorem open?_setSlot (hlt : index < s.heaps.size) (slot : Option OpenHeap) :
    (s.setSlot index slot).open? = Function.update s.open? index slot := by
  funext i
  rw [open?, setSlot, Array.getElem?_setIfInBounds, if_pos hlt, Function.update_apply]
  by_cases hi : index = i
  · rw [if_pos hi, if_pos hi.symm]
    rfl
  · rw [if_neg hi, if_neg (Ne.symm hi)]
    rfl

@[simp] theorem size_setSlot (slot : Option OpenHeap) :
    (s.setSlot index slot).heaps.size = s.heaps.size := Array.size_setIfInBounds ..

/-- A new heap gets the lowest slot that is empty. -/
theorem insert_eq {s' : Session} {heap : Heap} (hi : s.insert heap = (index, s')) :
    s.open? index = none ∧ (∀ lower, lower < index → s.open? lower ≠ none) ∧
      s'.open? = Function.update s.open? index (some ⟨heap, 1⟩) ∧ s'.files = s.files := by
  rw [insert] at hi
  split at hi
  · rename_i found
    cases hi
    obtain ⟨hlt, hempty, hlower⟩ := Array.findIdx?_eq_some_iff_getElem.1 found
    refine ⟨?_, fun lower hl => ?_, open?_setSlot hlt _, rfl⟩
    · rw [open?, Array.getElem?_eq_getElem hlt, Option.isNone_iff_eq_none.1 hempty]
      rfl
    · have := hlower lower hl
      rw [open?, Array.getElem?_eq_getElem (by omega)]
      simpa using this
  · rename_i full
    cases hi
    have hfull := Array.findIdx?_eq_none_iff.1 full
    refine ⟨by simp [open?], fun lower hl => ?_, ?_, rfl⟩
    · have := hfull s.heaps[lower] (Array.getElem_mem hl)
      rw [open?, Array.getElem?_eq_getElem hl]
      exact Option.isNone_eq_false_iff.1 this |> Option.ne_none_iff_isSome.2
    · funext i
      rw [open?, Array.getElem?_push, Function.update_apply]
      split
      · rfl
      · rfl

/-! ## Opening -/

theorem openRegion_of_ok {heap : Heap} (mounted : Heap.mount host g region = .ok heap) (s : Session) :
    ∃ index s', openRegion host g region s = .ok index s' ∧ s.insert heap = (index, s') := by
  simp only [openRegion, mounted]
  exact ⟨_, _, rfl, rfl⟩

theorem openRegion_of_error {r : Rejection} (rejected : Heap.mount host g region = .error r)
    (s : Session) : openRegion host g region s = .error r.failure (s.handBack r.region) := by
  simp only [openRegion, rejected]

theorem openMemory_of_reserved {bytes : Nat} {memory : Reservation}
    (capacity : g.regionBytes host = .ok bytes) (reserved : Reservation.reserve host bytes = .ok memory)
    (s : Session) : openMemory host g s = openRegion host g ⟨.memory memory, none⟩ s := by
  rw [openMemory, capacity]
  refine (bind_of_ok rfl).trans ?_
  rw [reserved]
  exact bind_of_ok rfl

theorem openMemory_of_none
    (none_reserved : ∀ bytes memory, g.regionBytes host = .ok bytes →
      Reservation.reserve host bytes ≠ .ok memory) (s : Session) :
    ∃ failure, openMemory host g s = .error failure s := by
  cases capacity : g.regionBytes host with
  | error failure =>
    refine ⟨failure, ?_⟩
    rw [openMemory, capacity]
    exact bind_of_error rfl
  | ok bytes =>
    cases reserved : Reservation.reserve host bytes with
    | error failure =>
      refine ⟨failure, ?_⟩
      rw [openMemory, capacity]
      refine (bind_of_ok rfl).trans ?_
      rw [reserved]
      exact bind_of_error rfl
    | ok memory => exact absurd reserved (none_reserved bytes memory capacity)

theorem openFile_of_mapped {bytes : Nat} {name : String} {file : MappedFile} {files : Directory}
    (capacity : g.regionBytes host = .ok bytes)
    (mapped : s.files.mapFile host name bytes = (.ok file, files)) :
    openFile host name g s = openRegion host g ⟨.file file, none⟩ { s with files } := by
  rw [openFile, capacity]
  refine (bind_of_ok rfl).trans (bind_of_ok ?_)
  rw [mapFile, mapped]

theorem openFile_of_none {name : String}
    (none_mapped : ∀ bytes file files, g.regionBytes host = .ok bytes →
      s.files.mapFile host name bytes ≠ (.ok file, files)) :
    ∃ failure files, openFile host name g s = .error failure { s with files } := by
  cases capacity : g.regionBytes host with
  | error failure =>
    refine ⟨failure, s.files, ?_⟩
    rw [openFile, capacity]
    exact bind_of_error rfl
  | ok bytes =>
    match mapped : s.files.mapFile host name bytes with
    | (.error failure, files) =>
      refine ⟨failure, files, ?_⟩
      rw [openFile, capacity]
      refine (bind_of_ok rfl).trans (bind_of_error ?_)
      rw [mapFile, mapped]
    | (.ok file, files) => exact absurd mapped (none_mapped bytes file files capacity)

/-! ## Under a descriptor -/

theorem require_of_none (closed : s.open? index = none) :
    require index s = .error (.refused (.badDescriptor index)) s := by
  rw [require, bind_get, closed]
  rfl

theorem require_of_some (ho : s.open? index = some o) : require index s = .ok o s := by
  rw [require, bind_get, ho]
  rfl

theorem retain_of_some (ho : s.open? index = some o) :
    retain index s = .ok () (s.setSlot index (some { o with references := o.references + 1 })) :=
  bind_of_ok (require_of_some ho)

theorem close_of_more (ho : s.open? index = some o) (more : 1 < o.references) :
    close index s = .ok () (s.setSlot index (some { o with references := o.references - 1 })) := by
  rw [close, bind_of_ok (require_of_some ho), if_pos more]
  rfl

/-- With the last reference the slot becomes empty, whether the heap can be saved or not. -/
theorem close_of_last (ho : s.open? index = some o) (last : o.references ≤ 1) :
    close index s = match Heap.sync o.heap with
      | .ok () heap => .ok () ((s.setSlot index none).handBack heap.region)
      | .error failure heap => .error failure ((s.setSlot index none).handBack heap.region) := by
  rw [close, bind_of_ok (require_of_some ho), if_neg (Nat.not_lt.2 last), bind_modify]
  cases Heap.sync o.heap <;> rfl

theorem onHeap_of_some (ho : s.open? index = some o) (x : HeapM α) :
    onHeap index x s = match x o.heap with
      | .ok a heap => .ok a ((s.setSlot index none).setSlot index (some { o with heap }))
      | .error failure heap =>
        .error failure ((s.setSlot index none).setSlot index (some { o with heap })) := by
  rw [onHeap, bind_of_ok (require_of_some ho), bind_modify]
  cases x o.heap <;> rfl

end RegionHeap.Session
