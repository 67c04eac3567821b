import RegionHeap.Operation
import RegionHeap.Proofs.Heap.Figures
import RegionHeap.Proofs.Heap.Registering
import RegionHeap.Proofs.Image.Saving

/-!
What operations do. An operation that is granted has one of the effects listed here, one for each
kind of operation (`Effect`). One that is refused leaves all objects where they are (`Refusal`), and
its error is one of those that the operation has (`Operation.MayRefuse`). `Operation.effects` says
that a well-formed heap knows no other outcome, save a trap where the arena would not fit the range
of sizes. All that holds of single steps is read off these lists.
-/
namespace RegionHeap

namespace Heap

variable {h h' : Heap}

/-- Only the name table differs, and it has as many slots as before. -/
structure Renames (h h' : Heap) (names : NameTable) : Prop where
  eq : h' = { h with names }
  capacity_eq : names.capacity = h.names.capacity
  wellFormed : h'.WellFormed

/-- What an operation answers, and what it makes of a heap. -/
inductive Effect (h h' : Heap) : Operation → Answer → Prop where
  | allocate {size handle : Nat} (a : Allocated h h' handle size) :
    Effect h h' (.allocate size) (.handle handle)
  | allocateZeroed {count size handle : Nat} (a : Allocated h h' handle (count * size))
    (zeros : ∀ i, i < count * size → h'.arenaByte (handle + i) = 0) :
    Effect h h' (.allocateZeroed count size) (.handle handle)
  | allocateAligned {alignment size handle : Nat} (a : AllocatedOn alignment h h' handle size) :
    Effect h h' (.allocateAligned alignment size) (.handle handle)
  | allocatePageAligned {host : Host} {size handle : Nat}
    (a : AllocatedOn host.page h h' handle size) :
    Effect h h' (.allocatePageAligned host size) (.handle handle)
  | reallocate {handle size moved : Nat} (r : Reallocated h h' handle moved size) :
    Effect h h' (.reallocate handle size) (.handle moved)
  | free {handle : Nat} (live : h.objectAt (h.allocationOf handle) ≠ none)
    (t : Turns (h.forgetRecord handle) h' (replaced h.objectAt (h.allocationOf handle) none)) :
    Effect h h' (.free handle) .done
  | allocateNamed {name : String} {size handle : Nat} {h₁ : Heap} {names : NameTable}
    (a : Allocated h h₁ handle size)
    (registered : NameTable.register name handle h.names = .ok () names)
    (r : Renames h₁ h' names) : Effect h h' (.allocateNamed name size) (.handle handle)
  | allocateZeroedNamed {name : String} {count size handle : Nat} {h₁ : Heap} {names : NameTable}
    (a : Allocated h h₁ handle (count * size))
    (zeros : ∀ i, i < count * size → h₁.arenaByte (handle + i) = 0)
    (registered : NameTable.register name handle h.names = .ok () names) (r : Renames h₁ h' names) :
    Effect h h' (.allocateZeroedNamed name count size) (.handle handle)
  | allocateAlignedNamed {name : String} {alignment size handle : Nat} {h₁ : Heap}
    {names : NameTable} (a : AllocatedOn alignment h h₁ handle size)
    (registered : NameTable.register name handle h.names = .ok () names) (r : Renames h₁ h' names) :
    Effect h h' (.allocateAlignedNamed name alignment size) (.handle handle)
  | freeNamed {name : String} {handle : Nat} {h₁ : Heap} {names : NameTable}
    (found : h.names.find? name = some handle)
    (live : h.objectAt (h.allocationOf handle) ≠ none)
    (t : Turns (h.forgetRecord handle) h₁ (replaced h.objectAt (h.allocationOf handle) none))
    (unregistered : NameTable.unregister name h.names = .ok handle names) (r : Renames h₁ h' names) :
    Effect h h' (.freeNamed name) .done
  | register {name : String} {offset : Nat} {names : NameTable}
    (registered : NameTable.register name offset h.names = .ok () names) (r : Renames h h' names) :
    Effect h h' (.register name offset) .done
  | lookup {name : String} {offset : Nat} (same : h' = h)
    (found : h.names.find? name = some offset) : Effect h h' (.lookup name) (.handle offset)
  | unregister {name : String} {offset : Nat} {names : NameTable}
    (unregistered : NameTable.unregister name h.names = .ok offset names) (r : Renames h h' names) :
    Effect h h' (.unregister name) (.handle offset)
  | resolve {offset start length : Nat} (same : h' = h) (object : h.objectAt start = some length)
    (start_le : start ≤ offset) (lt_stop : offset < start + length) :
    Effect h h' (.resolve offset) (.handle start)
  | usableFrom {offset usable start : Nat} (same : h' = h)
    (inside : Within h offset usable start) : Effect h h' (.usableFrom offset) (.count usable)
  | read {offset count start usable : Nat} {data : ByteArray} (same : h' = h)
    (size_eq : data.size = count) (inside : Within h offset usable start) (fits : count ≤ usable)
    (bytes : ∀ i, i < count → Bytes.byte data i = h.arenaByte (offset + i)) :
    Effect h h' (.read offset count) (.bytes data)
  | write {offset start usable : Nat} {data : ByteArray} (inside : Within h offset usable start)
    (fits : data.size ≤ usable) (wr : Writes h h' start)
    (bytes : ∀ i, h'.arenaByte i = if offset ≤ i ∧ i < offset + data.size then
      Bytes.byte data (i - offset) else h.arenaByte i) : Effect h h' (.write offset data) .done
  | fill {offset count start usable : Nat} {byte : UInt8} (inside : Within h offset usable start)
    (fits : count ≤ usable) (wr : Writes h h' start)
    (bytes : ∀ i, h'.arenaByte i = if offset ≤ i ∧ i < offset + count then byte
      else h.arenaByte i) : Effect h h' (.fill offset count byte) .done
  | grow {count : Nat} (t : Turns h h' h.objectAt) (g : Grown h h' count) :
    Effect h h' (.grow count) .done
  | shrink {count : Nat} (t : Turns h h' h.objectAt) : Effect h h' (.shrink count) .done
  | trim {count : Nat} (t : Turns h h' h.objectAt) : Effect h h' .trim (.count count)
  | sync (s : Saved h h') : Effect h h' .sync .done
  | names (same : h' = h) : Effect h h' .names (.names h.names.names)
  | usage {usage : Usage} (same : h' = h) (usage_eq : h.usage? = some usage) :
    Effect h h' .usage (.usage usage)
  | defects (same : h' = h) : Effect h h' .defects (.defects {})
  | freeRuns {runs : List (Nat × Nat)} (same : h' = h) (runs_eq : h.table.freeRuns? = some runs) :
    Effect h h' .freeRuns (.runs runs)

/-- What is left of a heap when an operation is refused. All objects are. -/
inductive Refusal (h h' : Heap) : Operation → Prop where
  | unchanged {op : Operation} (same : h' = h) : Refusal h h' op
  | allocateAligned {alignment size : Nat} (t : Turns h h' h.objectAt) :
    Refusal h h' (.allocateAligned alignment size)
  | allocatePageAligned {host : Host} {size : Nat} (t : Turns h h' h.objectAt) :
    Refusal h h' (.allocatePageAligned host size)
  | allocateAlignedNamed {name : String} {alignment size : Nat} (t : Turns h h' h.objectAt) :
    Refusal h h' (.allocateAlignedNamed name alignment size)
  | reallocate {handle size : Nat} {e : HeapError} (k : KeptOrLeaked h handle size e h') :
    Refusal h h' (.reallocate handle size)
  | sync (s : Saved h h') : Refusal h h' .sync

/-- The name cannot be registered, whatever it is to stand for. -/
def NameRefused (h : Heap) (name : String) (e : HeapError) : Prop :=
  ∀ offset, NameTable.register name offset h.names = .error (.refused e) h.names

/-- A request for an allocation on a boundary that there is no room for, or no such boundary. -/
def AlignmentRefused (alignment : Nat) (e : HeapError) : Prop :=
  e = .outOfMemory ∨ Size.isPowerOfTwo alignment = false ∧ e = .unsupported .alignment

/-- Bytes that do not all lie in one object: the offset is refused, or the end of the bytes. -/
def ExtentRefused (offset count : Nat) (e : HeapError) : Prop :=
  e = .invalidPointer offset ∨ e = .invalidPointer (Size.addCapped offset count)

/-- The allocation behind a handle is none. -/
def HandleRefused (h : Heap) (handle : Handle) (e : HeapError) : Prop :=
  h.objectAt (h.allocationOf handle) = none ∧ e = .invalidPointer (h.allocationOf handle)

/-! ## Objects that can be named -/

theorem Allocated.handle_lt {handle size : Nat} (a : Allocated h h' handle size) :
    handle < Size.limit := by
  obtain ⟨-, length, -, t⟩ := a
  have hobj : h'.objectAt handle = some length := by rw [t.objects_eq, replaced_self]
  have := t.wellFormed.object_in_region hobj
  have := t.wellFormed.small
  have := (t.wellFormed.object_bounds hobj).1
  omega

theorem AllocatedOn.handle_lt {alignment handle size : Nat}
    (a : AllocatedOn alignment h h' handle size) : handle < Size.limit := by
  obtain ⟨-, start, length, -, hle, hfit, t⟩ := a
  have hobj : h'.objectAt start = some length := by rw [t.objects_eq, replaced_self]
  have := t.wellFormed.object_in_region hobj
  have := t.wellFormed.small
  omega

/-- What naming an allocation takes. -/
structure Nameable (h h' : Heap) (handle : Nat) : Prop where
  names_eq : h'.names = h.names
  wellFormed : h'.WellFormed
  handle_lt : handle < Size.limit

theorem Allocated.nameable {handle size : Nat} (a : Allocated h h' handle size) :
    Nameable h h' handle := by
  have hlt := a.handle_lt
  obtain ⟨-, _, -, t⟩ := a
  exact ⟨t.names_eq, t.wellFormed, hlt⟩

theorem AllocatedOn.nameable {alignment handle size : Nat}
    (a : AllocatedOn alignment h h' handle size) : Nameable h h' handle := by
  have hlt := a.handle_lt
  obtain ⟨-, _, _, -, -, -, t⟩ := a
  exact ⟨t.names_eq, t.wellFormed, hlt⟩

/-- Naming an allocation adds a name to what the allocation does. -/
theorem allocateAs_renames (name : String) {roomy : Prop} {E : HeapError → Heap → Prop}
    {allocation : HeapM Handle} {Q : Handle → Heap → Prop} (w : h.WellFormed)
    (ha : Ends roomy allocation h Q E) (hunchanged : ∀ e, h.NameRefused name e → E e h)
    (hQ : ∀ handle h', Q handle h' → Nameable h h' handle) :
    Ends roomy (allocateAs name allocation) h (fun handle h' => ∃ h₁ names, Q handle h₁ ∧
      NameTable.register name handle h.names = .ok () names ∧ Renames h₁ h' names) E := by
  refine (allocateAs_ends w ha hunchanged fun handle h' hq => ?_).mono ?_ fun _ _ hE => hE
  · obtain ⟨hnames, w, hlt⟩ := hQ handle h' hq
    exact ⟨hnames, w, hlt⟩
  · rintro handle h' ⟨h₁, names, hq, hreg, hcap, heq, w⟩
    exact ⟨h₁, names, hq, hreg, heq, hcap.trans (by rw [(hQ handle h₁ hq).names_eq]), w⟩

/-- The walk over the block table ends. -/
theorem WellFormed.runs?_eq (w : h.WellFormed) : ∃ runs, h.table.runs? = some runs := by
  obtain ⟨layout, hl⟩ := w.laidOut
  obtain ⟨runs, hr, -⟩ := hl.toTiled.walk
  exact ⟨runs, hr⟩

end Heap

open Heap HeapM

variable {h h' : Heap}

/-! ## Operations -/

/-- The errors that an operation may be refused with. -/
def Operation.MayRefuse (h : Heap) (e : HeapError) : Operation → Prop
  | allocate _ | allocateZeroed _ _ | allocatePageAligned _ _ | grow _ => e = .outOfMemory
  | allocateAligned alignment _ => AlignmentRefused alignment e
  | reallocate handle _ =>
    e = .outOfMemory ∨ e = .invalidPointer handle ∨ e = .invalidPointer (h.allocationOf handle)
  | free handle => h.HandleRefused handle e
  | allocateNamed name _ | allocateZeroedNamed name _ _ => e = .outOfMemory ∨ h.NameRefused name e
  | allocateAlignedNamed name alignment _ => AlignmentRefused alignment e ∨ h.NameRefused name e
  | freeNamed name => h.names.find? name = none ∧ e = .notFound name ∨
    ∃ handle, h.names.find? name = some handle ∧ h.HandleRefused handle e
  | register name offset => e = .invalidPointer offset ∨
    NameTable.register name offset h.names = .error (.refused e) h.names
  | lookup name | unregister name => h.names.find? name = none ∧ e = .notFound name
  | resolve offset | usableFrom offset => e = .invalidPointer offset
  | read offset count | fill offset count _ => ExtentRefused offset count e
  | write offset data => ExtentRefused offset data.size e
  | shrink count => (∃ err, e = .region err) ∨ ∃ available,
    h.table.freeAtEnd? = some available ∧ available < count ∧ e = .shrinkBusy count available
  | trim | sync => ∃ err, e = .region err
  | names | usage | defects | freeRuns => False

/-- Whatever the operation, it has its effect or is refused. -/
theorem Operation.effects (w : h.WellFormed) (op : Operation) :
    Ends h.frame.Roomy op.run h (fun answer h' => Effect h h' op answer)
      fun e h' => Refusal h h' op ∧ op.MayRefuse h e := by
  cases op with
  | allocate size =>
    exact Ends.map' ((allocate_ends w size).mono (fun _ _ a => .allocate a)
      fun _ _ hE => ⟨.unchanged hE.1, hE.2⟩)
  | allocateZeroed count size =>
    exact Ends.map' ((allocateZeroed_ends w count size).mono
      (fun _ _ ⟨a, hz⟩ => .allocateZeroed a hz) fun _ _ hE => ⟨.unchanged hE.1, hE.2⟩)
  | allocateAligned alignment size =>
    refine Ends.map' ((allocateAligned_ends w alignment size).mono
      (fun _ _ a => .allocateAligned a) ?_)
    rintro e h' (refused | ⟨rfl, misaligned⟩)
    · exact ⟨.allocateAligned refused.kept, .inl refused.error_eq⟩
    · exact ⟨.unchanged rfl, .inr misaligned⟩
  | allocatePageAligned host size =>
    refine Ends.map' ((allocateAligned_ends w host.page size).mono
      (fun _ _ a => .allocatePageAligned a) ?_)
    rintro e h' (refused | ⟨-, hpage, -⟩)
    · exact ⟨.allocatePageAligned refused.kept, refused.error_eq⟩
    · rw [host.page_isPowerOfTwo] at hpage
      cases hpage
  | reallocate handle size =>
    exact Ends.map' ((reallocate_ends w handle size).mono
      (fun _ _ r => .reallocate r.1) fun _ _ hE => ⟨.reallocate hE.left, hE.cause⟩)
  | free handle =>
    exact Ends.map' ((free_ends w handle).mono (fun _ _ ⟨hlive, t⟩ => .free hlive t)
      fun _ _ ⟨hE, hnone⟩ => ⟨.unchanged hE.1, hnone, hE.2⟩)
  | allocateNamed name size =>
    have named := allocateAs_renames name w
      (E := fun e h' => h' = h ∧ (e = .outOfMemory ∨ h.NameRefused name e))
      ((allocate_ends w size).mono (fun _ _ a => a) fun _ _ hE => ⟨hE.1, .inl hE.2⟩)
      (fun _ hE => ⟨rfl, .inr hE⟩) fun _ _ a => a.nameable
    refine Ends.map' (named.mono ?_ fun _ _ hE => ⟨.unchanged hE.1, hE.2⟩)
    rintro handle h' ⟨h₁, names, a, hreg, r⟩
    exact .allocateNamed a hreg r
  | allocateZeroedNamed name count size =>
    have named := allocateAs_renames name w
      (E := fun e h' => h' = h ∧ (e = .outOfMemory ∨ h.NameRefused name e))
      ((allocateZeroed_ends w count size).mono (fun _ _ a => a) fun _ _ hE => ⟨hE.1, .inl hE.2⟩)
      (fun _ hE => ⟨rfl, .inr hE⟩) fun _ _ a => a.1.nameable
    refine Ends.map' (named.mono ?_ fun _ _ hE => ⟨.unchanged hE.1, hE.2⟩)
    rintro handle h' ⟨h₁, names, ⟨a, hz⟩, hreg, r⟩
    exact .allocateZeroedNamed a hz hreg r
  | allocateAlignedNamed name alignment size =>
    have aligned : Ends h.frame.Roomy (Heap.allocateAligned alignment size) h
        (fun handle h' => AllocatedOn alignment h h' handle size)
        fun e h' => Turns h h' h.objectAt ∧ (AlignmentRefused alignment e ∨ h.NameRefused name e) := by
      refine (allocateAligned_ends w alignment size).mono (fun _ _ a => a) ?_
      rintro e h' (refused | ⟨rfl, misaligned⟩)
      · exact ⟨refused.kept, .inl (.inl refused.error_eq)⟩
      · exact ⟨Turns.refl w, .inl (.inr misaligned)⟩
    refine Ends.map' ((allocateAs_renames name w aligned (fun _ hE => ⟨Turns.refl w, .inr hE⟩)
      fun _ _ a => a.nameable).mono ?_ fun _ _ hE => ⟨.allocateAlignedNamed hE.1, hE.2⟩)
    rintro handle h' ⟨h₁, names, a, hreg, r⟩
    exact .allocateAlignedNamed a hreg r
  | freeNamed name =>
    refine Ends.map' ((freeNamed_ends w name).mono ?_ fun _ _ hE => ⟨.unchanged hE.1, hE.2⟩)
    rintro - h' ⟨handle, h₁, names, hf, hlive, t, hun, hcap, heq, w'⟩
    exact .freeNamed hf hlive t hun ⟨heq, hcap.trans (congrArg _ t.names_eq.symm), w'⟩
  | register name offset =>
    refine Ends.map' ((register_ends w name offset).mono ?_ fun _ _ hE => ⟨.unchanged hE.1, hE.2⟩)
    rintro - h' ⟨names, hreg, hcap, heq, w'⟩
    exact .register hreg ⟨heq, hcap, w'⟩
  | lookup name =>
    exact Ends.map' ((lookup_ends w name).mono (fun _ _ ⟨hs, hf⟩ => .lookup hs hf)
      fun _ _ hE => ⟨.unchanged hE.1, hE.2⟩)
  | unregister name =>
    refine Ends.map' ((unregister_ends w name).mono ?_ fun e _ hE => ⟨.unchanged hE.1, ?_⟩)
    rotate_left
    · obtain ⟨-, hf, he⟩ := w.names.unregister_refused hE.2
      exact ⟨hf, Failure.refused.inj he⟩
    rintro offset h' ⟨names, hun, hcap, heq, w'⟩
    exact .unregister hun ⟨heq, hcap, w'⟩
  | resolve offset =>
    exact Ends.map' ((resolve_ends w offset).mono
      (fun _ _ ⟨hs, _, hobj, hle, hlt⟩ => .resolve hs hobj hle hlt)
      fun _ _ hE => ⟨.unchanged hE.1, hE.2⟩)
  | usableFrom offset =>
    exact Ends.map' ((usableFrom_ends w offset).mono
      (fun _ _ ⟨hs, _, hin⟩ => .usableFrom hs hin) fun _ _ hE => ⟨.unchanged hE.1, hE.2⟩)
  | read offset count =>
    exact Ends.map' ((read_ends w offset count).mono
      (fun _ _ ⟨hs, hsize, ⟨_, _, hin, hle⟩, hb⟩ => .read hs hsize hin hle hb)
      fun _ _ hE => ⟨.unchanged hE.1, hE.2⟩)
  | write offset data =>
    exact Ends.map' ((write_ends w offset data).mono
      (fun _ _ ⟨_, _, hin, hle, wr, hb⟩ => .write hin hle wr hb)
      fun _ _ hE => ⟨.unchanged hE.1, hE.2⟩)
  | fill offset count byte =>
    refine Ends.map' ?_
    rw [fill_eq]
    refine (write_ends w offset _).mono ?_ fun _ _ hE => ⟨.unchanged hE.1, ?_⟩
    · rintro - h' ⟨start, usable, hin, hle, wr, hb⟩
      rw [Bytes.size_repeated] at hle hb
      refine .fill hin hle wr fun i => (hb i).trans (ite_congr rfl (fun hi => ?_) fun _ => rfl)
      rw [Bytes.byte_repeated, if_pos (by omega)]
    · have := hE.2
      rwa [Bytes.size_repeated] at this
  | grow count =>
    exact Ends.map' ((grow_ends w count).mono (fun _ _ ⟨t, g, _⟩ => .grow t g)
      fun _ _ hE => ⟨.unchanged hE.1, hE.2⟩)
  | shrink count =>
    refine Ends.map' ((shrink_ends w count).mono (fun _ _ t => .shrink t.1) ?_)
    rintro e h' (⟨same, _, err, -, -, he⟩ | ⟨same, busy⟩)
    · exact ⟨.unchanged same, .inl ⟨err, he⟩⟩
    · exact ⟨.unchanged same, .inr busy⟩
  | trim =>
    exact Ends.map' ((trim_ends w).mono (fun _ _ t => .trim t.1)
      fun _ _ ⟨same, _, err, _, _, he⟩ => ⟨.unchanged same, err, he⟩)
  | sync =>
    exact Ends.map' ((sync_ends w).mono (fun _ _ s => .sync s)
      fun _ _ ⟨s, err, _, he⟩ => ⟨.sync s, err, he⟩)
  | names => exact Ends.bind' (Ends.get' (Ends.pure' (.names rfl)))
  | usage =>
    obtain ⟨runs, u, -, hu, -⟩ := w.tallied
    exact Ends.bind' (Ends.get' (Ends.bind' (Ends.orTrap' hu (Ends.pure' (.usage rfl hu)))))
  | defects =>
    exact Ends.bind' (Ends.get' (Ends.bind' (Ends.orTrap' w.defects?_eq_none
      (Ends.pure' (.defects rfl)))))
  | freeRuns =>
    obtain ⟨runs, hr⟩ := w.runs?_eq
    obtain ⟨runs, hf⟩ : ∃ runs, h.table.freeRuns? = some runs := by
      rw [BlockTable.freeRuns?, hr]
      exact ⟨_, rfl⟩
    exact Ends.bind' (Ends.get' (Ends.bind' (Ends.orTrap' hf (Ends.pure' (.freeRuns rfl hf)))))

end RegionHeap
