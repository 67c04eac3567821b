import RegionHeap.Failure
import Std.Data.ExtTreeMap

/-!
Named objects: a bounded table of slots, each empty or with a name and the offset it stands for, and
an index that leads from a name to its slot. A slot that was emptied is used again before the table
grows, the last one emptied first.
-/
namespace RegionHeap

structure NamedObject where
  name : String
  offset : Nat
  deriving DecidableEq, Repr

structure NameTable where
  slots : Array (Option NamedObject) := #[]
  /-- Empty slots to be used again, the next one first. -/
  vacant : List Nat := []
  /-- The slot of each name. -/
  index : Std.ExtTreeMap String Nat := ∅
  capacity : Nat

/-- An operation on a table of names. A failed operation keeps the table that it leaves behind. -/
abbrev NamesM := EStateM Failure NameTable

namespace NameTable

/-- Bytes of the longest name. -/
def longestName : Nat := 54

def empty (capacity : Nat) : NameTable := { capacity }

/-- The names in use, in the order of their slots. -/
def names (t : NameTable) : List String :=
  t.slots.toList.filterMap fun slot => slot.map NamedObject.name

/-- Names in use. -/
def size (t : NameTable) : Nat := t.index.size

def contains (t : NameTable) (name : String) : Bool := t.index.contains name

def hasVacancy (t : NameTable) : Bool := !t.vacant.isEmpty || t.slots.size < t.capacity

/-! ## Rebuilding -/

/-- Adds slot `i` to the vacant slots or to the index; `none` if its name is indexed already. -/
def indexSlot? (entry : Option NamedObject × Nat) (t : NameTable) : Option NameTable :=
  match entry with
  | (none, i) => some { t with vacant := i :: t.vacant }
  | (some object, i) =>
    if t.contains object.name then none
    else some { t with index := t.index.insert object.name i }

/-- Rebuilds a table from its slots, the last one first; `none` if a name stands in two of them. The
lowest empty slot is the next to be used. -/
def ofSlots? (capacity : Nat) (slots : Array (Option NamedObject)) : Option NameTable :=
  slots.toList.zipIdx.foldrM indexSlot? { slots, capacity }

/-! ## Slots -/

/-- Claims an empty slot. -/
def claimSlot : NamesM Nat := do
  let t ← get
  match t.vacant with
  | slot :: rest =>
    set { t with vacant := rest }
    pure slot
  | [] =>
    if t.slots.size < t.capacity then
      set { t with slots := t.slots.push none }
      pure t.slots.size
    else throw (.refused (.namesFull t.capacity))

/-- Puts an object into a slot, or nothing, and answers what was there. -/
def replaceSlot (slot : Nat) (object : Option NamedObject) : NamesM (Option NamedObject) := do
  let t ← get
  match t.slots[slot]? with
  | some was =>
    set { t with slots := t.slots.setIfInBounds slot object }
    pure was
  | none => throw .trap

/-! ## Names -/

/-- Names are not empty and not longer than a slot holds. -/
def acceptName (name : String) : Except HeapError Unit :=
  if name.isEmpty then .error (.unsupported .emptyName)
  else if longestName < name.utf8ByteSize then .error (.unsupported .longName)
  else .ok ()

def register (name : String) (offset : Nat) : NamesM Unit := do
  match acceptName name with
  | .error e => throw (.refused e)
  | .ok () =>
    if (← get).contains name then throw (.refused (.nameExists name))
    else
      let slot ← claimSlot
      discard (replaceSlot slot (some ⟨name, offset⟩))
      modify fun t => { t with index := t.index.insert name slot }

/-- What a name stands for. -/
def lookup (name : String) : NamesM Nat := do
  let t ← get
  match t.index[name]? with
  | none => throw (.refused (.notFound name))
  | some slot =>
    match t.slots[slot]? with
    | none => throw .trap
    | some none => throw (.refused (.notFound name))
    | some (some object) => pure object.offset

/-- Forgets a name and answers the offset it stood for. -/
def unregister (name : String) : NamesM Nat := do
  let t ← get
  match t.index[name]? with
  | none => throw (.refused (.notFound name))
  | some slot =>
    set { t with index := t.index.erase name }
    match ← replaceSlot slot none with
    | none => throw (.refused (.corrupt .emptyNameSlot))
    | some object =>
      modify fun t => { t with vacant := slot :: t.vacant }
      pure object.offset

end NameTable

end RegionHeap
