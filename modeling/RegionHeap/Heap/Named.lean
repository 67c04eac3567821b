import RegionHeap.Heap.Aligned

/-!
Named objects of a heap. A named object is found again by its name after the heap was saved and
loaded.
-/
namespace RegionHeap.Heap

open HeapM

/-- Names a live object. -/
def register (name : String) (offset : Nat) : HeapM Unit := do
  discard (resolve offset)
  onNames (NameTable.register name offset)

def lookup (name : String) : HeapM Handle := onNames (NameTable.lookup name)

/-- Forgets a name and answers its object, which stays allocated. -/
def unregister (name : String) : HeapM Handle := onNames (NameTable.unregister name)

/-- Names what `allocation` answers. Nothing is allocated unless the name can be registered. -/
def allocateAs (name : String) (allocation : HeapM Handle) : HeapM Handle := do
  let h ← get
  ofExcept (NameTable.acceptName name)
  if h.names.contains name then refuse (.nameExists name)
  else if !h.names.hasVacancy then refuse (.namesFull h.names.capacity)
  else
    let handle ← allocation
    onNames (NameTable.register name handle)
    pure handle

def allocateNamed (name : String) (size : Nat) : HeapM Handle :=
  allocateAs name (allocate size)

def allocateZeroedNamed (name : String) (count size : Nat) : HeapM Handle :=
  allocateAs name (allocateZeroed count size)

def allocateAlignedNamed (name : String) (alignment size : Nat) : HeapM Handle :=
  allocateAs name (allocateAligned alignment size)

/-- Frees a named object and forgets its name. -/
def freeNamed (name : String) : HeapM Unit := do
  free (← lookup name)
  discard (unregister name)

end RegionHeap.Heap
