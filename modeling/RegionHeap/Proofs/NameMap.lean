import Mathlib.Data.Finmap
import RegionHeap.Proofs.Renumbering

/-!
A table of names is a bounded map from names to offsets. `NameMap` is that map with what a request
for a name does to it, `toMap` the map that a table stands for. A table that started empty or from
given slots answers every request as its map does (`Kept.serveAll`). How it uses its slots makes no
difference to the answers, but no slot is lost: a slot is added only when none is empty, a name stays
in its slot, and the slots alone are enough to make the table again (`bounded_map`).
-/
namespace RegionHeap

/-- What is asked of a table of names. -/
inductive NameRequest where
  | register (name : String) (offset : Nat)
  | lookup (name : String)
  | unregister (name : String)
  deriving DecidableEq, Repr

namespace NameRequest

/-- The offset that a request is answered, if it asks for one, or how it fails. -/
abbrev Answer : Type := Except Failure (Option Nat)

/-- The answers to some requests one after another, and what is there after them. -/
def serveAll {σ : Type} (serve : σ → NameRequest → Answer × σ) (s : σ) :
    List NameRequest → List Answer × σ
  | [] => ([], s)
  | request :: rest =>
    let (answer, s) := serve s request
    let (answers, s) := serveAll serve s rest
    (answer :: answers, s)

end NameRequest

/-- A map from names to offsets that holds no more names than its capacity. -/
structure NameMap where
  offsets : Finmap fun _ : String => Nat
  capacity : Nat

namespace NameMap

variable (m : NameMap)

def register (name : String) (offset : Nat) : Except HeapError NameMap :=
  if name = "" then .error (.unsupported .emptyName)
  else if 54 < name.utf8ByteSize then .error (.unsupported .longName)
  else if name ∈ m.offsets then .error (.nameExists name)
  else if m.offsets.keys.card = m.capacity then .error (.namesFull m.capacity)
  else .ok { m with offsets := m.offsets.insert name offset }

def lookup (name : String) : Except HeapError Nat :=
  match m.offsets.lookup name with
  | some offset => .ok offset
  | none => .error (.notFound name)

def unregister (name : String) : Except HeapError (Nat × NameMap) :=
  match m.offsets.lookup name with
  | some offset => .ok (offset, { m with offsets := m.offsets.erase name })
  | none => .error (.notFound name)

/-- What a request is answered, and the map after it: a refused one changes nothing. -/
def settle : Except HeapError (Option Nat × NameMap) → NameRequest.Answer × NameMap
  | .ok (offset, after) => (.ok offset, after)
  | .error e => (.error (.refused e), m)

def serve : NameRequest → NameRequest.Answer × NameMap
  | .register name offset => m.settle ((m.register name offset).map fun m => (none, m))
  | .lookup name => m.settle ((m.lookup name).map fun offset => (some offset, m))
  | .unregister name => m.settle ((m.unregister name).map fun (offset, m) => (some offset, m))

end NameMap

namespace NameTable

variable {t t' : NameTable} {name : String} {offset slot : Nat}

def request : NameRequest → NamesM (Option Nat)
  | .register name offset => do register name offset; pure none
  | .lookup name => do pure (some (← lookup name))
  | .unregister name => do pure (some (← unregister name))

/-- What a request is answered, and the table that it leaves behind. -/
def serve (t : NameTable) (r : NameRequest) : NameRequest.Answer × NameTable :=
  match request r t with
  | .ok offset t => (.ok offset, t)
  | .error e t => (.error e, t)

/-- The map that a table stands for. -/
def toMap (t : NameTable) : NameMap where
  offsets := List.toFinmap (t.slots.toList.filterMap fun slot =>
    slot.map fun o => Sigma.mk o.name o.offset)
  capacity := t.capacity

/-- Slots and index agree, and just the empty slots are to be used again. -/
structure Kept (t : NameTable) : Prop extends t.Tidy where
  empty_vacant : ∀ i : Nat, t.slots[i]? = some none → i ∈ t.vacant

/-- A table that lists what a map holds: a name stands in one slot, with its offset, and is listed
and counted once. The index leads to the slot of each name, and each empty slot is once among those to
be used again. -/
structure Lists (t : NameTable) (m : NameMap) : Prop where
  capacity_eq : t.capacity = m.capacity
  lookup_iff : ∀ name offset, m.offsets.lookup name = some offset ↔
    ∃ i : Nat, t.slots[i]? = some (some ⟨name, offset⟩)
  distinct : ∀ (i j : Nat) (o o' : NamedObject), t.slots[i]? = some (some o) →
    t.slots[j]? = some (some o') → o.name = o'.name → i = j
  index_iff : ∀ (name : String) (i : Nat),
    t.index[name]? = some i ↔ ∃ offset, t.slots[i]? = some (some ⟨name, offset⟩)
  vacant_iff : ∀ i : Nat, i ∈ t.vacant ↔ t.slots[i]? = some none
  vacant_nodup : t.vacant.Nodup
  nodup : t.names.Nodup
  mem_names : ∀ name, name ∈ t.names ↔ name ∈ m.offsets
  size_eq : t.size = m.offsets.keys.card
  size_le : t.size ≤ t.capacity

/-- A table as it is when it is made: empty, or of given slots. -/
inductive Fresh (capacity : Nat) : NameTable → Prop
  | empty : Fresh capacity (empty capacity)
  | slots {slots : Array (Option NamedObject)} {t : NameTable} (fits : slots.size ≤ capacity)
      (made : ofSlots? capacity slots = some t) : Fresh capacity t

/-! ## The map of a table -/

theorem Tidy.lookup_toMap (s : t.Tidy) (name : String) :
    t.toMap.offsets.lookup name = t.find? name := by
  have hnd : (t.slots.toList.filterMap fun slot =>
      slot.map fun o => Sigma.mk (β := fun _ : String => Nat) o.name o.offset).NodupKeys := by
    rw [List.NodupKeys, List.keys, List.map_filterMap]
    simpa [names, Function.comp_def] using s.nodup
  refine Option.ext fun offset => ?_
  show (Finmap.lookup name (List.toFinmap _)) = _ ↔ _
  rw [s.find?_eq_some_iff, Finmap.dlookup_list_toFinmap, ← Option.mem_def, List.mem_dlookup_iff hnd,
    List.mem_filterMap]
  constructor
  · rintro ⟨slot, hmem, hslot⟩
    obtain ⟨o, rfl, ho⟩ := Option.map_eq_some_iff.1 hslot
    cases ho
    obtain ⟨i, hi⟩ := List.mem_iff_getElem?.1 hmem
    exact ⟨i, by rw [← Array.getElem?_toList]; exact hi⟩
  · rintro ⟨i, hi⟩
    rw [← Array.getElem?_toList] at hi
    exact ⟨_, List.mem_of_getElem? hi, rfl⟩

/-- A name that stands for an offset is in use. -/
theorem Tidy.mem_names_iff (s : t.Tidy) : name ∈ t.names ↔ ∃ offset, t.find? name = some offset := by
  simp only [s.find?_eq_some_iff]
  rw [names, List.mem_filterMap]
  constructor
  · rintro ⟨slot, hmem, hslot⟩
    obtain ⟨o, rfl, rfl⟩ := Option.map_eq_some_iff.1 hslot
    obtain ⟨i, hi⟩ := List.mem_iff_getElem?.1 hmem
    exact ⟨o.offset, i, by rw [← Array.getElem?_toList]; exact hi⟩
  · rintro ⟨offset, i, hi⟩
    rw [← Array.getElem?_toList] at hi
    exact ⟨_, List.mem_of_getElem? hi, rfl⟩

theorem Tidy.mem_toMap (s : t.Tidy) : name ∈ t.toMap.offsets ↔ name ∈ t.names := by
  rw [← Finmap.lookup_isSome, s.lookup_toMap, s.mem_names_iff, Option.isSome_iff_exists]

theorem Tidy.contains_iff (s : t.Tidy) : t.contains name = true ↔ name ∈ t.toMap.offsets := by
  rw [← not_iff_not, Bool.not_eq_true, contains_eq_false_iff, s.index_eq_none_iff, s.mem_toMap,
    s.mem_names_iff, not_exists, Option.eq_none_iff_forall_ne_some]

theorem toMap_eq {m : NameMap} (s : t.Tidy) (hc : t.capacity = m.capacity)
    (hl : ∀ name, t.find? name = m.offsets.lookup name) : t.toMap = m := by
  have : t.toMap.offsets = m.offsets := Finmap.ext_lookup fun name => by rw [s.lookup_toMap, hl]
  cases m
  exact congr (congrArg NameMap.mk this) hc

theorem Tidy.card_toMap (s : t.Tidy) : t.toMap.offsets.keys.card = t.size := by
  have hkeys : t.toMap.offsets.keys = t.names.toFinset := by
    ext name
    rw [Finmap.mem_keys, s.mem_toMap, List.mem_toFinset]
  rw [hkeys, List.toFinset_card_of_nodup s.nodup, s.size_eq s.nodup]

/-! ## No slot is lost -/

/-- A slot has a name or is to be used again. -/
theorem Kept.size_add (k : t.Kept) : t.size + t.vacant.length = t.slots.size := by
  have hvacant : t.vacant.Perm (numbered t.capacity t.slots).vacant := by
    refine (List.perm_ext_iff_of_nodup k.vacant_nodup nodup_vacant_numbered).2 fun i => ?_
    rw [mem_vacant_numbered]
    exact ⟨k.vacant_empty i, k.empty_vacant i⟩
  have hempty : t.vacant.length = t.slots.toList.countP Option.isNone := by
    rw [hvacant.length_eq, length_vacant_numbered]
  have hnamed : t.size = t.slots.toList.countP Option.isSome := by
    rw [k.size_eq k.nodup, names, List.length_filterMap_eq_countP]
    simp
  have hnone (slot : Option NamedObject) : decide (¬slot.isSome = true) = slot.isNone := by
    cases slot <;> rfl
  rw [hnamed, hempty, ← Array.length_toList, List.length_eq_countP_add_countP Option.isSome]
  simp only [hnone]

theorem Kept.size_le (k : t.Kept) : t.size ≤ t.capacity := by
  have := k.size_add
  have := k.slots_le
  omega

/-- There is room for one more name as long as there are fewer than there may be. -/
theorem Kept.hasVacancy_iff (k : t.Kept) : t.hasVacancy = true ↔ t.size ≠ t.capacity := by
  have hadd := k.size_add
  have hle := k.slots_le
  rw [hasVacancy]
  cases hv : t.vacant with
  | nil =>
    rw [hv, List.length_nil] at hadd
    simp only [List.isEmpty_nil, Bool.not_true, Bool.false_or, decide_eq_true_eq]
    omega
  | cons slot rest =>
    rw [hv, List.length_cons] at hadd
    simp only [List.isEmpty_cons, Bool.not_false, Bool.true_or, true_iff]
    omega

/-- Only a slot that is claimed ceases to be one to be used again, and a slot is added only when
there is none. -/
theorem Kept.claimSlot_ok (k : t.Kept) (h : claimSlot t = .ok slot t') :
    (∀ i : Nat, t'.slots[i]? = some none → i = slot ∨ i ∈ t'.vacant) ∧
      (t'.slots.size = t.slots.size ∨
        t'.slots.size = t.slots.size + 1 ∧ ∀ i : Nat, t.slots[i]? ≠ some none) := by
  rw [claimSlot_eq] at h
  split at h
  · rename_i first rest hvac
    cases h
    refine ⟨fun i hi => ?_, .inl rfl⟩
    have := k.empty_vacant i hi
    rw [hvac] at this
    exact List.mem_cons.1 this
  · rename_i hvac
    have hnone (i : Nat) (hi : t.slots[i]? = some none) : False := by
      have := k.empty_vacant i hi
      rw [hvac] at this
      cases this
    split at h
    · cases h
      refine ⟨fun i hi => .inl ?_, .inr ⟨Array.size_push _, hnone⟩⟩
      rw [Array.getElem?_push] at hi
      split at hi
      · assumption
      · exact (hnone i hi).elim
    · cases h

theorem Kept.register (k : t.Kept) (h : register name offset t = .ok () t') :
    t'.Kept ∧ (t'.slots.size = t.slots.size ∨
      t'.slots.size = t.slots.size + 1 ∧ ∀ i : Nat, t.slots[i]? ≠ some none) := by
  obtain ⟨tidy, -⟩ := k.register_tidy h
  obtain ⟨slot, t₁, -, -, hs, rfl⟩ := k.register_ok h
  obtain ⟨hempty, hsize⟩ := k.claimSlot_ok hs
  refine ⟨⟨tidy, fun i hi => ?_⟩, ?_⟩
  · rw [Array.getElem?_setIfInBounds] at hi
    split at hi
    · split at hi <;> cases hi
    · rename_i hne
      exact (hempty i hi).resolve_left (Ne.symm hne)
  · rw [Array.size_setIfInBounds]
    exact hsize

theorem Kept.unregister (k : t.Kept) (h : unregister name t = .ok offset t') :
    t'.Kept ∧ t'.slots.size = t.slots.size := by
  obtain ⟨tidy, -⟩ := k.unregister_tidy h
  obtain ⟨slot, hslot, rfl, -⟩ := k.unregister_slots h
  refine ⟨⟨tidy, fun i hi => ?_⟩, Array.size_setIfInBounds ..⟩
  rw [Array.getElem?_setIfInBounds] at hi
  split at hi
  · rename_i heq
    exact heq ▸ List.mem_cons_self
  · exact List.mem_cons_of_mem _ (k.empty_vacant i hi)

/-! ## The answers of a table are those of its map -/

theorem request_register (t : NameTable) (name : String) (offset : Nat) :
    request (.register name offset) t =
      match register name offset t with
      | .ok () t => .ok none t
      | .error e t => .error e t := by
  simp only [request, bind, EStateM.bind]
  cases register name offset t <;> rfl

theorem request_lookup (t : NameTable) (name : String) :
    request (.lookup name) t =
      match lookup name t with
      | .ok offset t => .ok (some offset) t
      | .error e t => .error e t := by
  simp only [request, bind, EStateM.bind]
  cases lookup name t <;> rfl

theorem request_unregister (t : NameTable) (name : String) :
    request (.unregister name) t =
      match unregister name t with
      | .ok offset t => .ok (some offset) t
      | .error e t => .error e t := by
  simp only [request, bind, EStateM.bind]
  cases unregister name t <;> rfl

/-- A name is registered just if the map takes it, and refused for the same reason. -/
theorem Kept.serve_register (k : t.Kept) (name : String) (offset : Nat) :
    NameMap.serve t.toMap (.register name offset) =
      Prod.map id toMap (t.serve (.register name offset)) := by
  rw [NameMap.serve, NameMap.register, serve, request_register]
  by_cases hempty : name = ""
  · subst hempty
    rw [if_pos rfl]
    rfl
  have hname : name.isEmpty = false := by simpa using hempty
  rw [if_neg hempty]
  by_cases hlong : 54 < name.utf8ByteSize
  · have hreject : acceptName name = .error (.unsupported .longName) := by
      rw [acceptName, hname, longestName, if_pos hlong]
      rfl
    rw [if_pos hlong, register_eq, hreject]
    rfl
  have haccept : acceptName name = .ok () := by
    rw [acceptName, hname, longestName, if_neg hlong]
    rfl
  rw [if_neg hlong]
  by_cases hin : name ∈ t.toMap.offsets
  · rw [if_pos hin, register_eq, haccept, k.contains_iff.2 hin]
    rfl
  have hnew : t.contains name = false := by
    rw [← Bool.not_eq_true, k.contains_iff]
    exact hin
  rw [if_neg hin, k.card_toMap, show t.toMap.capacity = t.capacity from rfl]
  by_cases hfull : t.size = t.capacity
  · have hv : t.hasVacancy = false := by
      rw [← Bool.not_eq_true, k.hasVacancy_iff, not_not]
      exact hfull
    rw [if_pos hfull, register_eq, haccept, hnew, claimSlot_of_full hv]
    rfl
  · obtain ⟨slot, t₁, -, h⟩ := k.register_of_vacancy haccept hnew (k.hasVacancy_iff.2 hfull) offset
    rw [if_neg hfull, h]
    obtain ⟨tidy, hcap⟩ := k.register_tidy h
    refine congrArg (Prod.mk _) (toMap_eq tidy hcap fun other => ?_).symm
    rw [k.find?_after_register h]
    by_cases hn : other = name
    · subst hn
      rw [if_pos rfl, Finmap.lookup_insert]
    · rw [if_neg hn, Finmap.lookup_insert_of_ne _ hn, k.lookup_toMap]

theorem Kept.serve_lookup (k : t.Kept) (name : String) :
    NameMap.serve t.toMap (.lookup name) = Prod.map id toMap (t.serve (.lookup name)) := by
  rw [NameMap.serve, NameMap.lookup, k.lookup_toMap, serve, request_lookup]
  cases hf : t.find? name with
  | none =>
    rw [k.lookup_of_find?_eq_none hf]
    rfl
  | some offset =>
    rw [lookup_of_find? hf]
    rfl

theorem Kept.serve_unregister (k : t.Kept) (name : String) :
    NameMap.serve t.toMap (.unregister name) = Prod.map id toMap (t.serve (.unregister name)) := by
  rw [NameMap.serve, NameMap.unregister, k.lookup_toMap, serve, request_unregister]
  cases hf : t.find? name with
  | none =>
    rw [k.unregister_of_find?_eq_none hf]
    rfl
  | some offset =>
    obtain ⟨t', h⟩ := unregister_of_find? hf
    rw [h]
    obtain ⟨tidy, hcap⟩ := k.unregister_tidy h
    refine congrArg (Prod.mk _) (toMap_eq tidy hcap fun other => ?_).symm
    rw [k.find?_after_unregister h]
    by_cases hn : other = name
    · subst hn
      rw [if_pos rfl, Finmap.lookup_erase]
    · rw [if_neg hn, Finmap.lookup_erase_ne hn, k.lookup_toMap]

/-- A table answers a request as its map does, and stands for what the map is then. -/
theorem Kept.serve_toMap (k : t.Kept) (request : NameRequest) :
    NameMap.serve t.toMap request = Prod.map id toMap (t.serve request) := by
  cases request with
  | register name offset => exact k.serve_register name offset
  | lookup name => exact k.serve_lookup name
  | unregister name => exact k.serve_unregister name

/-- What one request does to the slots. -/
structure Follows (t : NameTable) (request : NameRequest) (t' : NameTable) : Prop where
  kept : t'.Kept
  capacity_eq : t'.capacity = t.capacity
  appended : t'.slots.size = t.slots.size ∨
    t'.slots.size = t.slots.size + 1 ∧ ∀ i : Nat, t.slots[i]? ≠ some none
  stays : ∀ (i : Nat) (o : NamedObject), t.slots[i]? = some (some o) →
    request ≠ .unregister o.name → t'.slots[i]? = some (some o)

theorem Kept.same (k : t.Kept) (request : NameRequest) : Follows t request t :=
  ⟨k, rfl, .inl rfl, fun _ _ h _ => h⟩

theorem Kept.serve (k : t.Kept) (request : NameRequest) : Follows t request (t.serve request).2 := by
  cases request with
  | register name offset =>
    rw [NameTable.serve, request_register]
    cases h : NameTable.register name offset t with
    | error e t' =>
      obtain ⟨rfl, -⟩ := k.register_refused h
      exact k.same _
    | ok u t' =>
      obtain ⟨k', hsize⟩ := k.register h
      obtain ⟨slot, -, -, entry⟩ := k.register_slots h
      exact ⟨k', (k.register_tidy h).2, hsize, fun i o hi _ => (entry i o).2 (.inr hi)⟩
  | lookup name =>
    rw [NameTable.serve, request_lookup]
    cases hf : t.find? name with
    | none =>
      rw [k.lookup_of_find?_eq_none hf]
      exact k.same _
    | some offset =>
      rw [lookup_of_find? hf]
      exact k.same _
  | unregister name =>
    rw [NameTable.serve, request_unregister]
    cases h : NameTable.unregister name t with
    | error e t' =>
      obtain ⟨rfl, -⟩ := k.unregister_refused h
      exact k.same _
    | ok offset t' =>
      obtain ⟨k', hsize⟩ := k.unregister h
      obtain ⟨slot, hslot, -, entry⟩ := k.unregister_slots h
      refine ⟨k', (k.unregister_tidy h).2, .inl hsize, fun i o hi hne => ?_⟩
      refine (entry i o).2 ⟨?_, hi⟩
      rintro rfl
      rw [hslot] at hi
      cases hi
      exact hne rfl

/-- A request that is refused leaves everything as it was. -/
theorem Kept.serve_refused {e : Failure} (k : t.Kept) {request : NameRequest}
    (h : (t.serve request).1 = .error e) : (t.serve request).2 = t := by
  cases request with
  | register name offset =>
    rw [NameTable.serve, request_register] at h ⊢
    cases hr : NameTable.register name offset t with
    | error e' t' => exact (k.register_refused hr).1
    | ok u t' =>
      rw [hr] at h
      cases h
  | lookup name =>
    cases hf : t.find? name with
    | none => rw [NameTable.serve, request_lookup, k.lookup_of_find?_eq_none hf]
    | some offset => rw [NameTable.serve, request_lookup, lookup_of_find? hf]
  | unregister name =>
    rw [NameTable.serve, request_unregister] at h ⊢
    cases hr : NameTable.unregister name t with
    | error e' t' => exact (k.unregister_refused hr).1
    | ok offset t' =>
      rw [hr] at h
      cases h

/-- A table answers any requests as its map does; the slots follow as each request has them. -/
theorem Kept.serveAll (k : t.Kept) (requests : List NameRequest) :
    let (answers, t') := NameRequest.serveAll NameTable.serve t requests
    NameRequest.serveAll NameMap.serve t.toMap requests = (answers, t'.toMap) ∧
      t'.Kept ∧ t'.capacity = t.capacity ∧
      ∀ (i : Nat) (o : NamedObject), t.slots[i]? = some (some o) →
        .unregister o.name ∉ requests → t'.slots[i]? = some (some o) := by
  induction requests generalizing t with
  | nil => exact ⟨rfl, k, rfl, fun _ _ hi _ => hi⟩
  | cons request rest ih =>
    have first := k.serve request
    obtain ⟨hmap, hkept, hcap, hstays⟩ := ih first.kept
    refine ⟨?_, hkept, hcap.trans first.capacity_eq, fun i o hi hnot => ?_⟩
    · rw [NameRequest.serveAll, k.serve_toMap]
      simp only [Prod.map, id]
      rw [hmap]
      rfl
    · rw [List.mem_cons, not_or] at hnot
      exact hstays i o (first.stays i o hi (Ne.symm hnot.1)) hnot.2

theorem Kept.lists (k : t.Kept) : t.Lists t.toMap where
  capacity_eq := rfl
  lookup_iff name offset := by rw [k.lookup_toMap, k.find?_eq_some_iff]
  distinct := k.distinct
  index_iff := k.index_iff
  vacant_iff i := ⟨k.vacant_empty i, k.empty_vacant i⟩
  vacant_nodup := k.vacant_nodup
  nodup := k.nodup
  mem_names name := k.mem_toMap.symm
  size_eq := k.card_toMap.symm
  size_le := k.size_le

/-! ## Tables that were just made -/

theorem ofSlots?_eq_none_iff {capacity : Nat} {slots : Array (Option NamedObject)} :
    ofSlots? capacity slots = none ↔ ∃ (i j : Nat) (o o' : NamedObject), i ≠ j ∧
      slots[i]? = some (some o) ∧ slots[j]? = some (some o') ∧ o.name = o'.name := by
  have hnodup := nodup_names_iff (t := numbered capacity slots)
  rw [slots_numbered] at hnodup
  constructor
  · intro h
    have hnot : ¬(numbered capacity slots).names.Nodup := fun hnd => by
      rw [ofSlots?_eq_some_iff.2 ⟨rfl, hnd⟩] at h
      cases h
    rw [hnodup] at hnot
    push Not at hnot
    obtain ⟨i, j, o, o', hi, hj, hn, hne⟩ := hnot
    exact ⟨i, j, o, o', hne, hi, hj, hn⟩
  · intro h
    obtain ⟨i, j, o, o', hne, hi, hj, hn⟩ := h
    refine Option.eq_none_iff_forall_ne_some.2 fun t ht => ?_
    obtain ⟨rfl, hnd⟩ := ofSlots?_eq_some_iff.1 ht
    exact hne (hnodup.1 hnd i j o o' hi hj hn)

theorem kept_numbered {capacity : Nat} {slots : Array (Option NamedObject)}
    (fits : slots.size ≤ capacity) (hnd : (numbered capacity slots).names.Nodup) :
    (numbered capacity slots).Kept where
  toTidy := tidy_numbered fits hnd
  empty_vacant i hi := by
    rw [slots_numbered] at hi
    exact mem_vacant_numbered.2 hi

theorem Fresh.kept {capacity : Nat} (f : Fresh capacity t) : t.Kept ∧ t.capacity = capacity := by
  cases f with
  | empty =>
    exact ⟨⟨(empty_sound capacity).toTidy, fun i hi => by simp [NameTable.empty] at hi⟩, rfl⟩
  | slots fits made =>
    obtain ⟨rfl, hnd⟩ := ofSlots?_eq_some_iff.1 made
    exact ⟨kept_numbered fits hnd, capacity_numbered⟩

/-- The slots are enough to make a table again that stands for the same map. -/
theorem Kept.exists_rebuilt (k : t.Kept) : ∃ t', ofSlots? t.capacity t.slots = some t' ∧
    t'.slots = t.slots ∧ t'.capacity = t.capacity ∧ t'.toMap = t.toMap := by
  have hslots : (numbered t.capacity t.slots).slots = t.slots := slots_numbered
  have hcap : (numbered t.capacity t.slots).capacity = t.capacity := capacity_numbered
  refine ⟨_, ofSlots?_eq_some_iff.2 ⟨rfl, ?_⟩, hslots, hcap, ?_⟩
  · rw [names, hslots]
    exact k.nodup
  · rw [toMap, toMap, hslots, hcap]

/-- A table of names is a bounded map. Slots make a table unless a name stands in two of them; a
table that starts empty or from slots answers any requests as the map it stands for, a slot is added
only when none is empty, a name stays in its slot until it is forgotten, and at any time the slots
make a table that answers on in the same way. -/
theorem bounded_map :
    (∀ capacity slots, ofSlots? capacity slots = none ↔
      ∃ (i j : Nat) (o o' : NamedObject), i ≠ j ∧ slots[i]? = some (some o) ∧
        slots[j]? = some (some o') ∧ o.name = o'.name) ∧
    (∀ capacity slots start, ofSlots? capacity slots = some start →
      start.slots = slots ∧ start.capacity = capacity) ∧
    (∀ capacity, (empty capacity).toMap = ⟨∅, capacity⟩) ∧
    ∀ {capacity start}, Fresh capacity start → start.Lists start.toMap ∧
      ∀ requests answers t, NameRequest.serveAll serve start requests = (answers, t) →
        NameRequest.serveAll NameMap.serve start.toMap requests = (answers, t.toMap) ∧
        t.capacity = capacity ∧ t.Lists t.toMap ∧
        (∀ request e, (t.serve request).1 = .error e → (t.serve request).2 = t) ∧
        (∀ request, (t.serve request).2.slots.size = t.slots.size ∨
          (t.serve request).2.slots.size = t.slots.size + 1 ∧
            ∀ i : Nat, t.slots[i]? ≠ some none) ∧
        (∀ (i : Nat) (o : NamedObject) (later : List NameRequest), t.slots[i]? = some (some o) →
          .unregister o.name ∉ later →
          (NameRequest.serveAll serve t later).2.slots[i]? = some (some o)) ∧
        ∃ t', ofSlots? capacity t.slots = some t' ∧ Fresh capacity t' ∧ t'.slots = t.slots ∧
          t'.capacity = capacity ∧ t'.toMap = t.toMap ∧
          ∀ later, (NameRequest.serveAll serve t' later).1 =
            (NameRequest.serveAll serve t later).1 := by
  refine ⟨fun _ _ => ofSlots?_eq_none_iff, fun capacity slots start made => ?_, fun _ => rfl,
    fun {capacity start} fresh => ?_⟩
  · obtain ⟨rfl, -⟩ := ofSlots?_eq_some_iff.1 made
    exact ⟨slots_numbered, capacity_numbered⟩
  obtain ⟨hstart, rfl⟩ := fresh.kept
  refine ⟨hstart.lists, fun requests answers t h => ?_⟩
  have run := hstart.serveAll requests
  rw [h] at run
  obtain ⟨hmap, k, hcap, -⟩ := run
  refine ⟨hmap, hcap, k.lists, fun _ _ => k.serve_refused, fun request => (k.serve request).appended,
    fun i o later hi hnot => (k.serveAll later).2.2.2 i o hi hnot, ?_⟩
  obtain ⟨t', made, hslots, hcap', hsame⟩ := k.exists_rebuilt
  have fresh' : Fresh t.capacity t' := .slots k.slots_le made
  rw [hcap] at made fresh' hcap'
  refine ⟨t', made, fresh', hslots, hcap', hsame, fun later => ?_⟩
  have hrebuilt := (fresh'.kept.1.serveAll later).1
  rw [hsame, (k.serveAll later).1] at hrebuilt
  exact (congrArg Prod.fst hrebuilt).symm

/-- Of three slots one has a name. The two that are empty are used before a further name is refused,
and a name that was forgotten leaves its slot to the next one. -/
theorem bounded_map_small :
    ∃ start t : NameTable, Fresh 3 start ∧ ofSlots? 3 #[none, some ⟨"a", 0⟩, none] = some start ∧
      t.slots = #[some ⟨"b", 16⟩, some ⟨"d", 48⟩, some ⟨"c", 32⟩] ∧
      t.index.toList = [("b", 0), ("c", 2), ("d", 1)] ∧
      NameRequest.serveAll NameMap.serve start.toMap
        [.register "b" 16, .register "a" 32, .register "c" 32, .register "d" 48, .unregister "a",
          .register "d" 48, .lookup "d"] =
        ([.ok none, .error (.refused (.nameExists "a")), .ok none, .error (.refused (.namesFull 3)),
          .ok (some 0), .ok none, .ok (some 48)], t.toMap) := by
  have made : ofSlots? 3 #[none, some ⟨"a", 0⟩, none] =
      some (numbered 3 #[none, some ⟨"a", 0⟩, none]) :=
    ofSlots?_eq_some_iff.2 ⟨rfl, by decide +kernel⟩
  have fresh := Fresh.slots (by decide) made
  obtain ⟨-, hruns⟩ := bounded_map.2.2.2 fresh
  have answers : (NameRequest.serveAll serve (numbered 3 #[none, some ⟨"a", 0⟩, none])
      [.register "b" 16, .register "a" 32, .register "c" 32, .register "d" 48, .unregister "a",
        .register "d" 48, .lookup "d"]).1 =
      [.ok none, .error (.refused (.nameExists "a")), .ok none, .error (.refused (.namesFull 3)),
        .ok (some 0), .ok none, .ok (some 48)] := by decide +kernel
  exact ⟨_, _, fresh, made, by decide +kernel, by decide +kernel,
    (hruns _ _ _ (Prod.ext answers rfl)).1⟩

end NameTable

end RegionHeap
