/-!
Finite maps from natural numbers, kept as pairs in the order of their keys. Two maps that answer
every look-up alike are equal (`ext_find?`).
-/
namespace RegionHeap

/-- Puts a pair at its place, in front of a pair with the same key. -/
def insertPair {α : Type} (key : Nat) (value : α) : List (Nat × α) → List (Nat × α)
  | [] => [(key, value)]
  | (k, v) :: rest =>
    if key < k then (key, value) :: (k, v) :: rest
    else if key = k then (key, value) :: rest
    else (k, v) :: insertPair key value rest

def lookupPair {α : Type} (key : Nat) : List (Nat × α) → Option α
  | [] => none
  | (k, v) :: rest => if k = key then some v else lookupPair key rest

abbrev KeysIncrease {α : Type} (pairs : List (Nat × α)) : Prop :=
  pairs.Pairwise fun a b => a.1 < b.1

theorem mem_insertPair {α : Type} {key : Nat} {value : α} {p : Nat × α} {pairs : List (Nat × α)}
    (h : p ∈ insertPair key value pairs) : p = (key, value) ∨ p ∈ pairs := by
  induction pairs with
  | nil => simpa [insertPair] using h
  | cons q rest ih =>
    obtain ⟨k, v⟩ := q
    unfold insertPair at h
    split at h
    · simpa using h
    · split at h
      · rcases List.mem_cons.1 h with h | h
        · exact .inl h
        · exact .inr (List.mem_cons_of_mem _ h)
      · rcases List.mem_cons.1 h with h | h
        · exact .inr (h ▸ List.mem_cons_self)
        · exact (ih h).imp id (List.mem_cons_of_mem _)

theorem KeysIncrease.insertPair {α : Type} {pairs : List (Nat × α)} (h : KeysIncrease pairs)
    (key : Nat) (value : α) : KeysIncrease (insertPair key value pairs) := by
  induction pairs with
  | nil => simp [RegionHeap.insertPair, KeysIncrease]
  | cons q rest ih =>
    obtain ⟨k, v⟩ := q
    obtain ⟨hk, hrest⟩ := List.pairwise_cons.1 h
    unfold RegionHeap.insertPair
    split
    · rename_i hlt
      refine List.pairwise_cons.2 ⟨fun p hp => ?_, h⟩
      rcases List.mem_cons.1 hp with rfl | hp
      · exact hlt
      · exact Nat.lt_trans hlt (hk p hp)
    · split
      · rename_i heq
        subst heq
        exact List.pairwise_cons.2 ⟨hk, hrest⟩
      · refine List.pairwise_cons.2 ⟨fun p hp => ?_, ih hrest⟩
        rcases mem_insertPair hp with rfl | hp
        · show k < key
          omega
        · exact hk p hp

theorem lookupPair_insertPair {α : Type} (key k : Nat) (value : α) (pairs : List (Nat × α)) :
    lookupPair k (insertPair key value pairs) =
      if key = k then some value else lookupPair k pairs := by
  induction pairs with
  | nil => simp [insertPair, lookupPair]
  | cons q rest ih =>
    obtain ⟨j, v⟩ := q
    unfold insertPair
    split
    · simp [lookupPair]
    · split
      · rename_i h; subst h
        by_cases hk : key = k <;> simp [lookupPair, hk]
      · by_cases hj : j = k
        · have : key ≠ k := by omega
          simp [lookupPair, hj, this]
        · simp [lookupPair, hj, ih]

theorem lookupPair_eq_none {α : Type} {key : Nat} {pairs : List (Nat × α)}
    (h : ∀ p ∈ pairs, p.1 ≠ key) : lookupPair key pairs = none := by
  induction pairs with
  | nil => rfl
  | cons q rest ih =>
    rw [lookupPair, if_neg (h q List.mem_cons_self)]
    exact ih fun p hp => h p (List.mem_cons_of_mem _ hp)

theorem lookupPair_erase {α : Type} (key k : Nat) (pairs : List (Nat × α)) :
    lookupPair k (pairs.filter fun p => p.1 != key) =
      if key = k then none else lookupPair k pairs := by
  induction pairs with
  | nil => simp [lookupPair]
  | cons q rest ih =>
    obtain ⟨j, v⟩ := q
    by_cases hj : j = key
    · subst hj
      rw [List.filter_cons_of_neg (by simp), ih]
      by_cases hk : j = k <;> simp [lookupPair, hk]
    · rw [List.filter_cons_of_pos (by simpa using hj)]
      simp only [lookupPair, ih]
      by_cases hk : j = k
      · have : key ≠ k := by omega
        simp [hk, this]
      · simp [hk]

theorem lookupPair_eq_some {α : Type} {pairs : List (Nat × α)} (h : KeysIncrease pairs)
    {p : Nat × α} (hp : p ∈ pairs) : lookupPair p.1 pairs = some p.2 := by
  induction pairs with
  | nil => cases hp
  | cons q rest ih =>
    obtain ⟨hq, hrest⟩ := List.pairwise_cons.1 h
    rcases List.mem_cons.1 hp with rfl | hp
    · simp [lookupPair]
    · rw [lookupPair, if_neg (Nat.ne_of_lt (hq p hp))]
      exact ih hrest hp

theorem eq_of_lookupPair {α : Type} {a b : List (Nat × α)} (ha : KeysIncrease a)
    (hb : KeysIncrease b) (h : ∀ k, lookupPair k a = lookupPair k b) : a = b := by
  induction a generalizing b with
  | nil =>
    cases b with
    | nil => rfl
    | cons q rest =>
      have := h q.1
      simp [lookupPair] at this
  | cons p rest ih =>
    cases b with
    | nil =>
      have := h p.1
      simp [lookupPair] at this
    | cons q rest' =>
      obtain ⟨i, v⟩ := p
      obtain ⟨j, w⟩ := q
      obtain ⟨hp, hrest⟩ := List.pairwise_cons.1 ha
      obtain ⟨hq, hrest'⟩ := List.pairwise_cons.1 hb
      have above : ∀ {k : Nat} {l : List (Nat × α)}, (∀ x ∈ l, k < x.1) → ∀ {m : Nat}, m ≤ k →
          lookupPair m l = none := fun hl _ hm =>
        lookupPair_eq_none fun x hx => by have := hl x hx; omega
      have hij : i = j := by
        rcases Nat.lt_trichotomy i j with hlt | heq | hgt
        · have := h i
          rw [lookupPair, if_pos rfl, lookupPair, if_neg (by omega), above hq (by omega)] at this
          cases this
        · exact heq
        · have := h j
          rw [lookupPair, if_neg (by omega), above hp (by omega), lookupPair, if_pos rfl] at this
          cases this
      subst hij
      have hv := h i
      simp only [lookupPair, if_true] at hv
      cases hv
      congr 1
      refine ih hrest hrest' fun k => ?_
      by_cases hk : k ≤ i
      · rw [above hp hk, above hq hk]
      · have := h k
        simpa [lookupPair, show i ≠ k by omega] using this

structure OrderedMap (α : Type) where
  pairs : List (Nat × α)
  increasing : KeysIncrease pairs

namespace OrderedMap

variable {α : Type}

def empty : OrderedMap α := ⟨[], List.Pairwise.nil⟩

instance : Inhabited (OrderedMap α) := ⟨empty⟩

/-- Pairs in the order of their keys. -/
def toList (m : OrderedMap α) : List (Nat × α) := m.pairs

def size (m : OrderedMap α) : Nat := m.pairs.length

def keys (m : OrderedMap α) : List Nat := m.pairs.map Prod.fst

def find? (m : OrderedMap α) (key : Nat) : Option α := lookupPair key m.pairs

/-- Replaces the value of a key that is present. -/
def insert (m : OrderedMap α) (key : Nat) (value : α) : OrderedMap α :=
  ⟨insertPair key value m.pairs, m.increasing.insertPair key value⟩

def erase (m : OrderedMap α) (key : Nat) : OrderedMap α :=
  ⟨m.pairs.filter fun p => p.1 != key, m.increasing.filter _⟩

/-- Of two pairs with one key the later counts. -/
def ofList (pairs : List (Nat × α)) : OrderedMap α :=
  pairs.foldl (fun m (key, value) => m.insert key value) empty

@[simp] theorem find?_empty (k : Nat) : (empty : OrderedMap α).find? k = none := rfl

theorem find?_insert (m : OrderedMap α) (key : Nat) (value : α) (k : Nat) :
    (m.insert key value).find? k = if key = k then some value else m.find? k :=
  lookupPair_insertPair key k value m.pairs

theorem find?_erase (m : OrderedMap α) (key k : Nat) :
    (m.erase key).find? k = if key = k then none else m.find? k :=
  lookupPair_erase key k m.pairs

theorem find?_of_mem {m : OrderedMap α} {p : Nat × α} (h : p ∈ m.toList) :
    m.find? p.1 = some p.2 :=
  lookupPair_eq_some m.increasing h

theorem ext_find? {m n : OrderedMap α} (h : ∀ k, m.find? k = n.find? k) : m = n := by
  have := eq_of_lookupPair m.increasing n.increasing h
  cases m; cases n; cases this; rfl

end OrderedMap

end RegionHeap
