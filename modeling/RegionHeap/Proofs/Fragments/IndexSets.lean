import Mathlib.Data.Nat.Count
import Mathlib.Logic.Function.Basic
import RegionHeap.Proofs.Fragments.Bits
import RegionHeap.Proofs.Requests

/-!
Busy maps are sets of indices. `toIndexSet` reads the set off the digits of the words, one index a
digit. Whatever is done to the maps of an arena, one request after another, is done to the sets that
they stand for (`BusyMaps.serveAll_toSets`), and what is asked of the maps is answered as the sets
have it (`BusyMaps.act_as_sets`).
-/
namespace RegionHeap

/-- What is done to the busy maps of an arena. -/
inductive MapRequest where
  /-- Begins a map of `count` fragments, none of them busy. -/
  | insert (block count : Nat)
  /-- Puts words in place that make a map. -/
  | insertWords (block : Nat) (words : BusyMap)
  | set (block i : Nat) (busy : Bool)
  | remove (block : Nat)

/-- The answer to a request about maps of some kind. -/
inductive MapAnswer (μ : Type) where
  | done
  /-- Whether the index was busy before, if there is a place for it. -/
  | was (busy : Option Bool)
  | removed (map : Option μ)
  | trap
  deriving DecidableEq

/-- The same answer about maps of another kind. -/
def MapAnswer.map {μ ν : Type} (f : μ → ν) : MapAnswer μ → MapAnswer ν
  | done => done
  | was busy => was busy
  | removed map => removed (map.map f)
  | trap => trap

open Requests (serveAll passed)

/-! ## Sets of indices -/

/-- A set of indices, with a place for every index below a bound. -/
@[ext]
structure IndexSet where
  places : Nat
  members : Finset Nat
  lt_places : ∀ i ∈ members, i < places

/-- Puts an index into the set or takes it out. -/
def IndexSet.mark (s : IndexSet) (i : Nat) (busy : Bool) (h : i < s.places) : IndexSet where
  places := s.places
  members := if busy then insert i s.members else s.members.erase i
  lt_places j hj := by
    cases busy with
    | true =>
      cases Finset.mem_insert.1 hj with
      | inl here => rwa [here]
      | inr there => exact s.lt_places j there
    | false => exact s.lt_places j (Finset.mem_of_mem_erase hj)

@[simp] theorem IndexSet.places_mark {s : IndexSet} {i : Nat} {busy : Bool} (h : i < s.places) :
    (s.mark i busy h).places = s.places := rfl

theorem IndexSet.mem_mark {s : IndexSet} {i j : Nat} {busy : Bool} (h : i < s.places) :
    j ∈ (s.mark i busy h).members ↔ if j = i then busy = true else j ∈ s.members := by
  cases busy with
  | true =>
    show j ∈ insert i s.members ↔ _
    rw [Finset.mem_insert]
    by_cases hj : j = i <;> simp [hj]
  | false =>
    show j ∈ s.members.erase i ↔ _
    rw [Finset.mem_erase]
    by_cases hj : j = i <;> simp [hj]

namespace BusyMap

/-- The places are the digits of all words, least first, and the members the digits that are one. -/
def toIndexSet (m : BusyMap) : IndexSet where
  places := m.size * wordBits
  members := (Finset.range (m.size * wordBits)).filter fun i =>
    m[i / wordBits]?.any fun word => word.toNat.testBit (i % wordBits)
  lt_places _ hi := Finset.mem_range.1 (Finset.mem_filter.1 hi).1

variable {m : BusyMap}

@[simp] theorem places_toIndexSet (m : BusyMap) : m.toIndexSet.places = m.size * wordBits := rfl

theorem mem_toIndexSet {i : Nat} : i ∈ m.toIndexSet.members ↔ m.isBusy i = true := by
  have digits : (m[i / wordBits]?.any fun word => word.toNat.testBit (i % wordBits)) =
      m.isBusy i := by
    rw [isBusy]
    congr 1
    funext word
    exact (bit_eq_testBit word (Nat.mod_lt i (by decide))).symm
  rw [toIndexSet, Finset.mem_filter, digits, Finset.mem_range]
  constructor
  · exact And.right
  · intro busy
    refine ⟨Nat.lt_of_not_le fun past => ?_, busy⟩
    rw [isBusy_eq_false past] at busy
    cases busy

theorem count_eq_card (m : BusyMap) : m.count = m.toIndexSet.members.card := by
  have range : m.toIndexSet.members =
      (Finset.range (m.size * wordBits)).filter fun i => m.isBusy i = true := by
    ext i
    rw [mem_toIndexSet, Finset.mem_filter, Finset.mem_range]
    exact ⟨fun busy => ⟨m.toIndexSet.lt_places i (mem_toIndexSet.2 busy), busy⟩, And.right⟩
  rw [count_eq_countP, range, ← Nat.count_eq_card_filter_range, Nat.count]
  exact List.countP_congr fun _ _ => by simp

theorem reaches_iff {n : Nat} : m.reaches n = true ↔ ∃ i, n ≤ i ∧ m.isBusy i = true := by
  have none := m.reaches_eq_false_iff (n := n)
  rw [← Bool.not_eq_false, none]
  simp

/-- A new map has no members, and places in whole words. -/
theorem allFree?_toIndexSet {count : Nat} (h : count + 64 < Size.limit) :
    ∃ m, allFree? count = some m ∧ m.toIndexSet = ⟨(count + 63) / 64 * 64, ∅, by simp⟩ := by
  refine ⟨_, allFree?_eq h, IndexSet.ext ?_ ?_⟩
  · rw [places_toIndexSet, Array.size_replicate]
    rfl
  · ext i
    rw [mem_toIndexSet, isBusy_replicate]
    simp

theorem allFree?_eq_none {count : Nat} (h : ¬count + 64 < Size.limit) : allFree? count = none := by
  have overflow : Size.add? count wordBits = none := if_neg h
  rw [allFree?, wordsNeeded?, overflow]
  rfl

/-- Marking a fragment marks its index, and answers whether it was a member. -/
theorem set?_toIndexSet {i : Nat} (h : i < m.toIndexSet.places) (busy : Bool) :
    ∃ m', m.set? i busy = some (m.isBusy i, m') ∧ m'.toIndexSet = m.toIndexSet.mark i busy h := by
  obtain ⟨m', marked, size, changed⟩ := set?_eq h busy
  refine ⟨m', marked, IndexSet.ext ?_ ?_⟩
  · rw [IndexSet.places_mark, places_toIndexSet, places_toIndexSet, size]
  · ext j
    rw [IndexSet.mem_mark, mem_toIndexSet, changed, mem_toIndexSet]
    split <;> rfl

theorem set?_eq_none {i : Nat} (h : m.toIndexSet.places ≤ i) (busy : Bool) :
    m.set? i busy = none := by
  have past : ¬i / wordBits < m.size := by
    rw [Nat.div_lt_iff_lt_mul (by decide)]
    exact Nat.not_lt_of_le h
  rw [set?, dif_neg past]

end BusyMap

/-! ## The maps of an arena -/

/-- The sets of the blocks of an arena. A block may have none. -/
abbrev IndexSets := Nat → Option IndexSet

/-- A new set has places up to the next multiple of 64, which has to leave room for 64 more. -/
def IndexSets.serve (sets : IndexSets) : MapRequest → MapAnswer IndexSet × IndexSets
  | .insert block count =>
    if count + 64 < Size.limit then
      (.done, Function.update sets block (some ⟨(count + 63) / 64 * 64, ∅, by simp⟩))
    else (.trap, sets)
  | .insertWords block words => (.done, Function.update sets block (some words.toIndexSet))
  | .set block i busy =>
    match sets block with
    | none => (.was none, sets)
    | some s =>
      if h : i < s.places then
        (.was (some (decide (i ∈ s.members))), Function.update sets block (some (s.mark i busy h)))
      else (.was none, sets)
  | .remove block => (.removed (sets block), Function.update sets block none)

namespace BusyMaps

open BusyMap (toIndexSet)

variable {maps : BusyMaps} {block i : Nat} {m : BusyMap}

def serve (maps : BusyMaps) : MapRequest → MapAnswer BusyMap × BusyMaps
  | .insert block count =>
    match BusyMap.allFree? count with
    | some m => (.done, maps.insert block m)
    | none => (.trap, maps)
  | .insertWords block words => (.done, maps.insert block words)
  | .set block i busy =>
    match maps.set? block i busy with
    | some (was, maps) => (.was (some was), maps)
    | none => (.was none, maps)
  | .remove block => (.removed (maps.find? block), maps.erase block)

/-- The sets that the maps stand for. -/
def toSets (maps : BusyMaps) : IndexSets := fun block => (maps.find? block).map toIndexSet

theorem toSets_insert (maps : BusyMaps) (block : Nat) (m : BusyMap) :
    toSets (maps.insert block m) = Function.update maps.toSets block (some m.toIndexSet) := by
  funext b
  by_cases hb : b = block
  · simp [toSets, OrderedMap.find?_insert, hb]
  · simp [toSets, OrderedMap.find?_insert, hb, Ne.symm hb]

theorem toSets_erase (maps : BusyMaps) (block : Nat) :
    toSets (maps.erase block) = Function.update maps.toSets block none := by
  funext b
  by_cases hb : b = block
  · simp [toSets, OrderedMap.find?_erase, hb]
  · simp [toSets, OrderedMap.find?_erase, hb, Ne.symm hb]

theorem toSets_of_find? (found : maps.find? block = some m) :
    maps.toSets block = some m.toIndexSet := by
  rw [toSets, found, Option.map_some]

theorem isBusy_of_find? (found : maps.find? block = some m) : maps.isBusy block i = m.isBusy i := by
  rw [isBusy, found, Option.any_some]

theorem isBusy_insert (maps : BusyMaps) (block : Nat) (m : BusyMap) (b j : Nat) :
    isBusy (maps.insert block m) b j = if b = block then m.isBusy j else maps.isBusy b j := by
  by_cases hb : b = block
  · simp [isBusy, OrderedMap.find?_insert, hb]
  · simp [isBusy, OrderedMap.find?_insert, hb, Ne.symm hb]

theorem isBusy_iff :
    maps.isBusy block i = true ↔ ∃ s, maps.toSets block = some s ∧ i ∈ s.members := by
  rw [toSets]
  cases found : maps.find? block with
  | none => simp [isBusy, found]
  | some m => simp [isBusy_of_find? found, BusyMap.mem_toIndexSet]

/-- An index that has a place is marked in its set. -/
theorem set?_of_lt (found : maps.find? block = some m) (h : i < m.toIndexSet.places) (busy : Bool) :
    ∃ m', maps.set? block i busy = some (maps.isBusy block i, maps.insert block m') ∧
      m'.toIndexSet = m.toIndexSet.mark i busy h := by
  obtain ⟨m', marked, same⟩ := BusyMap.set?_toIndexSet h busy
  refine ⟨m', ?_, same⟩
  rw [set?, found, isBusy_of_find? found]
  simp [marked]

theorem set?_of_le (h : ∀ m, maps.find? block = some m → m.toIndexSet.places ≤ i) (busy : Bool) :
    maps.set? block i busy = none := by
  rw [set?]
  cases found : maps.find? block with
  | none => rfl
  | some m => simp [BusyMap.set?_eq_none (h m found)]

/-- What is done to maps is done to the sets that they stand for. -/
theorem serve_toSets (maps : BusyMaps) (request : MapRequest) :
    maps.toSets.serve request =
      Prod.map (MapAnswer.map toIndexSet) toSets (maps.serve request) := by
  cases request with
  | insert block count =>
    rw [IndexSets.serve, serve]
    by_cases h : count + 64 < Size.limit
    · obtain ⟨m, made, new⟩ := BusyMap.allFree?_toIndexSet h
      rw [if_pos h, made, ← new, ← toSets_insert]
      rfl
    · rw [if_neg h, BusyMap.allFree?_eq_none h]
      rfl
  | insertWords block words =>
    rw [IndexSets.serve, serve, ← toSets_insert]
    rfl
  | set block i busy =>
    rw [IndexSets.serve, serve]
    cases found : maps.find? block with
    | none =>
      have missing : maps.toSets block = none := by rw [toSets, found]; rfl
      rw [missing, set?_of_le (by simp [found])]
      rfl
    | some m =>
      rw [toSets_of_find? found]
      by_cases h : i < m.toIndexSet.places
      · obtain ⟨m', marked, same⟩ := set?_of_lt found h busy
        have was : maps.isBusy block i = decide (i ∈ m.toIndexSet.members) := by
          rw [isBusy_of_find? found, Bool.eq_iff_iff, decide_eq_true_iff, BusyMap.mem_toIndexSet]
        simp only [dif_pos h, marked, was, ← same, ← toSets_insert]
        rfl
      · have past : ∀ m', maps.find? block = some m' → m'.toIndexSet.places ≤ i := by
          intro m' hm'
          cases found.symm.trans hm'
          exact Nat.le_of_not_lt h
        simp only [dif_neg h, set?_of_le past]
        rfl
  | remove block =>
    rw [IndexSets.serve, serve, ← toSets_erase]
    rfl

/-- What is done to maps by some requests is done to the sets that they stand for. -/
theorem serveAll_toSets (maps : BusyMaps) (requests : List MapRequest) :
    (serveAll serve maps requests).map (Prod.map (MapAnswer.map toIndexSet) toSets) =
      serveAll IndexSets.serve maps.toSets requests :=
  Requests.map_serveAll (P := fun _ => True) (MapAnswer.map toIndexSet) toSets
    (fun _ _ _ => trivial) (fun maps request _ => maps.serve_toSets request) trivial requests

/-- What is asked of maps is answered as by the sets that they stand for. Marking an index that has
a place changes whether it is a member and nothing else, and marking any other changes nothing;
words that are read make the same set wherever they are put. -/
structure ActAsSets (maps : BusyMaps) : Prop where
  isBusy_iff : ∀ block i, maps.isBusy block i = true ↔
    ∃ s, maps.toSets block = some s ∧ i ∈ s.members
  marked : ∀ block i busy m, maps.find? block = some m → i < m.size * 64 →
    ∃ maps', maps.serve (.set block i busy) = (.was (some (maps.isBusy block i)), maps') ∧
      ∀ b j, maps'.isBusy b j = if b = block ∧ j = i then busy else maps.isBusy b j
  unmarked : ∀ block i busy, (∀ m, maps.find? block = some m → m.size * 64 ≤ i) →
    maps.serve (.set block i busy) = (.was none, maps)
  count?_eq : ∀ block, maps.count? block = (maps.toSets block).map fun s => s.members.card
  reaches_iff : ∀ block n, maps.reaches block n = true ↔
    ∃ i, n ≤ i ∧ maps.isBusy block i = true
  find?_insert : ∀ block words, OrderedMap.find? (maps.insert block words) block = some words
  insert_find? : ∀ block words, maps.find? block = some words →
    maps.insert block words = maps ∧
      ∀ (others : BusyMaps) (b : Nat), toSets (others.insert b words) b = maps.toSets block

theorem actAsSets (maps : BusyMaps) : maps.ActAsSets where
  isBusy_iff _ _ := isBusy_iff
  marked block i busy m found h := by
    have place : i < m.toIndexSet.places := h
    obtain ⟨m', marked, same⟩ := set?_of_lt found place busy
    refine ⟨maps.insert block m', by rw [serve, marked], ?_⟩
    intro b j
    have member : m'.isBusy j = if j = i then busy else m.isBusy j := by
      rw [Bool.eq_iff_iff, ← BusyMap.mem_toIndexSet, same, IndexSet.mem_mark,
        BusyMap.mem_toIndexSet]
      split <;> rfl
    rw [isBusy_insert, member]
    by_cases hb : b = block
    · subst hb
      simp [isBusy_of_find? found]
    · simp [hb]
  unmarked block i busy h := by
    rw [serve, set?_of_le h]
  count?_eq block := by
    rw [count?, toSets, Option.map_map]
    congr 1
    funext m
    exact m.count_eq_card
  reaches_iff block n := by
    rw [reaches]
    cases found : maps.find? block with
    | none => simp [isBusy, found]
    | some m => simp [isBusy, found, BusyMap.reaches_iff]
  find?_insert block words := by
    rw [OrderedMap.find?_insert, if_pos rfl]
  insert_find? block words found := by
    constructor
    · apply OrderedMap.ext_find?
      intro b
      rw [OrderedMap.find?_insert]
      split
      · rename_i here
        rw [← here, found]
      · rfl
    · intro others b
      rw [toSets_insert, Function.update_self, toSets_of_find? found]

/-- Busy maps are sets of indices. Whatever is requested of an arena without maps, one request after
another, is answered as by the sets that take the same requests; the maps stand for those sets at
any time, and answer every question as these do. -/
theorem act_as_sets (requests : List MapRequest) :
    (serveAll serve OrderedMap.empty requests).map (Prod.map (MapAnswer.map toIndexSet) toSets) =
        serveAll IndexSets.serve (fun _ => none) requests ∧
      ∀ maps ∈ passed serve OrderedMap.empty requests, maps.ActAsSets :=
  ⟨serveAll_toSets OrderedMap.empty requests, fun maps _ => maps.actAsSets⟩

/-- A map of two words is marked at its last place and behind it, and words make another map. -/
def smallRequests : List MapRequest :=
  [.insert 3 100, .set 3 127 true, .set 3 127 true, .set 3 128 true, .insertWords 4 #[0, 8]]

/-- The sets answer as the maps. The words that were put in make a set of the index 67 alone. -/
theorem act_as_sets_small :
    (serveAll IndexSets.serve (fun _ => none) smallRequests).map Prod.fst =
        [.done, .was (some false), .was (some true), .was none, .done] ∧
      ∃ maps ∈ passed serve OrderedMap.empty smallRequests, maps.ActAsSets ∧
        maps.count? 3 = some 1 ∧ maps.isBusy 3 127 = true ∧ maps.find? 4 = some #[0, 8] ∧
        maps.reaches 4 67 = true ∧ maps.reaches 4 68 = false := by
  obtain ⟨same, act⟩ := act_as_sets smallRequests
  have answers : (serveAll serve OrderedMap.empty smallRequests).map Prod.fst =
      [.done, .was (some false), .was (some true), .was none, .done] := by decide
  constructor
  · have mapped := congrArg (List.map (MapAnswer.map toIndexSet)) answers
    rw [← same, List.map_map]
    rw [List.map_map] at mapped
    exact mapped
  · have last := List.getElem_mem (l := passed serve OrderedMap.empty smallRequests) (n := 5)
      (by decide)
    exact ⟨_, last, act _ last, by decide, by decide, by decide, by decide, by decide⟩

end BusyMaps

end RegionHeap
