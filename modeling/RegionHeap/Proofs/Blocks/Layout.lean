import RegionHeap.Blocks.Table

/-!
The layout of a block table: the list of its runs. `Spells` says that entries, read without their
list links, are those of a list of runs from some block on; the entries of a table determine the
list. Everything a block table is used for is a question about its layout, and every operation on
tables is described by what it does to the layout.
-/
namespace RegionHeap

/-- An entry without its list links. -/
def Entry.bare : Entry → Entry
  | .free size _ _ => .free size none none
  | e => e

/-- The size that the first block of a free run records. -/
def Entry.freeSize? : Entry → Option Nat
  | .free size _ _ => some size
  | _ => none

namespace Entry

@[simp] theorem bare_free (size : Nat) (next prev : Option Nat) :
    (free size next prev).bare = free size none none := rfl
@[simp] theorem bare_freeTail (head : Nat) : (freeTail head).bare = freeTail head := rfl
@[simp] theorem bare_freeBody : freeBody.bare = freeBody := rfl
@[simp] theorem bare_run (length : Nat) : (run length).bare = run length := rfl
@[simp] theorem bare_runBody (offset : Nat) : (runBody offset).bare = runBody offset := rfl
@[simp] theorem bare_fragmented (log2 nfree : Nat) :
    (fragmented log2 nfree).bare = fragmented log2 nfree := rfl

@[simp] theorem bare_bare (e : Entry) : e.bare.bare = e.bare := by cases e <;> rfl
@[simp] theorem freeSize?_bare (e : Entry) : e.bare.freeSize? = e.freeSize? := by cases e <;> rfl
@[simp] theorem step_bare (e : Entry) : e.bare.step = e.step := by cases e <;> rfl
@[simp] theorem isFreeHead_bare (e : Entry) : e.bare.isFreeHead = e.isFreeHead := by
  cases e <;> rfl
@[simp] theorem isInner_bare (e : Entry) : e.bare.isInner = e.isInner := by cases e <;> rfl

theorem bare_eq_free {e : Entry} {size : Nat} {next prev : Option Nat}
    (h : e.bare = free size next prev) : ∃ next' prev', e = free size next' prev' := by
  cases e <;> simp [bare] at h ⊢
  exact h.1

theorem bare_eq_self {e e' : Entry} (h : e.bare = e') (hf : e'.freeSize? = none) : e = e' := by
  subst h
  cases e <;> simp_all [bare, freeSize?]

theorem freeSize?_eq_some {e : Entry} {size : Nat} :
    e.freeSize? = some size ↔ e.bare = free size none none := by
  cases e <;> simp [freeSize?, bare]

end Entry

/-- A run, by what it holds. -/
inductive Run where
  | free (size : Nat)
  | busy (length : Nat)
  /-- One block that is cut into fragments. -/
  | cut (log2 nfree : Nat)
  deriving DecidableEq, Repr

namespace Run

def length : Run → Nat
  | free size => size
  | busy length => length
  | cut .. => 1

def isFree : Run → Bool
  | free _ => true
  | _ => false

/-- The entry of the `i`-th block of a run that starts at `block`. -/
def entry (block : Nat) : Run → Nat → Entry
  | free size, i =>
    if i = 0 then .free size none none
    else if i + 1 = size then .freeTail block else .freeBody
  | busy length, i => if i = 0 then .run length else .runBody i
  | cut log2 nfree, _ => .fragmented log2 nfree

/-- The entry that a run starts with. -/
def first : Run → Entry
  | free size => .free size none none
  | busy length => .run length
  | cut log2 nfree => .fragmented log2 nfree

@[simp] theorem entry_zero (block : Nat) (r : Run) : r.entry block 0 = r.first := by
  cases r <;> rfl

/-- Blocks of a list of runs. -/
def total : List Run → Nat
  | [] => 0
  | r :: rest => r.length + total rest

@[simp] theorem total_nil : total [] = 0 := rfl

@[simp] theorem total_cons (r : Run) (rest : List Run) : total (r :: rest) = r.length + total rest :=
  rfl

@[simp] theorem total_append (l r : List Run) : total (l ++ r) = total l + total r := by
  induction l with
  | nil => simp
  | cons a l ih => simp [ih]; omega

/-- No free run follows another. -/
def Apart : List Run → Prop
  | a :: b :: rest => ¬(a.isFree = true ∧ b.isFree = true) ∧ Apart (b :: rest)
  | _ => True

/-- Whether the last run is free. -/
def endsFree (l : List Run) : Bool := l.getLast?.any isFree

/-- Whether the first run is free. -/
def startsFree (r : List Run) : Bool := r.head?.any isFree

@[simp] theorem endsFree_nil : endsFree [] = false := rfl
@[simp] theorem startsFree_nil : startsFree [] = false := rfl
@[simp] theorem startsFree_cons (r : Run) (rest : List Run) : startsFree (r :: rest) = r.isFree := rfl

@[simp] theorem endsFree_append_singleton (l : List Run) (r : Run) :
    endsFree (l ++ [r]) = r.isFree := by
  simp [endsFree]

@[simp] theorem apart_nil : Apart [] := trivial
@[simp] theorem apart_singleton (r : Run) : Apart [r] := trivial

theorem apart_cons {a : Run} {rest : List Run} :
    Apart (a :: rest) ↔ ¬(a.isFree = true ∧ startsFree rest = true) ∧ Apart rest := by
  cases rest with
  | nil => simp [Apart]
  | cons b rest => simp [Apart]

/-- Two layouts may stand side by side if the free runs of neither meet at the seam. -/
theorem apart_append {l r : List Run} :
    Apart (l ++ r) ↔ Apart l ∧ Apart r ∧ ¬(endsFree l = true ∧ startsFree r = true) := by
  induction l with
  | nil => simp
  | cons a l ih =>
    cases l with
    | nil =>
      rw [List.cons_append, List.nil_append, apart_cons]
      simp [endsFree]
      exact and_comm
    | cons b l =>
      have hl : endsFree (a :: b :: l) = endsFree (b :: l) := by simp [endsFree]
      rw [List.cons_append, apart_cons, ih, hl, apart_cons (a := a)]
      exact and_assoc.symm

end Run

/-- Reading entries from `block` on gives the entries of these runs, one after another. -/
def Spells (f : Nat → Option Entry) : (block : Nat) → List Run → Prop
  | _, [] => True
  | block, r :: rest =>
    0 < r.length ∧ (∀ i, i < r.length → f (block + i) = some (r.entry block i)) ∧
      Spells f (block + r.length) rest

namespace Spells

variable {f g : Nat → Option Entry} {block : Nat}

theorem append {l r : List Run} :
    Spells f block (l ++ r) ↔ Spells f block l ∧ Spells f (block + Run.total l) r := by
  induction l generalizing block with
  | nil => simp [Spells]
  | cons a l ih =>
    simp only [List.cons_append, Spells, ih, Run.total_cons, Nat.add_assoc, and_assoc]

/-- Only the entries of the runs themselves are read. -/
theorem congr {runs : List Run} (h : Spells f block runs)
    (hg : ∀ i, block ≤ i → i < block + Run.total runs → g i = f i) : Spells g block runs := by
  induction runs generalizing block with
  | nil => trivial
  | cons r rest ih =>
    obtain ⟨hpos, hr, hrest⟩ := h
    rw [Run.total_cons] at hg
    refine ⟨hpos, fun i hi => ?_, ih hrest fun i h₁ h₂ => hg i (by omega) (by omega)⟩
    rw [hg _ (by omega) (by omega), hr i hi]

theorem singleton {r : Run} (hpos : 0 < r.length)
    (h : ∀ i, i < r.length → f (block + i) = some (r.entry block i)) : Spells f block [r] :=
  ⟨hpos, h, trivial⟩

theorem length_pos {runs : List Run} (h : Spells f block runs) {r : Run} (hr : r ∈ runs) :
    0 < r.length := by
  induction runs generalizing block with
  | nil => cases hr
  | cons a rest ih =>
    rcases List.mem_cons.1 hr with rfl | hr
    · exact h.1
    · exact ih h.2.2 hr

/-- Every block of a layout lies in one of its runs. -/
theorem locate {runs : List Run} (h : Spells f block runs) {x : Nat} (hlo : block ≤ x)
    (hhi : x < block + Run.total runs) :
    ∃ l r rest i, runs = l ++ r :: rest ∧ i < r.length ∧ x = block + Run.total l + i ∧
      f x = some (r.entry (block + Run.total l) i) := by
  induction runs generalizing block with
  | nil => simp at hhi; omega
  | cons r rest ih =>
    obtain ⟨-, hr, hrest⟩ := h
    rw [Run.total_cons] at hhi
    by_cases hx : x < block + r.length
    · refine ⟨[], r, rest, x - block, rfl, by omega, by simp; omega, ?_⟩
      have := hr (x - block) (by omega)
      rw [show block + (x - block) = x by omega] at this
      simpa using this
    · obtain ⟨l, r', rest', i, rfl, hi, hx', hf⟩ := ih hrest (by omega) (by omega)
      refine ⟨r :: l, r', rest', i, rfl, hi, ?_, ?_⟩
      · rw [Run.total_cons]; omega
      · rw [Run.total_cons, ← Nat.add_assoc]; exact hf

/-- A layout says what stands in all its blocks. -/
theorem eqOn {runs : List Run} (h : Spells f block runs) (h' : Spells g block runs) {x : Nat}
    (hlo : block ≤ x) (hhi : x < block + Run.total runs) : g x = f x := by
  induction runs generalizing block with
  | nil =>
    simp only [Run.total_nil] at hhi
    omega
  | cons r rest ih =>
    rw [Run.total_cons] at hhi
    by_cases hx : x < block + r.length
    · have hf := h.2.1 (x - block) (by omega)
      have hg := h'.2.1 (x - block) (by omega)
      rw [show block + (x - block) = x by omega] at hf hg
      rw [hf, hg]
    · exact ih h.2.2 h'.2.2 (by omega) (by omega)

theorem eq_nil_of_total {runs : List Run} (h : Spells f block runs) (h0 : Run.total runs = 0) :
    runs = [] := by
  cases runs with
  | nil => rfl
  | cons r rest =>
    have := h.1
    rw [Run.total_cons] at h0
    omega

/-- The entry at the start of a run. -/
theorem first_eq {l rest : List Run} {r : Run} (h : Spells f block (l ++ r :: rest)) :
    f (block + Run.total l) = some r.first := by
  obtain ⟨-, hpos, hr, -⟩ := append.1 h
  simpa using hr 0 hpos

/-- An entry that no inner block has stands at the start of its run. -/
theorem locate_first {runs : List Run} (h : Spells f block runs) {x : Nat} {e : Entry}
    (hlo : block ≤ x) (hhi : x < block + Run.total runs) (hx : f x = some e)
    (he : e.isInner = false) :
    ∃ l r rest, runs = l ++ r :: rest ∧ x = block + Run.total l ∧ e = r.first := by
  obtain ⟨l, r, rest, i, rfl, hi, rfl, hf⟩ := h.locate hlo hhi
  rw [hx, Option.some.injEq] at hf
  subst hf
  have hz : i = 0 := by
    cases r with
    | free size =>
      simp only [Run.entry] at he
      split at he
      · assumption
      · split at he <;> cases he
    | busy length =>
      simp only [Run.entry] at he
      split at he
      · assumption
      · cases he
    | cut log2 nfree => simp only [Run.length] at hi; omega
  subst hz
  exact ⟨l, r, rest, rfl, rfl, Run.entry_zero _ _⟩

end Spells

namespace BlockTable

/-- The entry of a block without its list links. -/
def bare? (t : BlockTable) (block : Nat) : Option Entry := (t.get? block).map Entry.bare

/-- The size of the free run that starts at a block. -/
def freeSize? (t : BlockTable) (block : Nat) : Option Nat := (t.get? block).bind Entry.freeSize?

theorem get?_eq_none {t : BlockTable} {block : Nat} (h : t.size ≤ block) : t.get? block = none :=
  Array.getElem?_eq_none h

theorem lt_size_of_get? {t : BlockTable} {block : Nat} {e : Entry} (h : t.get? block = some e) :
    block < t.size := by
  obtain ⟨hb, -⟩ := Array.getElem?_eq_some_iff.1 h
  exact hb

theorem exists_get? {t : BlockTable} {block : Nat} (h : block < t.size) :
    ∃ e, t.get? block = some e :=
  ⟨_, Array.getElem?_eq_getElem h⟩

theorem bare?_eq_none {t : BlockTable} {block : Nat} (h : t.size ≤ block) : t.bare? block = none := by
  rw [bare?, get?_eq_none h]; rfl

theorem lt_size_of_bare? {t : BlockTable} {block : Nat} {e : Entry} (h : t.bare? block = some e) :
    block < t.size := by
  obtain ⟨e', he, -⟩ := Option.map_eq_some_iff.1 h
  exact lt_size_of_get? he

/-- An entry that starts no free run is read off the bare table. -/
theorem get?_of_bare? {t : BlockTable} {block : Nat} {e : Entry} (h : t.bare? block = some e)
    (he : e.freeSize? = none) : t.get? block = some e := by
  obtain ⟨e', hg, hb⟩ := Option.map_eq_some_iff.1 h
  rw [hg, Entry.bare_eq_self hb he]

theorem bare?_of_get? {t : BlockTable} {block : Nat} {e : Entry} (h : t.get? block = some e) :
    t.bare? block = some e.bare := by
  rw [bare?, h]; rfl

theorem exists_free_of_bare? {t : BlockTable} {block size : Nat} {next prev : Option Nat}
    (h : t.bare? block = some (.free size next prev)) :
    ∃ next' prev', t.get? block = some (.free size next' prev') := by
  obtain ⟨e, hg, hb⟩ := Option.map_eq_some_iff.1 h
  obtain ⟨next', prev', rfl⟩ := Entry.bare_eq_free hb
  exact ⟨next', prev', hg⟩

theorem freeSize?_eq_bind (t : BlockTable) (block : Nat) :
    t.freeSize? block = (t.bare? block).bind Entry.freeSize? := by
  rw [freeSize?, bare?]
  cases t.get? block <;> simp

theorem freeSize?_eq_some {t : BlockTable} {block size : Nat} :
    t.freeSize? block = some size ↔ t.bare? block = some (.free size none none) := by
  rw [freeSize?_eq_bind, bare?]
  cases h : t.get? block with
  | none => simp
  | some e => simp [Entry.freeSize?_eq_some]

/-- Tables with the same bare entries have the same free runs. -/
theorem freeSize?_congr {t t' : BlockTable} {block : Nat} (h : t'.bare? block = t.bare? block) :
    t'.freeSize? block = t.freeSize? block := by
  rw [freeSize?_eq_bind, freeSize?_eq_bind, h]

end BlockTable

end RegionHeap
