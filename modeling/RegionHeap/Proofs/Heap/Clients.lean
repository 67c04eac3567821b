import RegionHeap.Proofs.Heap.Histories

/-!
Clients that keep account of their handles. A client knows the handles that it was answered and has
not given up, with the sizes it asked for, and it gives up only those (`Serves`); apart from that it
may ask for anything. `Tracks` relates such an account to the objects and the alignment records of a
heap: every handle stands for an object of its own with room for what was asked.
-/
namespace RegionHeap

/-! ## What operations give and take -/

namespace Operation

/-- The size of the object that an operation answers a new handle for. -/
def requested : Operation → Option Nat
  | allocate size | allocateAligned _ size | allocatePageAligned _ size | reallocate _ size
  | allocateNamed _ size | allocateAlignedNamed _ _ size => some size
  | allocateZeroed count size | allocateZeroedNamed _ count size => some (count * size)
  | _ => none

/-- The handle that is no longer valid once an operation is granted. -/
def givenUp (h : Heap) : Operation → Option Handle
  | free handle | reallocate handle _ => some handle
  | freeNamed name => h.names.find? name
  | _ => none

/-- Where an operation writes. -/
def writesAt : Operation → Option Nat
  | write offset _ | fill offset _ _ => some offset
  | _ => none

/-- Whether an operation is about the object that starts at `start`: it writes into that object, or
gives up a handle of it. -/
def Concerns (op : Operation) (h : Heap) (start : Nat) : Prop :=
  ∃ offset length, (op.givenUp h = some offset ∨ op.writesAt = some offset) ∧
    h.extentOf offset = .ok (start, length)

end Operation

/-- The sizes that a client asked for, by the handles that it holds. -/
abbrev Account := Handle → Option Nat

/-- The account without a handle that was given up. -/
def Account.without (live : Account) : Option Handle → Account
  | some handle => replaced live handle none
  | none => live

/-- The account after an operation was granted. -/
def Account.after (live : Account) (h : Heap) (op : Operation) (answer : Answer) : Account :=
  match op.requested, answer with
  | some size, .handle handle =>
    replaced (live.without (op.givenUp h)) handle (some size)
  | _, _ => live.without (op.givenUp h)

namespace Heap

/-- A client gives up only handles that it holds. -/
def Permits (h : Heap) (live : Account) (op : Operation) : Prop :=
  ∀ handle, op.givenUp h = some handle → live handle ≠ none

/-- What a heap may become, and what its client then holds, by operations that the client is
permitted, each granted or refused, on a region that may refuse any requests at any time. -/
inductive Serves (h : Heap) : Heap → Account → Prop where
  | start : Serves h h fun _ => none
  | granted {h₁ h₂ : Heap} {live : Account} (refusals : Option Refusals) (op : Operation)
    (answer : Answer) (before : Serves h h₁ live) (permitted : h₁.Permits live op)
    (ran : op.run (h₁.withRefusals refusals) = .ok answer h₂) :
    Serves h h₂ (live.after h₁ op answer)
  | refused {h₁ h₂ : Heap} {live : Account} (refusals : Option Refusals) (op : Operation)
    (e : HeapError) (before : Serves h h₁ live) (permitted : h₁.Permits live op)
    (ran : op.run (h₁.withRefusals refusals) = .error (.refused e) h₂) : Serves h h₂ live

/-- An operation that answers a handle answers the one that it made. -/
theorem handle_eq_ok_iff {x : HeapM Handle} {h h' : Heap} {handle : Handle} :
    (Answer.handle <$> x) h = .ok (.handle handle) h' ↔ x h = .ok handle h' := by
  show EStateM.map Answer.handle x h = _ ↔ _
  rw [EStateM.map]
  cases x h with
  | ok q h₁ => simp
  | error e h₁ => simp

/-- The heap after an operation that is granted and answers this handle. -/
def answering? (h : Heap) (op : Operation) (handle : Handle) : Option Heap :=
  match op.run h with
  | .ok (.handle answer) h' => if answer = handle then some h' else none
  | _ => none

theorem answering?_eq_some_iff {h h' : Heap} {op : Operation} {handle : Handle} :
    h.answering? op handle = some h' ↔ op.run h = .ok (.handle handle) h' := by
  rw [answering?]
  split
  · rename_i answer h₁ hrun
    rw [hrun, Option.ite_none_right_eq_some, Option.some.injEq]
    exact ⟨fun ⟨ha, hh⟩ => by rw [ha, hh], fun he => by cases he; exact ⟨rfl, rfl⟩⟩
  · rename_i hnone
    exact ⟨fun he => (nomatch he), fun he => absurd he (hnone handle h')⟩

/-- A step that answers a handle and gives none up. -/
theorem Serves.answered {h h₁ h₂ : Heap} {live : Account} {op : Operation} {handle : Handle}
    (before : Serves h h₁ live) (ran : h₁.answering? op handle = some h₂)
    (hkeep : op.givenUp h₁ = none) : Serves h h₂ (live.after h₁ op (.handle handle)) :=
  before.granted h₁.region.refusals op _ (fun p hp => by rw [hkeep] at hp; cases hp)
    (answering?_eq_some_iff.1 ran)

/-! ## Accounts and objects -/

/-- The start of the object that a handle stands for: what its record says, or the handle. -/
def startOf (starts : Nat → Option Nat) (handle : Handle) : Nat := (starts handle).getD handle

/-- Each handle of the account stands for an object of its own, which has room for what was asked
from the handle on, and there are no other objects. Only such handles have records, and only where
they do not start the object. -/
structure Tracks (objects starts : Nat → Option Nat) (live : Account) : Prop where
  object : ∀ handle size, live handle = some size → ∃ length,
    objects (startOf starts handle) = some length ∧ startOf starts handle ≤ handle ∧
      handle < startOf starts handle + length ∧ handle + size ≤ startOf starts handle + length
  own : ∀ handle handle', live handle ≠ none → live handle' ≠ none →
    startOf starts handle = startOf starts handle' → handle = handle'
  recorded : ∀ handle, live handle = none → starts handle = none
  complete : ∀ start, objects start ≠ none → ∃ handle, live handle ≠ none ∧
    startOf starts handle = start

/-- No byte lies in two objects. -/
def Disjoint (objects : Nat → Option Nat) : Prop :=
  ∀ s l s' l' i, objects s = some l → objects s' = some l' → s ≤ i ∧ i < s + l →
    s' ≤ i ∧ i < s' + l' → s = s'

variable {h h' : Heap} {objects starts : Nat → Option Nat} {live : Account}

theorem WellFormed.disjoint (w : h.WellFormed) : Disjoint h.objectAt :=
  fun _ _ _ _ _ hs hs' hi hi' => (w.object_unique hs hs' hi hi').1

/-- Objects that share no byte lie one behind the other. -/
theorem WellFormed.apart (w : h.WellFormed) {s l s' l' : Nat} (hs : h.objectAt s = some l)
    (hs' : h.objectAt s' = some l') (hne : s ≠ s') : s + l ≤ s' ∨ s' + l' ≤ s := by
  have hpos := (w.object_bounds hs).1
  have hpos' := (w.object_bounds hs').1
  refine Decidable.byContradiction fun hover => hne ?_
  exact w.disjoint s l s' l' (max s s') hs hs' (by omega) (by omega)

theorem Tracks.empty (hnone : ∀ s, objects s = none) :
    Tracks objects (fun _ => none) fun _ => none :=
  ⟨fun _ _ h => (nomatch h), fun _ _ h => absurd rfl h, fun _ _ => rfl,
    fun s hs => absurd (hnone s) hs⟩

/-- A handle is given up together with its object and its record. -/
theorem Tracks.erase (t : Tracks objects starts live) {handle : Handle}
    (hl : live handle ≠ none) :
    Tracks (replaced objects (startOf starts handle) none)
      (fun k => if handle = k then none else starts k) (replaced live handle none) := by
  have other {k : Handle} (hk : replaced live handle none k ≠ none) :
      k ≠ handle ∧ live k ≠ none := by
    by_cases he : k = handle
    · rw [he, replaced_self] at hk
      exact absurd rfl hk
    · rw [replaced_of_ne _ _ he] at hk
      exact ⟨he, hk⟩
  have start {k : Handle} (hk : k ≠ handle) :
      startOf (fun k => if handle = k then none else starts k) k = startOf starts k := by
    rw [startOf, startOf, if_neg (Ne.symm hk)]
  refine ⟨fun k size hk => ?_, fun k k' hk hk' he => ?_, fun k hk => ?_, fun s hs => ?_⟩
  · obtain ⟨hne, hlive⟩ := other (by rw [hk]; exact Option.some_ne_none _)
    rw [replaced_of_ne _ _ hne] at hk
    obtain ⟨length, hobj, hplace⟩ := t.object k size hk
    rw [start hne]
    refine ⟨length, ?_, hplace⟩
    rw [replaced_of_ne _ _ fun he => hne (t.own k handle hlive hl he)]
    exact hobj
  · obtain ⟨hne, hlive⟩ := other hk
    obtain ⟨hne', hlive'⟩ := other hk'
    rw [start hne, start hne'] at he
    exact t.own k k' hlive hlive' he
  · by_cases he : handle = k
    · exact if_pos he
    · rw [if_neg he]
      rw [replaced_of_ne _ _ (Ne.symm he)] at hk
      exact t.recorded k hk
  · -- an object that is left stands behind another handle
    have hns : s ≠ startOf starts handle := by
      intro he
      rw [he, replaced_self] at hs
      exact hs rfl
    rw [replaced_of_ne _ _ hns] at hs
    obtain ⟨k, hk, hstart⟩ := t.complete s hs
    have hkh : k ≠ handle := by
      intro he
      rw [he] at hstart
      exact hns hstart.symm
    refine ⟨k, ?_, (start hkh).trans hstart⟩
    rw [replaced_of_ne _ _ hkh]
    exact hk

/-- What handles stand for after a record was made for one that had none, if it needs one. -/
theorem startOf_recorded (start : Nat) {handle : Handle} (hnone : starts handle = none)
    (k : Handle) :
    startOf (fun k => if handle = k ∧ handle ≠ start then some start else starts k) k =
      if k = handle then start else startOf starts k := by
  by_cases hk : k = handle
  · subst hk
    rw [if_pos rfl]
    by_cases he : k = start
    · rw [startOf, if_neg fun h => h.2 he, hnone]
      exact he
    · rw [startOf, if_pos ⟨rfl, he⟩]
      rfl
  · rw [if_neg hk, startOf, startOf, if_neg fun h => hk h.1.symm]

/-- The object of a handle is still there beside a new one. -/
theorem Tracks.beside (t : Tracks objects starts live) {start size : Nat}
    (hfresh : objects start = none) (length : Nat) {k : Handle} (hk : live k = some size) :
    ∃ l, replaced objects start (some length) (startOf starts k) = some l ∧
      startOf starts k ≠ start ∧ startOf starts k ≤ k ∧ k < startOf starts k + l ∧
      k + size ≤ startOf starts k + l := by
  obtain ⟨l, hobj, hplace⟩ := t.object k size hk
  have hne : startOf starts k ≠ start := by
    intro he
    rw [he, hfresh] at hobj
    cases hobj
  exact ⟨l, by rw [replaced_of_ne _ _ hne]; exact hobj, hne, hplace⟩

/-- No handle of the account lies in a new object. -/
theorem Tracks.unheld (t : Tracks objects starts live) {start length : Nat} {handle : Handle}
    (hfresh : objects start = none) (hd : Disjoint (replaced objects start (some length)))
    (hle : start ≤ handle) (hlt : handle < start + length) : live handle = none := by
  refine Option.eq_none_iff_forall_not_mem.2 fun size hs => ?_
  obtain ⟨l, hobj, hne, hlo, hhi, -⟩ := t.beside hfresh length hs
  exact hne (hd _ _ _ _ handle hobj (replaced_self _ _ _) ⟨hlo, hhi⟩ ⟨hle, hlt⟩)

/-- A new handle comes with an object of its own, and with a record if it does not start it. -/
theorem Tracks.insert (t : Tracks objects starts live) {start length handle size : Nat}
    (hfresh : objects start = none) (hd : Disjoint (replaced objects start (some length)))
    (hle : start ≤ handle) (hlt : handle < start + length) (hfit : handle + size ≤ start + length) :
    live handle = none ∧ Tracks (replaced objects start (some length))
      (fun k => if handle = k ∧ handle ≠ start then some start else starts k)
      (replaced live handle (some size)) := by
  have hnew := t.unheld hfresh hd hle hlt
  have starts' := startOf_recorded start (t.recorded handle hnew)
  -- the other handles of the account are those of before, and stand for other objects
  have other {k : Handle} (hk : k ≠ handle) (hl : replaced live handle (some size) k ≠ none) :
      live k ≠ none ∧ startOf starts k ≠ start := by
    rw [replaced_of_ne _ _ hk] at hl
    obtain ⟨s, hs⟩ := Option.ne_none_iff_exists'.1 hl
    obtain ⟨l, -, hne, -⟩ := t.beside hfresh length hs
    exact ⟨hl, hne⟩
  refine ⟨hnew, fun k s hk => ?_, fun k k' hk hk' he => ?_, fun k hk => ?_, fun s hs => ?_⟩
  · rw [starts']
    by_cases hkh : k = handle
    · subst hkh
      rw [replaced_self, Option.some.injEq] at hk
      subst hk
      rw [if_pos rfl]
      exact ⟨length, replaced_self _ _ _, hle, hlt, hfit⟩
    · rw [replaced_of_ne _ _ hkh] at hk
      obtain ⟨l, hobj, -, hplace⟩ := t.beside hfresh length hk
      rw [if_neg hkh]
      exact ⟨l, hobj, hplace⟩
  · rw [starts', starts'] at he
    by_cases hkh : k = handle
    · by_cases hkh' : k' = handle
      · rw [hkh, hkh']
      · rw [if_pos hkh, if_neg hkh'] at he
        exact absurd he.symm (other hkh' hk').2
    · by_cases hkh' : k' = handle
      · rw [if_neg hkh, if_pos hkh'] at he
        exact absurd he (other hkh hk).2
      · rw [if_neg hkh, if_neg hkh'] at he
        exact t.own k k' (other hkh hk).1 (other hkh' hk').1 he
  · have hkh : k ≠ handle := by
      rintro rfl
      rw [replaced_self] at hk
      cases hk
    rw [if_neg fun h => hkh h.1.symm]
    rw [replaced_of_ne _ _ hkh] at hk
    exact t.recorded k hk
  · by_cases hss : s = start
    · refine ⟨handle, ?_, by rw [starts', if_pos rfl, hss]⟩
      rw [replaced_self]
      exact Option.some_ne_none size
    · rw [replaced_of_ne _ _ hss] at hs
      obtain ⟨k, hk, hstart⟩ := t.complete s hs
      have hkh : k ≠ handle := by
        rintro rfl
        exact hk hnew
      refine ⟨k, ?_, by rw [starts', if_neg hkh, hstart]⟩
      rw [replaced_of_ne _ _ hkh]
      exact hk

end Heap

end RegionHeap
