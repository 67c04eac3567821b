import RegionHeap.Proofs.Heap.Handles
import RegionHeap.Proofs.Heap.Recording
import RegionHeap.Proofs.Heap.Remembering

/-!
Clients that give up only handles that they hold, on a heap that may itself be given up and loaded
again at any moment. Such a client keeps a book of what it was answered: its handles, with the size
it asked for and where the object was when it was handed out, and the names in use (`Book`). What it
holds after the heap was loaded again is what it held when the heap was saved (`Custody`). The heap
agrees with the book at all times, and its alignment records are those that the handles need
(`Custody.guarded`).
-/
namespace RegionHeap

open Heap

/-! ## Books -/

/-- The names in use after an operation is granted. -/
def Operation.namesAfter (names : List String) : Operation → List String
  | allocateNamed name _ | allocateZeroedNamed name .. | allocateAlignedNamed name ..
  | register name _ => name :: names
  | freeNamed name | unregister name => names.erase name
  | _ => names

theorem Operation.namesAfter_perm {names names' : List String} (hp : names.Perm names')
    (op : Operation) : (op.namesAfter names).Perm (op.namesAfter names') := by
  cases op <;> first | exact hp | exact hp.cons _ | exact hp.erase _

/-- The handle that an operation has answered for a new object, with the size that was asked for. -/
def Operation.obtained? (op : Operation) : Answer → Option (Handle × Nat)
  | .handle handle => op.requested.map fun size => (handle, size)
  | _ => none

/-- An object as it is entered when it is handed out: the size that was asked for, where it starts
and how long it is. -/
structure Holding where
  size : Nat
  extent : Nat × Nat
  deriving DecidableEq, Repr

/-- What a client holds, by handles, and the names that it has given. -/
structure Book where
  objects : OrderedMap Holding := .empty
  names : List String := []

/-- Where the object of a handle starts, and its length. -/
def Heap.extentAt (h : Heap) (handle : Handle) : Nat × Nat :=
  match h.extentOf handle with
  | .ok extent => extent
  | .error _ => (handle, 0)

namespace Book

/-- The sizes that were asked for. -/
def live (b : Book) : Account := fun handle => (b.objects.find? handle).map Holding.size

/-- The objects without one that was given up. -/
def without (b : Book) : Option Handle → OrderedMap Holding
  | some handle => b.objects.erase handle
  | none => b.objects

/-- The book after an operation was granted and left a heap. -/
def after (b : Book) (h : Heap) (op : Operation) (answer : Answer) (h' : Heap) : Book where
  objects := match op.obtained? answer with
    | some (handle, size) => (b.without (op.givenUp h)).insert handle ⟨size, h'.extentAt handle⟩
    | none => b.without (op.givenUp h)
  names := op.namesAfter b.names

theorem live_of_find? {b : Book} {handle : Handle} {x : Holding}
    (hx : b.objects.find? handle = some x) : b.live handle ≠ none := by
  rw [live, hx]
  exact Option.some_ne_none x.size

theorem find?_without (b : Book) (given : Option Handle) (handle : Handle) :
    (b.without given).find? handle = if given = some handle then none else b.objects.find? handle := by
  cases given with
  | none => rfl
  | some p =>
    refine (OrderedMap.find?_erase _ _ _).trans ?_
    by_cases hp : p = handle <;> simp [hp]

theorem live_without (b : Book) (given : Option Handle) :
    (fun k => ((b.without given).find? k).map Holding.size) = b.live.without given := by
  funext k
  rw [find?_without]
  cases given with
  | none => rfl
  | some p =>
    by_cases hp : p = k
    · rw [if_pos (congrArg some hp), Account.without, hp, replaced_self]
      rfl
    · rw [if_neg fun he => hp (Option.some.inj he), Account.without, replaced_of_ne _ _ (Ne.symm hp)]
      rfl

/-- The sizes are kept account of as without a book. -/
theorem live_after (b : Book) (h : Heap) (op : Operation) (answer : Answer) (h' : Heap) :
    (b.after h op answer h').live = b.live.after h op answer := by
  have account : b.live.after h op answer = match op.obtained? answer with
      | some (handle, size) => replaced (b.live.without (op.givenUp h)) handle (some size)
      | none => b.live.without (op.givenUp h) := by
    unfold Account.after Operation.obtained?
    cases op.requested <;> cases answer <;> rfl
  rw [account, ← b.live_without]
  funext k
  unfold live after
  cases op.obtained? answer with
  | none => rfl
  | some p =>
    simp only [OrderedMap.find?_insert]
    by_cases hk : p.1 = k
    · rw [if_pos hk, hk, replaced_self]
      rfl
    · rw [if_neg hk, replaced_of_ne _ _ (Ne.symm hk)]

/-- What stands in the book is new, or stood there before and was not given up. -/
theorem find?_after {b : Book} {h h' : Heap} {op : Operation} {answer : Answer} {handle : Handle}
    {x : Holding} (hx : (b.after h op answer h').objects.find? handle = some x) :
    x.extent = h'.extentAt handle ∨
      b.objects.find? handle = some x ∧ op.givenUp h ≠ some handle := by
  have old (hx : (b.without (op.givenUp h)).find? handle = some x) :
      b.objects.find? handle = some x ∧ op.givenUp h ≠ some handle := by
    rw [find?_without] at hx
    split at hx
    · cases hx
    · rename_i hne
      exact ⟨hx, hne⟩
  unfold after at hx
  cases ho : op.obtained? answer with
  | none =>
    rw [ho] at hx
    exact .inr (old hx)
  | some p =>
    rw [ho] at hx
    simp only [OrderedMap.find?_insert] at hx
    by_cases hp : p.1 = handle
    · rw [if_pos hp, Option.some.injEq] at hx
      rw [← hx, hp]
      exact .inl rfl
    · rw [if_neg hp] at hx
      exact .inr (old hx)

theorem after_sync (b : Book) (h : Heap) (answer : Answer) (h' : Heap) :
    b.after h .sync answer h' = b := by
  cases answer <;> rfl

end Book

namespace Heap

open HeapM BlockTable

variable {h h' : Heap} {host : Host} {g : Geometry} {region : Region} {live : Account}
  {book saved : Book}

/-- An operation that is granted changes the names as its client expects. -/
theorem Effect.names_perm {op : Operation} {answer : Answer} (e : Effect h h' op answer)
    (w : h.WellFormed) : h'.names.names.Perm (op.namesAfter h.names.names) := by
  have kept (hn : h'.names = h.names) : h'.names.names.Perm h.names.names := by rw [hn]
  have added {h₁ : Heap} {name : String} {offset : Nat} {names : NameTable}
      (registered : NameTable.register name offset h.names = .ok () names) (r : Renames h₁ h' names) :
      h'.names.names.Perm (name :: h.names.names) := by
    rw [r.eq]
    exact w.names.names_register registered
  have taken {h₁ : Heap} {name : String} {offset : Nat} {names : NameTable}
      (unregistered : NameTable.unregister name h.names = .ok offset names) (r : Renames h₁ h' names) :
      h'.names.names.Perm (h.names.names.erase name) := by
    have hp := (w.names.names_unregister unregistered).erase name
    rw [List.erase_cons_head] at hp
    rw [r.eq]
    exact hp.symm
  cases e with
  | allocate a =>
    obtain ⟨-, _, -, t⟩ := a
    exact kept t.names_eq
  | allocateZeroed a _ =>
    obtain ⟨-, _, -, t⟩ := a
    exact kept t.names_eq
  | allocateAligned a =>
    obtain ⟨-, _, _, -, -, -, t⟩ := a
    exact kept t.names_eq
  | allocatePageAligned a =>
    obtain ⟨-, _, _, -, -, -, t⟩ := a
    exact kept t.names_eq
  | reallocate r =>
    obtain ⟨⟨_, -, ⟨-, -, t⟩ | ⟨-, t⟩⟩, -⟩ := r
    · exact kept t.names_eq
    · exact kept t.names_eq
  | free _ t => exact kept t.names_eq
  | allocateNamed _ registered r => exact added registered r
  | allocateZeroedNamed _ _ registered r => exact added registered r
  | allocateAlignedNamed _ registered r => exact added registered r
  | freeNamed _ _ _ unregistered r => exact taken unregistered r
  | register registered r => exact added registered r
  | unregister unregistered r => exact taken unregistered r
  | write _ _ wr _ => exact kept wr.names_eq
  | fill _ _ wr _ => exact kept wr.names_eq
  | grow t _ => exact kept t.names_eq
  | shrink t => exact kept t.names_eq
  | trim t => exact kept t.names_eq
  | sync s => exact kept (by rw [s.eq])
  | lookup same _ => exact kept (by rw [same])
  | resolve same => exact kept (by rw [same])
  | usableFrom same _ => exact kept (by rw [same])
  | read same => exact kept (by rw [same])
  | names same => exact kept (by rw [same])
  | usage same _ => exact kept (by rw [same])
  | defects same => exact kept (by rw [same])
  | freeRuns same _ => exact kept (by rw [same])

/-! ## Histories -/

/-- What a client may have made of a new heap, its book, and what that was when the heap was saved
last. It gives up only handles that it holds; apart from that it may ask for anything, and be refused
anything. Once the heap is loaded again, from the bytes that it left behind, the book is the one from
when the heap was saved. -/
inductive Custody (host : Host) (g : Geometry) (region : Region) : Heap → Book → Book → Prop where
  | created {h : Heap} (hc : create host g region = .ok h) : Custody host g region h {} {}
  | granted {h h' : Heap} {book saved : Book} (refusals : Option Refusals) (op : Operation)
    (answer : Answer) (before : Custody host g region h book saved) (unsaved : op ≠ .sync)
    (permitted : h.Permits book.live op) (ran : op.run (h.withRefusals refusals) = .ok answer h') :
    Custody host g region h' (book.after h op answer h') saved
  | refused {h h' : Heap} {book saved : Book} (refusals : Option Refusals) (op : Operation)
    (e : HeapError) (before : Custody host g region h book saved) (unsaved : op ≠ .sync)
    (ran : op.run (h.withRefusals refusals) = .error (.refused e) h') :
    Custody host g region h' book saved
  | synced {h h' : Heap} {book saved : Book} (refusals : Option Refusals)
    (before : Custody host g region h book saved)
    (leaves : Operation.sync.Leaves (h.withRefusals refusals) h') : Custody host g region h' book book
  | reopened {h h' : Heap} {book saved : Book} {region' : Region}
    (before : Custody host g region h book saved) (same : Region.SameBytes h.region region')
    (loaded : load region' = .ok h') : Custody host g region h' saved saved

/-- The book is right, and so are the alignment records. -/
structure Guarded (host : Host) (g : Geometry) (h : Heap) (book : Book) : Prop
    extends Isolated h book.live where
  extents : ∀ handle x, book.objects.find? handle = some x → h.extentOf handle = .ok x.extent
  names : h.names.names.Perm book.names
  leadToRuns : h.LeadToRuns
  capacity_eq : h.aligned.capacity = g.maxAligned

/-- Where an object is still there, the offsets in it lead to it. -/
theorem WellFormed.extentOf_kept (w : h.WellFormed) (w' : h'.WellFormed) {offset : Nat}
    {extent : Nat × Nat} (he : h.extentOf offset = .ok extent)
    (hobj : h'.objectAt extent.1 = some extent.2) : h'.extentOf offset = .ok extent :=
  w'.extentOf_eq_ok_iff.2 ⟨hobj, (w.extentOf_eq_ok_iff.1 he).2⟩

namespace Guarded

theorem of_created (c : Created g region h) : Guarded host g h {} where
  toIsolated := c.isolated
  extents handle x hx := by cases hx
  names := by rw [c.names]; rfl
  leadToRuns handle start hs := by
    rw [c.aligned] at hs
    cases hs
  capacity_eq := by rw [c.aligned]; rfl

theorem withRefusals (k : Guarded host g h book) (refusals : Option Refusals) :
    Guarded host g (h.withRefusals refusals) book :=
  ⟨k.toIsolated.withRefusals refusals, k.extents, k.names, k.leadToRuns, k.capacity_eq⟩

/-- What stands in the book starts where its handle leads. -/
theorem extent_eq (k : Guarded host g h book) {handle : Handle} {x : Holding}
    (hx : book.objects.find? handle = some x) :
    ∃ length, x.extent = (h.allocationOf handle, length) := by
  obtain ⟨length, -, hext⟩ := k.extentOf_eq (Book.live_of_find? hx)
  rw [k.extents handle x hx, Except.ok.injEq] at hext
  exact ⟨length, hext⟩

theorem granted (k : Guarded host g h book) {op : Operation} {answer : Answer}
    (permitted : h.Permits book.live op) (ran : op.run h = .ok answer h') :
    Guarded host g h' (book.after h op answer h') := by
  have e := (op.effects k.wellFormed).of_ok ran
  have i' := (e.isolated k.toIsolated permitted).1
  rw [← book.live_after h op answer h'] at i'
  refine ⟨i', fun handle x hx => ?_, (e.names_perm k.wellFormed).trans (op.namesAfter_perm k.names),
    k.leadToRuns.granted k.toIsolated permitted ran, ?_⟩
  · rcases Book.find?_after hx with hextent | ⟨hold, hnot⟩
    · obtain ⟨length, -, hext⟩ := i'.extentOf_eq (Book.live_of_find? hx)
      rw [hextent, Heap.extentAt, hext]
    · -- only the object of another handle is given up
      have hext := k.extents handle x hold
      obtain ⟨length, hstart⟩ := k.extent_eq hold
      refine k.wellFormed.extentOf_kept i'.wellFormed hext
        (e.objectAt_kept k.toIsolated permitted (fun p hp heq => hnot ?_)
          (k.wellFormed.extentOf_eq_ok_iff.1 hext).1)
      rw [hstart] at heq
      rw [hp, k.tracks.own p handle (permitted p hp) (Book.live_of_find? hold) heq]
  · exact (congrArg Frame.recordCapacity (e.continues k.wellFormed).frame_eq).trans k.capacity_eq

theorem refused (k : Guarded host g h book) {op : Operation} {e : HeapError}
    (ran : op.run h = .error (.refused e) h') : Guarded host g h' book := by
  have r := ((op.effects k.wellFormed).of_refused ran).1
  obtain ⟨i', keeps⟩ := r.isolated k.toIsolated
  refine ⟨i', fun handle x hx => ?_, by rw [r.registry_eq.1]; exact k.names,
    k.leadToRuns.refused k.toIsolated r, ?_⟩
  · have hext := k.extents handle x hx
    exact k.wellFormed.extentOf_kept i'.wellFormed hext
      (keeps _ _ (k.wellFormed.extentOf_eq_ok_iff.1 hext).1).1
  · exact (congrArg Frame.recordCapacity (r.continues k.wellFormed).frame_eq).trans k.capacity_eq

/-- A heap that was loaded again is guarded as it was when it was saved. -/
theorem recalled (k : Guarded host g h book) (r : Recalls h h') : Guarded host g h' book := by
  have hobjects : h'.objectAt = h.objectAt := funext r.objectAt_eq
  refine ⟨⟨r.wellFormed, ?_⟩, fun handle x hx => ?_, ?_,
    fun handle start hs => ?_, by rw [r.aligned_eq, k.capacity_eq]⟩
  · rw [hobjects, r.aligned_eq]
    exact k.tracks
  · have hext := k.extents handle x hx
    refine k.wellFormed.extentOf_kept r.wellFormed hext ?_
    rw [hobjects]
    exact (k.wellFormed.extentOf_eq_ok_iff.1 hext).1
  · rw [r.eq, restored, NameTable.names, NameTable.slots_numbered]
    exact k.names
  · rw [r.aligned_eq] at hs
    obtain ⟨hlt, length, hobj, hle⟩ := k.leadToRuns handle start hs
    exact ⟨hlt, length, by rw [hobjects, hobj], by rw [blockSize, r.blockLog2_eq]; exact hle⟩

end Guarded

/-- What holds of the heap held of the one that is remembered, too. -/
theorem Custody.guarded (c : Custody host g region h book saved) :
    Reachable host g region h ∧ Guarded host g h book ∧
      h.Remembers fun h₀ => Guarded host g h₀ saved := by
  induction c with
  | created hc =>
    have c := create_eq_ok hc
    exact ⟨.created hc, .of_created c, .of_created c (.of_created c)⟩
  | granted refusals op answer _ unsaved permitted ran ih =>
    obtain ⟨reached, k, r⟩ := ih
    have k := k.withRefusals refusals
    exact ⟨reached.used refusals op (.granted answer ran), k.granted permitted ran,
      (r.withRefusals refusals).kept k.wellFormed unsaved (.granted answer ran)⟩
  | refused refusals op e _ unsaved ran ih =>
    obtain ⟨reached, k, r⟩ := ih
    have k := k.withRefusals refusals
    exact ⟨reached.used refusals op (.refused e ran), k.refused ran,
      (r.withRefusals refusals).kept k.wellFormed unsaved (.refused e ran)⟩
  | synced refusals _ leaves ih =>
    obtain ⟨reached, k, -⟩ := ih
    have k := k.withRefusals refusals
    refine ⟨reached.used refusals .sync leaves, ?_,
      .of_sync (reached.restorable.withRefusals refusals) k leaves⟩
    cases leaves with
    | granted answer ran =>
      have k' := k.granted (fun p hp => by cases hp) ran
      rwa [Book.after_sync] at k'
    | refused e ran => exact k.refused ran
  | reopened _ same loaded ih =>
    obtain ⟨reached, k, r⟩ := ih
    obtain ⟨h₀, k₀, recalls, r⟩ := r.loaded k.wellFormed same loaded
    exact ⟨reached.reopened same loaded, k₀.recalled recalls, r⟩

/-- A client that never has its heap loaded again can keep a book as well as an account. -/
theorem Serves.custody {h₀ : Heap} (s : Serves h₀ h live) (hc : create host g region = .ok h₀) :
    ∃ book saved, Custody host g region h book saved ∧ book.live = live := by
  induction s with
  | start => exact ⟨_, _, .created hc, rfl⟩
  | granted refusals op answer _ permitted ran ih =>
    obtain ⟨book, saved, c, rfl⟩ := ih
    by_cases hop : op = .sync
    · subst hop
      exact ⟨_, _, c.synced refusals (.granted answer ran), rfl⟩
    · exact ⟨_, _, c.granted refusals op answer hop permitted ran, book.live_after _ _ _ _⟩
  | refused refusals op e _ _ ran ih =>
    obtain ⟨book, saved, c, rfl⟩ := ih
    by_cases hop : op = .sync
    · subst hop
      exact ⟨_, _, c.synced refusals (.refused e ran), rfl⟩
    · exact ⟨_, _, c.refused refusals op e hop ran, rfl⟩

end Heap

end RegionHeap
