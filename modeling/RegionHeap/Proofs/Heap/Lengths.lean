import RegionHeap.Proofs.Heap.Custody
import RegionHeap.Proofs.Heap.Resolution

/-!
How long objects are. A ledger has, by where objects start, the sizes that they were made for or last
resized to (`Ledger.after`); every history of a heap has one, whatever its clients do. The object at an
entry has the length of the class of that size for as long as the entry stands (`Ledgered.fits`):
the step is `Operation.settles`, where the sizes come from the one place that places new objects. With
what offsets resolve to, that makes address resolution exact (`resolution_exact`).
-/
namespace RegionHeap

open Heap HeapM

/-! ## Ledgers -/

namespace Operation

/-- Where an operation had an object made, and for what size. What is allocated on a boundary is made
for a larger one than was asked for, and is left out. -/
def made? (op : Operation) (answer : Answer) : Option (Handle × Nat) :=
  if op.isOnBoundary then none else op.obtained? answer

/-- Where the allocation starts that an operation gives up. A handle that is answered again keeps
its own. -/
def vacated? (h : Heap) (op : Operation) (answer : Answer) : Option Nat :=
  match op.givenUp h, answer with
  | some handle, .handle moved => if moved = handle then none else some (h.allocationOf handle)
  | some handle, _ => some (h.allocationOf handle)
  | none, _ => none

theorem made?_eq_some {op : Operation} {answer : Answer} {start size : Nat} :
    op.made? answer = some (start, size) ↔
      op.isOnBoundary = false ∧ answer = .handle start ∧ op.requested = some size := by
  unfold made? obtained?
  cases op.isOnBoundary with
  | true => simp
  | false =>
    cases answer with
    | handle handle => cases op.requested <;> simp
    | _ => simp

/-- An object that moved has left its allocation. -/
theorem vacated?_reallocate {h : Heap} {handle moved : Handle} {size : Nat} (hne : moved ≠ handle) :
    (reallocate handle size).vacated? h (.handle moved) = some (h.allocationOf handle) := if_neg hne

end Operation

/-- The sizes that objects were made for, by where they start. -/
abbrev Ledger := Nat → Option Nat

namespace Ledger

variable {made : Ledger} {start size : Nat}

/-- The ledger with a new entry. -/
def enter (made : Ledger) : Option (Nat × Nat) → Ledger
  | some (start, size) => replaced made start (some size)
  | none => made

/-- The ledger without the entry for a start. -/
def drop (made : Ledger) : Option Nat → Ledger
  | some start => replaced made start none
  | none => made

/-- The ledger after an operation was granted. -/
def after (made : Ledger) (h : Heap) (op : Operation) (answer : Answer) : Ledger :=
  (made.enter (op.made? answer)).drop (op.vacated? h answer)

theorem after_sync (made : Ledger) (h : Heap) (answer : Answer) : made.after h .sync answer = made := by
  cases answer <;> rfl

theorem enter_eq_some {new : Option (Nat × Nat)} (hs : made.enter new start = some size) :
    new = some (start, size) ∨
      made start = some size ∧ ∀ size', new ≠ some (start, size') := by
  cases new with
  | none => exact .inr ⟨hs, nofun⟩
  | some entry =>
    obtain ⟨start', size'⟩ := entry
    rw [enter] at hs
    by_cases heq : start = start'
    · subst heq
      rw [replaced_self] at hs
      cases hs
      exact .inl rfl
    · rw [replaced_of_ne _ _ heq] at hs
      refine .inr ⟨hs, fun size'' he => heq ?_⟩
      cases he
      rfl

theorem drop_eq_some {gone : Option Nat} (hs : made.drop gone start = some size) :
    gone ≠ some start ∧ made start = some size := by
  cases gone with
  | none => exact ⟨nofun, hs⟩
  | some start' =>
    rw [drop] at hs
    by_cases heq : start = start'
    · rw [heq, replaced_self] at hs
      cases hs
    · rw [replaced_of_ne _ _ heq] at hs
      exact ⟨fun he => heq (Option.some.inj he).symm, hs⟩

end Ledger

namespace Heap

variable {h h' : Heap} {host : Host} {g : Geometry} {region : Region} {op : Operation} {answer : Answer}
  {made saved : Ledger} {start size length : Nat}

/-- A history of a heap with its ledger, and with what that was when the heap was saved last. Any
operation may be asked for. Once the heap is loaded again, from the bytes that it left behind, the
ledger is the one from when the heap was saved. -/
inductive Ledgered (host : Host) (g : Geometry) (region : Region) : Heap → Ledger → Ledger → Prop where
  | created {h : Heap} (hc : create host g region = .ok h) :
    Ledgered host g region h (fun _ => none) fun _ => none
  | granted {h h' : Heap} {made saved : Ledger} (refusals : Option Refusals) (op : Operation)
    (answer : Answer) (before : Ledgered host g region h made saved) (unsaved : op ≠ .sync)
    (ran : op.run (h.withRefusals refusals) = .ok answer h') :
    Ledgered host g region h' (made.after h op answer) saved
  | refused {h h' : Heap} {made saved : Ledger} (refusals : Option Refusals) (op : Operation)
    (e : HeapError) (before : Ledgered host g region h made saved) (unsaved : op ≠ .sync)
    (ran : op.run (h.withRefusals refusals) = .error (.refused e) h') :
    Ledgered host g region h' made saved
  | synced {h h' : Heap} {made saved : Ledger} (refusals : Option Refusals)
    (before : Ledgered host g region h made saved)
    (leaves : Operation.sync.Leaves (h.withRefusals refusals) h') : Ledgered host g region h' made made
  | reopened {h h' : Heap} {made saved : Ledger} {region' : Region}
    (before : Ledgered host g region h made saved) (same : Region.SameBytes h.region region')
    (loaded : load region' = .ok h') : Ledgered host g region h' saved saved

/-- Every history has a ledger. -/
theorem Reachable.ledgered (reached : Reachable host g region h) :
    ∃ made saved, Ledgered host g region h made saved := by
  induction reached with
  | created hc => exact ⟨_, _, .created hc⟩
  | used refusals op _ leaves ih =>
    obtain ⟨made, saved, l⟩ := ih
    by_cases hop : op = .sync
    · subst hop
      exact ⟨_, _, l.synced refusals leaves⟩
    · cases leaves with
      | granted answer ran => exact ⟨_, _, l.granted refusals op answer hop ran⟩
      | refused e ran => exact ⟨_, _, l.refused refusals op e hop ran⟩
  | reopened _ same loaded ih =>
    obtain ⟨made, saved, l⟩ := ih
    exact ⟨_, _, l.reopened same loaded⟩

/-! ## What operations make -/

/-- An object of the class of a request, which may be given a name. -/
structure MadeAs (h h' : Heap) (handle size : Nat) : Prop extends Nameable h h' handle where
  length_eq : h'.objectAt handle = some (h.classLength (h.sizeClass size))

theorem allocate_made (w : h.WellFormed) (size : Nat) : Ends False (allocate size) h
    (fun handle h' => MadeAs h h' handle size) fun _ _ => True := by
  refine (allocate_lodged w size).or_trap.mono (fun handle h' o => ?_) fun _ _ _ => trivial
  refine ⟨(o.allocated w).nameable, ?_⟩
  rw [o.turns.objects_eq, replaced_self]

theorem allocateZeroed_made (w : h.WellFormed) (count size : Nat) :
    Ends False (allocateZeroed count size) h (fun handle h' => MadeAs h h' handle (count * size))
      fun _ _ => True := by
  refine Ends.bind' (Ends.orRefuse' (fun total htotal => ?_) fun _ => trivial)
  obtain ⟨-, rfl⟩ := Size.mul?_eq_some_iff.1 htotal
  refine Ends.bind' ((allocate_lodged w _).or_trap.mono ?_ fun _ _ _ => trivial)
  intro handle h₁ o
  have t := o.turns
  have hle := le_classLength w (count * size)
  refine Ends.bind' ((writeObject_ends t.wellFormed ((t.objects_eq handle).trans (replaced_self _ _ _))
    (Nat.le_refl _) (by rw [Bytes.size_zeros]; omega)).mono ?_ fun _ _ hE => hE)
  intro _ h₂ written
  have t₂ := t.then_writes written.1 o.fresh
  refine Ends.pure' ⟨Allocated.nameable ⟨o.fresh, _, hle, t₂⟩, ?_⟩
  rw [t₂.objects_eq, replaced_self]

/-- What is allocated by a name is made like what is allocated without. -/
theorem allocateAs_made (w : h.WellFormed) {allocation : HeapM Handle} (name : String)
    (made : Ends False allocation h (fun handle h' => MadeAs h h' handle size) fun _ _ => True) :
    Ends False (allocateAs name allocation) h
      (fun handle h' => h'.objectAt handle = some (h.classLength (h.sizeClass size)))
      fun _ _ => True := by
  refine (allocateAs_renames name w made (fun _ _ => trivial) fun _ _ m => m.toNameable).mono ?_
    fun _ _ hE => hE
  intro handle h' named
  obtain ⟨h₁, names, m, -, r⟩ := named
  rw [r.eq]
  exact m.length_eq

/-- An object that was made has the length of its class, unless it is given up at once. -/
def Makes (h h' : Heap) (op : Operation) (answer : Answer) : Prop :=
  ∀ start size, op.made? answer = some (start, size) → op.vacated? h answer ≠ some start →
    h'.objectAt start = some (h.classLength (h.sizeClass size))

/-- Objects that are not given up, nor made anew, stay as they are. -/
def Spares (h h' : Heap) (op : Operation) (answer : Answer) : Prop :=
  ∀ start length, h.objectAt start = some length → op.vacated? h answer ≠ some start →
    (∀ size, op.made? answer ≠ some (start, size)) → h'.objectAt start = some length

/-- An operation that answers the handle of an object that it made. -/
theorem makes_of_length {x : HeapM Handle} (requested : op.requested = some size)
    (ends : Ends False x h
      (fun handle h' => h'.objectAt handle = some (h.classLength (h.sizeClass size)))
      fun _ _ => True) :
    Ends False (Answer.handle <$> x) h (fun answer h' => Makes h h' op answer) fun _ _ => True := by
  refine Ends.map' (ends.mono (fun handle h' length_eq start size' hmade _ => ?_) fun _ _ hE => hE)
  obtain ⟨-, hanswer, hsize⟩ := Operation.made?_eq_some.1 hmade
  cases hanswer
  rw [requested, Option.some.injEq] at hsize
  rw [← hsize]
  exact length_eq

theorem Operation.makes (w : h.WellFormed) (op : Operation) :
    Ends False op.run h (fun answer h' => Makes h h' op answer) fun _ _ => True := by
  have nothing (h₀ : ∀ size, op.isOnBoundary = false → op.requested ≠ some size) :
      Ends False op.run h (fun answer h' => Makes h h' op answer) fun _ _ => True := by
    refine (op.effects w).or_trap.mono (fun answer h' _ start size hmade => ?_) fun _ _ _ => trivial
    obtain ⟨hoff, -, hsize⟩ := Operation.made?_eq_some.1 hmade
    exact absurd hsize (h₀ size hoff)
  have length {x : HeapM Handle} {size : Nat}
      (made : Ends False x h (fun handle h' => MadeAs h h' handle size) fun _ _ => True) :
      Ends False x h (fun handle h' => h'.objectAt handle = some (h.classLength (h.sizeClass size)))
        fun _ _ => True := made.mono (fun _ _ m => m.length_eq) fun _ _ hE => hE
  cases op with
  | allocate size => exact makes_of_length rfl (length (allocate_made w size))
  | allocateZeroed count size => exact makes_of_length rfl (length (allocateZeroed_made w count size))
  | allocateNamed name size => exact makes_of_length rfl (allocateAs_made w name (allocate_made w size))
  | allocateZeroedNamed name count size =>
    exact makes_of_length rfl (allocateAs_made w name (allocateZeroed_made w count size))
  | reallocate handle size =>
    refine Ends.map' ((reallocate_ends_sized w handle size).or_trap.mono ?_ fun _ _ _ => trivial)
    intro moved h' r start size' hmade hstays
    obtain ⟨-, hanswer, hsize⟩ := Operation.made?_eq_some.1 hmade
    cases hanswer
    cases hsize
    refine r.2.2.length_eq (Decidable.or_iff_not_imp_left.2 fun hne heq => hstays ?_)
    rw [Operation.vacated?_reallocate hne, ← heq]
  | _ => exact nothing fun size hoff hsize => by cases hoff <;> cases hsize

/-- Of all operations but reallocation the effect says that other objects stay. -/
theorem Effect.spares (e : Effect h h' op answer)
    (other : ∀ handle size, op ≠ .reallocate handle size) : Spares h h' op answer := by
  intro start length hs hstays _
  have allocated {h₁ : Heap} {handle size : Nat} (a : Allocated h h₁ handle size) :
      h₁.objectAt start = some length := by
    obtain ⟨fresh, _, -, t⟩ := a
    exact stays_of_fresh fresh t.objects_eq hs
  have onBoundary {h₁ : Heap} {alignment handle size : Nat}
      (a : AllocatedOn alignment h h₁ handle size) : h₁.objectAt start = some length := by
    obtain ⟨-, _, _, fresh, -, -, t⟩ := a
    exact stays_of_fresh fresh t.objects_eq hs
  have freed {h₁ : Heap} {handle : Handle} (hne : some (h.allocationOf handle) ≠ some start)
      (t : Turns (h.forgetRecord handle) h₁ (replaced h.objectAt (h.allocationOf handle) none)) :
      h₁.objectAt start = some length := by
    rw [t.objects_eq, replaced_of_ne _ _ fun heq => hne (congrArg some heq.symm)]
    exact hs
  have renamed {h₁ : Heap} {names : NameTable} (r : Renames h₁ h' names)
      (hs : h₁.objectAt start = some length) : h'.objectAt start = some length := by
    rw [r.eq]
    exact hs
  cases e with
  | allocate a => exact allocated a
  | allocateZeroed a _ => exact allocated a
  | allocateAligned a => exact onBoundary a
  | allocatePageAligned a => exact onBoundary a
  | reallocate _ => exact absurd rfl (other _ _)
  | free _ t => exact freed hstays t
  | allocateNamed a _ r => exact renamed r (allocated a)
  | allocateZeroedNamed a _ _ r => exact renamed r (allocated a)
  | allocateAlignedNamed a _ r => exact renamed r (onBoundary a)
  | freeNamed found _ t _ r =>
    simp only [Operation.vacated?, Operation.givenUp, found] at hstays
    exact renamed r (freed hstays t)
  | register _ r => exact renamed r hs
  | unregister _ r => exact renamed r hs
  | write _ _ wr _ => exact (wr.objects_eq start).trans hs
  | fill _ _ wr _ => exact (wr.objects_eq start).trans hs
  | grow t _ => exact (t.objects_eq start).trans hs
  | shrink t => exact (t.objects_eq start).trans hs
  | trim t => exact (t.objects_eq start).trans hs
  | sync s =>
    rw [s.eq]
    exact hs
  | lookup same _ => exact same ▸ hs
  | resolve same => exact same ▸ hs
  | usableFrom same _ => exact same ▸ hs
  | read same => exact same ▸ hs
  | names same => exact same ▸ hs
  | usage same _ => exact same ▸ hs
  | defects same => exact same ▸ hs
  | freeRuns same _ => exact same ▸ hs

theorem Reallocated.spares {handle moved : Nat} (r : Reallocated h h' handle moved size)
    (z : Sized h h' handle moved size) :
    Spares h h' (.reallocate handle size) (.handle moved) := by
  intro start length hs hstays hmade
  have hmoved : start ≠ moved := by
    intro heq
    exact hmade size (Operation.made?_eq_some.2 ⟨rfl, by rw [heq], rfl⟩)
  obtain ⟨⟨_, -, ⟨rfl, -, t⟩ | ⟨fresh, t⟩⟩, -⟩ := r
  · rw [t.objects_eq, replaced_of_ne _ _ hmoved, hs]
  · have hne : start ≠ h.allocationOf handle := by
      intro heq
      by_cases hown : moved = handle
      · exact hmoved (heq.trans ((z.own hown).trans hown.symm))
      · refine hstays ?_
        rw [Operation.vacated?_reallocate hown, heq]
    rw [t.objects_eq, replaced_of_ne _ _ hne, replaced_of_ne _ _ hmoved, hs]

/-- An operation that is refused leaves all objects, even where it leaves another one. -/
theorem Refusal.objectAt_kept (r : Refusal h h' op) (hs : h.objectAt start = some length) :
    h'.objectAt start = some length := by
  cases r with
  | unchanged same => exact same ▸ hs
  | allocateAligned t => exact (t.objects_eq start).trans hs
  | allocatePageAligned t => exact (t.objects_eq start).trans hs
  | allocateAlignedNamed t => exact (t.objects_eq start).trans hs
  | sync s =>
    rw [s.eq]
    exact hs
  | reallocate k =>
    rcases k with ⟨same, -⟩ | ⟨-, -, _, _, fresh, t⟩
    · exact same ▸ hs
    · exact stays_of_fresh fresh t.objects_eq hs

theorem Operation.spares (w : h.WellFormed) (op : Operation) :
    Ends False op.run h (fun answer h' => Spares h h' op answer) fun _ _ => True := by
  cases op with
  | reallocate handle size =>
    exact Ends.map' ((reallocate_ends_sized w handle size).or_trap.mono
      (fun _ _ r => r.1.spares r.2.2) fun _ _ _ => trivial)
  | _ => exact (Operation.effects w _).or_trap.mono (fun _ _ e => e.spares nofun) fun _ _ _ => trivial

/-! ## Histories -/

/-- Objects have the lengths of the sizes in the ledger. -/
def Fits (h : Heap) (made : Ledger) : Prop := ∀ start size, made start = some size →
  ∃ length, h.objectAt start = some length ∧ h.MadeFor size length

theorem MadeFor.of_blockLog2 (m : h.MadeFor size length) (hlog : h'.blockLog2 = h.blockLog2) :
    h'.MadeFor size length := by
  unfold MadeFor blocksFor at *
  rw [show h'.blockSize = h.blockSize by rw [blockSize, blockSize, hlog]]
  exact m

namespace Fits

theorem empty (h : Heap) : h.Fits fun _ => none := nofun

theorem withRefusals (f : h.Fits made) (refusals : Option Refusals) :
    (h.withRefusals refusals).Fits made := f

/-- An operation that is granted leaves the objects that the ledger says. -/
theorem granted (f : h.Fits made) (w : h.WellFormed) (ran : op.run h = .ok answer h') :
    h'.Fits (made.after h op answer) := by
  have hlog := blockLog2_of_frame (((op.effects w).of_ok ran).continues w).frame_eq
  intro start size hs
  obtain ⟨hstays, hentered⟩ := Ledger.drop_eq_some hs
  rcases Ledger.enter_eq_some hentered with hmade | ⟨hold, hother⟩
  · refine ⟨_, (Operation.makes w op).of_ok ran start size hmade hstays, ?_⟩
    exact (madeFor_sizeClass h size).of_blockLog2 hlog
  · obtain ⟨length, hobj, m⟩ := f start size hold
    exact ⟨length, (Operation.spares w op).of_ok ran start length hobj hstays hother, m.of_blockLog2 hlog⟩

/-- An operation that is refused leaves all objects. -/
theorem refused (f : h.Fits made) (w : h.WellFormed) {e : HeapError}
    (ran : op.run h = .error (.refused e) h') : h'.Fits made := by
  have r := ((op.effects w).of_refused ran).1
  have hlog := blockLog2_of_frame (r.continues w).frame_eq
  intro start size hs
  obtain ⟨length, hobj, m⟩ := f start size hs
  exact ⟨length, r.objectAt_kept hobj, m.of_blockLog2 hlog⟩

/-- The ledger of a heap that was saved is right when it is loaded again. -/
theorem recalled (f : h.Fits made) (r : Recalls h h') : h'.Fits made := by
  intro start size hs
  obtain ⟨length, hobj, m⟩ := f start size hs
  exact ⟨length, (r.objectAt_eq start).trans hobj, m.of_blockLog2 r.blockLog2_eq⟩

end Fits

/-- What the ledger says of the heap, the one that was saved says of the heap that is remembered. -/
theorem Ledgered.fits (l : Ledgered host g region h made saved) :
    Reachable host g region h ∧ h.Fits made ∧ h.Remembers fun h₀ => h₀.Fits saved := by
  induction l with
  | created hc => exact ⟨.created hc, .empty _, .of_created (create_eq_ok hc) (.empty _)⟩
  | granted refusals op answer _ unsaved ran ih =>
    obtain ⟨reached, f, r⟩ := ih
    have w := reached.restorable.wellFormed.withRefusals refusals
    exact ⟨reached.used refusals op (.granted answer ran), (f.withRefusals refusals).granted w ran,
      (r.withRefusals refusals).kept w unsaved (.granted answer ran)⟩
  | refused refusals op e _ unsaved ran ih =>
    obtain ⟨reached, f, r⟩ := ih
    have w := reached.restorable.wellFormed.withRefusals refusals
    exact ⟨reached.used refusals op (.refused e ran), (f.withRefusals refusals).refused w ran,
      (r.withRefusals refusals).kept w unsaved (.refused e ran)⟩
  | synced refusals _ leaves ih =>
    obtain ⟨reached, f, -⟩ := ih
    have w := reached.restorable.wellFormed.withRefusals refusals
    have f := f.withRefusals refusals
    refine ⟨reached.used refusals .sync leaves, ?_,
      .of_sync (reached.restorable.withRefusals refusals) f leaves⟩
    cases leaves with
    | granted answer ran =>
      have f' := f.granted w ran
      rwa [Ledger.after_sync] at f'
    | refused e ran => exact f.refused w ran
  | reopened _ same loaded ih =>
    obtain ⟨reached, -, r⟩ := ih
    obtain ⟨h₀, f₀, recalls, r⟩ := r.loaded reached.restorable.wellFormed same loaded
    exact ⟨reached.reopened same loaded, f₀.recalled recalls, r⟩

/-- What is made for no more than half a block is a fragment. -/
theorem MadeFor.lt_blockSize (m : h.MadeFor size length) (w : h.WellFormed)
    (hle : size ≤ h.blockSize / 2) : length < h.blockSize := by
  have hfits := sizeClass_fits w size
  have hclass := madeFor_sizeClass h size
  rw [sizeClass, if_pos hle] at hfits hclass
  rw [← m.unique hclass]
  exact fragmentSize_lt_blockSize hfits.2.1

/-- In every heap that can be reached, an offset in an object leads to the start of the object and has
just the bytes from there to its end; every other offset lies in a free run, in a free fragment or past
the arena, and is refused. Every history has a ledger, and by any of them an object is as long as the
size says that it was made for or last resized to. Fragments start at multiples of their length. -/
theorem resolution_exact (reached : Reachable host g region h) :
    (∀ offset start length, h.objectAt start = some length → start ≤ offset →
      offset < start + length → h.ResolvesTo offset start (start + length)) ∧
    (∀ offset, (∀ start length, h.objectAt start = some length →
      ¬(start ≤ offset ∧ offset < start + length)) → h.Invalid offset) ∧
    (∀ offset, h.Unallocated offset ↔ ∀ start length, h.objectAt start = some length →
      ¬(start ≤ offset ∧ offset < start + length)) ∧
    (∃ made saved, Ledgered host g region h made saved) ∧
    (∀ made saved, Ledgered host g region h made saved → ∀ start size, made start = some size →
      ∃ length, h.objectAt start = some length ∧ h.MadeFor size length ∧
        (size ≤ h.blockSize / 2 → length ∣ start)) ∧
    ∀ start length, h.objectAt start = some length → length < h.blockSize → length ∣ start := by
  have w := reached.restorable.wellFormed
  refine ⟨fun offset start length hobj hle hlt => w.resolvesTo hobj hle hlt,
    fun offset hnone => invalid_of_extentOf (w.extentOf_eq_invalid hnone),
    fun offset => w.unallocated_iff, reached.ledgered, fun made saved l start size hs => ?_,
    fun start length hobj hlt => w.fragment_aligned hobj hlt⟩
  obtain ⟨length, hobj, m⟩ := l.fits.2.1 start size hs
  exact ⟨length, hobj, m, fun hle => w.fragment_aligned hobj (m.lt_blockSize w hle)⟩

/-- A step that answers a handle. -/
theorem Ledgered.answered {handle : Handle} (before : Ledgered host g region h made saved)
    (ran : h.answering? op handle = some h') (unsaved : op ≠ .sync) :
    Ledgered host g region h' (made.after h op (.handle handle)) saved :=
  before.granted h.region.refusals op _ unsaved (answering?_eq_some_iff.1 ran)

/-- An object of 300 bytes that was resized to 1000 has four blocks of 256 bytes. The offset 700 leads to
it with the 324 bytes behind, and the one at the end of the arena leads nowhere. -/
theorem resolution_exact_small : ∃ h made saved, Reachable .ample smallGeometry smallRegion h ∧
    Ledgered .ample smallGeometry smallRegion h made saved ∧ made 0 = some 1000 ∧
      h.objectAt 0 = some 1024 ∧ h.ResolvesTo 700 0 1024 ∧ h.Unallocated 1024 ∧ h.Invalid 1024 := by
  have run : ((create .ample smallGeometry smallRegion).toOption.bind fun h =>
      (h.answering? (.allocate 300) 0).bind fun h =>
        (h.answering? (.reallocate 0 1000) 0).bind fun h =>
          if h.blockSize = 256 ∧ h.blockCount = 4 then some h else none).isSome = true := by
    decide +kernel
  obtain ⟨_, run⟩ := Option.isSome_iff_exists.1 run
  obtain ⟨h₀, hc, run⟩ := Option.bind_eq_some_iff.1 run
  obtain ⟨h₁, run₁, run⟩ := Option.bind_eq_some_iff.1 run
  obtain ⟨h, run₂, run⟩ := Option.bind_eq_some_iff.1 run
  obtain ⟨⟨hsize, hcount⟩, -⟩ := Option.ite_none_right_eq_some.1 run
  have l₀ : Ledgered .ample smallGeometry smallRegion h₀ _ _ := .created (toOption_eq_some_iff.1 hc)
  have l₁ := l₀.answered run₁ nofun
  have l₂ := l₁.answered run₂ nofun
  have reached := l₂.fits.1
  obtain ⟨inside, outside, unallocated, -, made, -⟩ := resolution_exact reached
  obtain ⟨length, hobj, m, -⟩ := made _ _ l₂ 0 1000 rfl
  have hlength : length = 1024 := by
    rw [MadeFor, blocksFor, hsize] at m
    simpa using m
  subst hlength
  have past : h.Unallocated 1024 := .pastArena (by simp [hsize, hcount])
  exact ⟨h, _, _, reached, l₂, rfl, hobj, inside 700 0 1024 hobj (by decide) (by decide), past,
    outside 1024 ((unallocated 1024).1 past)⟩

end Heap

end RegionHeap
