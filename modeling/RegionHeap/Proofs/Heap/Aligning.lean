import RegionHeap.Proofs.Heap.FirstTries
import RegionHeap.Proofs.Heap.Reallocating

/-!
Allocation on a boundary. Whatever is granted lies on the boundary, in one new allocation that has the
padded size from the handle on and no byte in common with an object; the handle has a record just if
the allocation starts before it (`OnBoundary`). A first try that misses the boundary is given back
whole. The second never lacks room for its record, nor does it find one for the same handle
(`SecondTry.recordable`): the records are those of live handles, and none of them lies in a new object.
-/
namespace RegionHeap.Heap

open HeapM

variable {h h' h₁ : Heap} {host : Host} {g : Geometry} {region : Region} {live : Account}
  {book saved : Book}
  {alignment size padded start handle length : Nat}

/-! ## What is granted -/

/-- A handle for `size` bytes on a boundary, `usable` bytes before the end of a new allocation that is
`length` bytes long and starts at `start`. -/
structure OnBoundary (alignment size : Nat) (h h' : Heap) (handle start length usable : Nat) :
    Prop where
  dvd : alignment ∣ handle
  extent_eq : h'.extentOf handle = .ok (start, length)
  usable_eq : usableFrom handle h' = .ok usable h'
  room : ∃ padded, LeastMultiple alignment size padded ∧ padded ≤ usable
  /-- No object of before has a byte from the handle on. -/
  apart : ∀ s l, h.objectAt s = some l → s + l ≤ handle ∨ handle + usable ≤ s
  fresh : h.objectAt start = none
  added : h'.objectAt = replaced h.objectAt start (some length)
  unrecorded : h.aligned.start? handle = none
  record_eq : h'.aligned.start? handle = if handle = start then none else some start
  records_eq : ∀ other, other ≠ handle → h'.aligned.start? other = h.aligned.start? other

/-- No handle inside a new object has a record: it would be a live one, and inside another object. -/
theorem Isolated.unrecorded (i : Isolated h live) (fresh : h.objectAt start = none)
    (w' : h'.WellFormed) (added : h'.objectAt = replaced h.objectAt start (some length))
    (hle : start ≤ handle) (hlt : handle < start + length) : h.aligned.start? handle = none := by
  have hd : Disjoint (replaced h.objectAt start (some length)) := by
    rw [← added]
    exact w'.disjoint
  exact i.tracks.recorded handle (i.tracks.insert fresh hd hle hlt (show handle + 0 ≤ _ by omega)).1

theorem AllocatedOn.onBoundary (i : Isolated h live)
    (a : AllocatedOn alignment h h' handle padded) (m : LeastMultiple alignment size padded) :
    ∃ start length usable, OnBoundary alignment size h h' handle start length usable := by
  obtain ⟨hd, start, length, fresh, hle, hfit, t⟩ := a
  have added : h'.objectAt = replaced h.objectAt start (some length) := funext t.objects_eq
  have hnew : h'.objectAt start = some length := by rw [added, replaced_self]
  have hlt : handle < start + length := by omega
  have hext := t.wellFormed.extentOf_eq_ok_iff.2 ⟨hnew, hle, hlt⟩
  have records (k : Handle) : h'.aligned.start? k =
      if handle = k ∧ handle ≠ start then some start else h.aligned.start? k := by
    rw [t.aligned_eq]
    exact start?_recorded _ _ _ _
  have unrecorded := i.unrecorded fresh t.wellFormed added hle hlt
  refine ⟨start, length, start + length - handle, hd, hext, t.wellFormed.usableFrom_eq hext,
    ⟨padded, m, by omega⟩, fun s l hs => ?_, fresh, added, unrecorded, ?_, fun other hne => ?_⟩
  · have hne : s ≠ start := by
      intro he
      rw [he, fresh] at hs
      cases hs
    have hkept : h'.objectAt s = some l := by rw [added, replaced_of_ne _ _ hne, hs]
    have := t.wellFormed.apart hkept hnew hne
    omega
  · rw [records, unrecorded]
    by_cases he : handle = start
    · rw [if_neg fun both => both.2 he, if_pos he]
    · rw [if_pos ⟨rfl, he⟩, if_neg he]
  · rw [records, if_neg fun both => hne both.1.symm]

/-! ## Two tries -/

/-- A first try can always be given back, and then there is nothing left of it. -/
theorem FirstTry.freed (tried : FirstTry alignment size h h₁ start) (w : h.WellFormed) :
    ∃ h₂, freeAllocation start h₁ = .ok () h₂ ∧ Turns h h₂ h.objectAt := by
  obtain ⟨room, -, ran⟩ := tried
  obtain ⟨fresh, length, -, t⟩ := (allocate_ends w _).of_ok ran
  have there : h₁.objectAt start ≠ none := by
    rw [t.objects_eq, replaced_self]
    exact Option.some_ne_none length
  obtain ⟨_, h₂, freed, -, t₂⟩ := Ends.exists_ok (freeAllocation_ends t.wellFormed start)
    fun _ _ hE => there hE.2
  exact ⟨h₂, freed, t.undone fresh t₂⟩

/-- A second try was granted at `start`, after the first one missed the boundary and was given back,
and while there was room for a record; `handle` is where the boundary lies in it. -/
inductive SecondTry (alignment size : Nat) (h h₃ : Heap) (start handle : Handle) : Prop where
  | missed {first padded slack : Nat} {h₁ h₂ : Heap} (tried : FirstTry alignment size h h₁ first)
    (misses : ¬first % alignment = 0) (freed : freeAllocation first h₁ = .ok () h₂)
    (vacant : h₂.aligned.isFull = false) (multiple : LeastMultiple alignment size padded)
    (slack_eq : Size.add? padded alignment = some slack) (again : allocate slack h₂ = .ok start h₃)
    (handle_eq : Size.roundUp? start alignment = some handle)

/-- What is granted was granted by the first try or by a second one. -/
theorem allocateAligned_tries (w : h.WellFormed) (alignment size : Nat) :
    Ends False (allocateAligned alignment size) h (fun handle h' =>
      FirstTry alignment size h h' handle ∨ ∃ h₃ start,
        SecondTry alignment size h h₃ start handle ∧ (handle = start → h' = h₃)) fun _ _ => True := by
  refine Ends.ite' (fun _ => Ends.refuse' trivial) fun hpow => ?_
  have ha := Size.pos_of_isPowerOfTwo (show Size.isPowerOfTwo alignment = true by simpa using hpow)
  refine Ends.bind' (Ends.orRefuse' (fun room hroom => ?_) fun _ => trivial)
  refine Ends.bind' ((allocate_ends w _).with_run.or_trap.mono ?_ fun _ _ _ => trivial)
  rintro first h₁ ⟨⟨-, length, -, t₁⟩, ran⟩
  have tried : FirstTry alignment size h h₁ first := ⟨room, hroom, ran⟩
  refine Ends.ite' (fun _ => Ends.pure' (.inl tried)) fun misses => ?_
  refine Ends.bind' ((freeAllocation_ends t₁.wellFormed first).with_run.mono ?_ fun _ _ _ => trivial)
  rintro ⟨⟩ h₂ ⟨⟨-, t₂⟩, freed⟩
  refine Ends.bind' (Ends.get' (Ends.ite' (fun _ => Ends.refuse' trivial) fun hfull => ?_))
  have vacant : h₂.aligned.isFull = false := by simpa using hfull
  refine Ends.bind' (Ends.orRefuse' (fun slack slack_eq => ?_) fun _ => trivial)
  refine Ends.bind' ((allocate_ends t₂.wellFormed slack).with_run.or_trap.mono ?_
    fun _ _ _ => trivial)
  intro start h₃ granted
  refine Ends.bind' (Ends.orTrap_of (fun handle handle_eq => ?_) fun _ => not_false)
  have second : SecondTry alignment size h h₃ start handle := .missed tried misses freed vacant
    (leastMultiple_roundDown ha hroom) slack_eq granted.2 handle_eq
  refine Ends.ite' (fun heq => Ends.pure' ?_) fun hne => ?_
  · rw [heq] at second
    exact .inr ⟨h₃, start, second, fun _ => rfl⟩
  · refine Ends.bind' (Ends.get' (Ends.bind' (Ends.ofExcept' (fun _ _ => ?_) fun _ _ => trivial)))
    exact Ends.bind' (Ends.set' (Ends.pure' (.inr ⟨h₃, start, second, fun heq => absurd heq hne⟩)))

/-- Once a first try was given back, the second one is all that is left to do. -/
theorem FirstTry.run_eq {first : Handle} {h₂ : Heap} (tried : FirstTry alignment size h h₁ first)
    (power : Size.isPowerOfTwo alignment = true) (misses : ¬first % alignment = 0)
    (freed : freeAllocation first h₁ = .ok () h₂) (vacant : h₂.aligned.isFull = false)
    (multiple : LeastMultiple alignment size padded) :
    allocateAligned alignment size h = allocateWithSlack alignment padded h₂ := by
  obtain ⟨room, room_eq, ran⟩ := tried
  have padded_eq := multiple.unique
    (leastMultiple_roundDown (Size.pos_of_isPowerOfTwo power) room_eq)
  have room_run : orRefuse .outOfMemory (Size.add? (max size 1) (alignment - 1)) h = .ok room h := by
    rw [room_eq]
    rfl
  rw [allocateAligned, power, if_neg (by simp), bind_of_ok room_run, bind_of_ok ran, if_neg misses,
    bind_of_ok freed, bind_get, vacant, if_neg nofun, padded_eq]

/-- A second try is an allocation beside the objects of before, with room for the handle. -/
theorem SecondTry.allocated {h₃ : Heap} (s : SecondTry alignment size h h₃ start handle)
    (w : h.WellFormed) (power : Size.isPowerOfTwo alignment = true) :
    ∃ length, h.objectAt start = none ∧ Turns h h₃ (replaced h.objectAt start (some length)) ∧
      start ≤ handle ∧ handle < start + length := by
  obtain ⟨tried, -, freed, -, multiple, slack_eq, again, handle_eq⟩ := s
  obtain ⟨h₂, freed', t₂⟩ := tried.freed w
  obtain ⟨-, rfl⟩ := EStateM.Result.ok.inj (freed'.symm.trans freed)
  obtain ⟨-, rfl⟩ := Size.add?_eq_some_iff.1 slack_eq
  obtain ⟨fresh, length, hle, t₃⟩ := (allocate_ends t₂.wellFormed _).of_ok again
  obtain ⟨-, hge, hlt⟩ := Size.roundUp?_bounds (Size.pos_of_isPowerOfTwo power) handle_eq
  rw [show h₂.objectAt = h.objectAt from funext t₂.objects_eq] at fresh t₃
  have := multiple.pos
  exact ⟨length, fresh, t₂.after_same t₃, hge, by omega⟩

/-- A second try that starts before the boundary has its record inserted, and there was none. -/
theorem SecondTry.recordable {h₃ : Heap} (s : SecondTry alignment size h h₃ start handle)
    (i : Isolated h live) (power : Size.isPowerOfTwo alignment = true) (before : handle ≠ start) :
    h₃.aligned.start? handle = none ∧ ∃ records, h₃.aligned.insert handle start = .ok records ∧
      allocateAligned alignment size h = .ok handle { h₃ with aligned := records } := by
  obtain ⟨length, fresh, t, hle, hlt⟩ := s.allocated i.wellFormed power
  have unrecorded := i.unrecorded fresh t.wellFormed (funext t.objects_eq) hle hlt
  obtain ⟨tried, misses, freed, vacant, multiple, slack_eq, again, handle_eq⟩ := s
  obtain ⟨h₂, freed', t₂⟩ := tried.freed i.wellFormed
  obtain ⟨-, rfl⟩ := EStateM.Result.ok.inj (freed'.symm.trans freed)
  have insert_eq : h₃.aligned.insert handle start =
      .ok { h₃.aligned with starts := h₃.aligned.starts.insert handle start } := by
    rw [AlignmentRecords.insert, t.aligned_eq, ← t₂.aligned_eq, vacant]
    rfl
  refine ⟨by rw [t.aligned_eq, unrecorded], _, insert_eq, ?_⟩
  have slack_run := congrArg (fun found => orRefuse .outOfMemory found h₂) slack_eq
  have handle_run := congrArg (fun found => orTrap found h₃) handle_eq
  have insert_run := congrArg (fun inserted => ofExcept inserted h₃) insert_eq
  rw [tried.run_eq power misses freed vacant multiple, allocateWithSlack, bind_of_ok slack_run,
    bind_of_ok again, bind_of_ok handle_run, if_neg before, bind_get, bind_of_ok insert_run]
  rfl

/-! ## Clients -/

/-- For a client that frees and reallocates only live handles, what is allocated at a multiple of a
power of two lies on the boundary, apart from all objects, with the padded size from its handle on: it
is the one allocation that is added, and the handle has a record just if it does not start there. A
first try is given back without a trace, and a record that the second try needs is always inserted,
never over another. -/
theorem allocateAligned_onBoundary (c : Custody host g region h book saved) (alignment size : Nat)
    (power : Size.isPowerOfTwo alignment = true) (refusals : Option Refusals) :
    (∀ handle h', allocateAligned alignment size (h.withRefusals refusals) = .ok handle h' →
      (∃ start length usable, OnBoundary alignment size h h' handle start length usable) ∧
        (FirstTry alignment size (h.withRefusals refusals) h' handle ∨
          ∃ h₃ start, SecondTry alignment size (h.withRefusals refusals) h₃ start handle ∧
            (handle = start → h' = h₃))) ∧
    (∀ first h₁, FirstTry alignment size (h.withRefusals refusals) h₁ first →
      ∃ h₂, freeAllocation first h₁ = .ok () h₂ ∧
        Turns (h.withRefusals refusals) h₂ h.objectAt) ∧
    ∀ h₃ start handle, SecondTry alignment size (h.withRefusals refusals) h₃ start handle →
      handle ≠ start → h₃.aligned.start? handle = none ∧
        ∃ records, h₃.aligned.insert handle start = .ok records ∧
          allocateAligned alignment size (h.withRefusals refusals) =
            .ok handle { h₃ with aligned := records } := by
  have i := c.guarded.2.1.toIsolated.withRefusals refusals
  have w := i.wellFormed
  refine ⟨fun handle h' ran => ⟨?_, (allocateAligned_tries w alignment size).of_ok ran⟩,
    fun first h₁ tried => tried.freed w, fun h₃ start handle s before => s.recordable i power before⟩
  obtain ⟨padded, multiple, a⟩ := (allocateAligned_ends_padded w alignment size).of_ok ran
  obtain ⟨start, length, usable, o⟩ := a.onBoundary i multiple
  exact ⟨start, length, usable, o.dvd, o.extent_eq, o.usable_eq, o.room, o.apart, o.fresh, o.added,
    o.unrecorded, o.record_eq, o.records_eq⟩

/-- Behind an object of 256 bytes the first two blocks miss the boundary at 512; they are given back
for four, and the handle at 512 is recorded as part of the allocation at 256. -/
theorem allocateAligned_onBoundary_small : ∃ h book saved h' length usable h₃ start records,
    Custody .ample widerGeometry smallRegion h book saved ∧ allocateAligned 512 512 h = .ok 512 h' ∧
      OnBoundary 512 512 h h' 512 256 length usable ∧ SecondTry 512 512 h h₃ start 512 ∧
      start ≠ 512 ∧ h₃.aligned.insert 512 start = .ok records := by
  have run : ((create .ample widerGeometry smallRegion).toOption.bind fun h =>
      (h.answering? (.allocate 256) 0).bind fun h =>
        (h.answering? (.allocateAligned 512 512) 512).bind fun h' =>
          if h'.aligned.start? 512 = some 256 then some h' else none).isSome = true := by
    decide +kernel
  obtain ⟨_, run⟩ := Option.isSome_iff_exists.1 run
  obtain ⟨h₀, hc, run⟩ := Option.bind_eq_some_iff.1 run
  obtain ⟨h, run₁, run⟩ := Option.bind_eq_some_iff.1 run
  obtain ⟨h', run₂, run⟩ := Option.bind_eq_some_iff.1 run
  obtain ⟨recorded, -⟩ := Option.ite_none_right_eq_some.1 run
  obtain ⟨book, saved, c, -⟩ := (Serves.start.answered run₁ rfl).custody (toOption_eq_some_iff.1 hc)
  have ran : allocateAligned 512 512 (h.withRefusals h.region.refusals) = .ok 512 h' :=
    handle_eq_ok_iff.1 (answering?_eq_some_iff.1 run₂)
  obtain ⟨granted, -, second⟩ :=
    allocateAligned_onBoundary c 512 512 (by decide) h.region.refusals
  obtain ⟨⟨start, length, usable, o⟩, tries⟩ := granted 512 h' ran
  have w := c.guarded.2.1.wellFormed.withRefusals h.region.refusals
  -- the record is a new one, so this is no allocation at the handle
  have moved : h'.aligned ≠ h.aligned := by
    intro same
    have := o.unrecorded
    rw [← same, recorded] at this
    cases this
  have record_eq := o.record_eq
  rw [recorded] at record_eq
  split at record_eq
  · cases record_eq
  cases record_eq
  cases tries with
  | inl first =>
    obtain ⟨_, -, ran⟩ := first
    obtain ⟨-, _, -, t⟩ := (allocate_ends w _).of_ok ran
    exact absurd t.aligned_eq moved
  | inr again =>
    obtain ⟨h₃, start, s, stays⟩ := again
    have before : 512 ≠ start := by
      intro heq
      obtain ⟨_, -, t, -⟩ := s.allocated w (by decide)
      rw [stays heq] at moved
      exact moved t.aligned_eq
    obtain ⟨-, records, inserted, -⟩ := second h₃ start 512 s before
    exact ⟨h, book, saved, h', length, usable, h₃, start, records, c, ran, o, s, before.symm, inserted⟩

end RegionHeap.Heap
