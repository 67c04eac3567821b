import RegionHeap.Proofs.Heap.Isolation
import RegionHeap.Proofs.Heap.Persistence

/-!
Which offsets can be freed. An offset is freed if the allocation that its alignment record leads to,
or that starts at the offset itself, is live, and it is refused by name otherwise
(`WellFormed.free_granted`, `WellFormed.free_refused`). For an account of the client's handles this
means: a handle that is held is freed, and so is an offset at which an allocation starts whose handle
lies further inside it (`Beneath`), which is no handle itself. Every other offset is refused, whatever
was asked for before (`only_handles_freed`).

Freeing an allocation by an offset beneath its handle leaves the handle's record behind, and the
handle may later lead to an object that it was not answered for. An account is therefore kept only as
long as no such offset is given up (`Accounts`).
-/
namespace RegionHeap.Heap

open HeapM

variable {h h' : Heap} {host : Host} {g : Geometry} {region : Region} {live : Account}

/-! ## Freeing an offset -/

/-- If one object is gone, the offsets in it lead nowhere, and all others where they led. -/
theorem extentOf_of_replaced (w : h.WellFormed) (w' : h'.WellFormed) {start length : Nat}
    (hobj : h.objectAt start = some length)
    (hgone : ∀ s, h'.objectAt s = replaced h.objectAt start none s) (offset : Nat) :
    h'.extentOf offset = if start ≤ offset ∧ offset < start + length
      then .error (.refused (.invalidPointer offset)) else h.extentOf offset := by
  have left {s l : Nat} (hs : h'.objectAt s = some l) : s ≠ start ∧ h.objectAt s = some l := by
    rw [hgone] at hs
    have hne : s ≠ start := by
      rintro rfl
      rw [replaced_self] at hs
      cases hs
    rw [replaced_of_ne _ _ hne] at hs
    exact ⟨hne, hs⟩
  by_cases hin : start ≤ offset ∧ offset < start + length
  · rw [if_pos hin]
    refine w'.extentOf_eq_invalid fun s l hs hl => (left hs).1 ?_
    exact w.disjoint s l start length offset (left hs).2 hobj hl hin
  · rw [if_neg hin]
    refine w.extentOf_congr w' fun s l hl => ⟨fun hs => (left hs).2, fun hs => ?_⟩
    have hne : s ≠ start := by
      rintro rfl
      rw [hobj, Option.some.injEq] at hs
      rw [hs] at hin
      exact hin hl
    rw [hgone, replaced_of_ne _ _ hne]
    exact hs

/-- A live allocation is freed, and nothing else is. -/
theorem WellFormed.free_granted (w : h.WellFormed) {p : Handle} {length : Nat}
    (hobj : h.objectAt (h.allocationOf p) = some length) :
    ∃ h', free p h = .ok () h' ∧ ∀ offset, h'.extentOf offset =
      if h.allocationOf p ≤ offset ∧ offset < h.allocationOf p + length
        then .error (.refused (.invalidPointer offset)) else h.extentOf offset := by
  obtain ⟨⟨⟩, h', ran, -, t⟩ := (free_ends w p).exists_ok fun e h' hE => by
    rw [hobj] at hE
    exact Option.some_ne_none length hE.2
  exact ⟨h', ran, extentOf_of_replaced w t.wellFormed hobj t.objects_eq⟩

/-- Where no allocation is live, nothing is freed. -/
theorem WellFormed.free_refused (w : h.WellFormed) {p : Handle}
    (hnone : h.objectAt (h.allocationOf p) = none) :
    free p h = .error (.refused (.invalidPointer (h.allocationOf p))) h := by
  obtain ⟨e, h', ran, ⟨same, he⟩, -⟩ := (free_ends w p).exists_refused fun _ _ hQ => hQ.1 hnone
  rw [ran, same, he]

/-- An offset without a record at which no object starts is not resized. -/
theorem reallocate_ends_of_none (w : h.WellFormed) {p : Handle} (hs : h.aligned.start? p = none)
    (hnone : h.objectAt p = none) (size : Nat) :
    Ends True (reallocate p size) h (fun _ _ => False) (Rejected h p) := by
  refine Ends.bind' (Ends.get' (Ends.ite' (fun hc => ?_) fun _ => ?_))
  · rw [AlignmentRecords.contains, hs] at hc
    cases hc
  refine Ends.bind' (w.extentOf_ends (fun start length hq => ?_) fun e he => ⟨rfl, he⟩)
  refine Ends.ite' (fun heq => ?_) fun _ => Ends.refuse' ⟨rfl, rfl⟩
  obtain ⟨hobj, -⟩ := w.extentOf_eq_ok_iff.1 hq
  rw [heq, hnone] at hobj
  cases hobj

theorem WellFormed.reallocate_rejected (w : h.WellFormed) {p : Handle}
    (hs : h.aligned.start? p = none) (hnone : h.objectAt p = none) (size : Nat) :
    reallocate p size h = .error (.refused (.invalidPointer p)) h := by
  obtain ⟨e, h', ran, same, he⟩ :=
    (reallocate_ends_of_none w hs hnone size).exists_refused fun _ _ hQ => hQ
  rw [ran, same, he]

/-! ## Handles and offsets beneath them -/

/-- An allocation starts at the offset whose handle lies further inside it. -/
def Beneath (h : Heap) (offset : Nat) : Prop :=
  ∃ handle, handle ≠ offset ∧ h.aligned.start? handle = some offset

theorem Isolated.allocationOf_of_none (i : Isolated h live) {p : Handle} (hp : live p = none) :
    h.allocationOf p = p := by
  rw [allocationOf, i.tracks.recorded p hp]
  rfl

/-- The offset beneath a handle is none itself, though the object of that handle starts there. -/
theorem Isolated.of_beneath (i : Isolated h live) {p : Handle} (hb : h.Beneath p) :
    live p = none ∧ ∃ k length, live k ≠ none ∧ h.objectAt p = some length ∧
      p ≤ k ∧ k < p + length := by
  obtain ⟨k, hne, hk⟩ := hb
  have hlive : live k ≠ none := i.live_of_contains (by rw [AlignmentRecords.contains, hk]; rfl)
  obtain ⟨size, hsize⟩ := Option.ne_none_iff_exists'.1 hlive
  obtain ⟨length, hobj, hle, hlt, -⟩ := i.tracks.object k size hsize
  have hstart : startOf h.aligned.start? k = p := by rw [startOf, hk]; rfl
  rw [hstart] at hobj hle hlt
  refine ⟨Decidable.byContradiction fun hp => ?_, k, length, hlive, hobj, hle, hlt⟩
  -- a handle at the start would stand for the same object
  obtain ⟨size', hsize'⟩ := Option.ne_none_iff_exists'.1 hp
  obtain ⟨length', hobj', hle', hlt', -⟩ := i.tracks.object p size' hsize'
  have hsame : startOf h.aligned.start? p = p :=
    i.wellFormed.disjoint _ _ _ _ p hobj' hobj ⟨hle', hlt'⟩
      ⟨Nat.le_refl p, Nat.lt_of_le_of_lt hle hlt⟩
  exact hne (i.tracks.own k p hlive hp (hstart.trans hsame.symm))

/-- Live allocations are those behind a handle, and an offset leads to one if it is a handle or lies
beneath one. -/
theorem Isolated.objectAt_ne_none_iff (i : Isolated h live) {p : Handle} :
    h.objectAt (h.allocationOf p) ≠ none ↔ live p ≠ none ∨ h.Beneath p := by
  constructor
  · intro hobj
    refine Decidable.or_iff_not_imp_left.2 fun hp => ?_
    have hp : live p = none := Decidable.of_not_not hp
    rw [i.allocationOf_of_none hp] at hobj
    obtain ⟨k, hk, hstart⟩ := i.tracks.complete p hobj
    have hne : k ≠ p := by
      intro he
      rw [he] at hk
      exact hk hp
    refine ⟨k, hne, ?_⟩
    rw [startOf] at hstart
    cases hs : h.aligned.start? k with
    | none =>
      rw [hs] at hstart
      exact absurd hstart hne
    | some start =>
      rw [hs] at hstart
      exact congrArg some hstart
  · intro hp
    cases hp with
    | inl hp =>
      obtain ⟨length, hobj, -⟩ := i.extentOf_eq hp
      rw [hobj]
      exact Option.some_ne_none length
    | inr hb =>
      obtain ⟨hp, k, length, -, hobj, -⟩ := i.of_beneath hb
      rw [i.allocationOf_of_none hp, hobj]
      exact Option.some_ne_none length

/-- What is given up and granted is held, if it does not lie beneath a handle. -/
theorem Isolated.permits (i : Isolated h live) {op : Operation} {answer : Answer}
    (spared : ∀ p, op.givenUp h = some p → ¬h.Beneath p) (ran : op.run h = .ok answer h') :
    h.Permits live op := by
  intro p hp hnone
  have hobj : h.objectAt (h.allocationOf p) = none := by
    refine Decidable.byContradiction fun hobj => ?_
    cases i.objectAt_ne_none_iff.1 hobj with
    | inl hlive => exact hlive hnone
    | inr hb => exact spared p hp hb
  have effect := (op.effects i.wellFormed).of_ok ran
  cases op with
  | free handle =>
    cases hp
    cases effect with
    | free hlive _ => exact hlive hobj
  | freeNamed name =>
    cases effect with
    | freeNamed found hlive _ _ _ =>
      have hp : h.names.find? name = some p := hp
      rw [found, Option.some.injEq] at hp
      rw [hp] at hlive
      exact hlive hobj
  | reallocate handle size =>
    cases hp
    rw [i.allocationOf_of_none hnone] at hobj
    have ends : Ends True (Operation.reallocate p size).run h (fun _ _ => False) (Rejected h p) :=
      Ends.map' (reallocate_ends_of_none i.wellFormed (i.tracks.recorded p hnone) hobj size)
    exact ends.of_ok ran
  | _ => cases hp

/-! ## Histories -/

/-- What a client may have made of a new heap, and the handles that it then holds, whatever it asks
for and whether it is granted. The heap may be opened again after it was saved. Only one thing is
never granted here: giving up an offset beneath a handle. -/
inductive Accounts (host : Host) (g : Geometry) (region : Region) : Heap → Account → Prop where
  | created {h : Heap} (hc : create host g region = .ok h) : Accounts host g region h fun _ => none
  | granted {h h' : Heap} {live : Account} (refusals : Option Refusals) (op : Operation)
    (answer : Answer) (before : Accounts host g region h live)
    (spared : ∀ p, op.givenUp h = some p → ¬h.Beneath p)
    (ran : op.run (h.withRefusals refusals) = .ok answer h') :
    Accounts host g region h' (live.after h op answer)
  | refused {h h' : Heap} {live : Account} (refusals : Option Refusals) (op : Operation)
    (e : HeapError) (before : Accounts host g region h live)
    (ran : op.run (h.withRefusals refusals) = .error (.refused e) h') : Accounts host g region h' live
  | reopened {h h₁ h₂ h₃ : Heap} {live : Account} {region' : Region} (refusals : Option Refusals)
    (answer : Answer) (before : Accounts host g region h live)
    (synced : Operation.sync.run (h.withRefusals refusals) = .ok answer h₁)
    (later : Extends h₁ h₂) (same : Region.SameBytes h₂.region region')
    (loaded : load region' = .ok h₃) : Accounts host g region h₃ live

/-- A heap that was opened again has the objects and the records that it was saved with. -/
theorem Isolated.restored {h₁ h₂ : Heap} (i : Isolated h live) (w : h'.WellFormed)
    (saved : Saved h h₁) (r : Restores h₁ h₂ h') : Isolated h' live := by
  have i₁ := (i.saved saved).1
  have objects : h'.objectAt = h₁.objectAt := funext fun s => (r.objects s).1
  have records : h'.aligned = h₁.aligned := by rw [r.eq]
  refine ⟨w, ?_⟩
  rw [objects, records]
  exact i₁.tracks

/-- Every account of such a history is in order. -/
theorem Accounts.isolated (a : Accounts host g region h live) :
    Reachable host g region h ∧ Isolated h live := by
  induction a with
  | created hc => exact ⟨.created hc, (create_eq_ok hc).isolated⟩
  | granted refusals op answer _ spared ran ih =>
    obtain ⟨reached, i⟩ := ih
    have i := i.withRefusals refusals
    exact ⟨reached.used refusals op (.granted answer ran),
      ((i.run_ends op (i.permits spared ran)).of_ok ran).1⟩
  | refused refusals op e _ ran ih =>
    obtain ⟨reached, i⟩ := ih
    have i := i.withRefusals refusals
    have refusal := ((op.effects i.wellFormed).of_refused ran).1
    exact ⟨reached.used refusals op (.refused e ran), (refusal.isolated i).1⟩
  | reopened refusals answer _ synced later same loaded ih =>
    obtain ⟨reached, i⟩ := ih
    have reached' := ((reached.used refusals .sync (.granted answer synced)).extends later).reopened
      same loaded
    have s := reached.restorable.withRefusals refusals
    cases (Operation.effects s.wellFormed .sync).of_ok synced with
    | sync saved =>
      exact ⟨reached', (i.withRefusals refusals).restored reached'.restorable.wellFormed saved
        (saved.restores s later same loaded)⟩

/-- A client that gives up only handles that it holds gives up none that lies beneath another. -/
theorem Serves.accounts {h₀ : Heap} (s : Serves h₀ h live) (hc : create host g region = .ok h₀) :
    Accounts host g region h live := by
  induction s with
  | start => exact .created hc
  | granted refusals op answer _ permitted ran ih =>
    refine ih.granted refusals op answer (fun p hp hb => ?_) ran
    obtain ⟨-, i⟩ := ih.isolated
    exact permitted p hp (i.of_beneath hb).1
  | refused refusals op e _ _ ran ih => exact ih.refused refusals op e ran

/-- What becomes of an offset that a client gives up. A handle that it holds is freed, and then
exactly the object that it stands for is gone. The same happens to an offset beneath a handle,
although it is none. Any other offset is refused by name, and so is resizing there, and nothing
changes. -/
theorem only_handles_freed (a : Accounts host g region h live) (refusals : Option Refusals)
    (p : Handle) :
    (live p ≠ none ∨ h.Beneath p → ∃ start length h', h.extentOf p = .ok (start, length) ∧
      free p (h.withRefusals refusals) = .ok () h' ∧
      ∀ offset, h'.extentOf offset = if start ≤ offset ∧ offset < start + length
        then .error (.refused (.invalidPointer offset)) else h.extentOf offset) ∧
    (h.Beneath p → live p = none ∧ ∃ handle, live handle ≠ none ∧
      h.extentOf handle = h.extentOf p) ∧
    (live p = none → ¬h.Beneath p →
      free p (h.withRefusals refusals) =
        .error (.refused (.invalidPointer p)) (h.withRefusals refusals) ∧
      ∀ size, reallocate p size (h.withRefusals refusals) =
        .error (.refused (.invalidPointer p)) (h.withRefusals refusals)) := by
  obtain ⟨-, i⟩ := a.isolated
  have i := i.withRefusals refusals
  have w := i.wellFormed
  refine ⟨?_, ?_, ?_⟩
  · intro hp
    obtain ⟨length, hobj⟩ := Option.ne_none_iff_exists'.1 (i.objectAt_ne_none_iff.2 hp)
    obtain ⟨h', ran, hgone⟩ := w.free_granted hobj
    refine ⟨_, length, h', w.extentOf_eq_ok_iff.2 ⟨hobj, ?_⟩, ran, hgone⟩
    -- the offset lies in the allocation that it leads to
    cases hl : live p with
    | none =>
      have hpos := (w.object_bounds hobj).1
      rw [i.allocationOf_of_none hl]
      exact ⟨Nat.le_refl p, Nat.lt_add_of_pos_right hpos⟩
    | some size =>
      obtain ⟨length', hobj', hle, hlt, -⟩ := i.tracks.object p size hl
      have hsame : some length = some length' := hobj.symm.trans hobj'
      cases hsame
      exact ⟨hle, hlt⟩
  · intro hb
    obtain ⟨hp, k, length, hlive, hobj, hle, hlt⟩ := i.of_beneath hb
    refine ⟨hp, k, hlive, ?_⟩
    have hk := w.extentOf_eq_ok_iff.2 ⟨hobj, hle, hlt⟩
    have hp := w.extentOf_eq_ok_iff.2 ⟨hobj, Nat.le_refl p, Nat.lt_of_le_of_lt hle hlt⟩
    exact hk.trans hp.symm
  · intro hp hb
    have hself := i.allocationOf_of_none hp
    have hnone : (h.withRefusals refusals).objectAt p = none := by
      refine Decidable.byContradiction fun hobj => ?_
      rw [← hself] at hobj
      cases i.objectAt_ne_none_iff.1 hobj with
      | inl hl => exact hl hp
      | inr hb' => exact hb hb'
    refine ⟨?_, fun size => w.reallocate_rejected (i.tracks.recorded p hp) hnone size⟩
    have refused := w.free_refused (p := p) (by rw [hself]; exact hnone)
    rw [hself] at refused
    exact refused

/-- An object on a boundary is freed by its handle, and by the offset at which its allocation starts,
but nowhere in between. -/
theorem only_handles_freed_small : ∃ h live, Accounts .ample widerGeometry smallRegion h live ∧
    live 512 ≠ none ∧ live 256 = none ∧ live 300 = none ∧
      (∃ h', free 512 h = .ok () h') ∧ (∃ h', free 256 h = .ok () h') ∧
        free 300 h = .error (.refused (.invalidPointer 300)) h := by
  have run : (onBoundary?.bind fun h => if h.aligned.start? 512 = some 256 ∧ h.objectAt 300 = none
      then some h else none).isSome = true := by
    decide +kernel
  obtain ⟨h₁, run⟩ := Option.isSome_iff_exists.1 run
  obtain ⟨h, hb, run⟩ := Option.bind_eq_some_iff.1 run
  rw [Option.ite_none_right_eq_some] at run
  obtain ⟨⟨hrecord, hinside⟩, -⟩ := run
  obtain ⟨h₀, live, hc, s, h512, h256, h300, -⟩ := serves_onBoundary? hb
  have a := s.accounts hc
  have freed := only_handles_freed a h.region.refusals
  have beneath : h.Beneath 256 := ⟨512, by decide, hrecord⟩
  have not_beneath : ¬h.Beneath 300 := by
    intro hb
    obtain ⟨-, k, length, -, hobj, -⟩ := a.isolated.2.of_beneath hb
    rw [hinside] at hobj
    cases hobj
  have hlive : live 512 ≠ none := by
    rw [h512]
    exact Option.some_ne_none 512
  obtain ⟨_, _, h₁, -, ran, -⟩ := (freed 512).1 (.inl hlive)
  obtain ⟨_, _, h₂, -, ran', -⟩ := (freed 256).1 (.inr beneath)
  exact ⟨h, live, a, hlive, h256, h300, ⟨h₁, ran⟩, ⟨h₂, ran'⟩, ((freed 300).2.2 h300 not_beneath).1⟩

end RegionHeap.Heap
