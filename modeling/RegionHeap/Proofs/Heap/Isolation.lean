import RegionHeap.Proofs.Heap.Clients
import RegionHeap.Proofs.Heap.Creation

/-!
Objects are isolated from each other. As long as a client gives up only handles that it holds, each
of them stands for an object of its own, and whatever is asked for, granted or refused, no byte
changes in an object that the operation is not about. The lemmas say this for each way in which
operations change objects; `Isolated.run_ends` is the step, `Serves.isolated` the run.
-/
namespace RegionHeap.Heap

variable {h h' h₁ : Heap} {live : Account}

/-- The state of a heap and of a client that keeps account of it. -/
structure Isolated (h : Heap) (live : Account) : Prop where
  wellFormed : h.WellFormed
  tracks : Tracks h.objectAt h.aligned.start? live

/-- The object that starts at `s` stays, and so do its bytes. -/
def Keeps (h h' : Heap) (s : Nat) : Prop :=
  ∀ l, h.objectAt s = some l →
    h'.objectAt s = some l ∧ ∀ i, i < l → h'.arenaByte (s + i) = h.arenaByte (s + i)

theorem Keeps.refl (h : Heap) (s : Nat) : Keeps h h s := fun _ hs => ⟨hs, fun _ _ => rfl⟩

/-- An object that is there before and after a step is kept by it. -/
theorem Turns.keeps {objects : Nat → Option Nat} (t : Turns h h' objects) {s : Nat}
    (hs : ∀ l, h.objectAt s = some l → objects s = some l) : Keeps h h' s := fun l hl =>
  ⟨(t.objects_eq s).trans (hs l hl), fun i hi => t.bytes_eq s l l hl (hs l hl) i hi hi⟩

/-- The handles of a client stand for live objects. -/
theorem Isolated.extentOf_eq (i : Isolated h live) {handle : Handle} (hl : live handle ≠ none) :
    ∃ length, h.objectAt (h.allocationOf handle) = some length ∧
      h.extentOf handle = .ok (h.allocationOf handle, length) := by
  obtain ⟨size, hs⟩ := Option.ne_none_iff_exists'.1 hl
  obtain ⟨length, hobj, hle, hlt, -⟩ := i.tracks.object handle size hs
  exact ⟨length, hobj, i.wellFormed.extentOf_eq_ok_iff.2 ⟨hobj, hle, hlt⟩⟩

/-- Only handles of the client have records. -/
theorem Isolated.live_of_contains (i : Isolated h live) {handle : Handle}
    (hc : h.aligned.contains handle = true) : live handle ≠ none := by
  intro hnone
  rw [AlignmentRecords.contains, i.tracks.recorded handle hnone] at hc
  cases hc

/-! ## Steps -/

theorem Isolated.same (i : Isolated h live) (t : Turns h h' h.objectAt) :
    Isolated h' live ∧ ∀ s, Keeps h h' s := by
  refine ⟨⟨t.wellFormed, ?_⟩, fun s => t.keeps fun _ hs => hs⟩
  rw [show h'.objectAt = h.objectAt from funext t.objects_eq, t.aligned_eq]
  exact i.tracks

/-- Names are no part of what is isolated. -/
theorem Isolated.renamed {names : NameTable} (r : Renames h₁ h' names)
    (i : Isolated h₁ live ∧ ∀ s, Keeps h h₁ s) : Isolated h' live ∧ ∀ s, Keeps h h' s := by
  obtain ⟨heq, -, w⟩ := r
  subst heq
  exact ⟨⟨w, i.1.tracks⟩, i.2⟩

theorem start?_recorded (r : AlignmentRecords) (handle start k : Nat) :
    (recorded r handle start).start? k =
      if handle = k ∧ handle ≠ start then some start else r.start? k := by
  rw [recorded]
  by_cases he : handle = start
  · rw [if_pos he, if_neg fun h => h.2 he]
  · rw [if_neg he]
    refine (OrderedMap.find?_insert _ _ _ _).trans ?_
    by_cases hk : handle = k
    · rw [if_pos hk, if_pos ⟨hk, he⟩]
    · rw [if_neg hk, if_neg fun h => hk h.1]
      rfl

/-- A new object. -/
theorem Isolated.insert (i : Isolated h live) {start length handle size : Nat}
    (hfresh : h.objectAt start = none) (hle : start ≤ handle) (hlt : handle < start + length)
    (hfit : handle + size ≤ start + length)
    (t : Turns { h with aligned := recorded h.aligned handle start } h'
      (replaced h.objectAt start (some length))) :
    Isolated h' (replaced live handle (some size)) ∧ ∀ s, Keeps h h' s := by
  have objects := show h'.objectAt = _ from funext t.objects_eq
  have hd : Disjoint (replaced h.objectAt start (some length)) := by
    rw [← objects]
    exact t.wellFormed.disjoint
  refine ⟨⟨t.wellFormed, ?_⟩, fun s => t.keeps fun l hs => ?_⟩
  · have records : h'.aligned.start? = fun k =>
        if handle = k ∧ handle ≠ start then some start else h.aligned.start? k := by
      funext k
      rw [t.aligned_eq]
      exact start?_recorded _ _ _ _
    rw [objects, records]
    exact (i.tracks.insert hfresh hd hle hlt hfit).2
  · rw [replaced_of_ne]
    · exact hs
    · rintro rfl
      rw [show h.objectAt s = some l from hs] at hfresh
      cases hfresh

theorem Isolated.allocated (i : Isolated h live) {handle size : Nat}
    (a : Allocated h h' handle size) :
    Isolated h' (replaced live handle (some size)) ∧ ∀ s, Keeps h h' s := by
  obtain ⟨hfresh, length, hle, t⟩ := a
  have hpos := (t.wellFormed.object_bounds ((t.objects_eq handle).trans (replaced_self _ _ _))).1
  refine i.insert hfresh (Nat.le_refl _) (Nat.lt_add_of_pos_right hpos)
    (Nat.add_le_add_left hle _) ?_
  rw [recorded, if_pos rfl]
  exact t

theorem Isolated.allocatedOn (i : Isolated h live) {alignment handle size : Nat}
    (a : AllocatedOn alignment h h' handle size) :
    Isolated h' (replaced live handle (some size)) ∧ ∀ s, Keeps h h' s := by
  obtain ⟨-, start, length, hfresh, hle, hfit, t⟩ := a
  exact i.insert hfresh hle (by omega) (by omega) t

/-- An object that is given up. -/
theorem Isolated.erase (i : Isolated h live) {handle : Handle} (hl : live handle ≠ none)
    (t : Turns (h.forgetRecord handle) h' (replaced h.objectAt (h.allocationOf handle) none)) :
    Isolated h' (replaced live handle none) ∧
      ∀ s, s ≠ h.allocationOf handle → Keeps h h' s := by
  have objects := show h'.objectAt = _ from funext t.objects_eq
  refine ⟨⟨t.wellFormed, ?_⟩, fun s hs => t.keeps fun l hl => ?_⟩
  · have records : h'.aligned.start? = fun k =>
        if handle = k then none else h.aligned.start? k := by
      funext k
      rw [t.aligned_eq]
      exact AlignmentRecords.start?_erase _ _ _
    rw [objects, records]
    exact i.tracks.erase hl
  · rw [replaced_of_ne _ _ hs]
    exact hl

theorem replaced_comm {α : Type} (f : Nat → α) {x y : Nat} (hne : x ≠ y) (a b : α) :
    replaced (replaced f x a) y b = replaced (replaced f y b) x a := by
  funext z
  by_cases hx : z = x
  · rw [hx, replaced_of_ne _ _ hne, replaced_self, replaced_self]
  · by_cases hy : z = y
    · rw [hy, replaced_self, replaced_of_ne _ _ (Ne.symm hne), replaced_self]
    · rw [replaced_of_ne _ _ hy, replaced_of_ne _ _ hx, replaced_of_ne _ _ hx,
        replaced_of_ne _ _ hy]

/-- An object that is given up for another. -/
theorem Isolated.reallocated (i : Isolated h live) {handle moved size : Nat}
    (hl : live handle ≠ none) (r : Reallocated h h' handle moved size) :
    Isolated h' (replaced (replaced live handle none) moved (some size)) ∧
      ∀ s, s ≠ h.allocationOf handle → Keeps h h' s := by
  have t₁ : Tracks (replaced h.objectAt (h.allocationOf handle) none) _ _ := i.tracks.erase hl
  obtain ⟨old, hold, -⟩ := i.extentOf_eq hl
  have insert (length : Nat) {starts : Nat → Option Nat} (hle : size ≤ length)
      (w : h'.WellFormed) (hfresh : replaced h.objectAt (h.allocationOf handle) none moved = none)
      (objects : h'.objectAt =
        replaced (replaced h.objectAt (h.allocationOf handle) none) moved (some length))
      (records : h'.aligned.start? = starts)
      (hstarts : starts = fun k => if handle = k then none else h.aligned.start? k) :
      Isolated h' (replaced (replaced live handle none) moved (some size)) := by
    have hpos := (w.object_bounds (show h'.objectAt moved = some length by
      rw [objects, replaced_self])).1
    have t₂ := (t₁.insert hfresh (by rw [← objects]; exact w.disjoint) (Nat.le_refl _)
      (Nat.lt_add_of_pos_right hpos) (Nat.add_le_add_left hle _)).2
    refine ⟨w, ?_⟩
    rw [objects, records, hstarts]
    simpa using t₂
  obtain ⟨⟨length, hle, ⟨rfl, hs, t⟩ | ⟨hfresh, t⟩⟩, -⟩ := r
  · -- in place
    have hself : h.allocationOf moved = moved := by rw [allocationOf, hs]; rfl
    refine ⟨insert length hle t.wellFormed ?_ ?_ (by rw [t.aligned_eq]) ?_, fun s hne => ?_⟩
    · rw [hself, replaced_self]
    · rw [hself, replaced_twice]
      exact funext t.objects_eq
    · funext k
      by_cases hk : moved = k
      · rw [if_pos hk, ← hk, hs]
      · rw [if_neg hk]
    · rw [hself] at hne
      exact t.keeps fun l hl => by rw [replaced_of_ne _ _ hne]; exact hl
  · have hne : moved ≠ h.allocationOf handle := by
      intro he
      rw [he, hold] at hfresh
      cases hfresh
    refine ⟨insert length hle t.wellFormed ?_ ?_ ?_ rfl, fun s hs => ?_⟩
    · rw [replaced_of_ne _ _ hne]
      exact hfresh
    · rw [← replaced_comm _ hne]
      exact funext t.objects_eq
    · funext k
      rw [t.aligned_eq]
      exact AlignmentRecords.start?_erase _ _ _
    · refine t.keeps fun l hl => ?_
      rw [replaced_of_ne _ _ hs, replaced_of_ne]
      · exact hl
      · rintro rfl
        rw [show h.objectAt s = some l from hl] at hfresh
        cases hfresh

theorem Isolated.writes (i : Isolated h live) {start : Nat} (wr : Writes h h' start) :
    Isolated h' live ∧ ∀ s, s ≠ start → Keeps h h' s := by
  refine ⟨⟨wr.wellFormed, ?_⟩, fun s hs l hl => ⟨(wr.objects_eq s).trans hl, wr.bytes_eq s l hs hl⟩⟩
  rw [show h'.objectAt = h.objectAt from funext wr.objects_eq, wr.aligned_eq]
  exact i.tracks

theorem Isolated.saved (i : Isolated h live) (s : Saved h h') :
    Isolated h' live ∧ ∀ s, Keeps h h' s := by
  have w := s.wellFormed i.wellFormed
  have harena := s.arena
  rw [s.eq] at w ⊢
  exact ⟨⟨w, i.tracks⟩, fun s l hl => ⟨hl, fun _ _ => harena _ (Nat.le_add_right _ _)⟩⟩

theorem Isolated.kept (i : Isolated h live) : Isolated h live ∧ ∀ s, Keeps h h s :=
  ⟨i, Keeps.refl h⟩

/-! ## Operations -/

/-- A handle that is given up concerns the object that it stands for. -/
theorem Isolated.concerns {op : Operation} (i : Isolated h live) {handle : Handle}
    (hg : op.givenUp h = some handle) (hl : live handle ≠ none) :
    op.Concerns h (h.allocationOf handle) := by
  obtain ⟨length, -, he⟩ := i.extentOf_eq hl
  exact ⟨handle, length, .inl hg, he⟩

/-- Bytes that are written lie in the object that the operation is about. -/
theorem Within.concerns {op : Operation} {offset usable start : Nat}
    (hin : Within h offset usable start) (w : h.WellFormed) (hw : op.writesAt = some offset) :
    op.Concerns h start := by
  have := hin.start_le
  have := hin.pos
  exact ⟨offset, _, .inr hw, w.extentOf_eq_ok_iff.2 ⟨hin.object, by omega, by omega⟩⟩

/-- An operation that is granted keeps the account in order, and every object that it is not about. -/
theorem Effect.isolated {op : Operation} {answer : Answer} (e : Effect h h' op answer)
    (i : Isolated h live) (permitted : h.Permits live op) :
    Isolated h' (live.after h op answer) ∧ ∀ s, ¬op.Concerns h s → Keeps h h' s := by
  have w := i.wellFormed
  have answered {live' : Account} (hs : Isolated h' live' ∧ ∀ s, Keeps h h' s) :
      Isolated h' live' ∧ ∀ s, ¬op.Concerns h s → Keeps h h' s := ⟨hs.1, fun s _ => hs.2 s⟩
  have same (hs : h' = h) : Isolated h' live ∧ ∀ s, ¬op.Concerns h s → Keeps h h' s := by
    subst hs
    exact ⟨i, fun s _ => Keeps.refl h' s⟩
  have givenUp {live' : Account} {handle : Handle} (hg : op.givenUp h = some handle)
      (hs : live handle ≠ none →
        Isolated h' live' ∧ ∀ s, s ≠ h.allocationOf handle → Keeps h h' s) :
      Isolated h' live' ∧ ∀ s, ¬op.Concerns h s → Keeps h h' s := by
    have hl := permitted handle hg
    refine ⟨(hs hl).1, fun s hc => (hs hl).2 s ?_⟩
    intro he
    subst he
    exact hc (i.concerns hg hl)
  have written {offset start usable : Nat} (hw : op.writesAt = some offset)
      (hin : Within h offset usable start) (wr : Writes h h' start) :
      Isolated h' live ∧ ∀ s, ¬op.Concerns h s → Keeps h h' s := by
    refine ⟨(i.writes wr).1, fun s hc => (i.writes wr).2 s ?_⟩
    intro he
    subst he
    exact hc (hin.concerns w hw)
  cases e with
  | allocate a => exact answered (i.allocated a)
  | allocateZeroed a _ => exact answered (i.allocated a)
  | allocateAligned a => exact answered (i.allocatedOn a)
  | allocatePageAligned a => exact answered (i.allocatedOn a)
  | reallocate r => exact givenUp rfl fun hl => i.reallocated hl r
  | free _ t => exact givenUp rfl fun hl => i.erase hl t
  | allocateNamed a _ r => exact answered (Isolated.renamed r (i.allocated a))
  | allocateZeroedNamed a _ _ r => exact answered (Isolated.renamed r (i.allocated a))
  | allocateAlignedNamed a _ r => exact answered (Isolated.renamed r (i.allocatedOn a))
  | @freeNamed name handle h₁ names hf _ t _ r =>
    refine givenUp hf fun hl => ?_
    have erased := i.erase hl t
    have account : live.after h (.freeNamed name) .done = replaced live handle none := by
      show live.without (h.names.find? name) = _
      rw [hf]
      rfl
    obtain ⟨heq, -, w'⟩ := r
    subst heq
    rw [account]
    exact ⟨⟨w', erased.1.tracks⟩, erased.2⟩
  | register _ r => exact answered (Isolated.renamed r i.kept)
  | unregister _ r => exact answered (Isolated.renamed r i.kept)
  | write hin _ wr _ => exact written rfl hin wr
  | fill hin _ wr _ => exact written rfl hin wr
  | grow t _ => exact answered (i.same t)
  | shrink t => exact answered (i.same t)
  | trim t => exact answered (i.same t)
  | sync s => exact answered (i.saved s)
  | lookup hs _ => exact same hs
  | resolve hs _ _ _ => exact same hs
  | usableFrom hs _ => exact same hs
  | read hs _ _ _ _ => exact same hs
  | names hs => exact same hs
  | usage hs _ => exact same hs
  | defects hs => exact same hs
  | freeRuns hs _ => exact same hs

/-- An operation that is refused keeps the account in order, and every object. -/
theorem Refusal.isolated {op : Operation} (r : Refusal h h' op) (i : Isolated h live) :
    Isolated h' live ∧ ∀ s, Keeps h h' s := by
  cases r with
  | unchanged hs =>
    subst hs
    exact i.kept
  | allocateAligned t => exact i.same t
  | allocatePageAligned t => exact i.same t
  | allocateAlignedNamed t => exact i.same t
  | sync s => exact i.saved s
  | @reallocate handle _ _ k =>
    rcases k with ⟨hs, -⟩ | ⟨hc, hnone, -⟩
    · subst hs
      exact i.kept
    · -- a handle with a record is live, and its object does not go missing
      obtain ⟨length, hobj, -⟩ := i.extentOf_eq (i.live_of_contains hc)
      rw [hobj] at hnone
      cases hnone

/-- One operation. -/
theorem Isolated.run_ends (i : Isolated h live) (op : Operation) (permitted : h.Permits live op) :
    Ends h.frame.Roomy op.run h
      (fun answer h' => Isolated h' (live.after h op answer) ∧
        ∀ s, ¬op.Concerns h s → Keeps h h' s)
      (fun _ h' => Isolated h' live ∧ ∀ s, Keeps h h' s) :=
  (op.effects i.wellFormed).mono (fun _ _ e => e.isolated i permitted)
    fun _ _ r => r.1.isolated i

/-! ## Runs -/

theorem Isolated.withRefusals (i : Isolated h live) (refusals : Option Refusals) :
    Isolated (h.withRefusals refusals) live := ⟨i.wellFormed.withRefusals refusals, i.tracks⟩

theorem Created.isolated {g : Geometry} {region : Region} (c : Created g region h) :
    Isolated h fun _ => none := by
  refine ⟨c.wellFormed, ?_⟩
  rw [c.aligned]
  exact Tracks.empty c.noObject

theorem Serves.isolated (s : Serves h h' live) (i : Isolated h fun _ => none) :
    Isolated h' live := by
  induction s with
  | start => exact i
  | granted refusals op answer _ permitted ran ih =>
    exact (((ih.withRefusals refusals).run_ends op permitted).of_ok ran).1
  | refused refusals op e _ permitted ran ih =>
    exact (((ih.withRefusals refusals).run_ends op permitted).of_refused ran).1

/-- What a client holds on a heap that was created. Every live object lies in the arena and has the
bytes that were asked for, no two of them overlap, and whatever the client is permitted to ask for
next keeps every live object that it is not about, byte for byte. -/
theorem live_objects_isolated {host : Host} {g : Geometry} {region : Region} {h₀ : Heap}
    (hc : create host g region = .ok h₀) (s : Serves h₀ h live) :
    (∀ handle size, live handle = some size → ∃ start length,
      h.extentOf handle = .ok (start, length) ∧ start ≤ handle ∧
        handle + size ≤ start + length ∧ start + length ≤ h.blockCount * h.blockSize ∧
        h.arenaStart + (start + length) ≤ h.region.size) ∧
    (∀ handle handle' start length start' length', live handle ≠ none → live handle' ≠ none →
      handle ≠ handle' → h.extentOf handle = .ok (start, length) →
      h.extentOf handle' = .ok (start', length') →
      start + length ≤ start' ∨ start' + length' ≤ start) ∧
    ∀ refusals (op : Operation) h', h.Permits live op → op.Leaves (h.withRefusals refusals) h' →
      ∀ handle start length, live handle ≠ none → h.extentOf handle = .ok (start, length) →
        ¬op.Concerns h start → h'.extentOf handle = .ok (start, length) ∧
          ∀ i, start ≤ i → i < start + length → h'.arenaByte i = h.arenaByte i := by
  have i := s.isolated (create_eq_ok hc).isolated
  have w := i.wellFormed
  refine ⟨fun handle size hl => ?_, ?_, ?_⟩
  · obtain ⟨length, hobj, hle, hlt, hfit⟩ := i.tracks.object handle size hl
    have harena := (w.object_bounds hobj).2.1
    refine ⟨_, length, w.extentOf_eq_ok_iff.2 ⟨hobj, hle, hlt⟩, hle, hfit, harena, ?_⟩
    rw [w.size_eq]
    exact Nat.add_le_add_left harena _
  · intro handle handle' start length start' length' hl hl' hne he he'
    obtain ⟨old, hobj, hext⟩ := i.extentOf_eq hl
    obtain ⟨old', hobj', hext'⟩ := i.extentOf_eq hl'
    rw [he] at hext
    rw [he'] at hext'
    cases hext
    cases hext'
    exact w.apart hobj hobj' fun hs => hne (i.tracks.own handle handle' hl hl' hs)
  · intro refusals op h' permitted leaves handle start length hl he hnot
    have step := (i.withRefusals refusals).run_ends op permitted
    have keeps : h'.WellFormed ∧ Keeps h h' start := by
      cases leaves with
      | granted answer ran => exact ⟨(step.of_ok ran).1.wellFormed, (step.of_ok ran).2 start hnot⟩
      | refused e ran =>
        exact ⟨(step.of_refused ran).1.wellFormed, (step.of_refused ran).2 start⟩
    obtain ⟨w', hk⟩ := keeps
    obtain ⟨hobj, hle, hlt⟩ := w.extentOf_eq_ok_iff.1 he
    obtain ⟨hobj', hbytes⟩ := hk length hobj
    refine ⟨w'.extentOf_eq_ok_iff.2 ⟨hobj', hle, hlt⟩, fun i hlo hhi => ?_⟩
    have := hbytes (i - start) (by omega)
    rwa [show start + (i - start) = i by omega] at this

/-! ## A small client -/

/-- A heap with an object on a boundary at 512, inside an allocation that starts at 256. -/
def onBoundary? : Option Heap :=
  (create .ample widerGeometry smallRegion).toOption.bind fun h =>
    (h.answering? (.allocate 256) 0).bind (·.answering? (.allocateAligned 512 512) 512)

theorem serves_onBoundary? (hb : onBoundary? = some h) : ∃ h₀ live,
    create .ample widerGeometry smallRegion = .ok h₀ ∧ Serves h₀ h live ∧ live 512 = some 512 ∧
      live 256 = none ∧ live 300 = none ∧ ∀ handle, live handle ≠ none → handle ∈ [512, 0] := by
  obtain ⟨h₀, hc, run⟩ := Option.bind_eq_some_iff.1 hb
  obtain ⟨h₁, run₁, run₂⟩ := Option.bind_eq_some_iff.1 run
  have s₁ := Serves.start.answered run₁ rfl
  refine ⟨h₀, _, toOption_eq_some_iff.1 hc, s₁.answered run₂ rfl, rfl, rfl, rfl, fun handle hl => ?_⟩
  refine Decidable.byContradiction fun hne => hl ?_
  simp only [List.mem_cons, List.not_mem_nil, or_false, not_or] at hne
  exact (replaced_of_ne _ _ hne.1).trans (replaced_of_ne _ _ hne.2)

theorem live_objects_small : ∃ h₀ h live, create .ample smallGeometry smallRegion = .ok h₀ ∧
    Serves h₀ h live ∧ live 0 = some 100 ∧ live 256 = some 300 ∧
      ∀ start length start' length', h.extentOf 0 = .ok (start, length) →
        h.extentOf 256 = .ok (start', length') →
          start + length ≤ start' ∨ start' + length' ≤ start := by
  have run : ((create .ample smallGeometry smallRegion).toOption.bind fun h =>
      (h.answering? (.allocate 100) 0).bind (·.answering? (.allocate 300) 256)).isSome = true := by
    decide +kernel
  obtain ⟨h₂, run⟩ := Option.isSome_iff_exists.1 run
  obtain ⟨h₀, hc, run⟩ := Option.bind_eq_some_iff.1 run
  obtain ⟨h₁, run₁, run₂⟩ := Option.bind_eq_some_iff.1 run
  have hc := toOption_eq_some_iff.1 hc
  have s₁ := Serves.start.answered run₁ rfl
  have s₂ := s₁.answered run₂ rfl
  exact ⟨h₀, h₂, _, hc, s₂, rfl, rfl, fun start length start' length' =>
    (live_objects_isolated hc s₂).2.1 0 256 start length start' length'
      (Option.some_ne_none 100) (Option.some_ne_none 300) (by decide)⟩

end RegionHeap.Heap
