import RegionHeap.Proofs.Heap.Replaying
import RegionHeap.Proofs.Session.Family

/-!
Histories of a session: calls made one after another, each opening a heap on a store of its own or
about one descriptor. The heaps of such a history are on stores apart, and each has become what it
becomes alone (`Family.Tended`). What the last close of a descriptor has saved is opened again as the
heap that was closed (`answers_as_family`).
-/
namespace RegionHeap

/-! ## Files that are handed back -/

namespace Directory

variable {d d' : Directory} {host : Host} {name : String} {capacity : Nat} {file : MappedFile}

theorem find?_put (d : Directory) (name : String) (contents : ByteArray) :
    (d.put name contents).find? name = some contents := by
  rw [put, find?]
  split
  · rename_i found
    have same : ((fun file => file.1 == name) ∘ fun file : String × ByteArray =>
        if file.1 == name then (name, contents) else file) = fun file => file.1 == name := by
      funext file
      rw [Function.comp_apply]
      split
      · rename_i here
        rw [here]
        exact beq_self_eq_true name
      · rfl
    rw [List.find?_map, same]
    obtain ⟨x, hx⟩ := Option.isSome_iff_exists.1 (List.find?_isSome.2 (List.any_eq_true.1 found))
    rw [hx, Option.map_some, if_pos (List.find?_some hx)]
    rfl
  · rename_i missing
    rw [List.find?_append, List.find?_eq_none.2 fun x hx h => missing (List.any_eq_true.2 ⟨x, hx, h⟩)]
    simp

/-- What is mapped is what the file holds. -/
theorem contents_of_mapFile (mapped : d.mapFile host name capacity = (.ok file, d')) :
    file.contents = (d.find? name).getD ByteArray.empty := by
  rw [mapFile] at mapped
  split at mapped
  · cases mapped
  · dsimp only at mapped
    split at mapped
    · cases mapped
    · split at mapped
      · cases mapped
        rfl
      · cases mapped

/-- Where addresses are plenty, a file is mapped that is far shorter than there are sizes. -/
theorem exists_mapFile (named : nameFault? name = none) (hcap : capacity < 1 <<< 62)
    (hsize : ((d.find? name).getD ByteArray.empty).size < 1 <<< 62) :
    ∃ file d', d.mapFile .ample name capacity = (.ok file, d') := by
  have page : Host.ample.page = 4096 := rfl
  have rounded : ∃ room, Size.roundUp?
      (max (max capacity ((d.find? name).getD ByteArray.empty).size) 1) Host.ample.page = some room :=
    Heap.roundUp?_of_lt (by rw [Size.limit, page]; omega)
  obtain ⟨room, hroom⟩ := rounded
  rw [mapFile, named]
  dsimp only
  rw [hroom]
  exact ⟨_, _, rfl⟩

end Directory

namespace Region

variable {r r' : Region} {host : Host} {name : String} {d d' : Directory} {file : MappedFile}
  {capacity : Nat}

/-- A file that was left undisturbed is handed back as it was used. -/
theorem find?_handBack (undisturbed : r.Undisturbed) (named : r.mapped? = some name) :
    ∃ f, r.backing = .file f ∧ (d.handBack r).find? name = some f.contents := by
  obtain ⟨backing, refusals⟩ := r
  cases backing with
  | memory m => cases named
  | file f =>
    cases named
    obtain ⟨hcut, hbeyond⟩ := undisturbed f rfl
    have whole : f.whole = f.contents := by
      simp [MappedFile.whole, hcut, hbeyond]
    refine ⟨f, rfl, ?_⟩
    rw [Directory.handBack, Directory.find?_put, whole]

/-- It is mapped again with the bytes that were in use. -/
theorem sameBytes_mapFile (undisturbed : r.Undisturbed) (named : r.mapped? = some name)
    (mapped : (d.handBack r).mapFile host name capacity = (.ok file, d')) :
    r.SameBytes ⟨.file file, none⟩ := by
  obtain ⟨f, backing, found⟩ := find?_handBack undisturbed named
  have contents : file.contents = f.contents := by
    rw [Directory.contents_of_mapFile mapped, found]
    rfl
  have held : (Backing.file file).held = r.backing.held := by
    rw [backing]
    exact contents
  have size : (Backing.file file).size = r.backing.size := by
    rw [backing]
    exact congrArg ByteArray.size contents
  exact ⟨size, fun i => by simp only [byte, Backing.byte, held, size]⟩

end Region

namespace Session

open Heap

/-! ## Histories -/

/-- A session that came about by calls made one after another, on stores apart and none of them a
trap, and the family of heaps that took the same calls. -/
inductive History (files : Directory) : Session → Family → Prop where
  | start : History files { files } fun _ => none
  | called {s s' : Session} {family family' : Family} {call : Call} {reply : Except Failure Reply}
    (before : History files s family) (apart : call.Apart s)
    (answered : call.answer s = (reply, s')) (returned : reply ≠ .error .trap)
    (stepped : Family.Step s.files family call reply family') : History files s' family'

/-- Each heap of the family can be saved if the one that was opened could, its store is undisturbed,
and no other heap maps the same file. -/
structure Family.Tended (family : Family) : Prop where
  savable : ∀ index t, family index = some t → t.opened.Savable → t.heap.Savable
  undisturbed : ∀ index t, family index = some t → t.heap.region.Undisturbed
  apart : ∀ index index' t t' name, family index = some t → family index' = some t' →
    t.heap.region.mapped? = some name → t'.heap.region.mapped? = some name → index' = index

variable {files : Directory} {s : Session} {family family' : Family} {call : Call}
  {reply : Except Failure Reply} {index : Nat} {t t' : Tenure} {h : Heap} {op : Operation}

/-- What an operation that was no trap leaves behind. -/
theorem leaves_left (returned : told .answer (op.run h) ≠ .error .trap) :
    op.Leaves h (left (op.run h)) := by
  cases ran : op.run h with
  | ok answer h' => exact .granted answer ran
  | error failure h' =>
    cases failure with
    | refused e => exact .refused e ran
    | trap =>
      rw [ran] at returned
      exact absurd rfl returned

namespace Family.Tended

/-- It is enough to look at the heap that is new under its descriptor. -/
theorem updated (tended : family.Tended) {slot : Option Tenure}
    (savable : ∀ t, slot = some t → t.opened.Savable → t.heap.Savable)
    (undisturbed : ∀ t, slot = some t → t.heap.region.Undisturbed)
    (apart : ∀ t, slot = some t → ∀ i u name, i ≠ index → family i = some u →
      t.heap.region.mapped? = some name → u.heap.region.mapped? ≠ some name) :
    Tended (Function.update family index slot) where
  savable i u hu := by
    rw [Function.update_apply] at hu
    split at hu
    · exact savable u hu
    · exact tended.savable i u hu
  undisturbed i u hu := by
    rw [Function.update_apply] at hu
    split at hu
    · exact undisturbed u hu
    · exact tended.undisturbed i u hu
  apart i j u v name hu hv named named' := by
    rw [Function.update_apply] at hu hv
    split at hu
    · rename_i here
      split at hv
      · rename_i there
        rw [here, there]
      · rename_i other
        exact absurd named' (apart u hu j v name other hv named)
    · rename_i other
      split at hv
      · exact absurd named (apart v hv i u name other hu named')
      · exact tended.apart i j u v name hu hv named named'

/-- A heap that becomes another on the same store. -/
theorem replaced (tended : family.Tended) (held : family index = some t)
    (same : SameStore t.heap t'.heap) (opened : t'.opened = t.opened)
    (savable : t.heap.Savable → t'.heap.Savable) :
    Tended (Function.update family index (some t')) := by
  refine tended.updated ?_ ?_ ?_
  · intro u hu s
    cases hu
    rw [opened] at s
    exact savable (tended.savable index t held s)
  · intro u hu
    cases hu
    exact same.undisturbed (tended.undisturbed index t held)
  · intro u hu i v name other hv named named'
    cases hu
    rw [same.mapped_eq] at named
    exact other (tended.apart index i t v name held hv named named')

/-- Every call keeps the heaps of a family apart. -/
theorem step (tended : family.Tended) (sh : Shows s family) (apart : call.Apart s)
    (returned : reply ≠ .error .trap) (stepped : Family.Step s.files family call reply family') :
    family'.Tended := by
  cases stepped with
  | opens offers mounted free lowest =>
    obtain ⟨undisturbed, apart⟩ := apart _ _ _ offers
    have same := stored_mount mounted
    refine tended.updated ?_ ?_ ?_
    · intro u hu
      cases hu
      exact id
    · intro u hu
      cases hu
      exact same.undisturbed undisturbed
    · intro u hu i v name _ hv named
      cases hu
      rw [same.mapped_eq] at named
      exact apart i v.slot name (sh.held? hv) named
  | opensNot asks rejected => exact tended
  | unknown asks free => exact tended
  | retains held => exact tended.replaced held (Trail.refl _) rfl id
  | releases held more =>
    exact tended.replaced held (sameStore_withRefusals _ _) rfl fun s => s.withRefusals _
  | closes held last saved =>
    exact tended.updated (fun _ hu => nomatch hu) (fun _ hu => nomatch hu) fun _ hu => nomatch hu
  | @uses index refusals op t reply held alone =>
    rw [← alone] at returned
    have reaches : Reaches t.heap (left (op.run (t.heap.withRefusals refusals))) :=
      .step refusals op .start (leaves_left returned)
    exact tended.replaced held reaches.sameStore rfl reaches.savable

end Family.Tended

/-- At every point of a history the session shows the family, and its heaps are on stores apart. -/
theorem History.shows (history : History files s family) : Shows s family ∧ family.Tended := by
  induction history with
  | start =>
    refine ⟨⟨rfl, ?_⟩, ⟨?_, ?_, ?_⟩⟩
    all_goals
      intros
      contradiction
  | @called s s' family family' call reply before apart answered returned stepped ih =>
    obtain ⟨sh, tended⟩ := ih
    obtain ⟨family₁, stepped₁, shows₁⟩ := sh.answered call
    rw [answered] at stepped₁ shows₁
    obtain rfl := stepped.unique stepped₁
    exact ⟨shows₁, tended.step sh apart returned stepped⟩

/-! ## Opening again -/

/-- A call opens again what a region held that was given up: its bytes, or the file that it mapped. -/
structure Call.Reopens (files : Directory) (given : Region) (call : Call)
    (host : Host) (g : Geometry) (region : Region) : Prop where
  offers : call.Offers files host g region
  holds : given.SameBytes region ∨ ∃ name, given.mapped? = some name ∧ call = .openFile host name g

/-- After the last close the store holds what was saved. -/
theorem Call.Reopens.sameBytes {d : Directory} {given region : Region} {host : Host} {g : Geometry}
    (reopens : call.Reopens (d.handBack given) given host g region) (undisturbed : given.Undisturbed) :
    given.SameBytes region := by
  obtain ⟨offers, same | ⟨name, mapped, rfl⟩⟩ := reopens
  · exact same
  · cases offers with
    | file capacity remapped => exact Region.sameBytes_mapFile undisturbed mapped remapped

/-- Whoever opens again what the region held gets the heap that it was, with the lowest descriptor
that is free. -/
def Keeps (s : Session) (given : Region) (h : Heap) : Prop :=
  ∀ (again : Call) (host : Host) (g : Geometry) (region : Region),
    again.Reopens s.files given host g region →
    ∃ index heap s', again.answer s = (.ok (.opened index), s') ∧
      s'.open? index = some ⟨heap, 1⟩ ∧ h.Resumes heap

/-- What a last close has saved is opened again as the heap that was closed. -/
theorem keeps_of_close {refusals : Option Refusals} {s' : Session} (sh : Shows s family)
    (tended : family.Tended) (held : family index = some t) (last : t.closed = t.retained)
    (savable : t.opened.Savable) (closed : (Call.close index refusals).answer s = (.ok .done, s')) :
    ∃ saved, sync (t.heap.withRefusals refusals) = .ok () saved ∧
      s'.Keeps saved.region t.heap := by
  have references : t.references ≤ 1 := by
    rw [Tenure.references]
    omega
  obtain ⟨s₁, answered, -, files⟩ := Call.answer_close_of_last (sh.held? held) references refusals
  rw [closed] at answered
  obtain ⟨granted, rfl⟩ := Prod.mk.inj answered
  have ready := (tended.savable index t held savable).withRefusals refusals
  have apart : (t.heap.withRefusals refusals).region.Undisturbed := tended.undisturbed index t held
  rw [show t.slot.heap = t.heap from rfl] at granted files
  cases ran : sync (t.heap.withRefusals refusals) with
  | error failure h' =>
    rw [ran] at granted
    cases granted
  | ok u saved =>
    rw [ran] at files
    refine ⟨saved, rfl, fun again host g region reopens => ?_⟩
    have kept : Saved (t.heap.withRefusals refusals) saved :=
      saved_of_leaves ready.wellFormed (.granted .done (map_of_ok _ ran))
    have undisturbed := ((stored_sync _).of_ok ran).undisturbed apart
    have same := Call.Reopens.sameBytes (files ▸ reopens) undisturbed
    obtain ⟨heap, mounted, resumes⟩ := kept.resumed ready same g
    obtain ⟨index', s'', opened, -, -, slots⟩ := reopens.offers.answer_of_mounted mounted
    exact ⟨index', heap, s'', opened, by rw [slots, Function.update_self], resumes.of_withRefusals⟩

/-- A session is a family of heaps that know nothing of each other, each open until it has been closed
once more often than it was retained. At every point of a history it answers whatever comes next as
that family does, and calls on a descriptor that is not open change nothing. What a last close has
saved is opened again as the heap that was closed, if that heap was created, or found in an image whose
free runs have nothing but blanks inside. -/
theorem answers_as_family (history : History files s family) (call : Call) :
    Shows s family ∧ family.Tended ∧
      (∃ family', Family.Step s.files family call (call.answer s).1 family' ∧
        Shows (call.answer s).2 family') ∧
      (∀ index, call.index? = some index → family index = none →
        call.answer s = (.error (.refused (.badDescriptor index)), s)) ∧
      (∀ host g region h, call.Offers s.files host g region → mount host g region = .ok h →
        (region.size = 0 → h.Savable) ∧
          (h.Savable ↔ h.maxBlocks < Geometry.blockLimit ∧ BlankInside region)) ∧
      ∀ index refusals t s', call = .close index refusals → family index = some t →
        t.closed = t.retained → t.opened.Savable → call.answer s = (.ok .done, s') →
        ∃ saved, sync (t.heap.withRefusals refusals) = .ok () saved ∧
          s'.Keeps saved.region t.heap := by
  obtain ⟨sh, tended⟩ := history.shows
  refine ⟨sh, tended, sh.answered call, ?_, ?_, ?_⟩
  · intro index asks free
    exact Call.answer_of_closed asks (sh.closed? free)
  · intro host g region h _ mounted
    exact ⟨fun new => savable_of_mount new mounted, savable_iff mounted⟩
  · intro index refusals t s' asks held last savable closed
    rw [asks] at closed
    exact keeps_of_close sh tended held last savable closed

/-! ## A history of two heaps -/

/-- What is answered is no trap. -/
theorem ok_ne_trap (reply : Reply) : (.ok reply : Except Failure Reply) ≠ .error .trap := by
  intro trap
  cases trap

/-- A call under a descriptor opens nothing. -/
theorem Call.apart_of_index? (asks : call.index? = some index) : call.Apart s := by
  intro host g region offers
  cases offers <;> cases asks

namespace History

/-- A heap on a store of its own is opened under the lowest descriptor that is free. -/
theorem opened {host : Host} {g : Geometry} {region : Region} (history : History files s family)
    (offers : call.Offers s.files host g region) (mounted : mount host g region = .ok h)
    (undisturbed : region.Undisturbed)
    (apart : ∀ name, region.mapped? = some name →
      ∀ i t, family i = some t → t.heap.region.mapped? ≠ some name) :
    ∃ index s', call.answer s = (.ok (.opened index), s') ∧ family index = none ∧
      (∀ lower, lower < index → family lower ≠ none) ∧
      History files s' (Function.update family index (some { opened := h })) := by
  obtain ⟨sh, -⟩ := history.shows
  obtain ⟨index, s', answered, free, lowest, -⟩ := offers.answer_of_mounted mounted
  have free := sh.free_iff.2 free
  have lowest (lower : Nat) (hl : lower < index) := mt sh.free_iff.1 (lowest lower hl)
  refine ⟨index, s', answered, free, lowest,
    .called history ?_ answered (ok_ne_trap _) (.opens offers mounted free lowest)⟩
  intro host' g' region' offers'
  obtain ⟨rfl, rfl, rfl⟩ := offers.unique offers'
  refine ⟨undisturbed, fun i o name ho named => ?_⟩
  cases held : family i with
  | none =>
    rw [sh.closed? held] at ho
    cases ho
  | some t =>
    rw [sh.held? held] at ho
    cases ho
    exact apart name named i t held

theorem retained (history : History files s family) (index : Nat)
    (held : family index = some t) : ∃ s', (Call.retain index).answer s = (.ok .done, s') ∧
      History files s'
        (Function.update family index (some { t with retained := t.retained + 1 })) := by
  have answered := Call.answer_retain (history.shows.1.held? held)
  exact ⟨_, answered, .called history (Call.apart_of_index? rfl) answered (ok_ne_trap _) (.retains held)⟩

theorem used {refusals : Option Refusals} {answer : Answer} (history : History files s family)
    (index : Nat) (held : family index = some t)
    (ran : op.run (t.heap.withRefusals refusals) = .ok answer h) :
    ∃ s', (Call.use index refusals op).answer s = (.ok (.answer answer), s') ∧
      History files s' (Function.update family index (some { t with heap := h })) := by
  obtain ⟨s', answered, -⟩ := Call.answer_use (history.shows.1.held? held) refusals op
  have stepped : Family.Step s.files family (.use index refusals op) (.ok (.answer answer)) _ :=
    .uses held (congrArg (told Reply.answer) ran)
  rw [show t.slot.heap = t.heap from rfl, ran] at answered
  rw [ran] at stepped
  exact ⟨s', answered, .called history (Call.apart_of_index? rfl) answered (ok_ne_trap _) stepped⟩

theorem released (history : History files s family) (index : Nat) (held : family index = some t)
    (more : t.closed < t.retained) (refusals : Option Refusals) :
    ∃ s', (Call.close index refusals).answer s = (.ok .done, s') ∧
      History files s' (Function.update family index
        (some { t with heap := t.heap.withRefusals refusals, closed := t.closed + 1 })) := by
  have references : 1 < t.references := by
    rw [Tenure.references]
    omega
  obtain ⟨s', answered, -⟩ :=
    Call.answer_close_of_more (history.shows.1.held? held) references refusals
  exact ⟨s', answered, .called history (Call.apart_of_index? rfl) answered (ok_ne_trap _)
    (.releases held more)⟩

end History

/-- The empty file of that name, mapped for the heap of a small geometry. -/
def smallFile : Region where
  backing := .file { name := "a", capacity := 8192, contents := ByteArray.empty }

/-- A heap in that file gives out an object and can be saved. -/
theorem exists_fileHeap : ∃ h h₁ h₂, create .ample smallGeometry smallFile = .ok h ∧
    (Operation.allocate 300).run (h.withRefusals none) = .ok (.handle 0) h₁ ∧
    h₁.objectAt 0 = some 512 ∧ sync (h₁.withRefusals none) = .ok () h₂ ∧
    h₂.region.size ≤ 8192 := by
  have run : ((create .ample smallGeometry smallRegion).toOption.bind fun m =>
      ((m.withRefusals none).answering? (.allocate 300) 0).bind fun m₁ =>
        if m₁.objectAt 0 = some 512 then
          ((m₁.withRefusals none).granting? .sync).bind fun m₂ =>
            if m₂.region.size ≤ 8192 then some m₂ else none
        else none).isSome = true := by
    decide +kernel
  obtain ⟨_, run⟩ := Option.isSome_iff_exists.1 run
  obtain ⟨m, created, run⟩ := Option.bind_eq_some_iff.1 run
  obtain ⟨m₁, allocated, run⟩ := Option.bind_eq_some_iff.1 run
  obtain ⟨object, run⟩ := Option.ite_none_right_eq_some.1 run
  obtain ⟨m₂, synced, run⟩ := Option.bind_eq_some_iff.1 run
  obtain ⟨bounded, -⟩ := Option.ite_none_right_eq_some.1 run
  have created := toOption_eq_some_iff.1 created
  have allocated := answering?_eq_some_iff.1 allocated
  obtain ⟨answer, synced⟩ := granting?_eq_some_iff.1 synced
  have w := (create_eq_ok created).wellFormed.withRefusals none
  have w₁ := (Continues.of_leaves w (.granted _ allocated)).wellFormed.withRefusals none
  -- what was run in memory is run in the file
  have twin : Region.Twin smallRegion smallFile := ⟨rfl, rfl, rfl⟩
  rcases create_twin twin (fun _ => rfl) with ⟨m', h, hm, hc, alike⟩ | ⟨r, _, hr, -⟩
  · rw [created] at hm
    cases hm
    obtain ⟨h₁, allocated', alike₁⟩ :=
      (Operation.preserves rfl w (alike.withRefusals none)).of_ok allocated
    obtain ⟨h₂, synced', alike₂⟩ :=
      (Operation.preserves rfl w₁ (alike₁.withRefusals none)).of_ok synced
    refine ⟨h, h₁, h₂, hc, allocated', ?_, ?_, ?_⟩
    · rw [alike₁.eq]
      exact object
    · cases ran : sync (h₁.withRefusals none) with
      | ok _ _ =>
        have := (map_of_ok _ ran).symm.trans synced'
        cases this
        rfl
      | error failure h' =>
        have failed := (map_of_error _ ran).symm.trans synced'
        cases failed
    · rw [alike₂.twin.size_eq]
      exact bounded
  · rw [created] at hr
    cases hr

/-- A heap in that file and one in memory are opened. The first one is used, retained and closed. -/
theorem exists_history {h m h₁ : Heap} (created : create .ample smallGeometry smallFile = .ok h)
    (created' : create .ample smallGeometry smallRegion = .ok m)
    (allocated : (Operation.allocate 300).run (h.withRefusals none) = .ok (.handle 0) h₁) :
    ∃ s family, History {} s family ∧ family 0 = some ⟨h, h₁.withRefusals none, 1, 1⟩ ∧
      family 1 = some { opened := m } := by
  have offers : (Call.openFile .ample "a" smallGeometry).Offers {} .ample smallGeometry smallFile :=
    @Call.Offers.file {} .ample smallGeometry 5120 "a" _ _ rfl rfl
  have undisturbed : smallFile.Undisturbed := by
    intro f mapped
    cases mapped
    exact ⟨rfl, rfl⟩
  obtain ⟨index, s₁, -, -, lowest, history⟩ :=
    History.start.opened offers ((if_pos rfl).trans created) undisturbed fun _ _ _ _ ht => nomatch ht
  obtain rfl : index = 0 := by
    by_contra hne
    exact lowest 0 (Nat.pos_of_ne_zero hne) rfl
  obtain ⟨index, s₂, -, free, lowest, history⟩ := history.opened
    (.region .ample smallGeometry smallRegion) ((if_pos rfl).trans created') nofun nofun
  obtain rfl : index = 1 := by
    by_contra hne
    rcases Nat.lt_or_gt_of_ne hne with below | above
    · obtain rfl := Nat.lt_one_iff.1 below
      cases free
    · exact lowest 1 above rfl
  obtain ⟨s₃, -, history⟩ := history.retained 0 rfl
  obtain ⟨s₄, -, history⟩ := history.used 0 rfl allocated
  obtain ⟨s₅, -, history⟩ := history.released 0 rfl Nat.one_pos none
  exact ⟨s₅, _, history, rfl, rfl⟩

/-- Two heaps are open. One of them is on a file, was retained and closed, and has an object; the other
one has none. When the first is closed once more, it is opened again by the name of its file, and has
its object. -/
theorem answers_as_family_small : ∃ s family t u s' index again s'',
    History {} s family ∧ family 0 = some t ∧ t.retained = 1 ∧ t.closed = 1 ∧
      t.heap.region.mapped? = some "a" ∧ t.heap.objectAt 0 = some 512 ∧ family 1 = some u ∧
      u.heap.objectAt 0 = none ∧ (Call.close 0 none).answer s = (.ok .done, s') ∧
      (Call.openFile .ample "a" smallGeometry).answer s' = (.ok (.opened index), s'') ∧
      s''.open? index = some ⟨again, 1⟩ ∧ again.objectAt 0 = some 512 := by
  obtain ⟨h, h₁, h₂, created, allocated, object, synced, bounded⟩ := exists_fileHeap
  have small : (create .ample smallGeometry smallRegion).toOption.isSome = true := by decide +kernel
  obtain ⟨m, small⟩ := Option.isSome_iff_exists.1 small
  have created' := toOption_eq_some_iff.1 small
  have mounted : mount .ample smallGeometry smallFile = .ok h := (if_pos rfl).trans created
  obtain ⟨s, family, history, held, other⟩ := exists_history created created' allocated
  obtain ⟨sh, tended, -, -, -, closes⟩ := answers_as_family history (.close 0 none)
  have opens : Reaches h h₁ := .step none (.allocate 300) .start (.granted _ allocated)
  have mapped : h₁.region.mapped? = some "a" :=
    opens.sameStore.mapped_eq.trans (stored_mount mounted).mapped_eq
  -- it is closed
  obtain ⟨s', closed, -, files⟩ := Call.answer_close_of_last (sh.held? held) (Nat.le_refl 1) none
  have synced' : sync ((Tenure.slot ⟨h, h₁.withRefusals none, 1, 1⟩).heap.withRefusals none) =
    .ok () h₂ := synced
  rw [synced'] at closed files
  obtain ⟨saved, ran, keeps⟩ :=
    closes 0 none _ s' rfl held rfl (savable_of_mount rfl mounted) closed
  cases synced'.symm.trans ran
  -- its file is mapped again
  have same := (stored_sync (h₁.withRefusals none)).of_ok synced
  have named : h₂.region.mapped? = some "a" := same.mapped_eq.trans mapped
  obtain ⟨f, backing, found⟩ := Region.find?_handBack (d := s.files)
    (same.undisturbed (tended.undisturbed 0 _ held)) named
  have short : f.contents.size < 1 <<< 62 := by
    have : h₂.region.size = f.contents.size := congrArg Backing.size backing
    omega
  have capacity : smallGeometry.regionBytes .ample = .ok 5120 := rfl
  have maps : ∃ file d', (s.files.handBack h₂.region).mapFile .ample "a" 5120 = (.ok file, d') :=
    Directory.exists_mapFile rfl (by decide) (by rw [found]; exact short)
  obtain ⟨file, d', remapped⟩ := maps
  have reopens : Call.Reopens s'.files h₂.region (.openFile .ample "a" smallGeometry) .ample
      smallGeometry ⟨.file file, none⟩ := by
    rw [files]
    exact ⟨.file capacity remapped, .inr ⟨"a", named, rfl⟩⟩
  obtain ⟨index, again, s'', opened, slot, resumes⟩ := keeps _ _ _ _ reopens
  exact ⟨s, family, _, _, s', index, again, s'', history, held, rfl, rfl, mapped, object, other,
    (create_eq_ok created').noObject 0, closed, opened, slot, (resumes.objectAt_eq 0).trans object⟩

end Session

end RegionHeap
