import RegionHeap.Proofs.Heap.Resuming
import RegionHeap.Proofs.Heap.Stores
import RegionHeap.Proofs.Session.Slots

/-!
A session is a family of heaps that know nothing of each other. `Family.Step` says how such a family
takes a call: every heap is run alone, and a descriptor stands for what was opened under it until it
has been closed once more often than it was retained. A session that shows a family answers whatever
it is asked as the family does, and shows what has become of it (`Shows.answered`).
-/
namespace RegionHeap.Session

/-! ## Calls -/

/-- What is asked of a session. The region of a heap that is used or saved may refuse any requests. -/
inductive Call where
  | openRegion (host : Host) (g : Geometry) (region : Region)
  | openMemory (host : Host) (g : Geometry)
  | openFile (host : Host) (name : String) (g : Geometry)
  | retain (index : Nat)
  | close (index : Nat) (refusals : Option Refusals)
  | use (index : Nat) (refusals : Option Refusals) (op : Operation)

/-- What a call is answered if it does not fail. -/
inductive Reply where
  | opened (index : Nat)
  | done
  | answer (answer : Answer)

/-- What is told of what was run. -/
def told {σ α : Type} (reply : α → Reply) : EStateM.Result Failure σ α → Except Failure Reply
  | .ok a _ => .ok (reply a)
  | .error failure _ => .error failure

/-- What is left of what was run. -/
def left {σ α : Type} : EStateM.Result Failure σ α → σ
  | .ok _ s => s
  | .error _ s => s

/-- The region under a descriptor begins to refuse these requests. -/
def refuse (s : Session) (index : Nat) (refusals : Option Refusals) : Session :=
  match s.open? index with
  | some o => s.setSlot index (some { o with heap := o.heap.withRefusals refusals })
  | none => s

namespace Call

def run : Call → SessionM Reply
  | openRegion host g region => .opened <$> Session.openRegion host g region
  | openMemory host g => .opened <$> Session.openMemory host g
  | openFile host name g => .opened <$> Session.openFile host name g
  | retain index => (fun _ => .done) <$> Session.retain index
  | close index refusals => do
    modify fun s => s.refuse index refusals
    (fun _ => .done) <$> Session.close index
  | use index refusals op => do
    modify fun s => s.refuse index refusals
    .answer <$> Session.run index op

/-- The answer to a call, and the session after it. -/
def answer (call : Call) (s : Session) : Except Failure Reply × Session :=
  (told id (call.run s), left (call.run s))

theorem answer_of_ok {call : Call} {s s' : Session} {reply : Reply} (ran : call.run s = .ok reply s') :
    call.answer s = (.ok reply, s') := by
  rw [answer, ran]
  rfl

theorem answer_of_error {call : Call} {s s' : Session} {failure : Failure}
    (ran : call.run s = .error failure s') : call.answer s = (.error failure, s') := by
  rw [answer, ran]
  rfl

/-- The descriptor that a call is about. -/
def index? : Call → Option Nat
  | openRegion .. | openMemory .. | openFile .. => none
  | retain index | close index _ | use index _ _ => some index

/-- The region on which a call opens a heap, and on what machine. -/
inductive Offers (files : Directory) : Call → Host → Geometry → Region → Prop where
  | region (host : Host) (g : Geometry) (region : Region) :
    Offers files (.openRegion host g region) host g region
  | memory {host : Host} {g : Geometry} {bytes : Nat} {memory : Reservation}
    (capacity : g.regionBytes host = .ok bytes)
    (reserved : Reservation.reserve host bytes = .ok memory) :
    Offers files (.openMemory host g) host g ⟨.memory memory, none⟩
  | file {host : Host} {g : Geometry} {bytes : Nat} {name : String} {file : MappedFile}
    {files' : Directory} (capacity : g.regionBytes host = .ok bytes)
    (mapped : files.mapFile host name bytes = (.ok file, files')) :
    Offers files (.openFile host name g) host g ⟨.file file, none⟩

/-- The store that a call opens is not in use: the file of an open heap is not opened again, and no
other writer has changed its length. -/
def Apart (call : Call) (s : Session) : Prop :=
  ∀ host g region, call.Offers s.files host g region → region.Undisturbed ∧
    ∀ index o name, s.open? index = some o → region.mapped? = some name →
      o.heap.region.mapped? ≠ some name

variable {files : Directory} {call : Call} {host host' : Host} {g g' : Geometry}
  {region region' : Region}

theorem Offers.unique (o : call.Offers files host g region)
    (o' : call.Offers files host' g' region') : host' = host ∧ g' = g ∧ region' = region := by
  cases o with
  | region host g region => cases o'; exact ⟨rfl, rfl, rfl⟩
  | memory capacity reserved =>
    cases o' with | memory capacity' reserved' =>
    rw [capacity] at capacity'
    cases capacity'
    rw [reserved] at reserved'
    cases reserved'
    exact ⟨rfl, rfl, rfl⟩
  | file capacity mapped =>
    cases o' with | file capacity' mapped' =>
    rw [capacity] at capacity'
    cases capacity'
    rw [mapped] at mapped'
    cases mapped'
    exact ⟨rfl, rfl, rfl⟩

/-! ### Opening -/

variable {s : Session} {heap : Heap}

/-- The region that is offered is opened in a session with the same heaps. -/
theorem Offers.run_eq (offers : call.Offers s.files host g region) :
    ∃ s₁, s₁.open? = s.open? ∧
      call.run s = (Reply.opened <$> Session.openRegion host g region) s₁ := by
  cases offers with
  | region host g region => exact ⟨s, rfl, rfl⟩
  | memory capacity reserved =>
    exact ⟨s, rfl, map_run_congr _ (openMemory_of_reserved capacity reserved s)⟩
  | @file host g bytes name file files' capacity mapped =>
    exact ⟨{ s with files := files' }, rfl, map_run_congr _ (openFile_of_mapped capacity mapped)⟩

/-- Without a region to open the call fails. -/
theorem run_of_none_offered (asks : call.index? = none)
    (none_offered : ∀ host g region, ¬call.Offers s.files host g region) :
    ∃ failure s', call.run s = .error failure s' ∧ s'.open? = s.open? := by
  cases call with
  | openRegion host g region => exact absurd (.region host g region) (none_offered host g region)
  | openMemory host g =>
    obtain ⟨failure, failed⟩ := openMemory_of_none
      (fun bytes memory capacity reserved => none_offered _ _ _ (.memory capacity reserved)) s
    exact ⟨failure, s, map_of_error _ failed, rfl⟩
  | openFile host name g =>
    obtain ⟨failure, files, failed⟩ := openFile_of_none
      fun bytes file files capacity mapped => none_offered _ _ _ (.file capacity mapped)
    exact ⟨failure, { s with files }, map_of_error _ failed, rfl⟩
  | retain index | close index refusals | use index refusals op => cases asks

/-- A call that offers a heap opens it under the lowest descriptor that is free. -/
theorem Offers.answer_of_mounted (offers : call.Offers s.files host g region)
    (mounted : Heap.mount host g region = .ok heap) :
    ∃ index s', call.answer s = (.ok (.opened index), s') ∧ s.open? index = none ∧
      (∀ lower, lower < index → s.open? lower ≠ none) ∧
      s'.open? = Function.update s.open? index (some ⟨heap, 1⟩) := by
  obtain ⟨s₁, same, run_eq⟩ := offers.run_eq
  obtain ⟨index, s', opened, inserted⟩ := openRegion_of_ok mounted s₁
  obtain ⟨free, lowest, slots, -⟩ := insert_eq inserted
  rw [same] at free lowest slots
  exact ⟨index, s', answer_of_ok (run_eq.trans (map_of_ok _ opened)), free, lowest, slots⟩

/-- A call that fails to open the region leaves the heaps as they were. -/
theorem Offers.answer_of_rejected {r : Rejection} (offers : call.Offers s.files host g region)
    (rejected : Heap.mount host g region = .error r) :
    ∃ s', call.answer s = (.error r.failure, s') ∧ s'.open? = s.open? := by
  obtain ⟨s₁, same, run_eq⟩ := offers.run_eq
  have failed := map_of_error Reply.opened (openRegion_of_error rejected s₁)
  exact ⟨s₁.handBack r.region, answer_of_error (run_eq.trans failed), same⟩

/-! ### Under a descriptor -/

variable {index : Nat} {o : OpenHeap}

theorem refuse_of_some (ho : s.open? index = some o) (refusals : Option Refusals) :
    s.refuse index refusals =
      s.setSlot index (some { o with heap := o.heap.withRefusals refusals }) := by
  rw [refuse, ho]

theorem refuse_of_none (closed : s.open? index = none) (refusals : Option Refusals) :
    s.refuse index refusals = s := by
  rw [refuse, closed]

/-- A descriptor under which no heap is open is a bad one, and nothing is changed. -/
theorem answer_of_closed (asks : call.index? = some index) (closed : s.open? index = none) :
    call.answer s = (.error (.refused (.badDescriptor index)), s) := by
  have failed : call.run s = .error (.refused (.badDescriptor index)) s := by
    cases call with
    | openRegion | openMemory | openFile => cases asks
    | retain i =>
      cases asks
      exact map_of_error _ (bind_of_error (require_of_none closed))
    | close i refusals | use i refusals op =>
      cases asks
      refine (bind_modify _ _ _).trans ?_
      rw [refuse_of_none closed]
      exact map_of_error _ (bind_of_error (require_of_none closed))
  exact answer_of_error failed

theorem answer_retain (ho : s.open? index = some o) :
    (retain index).answer s =
      (.ok .done, s.setSlot index (some { o with references := o.references + 1 })) :=
  answer_of_ok (map_of_ok _ (retain_of_some ho))

theorem open?_refuse (ho : s.open? index = some o) (refusals : Option Refusals) :
    (s.refuse index refusals).open? =
      Function.update s.open? index (some { o with heap := o.heap.withRefusals refusals }) := by
  rw [refuse_of_some ho, open?_setSlot (lt_size_of_open? ho)]

theorem open?_refuse_self (ho : s.open? index = some o) (refusals : Option Refusals) :
    (s.refuse index refusals).open? index =
      some { o with heap := o.heap.withRefusals refusals } := by
  rw [open?_refuse ho, Function.update_self]

/-- As long as there is another reference the heap stays open. -/
theorem answer_close_of_more (ho : s.open? index = some o) (more : 1 < o.references)
    (refusals : Option Refusals) :
    ∃ s', (close index refusals).answer s = (.ok .done, s') ∧ s'.open? =
      Function.update s.open? index
        (some { heap := o.heap.withRefusals refusals, references := o.references - 1 }) := by
  have ho' := open?_refuse_self ho refusals
  refine ⟨_, answer_of_ok (map_of_ok _ (close_of_more ho' more)), ?_⟩
  rw [open?_setSlot (lt_size_of_open? ho'), open?_refuse ho, Function.update_idem]

/-- The last reference frees the descriptor, and the region is handed back as saving it has left it. -/
theorem answer_close_of_last (ho : s.open? index = some o) (last : o.references ≤ 1)
    (refusals : Option Refusals) :
    ∃ s', (close index refusals).answer s =
        (told (fun _ => .done) (Heap.sync (o.heap.withRefusals refusals)), s') ∧
      s'.open? = Function.update s.open? index none ∧
      s'.files = s.files.handBack (left (Heap.sync (o.heap.withRefusals refusals))).region := by
  have ho' := open?_refuse_self ho refusals
  have slots : ((s.refuse index refusals).setSlot index none).open? =
      Function.update s.open? index none := by
    rw [open?_setSlot (lt_size_of_open? ho'), open?_refuse ho, Function.update_idem]
  have files : ((s.refuse index refusals).setSlot index none).files = s.files := by
    rw [refuse_of_some ho]
    rfl
  have ran := close_of_last ho' last
  cases saved : Heap.sync (o.heap.withRefusals refusals) with
  | ok u heap =>
    rw [saved] at ran
    exact ⟨_, answer_of_ok (map_of_ok _ ran), slots, congrArg (·.handBack heap.region) files⟩
  | error failure heap =>
    rw [saved] at ran
    exact ⟨_, answer_of_error (map_of_error _ ran), slots, congrArg (·.handBack heap.region) files⟩

/-- An operation runs on the heap under the descriptor alone. -/
theorem answer_use (ho : s.open? index = some o) (refusals : Option Refusals) (op : Operation) :
    ∃ s', (use index refusals op).answer s =
        (told .answer (op.run (o.heap.withRefusals refusals)), s') ∧
      s'.open? = Function.update s.open? index
        (some { o with heap := left (op.run (o.heap.withRefusals refusals)) }) := by
  have ho' := open?_refuse_self ho refusals
  have slots (slot : Option OpenHeap) :
      (((s.refuse index refusals).setSlot index none).setSlot index slot).open? =
        Function.update s.open? index slot := by
    have hlt := lt_size_of_open? ho'
    rw [open?_setSlot (by rwa [size_setSlot]), open?_setSlot hlt, open?_refuse ho,
      Function.update_idem, Function.update_idem]
  have ran := onHeap_of_some ho' op.run
  cases done : op.run (o.heap.withRefusals refusals) with
  | ok a heap =>
    rw [done] at ran
    exact ⟨_, answer_of_ok (map_of_ok _ ran), slots _⟩
  | error failure heap =>
    rw [done] at ran
    exact ⟨_, answer_of_error (map_of_error _ ran), slots _⟩

end Call

/-! ## Families of heaps -/

/-- What has become of a descriptor since it was given out: the heap that was opened, that heap after
everything that it was asked alone, and how often the descriptor was retained and closed. -/
structure Tenure where
  opened : Heap
  heap : Heap := opened
  retained : Nat := 0
  closed : Nat := 0

/-- Heaps by descriptor. -/
abbrev Family := Nat → Option Tenure

/-- How a family of heaps takes a call. A new heap gets the lowest descriptor that is free. One under
which no heap is open is a bad one. A descriptor is free again when it is closed once more often than
it was retained, whether its heap can be saved or not. -/
inductive Family.Step (files : Directory) (family : Family) :
    Call → Except Failure Reply → Family → Prop where
  | opens {call : Call} {host : Host} {g : Geometry} {region : Region} {heap : Heap} {index : Nat}
    (offers : call.Offers files host g region) (mounted : Heap.mount host g region = .ok heap)
    (free : family index = none) (lowest : ∀ lower, lower < index → family lower ≠ none) :
    Step files family call (.ok (.opened index))
      (Function.update family index (some { opened := heap }))
  | opensNot {call : Call} {failure : Failure} (asks : call.index? = none)
    (rejected : ∀ host g region, call.Offers files host g region →
      ∃ r, Heap.mount host g region = .error r ∧ failure = r.failure) :
    Step files family call (.error failure) family
  | unknown {call : Call} {index : Nat} (asks : call.index? = some index)
    (free : family index = none) :
    Step files family call (.error (.refused (.badDescriptor index))) family
  | retains {index : Nat} {t : Tenure} (held : family index = some t) :
    Step files family (.retain index) (.ok .done)
      (Function.update family index (some { t with retained := t.retained + 1 }))
  | releases {index : Nat} {refusals : Option Refusals} {t : Tenure}
    (held : family index = some t) (more : t.closed < t.retained) :
    Step files family (.close index refusals) (.ok .done)
      (Function.update family index
        (some { t with heap := t.heap.withRefusals refusals, closed := t.closed + 1 }))
  | closes {index : Nat} {refusals : Option Refusals} {t : Tenure} {reply : Except Failure Reply}
    (held : family index = some t) (last : t.closed = t.retained)
    (saved : told (fun _ => .done) (Heap.sync (t.heap.withRefusals refusals)) = reply) :
    Step files family (.close index refusals) reply (Function.update family index none)
  | uses {index : Nat} {refusals : Option Refusals} {op : Operation} {t : Tenure}
    {reply : Except Failure Reply} (held : family index = some t)
    (alone : told .answer (op.run (t.heap.withRefusals refusals)) = reply) :
    Step files family (.use index refusals op) reply
      (Function.update family index
        (some { t with heap := left (op.run (t.heap.withRefusals refusals)) }))

/-- What becomes of a family is determined by the call and by the answer. -/
theorem Family.Step.unique {files : Directory} {family family₁ family₂ : Family} {call : Call}
    {reply : Except Failure Reply} (step₁ : Step files family call reply family₁)
    (step₂ : Step files family call reply family₂) : family₂ = family₁ := by
  cases step₁ with
  | opens offers mounted free lowest =>
    cases step₂ with
    | opens offers' mounted' free' lowest' =>
      obtain ⟨rfl, rfl, rfl⟩ := offers.unique offers'
      rw [mounted] at mounted'
      cases mounted'
      rfl
    | _ => cases offers
  | opensNot asks rejected =>
    cases step₂ with
    | opensNot _ _ | unknown _ _ => rfl
    | _ => cases asks
  | unknown asks free =>
    cases step₂ with
    | opensNot _ _ | unknown _ _ => rfl
    | _ held =>
      cases asks
      rw [free] at held
      cases held
  | retains held =>
    cases step₂ with
    | retains held' =>
      rw [held] at held'
      cases held'
      rfl
  | releases held more =>
    cases step₂ with
    | releases held' more' =>
      rw [held] at held'
      cases held'
      rfl
    | closes held' last' =>
      rw [held] at held'
      cases held'
      omega
  | closes held last saved =>
    cases step₂ with
    | closes held' last' saved' => rfl
    | releases held' more' =>
      rw [held] at held'
      cases held'
      omega
    | unknown asks' free' =>
      cases asks'
      rw [held] at free'
      cases free'
    | opens offers' => cases offers'
    | opensNot asks' => cases asks'
  | uses held alone =>
    cases step₂ with
    | uses held' alone' =>
      rw [held] at held'
      cases held'
      rfl
    | unknown asks' free' =>
      cases asks'
      rw [held] at free'
      cases free'
    | opens offers' => cases offers'
    | opensNot asks' => cases asks'

/-! ## A session and its family -/

/-- How often a descriptor has to be closed until it is free. -/
def Tenure.references (t : Tenure) : Nat := t.retained + 1 - t.closed

/-- What a descriptor stands for. -/
def Tenure.slot (t : Tenure) : OpenHeap := ⟨t.heap, t.references⟩

/-- The session shows the heaps of the family, each with the references that have not been closed. -/
structure Shows (s : Session) (family : Family) : Prop where
  slots : s.open? = Option.map Tenure.slot ∘ family
  closed_le : ∀ index t, family index = some t → t.closed ≤ t.retained

namespace Shows

variable {s s' s₁ : Session} {family : Family} {call : Call} {region : Region}
  {index : Nat} {t : Tenure} {slot : Option Tenure}

theorem closed? (sh : Shows s family) (free : family index = none) : s.open? index = none := by
  rw [sh.slots, Function.comp_apply, free]
  rfl

theorem held? (sh : Shows s family) (held : family index = some t) :
    s.open? index = some t.slot := by
  rw [sh.slots, Function.comp_apply, held]
  rfl

theorem free_iff (sh : Shows s family) : family index = none ↔ s.open? index = none := by
  rw [sh.slots, Function.comp_apply, Option.map_eq_none_iff]

theorem updated (sh : Shows s family)
    (slots : s'.open? = Function.update s.open? index (slot.map Tenure.slot))
    (closed_le : ∀ t, slot = some t → t.closed ≤ t.retained) :
    Shows s' (Function.update family index slot) where
  slots := by rw [slots, sh.slots, Function.comp_update]
  closed_le i t hi := by
    rw [Function.update_apply] at hi
    split at hi
    · exact closed_le t hi
    · exact sh.closed_le i t hi

/-- A session opens heaps as the family does. -/
theorem answered_opening (sh : Shows s family) (asks : call.index? = none) : ∃ family',
    Family.Step s.files family call (call.answer s).1 family' ∧ Shows (call.answer s).2 family' := by
  by_cases offered : ∃ host g region, call.Offers s.files host g region
  · obtain ⟨host, g, region, offers⟩ := offered
    cases mounted : Heap.mount host g region with
    | error r =>
      obtain ⟨s', answered, same⟩ := offers.answer_of_rejected mounted
      rw [answered]
      refine ⟨family, .opensNot asks fun _ _ _ offers' => ?_, same ▸ sh.slots, sh.closed_le⟩
      obtain ⟨rfl, rfl, rfl⟩ := offers.unique offers'
      exact ⟨r, mounted, rfl⟩
    | ok heap =>
      obtain ⟨index, s', answered, free, lowest, slots⟩ := offers.answer_of_mounted mounted
      rw [answered]
      refine ⟨_, .opens offers mounted (sh.free_iff.2 free)
        fun lower hl => mt sh.free_iff.1 (lowest lower hl), sh.updated slots ?_⟩
      intro t ht
      cases ht
      exact Nat.le_refl 0
  · have none_offered (host g region) : ¬call.Offers s.files host g region :=
      fun offers => offered ⟨host, g, region, offers⟩
    obtain ⟨failure, s', failed, same⟩ := Call.run_of_none_offered asks none_offered
    rw [Call.answer_of_error failed]
    exact ⟨family, .opensNot asks fun _ _ _ offers => absurd offers (none_offered _ _ _),
      same ▸ sh.slots, sh.closed_le⟩

/-- What is asked of an open heap is answered as by that heap alone. -/
theorem answered_held (sh : Shows s family) (asks : call.index? = some index)
    (held : family index = some t) : ∃ family',
    Family.Step s.files family call (call.answer s).1 family' ∧ Shows (call.answer s).2 family' := by
  have ho := sh.held? held
  have hle := sh.closed_le index t held
  cases call with
  | openRegion | openMemory | openFile => cases asks
  | retain i =>
    cases asks
    rw [Call.answer_retain ho]
    refine ⟨_, .retains held, sh.updated ((open?_setSlot (lt_size_of_open? ho) _).trans ?_) ?_⟩
    · have more : t.references + 1 = { t with retained := t.retained + 1 }.references := by
        simp only [Tenure.references]
        omega
      exact congrArg (fun n => Function.update s.open? index (some ⟨t.heap, n⟩)) more
    · intro t' ht
      cases ht
      exact Nat.le_succ_of_le hle
  | close i refusals =>
    cases asks
    rcases Nat.lt_or_eq_of_le hle with more | last
    · have references : 1 < t.references := by
        rw [Tenure.references]
        omega
      obtain ⟨s', answered, slots⟩ := Call.answer_close_of_more ho references refusals
      rw [answered]
      refine ⟨_, .releases held more, sh.updated slots ?_⟩
      intro t' ht
      cases ht
      exact more
    · have references : t.references ≤ 1 := by
        rw [Tenure.references]
        omega
      obtain ⟨s', answered, slots, -⟩ := Call.answer_close_of_last ho references refusals
      rw [answered]
      exact ⟨_, .closes held last rfl, sh.updated slots fun t ht => nomatch ht⟩
  | use i refusals op =>
    cases asks
    obtain ⟨s', answered, slots⟩ := Call.answer_use ho refusals op
    rw [answered]
    refine ⟨_, .uses held rfl, sh.updated slots ?_⟩
    intro t' ht
    cases ht
    exact hle

/-- Whatever is asked of a session, it answers as the family does. -/
theorem answered (sh : Shows s family) (call : Call) : ∃ family',
    Family.Step s.files family call (call.answer s).1 family' ∧ Shows (call.answer s).2 family' := by
  cases asks : call.index? with
  | none => exact sh.answered_opening asks
  | some index =>
    cases held : family index with
    | none =>
      rw [Call.answer_of_closed asks (sh.closed? held)]
      exact ⟨family, .unknown asks held, sh⟩
    | some t => exact sh.answered_held asks held

end Shows

end RegionHeap.Session
