import Mathlib.Data.List.Forall2
import RegionHeap.Proofs.Heap.Attaching
import RegionHeap.Proofs.Heap.Indifference
import RegionHeap.Proofs.Heap.Remembering

/-!
The same run made on two heaps that are alike. Whatever the objects hold, and whatever is written into
them, both heaps answer in the same way and stay alike (`contents_unobserved`): no decision rests on
the contents of an object. A heap may also be given up and attached again on the way, as long as
nothing has been put on links that were free when it was saved: attaching takes them for links.
-/
namespace RegionHeap

/-! ## Runs -/

/-- What is done with a heap: something is asked of it, or it is given up and its region is attached
again. The region may refuse any requests at any time. -/
inductive Step where
  | ask (refusals : Option Refusals) (op : Operation)
  | attach (refusals : Option Refusals)

/-- What a client sees of a step. -/
inductive Reply where
  | answer (answer : Answer)
  | refused (e : HeapError)
  | trap
  | attached
  | rejected (failure : Failure)

namespace Step

/-- The reply to a step and the heap that it leaves, if there is one. -/
def run : Step → Heap → Reply × Option Heap
  | ask refusals op, h =>
    match op.run (h.withRefusals refusals) with
    | .ok answer h' => (.answer answer, some h')
    | .error (.refused e) h' => (.refused e, some h')
    | .error .trap _ => (.trap, none)
  | attach refusals, h =>
    match Heap.load (h.withRefusals refusals).region with
    | .ok h' => (.attached, some h')
    | .error r => (.rejected r.failure, none)

/-- The same step, save for the bytes that it writes. -/
inductive Alike : Step → Step → Prop where
  | ask (refusals : Option Refusals) {op op' : Operation} (alike : op.Alike op') :
    Alike (.ask refusals op) (.ask refusals op')
  | attach (refusals : Option Refusals) : Alike (.attach refusals) (.attach refusals)

/-- Where in the arena a step may have put bytes of the client's. -/
def Puts : Step → Reply → Heap → Nat → Prop
  | ask _ op, .answer answer, left, i => op.Puts left (some answer) i
  | ask _ op, .refused _, left, i => op.Puts left none i
  | _, _, _, _ => False

theorem Puts.puts_eq {refusals : Option Refusals} {op : Operation} {reply : Reply} {left : Heap}
    {i : Nat} (puts : (Step.ask refusals op).Puts reply left i) : op.puts = true := by
  cases reply with
  | answer answer => exact Operation.Puts.puts_eq puts
  | refused e => exact Operation.Puts.puts_eq puts
  | trap => cases puts
  | attached => cases puts
  | rejected failure => cases puts

/-- Whether the heap is attached only when it was saved after bytes of the client's were put into it. -/
def savesFirst : (saved : Bool) → List Step → Bool
  | _, [] => true
  | saved, attach _ :: steps => saved && savesFirst saved steps
  | saved, ask _ op :: steps => savesFirst (op.saves || saved && !op.puts) steps

/-- What is known after a step of the heap that was saved last: it is the one that was left if the step
saved it, and else the same as before, as long as nothing is put on links that were free in it. -/
inductive Saves (left : Heap) : Step → Reply → Option Heap → Option Heap → Prop where
  | sync {refusals : Option Refusals} {reply : Reply} {saved : Option Heap} :
    Saves left (.ask refusals .sync) reply saved (some left)
  | kept {step : Step} {reply : Reply} {saved : Heap} (other : ∀ refusals, step ≠ .ask refusals .sync)
    (clear : ∀ x log2, saved.freeFragment x = some log2 → ∀ i, i < 16 →
      ¬step.Puts reply left (x + i)) : Saves left step reply (some saved) (some saved)
  | lost {step : Step} {reply : Reply} {saved : Option Heap} : Saves left step reply saved none

end Step

/-- The same reply, save for the bytes that were read from an object. -/
inductive Reply.Alike : Reply → Reply → Prop where
  | same (reply : Reply) : Alike reply reply
  | answer {answer answer' : Answer} (alike : answer.Alike answer') :
    Alike (.answer answer) (.answer answer')

namespace Heap

/-- The replies to one step after another, each with the heap that is left. A trap ends the run, and so
does a region that is not attached again. -/
def replay (h : Heap) : List Step → List (Reply × Option Heap)
  | [] => []
  | step :: steps =>
    let turn := step.run h
    turn :: match turn.2 with
      | some h' => h'.replay steps
      | none => []

/-- Wherever the steps attach the heap it is known what it was when it was saved last, and nothing has
been put since then on links that were free. -/
def AttachesSaved : Option Heap → Heap → List Step → Prop
  | _, _, [] => True
  | saved, h, step :: steps => (∀ refusals, step = .attach refusals → saved ≠ none) ∧
    ∀ reply h', step.run h = (reply, some h') → ∃ saved', step.Saves h' reply saved saved' ∧
      AttachesSaved saved' h' steps

/-- The replies are alike, and so are the heaps that are left. -/
def TurnsAlike (turn turn' : Reply × Option Heap) : Prop :=
  turn.1.Alike turn'.1 ∧ Option.Rel Alike turn.2 turn'.2

variable {host : Host} {g : Geometry} {region : Region} {h k h' k' saved : Heap} {common : Nat → Prop}

/-! ## One step -/

theorem AlikeOn.withRefusals (a : AlikeOn common h k) (refusals : Option Refusals) :
    AlikeOn common (h.withRefusals refusals) (k.withRefusals refusals) where
  eq := by
    rw [a.eq]
    rfl
  twin := ⟨a.twin.size_eq, a.twin.capacity_eq, rfl⟩
  links := a.links
  agrees := a.agrees

theorem Kept.withRefusals (s : Kept saved h k) (refusals : Option Refusals) :
    Kept saved (h.withRefusals refusals) (k.withRefusals refusals) :=
  ⟨s.wellFormed, s.max_lt, s.start_eq, s.image, s.image'⟩

/-- The links that were free in the heap that was saved last. -/
def LinkedIn (saved : Option Heap) (i : Nat) : Prop := ∃ h₀, saved = some h₀ ∧ h₀.Linked i

/-- Heaps that are alike and can be attached alike, as long as it is known what was saved. -/
structure Together (saved : Option Heap) (h k : Heap) : Prop
    extends AlikeOn (LinkedIn saved) h k where
  restorable : h.Restorable
  kept : ∀ h₀, saved = some h₀ → Kept h₀ h k

theorem Together.of_alike (s : h.Restorable) (a : Alike h k) : Together none h k where
  toAlike := a
  agrees := fun _ ⟨_, hs, _⟩ => nomatch hs
  restorable := s
  kept := fun _ hs => nomatch hs

theorem Together.of_kept {h₀ : Heap} (s : h.Restorable) (a : AlikeOn h₀.Linked h k)
    (kept : Kept h₀ h k) : Together (some h₀) h k where
  toAlike := a.toAlike
  agrees := by
    rintro i ⟨_, hs, hi⟩
    cases hs
    exact a.agrees i hi
  restorable := s
  kept := by
    intro _ hs
    cases hs
    exact kept

/-- An operation leaves heaps of which is known what was saved last. -/
theorem Together.of_saves {saved saved' : Option Heap} {refusals : Option Refusals}
    {op op' : Operation} {reply : Reply} (s : Together saved h k) (o : op.Alike op')
    (leaves : op.Leaves (h.withRefusals refusals) h')
    (leaves' : op'.Leaves (k.withRefusals refusals) k')
    (a' : AlikeOn (fun i => LinkedIn saved i ∧ ∀ x, (Step.ask refusals op).Puts reply h' x →
      i ≠ h'.arenaStart + x) h' k')
    (saves : (Step.ask refusals op).Saves h' reply saved saved') : Together saved' h' k' := by
  have w := s.restorable.wellFormed.withRefusals refusals
  have w' := (s.toAlike.wellFormed s.restorable.wellFormed).withRefusals refusals
  have c := Continues.of_leaves w leaves
  have c' := Continues.of_leaves w' leaves'
  have restorable := c.restorable (s.restorable.withRefusals refusals)
  cases saves with
  | lost => exact .of_alike restorable a'.toAlike
  | sync =>
    cases o
    have hsaved := (saved_of_leaves w leaves).savedIn
    have hsaved' := (saved_of_leaves w' leaves').savedIn
    rw [a'.eq] at hsaved'
    refine .of_kept restorable ⟨a'.toAlike, ?_⟩ ⟨c.wellFormed, restorable.max_lt, rfl, hsaved, hsaved'⟩
    rintro i ⟨x, log2, hx, j, hj, rfl⟩
    exact a'.toAlike.shares c.wellFormed hx j hj
  | @kept _ _ h₀ other clear =>
    have hop : op ≠ .sync := fun he => other refusals (by rw [he])
    have hop' : op' ≠ .sync := by
      rintro rfl
      cases o
      exact hop rfl
    have kept := (s.kept h₀ rfl).withRefusals refusals
    have w₀ := kept.wellFormed
    have hstart : h'.arenaStart = h₀.arenaStart := (arenaStart_of_frame c.frame_eq).trans kept.start_eq
    have hstart' : k'.arenaStart = h₀.arenaStart := a'.arenaStart_eq.trans hstart
    have image := kept.image.of_keepsMetadata w₀ c.wellFormed kept.start_eq hstart
      (keepsMetadata_of_leaves w hop leaves)
    have image' := kept.image'.of_keepsMetadata w₀ c'.wellFormed (s.arenaStart_eq.trans kept.start_eq)
      hstart' (keepsMetadata_of_leaves w' hop' leaves')
    refine .of_kept restorable ⟨a'.toAlike, fun i hi => ?_⟩ ⟨w₀, kept.max_lt, hstart, image, image'⟩
    refine a'.agrees i ⟨⟨h₀, rfl, hi⟩, fun y puts he => ?_⟩
    obtain ⟨x, log2, hx, j, hj, rfl⟩ := hi
    have hy : y = x + j := by omega
    rw [hy] at puts
    exact clear x log2 hx j hj puts

/-- Heaps that are attached again are together as they were before. -/
theorem Together.of_attached {h₀ : Heap} {saved' : Option Heap} {refusals : Option Refusals}
    {reply : Reply} (restorable : h'.Restorable) (kept : Kept h₀ h' k') (a : AlikeOn h₀.Linked h' k')
    (saves : (Step.attach refusals).Saves h' reply (some h₀) saved') : Together saved' h' k' := by
  cases saves with
  | lost => exact .of_alike restorable a.toAlike
  | kept => exact .of_kept restorable a kept

/-- What one step makes of two heaps. -/
inductive Outcomes (step : Step) (saved : Option Heap) :
    Reply × Option Heap → Reply × Option Heap → Prop where
  | ended {reply reply' : Reply} (alike : reply.Alike reply') :
    Outcomes step saved (reply, none) (reply', none)
  | left {reply reply' : Reply} {h k : Heap} (alike : reply.Alike reply') (heaps : Alike h k)
    (together : ∀ saved', step.Saves h reply saved saved' → Together saved' h k) :
    Outcomes step saved (reply, some h) (reply', some k)

/-- One step leaves heaps that are alike, or ends both runs. -/
theorem Together.step {saved : Option Heap} {step step' : Step} (s : Together saved h k)
    (o : step.Alike step') (hattach : ∀ refusals, step = .attach refusals → saved ≠ none) :
    Outcomes step saved (step.run h) (step'.run k) := by
  cases o with
  | @ask refusals op op' o =>
    have w := s.restorable.wellFormed.withRefusals refusals
    rcases (o.runsAlike w (s.withRefusals refusals)).ends with
      ⟨answer, answer', h', k', ran, ran', ⟨replies, a⟩⟩ | ⟨e, h', k', ran, ran', a⟩ |
      ⟨h', k', ran, ran'⟩
    · rw [Step.run, Step.run, ran, ran']
      apply Outcomes.left (.answer replies) a.toAlike
      intro saved' saves
      refine s.of_saves o (.granted _ ran) (.granted _ ran') ?_ saves
      exact a
    · rw [Step.run, Step.run, ran, ran']
      apply Outcomes.left (.same _) a.toAlike
      intro saved' saves
      refine s.of_saves o (.refused _ ran) (.refused _ ran') ?_ saves
      exact a
    · rw [Step.run, Step.run, ran, ran']
      exact .ended (.same _)
  | attach refusals =>
    obtain ⟨h₀, rfl⟩ := Option.ne_none_iff_exists'.1 (hattach refusals rfl)
    have a := s.withRefusals refusals
    have kept := (s.kept h₀ rfl).withRefusals refusals
    rcases load_twin kept.wellFormed kept.max_lt kept.image kept.image' a.twin
      (fun i hi => a.agrees i ⟨h₀, rfl, hi⟩) with
      ⟨h', k', hl, hl', restorable, kept, a⟩ | ⟨r, r', hl, hl', hsame⟩
    · rw [Step.run, Step.run, hl, hl']
      exact .left (.same _) a.toAlike fun saved' saves => .of_attached restorable kept a saves
    · rw [Step.run, Step.run, hl, hl']
      simp only [hsame]
      exact .ended (.same _)

/-! ## Any number of steps -/

/-- Heaps that are saved after what was put into them last are attached as they were saved. -/
theorem attachesSaved_of_savesFirst {saved : Option Heap} {steps : List Step}
    (hs : Step.savesFirst saved.isSome steps = true) : AttachesSaved saved h steps := by
  induction steps generalizing h saved with
  | nil => trivial
  | cons step steps ih =>
    cases step with
    | attach refusals =>
      obtain ⟨hsome, hrest⟩ := Bool.and_eq_true_iff.1 hs
      obtain ⟨h₀, rfl⟩ := Option.isSome_iff_exists.1 hsome
      refine ⟨fun _ _ => Option.some_ne_none h₀, fun reply h' _ => ⟨some h₀, ?_, ih hrest⟩⟩
      exact .kept (fun _ he => nomatch he) fun _ _ _ _ _ puts => puts
    | ask refusals op =>
      refine ⟨fun _ he => (nomatch he), fun reply h' _ => ?_⟩
      rw [Step.savesFirst] at hs
      by_cases hop : op = .sync
      · subst hop
        exact ⟨some h', .sync, ih hs⟩
      rw [Operation.saves_of_ne hop, Bool.false_or] at hs
      cases hkept : saved.isSome && !op.puts with
      | false =>
        rw [hkept] at hs
        exact ⟨none, .lost, ih hs⟩
      | true =>
        rw [hkept] at hs
        obtain ⟨hsome, hputs⟩ := Bool.and_eq_true_iff.1 hkept
        obtain ⟨h₀, rfl⟩ := Option.isSome_iff_exists.1 hsome
        refine ⟨some h₀, .kept (fun _ he => hop (Step.ask.inj he).2) fun x log2 _ i _ puts => ?_, ih hs⟩
        rw [puts.puts_eq] at hputs
        cases hputs

theorem Together.replay {saved : Option Heap} {steps steps' : List Step} (s : Together saved h k)
    (same : List.Forall₂ Step.Alike steps steps') (attaches : AttachesSaved saved h steps) :
    List.Forall₂ TurnsAlike (h.replay steps) (k.replay steps') := by
  induction same generalizing h k saved with
  | nil => exact .nil
  | @cons step step' steps steps' o same ih =>
    obtain ⟨hattach, hrest⟩ := attaches
    have out := s.step o hattach
    rw [Heap.replay, Heap.replay]
    generalize hturn : step.run h = turn at out hrest
    generalize step'.run k = turn' at out
    cases out with
    | ended replies => exact .cons ⟨replies, .none⟩ .nil
    | left replies heaps together =>
      obtain ⟨saved', saves, attaches'⟩ := hrest _ _ rfl
      exact .cons ⟨replies, .some heaps⟩ (ih (together saved' saves) attaches')

/-- The contents of objects make no difference to any reply. Two heaps that agree on everything but
bytes of their regions, and on the links of each free fragment, are told apart by no run, whatever
bytes it writes into each of them, and stay as much alike with every step. To be attached alike, they
have to agree on the links that were free when they were saved, too; this is so if they are saved in
the run, and nothing is put on those links before they are attached. -/
theorem contents_unobserved {saved : Option Heap} {steps steps' : List Step}
    (reached : Reachable host g region h) (alike : AlikeOn (LinkedIn saved) h k)
    (kept : ∀ h₀, saved = some h₀ → Kept h₀ h k) (same : List.Forall₂ Step.Alike steps steps')
    (attaches : AttachesSaved saved h steps) :
    List.Forall₂ TurnsAlike (h.replay steps) (k.replay steps') :=
  Together.replay ⟨alike, reached.restorable, kept⟩ same attaches

theorem AlikeOn.refl (common : Nat → Prop) (h : Heap) : AlikeOn common h h where
  eq := rfl
  twin := ⟨rfl, rfl, rfl⟩
  links := fun _ _ _ _ _ => rfl
  agrees := fun _ _ => rfl

/-- Fills an object, saves the heap and attaches it again. -/
def fillAndAttach (byte : UInt8) : List Step :=
  [.attach none, .ask none (.allocate 100), .ask none (.fill 0 100 byte), .ask none .sync,
    .ask none .defects, .attach none, .ask none (.free 0)]

/-- A new heap can be attached at once, and again after it was used and saved. -/
theorem contents_unobserved_small : ∃ h, create .ample smallGeometry smallRegion = .ok h ∧
    List.Forall₂ TurnsAlike (h.replay (fillAndAttach 0)) (h.replay (fillAndAttach 255)) := by
  obtain ⟨h, -, hc, -⟩ := created_of_smallAfter? [] (by decide +kernel)
  have c := create_eq_ok hc
  have same : List.Forall₂ Step.Alike (fillAndAttach 0) (fillAndAttach 255) :=
    .cons (.attach _) (.cons (.ask _ (.same _)) (.cons (.ask _ (.fill 0 100 0 255))
      (.cons (.ask _ (.same _)) (.cons (.ask _ (.same _)) (.cons (.attach _)
        (.cons (.ask _ (.same _)) .nil))))))
  have saves : Step.savesFirst true (fillAndAttach 0) = true := by decide
  refine ⟨h, hc, contents_unobserved (.created hc) (.refl (LinkedIn (some h)) h) ?_ same
    (attachesSaved_of_savesFirst saves)⟩
  rintro _ hs
  cases hs
  exact ⟨c.wellFormed, c.restorable.max_lt, rfl, c.image, c.image⟩

/-! ## Links that are overwritten -/

/-- A request for a size of which there are free fragments is given the first one. -/
theorem allocate_listed (w : h.WellFormed) {size log2 offset : Nat}
    (hclass : h.sizeClass size = .fragment log2) (hfirst : h.freeLists[log2]? = some (some offset)) :
    ∃ h', allocate size h = .ok offset h' ∧
      Turns h h' (replaced h.objectAt offset (some (fragmentSize log2))) := by
  have hx : h.freeFragment offset = some log2 := by
    refine w.lists.threads.home_of_head ?_
    rw [listHead, hfirst]
    rfl
  have ends : Ends True (allocate size) h (fun handle h' => handle = offset ∧
      Turns h h' (replaced h.objectAt offset (some (fragmentSize log2)))) fun _ _ => False := by
    refine Ends.bind' (Ends.get' ?_)
    simp only [hclass]
    refine Ends.bind' (Ends.bind' (Ends.get' (Ends.orTrap' hfirst ?_)))
    exact (reuseFragment_ends w hx).mono (fun _ _ reused => ⟨reused.1, reused.2.2⟩) fun _ _ hE => hE
  obtain ⟨_, h', ran, rfl, t⟩ := ends.exists_ok fun _ _ hE => hE
  exact ⟨h', ran, t⟩

/-- Bytes are written wherever they fit in an object. -/
theorem write_object (w : h.WellFormed) {start length : Nat} {data : ByteArray}
    (hobj : h.objectAt start = some length) (hpos : 0 < data.size) (hfit : data.size ≤ length) :
    ∃ h', write start data h = .ok () h' ∧ Writes h h' start ∧ ∀ i, h'.arenaByte i =
      if start ≤ i ∧ i < start + data.size then Bytes.byte data (i - start) else h.arenaByte i := by
  have hextent : h.extentOf start = .ok (start, length) := w.extentOf_eq_ok_iff.2 ⟨hobj, by omega⟩
  have hregion := w.object_in_region hobj
  have hsmall := w.small
  have ends : Ends True (write start data) h (fun _ h' => Writes h h' start ∧ ∀ i, h'.arenaByte i =
      if start ≤ i ∧ i < start + data.size then Bytes.byte data (i - start) else h.arenaByte i)
      fun _ _ => False := by
    refine Ends.bind' (Ends.bind' (Ends.bind' (Ends.get' (Ends.bind' ?_))))
    rw [hextent]
    refine Ends.pure' (Ends.bind' (Ends.orTrap' (Size.add?_eq_some_iff.2 ⟨by omega, rfl⟩) ?_))
    refine Ends.orTrap' (Size.sub?_eq_some_iff.2 ⟨Nat.le_add_right _ _, rfl⟩) ?_
    refine Ends.ite' (fun hshort => absurd hshort (by omega)) fun _ => Ends.pure' ?_
    exact writeObject_ends w hobj (Nat.le_refl _) (by omega)
  obtain ⟨_, h', ran, wr, hb⟩ := ends.exists_ok fun _ _ hE => hE
  exact ⟨h', ran, wr, hb⟩

theorem left_of_ok {α : Type} {refusals : Option Refusals} {op : Operation} {x : HeapM α} {b : α}
    (ran : x (h.withRefusals refusals) = .ok b h') (f : α → Answer) (hop : op.run = f <$> x) :
    ((Step.ask refusals op).run h).2 = some h' := by
  have hrun : op.run (h.withRefusals refusals) = .ok (f b) h' := by
    rw [hop, map_eq_pure_bind, bind_of_ok ran]
    rfl
  rw [Step.run, hrun]

theorem leaves_of_run {refusals : Option Refusals} {op : Operation}
    (left : ((Step.ask refusals op).run h).2 = some h') : op.Leaves (h.withRefusals refusals) h' := by
  rw [Step.run] at left
  split at left
  · cases left
    exact .granted _ ‹_›
  · cases left
    exact .refused _ ‹_›
  · cases left

theorem replay_rest {step step' : Step} {steps steps' : List Step}
    (alike : List.Forall₂ TurnsAlike (h.replay (step :: steps)) (k.replay (step' :: steps')))
    (left : (step.run h).2 = some h') (left' : (step'.run k).2 = some k') :
    List.Forall₂ TurnsAlike (h'.replay steps) (k'.replay steps') := by
  rw [replay, replay] at alike
  simp only [left, left'] at alike
  cases alike
  assumption

/-- The heap that is left when the object at an offset is new and has been written to. -/
structure Overwritten (h k : Heap) (offset length : Nat) (data : ByteArray) : Prop where
  wellFormed : k.WellFormed
  frame_eq : k.frame = (h.withRefusals none).frame
  metadata : KeepsMetadata h k
  object : k.objectAt offset = some length
  bytes : ∀ i, i < data.size → k.arenaByte (offset + i) = Bytes.byte data i

theorem Overwritten.start_eq {offset length : Nat} {data : ByteArray}
    (o : Overwritten h k offset length data) : k.arenaStart = h.arenaStart :=
  congrArg Frame.arenaStart o.frame_eq

/-- The first free fragment of a size is handed out and written to. -/
theorem write_listed (w : h.WellFormed) {size log2 offset : Nat} (data : ByteArray)
    (hclass : h.sizeClass size = .fragment log2) (hfirst : h.freeLists[log2]? = some (some offset))
    (hpos : 0 < data.size) (hfit : data.size ≤ fragmentSize log2) :
    ∃ h' k, ((Step.ask none (.allocate size)).run h).2 = some h' ∧
      ((Step.ask none (.write offset data)).run h').2 = some k ∧
      Overwritten h k offset (fragmentSize log2) data := by
  obtain ⟨h₁, ran₁, t⟩ := allocate_listed (w.withRefusals none) hclass hfirst
  have hobj : h₁.objectAt offset = some (fragmentSize log2) := by rw [t.objects_eq, replaced_self]
  obtain ⟨h₂, ran₂, wr, hb⟩ := write_object (t.wellFormed.withRefusals none) hobj hpos hfit
  have hframe : (h₁.withRefusals none).frame = (h.withRefusals none).frame := by
    show { h₁.frame with refusals := none } = _
    rw [t.frame_eq]
    rfl
  have hstart : h₁.arenaStart = h.arenaStart := congrArg Frame.arenaStart t.frame_eq
  refine ⟨h₁, h₂, left_of_ok ran₁ _ rfl, left_of_ok ran₂ _ rfl, wr.wellFormed,
    wr.frame_eq.trans hframe, fun i hi => ?_, (wr.objects_eq offset).trans hobj, fun i hi => ?_⟩
  · exact (wr.metadata i (by rw [← hstart] at hi; exact hi)).trans (t.metadata i hi)
  · rw [hb, if_pos (by omega), Nat.add_sub_cancel_left]

/-- A heap of one block, of which the second half is the only free fragment. It has just been saved. -/
structure HalfFree (h : Heap) : Prop where
  wellFormed : h.WellFormed
  image : h.SavedIn h.region
  class_eq : h.sizeClass 128 = .fragment 7
  first_eq : h.freeLists[7]? = some (some 128)
  only : ∀ x log2, h.freeFragment x = some log2 → x = 128
  max_eq : h.maxBlocks = 1
  log_eq : h.blockLog2 = 8
  size_eq : h.region.size = h.arenaStart + 256

namespace HalfFree

variable {data : ByteArray} (free : HalfFree h) (o : Overwritten h k 128 (fragmentSize 7) data)
include free

theorem max_lt : h.maxBlocks < Geometry.blockLimit := by
  rw [free.max_eq]
  decide

include o

/-- The block is all that there is room for, so the region keeps its size. -/
theorem region_size : k.region.size = h.region.size := by
  have hfit : k.arenaStart + 128 + 128 ≤ k.region.size := o.wellFormed.object_in_region o.object
  have hcount := o.wellFormed.count_le
  have hregion := o.wellFormed.size_eq
  have hstart := o.start_eq
  have hsize := free.size_eq
  rw [show k.maxBlocks = 1 from (congrArg Frame.maxBlocks o.frame_eq).trans free.max_eq] at hcount
  rw [blockSize, show k.blockLog2 = 8 from (congrArg Frame.blockLog2 o.frame_eq).trans free.log_eq]
    at hregion
  omega

theorem image_overwritten : h.SavedIn (k.withRefusals none).region := by
  have hstart : (k.withRefusals none).arenaStart = h.arenaStart := o.start_eq
  exact free.image.of_keepsMetadata free.wellFormed (o.wellFormed.withRefusals none) rfl hstart
    o.metadata

/-- What was put on the links is what stood there, so the heap is attached as it was saved. -/
theorem attached (hdata : 16 ≤ data.size)
    (same : ∀ i, i < 16 → Bytes.byte data i = h.arenaByte (128 + i)) :
    ∃ h', load (k.withRefusals none).region = .ok h' := by
  have hsize := free.region_size o
  have hsize₀ := free.size_eq
  have hstart := o.start_eq
  have image : h.SavedIn (h.withRefusals none).region := free.image
  have region : Region.SameBytes h.region (h.withRefusals none).region := ⟨rfl, fun _ => rfl⟩
  obtain ⟨_, _, l⟩ := (Since.refl free.wellFormed).load free.wellFormed free.max_lt free.image region
    ⟨_, if_neg (Nat.lt_irrefl _)⟩
  have links (i : Nat) (hi : h.Linked i) : (k.withRefusals none).region.grownByte i =
      (h.withRefusals none).region.grownByte i := by
    obtain ⟨x, log2, hx, j, hj, rfl⟩ := hi
    obtain rfl := free.only x log2 hx
    have hbyte := (o.bytes j (by omega)).trans (same j hj)
    rw [arenaByte, arenaByte, hstart, ← Nat.add_assoc] at hbyte
    have hin : h.arenaStart + 128 + j < h.region.size := by omega
    have hin' : h.arenaStart + 128 + j < k.region.size := by omega
    exact (Region.grownByte_of_lt hin').trans (hbyte.trans (Region.grownByte_of_lt hin).symm)
  rcases load_twin free.wellFormed free.max_lt image (free.image_overwritten o)
    ⟨hsize, congrArg Frame.regionCapacity o.frame_eq, rfl⟩ links with ⟨_, h', -, hl, -⟩ | ⟨_, _, he, -⟩
  · exact ⟨h', hl⟩
  · have := l.loaded.symm.trans he
    cases this

/-- Zeros are no link of a free fragment: no fragment at the start of the arena is free. -/
theorem rejected (hdata : 8 ≤ data.size) (zero : ∀ i, i < 8 → Bytes.byte data i = 0) (h' : Heap) :
    load (k.withRefusals none).region ≠ .ok h' := by
  intro hl
  have hx : h.freeFragment 128 = some 7 := by
    refine free.wellFormed.lists.threads.home_of_head ?_
    rw [listHead, free.first_eq]
    rfl
  have hzero : ∀ i, i < 8 → Bytes.byte (Bytes.ofNumber 8 0) i = 0 := by decide
  have hnext : (k.withRefusals none).region.number? 8 (h.arenaStart + 128) = some 0 := by
    have hin : h.arenaStart + 128 + 8 ≤ k.region.size := by
      rw [free.region_size o, free.size_eq]
      omega
    refine Region.number?_of_bytes hin (by decide) fun i hi => ?_
    rw [hzero i hi, ← zero i hi, ← o.bytes i (by omega), arenaByte, o.start_eq, Nat.add_assoc]
    rfl
  have h0 := freeFragment_of_load free.wellFormed free.max_lt (free.image_overwritten o) hl hx hnext
    (by decide)
  cases free.only 0 7 h0

end HalfFree

/-- One block of 256 bytes. -/
def oneBlock : Geometry := { smallGeometry with initialBlocks := 1, maxBlocks := 1 }

/-- One half of a block is handed out, and the heap is saved. -/
theorem exists_halfFree : ∃ h₀ h₁ h₂, create .ample oneBlock smallRegion = .ok h₀ ∧
    ((Step.ask none (.allocate 128)).run h₀).2 = some h₁ ∧ ((Step.ask none .sync).run h₁).2 = some h₂ ∧
      HalfFree h₂ := by
  have run : ((create .ample oneBlock smallRegion).toOption.bind fun h₀ =>
      ((Step.ask none (.allocate 128)).run h₀).2.bind fun h₁ =>
      ((Step.ask none .sync).run h₁).2.bind fun h₂ =>
        if h₂.sizeClass 128 = .fragment 7 ∧ h₂.freeLists[7]? = some (some 128) ∧
          h₂.maxBlocks = 1 ∧ h₂.blockLog2 = 8 ∧ h₂.region.size = h₂.arenaStart + 256 ∧
          ((List.range 256).all fun x => x == 128 || (h₂.freeFragment x).isNone) = true
        then some h₂ else none).isSome = true := by
    decide +kernel
  obtain ⟨_, run⟩ := Option.isSome_iff_exists.1 run
  obtain ⟨h₀, hc, run⟩ := Option.bind_eq_some_iff.1 run
  obtain ⟨h₁, run₁, run⟩ := Option.bind_eq_some_iff.1 run
  obtain ⟨h₂, run₂, run⟩ := Option.bind_eq_some_iff.1 run
  rw [Option.ite_none_right_eq_some] at run
  obtain ⟨⟨hclass, hfirst, hone, hlog, hsize, hfree⟩, -⟩ := run
  have reached : Reachable .ample oneBlock smallRegion h₀ := .created (toOption_eq_some_iff.1 hc)
  have reached₁ := reached.used none _ (leaves_of_run run₁)
  have w₂ := (reached₁.used none _ (leaves_of_run run₂)).restorable.wellFormed
  have saved := saved_of_leaves (reached₁.restorable.wellFormed.withRefusals none) (leaves_of_run run₂)
  refine ⟨h₀, h₁, h₂, toOption_eq_some_iff.1 hc, run₁, run₂,
    ⟨w₂, saved.savedIn, hclass, hfirst, fun x log2 hx => ?_, hone, hlog, hsize⟩⟩
  have hfit := (w₂.lists.place x log2 hx).2.2
  have := List.all_eq_true.1 hfree x (List.mem_range.2 (by omega))
  rw [hx] at this
  simpa using this

/-- Allocates half of the block, saves the heap, allocates the other half and writes to it. -/
def writeListed (data : ByteArray) : List Step :=
  [.ask none (.allocate 128), .ask none .sync, .ask none (.allocate 128), .ask none (.write 128 data),
    .attach none]

/-- What is put on links that were free when the heap was saved decides whether it is attached. -/
theorem not_contents_unobserved : ¬∀ (host : Host) (g : Geometry) (region : Region) (h k : Heap)
    (steps steps' : List Step), Reachable host g region h → Reachable host g region k → Alike h k →
      List.Forall₂ Step.Alike steps steps' →
        List.Forall₂ TurnsAlike (h.replay steps) (k.replay steps') := by
  intro claim
  obtain ⟨h₀, h₁, h₂, hc, run₁, run₂, free⟩ := exists_halfFree
  have hsize := free.size_eq
  obtain ⟨data, -, hdata, hbytes⟩ :=
    Region.read?_eq (r := h₂.region) (h₂.arenaStart + 128) 16 (by omega)
  -- one run writes what was there, and the other one writes zeros
  obtain ⟨h₃, h₄, run₃, run₄, o⟩ := write_listed free.wellFormed data free.class_eq
    free.first_eq (by omega) (by rw [hdata]; decide)
  obtain ⟨k₃, k₄, run₃', run₄', o'⟩ := write_listed free.wellFormed (Bytes.zeros 16) free.class_eq
    free.first_eq (by decide) (by decide)
  have same : List.Forall₂ Step.Alike (writeListed data) (writeListed (Bytes.zeros 16)) :=
    .cons (.ask _ (.same _)) (.cons (.ask _ (.same _)) (.cons (.ask _ (.same _))
      (.cons (.ask _ (.write 128 hdata.symm)) (.cons (.attach _) .nil))))
  have alike := claim _ _ _ h₀ h₀ _ _ (.created hc) (.created hc)
    (AlikeOn.refl (fun _ => True) h₀).toAlike same
  have saved := replay_rest (replay_rest alike run₁ run₁) run₂ run₂
  have last := replay_rest (replay_rest saved run₃ run₃') run₄ run₄'
  have kept : ∀ i, i < 16 → Bytes.byte data i = h₂.arenaByte (128 + i) := by
    intro i hi
    rw [hbytes i hi, arenaByte, Nat.add_assoc]
  obtain ⟨h', hl⟩ := free.attached o (Nat.le_of_eq hdata.symm) kept
  have rejected := free.rejected o' (by decide) (by decide)
  rw [replay, replay] at last
  cases last with
  | cons turn _ =>
    obtain ⟨-, left⟩ := turn
    rw [Step.run, Step.run, hl] at left
    cases hl' : load (k₄.withRefusals none).region with
    | ok k' => exact rejected k' hl'
    | error r =>
      rw [hl'] at left
      cases left

end Heap

end RegionHeap
