import RegionHeap.Proofs.Heap.Replaying

/-!
Heaps that differ in their metadata only. No operation reads the bytes in front of the arena, so two
heaps with the same arena answer every operation in the same way, bytes of objects included, and go on
with the same arena (`Operation.sameArena`). Saving writes nowhere else, so a run of operations has the
same replies and the same arenas whether the heap is saved on the way or not
(`SameArena.exchanges_filter`).
-/
namespace RegionHeap

/-! ## Bytes that are read from two regions -/

theorem Region.read?_congr {r r' : Region} {start count : Nat} (hs : r'.size = r.size)
    (hb : ∀ i, start ≤ i → i < start + count → r'.byte i = r.byte i) :
    r'.read? start count = r.read? start count := by
  by_cases hfit : start + count ≤ r.size
  · obtain ⟨data, hd, hsize, hbytes⟩ := r.read?_eq start count hfit
    obtain ⟨data', hd', hsize', hbytes'⟩ := r'.read?_eq start count (by omega)
    rw [hd, hd', Option.some.injEq]
    refine Bytes.ext_byte (by omega) fun i => ?_
    by_cases hi : i < count
    · rw [hbytes i hi, hbytes' i hi, hb _ (by omega) (by omega)]
    · rw [Bytes.byte_of_size_le (by omega), Bytes.byte_of_size_le (by omega)]
  · rw [Region.read?, Region.read?, if_neg hfit, if_neg (by omega)]

namespace Heap

open HeapM

variable {h k h' k' : Heap} {common : Nat → Prop}

theorem Beside.readArena?_eq (b : Beside h k) {offset count : Nat}
    (agrees : ∀ i, h.arenaStart ≤ i → Agrees h k i) :
    k.readArena? offset count = h.readArena? offset count := by
  rw [readArena?, readArena?, b.arenaStart_eq]
  exact Region.read?_congr b.twin.size_eq fun i hlo _ => (agrees i (by omega)).byte_eq b

/-! ## Operations on bytes that both heaps have -/

section

variable (w : h.WellFormed) (a : AlikeOn common h k) (arena : ∀ i, h.arenaStart ≤ i → common i)
include w a arena

theorem read_preserves (offset count : Nat) :
    Preserves (AlikeOn common) (read offset count) h k := by
  apply Preserves.bind_ends (checkExtent_preserves a offset count) (checkExtent_ends w offset count)
  rintro - h₁ k₁ ⟨rfl, -⟩ a₁
  apply Lockstep.get_bind
  rw [a₁.toBeside.readArena?_eq fun i hi => a₁.agrees i (arena i hi)]
  exact Lockstep.orTrap' fun _ _ => ⟨rfl, a₁⟩

omit arena in
theorem write_preserves (offset : Nat) (data : ByteArray) :
    Preserves (AlikeOn common) (write offset data) h k := by
  apply Preserves.bind_ends (checkExtent_preserves a offset data.size)
    (checkExtent_ends w offset data.size)
  rintro - h₁ k₁ ⟨rfl, start, usable, hin, hle⟩ a₁
  have hlo := hin.start_le
  exact writeObject_preserves w a₁ hin.object hlo (by omega)

/-- The bytes of an object are copied, and they are the same in both heaps. -/
theorem moveObject_preserves (handle size : Nat) :
    Preserves (AlikeOn common) (moveObject handle size) h k := by
  apply Preserves.bind_ends (usableFrom_preserves a handle) (usableFrom_ends w handle)
  rintro available h₁ k₁ ⟨rfl, -⟩ a₁
  apply Preserves.bind_ends (allocate_preserves w a₁ size) (allocate_ends w size)
  intro moved h₂ k₂ ⟨_, length, hle, t⟩ a₂
  have w₂ := t.wellFormed
  have hnew : h₂.objectAt moved = some length := by rw [t.objects_eq, replaced_self]
  have hstart : h₂.arenaStart = h₁.arenaStart := arenaStart_of_frame t.frame_eq
  apply Lockstep.get_bind
  rw [a₂.toBeside.readArena?_eq fun i hi => a₂.agrees i (arena i (by omega))]
  apply Preserves.orTrap_bind
  intro data hd
  have hsize := Region.size_of_read? hd
  have hfit : moved + data.size ≤ moved + length := Nat.add_le_add_left (by omega) _
  apply Preserves.bind_ends (writeObject_preserves w₂ a₂ hnew (Nat.le_refl _) hfit)
    (writeObject_ends w₂ hnew (Nat.le_refl _) hfit (E := fun _ _ => False))
  intro _ h₃ k₃ ⟨wr, _⟩ a₃
  apply Preserves.bind (free_preserves wr.wellFormed a₃ handle)
  intro _ h₄ k₄ a₄
  exact Preserves.pure a₄ moved

theorem reallocate_alikeOn (handle size : Nat) :
    Preserves (AlikeOn common) (reallocate handle size) h k := by
  apply reallocate_lockstep w a handle size
  · exact fun _ _ a' => ⟨rfl, a'⟩
  · exact fun _ _ _ a' => a'
  · exact fun _ a' => moveObject_preserves w a' arena handle size

end

/-! ## Any operation -/

/-- The heaps differ in the bytes in front of their arenas only. -/
def SameArena (h k : Heap) : Prop := AlikeOn (fun i => h.arenaStart ≤ i) h k

theorem SameArena.refl (h : Heap) : SameArena h h := AlikeOn.refl _ h

/-- All links lie in the arena. -/
theorem Beside.sameArena (b : Beside h k) (agrees : ∀ i, h.arenaStart ≤ i → Agrees h k i) :
    SameArena h k :=
  ⟨b.alike fun _ _ _ _ _ => agrees _ (by omega), agrees⟩

end Heap

open Heap

variable {h k h' k' : Heap}

/-- Heaps with the same arena answer an operation in the same way, and go on with the same arena. -/
theorem Operation.sameArena (op : Operation) (w : h.WellFormed) (s : SameArena h k) :
    Preserves SameArena op.run h k := by
  have arena (i : Nat) (hi : h.arenaStart ≤ i) : h.arenaStart ≤ i := hi
  have run : Preserves (AlikeOn fun i => h.arenaStart ≤ i) op.run h k := by
    cases hop : op.handlesBytes with
    | false => exact Operation.preserves hop w s
    | true =>
      cases op with
      | reallocate handle size => exact (reallocate_alikeOn w s arena handle size).map _
      | read offset count => exact (read_preserves w s arena offset count).map _
      | write offset data => exact (write_preserves w s offset data).map _
      | fill offset count byte =>
        rw [Operation.run, fill_eq]
        exact (write_preserves w s offset _).map _
      | _ => cases hop
  refine (run.with_ends (op.run_ends w)).mono ?_ ?_
  · intro answer answer' h' k' ⟨⟨he, a⟩, c⟩
    rw [SameArena, arenaStart_of_frame c.frame_eq]
    exact ⟨he, a⟩
  · intro e h' k' ⟨a, c⟩
    rw [SameArena, arenaStart_of_frame c.frame_eq]
    exact a

/-! ## Saving on the way -/

/-- What is asked of a heap, and what its region refuses at that time. -/
structure Request where
  refusals : Option Refusals
  op : Operation

/-- A request, the reply to it and the heap that is left, if there is one. -/
structure Exchange where
  request : Request
  reply : Reply
  left : Option Heap

namespace Exchange

def saves (x : Exchange) : Bool :=
  x.request.op.saves

/-- The same reply to the same request, and heaps with the same arena. -/
structure Alike (x x' : Exchange) : Prop where
  request_eq : x'.request = x.request
  reply_eq : x'.reply = x.reply
  left : Option.Rel SameArena x.left x'.left

end Exchange

namespace Heap

/-- One request after another. A trap ends the run. -/
def exchanges (h : Heap) : List Request → List Exchange
  | [] => []
  | q :: rest =>
    match (Step.ask q.refusals q.op).run h with
    | (reply, some h') => ⟨q, reply, some h'⟩ :: h'.exchanges rest
    | (reply, none) => [⟨q, reply, none⟩]

/-- Saving is granted, or refused after everything was written. -/
theorem WellFormed.sync_leaves (w : h.WellFormed) : ∃ h', Operation.sync.Leaves h h' := by
  have ends : Ends True Operation.sync.run h (fun _ h' => Saved h h') fun _ h' => Saved h h' :=
    Ends.map' ((sync_ends w).mono (fun _ _ s => s) fun _ _ s => s.1)
  cases hrun : Operation.sync.run h with
  | ok answer h' => exact ⟨h', .granted answer hrun⟩
  | error failure h' =>
    cases failure with
    | refused e => exact ⟨h', .refused e hrun⟩
    | trap => exact absurd hrun (ends.no_trap trivial)

theorem run_ask_of_leaves {refusals : Option Refusals} {op : Operation}
    (leaves : op.Leaves (h.withRefusals refusals) h') :
    ∃ reply, (Step.ask refusals op).run h = (reply, some h') := by
  cases leaves with
  | granted answer ran => exact ⟨.answer answer, by rw [Step.run, ran]⟩
  | refused e ran => exact ⟨.refused e, by rw [Step.run, ran]⟩

/-- A heap that was saved still has the arena that it had. -/
theorem SameArena.of_saved (s : SameArena h k) (saved : Saved h h') : SameArena h' k := by
  have hstart : h'.arenaStart = h.arenaStart := arenaStart_of_frame saved.frame_eq
  have region := saved.region
  have b : Beside h' k := by
    refine ⟨?_, ?_, ?_, ?_⟩
    · rw [s.eq, saved.eq]
      rfl
    · exact s.twin.size_eq.trans region.size_eq.symm
    · exact s.twin.capacity_eq.trans region.capacity_eq.symm
    · exact s.twin.refusals_eq.trans region.refusals_eq.symm
  refine b.sameArena fun i hi => ?_
  rw [hstart] at hi
  rw [Agrees, region.grownByte_eq (saved.arena i hi)]
  exact s.agrees i hi

/-- Of two heaps with the same arena one is saved now and then and the other never, and the requests
are otherwise the same. So are the replies, and the arenas that are left. -/
theorem SameArena.exchanges_filter (w : h.WellFormed)
    (s : SameArena (h.withRefusals none) (k.withRefusals none)) (requests : List Request) :
    List.Forall₂ Exchange.Alike ((h.exchanges requests).filter fun x => !x.saves)
      (k.exchanges (requests.filter fun q => !q.op.saves)) := by
  induction requests generalizing h k with
  | nil => exact .nil
  | cons q rest ih =>
    obtain ⟨refusals, op⟩ := q
    have w' := w.withRefusals refusals
    have s' : SameArena (h.withRefusals refusals) (k.withRefusals refusals) :=
      AlikeOn.withRefusals s refusals
    by_cases hop : op = .sync
    · subst hop
      obtain ⟨h', leaves⟩ := w'.sync_leaves
      obtain ⟨reply, hrun⟩ := run_ask_of_leaves leaves
      have saved := saved_of_leaves w' leaves
      have s₁ : SameArena (h'.withRefusals none) (k.withRefusals none) :=
        AlikeOn.withRefusals (s'.of_saved saved) none
      have hrest := ih (saved.wellFormed w') s₁
      rw [exchanges, hrun]
      simpa [Exchange.saves, Operation.saves] using hrest
    · have hsaves := Operation.saves_of_ne hop
      rcases (op.sameArena w' s').ends with ⟨answer, _, h', k', ran, ran', rfl, s₁⟩ |
        ⟨e, h', k', ran, ran', s₁⟩ | ⟨h', k', ran, ran'⟩
      · have w₁ := (Continues.of_leaves w' (.granted answer ran)).wellFormed
        have hrest := ih w₁ (AlikeOn.withRefusals s₁ none)
        simpa [exchanges, Step.run, Exchange.saves, ran, ran', hsaves] using
          ⟨⟨rfl, rfl, .some s₁⟩, hrest⟩
      · have w₁ := (Continues.of_leaves w' (.refused e ran)).wellFormed
        have hrest := ih w₁ (AlikeOn.withRefusals s₁ none)
        simpa [exchanges, Step.run, Exchange.saves, ran, ran', hsaves] using
          ⟨⟨rfl, rfl, .some s₁⟩, hrest⟩
      · simpa [exchanges, Step.run, Exchange.saves, ran, ran', hsaves] using
          ⟨rfl, rfl, .none⟩

end Heap

end RegionHeap
