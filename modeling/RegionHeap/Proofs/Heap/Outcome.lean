import RegionHeap.Heap.Basic
import RegionHeap.Proofs.Sequencing

/-!
How operations on heaps end. `Ends` says what holds after an operation that was granted and after
one that was refused, and that it is no trap on a roomy heap. One rule for each way of putting
operations together takes a statement about an operation apart into statements about its steps.
-/
namespace RegionHeap

/-- Started on `h`, the operation ends with an answer and a heap that `Q` allows, or is refused with
an error and a heap that `E` allows. It is a trap only if the heap is not roomy. -/
def Ends {α : Type} (roomy : Prop) (x : HeapM α) (h : Heap) (Q : α → Heap → Prop)
    (E : HeapError → Heap → Prop) : Prop :=
  match x h with
  | .ok a h' => Q a h'
  | .error (.refused e) h' => E e h'
  | .error .trap _ => ¬roomy

/-- Changes the heap that an operation leaves behind. -/
def onHeap {α : Type} (f : Heap → Heap) :
    EStateM.Result Failure Heap α → EStateM.Result Failure Heap α
  | .ok a h => .ok a (f h)
  | .error e h => .error e (f h)

namespace Ends

variable {α β : Type} {roomy : Prop} {h : Heap} {E : HeapError → Heap → Prop}

theorem of_ok {x : HeapM α} {Q : α → Heap → Prop} (hx : Ends roomy x h Q E) {a : α} {h' : Heap}
    (e : x h = .ok a h') : Q a h' := by
  unfold Ends at hx
  rwa [e] at hx

theorem of_refused {x : HeapM α} {Q : α → Heap → Prop} (hx : Ends roomy x h Q E) {e : HeapError}
    {h' : Heap} (he : x h = .error (.refused e) h') : E e h' := by
  unfold Ends at hx
  rwa [he] at hx

theorem no_trap {x : HeapM α} {Q : α → Heap → Prop} (hx : Ends roomy x h Q E) (hr : roomy)
    {h' : Heap} : x h ≠ .error .trap h' := by
  intro he
  unfold Ends at hx
  rw [he] at hx
  exact hx hr

theorem mono {x : HeapM α} {Q Q' : α → Heap → Prop} {E' : HeapError → Heap → Prop}
    (hx : Ends roomy x h Q E) (hQ : ∀ a h', Q a h' → Q' a h') (hE : ∀ e h', E e h' → E' e h') :
    Ends roomy x h Q' E' := by
  unfold Ends at *
  split at hx
  · exact hQ _ _ hx
  · exact hE _ _ hx
  · exact hx

/-- Traps may be left out of a statement. -/
theorem or_trap {x : HeapM α} {Q : α → Heap → Prop} (hx : Ends roomy x h Q E) : Ends False x h Q E := by
  unfold Ends at *
  split at hx
  · exact hx
  · exact hx
  · exact not_false

/-- An operation that is never a trap and cannot be refused is granted. -/
theorem exists_ok {x : HeapM α} {Q : α → Heap → Prop} (hx : Ends True x h Q E)
    (hE : ∀ e h', ¬E e h') : ∃ a h', x h = .ok a h' ∧ Q a h' := by
  cases hxh : x h with
  | ok a h' => exact ⟨a, h', rfl, hx.of_ok hxh⟩
  | error e h' =>
    cases e with
    | refused e => exact absurd (hx.of_refused hxh) (hE e h')
    | trap => exact absurd hxh (hx.no_trap trivial)

/-- An operation that is never a trap and cannot be granted is refused. -/
theorem exists_refused {x : HeapM α} {Q : α → Heap → Prop} (hx : Ends True x h Q E)
    (hQ : ∀ a h', ¬Q a h') : ∃ e h', x h = .error (.refused e) h' ∧ E e h' := by
  cases hxh : x h with
  | ok a h' => exact absurd (hx.of_ok hxh) (hQ a h')
  | error e h' =>
    cases e with
    | refused e => exact ⟨e, h', rfl, hx.of_refused hxh⟩
    | trap => exact absurd hxh (hx.no_trap trivial)

/-- What is known of the end of an operation may be put beside how it ended. -/
theorem with_run {x : HeapM α} {Q : α → Heap → Prop} (hx : Ends roomy x h Q E) :
    Ends roomy x h (fun a h' => Q a h' ∧ x h = .ok a h')
      fun e h' => E e h' ∧ x h = .error (.refused e) h' := by
  unfold Ends at *
  cases hxh : x h with
  | ok a h' =>
    rw [hxh] at hx
    exact ⟨hx, rfl⟩
  | error e h' =>
    rw [hxh] at hx
    cases e with
    | refused e => exact ⟨hx, rfl⟩
    | trap => exact hx

/-- Two statements about the end of one operation are one statement. -/
theorem both {roomy' : Prop} {x : HeapM α} {Q Q' : α → Heap → Prop} {E' : HeapError → Heap → Prop}
    (hx : Ends roomy x h Q E) (hx' : Ends roomy' x h Q' E') :
    Ends roomy x h (fun a h' => Q a h' ∧ Q' a h') fun e h' => E e h' ∧ E' e h' := by
  unfold Ends at *
  cases hxh : x h with
  | ok a h' =>
    rw [hxh] at hx hx'
    exact ⟨hx, hx'⟩
  | error e h' =>
    rw [hxh] at hx hx'
    cases e with
    | refused e => exact ⟨hx, hx'⟩
    | trap => exact hx

/-- An operation that runs alike on a changed heap ends like it there. -/
theorem of_alike {x : HeapM α} {Q : α → Heap → Prop} (f : Heap → Heap) (hx : Ends roomy x h Q E)
    (he : x (f h) = onHeap f (x h)) :
    Ends roomy x (f h) (fun a h' => ∃ h₁, h' = f h₁ ∧ Q a h₁)
      (fun e h' => ∃ h₁, h' = f h₁ ∧ E e h₁) := by
  unfold Ends at *
  rw [he]
  cases hxh : x h with
  | ok a h' => rw [hxh] at hx; exact ⟨h', rfl, hx⟩
  | error e h' =>
    rw [hxh] at hx
    cases e with
    | trap => exact hx
    | refused e => exact ⟨h', rfl, hx⟩

theorem pure' {a : α} {Q : α → Heap → Prop} (hQ : Q a h) : Ends roomy (pure a : HeapM α) h Q E := hQ

theorem bind' {x : HeapM α} {f : α → HeapM β} {Q : β → Heap → Prop}
    (hx : Ends roomy x h (fun a h' => Ends roomy (f a) h' Q E) E) :
    Ends roomy (x >>= f) h Q E := by
  unfold Ends at *
  show match (EStateM.bind x f) h with | .ok a h' => _ | .error (.refused e) h' => _ | .error .trap _ => _
  unfold EStateM.bind
  cases hxh : x h with
  | ok a h' => rw [hxh] at hx; exact hx
  | error e h' =>
    rw [hxh] at hx
    cases e <;> exact hx

theorem map' {x : HeapM α} {f : α → β} {Q : β → Heap → Prop}
    (hx : Ends roomy x h (fun a h' => Q (f a) h') E) : Ends roomy (f <$> x) h Q E := by
  unfold Ends at *
  show match (EStateM.map f x) h with | .ok a h' => _ | .error (.refused e) h' => _ | .error .trap _ => _
  unfold EStateM.map
  cases hxh : x h with
  | ok a h' => rw [hxh] at hx; exact hx
  | error e h' =>
    rw [hxh] at hx
    cases e <;> exact hx

theorem discard' {x : HeapM α} {Q : Unit → Heap → Prop} (hx : Ends roomy x h (fun _ h' => Q () h') E) :
    Ends roomy (discard x) h Q E :=
  map' (f := fun _ => ()) hx

theorem get' {Q : Heap → Heap → Prop} (hQ : Q h h) : Ends roomy (get : HeapM Heap) h Q E := hQ

theorem set' {h' : Heap} {Q : PUnit → Heap → Prop} (hQ : Q ⟨⟩ h') :
    Ends roomy (set h' : HeapM PUnit) h Q E := hQ

theorem modify' {f : Heap → Heap} {Q : PUnit → Heap → Prop} (hQ : Q ⟨⟩ (f h)) :
    Ends roomy (modify f : HeapM PUnit) h Q E := hQ

theorem refuse' {e : HeapError} {Q : α → Heap → Prop} (hE : E e h) :
    Ends roomy (HeapM.refuse e : HeapM α) h Q E := hE

theorem trap' {Q : α → Heap → Prop} : Ends False (throw .trap : HeapM α) h Q E := by
  unfold Ends
  exact not_false

theorem orTrap' {o : Option α} {a : α} {Q : α → Heap → Prop} (ho : o = some a) (hQ : Q a h) :
    Ends roomy (HeapM.orTrap o) h Q E := by
  subst ho
  exact hQ

/-- A step that is a trap only where the heap is not roomy. -/
theorem orTrap_of {o : Option α} {Q : α → Heap → Prop} (ho : ∀ a, o = some a → Q a h)
    (hr : o = none → ¬roomy) : Ends roomy (HeapM.orTrap o) h Q E := by
  cases o with
  | none => exact hr rfl
  | some a => exact ho a rfl

theorem orRefuse' {e : HeapError} {o : Option α} {Q : α → Heap → Prop}
    (ho : ∀ a, o = some a → Q a h) (hE : o = none → E e h) :
    Ends roomy (HeapM.orRefuse e o) h Q E := by
  cases o with
  | none => exact hE rfl
  | some a => exact ho a rfl

theorem ofExcept' {x : Except HeapError α} {Q : α → Heap → Prop}
    (ho : ∀ a, x = .ok a → Q a h) (hE : ∀ e, x = .error e → E e h) :
    Ends roomy (HeapM.ofExcept x) h Q E := by
  cases x with
  | error e => exact hE e rfl
  | ok a => exact ho a rfl

theorem orFail' {x : Except Failure α} {Q : α → Heap → Prop} (ho : ∀ a, x = .ok a → Q a h)
    (hE : ∀ e, x = .error (.refused e) → E e h) (hr : x = .error .trap → ¬roomy) :
    Ends roomy (HeapM.orFail x) h Q E := by
  match x, ho, hE, hr with
  | .error (.refused e), _, hE, _ => exact hE e rfl
  | .error .trap, _, _, hr => exact hr rfl
  | .ok a, ho, _, _ => exact ho a rfl

theorem ite' {c : Prop} [Decidable c] {x y : HeapM α} {Q : α → Heap → Prop}
    (hx : c → Ends roomy x h Q E) (hy : ¬c → Ends roomy y h Q E) :
    Ends roomy (if c then x else y) h Q E := by
  by_cases hc : c
  · rw [if_pos hc]; exact hx hc
  · rw [if_neg hc]; exact hy hc

theorem onTable' {f : BlockTable → Option (α × BlockTable)} {a : α} {table : BlockTable}
    {Q : α → Heap → Prop} (hf : f h.table = some (a, table)) (hQ : Q a { h with table }) :
    Ends roomy (HeapM.onTable f) h Q E := by
  unfold Ends HeapM.onTable
  rw [hf]
  exact hQ

/-- A change of the block table that is a trap only where the heap is not roomy. -/
theorem onTable_of {f : BlockTable → Option (α × BlockTable)} {Q : α → Heap → Prop}
    (hf : ∀ a table, f h.table = some (a, table) → Q a { h with table })
    (hr : f h.table = none → ¬roomy) : Ends roomy (HeapM.onTable f) h Q E := by
  unfold Ends HeapM.onTable
  cases ht : f h.table with
  | none => exact hr ht
  | some p => exact hf p.1 p.2 ht

/-- An operation on the names that is a trap only where the heap is not roomy. -/
theorem onNames_of {x : NamesM α} {Q : α → Heap → Prop}
    (ho : ∀ a names, x h.names = .ok a names → Q a { h with names })
    (hE : ∀ e names, x h.names = .error (.refused e) names → E e { h with names })
    (hr : ∀ names, x h.names = .error .trap names → ¬roomy) :
    Ends roomy (HeapM.onNames x) h Q E := by
  unfold Ends HeapM.onNames
  match hx : x h.names with
  | .ok a names => exact ho a names hx
  | .error (.refused e) names => exact hE e names hx
  | .error .trap names => exact hr names hx

/-- A change of the region that is a trap only where the heap is not roomy. -/
theorem modifyRegion_of {f : Region → Option Region} {Q : Unit → Heap → Prop}
    (hf : ∀ region, f h.region = some region → Q () { h with region })
    (hr : f h.region = none → ¬roomy) : Ends roomy (HeapM.modifyRegion f) h Q E := by
  unfold Ends HeapM.modifyRegion
  cases ht : f h.region with
  | none =>
    simp only [ht]
    exact hr ht
  | some region =>
    simp only [ht]
    exact hf region ht

theorem modifyRegion' {f : Region → Option Region} {region : Region} {Q : Unit → Heap → Prop}
    (hf : f h.region = some region) (hQ : Q () { h with region }) :
    Ends roomy (HeapM.modifyRegion f) h Q E := by
  unfold Ends HeapM.modifyRegion
  simp only [hf]
  exact hQ

theorem granted' {x : HeapM α} {Q : Bool → Heap → Prop} {E' : HeapError → Heap → Prop}
    (hx : Ends roomy x h (fun _ h' => Q true h') fun _ h' => Q false h') :
    Ends roomy (HeapM.granted x) h Q E' := by
  unfold Ends HeapM.granted at *
  cases hxh : x h with
  | ok a h' =>
    rw [hxh] at hx
    exact hx
  | error e h' =>
    rw [hxh] at hx
    cases e with
    | refused e => exact hx
    | trap => exact hx

end Ends

-- operations are taken apart by the rules alone, never by running them
attribute [irreducible] Ends

end RegionHeap
