import RegionHeap.Proofs.Heap.BlockSteps

/-!
Running one operation on two heaps that differ in the bytes of their regions only. `Lockstep` says
what holds of both after they were granted with answers of their own, or refused for the same reason,
and that one run is a trap exactly if the other is. A step that writes the same bytes into both, or
none, carries over every byte that they have in common (`Carries`).
-/
namespace RegionHeap

/-! ## Regions of the same extent -/

namespace Region

/-- Two regions with as many bytes in use, which grant the same requests. -/
structure Twin (r r' : Region) : Prop where
  size_eq : r'.size = r.size
  capacity_eq : r'.capacity = r.capacity
  refusals_eq : r'.refusals = r.refusals

variable {r r' s s' : Region} {i : Nat}

theorem Twin.symm (t : Twin r r') : Twin r' r :=
  ⟨t.size_eq.symm, t.capacity_eq.symm, t.refusals_eq.symm⟩

/-- Writing somewhere in each of two regions. -/
theorem Twin.rewritten (t : Twin r r') (h : Rewritten r s) (h' : Rewritten r' s') : Twin s s' :=
  ⟨h'.size_eq.trans (t.size_eq.trans h.size_eq.symm),
    h'.capacity_eq.trans (t.capacity_eq.trans h.capacity_eq.symm),
    h'.refusals_eq.trans (t.refusals_eq.trans h.refusals_eq.symm)⟩

/-- The byte at an offset, or the one that growing the region over the offset would uncover. -/
def grownByte (r : Region) (i : Nat) : UInt8 :=
  if i < r.size then r.byte i else Bytes.byte r.beyond (i - r.size)

theorem grownByte_of_lt (hi : i < r.size) : r.grownByte i = r.byte i := if_pos hi

theorem grownByte_resize {n : Nat} (hs : r.resize n = .ok s) (i : Nat) :
    s.grownByte i = if i < n then r.grownByte i else 0 := by
  rw [grownByte, size_resize hs, beyond_resize hs, byte_resize hs]
  by_cases hi : i < n
  · rw [if_pos hi, if_pos hi, if_pos hi]
    rfl
  · rw [if_neg hi, if_neg hi]
    exact Bytes.byte_of_size_le (Nat.zero_le _)

theorem Rewritten.grownByte_eq (w : Rewritten r s) (hi : s.byte i = r.byte i) :
    s.grownByte i = r.grownByte i := by
  rw [grownByte, grownByte, w.size_eq, w.beyond_eq, hi]

/-- Where nothing is in use, both regions show zeros. -/
theorem Twin.byte_eq (t : Twin r r') (hi : r'.grownByte i = r.grownByte i) : r'.byte i = r.byte i := by
  by_cases hlt : i < r.size
  · rw [← grownByte_of_lt hlt, ← grownByte_of_lt (by rw [t.size_eq]; exact hlt), hi]
  · have hlt' : ¬i < r'.size := by rw [t.size_eq]; exact hlt
    exact (if_neg hlt').trans (if_neg hlt).symm

/-- Both regions refuse another size, or both take it on and keep what they had in common. -/
theorem Twin.resize (t : Twin r r') (n : Nat) :
    (∃ e, r.resize n = .error e ∧ r'.resize n = .error e) ∨
    ∃ s s', r.resize n = .ok s ∧ r'.resize n = .ok s' ∧ Twin s s' ∧
      ∀ i, r'.grownByte i = r.grownByte i → s'.grownByte i = s.grownByte i := by
  by_cases hrefused : r.refusals.any (·.resize r.size n) = true
  · left
    refine ⟨.exhausted n r.capacity, ?_, ?_⟩
    · rw [Region.resize, if_pos hrefused]
    · rw [Region.resize, t.refusals_eq, t.size_eq, t.capacity_eq, if_pos hrefused]
  cases hb : r.backing.resize n with
  | error e =>
    obtain ⟨hlt, rfl⟩ := Backing.resize_eq_error_iff.1 hb
    have hcap : r'.backing.capacity = r.backing.capacity := t.capacity_eq
    have hb' : r'.backing.resize n = .error (.exhausted n r.backing.capacity) :=
      Backing.resize_eq_error_iff.2 ⟨by omega, by rw [hcap]⟩
    left
    refine ⟨.exhausted n r.backing.capacity, ?_, ?_⟩
    · rw [Region.resize, if_neg hrefused, hb]
      rfl
    · rw [Region.resize, t.refusals_eq, t.size_eq, if_neg hrefused, hb']
      rfl
  | ok b =>
    have hcap : r'.backing.capacity = r.backing.capacity := t.capacity_eq
    have hle : ¬r.backing.capacity < n := by
      intro hlt
      have he := Backing.resize_eq_error_iff.2 ⟨hlt, rfl⟩
      rw [hb] at he
      cases he
    cases hb' : r'.backing.resize n with
    | error e =>
      have hlt := (Backing.resize_eq_error_iff.1 hb').1
      omega
    | ok b' =>
      right
      have hs : r.resize n = .ok { r with backing := b } := by
        rw [Region.resize, if_neg hrefused, hb]
        rfl
      have hs' : r'.resize n = .ok { r' with backing := b' } := by
        rw [Region.resize, t.refusals_eq, t.size_eq, if_neg hrefused, hb', ← t.refusals_eq]
        rfl
      obtain ⟨hsize, hcapacity, -⟩ := resize_eq hs
      obtain ⟨hsize', hcapacity', -⟩ := resize_eq hs'
      refine ⟨_, _, hs, hs', ⟨hsize'.trans hsize.symm, ?_, t.refusals_eq⟩, fun i hbyte => ?_⟩
      · rw [hcapacity', hcapacity, t.capacity_eq]
      · rw [grownByte_resize hs, grownByte_resize hs', hbyte]

theorem Twin.isSome_read? (t : Twin r r') (start count : Nat) :
    (r'.read? start count).isSome = (r.read? start count).isSome := by
  rw [read?, read?, t.size_eq]
  split <;> rfl

theorem Twin.flush_eq (t : Twin r r') : r'.flush = r.flush := by
  rw [flush, flush, t.refusals_eq]

end Region

/-! ## Two runs -/

variable {α β γ δ : Type} {h k h' k' h'' k'' : Heap}

/-- How two runs end, each with a heap of its own. -/
inductive Paired (Q : α → β → Heap → Heap → Prop) (E : HeapError → Heap → Heap → Prop) :
    EStateM.Result Failure Heap α → EStateM.Result Failure Heap β → Prop where
  | granted {a : α} {b : β} {h k : Heap} (holds : Q a b h k) : Paired Q E (.ok a h) (.ok b k)
  | refused {e : HeapError} {h k : Heap} (holds : E e h k) :
    Paired Q E (.error (.refused e) h) (.error (.refused e) k)
  | trap {h k : Heap} : Paired Q E (.error .trap h) (.error .trap k)

/-- One operation started on the first heap and one on the second end in the same way. -/
def Lockstep (x : HeapM α) (y : HeapM β) (h k : Heap) (Q : α → β → Heap → Heap → Prop)
    (E : HeapError → Heap → Heap → Prop) : Prop :=
  Paired Q E (x h) (y k)

namespace Lockstep

variable {x : HeapM α} {y : HeapM β} {f : α → HeapM γ} {g : β → HeapM δ}
  {Q : α → β → Heap → Heap → Prop} {R : γ → δ → Heap → Heap → Prop}
  {E : HeapError → Heap → Heap → Prop}

theorem mono {Q' : α → β → Heap → Heap → Prop} {E' : HeapError → Heap → Heap → Prop}
    (hx : Lockstep x y h k Q E) (hQ : ∀ a b h' k', Q a b h' k' → Q' a b h' k')
    (hE : ∀ e h' k', E e h' k' → E' e h' k') : Lockstep x y h k Q' E' := by
  unfold Lockstep at *
  generalize x h = rx at hx ⊢
  generalize y k = ry at hx ⊢
  cases hx with
  | granted holds => exact .granted (hQ _ _ _ _ holds)
  | refused holds => exact .refused (hE _ _ _ holds)
  | trap => exact .trap

/-- What is known of one run may be put beside how both of them end. -/
theorem with_ends {Q' : α → Heap → Prop} {E' : HeapError → Heap → Prop} (hx : Lockstep x y h k Q E)
    (ends : Ends h.frame.Roomy x h Q' E') :
    Lockstep x y h k (fun a b h' k' => Q a b h' k' ∧ Q' a h') fun e h' k' => E e h' k' ∧ E' e h' := by
  unfold Lockstep at *
  generalize hxh : x h = rx at hx ⊢
  generalize y k = ry at hx ⊢
  cases hx with
  | granted holds => exact .granted ⟨holds, ends.of_ok hxh⟩
  | refused holds => exact .refused ⟨holds, ends.of_refused hxh⟩
  | trap => exact .trap

/-- Both runs are granted, refused for the same reason, or traps. -/
theorem ends (hx : Lockstep x y h k Q E) :
    (∃ a b h' k', x h = .ok a h' ∧ y k = .ok b k' ∧ Q a b h' k') ∨
    (∃ e h' k', x h = .error (.refused e) h' ∧ y k = .error (.refused e) k' ∧ E e h' k') ∨
    ∃ h' k', x h = .error .trap h' ∧ y k = .error .trap k' := by
  unfold Lockstep at hx
  generalize x h = rx at hx
  generalize y k = ry at hx
  cases hx with
  | granted holds => exact .inl ⟨_, _, _, _, rfl, rfl, holds⟩
  | refused holds => exact .inr (.inl ⟨_, _, _, rfl, rfl, holds⟩)
  | trap => exact .inr (.inr ⟨_, _, rfl, rfl⟩)

theorem pure' {a : α} {b : β} (hQ : Q a b h k) :
    Lockstep (pure a : HeapM α) (pure b : HeapM β) h k Q E := .granted hQ

theorem trap' : Lockstep (throw .trap : HeapM α) (throw .trap : HeapM β) h k Q E := .trap

theorem refuse' {e : HeapError} (hE : E e h k) :
    Lockstep (HeapM.refuse e : HeapM α) (HeapM.refuse e : HeapM β) h k Q E := .refused hE

theorem bind' (hx : Lockstep x y h k (fun a b h' k' => Lockstep (f a) (g b) h' k' R E) E) :
    Lockstep (x >>= f) (y >>= g) h k R E := by
  unfold Lockstep at hx
  generalize hxh : x h = rx at hx
  generalize hyk : y k = ry at hx
  unfold Lockstep
  cases hx with
  | granted holds =>
    rw [bind_of_ok hxh, bind_of_ok hyk]
    exact holds
  | refused holds =>
    rw [bind_of_error hxh, bind_of_error hyk]
    exact .refused holds
  | trap =>
    rw [bind_of_error hxh, bind_of_error hyk]
    exact .trap

theorem map' {f : α → γ} {g : β → δ}
    (hx : Lockstep x y h k (fun a b h' k' => R (f a) (g b) h' k') E) :
    Lockstep (f <$> x) (g <$> y) h k R E := by
  rw [map_eq_pure_bind, map_eq_pure_bind]
  exact bind' (hx.mono (fun _ _ _ _ holds => pure' holds) fun _ _ _ holds => holds)

theorem discard' {R : Unit → Unit → Heap → Heap → Prop}
    (hx : Lockstep x y h k (fun _ _ h' k' => R () () h' k') E) :
    Lockstep (discard x) (discard y) h k R E :=
  map' (f := fun _ => ()) (g := fun _ => ()) hx

theorem get' {Q : Heap → Heap → Heap → Heap → Prop} (hQ : Q h k h k) :
    Lockstep (get : HeapM Heap) (get : HeapM Heap) h k Q E := .granted hQ

theorem set' {Q : PUnit → PUnit → Heap → Heap → Prop} (hQ : Q ⟨⟩ ⟨⟩ h' k') :
    Lockstep (set h' : HeapM PUnit) (set k' : HeapM PUnit) h k Q E := .granted hQ

theorem modify' {f g : Heap → Heap} {Q : PUnit → PUnit → Heap → Heap → Prop}
    (hQ : Q ⟨⟩ ⟨⟩ (f h) (g k)) :
    Lockstep (modify f : HeapM PUnit) (modify g : HeapM PUnit) h k Q E := .granted hQ

theorem orTrap' {o : Option α} {Q : α → α → Heap → Heap → Prop} (hQ : ∀ a, o = some a → Q a a h k) :
    Lockstep (HeapM.orTrap o) (HeapM.orTrap o) h k Q E := by
  cases o with
  | none => exact .trap
  | some a => exact .granted (hQ a rfl)

theorem get_bind {f : Heap → HeapM γ} {g : Heap → HeapM δ} (hx : Lockstep (f h) (g k) h k R E) :
    Lockstep (get >>= f) (get >>= g) h k R E := bind' (get' hx)

theorem orTrap_bind {o : Option α} {f : α → HeapM γ} {g : α → HeapM δ}
    (hx : ∀ a, o = some a → Lockstep (f a) (g a) h k R E) :
    Lockstep (HeapM.orTrap o >>= f) (HeapM.orTrap o >>= g) h k R E := bind' (orTrap' hx)

/-- Values of their own, which both runs have or both lack. -/
theorem orTrap_both {o : Option α} {p : Option β} (ho : p.isSome = o.isSome)
    (hQ : ∀ a b, o = some a → p = some b → Q a b h k) :
    Lockstep (HeapM.orTrap o) (HeapM.orTrap p) h k Q E := by
  cases o with
  | none =>
    cases p with
    | none => exact .trap
    | some b => cases ho
  | some a =>
    cases p with
    | none => cases ho
    | some b => exact .granted (hQ a b rfl rfl)

theorem orRefuse' {e : HeapError} {o : Option α} {Q : α → α → Heap → Heap → Prop}
    (hQ : ∀ a, o = some a → Q a a h k) (hE : E e h k) :
    Lockstep (HeapM.orRefuse e o) (HeapM.orRefuse e o) h k Q E := by
  cases o with
  | none => exact .refused hE
  | some a => exact .granted (hQ a rfl)

theorem ofExcept' {o : Except HeapError α} {Q : α → α → Heap → Heap → Prop}
    (hQ : ∀ a, o = .ok a → Q a a h k) (hE : ∀ e, E e h k) :
    Lockstep (HeapM.ofExcept o) (HeapM.ofExcept o) h k Q E := by
  cases o with
  | error e => exact .refused (hE e)
  | ok a => exact .granted (hQ a rfl)

theorem orFail' {o : Except Failure α} {Q : α → α → Heap → Heap → Prop}
    (hQ : ∀ a, o = .ok a → Q a a h k) (hE : ∀ e, E e h k) :
    Lockstep (HeapM.orFail o) (HeapM.orFail o) h k Q E := by
  match o, hQ with
  | .error (.refused e), _ => exact .refused (hE e)
  | .error .trap, _ => exact .trap
  | .ok a, hQ => exact .granted (hQ a rfl)

theorem ite' {c : Prop} [Decidable c] {x₁ x₂ : HeapM α} {y₁ y₂ : HeapM β}
    (hx : c → Lockstep x₁ y₁ h k Q E) (hy : ¬c → Lockstep x₂ y₂ h k Q E) :
    Lockstep (if c then x₁ else x₂) (if c then y₁ else y₂) h k Q E := by
  by_cases hc : c
  · rw [if_pos hc, if_pos hc]
    exact hx hc
  · rw [if_neg hc, if_neg hc]
    exact hy hc

theorem granted' {Q : Bool → Bool → Heap → Heap → Prop} {E' : HeapError → Heap → Heap → Prop}
    (hx : Lockstep x y h k (fun _ _ h' k' => Q true true h' k') fun _ h' k' => Q false false h' k') :
    Lockstep (HeapM.granted x) (HeapM.granted y) h k Q E' := by
  unfold Lockstep at *
  generalize hxh : x h = rx at hx
  generalize hyk : y k = ry at hx
  rw [HeapM.granted, HeapM.granted, hxh, hyk]
  cases hx with
  | granted holds => exact .granted holds
  | refused holds => exact .granted holds
  | trap => exact .trap

theorem modifyRegion' {f g : Region → Option Region} {r s : Region}
    {Q : Unit → Unit → Heap → Heap → Prop} (hf : f h.region = some r) (hg : g k.region = some s)
    (hQ : Q () () { h with region := r } { k with region := s }) :
    Lockstep (HeapM.modifyRegion f) (HeapM.modifyRegion g) h k Q E := by
  unfold Lockstep HeapM.modifyRegion
  simp only [hf, hg]
  exact .granted hQ

theorem modifyRegion_none {f g : Region → Option Region} {Q : Unit → Unit → Heap → Heap → Prop}
    (hf : f h.region = none) (hg : g k.region = none) :
    Lockstep (HeapM.modifyRegion f) (HeapM.modifyRegion g) h k Q E := by
  unfold Lockstep HeapM.modifyRegion
  simp only [hf, hg]
  exact .trap

end Lockstep

-- two runs are taken apart by the rules alone, as one run is
attribute [irreducible] Lockstep

/-! ## Bytes in common -/

namespace Heap

open HeapM

/-- The heap over another region. -/
def on (h : Heap) (region : Region) : Heap := { h with region }

/-- The second heap differs from the first in the bytes of its region only. -/
structure Beside (h k : Heap) : Prop where
  eq : k = h.on k.region
  twin : Region.Twin h.region k.region

/-- A step that reads the heap, but not its region, reads the same from both. -/
theorem Beside.get_bind (b : Beside h k) {f : Heap → HeapM α} {Q : α → α → Heap → Heap → Prop}
    {E : HeapError → Heap → Heap → Prop} (hf : ∀ r, f (h.on r) = f h)
    (hx : Lockstep (f h) (f h) h k Q E) : Lockstep (get >>= f) (get >>= f) h k Q E := by
  refine Lockstep.bind' (Lockstep.get' ?_)
  rw [b.eq, hf, ← b.eq]
  exact hx

/-- The heaps have the byte at an offset of their regions in common, or the one that growing their
regions over it would uncover. -/
def Agrees (h k : Heap) (i : Nat) : Prop := k.region.grownByte i = h.region.grownByte i

theorem Agrees.byte_eq {i : Nat} (c : Agrees h k i) (b : Beside h k) :
    k.region.byte i = h.region.byte i :=
  b.twin.byte_eq c

theorem agrees_of_byte_eq {i : Nat} (b : Beside h k) (hi : i < h.region.size)
    (hb : k.region.byte i = h.region.byte i) : Agrees h k i := by
  rw [Agrees, Region.grownByte_of_lt hi, Region.grownByte_of_lt (by rw [b.twin.size_eq]; exact hi), hb]

/-- Both heaps have gone on, and still have in common what they had in common before. -/
structure Carried (h k h' k' : Heap) : Prop extends Beside h' k' where
  start_eq : h'.arenaStart = h.arenaStart
  agrees : ∀ i, Agrees h k i → Agrees h' k' i

theorem Carried.refl (b : Beside h k) : Carried h k h k := ⟨b, rfl, fun _ c => c⟩

theorem Carried.trans (c : Carried h k h' k') (c' : Carried h' k' h'' k'') : Carried h k h'' k'' where
  toBeside := c'.toBeside
  start_eq := c'.start_eq.trans c.start_eq
  agrees i hi := c'.agrees i (c.agrees i hi)

/-- An operation that gives the same answer on both heaps, or refuses both for the same reason, and
leaves heaps that `R` relates. -/
def Preserves (R : Heap → Heap → Prop) (x : HeapM α) (h k : Heap) : Prop :=
  Lockstep x x h k (fun a b h' k' => a = b ∧ R h' k') fun _ h' k' => R h' k'

namespace Preserves

variable {R : Heap → Heap → Prop}

theorem imp {R' : Heap → Heap → Prop} {x : HeapM α} (hx : Preserves R x h k)
    (hR : ∀ h' k', R h' k' → R' h' k') : Preserves R' x h k :=
  Lockstep.mono hx (fun _ _ _ _ ⟨he, hr⟩ => ⟨he, hR _ _ hr⟩) fun _ _ _ hr => hR _ _ hr

theorem of_ok {x : HeapM α} {a : α} (hx : Preserves R x h k) (ran : x h = .ok a h') :
    ∃ k', x k = .ok a k' ∧ R h' k' := by
  rcases Lockstep.ends hx with ⟨b, c, h₁, k₁, hb, hc, rfl, hr⟩ | ⟨e, h₁, k₁, he, -⟩ | ⟨h₁, k₁, he, -⟩
  · rw [ran] at hb
    cases hb
    exact ⟨k₁, hc, hr⟩
  · rw [ran] at he
    cases he
  · rw [ran] at he
    cases he

section

variable {x : HeapM α} {Q : β → γ → Heap → Heap → Prop} {E : HeapError → Heap → Heap → Prop}
  {Q' : α → Heap → Prop} {E' : HeapError → Heap → Prop}

/-- What follows a step is run on related heaps. -/
theorem andThen {f : α → HeapM β} {g : α → HeapM γ} (hx : Preserves R x h k)
    (hf : ∀ a h' k', R h' k' → Lockstep (f a) (g a) h' k' Q E) (hE : ∀ e h' k', R h' k' → E e h' k') :
    Lockstep (x >>= f) (x >>= g) h k Q E := by
  refine Lockstep.bind' (Lockstep.mono hx ?_ hE)
  intro a b h₁ k₁ ⟨he, hr⟩
  rw [← he]
  exact hf a h₁ k₁ hr

/-- What follows a step is run on related heaps, of which is known what the step leaves. -/
theorem andThen_ends {f : α → HeapM β} {g : α → HeapM γ} (hx : Preserves R x h k)
    (ends : Ends h.frame.Roomy x h Q' E')
    (hf : ∀ a h' k', Q' a h' → R h' k' → Lockstep (f a) (g a) h' k' Q E)
    (hE : ∀ e h' k', R h' k' → E e h' k') : Lockstep (x >>= f) (x >>= g) h k Q E := by
  refine Lockstep.bind' ((hx.with_ends ends).mono ?_ fun e h' k' ⟨hr, _⟩ => hE e h' k' hr)
  intro a b h₁ k₁ ⟨⟨he, hr⟩, left⟩
  rw [← he]
  exact hf a h₁ k₁ left hr

/-- One step after another, each between related heaps. -/
theorem bind {f : α → HeapM β} (hx : Preserves R x h k)
    (hf : ∀ a h' k', R h' k' → Preserves R (f a) h' k') : Preserves R (x >>= f) h k :=
  hx.andThen hf fun _ _ _ hr => hr

theorem bind_ends {f : α → HeapM β} (hx : Preserves R x h k) (ends : Ends h.frame.Roomy x h Q' E')
    (hf : ∀ a h' k', Q' a h' → R h' k' → Preserves R (f a) h' k') : Preserves R (x >>= f) h k :=
  hx.andThen_ends ends hf fun _ _ _ hr => hr

end

theorem map {x : HeapM α} (hx : Preserves R x h k) (f : α → β) : Preserves R (f <$> x) h k :=
  Lockstep.map' (Lockstep.mono hx (fun _ _ _ _ ⟨he, hr⟩ => ⟨congrArg f he, hr⟩) fun _ _ _ hr => hr)

theorem pure (hr : R h k) (a : α) : Preserves R (pure a : HeapM α) h k := Lockstep.pure' ⟨rfl, hr⟩

theorem refuse (hr : R h k) (e : HeapError) : Preserves R (refuse e : HeapM α) h k :=
  Lockstep.refuse' hr

theorem orTrap_bind {o : Option α} {f : α → HeapM β} (hx : ∀ a, o = some a → Preserves R (f a) h k) :
    Preserves R (orTrap o >>= f) h k :=
  Lockstep.orTrap_bind hx

theorem orRefuse_bind (hr : R h k) {e : HeapError} {o : Option α} {f : α → HeapM β}
    (hx : ∀ a, o = some a → Preserves R (f a) h k) : Preserves R (orRefuse e o >>= f) h k :=
  Lockstep.bind' (Lockstep.orRefuse' hx hr)

theorem ofExcept_bind (hr : R h k) {o : Except HeapError α} {f : α → HeapM β}
    (hx : ∀ a, o = .ok a → Preserves R (f a) h k) : Preserves R (ofExcept o >>= f) h k :=
  Lockstep.bind' (Lockstep.ofExcept' hx fun _ => hr)

theorem orFail_bind (hr : R h k) {o : Except Failure α} {f : α → HeapM β}
    (hx : ∀ a, o = .ok a → Preserves R (f a) h k) : Preserves R (orFail o >>= f) h k :=
  Lockstep.bind' (Lockstep.orFail' hx fun _ => hr)

theorem get_bind (b : Beside h k) {f : Heap → HeapM α} (hf : ∀ r, f (h.on r) = f h)
    (hx : Preserves R (f h) h k) : Preserves R (get >>= f) h k :=
  b.get_bind hf hx

theorem ite {c : Prop} [Decidable c] {x y : HeapM α} (hx : c → Preserves R x h k)
    (hy : ¬c → Preserves R y h k) : Preserves R (if c then x else y) h k :=
  Lockstep.ite' hx hy

end Preserves

/-- An operation that carries over what the heaps have in common. -/
abbrev Carries (x : HeapM α) (h k : Heap) : Prop := Preserves (Carried h k) x h k

/-- Steps that carry over what the heaps have in common make an operation that does. -/
theorem Carries.bind {x : HeapM α} {f : α → HeapM β} (hx : Carries x h k)
    (hf : ∀ a h' k', Carried h k h' k' → Carries (f a) h' k') : Carries (x >>= f) h k :=
  Preserves.bind hx fun a h' k' c => (hf a h' k' c).imp fun _ _ c' => c.trans c'

/-! ## Steps that do not look at the region -/

/-- A step that neither looks at the region or at where the arena starts in it, nor changes either. -/
def Oblivious (x : HeapM α) : Prop := ∀ (h : Heap) (region : Region) (arenaStart : Nat),
  x { h with region, arenaStart } = onHeap (fun h' => { h' with region, arenaStart }) (x h)

theorem Oblivious.carries {x : HeapM α} (hx : Oblivious x) (b : Beside h k) : Carries x h k := by
  -- run on its own region, the step shows that it leaves the region and the start of the arena alone
  have own := hx h h.region h.arenaStart
  have other : x k = onHeap (fun h' => { h' with region := k.region, arenaStart := h.arenaStart })
      (x h) := by
    rw [b.eq]
    exact hx h k.region h.arenaStart
  have carried {h' : Heap} (he : h' = { h' with region := h.region, arenaStart := h.arenaStart }) :
      Carried h k h' { h' with region := k.region, arenaStart := h.arenaStart } := by
    rw [he]
    exact ⟨⟨rfl, b.twin⟩, rfl, fun _ c => c⟩
  unfold Carries Preserves Lockstep
  rw [other]
  change x h = _ at own
  cases hxh : x h with
  | ok a h' =>
    rw [hxh] at own
    exact .granted ⟨rfl, carried (EStateM.Result.ok.inj own).2⟩
  | error e h' =>
    rw [hxh] at own
    have c := carried (EStateM.Result.error.inj own).2
    cases e with
    | refused e => exact .refused c
    | trap => exact .trap

theorem oblivious_onTable (f : BlockTable → Option (α × BlockTable)) : Oblivious (onTable f) := by
  intro h region arenaStart
  unfold onTable
  dsimp only
  cases f h.table <;> rfl

theorem oblivious_modify {f : Heap → Heap} (hf : ∀ (h : Heap) region arenaStart,
    f { h with region, arenaStart } = { f h with region, arenaStart }) :
    Oblivious (modify f : HeapM PUnit) := by
  intro h region arenaStart
  show EStateM.Result.ok PUnit.unit (f { h with region, arenaStart }) = _
  rw [hf]
  rfl

/-! ## Growing and shrinking -/

/-- Both regions take on another size, or both refuse it. -/
theorem resize_carries (b : Beside h k) (bytes : Nat) (error : RegionError → HeapError)
    {f g : Region → HeapM Unit} (hf : ∀ s s', Region.Twin s s' →
      (∀ i, k.region.grownByte i = h.region.grownByte i → s'.grownByte i = s.grownByte i) →
      Lockstep (f s) (g s') h k (fun a b h' k' => a = b ∧ Carried h k h' k') fun _ => Carried h k) :
    Lockstep (match h.region.resize bytes with | .error e => refuse (error e) | .ok region => f region)
      (match k.region.resize bytes with | .error e => refuse (error e) | .ok region => g region) h k
      (fun a b h' k' => a = b ∧ Carried h k h' k') fun _ => Carried h k := by
  rcases b.twin.resize bytes with ⟨e, he, he'⟩ | ⟨s, s', hs, hs', t, hb⟩
  · rw [he, he']
    exact Lockstep.refuse' (.refl b)
  · rw [hs, hs']
    exact hf s s' t hb

theorem grow_carries (b : Beside h k) (count : Nat) : Carries (grow count) h k := by
  obtain ⟨r, rfl⟩ : ∃ r, k = h.on r := ⟨_, b.eq⟩
  have stays := Carried.refl b
  apply Lockstep.get_bind
  apply Lockstep.ite'
  · exact fun _ => Lockstep.pure' ⟨rfl, stays⟩
  intro _
  apply Lockstep.ite'
  · exact fun _ => Lockstep.refuse' stays
  intro _
  apply Lockstep.orTrap_bind
  intro bytes _
  refine resize_carries b bytes _ fun s s' t hb => ?_
  apply Lockstep.orTrap_bind
  intro p _
  exact Lockstep.set' ⟨rfl, ⟨⟨rfl, t⟩, rfl, hb⟩⟩

theorem shrink_carries (b : Beside h k) (count : Nat) : Carries (shrink count) h k := by
  obtain ⟨r, rfl⟩ : ∃ r, k = h.on r := ⟨_, b.eq⟩
  have stays := Carried.refl b
  apply Lockstep.get_bind
  apply Lockstep.orTrap_bind
  intro available _
  apply Lockstep.ite'
  · exact fun _ => Lockstep.refuse' stays
  intro _
  apply Lockstep.ite'
  · exact fun _ => Lockstep.pure' ⟨rfl, stays⟩
  intro _
  apply Lockstep.orTrap_bind
  intro limit _
  apply Lockstep.orTrap_bind
  intro bytes _
  refine resize_carries b bytes _ fun s s' t hb => ?_
  apply Lockstep.orTrap_bind
  intro p _
  apply Lockstep.ite'
  · exact fun _ => Lockstep.set' ⟨rfl, ⟨⟨rfl, t⟩, rfl, hb⟩⟩
  · exact fun _ => Lockstep.trap'

theorem returnTail_carries (b : Beside h k) : Carries returnTail h k := by
  have stays := Carried.refl b
  refine Preserves.get_bind b (fun _ => rfl) ?_
  apply Preserves.orTrap_bind
  intro trailing _
  apply Preserves.ite
  · exact fun _ => Preserves.pure stays ()
  intro _
  apply Lockstep.discard'
  apply Lockstep.granted'
  -- granted or refused, what the heaps have in common is carried over
  apply (shrink_carries b _).mono
  · intro _ _ h' k' ⟨_, c⟩
    exact ⟨rfl, c⟩
  · intro _ h' k' c
    exact ⟨rfl, c⟩

/-! ## Taking blocks -/

theorem claimBlocks_carries (b : Beside h k) (count : Nat) : Carries (claimBlocks count) h k := by
  refine Preserves.get_bind b (fun _ => rfl) ?_
  apply Preserves.ite
  · exact fun _ => Preserves.refuse (.refl b) _
  intro _
  apply Carries.bind ((oblivious_onTable _).carries b)
  intro block h₁ k₁ c
  cases block with
  | some block => exact Preserves.pure (.refl c.toBeside) block
  | none =>
    refine Preserves.get_bind c.toBeside (fun _ => rfl) ?_
    apply Preserves.orTrap_bind
    intro trailing _
    apply Preserves.orTrap_bind
    intro missing _
    apply Carries.bind (grow_carries c.toBeside missing)
    intro _ h₂ k₂ c₂
    apply Carries.bind ((oblivious_onTable _).carries c₂.toBeside)
    intro block h₃ k₃ c₃
    cases block with
    | some block => exact Preserves.pure (.refl c₃.toBeside) block
    | none => exact Preserves.refuse (.refl c₃.toBeside) _

end Heap

end RegionHeap
