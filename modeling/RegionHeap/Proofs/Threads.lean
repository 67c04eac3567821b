/-!
Doubly linked lists, given by a forward and a backward link at every node. `Chained` says which list
of nodes the links describe from a head on. `Threads` is a family of such lists, one for each key,
that share the links: every node has at most one home, and the list of a key holds exactly the nodes
that are at home there. The block table's bins and the lists of free fragments are both of this
kind.

The two edits are pushing a node in front (`Threads.push`) and taking one out (`Threads.remove`).
Each asks only for what it changes: the links of the node itself and of its neighbours.
-/
namespace RegionHeap

/-- From `head` on, the links lead through `members` in this order and end there. -/
structure Chained (next prev : Nat → Option Nat) (head : Option Nat) (members : List Nat) : Prop where
  nodup : members.Nodup
  head_eq : head = members[0]?
  next_eq : ∀ i x, members[i]? = some x → next x = members[i + 1]?
  prev_zero : ∀ x, members[0]? = some x → prev x = none
  prev_succ : ∀ i x, members[i + 1]? = some x → prev x = members[i]?

namespace Chained

variable {next prev next' prev' : Nat → Option Nat} {head : Option Nat} {members : List Nat}

theorem nil : Chained next prev none [] where
  nodup := List.nodup_nil
  head_eq := rfl
  next_eq i x h := by simp at h
  prev_zero x h := by simp at h
  prev_succ i x h := by simp at h

/-- Where the links lead both ways, no node can stand at two places. -/
theorem of_links (head_eq : head = members[0]?)
    (next_eq : ∀ i x, members[i]? = some x → next x = members[i + 1]?)
    (prev_zero : ∀ x, members[0]? = some x → prev x = none)
    (prev_succ : ∀ i x, members[i + 1]? = some x → prev x = members[i]?) :
    Chained next prev head members := by
  refine ⟨?_, head_eq, next_eq, prev_zero, prev_succ⟩
  have apart (i j x : Nat) (hi : members[i]? = some x) (hj : members[i + j + 1]? = some x) :
      False := by
    induction i generalizing x with
    | zero =>
      have h₁ := prev_zero x hi
      rw [prev_succ _ x hj] at h₁
      have hlt := (List.getElem?_eq_some_iff.1 hj).1
      rw [List.getElem?_eq_none_iff] at h₁
      omega
    | succ i ih =>
      have h₁ := prev_succ i x hi
      have h₂ := prev_succ _ x hj
      have hlt := (List.getElem?_eq_some_iff.1 hi).1
      obtain ⟨y, hy⟩ : ∃ y, members[i]? = some y := ⟨_, List.getElem?_eq_getElem (by omega)⟩
      refine ih y hy ?_
      rw [show i + j + 1 = i + 1 + j by omega, ← h₂, h₁, hy]
  refine List.pairwise_iff_getElem.2 fun i j hi hj hlt heq => ?_
  refine apart i (j - i - 1) members[i] (List.getElem?_eq_getElem hi) ?_
  rw [show i + (j - i - 1) + 1 = j by omega, List.getElem?_eq_getElem hj, heq]

/-- A node stands at one place. -/
theorem index_unique (c : Chained next prev head members) {i j x : Nat}
    (hi : members[i]? = some x) (hj : members[j]? = some x) : i = j := by
  obtain ⟨hlt, -⟩ := List.getElem?_eq_some_iff.1 hi
  exact (List.getElem?_inj hlt c.nodup).1 (hi.trans hj.symm)

/-- The links of a member lead to its neighbours by place. -/
theorem next_eq_some_iff (c : Chained next prev head members) {i j x y : Nat}
    (hj : members[j]? = some x) (hi : members[i]? = some y) : next x = some y ↔ i = j + 1 := by
  rw [c.next_eq j x hj]
  exact ⟨fun h => c.index_unique hi h, fun h => by rw [← h, hi]⟩

theorem prev_eq_some_iff (c : Chained next prev head members) {i j x y : Nat}
    (hj : members[j]? = some x) (hi : members[i]? = some y) : prev x = some y ↔ i + 1 = j := by
  cases j with
  | zero => simp [c.prev_zero x hj]
  | succ j =>
    rw [c.prev_succ j x hj]
    exact ⟨fun h => by rw [c.index_unique hi h], fun h => by cases h; exact hi⟩

/-- Only the first member has no back link. -/
theorem prev_eq_none_iff (c : Chained next prev head members) {j x : Nat}
    (hj : members[j]? = some x) : prev x = none ↔ j = 0 := by
  cases j with
  | zero => simp [c.prev_zero x hj]
  | succ j =>
    obtain ⟨hl, -⟩ := List.getElem?_eq_some_iff.1 hj
    rw [c.prev_succ j x hj, List.getElem?_eq_none_iff]
    omega

/-- Links that agree on the members describe the same list. -/
theorem congr (c : Chained next prev head members)
    (h : ∀ x ∈ members, next' x = next x ∧ prev' x = prev x) :
    Chained next' prev' head members where
  nodup := c.nodup
  head_eq := c.head_eq
  next_eq i x hx := (h x (List.mem_of_getElem? hx)).1.trans (c.next_eq i x hx)
  prev_zero x hx := (h x (List.mem_of_getElem? hx)).2.trans (c.prev_zero x hx)
  prev_succ i x hx := (h x (List.mem_of_getElem? hx)).2.trans (c.prev_succ i x hx)

theorem head_mem (c : Chained next prev head members) {x : Nat} (h : head = some x) :
    x ∈ members :=
  List.mem_of_getElem? (c.head_eq.symm.trans h)

theorem eq_nil_iff (c : Chained next prev head members) : members = [] ↔ head = none := by
  rw [c.head_eq]
  cases members <;> simp

/-- The neighbours of a member are members. -/
theorem next_mem (c : Chained next prev head members) {x y : Nat} (hx : x ∈ members)
    (h : next x = some y) : y ∈ members := by
  obtain ⟨i, hi⟩ := List.mem_iff_getElem?.1 hx
  exact List.mem_of_getElem? ((c.next_eq i x hi).symm.trans h)

theorem prev_mem (c : Chained next prev head members) {x y : Nat} (hx : x ∈ members)
    (h : prev x = some y) : y ∈ members := by
  obtain ⟨i, hi⟩ := List.mem_iff_getElem?.1 hx
  cases i with
  | zero => rw [c.prev_zero x hi] at h; cases h
  | succ i => exact List.mem_of_getElem? ((c.prev_succ i x hi).symm.trans h)

/-- Putting a node in front of a list changes its own links and the back link of the old head. -/
theorem push (c : Chained next prev head members) {x : Nat} (hx : x ∉ members)
    (hn : next' x = head) (hp : prev' x = none) (hnext : ∀ y ∈ members, next' y = next y)
    (hprev : ∀ y ∈ members, prev' y = if head = some y then some x else prev y) :
    Chained next' prev' (some x) (x :: members) where
  nodup := List.nodup_cons.2 ⟨hx, c.nodup⟩
  head_eq := rfl
  next_eq i y h := by
    cases i with
    | zero =>
      simp only [List.getElem?_cons_zero, Option.some.injEq] at h
      subst h
      rw [hn, c.head_eq]
      rfl
    | succ i =>
      rw [List.getElem?_cons_succ] at h ⊢
      rw [hnext y (List.mem_of_getElem? h), c.next_eq i y h]
  prev_zero y h := by
    simp only [List.getElem?_cons_zero, Option.some.injEq] at h
    exact h ▸ hp
  prev_succ i y h := by
    rw [List.getElem?_cons_succ] at h
    rw [hprev y (List.mem_of_getElem? h)]
    cases i with
    | zero => rw [if_pos (c.head_eq.trans h)]; rfl
    | succ i =>
      rw [if_neg, c.prev_succ i y h, List.getElem?_cons_succ]
      intro hh
      have := c.index_unique (c.head_eq.symm.trans hh) h
      omega

/-- Taking a node out of a list joins its neighbours. -/
theorem remove (c : Chained next prev head members) {x : Nat} {head' : Option Nat}
    (hx : x ∈ members) (hh : head' = if prev x = none then next x else head)
    (hnext : ∀ y ∈ members, y ≠ x → next' y = if prev x = some y then next x else next y)
    (hprev : ∀ y ∈ members, y ≠ x → prev' y = if next x = some y then prev x else prev y) :
    ∃ members', Chained next' prev' head' members' ∧
      ∀ y, y ∈ members' ↔ y ∈ members ∧ y ≠ x := by
  obtain ⟨j, hj⟩ := List.mem_iff_getElem?.1 hx
  have hnx := c.next_eq j x hj
  have ne_of {i y : Nat} (hy : members[i]? = some y) (hi : i ≠ j) : y ≠ x := fun e =>
    hi (c.index_unique hy (e ▸ hj))
  -- what is left, by index: the places from `j` on move down by one
  have left (i : Nat) : (members.eraseIdx j)[i]? = if i < j then members[i]? else members[i + 1]? :=
    List.getElem?_eraseIdx
  have before {i y : Nat} (hy : members[i]? = some y) := c.prev_eq_some_iff hj hy
  have behind {i y : Nat} (hy : members[i]? = some y) := c.next_eq_some_iff hj hy
  have first := c.prev_eq_none_iff hj
  refine ⟨members.eraseIdx j, ⟨c.nodup.sublist (List.eraseIdx_sublist _ _), ?_, ?_, ?_, ?_⟩, ?_⟩
  · rw [hh, left]
    by_cases hz : j = 0
    · subst hz
      rw [if_pos (first.2 rfl), if_neg (by omega), hnx]
    · rw [if_neg (mt first.1 hz), if_pos (by omega), c.head_eq]
  · intro i y h
    rw [left] at h ⊢
    by_cases hi : i < j
    · rw [if_pos hi] at h
      rw [hnext y (List.mem_of_getElem? h) (ne_of h (by omega))]
      by_cases hl : i + 1 = j
      · rw [if_pos ((before h).2 hl), if_neg (by omega), hnx, hl]
      · rw [if_neg (mt (before h).1 hl), if_pos (by omega), c.next_eq i y h]
    · rw [if_neg hi] at h
      rw [hnext y (List.mem_of_getElem? h) (ne_of h (by omega)), if_neg (mt (before h).1 (by omega)),
        if_neg (by omega), c.next_eq (i + 1) y h]
  · intro y h
    rw [left] at h
    by_cases hz : 0 < j
    · rw [if_pos hz] at h
      rw [hprev y (List.mem_of_getElem? h) (ne_of h (by omega)), if_neg (mt (behind h).1 (by omega)),
        c.prev_zero y h]
    · rw [if_neg hz] at h
      have hj0 : j = 0 := by omega
      rw [hprev y (List.mem_of_getElem? h) (ne_of h (by omega)), if_pos ((behind h).2 (by omega)),
        first.2 hj0]
  · intro i y h
    rw [left] at h ⊢
    by_cases hi : i + 1 < j
    · rw [if_pos hi] at h
      rw [hprev y (List.mem_of_getElem? h) (ne_of h (by omega)), if_neg (mt (behind h).1 (by omega)),
        if_pos (by omega), c.prev_succ i y h]
    · rw [if_neg hi] at h
      rw [hprev y (List.mem_of_getElem? h) (ne_of h (by omega))]
      by_cases hl : i + 1 = j
      · rw [if_pos ((behind h).2 (by omega)), if_pos (by omega)]
        subst hl
        exact c.prev_succ i x hj
      · rw [if_neg (mt (behind h).1 (by omega)), if_neg (by omega), c.prev_succ (i + 1) y h]
  · intro y
    rw [List.mem_eraseIdx_iff_getElem?]
    constructor
    · intro ⟨i, hij, hi⟩
      exact ⟨List.mem_of_getElem? hi, ne_of hi hij⟩
    · intro ⟨hm, hne⟩
      obtain ⟨i, hi⟩ := List.mem_iff_getElem?.1 hm
      refine ⟨i, fun hij => hne ?_, hi⟩
      rw [hij, hj] at hi
      exact (Option.some.inj hi).symm

end Chained

/-- A function with one value replaced. -/
def replaced {α : Type} (f : Nat → α) (x : Nat) (a : α) : Nat → α := fun y => if y = x then a else f y

@[simp] theorem replaced_self {α : Type} (f : Nat → α) (x : Nat) (a : α) : replaced f x a x = a :=
  if_pos rfl

theorem replaced_of_ne {α : Type} (f : Nat → α) {x y : Nat} (a : α) (h : y ≠ x) :
    replaced f x a y = f y := if_neg h

theorem map_replaced {α β : Type} (g : α → β) (f : Nat → α) (x : Nat) (a : α) :
    (fun y => g (replaced f x a y)) = replaced (fun y => g (f y)) x (g a) := by
  funext y
  by_cases hy : y = x <;> simp [replaced, hy]

/-- For every key the links lead from the head of the key through the nodes at home there. -/
def Threads (next prev : Nat → Option Nat) (heads : Nat → Option Nat) (home : Nat → Option Nat) :
    Prop :=
  ∀ key, ∃ members, Chained next prev (heads key) members ∧ ∀ x, x ∈ members ↔ home x = some key

namespace Threads

variable {next prev heads home next' prev' heads' : Nat → Option Nat}

theorem empty (h : ∀ key, heads key = none) : Threads next prev heads fun _ => none := by
  intro key
  refine ⟨[], ?_, by simp⟩
  rw [h key]
  exact Chained.nil

/-- Links and heads that agree where there are nodes thread the same lists. -/
theorem congr (t : Threads next prev heads home) (hh : ∀ key, heads' key = heads key)
    (h : ∀ x, home x ≠ none → next' x = next x ∧ prev' x = prev x) :
    Threads next' prev' heads' home := by
  intro key
  obtain ⟨members, c, hm⟩ := t key
  refine ⟨members, ?_, hm⟩
  rw [hh key]
  exact c.congr fun x hx => h x (by rw [(hm x).1 hx]; simp)

theorem home_of_head (t : Threads next prev heads home) {key x : Nat} (h : heads key = some x) :
    home x = some key := by
  obtain ⟨members, c, hm⟩ := t key
  exact (hm x).1 (c.head_mem h)

/-- Linked nodes share their home. -/
theorem home_next (t : Threads next prev heads home) {key x y : Nat} (hx : home x = some key)
    (h : next x = some y) : home y = some key := by
  obtain ⟨members, c, hm⟩ := t key
  exact (hm y).1 (c.next_mem ((hm x).2 hx) h)

theorem home_prev (t : Threads next prev heads home) {key x y : Nat} (hx : home x = some key)
    (h : prev x = some y) : home y = some key := by
  obtain ⟨members, c, hm⟩ := t key
  exact (hm y).1 (c.prev_mem ((hm x).2 hx) h)

theorem head_eq_none_iff (t : Threads next prev heads home) {key : Nat} :
    heads key = none ↔ ∀ x, home x ≠ some key := by
  obtain ⟨members, c, hm⟩ := t key
  rw [← c.eq_nil_iff, List.eq_nil_iff_forall_not_mem]
  exact forall_congr' fun x => not_congr (hm x)

/-- A node without a home is put in front of the list of `key`. -/
theorem push (t : Threads next prev heads home) {key x : Nat} (hx : home x = none)
    (hh : ∀ k, heads' k = if k = key then some x else heads k)
    (hn : next' x = heads key) (hp : prev' x = none)
    (hnext : ∀ y, home y ≠ none → next' y = next y)
    (hprev : ∀ y, home y ≠ none → prev' y = if heads key = some y then some x else prev y) :
    Threads next' prev' heads' (replaced home x (some key)) := by
  intro k
  obtain ⟨members, c, hm⟩ := t k
  have kept : ∀ y ∈ members, home y ≠ none := fun y hy => by rw [(hm y).1 hy]; simp
  have fresh : x ∉ members := fun h => kept x h hx
  by_cases hk : k = key
  · subst hk
    refine ⟨x :: members, ?_, fun y => ?_⟩
    · rw [hh, if_pos rfl]
      exact c.push fresh hn hp (fun y hy => hnext y (kept y hy)) fun y hy => hprev y (kept y hy)
    · rw [List.mem_cons, hm]
      by_cases hy : y = x <;> simp [replaced, hy]
  · refine ⟨members, ?_, fun y => ?_⟩
    · rw [hh, if_neg hk]
      refine c.congr fun y hy => ⟨hnext y (kept y hy), ?_⟩
      rw [hprev y (kept y hy), if_neg]
      intro h
      have := (t.home_of_head h).symm.trans ((hm y).1 hy)
      exact hk (Option.some.inj this).symm
    · rw [hm]
      by_cases hy : y = x
      · subst hy
        simp [hx, Ne.symm hk]
      · rw [replaced_of_ne _ _ hy]

/-- A node is taken out of the list that it is at home in. -/
theorem remove (t : Threads next prev heads home) {key x : Nat} (hx : home x = some key)
    (hh : ∀ k, heads' k = if k = key ∧ prev x = none then next x else heads k)
    (hnext : ∀ y, home y ≠ none → y ≠ x → next' y = if prev x = some y then next x else next y)
    (hprev : ∀ y, home y ≠ none → y ≠ x → prev' y = if next x = some y then prev x else prev y) :
    Threads next' prev' heads' (replaced home x none) := by
  intro k
  obtain ⟨members, c, hm⟩ := t k
  have kept : ∀ y ∈ members, home y ≠ none := fun y hy => by rw [(hm y).1 hy]; simp
  by_cases hk : k = key
  · subst hk
    obtain ⟨members', c', hm'⟩ : ∃ members', Chained next' prev' (heads' k) members' ∧
        ∀ y, y ∈ members' ↔ y ∈ members ∧ y ≠ x :=
      c.remove ((hm x).2 hx) (by rw [hh]; simp) (fun y hy => hnext y (kept y hy))
        fun y hy => hprev y (kept y hy)
    refine ⟨members', c', fun y => ?_⟩
    rw [hm', hm]
    by_cases hy : y = x
    · subst hy; simp
    · rw [replaced_of_ne _ _ hy]; simp [hy]
  · have other : ∀ y ∈ members, y ≠ x ∧ prev x ≠ some y ∧ next x ≠ some y := by
      intro y hy
      have home_y := (hm y).1 hy
      refine ⟨?_, fun h => ?_, fun h => ?_⟩
      · rintro rfl
        exact hk (Option.some.inj (home_y.symm.trans hx))
      · exact hk (Option.some.inj (home_y.symm.trans (t.home_prev hx h)))
      · exact hk (Option.some.inj (home_y.symm.trans (t.home_next hx h)))
    refine ⟨members, ?_, fun y => ?_⟩
    · rw [hh, if_neg fun h => hk h.1]
      refine c.congr fun y hy => ?_
      obtain ⟨hne, hp, hn⟩ := other y hy
      rw [hnext y (kept y hy) hne, if_neg hp, hprev y (kept y hy) hne, if_neg hn]
      exact ⟨rfl, rfl⟩
    · rw [hm]
      by_cases hy : y = x
      · subst hy
        simp only [replaced_self, hx, Option.some.injEq, reduceCtorEq, iff_false]
        exact fun h => hk h.symm
      · rw [replaced_of_ne _ _ hy]

end Threads

end RegionHeap
