/-!
Computations with a state that may fail, one step at a time: what is run after a step that was granted,
and that nothing is run after one that failed.
-/
namespace RegionHeap

variable {ε σ α β : Type} {x : EStateM ε σ α} {f : α → EStateM ε σ β} {s s' : σ}

/-- After a step that was granted the next one follows. -/
theorem bind_of_ok {a : α} (ran : x s = .ok a s') : (x >>= f) s = f a s' := by
  show EStateM.bind x f s = _
  rw [EStateM.bind, ran]

/-- After a step that failed there is no other. -/
theorem bind_of_error {e : ε} (ran : x s = .error e s') : (x >>= f) s = .error e s' := by
  show EStateM.bind x f s = _
  rw [EStateM.bind, ran]

theorem bind_get (f : σ → EStateM ε σ β) (s : σ) : (get >>= f) s = f s s := rfl

theorem bind_set (s' : σ) (f : PUnit → EStateM ε σ β) (s : σ) : (set s' >>= f) s = f ⟨⟩ s' := rfl

theorem bind_modify (change : σ → σ) (f : PUnit → EStateM ε σ β) (s : σ) :
    (modify change >>= f) s = f ⟨⟩ (change s) := rfl

theorem map_run_congr (f : α → β) {x y : EStateM ε σ α} (run_eq : x s = y s') :
    (f <$> x) s = (f <$> y) s' := by
  show EStateM.map f x s = EStateM.map f y s'
  rw [EStateM.map, EStateM.map, run_eq]

theorem map_of_ok (f : α → β) {a : α} (ran : x s = .ok a s') : (f <$> x) s = .ok (f a) s' :=
  map_run_congr f (show x s = (pure a : EStateM ε σ α) s' from ran)

theorem map_of_error (f : α → β) {e : ε} (ran : x s = .error e s') : (f <$> x) s = .error e s' :=
  map_run_congr f (show x s = (throw e : EStateM ε σ α) s' from ran)

theorem discard_of_ok {a : α} (ran : x s = .ok a s') : discard x s = .ok ⟨⟩ s' :=
  map_of_ok (fun _ => PUnit.unit) ran

theorem discard_of_error {e : ε} (ran : x s = .error e s') : discard x s = .error e s' :=
  map_of_error (fun _ => PUnit.unit) ran

end RegionHeap
