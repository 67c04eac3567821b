/-!
Requests made one after another. What every request keeps holds at any time (`passed_of_step`), and
where every request is answered as by another thing that is seen in the first, so are all of them
(`map_serveAll`).
-/
namespace RegionHeap.Requests

variable {ρ α β σ τ : Type} {serve : σ → ρ → α × σ} {serve' : τ → ρ → β × τ} {s : σ}

/-- The answers to some requests one after another, each with what is there after it. -/
def serveAll (serve : σ → ρ → α × σ) (s : σ) : List ρ → List (α × σ)
  | [] => []
  | request :: rest => serve s request :: serveAll serve (serve s request).2 rest

/-- What is there before some requests and after each of them. -/
def passed (serve : σ → ρ → α × σ) (s : σ) (requests : List ρ) : List σ :=
  s :: (serveAll serve s requests).map Prod.snd

theorem passed_of_step {P : σ → Prop} (step : ∀ s request, P s → P (serve s request).2)
    (start : P s) (requests : List ρ) : ∀ t ∈ passed serve s requests, P t := by
  induction requests generalizing s with
  | nil =>
    intro t ht
    rw [List.mem_singleton.1 ht]
    exact start
  | cons request rest ih =>
    intro t ht
    cases List.mem_cons.1 ht with
    | inl here =>
      rw [here]
      exact start
    | inr later => exact ih (step s request start) t later

theorem map_serveAll {P : σ → Prop} (f : α → β) (view : σ → τ)
    (keeps : ∀ s request, P s → P (serve s request).2)
    (step : ∀ s request, P s → serve' (view s) request = Prod.map f view (serve s request))
    (start : P s) (requests : List ρ) :
    (serveAll serve s requests).map (Prod.map f view) = serveAll serve' (view s) requests := by
  induction requests generalizing s with
  | nil => rfl
  | cons request rest ih =>
    have later := ih (keeps s request start)
    rw [serveAll, serveAll, List.map_cons, step s request start, later]
    rfl

end RegionHeap.Requests
