/-
Runs of a transition system whose steps are chosen from outside: a run is the list of events taken,
oldest first, and every event is possible in the state it meets (`step`) and allowed by the
environment (`ok`), which may look at what happened before. What every step keeps, every run keeps;
a flag that a run raises is raised by one of its steps.
-/
import Mathlib.Tactic

namespace ParallelProbsat.Lib

variable {σ ε : Type} {step : σ → ε → Option σ} {ok ok' : List ε → σ → ε → Prop} {es₀ es : List ε} {s₀ s : σ}

/-- The runs from the state `s₀`, reached by the events `es₀`. -/
inductive Traced (step : σ → ε → Option σ) (ok : List ε → σ → ε → Prop) (es₀ : List ε) (s₀ : σ) : List ε → σ → Prop
  | start : Traced step ok es₀ s₀ es₀ s₀
  | snoc {es : List ε} {s s' : σ} {e : ε} (run : Traced step ok es₀ s₀ es s) (hok : ok es s e)
      (hstep : step s e = some s') : Traced step ok es₀ s₀ (es ++ [e]) s'

namespace Traced

/-- The rule of invariants: what holds at the start and is kept by every step holds in every run. -/
theorem invariant {P : List ε → σ → Prop} (h : Traced step ok es₀ s₀ es s) (h0 : P es₀ s₀)
    (hstep : ∀ es s e s', Traced step ok es₀ s₀ es s → P es s → ok es s e → step s e = some s' → P (es ++ [e]) s') :
    P es s := by
  induction h with
  | start => exact h0
  | snoc run hok hs ih => exact hstep _ _ _ _ run ih hok hs

theorem trans {es₁ : List ε} {s₁ : σ} (h : Traced step ok es₀ s₀ es₁ s₁) (h' : Traced step ok es₁ s₁ es s) :
    Traced step ok es₀ s₀ es s := by
  induction h' with
  | start => exact h
  | snoc _ hok hs ih => exact ih.snoc hok hs

/-- An environment that allows more has more runs. -/
theorem imp (h : Traced step ok es₀ s₀ es s) (hok : ∀ es s e, ok es s e → ok' es s e) :
    Traced step ok' es₀ s₀ es s := by
  induction h with
  | start => exact .start
  | snoc _ ho hs ih => exact ih.snoc (hok _ _ _ ho) hs

theorem mem {e : ε} (h : Traced step ok es₀ s₀ es s) (he : e ∈ es₀) : e ∈ es := by
  induction h with
  | start => exact he
  | snoc _ _ _ ih => exact List.mem_append_left _ ih

/-- A machine refines another when each of its steps is, seen through `f`, a step of the other or none: then so are its
runs, and both have the same events in view. -/
theorem refines {τ ι ω : Type} {step' : τ → ι → Option τ} {f : σ → τ} {view : ε → Option ω} {view' : ι → Option ω}
    (h : Traced step ok [] s₀ es s)
    (hstep : ∀ es s e s', Traced step ok [] s₀ es s → ok es s e → step s e = some s' →
      (f s' = f s ∧ view e = none) ∨ ∃ i, step' (f s) i = some (f s') ∧ view' i = view e) :
    ∃ is, Traced step' (fun _ _ _ => True) [] (f s₀) is (f s) ∧ is.filterMap view' = es.filterMap view := by
  induction h with
  | start => exact ⟨[], .start, rfl⟩
  | @snoc es s s' e run hok hs ih =>
    obtain ⟨is, hrun, hview⟩ := ih
    rcases hstep es s e s' run hok hs with ⟨hf, hv⟩ | ⟨i, hi, hv⟩
    · refine ⟨is, by rw [hf]; exact hrun, ?_⟩
      rw [hview, List.filterMap_append, List.filterMap_cons, hv, List.filterMap_nil, List.append_nil]
    · refine ⟨is ++ [i], hrun.snoc trivial hi, ?_⟩
      rw [List.filterMap_append, List.filterMap_append, hview, List.filterMap_cons, List.filterMap_cons, hv]
      rfl

/-- A flag that is down at the start and up at the end is raised by a step of the run. -/
theorem raised {p : σ → Bool} (h : Traced step ok es₀ s₀ es s) (h0 : p s₀ = false) (hs : p s = true) :
    ∃ es₁ s₁ e s₂, Traced step ok es₀ s₀ es₁ s₁ ∧ p s₁ = false ∧ ok es₁ s₁ e ∧ step s₁ e = some s₂ ∧ p s₂ = true ∧
      Traced step ok (es₁ ++ [e]) s₂ es s := by
  induction h with
  | start => rw [h0] at hs; cases hs
  | @snoc es s s' e run hok hstep ih =>
    cases hp : p s with
    | false => exact ⟨es, s, e, s', run, hp, hok, hstep, hs, .start⟩
    | true =>
      obtain ⟨es₁, s₁, e₁, s₂, h1, h2, h3, h4, h5, h6⟩ := ih hp
      exact ⟨es₁, s₁, e₁, s₂, h1, h2, h3, h4, h5, h6.snoc hok hstep⟩

end Traced

/-- In an infinite run a state comes in which `P` holds, if every step from another lowers a measure. -/
theorem exists_of_descends {α : Type} [LT α] [WellFoundedLT α] {f : Nat → σ} {P : σ → Prop} (μ : σ → α)
    (h : ∀ k, ¬ P (f k) → μ (f (k + 1)) < μ (f k)) : ∃ k, P (f k) := by
  by_contra hno
  obtain ⟨-, ⟨k, rfl⟩, hmin⟩ := wellFounded_lt.has_min (Set.range fun k => μ (f k)) ⟨_, 0, rfl⟩
  exact hmin _ ⟨k + 1, rfl⟩ (h k fun hk => hno ⟨k, hk⟩)

/-- Takes the events `es` one after the other, as long as they are allowed and possible. -/
def replay (step : σ → ε → Option σ) (ok : List ε → σ → ε → Prop) [∀ es s e, Decidable (ok es s e)] :
    List ε → σ → List ε → Option σ
  | _, s, [] => some s
  | es₀, s, e :: es => if ok es₀ s e then (step s e).bind fun s' => replay step ok (es₀ ++ [e]) s' es else none

theorem Traced.of_replay [∀ es s e, Decidable (ok es s e)] : ∀ {es es₀ : List ε} {s₀ : σ},
    replay step ok es₀ s₀ es = some s → Traced step ok es₀ s₀ (es₀ ++ es) s
  | [], es₀, s₀, h => by
    cases h
    rw [List.append_nil]
    exact .start
  | e :: es, es₀, s₀, h => by
    unfold replay at h
    split at h
    · rename_i hok
      obtain ⟨s', hs', h⟩ := Option.bind_eq_some_iff.1 h
      have := of_replay h
      rw [List.append_assoc] at this
      exact (Traced.start.snoc hok hs').trans this
    · cases h

end ParallelProbsat.Lib
