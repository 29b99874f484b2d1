/-
Machines that answer the operations they are given or refuse them, and forward simulation between
two of them: a relation that every operation the specification answers keeps, with the same answer
up to `view`. Then whatever sequence the specification answers, the machine answers alike.
-/
import Mathlib.Tactic

namespace ParallelProbsat.Lib

variable {σ τ υ ι ο ω : Type}

/-- The answers to a list of operations, taken one after the other; `none` when one is refused. -/
def answers (step : σ → ι → Option (ο × σ)) : σ → List ι → Option (List ο)
  | _, [] => some []
  | s, i :: is => (step s i).bind fun r => (answers step r.2 is).map (r.1 :: ·)

/-- Wherever `spec` answers, `step` answers the same up to `view`, and `R` holds again. -/
def Simulates (R : τ → σ → Prop) (view : ο → ω) (spec : τ → ι → Option (ω × τ)) (step : σ → ι → Option (ο × σ)) :
    Prop :=
  ∀ a s i w a', R a s → spec a i = some (w, a') → ∃ o s', step s i = some (o, s') ∧ view o = w ∧ R a' s'

theorem answers_cons (step : σ → ι → Option (ο × σ)) {s s' : σ} {i : ι} {o : ο} (h : step s i = some (o, s'))
    (is : List ι) : answers step s (i :: is) = (answers step s' is).map (o :: ·) := by
  rw [answers, h]
  rfl

theorem answers_cons_none (step : σ → ι → Option (ο × σ)) {s : σ} {i : ι} (h : step s i = none) (is : List ι) :
    answers step s (i :: is) = none := by
  rw [answers, h]
  rfl

theorem answers_cons_eq_some {step : σ → ι → Option (ο × σ)} {s : σ} {i : ι} {is : List ι} {os : List ο}
    (h : answers step s (i :: is) = some os) :
    ∃ o s' os', step s i = some (o, s') ∧ answers step s' is = some os' ∧ os = o :: os' := by
  unfold answers at h
  obtain ⟨⟨o, s'⟩, hs, h⟩ := Option.bind_eq_some_iff.1 h
  obtain ⟨os', ho, h⟩ := Option.map_eq_some_iff.1 h
  exact ⟨o, s', os', hs, ho, h.symm⟩

/-- The run lemma of a simulation. -/
theorem Simulates.run {R : τ → σ → Prop} {view : ο → ω} {spec : τ → ι → Option (ω × τ)}
    {step : σ → ι → Option (ο × σ)} (h : Simulates R view spec step) {a : τ} {s : σ} {is : List ι} {ws : List ω}
    (hR : R a s) (hs : answers spec a is = some ws) : ∃ os, answers step s is = some os ∧ os.map view = ws := by
  induction is generalizing a s ws with
  | nil =>
    cases hs
    exact ⟨[], rfl, rfl⟩
  | cons i is ih =>
    obtain ⟨w, a', ws', h1, h2, rfl⟩ := answers_cons_eq_some hs
    obtain ⟨o, s', h3, rfl, hR'⟩ := h a s i w a' hR h1
    obtain ⟨os, h4, rfl⟩ := ih hR' h2
    refine ⟨o :: os, ?_, rfl⟩
    rw [answers_cons step h3, h4]
    rfl

/-- Two machines that simulate one specification answer alike. -/
theorem Simulates.agree {R : τ → σ → Prop} {R' : τ → υ → Prop} {spec : τ → ι → Option (ο × τ)}
    {step : σ → ι → Option (ο × σ)} {step' : υ → ι → Option (ο × υ)} (h : Simulates R id spec step)
    (h' : Simulates R' id spec step') {a : τ} {s : σ} {s' : υ} {is : List ι} {ws : List ο} (hR : R a s) (hR' : R' a s')
    (hs : answers spec a is = some ws) : answers step s is = answers step' s' is := by
  obtain ⟨os, h1, h2⟩ := h.run hR hs
  obtain ⟨os', h3, h4⟩ := h'.run hR' hs
  rw [h1, h3, ← List.map_id os, h2, ← h4, List.map_id]

/-! ## Several machines side by side -/

theorem forall₂_getElem? {R : τ → σ → Prop} {as : List τ} {bs : List σ} (h : List.Forall₂ R as bs) {k : Nat} {a : τ}
    (ha : as[k]? = some a) : ∃ b, bs[k]? = some b ∧ R a b := by
  induction h generalizing k with
  | nil => cases ha
  | @cons a' b _ _ hab _ ih =>
    cases k with
    | zero =>
      cases ha
      exact ⟨b, rfl, hab⟩
    | succ k => exact ih ha

theorem forall₂_set {R : τ → σ → Prop} {as : List τ} {bs : List σ} (h : List.Forall₂ R as bs) {a : τ} {b : σ}
    (hab : R a b) (k : Nat) : List.Forall₂ R (as.set k a) (bs.set k b) := by
  induction h generalizing k with
  | nil => exact .nil
  | cons h1 h ih =>
    cases k with
    | zero => exact .cons hab h
    | succ k => exact .cons h1 (ih k)

end ParallelProbsat.Lib
