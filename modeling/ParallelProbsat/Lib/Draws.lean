/-
A search that draws numbers at random and keeps what it has found. If from every state it can be in some block of
draws finds the goal, the share of the sequences of blocks that do not find it vanishes with their number: of `d`
blocks at most `d - 1` fail each time.
-/
import Mathlib.Tactic
import Mathlib.Analysis.SpecificLimits.Basic

namespace ParallelProbsat.Lib

variable {S D : Type} (step : S → D → S)

/-- The state after some draws. -/
def drawAll (s : S) (ds : List D) : S := ds.foldl step s

variable {step}

theorem drawAll_append (s : S) (ds es : List D) : drawAll step s (ds ++ es) = drawAll step (drawAll step s ds) es :=
  List.foldl_append

theorem drawAll_cons (s : S) (d : D) (ds : List D) : drawAll step s (d :: ds) = drawAll step (step s d) ds := rfl

/-- What every draw preserves holds at the end. -/
theorem drawAll_rule {P : S → Prop} (hstep : ∀ s d, P s → P (step s d)) {s : S} (h : P s) (ds : List D) :
    P (drawAll step s ds) := by
  induction ds generalizing s with
  | nil => exact h
  | cons d ds ih => exact ih (hstep s d h)

/-- The sequences of `t` draws after which the goal is not reached. -/
noncomputable def failing [Fintype D] (step : S → D → S) (Goal : S → Prop) (s : S) (t : Nat) : Finset (Fin t → D) :=
  open Classical in Finset.univ.filter fun ds => ¬Goal (drawAll step s (List.ofFn ds))

section Failing

variable [Fintype D] {Inv Goal : S → Prop}

theorem mem_failing {s : S} {t : Nat} {ds : Fin t → D} :
    ds ∈ failing step Goal s t ↔ ¬Goal (drawAll step s (List.ofFn ds)) := by
  unfold failing
  simp

/-- A sequence that fails begins with a draw that fails, and fails after it. -/
theorem card_failing_succ (hkeep : ∀ s d, Goal s → Goal (step s d)) {s : S} {d₀ : D} (h₀ : Goal (step s d₀)) (t : Nat)
    {bound : Nat} (hrest : ∀ d, (failing step Goal (step s d) t).card ≤ bound) :
    (failing step Goal s (t + 1)).card ≤ (Fintype.card D - 1) * bound := by
  classical
  have hsub : failing step Goal s (t + 1) ⊆
      ((Finset.univ.erase d₀).sigma fun d => failing step Goal (step s d) t).image
        fun (p : Σ _ : D, Fin t → D) => (Fin.cons p.1 p.2 : Fin (t + 1) → D) := by
    intro ds hds
    have hds := mem_failing.1 hds
    rw [List.ofFn_succ, drawAll_cons] at hds
    have hne : ds 0 ≠ d₀ := by
      intro h
      rw [h] at hds
      exact hds (drawAll_rule hkeep h₀ _)
    refine Finset.mem_image.2 ⟨⟨ds 0, Fin.tail ds⟩, ?_, Fin.cons_self_tail ds⟩
    exact Finset.mem_sigma.2 ⟨Finset.mem_erase.2 ⟨hne, Finset.mem_univ _⟩, mem_failing.2 hds⟩
  calc (failing step Goal s (t + 1)).card
      ≤ ((Finset.univ.erase d₀).sigma fun d => failing step Goal (step s d) t).card :=
        (Finset.card_le_card hsub).trans Finset.card_image_le
    _ = ∑ d ∈ Finset.univ.erase d₀, (failing step Goal (step s d) t).card := Finset.card_sigma _ _
    _ ≤ (Finset.univ.erase d₀).card * bound := Finset.sum_le_card_nsmul _ _ _ fun d _ => hrest d
    _ = (Fintype.card D - 1) * bound := by rw [Finset.card_erase_of_mem (Finset.mem_univ _), Finset.card_univ]

/-- If some draw reaches the goal from every state, at most all but one fail each time. -/
theorem card_failing_le (hkeep : ∀ s d, Goal s → Goal (step s d)) (hinv : ∀ s d, Inv s → Inv (step s d))
    (hgood : ∀ s, Inv s → ∃ d, Goal (step s d)) : ∀ (t : Nat) {s : S}, Inv s →
      (failing step Goal s t).card ≤ (Fintype.card D - 1) ^ t
  | 0, s, _ => by
    rw [pow_zero]
    exact Finset.card_le_one_of_subsingleton _
  | t + 1, s, hs => by
    obtain ⟨d₀, h₀⟩ := hgood s hs
    rw [pow_succ']
    exact card_failing_succ hkeep h₀ t fun d => card_failing_le hkeep hinv hgood t (hinv s d hs)

/-- The share of the sequences that fail vanishes. -/
theorem failing_vanishes (hkeep : ∀ s d, Goal s → Goal (step s d)) (hinv : ∀ s d, Inv s → Inv (step s d))
    (hgood : ∀ s, Inv s → ∃ d, Goal (step s d)) {s : S} (hs : Inv s) :
    Filter.Tendsto (fun t => ((failing step Goal s t).card : ℝ) / Fintype.card D ^ t) Filter.atTop (nhds 0) := by
  obtain ⟨d₀, -⟩ := hgood s hs
  have hpos : 0 < Fintype.card D := Fintype.card_pos_iff.2 ⟨d₀⟩
  have hD : (0 : ℝ) < Fintype.card D := by exact_mod_cast hpos
  have hratio : ((Fintype.card D - 1 : Nat) : ℝ) / Fintype.card D < 1 := by
    rw [div_lt_one hD]
    exact_mod_cast Nat.sub_lt hpos one_pos
  refine squeeze_zero (fun t => by positivity) (fun t => ?_)
    (tendsto_pow_atTop_nhds_zero_of_lt_one (by positivity) hratio)
  rw [div_pow]
  gcongr
  exact_mod_cast card_failing_le hkeep hinv hgood t hs

end Failing

end ParallelProbsat.Lib
