/-
`while (cond) body` with a body that may throw, on explicit fuel: a loop ends when some fuel is enough
for it to return or to throw. A measure that every round makes smaller shows that it ends; an invariant
under which the condition holds and the body returns shows that it does not.
-/
import Mathlib.Tactic

namespace ParallelProbsat.Lib

variable {σ ε : Type} (cond : σ → Bool) (body : σ → Except ε σ)

/-- The loop in at most `fuel` rounds, `none` when they are not enough. -/
def whileLoop : Nat → σ → Option (Except ε σ)
  | 0, s => if cond s then none else some (.ok s)
  | fuel + 1, s =>
    if cond s then
      match body s with
      | .error e => some (.error e)
      | .ok s' => whileLoop fuel s'
    else some (.ok s)

/-- The loop returns or throws after finitely many rounds. -/
def Ends (s : σ) : Prop := ∃ fuel r, whileLoop cond body fuel s = some r

variable {cond body} {s s' : σ}

theorem whileLoop_exit (h : cond s = false) (fuel : Nat) : whileLoop cond body fuel s = some (.ok s) := by
  cases fuel <;> simp [whileLoop, h]

theorem whileLoop_round (h : cond s = true) (hb : body s = .ok s') (fuel : Nat) :
    whileLoop cond body (fuel + 1) s = whileLoop cond body fuel s' := by
  simp [whileLoop, h, hb]

theorem whileLoop_throw {e : ε} (h : cond s = true) (hb : body s = .error e) (fuel : Nat) :
    whileLoop cond body (fuel + 1) s = some (.error e) := by
  simp [whileLoop, h, hb]

/-- The rule of invariants: what every round keeps holds when the loop returns. -/
theorem whileLoop_invariant {P : σ → Prop} (hround : ∀ s s', P s → cond s = true → body s = .ok s' → P s') :
    ∀ {fuel : Nat} {s s' : σ}, P s → whileLoop cond body fuel s = some (.ok s') → P s' ∧ cond s' = false
  | fuel, s, s', hs, h => by
    cases hc : cond s with
    | false =>
      rw [whileLoop_exit hc] at h
      cases h
      exact ⟨hs, hc⟩
    | true =>
      cases fuel with
      | zero => rw [whileLoop, if_pos hc] at h; cases h
      | succ fuel =>
        cases hb : body s with
        | error e =>
          rw [whileLoop_throw hc hb] at h
          cases h
        | ok s₁ =>
          rw [whileLoop_round hc hb] at h
          exact whileLoop_invariant hround (hround s s₁ hs hc hb) h

/-- A body that never throws makes a loop that never throws. -/
theorem whileLoop_returns (hbody : ∀ s, ∃ s', body s = .ok s') : ∀ {fuel : Nat} {s : σ} {r : Except ε σ},
    whileLoop cond body fuel s = some r → ∃ s', r = .ok s'
  | fuel, s, r, h => by
    cases hc : cond s with
    | false =>
      rw [whileLoop_exit hc] at h
      cases h
      exact ⟨s, rfl⟩
    | true =>
      cases fuel with
      | zero => rw [whileLoop, if_pos hc] at h; cases h
      | succ fuel =>
        obtain ⟨s₁, hb⟩ := hbody s
        rw [whileLoop_round hc hb] at h
        exact whileLoop_returns hbody h

namespace Ends

theorem exit (h : cond s = false) : Ends cond body s := ⟨0, _, whileLoop_exit h 0⟩

theorem throw {e : ε} (h : cond s = true) (hb : body s = .error e) : Ends cond body s :=
  ⟨1, _, whileLoop_throw h hb 0⟩

/-- A loop ends exactly when it ends after its next round. -/
theorem round (h : cond s = true) (hb : body s = .ok s') : Ends cond body s ↔ Ends cond body s' := by
  constructor
  · rintro ⟨fuel, r, hr⟩
    cases fuel with
    | zero => rw [whileLoop, if_pos h] at hr; cases hr
    | succ fuel => exact ⟨fuel, r, by rwa [whileLoop_round h hb] at hr⟩
  · rintro ⟨fuel, r, hr⟩
    exact ⟨fuel + 1, r, by rwa [whileLoop_round h hb]⟩

/-- The rule of measures: every round that returns keeps `P` and makes `m` smaller. -/
theorem of_measure {P : σ → Prop} (m : σ → Nat)
    (hround : ∀ s s', P s → cond s = true → body s = .ok s' → P s' ∧ m s' < m s) (hs : P s) : Ends cond body s := by
  have hlt : ∀ (n : Nat) (s : σ), m s < n → P s → Ends cond body s := by
    intro n
    induction n with
    | zero => intro s hn; omega
    | succ n ih =>
      intro s hn hs
      cases hc : cond s with
      | false => exact exit hc
      | true =>
        cases hb : body s with
        | error e => exact throw hc hb
        | ok s' =>
          obtain ⟨hs', hlt⟩ := hround s s' hs hc hb
          exact (round hc hb).2 (ih s' (by omega) hs')
  exact hlt _ s (Nat.lt_succ_self _) hs

/-- The rule of endless loops: under `P` there is always one more round, and it keeps `P`. -/
theorem not_of_invariant {P : σ → Prop} (hround : ∀ s, P s → cond s = true ∧ ∃ s', body s = .ok s' ∧ P s') (hs : P s) :
    ¬ Ends cond body s := by
  rintro ⟨fuel, r, hr⟩
  induction fuel generalizing s with
  | zero =>
    rw [whileLoop, if_pos (hround s hs).1] at hr
    cases hr
  | succ fuel ih =>
    obtain ⟨hc, s', hb, hs'⟩ := hround s hs
    rw [whileLoop_round hc hb] at hr
    exact ih hs' hr

end Ends

end ParallelProbsat.Lib
