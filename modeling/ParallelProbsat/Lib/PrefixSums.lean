/-
Sampling by inverse transform: the intervals between the prefix sums of positive weights cover
everything from zero up to their sum, and each value lies in exactly one of them.
-/
import Mathlib.Tactic

namespace ParallelProbsat.Lib

variable {K : Type} [AddCommGroup K] [LinearOrder K] [IsOrderedAddMonoid K]

/-- `w 0 + ... + w (k - 1)` -/
def prefixSum (w : Nat → K) (k : Nat) : K := ∑ j ∈ Finset.range k, w j

/-- `r` lies in the interval of the weight `i`. -/
def InWeight (w : Nat → K) (i : Nat) (r : K) : Prop := prefixSum w i ≤ r ∧ r < prefixSum w (i + 1)

omit [LinearOrder K] [IsOrderedAddMonoid K] in
@[simp] theorem prefixSum_zero (w : Nat → K) : prefixSum w 0 = 0 := Finset.sum_range_zero _

omit [LinearOrder K] [IsOrderedAddMonoid K] in
theorem prefixSum_succ (w : Nat → K) (k : Nat) : prefixSum w (k + 1) = prefixSum w k + w k := Finset.sum_range_succ _ _

theorem prefixSum_mono {w : Nat → K} (hw : ∀ i, 0 < w i) : StrictMono (prefixSum w) := by
  apply strictMono_nat_of_lt_succ
  intro k
  rw [prefixSum_succ]
  exact lt_add_of_pos_right _ (hw k)

/-- No value lies in two intervals. -/
theorem InWeight.unique {w : Nat → K} (hw : ∀ i, 0 < w i) {i j : Nat} {r : K} (hi : InWeight w i r)
    (hj : InWeight w j r) :
    i = j := by
  have hlt : ∀ {i j : Nat}, InWeight w i r → InWeight w j r → ¬ i < j := by
    rintro i j ⟨-, hi⟩ ⟨hj, -⟩ hij
    have : prefixSum w (i + 1) ≤ prefixSum w j := (prefixSum_mono hw).monotone hij
    exact absurd (lt_of_lt_of_le hi (this.trans hj)) (lt_irrefl r)
  have h1 := hlt hi hj
  have h2 := hlt hj hi
  omega

omit [IsOrderedAddMonoid K] in
/-- A value below the sum of all weights lies in the first interval whose end exceeds it. -/
theorem exists_inWeight {w : Nat → K} {n : Nat} {r : K} (h0 : 0 ≤ r) (hn : r < prefixSum w n) :
    ∃ i, i < n ∧ InWeight w i r ∧ ∀ j, j < i → prefixSum w (j + 1) ≤ r := by
  have hex : ∃ k, r < prefixSum w k := ⟨n, hn⟩
  -- the first prefix sum that exceeds the value is not the empty one
  obtain ⟨k, hk⟩ := Nat.exists_eq_succ_of_ne_zero (n := Nat.find hex) fun e => by
    have := Nat.find_spec hex
    rw [e, prefixSum_zero] at this
    exact absurd (lt_of_lt_of_le this h0) (lt_irrefl r)
  have hmin : ∀ j, j ≤ k → prefixSum w j ≤ r := fun j hj => not_lt.1 (Nat.find_min hex (by omega))
  refine ⟨k, ?_, ⟨hmin k le_rfl, ?_⟩, fun j hj => hmin (j + 1) hj⟩
  · have := Nat.find_min' hex hn
    omega
  · have := Nat.find_spec hex
    rwa [hk] at this

/-- An interval that is no shorter than the distance of `max + 1` evenly spaced values up to `l` has one of them. -/
theorem exists_evenly_spaced {K : Type} [Field K] [LinearOrder K] [IsStrictOrderedRing K] {l w : K} (lo : K) (max : Nat)
    (hl : 0 < l) (hw : 0 < w) (h0 : 0 ≤ lo) (hlw : lo + w ≤ l) (hgrid : l ≤ (max + 1) * w) :
    ∃ x : Nat, x ≤ max ∧ lo ≤ x / (max + 1) * l ∧ x / (max + 1) * l < lo + w := by
  have hmax : (0 : K) < max + 1 := by positivity
  have hex : ∃ x : Nat, lo ≤ (x : K) / (max + 1) * l := by
    refine ⟨max + 1, ?_⟩
    push_cast
    rw [div_self hmax.ne', one_mul]
    linarith
  have hfirst := Nat.find_spec hex
  have hbelow : (Nat.find hex : K) / (max + 1) * l < lo + w := by
    rcases Nat.eq_zero_or_pos (Nat.find hex) with h | h
    · rw [h]
      simp only [Nat.cast_zero, zero_div, zero_mul]
      linarith
    · -- the value before the first one is below the interval
      obtain ⟨k, hk⟩ := Nat.exists_eq_succ_of_ne_zero h.ne'
      have hbefore : (k : K) / (max + 1) * l < lo := not_le.1 (Nat.find_min hex (by omega))
      have hstep : l / (max + 1) ≤ w := by rwa [div_le_iff₀ hmax, mul_comm]
      calc (Nat.find hex : K) / (max + 1) * l = (k : K) / (max + 1) * l + l / (max + 1) := by
            rw [hk]
            push_cast
            ring
        _ < lo + w := by linarith
  refine ⟨Nat.find hex, ?_, hfirst, hbelow⟩
  have hlt : (Nat.find hex : K) / (max + 1) * l < 1 * l := by
    rw [one_mul]
    exact lt_of_lt_of_le hbelow hlw
  have hlt := (div_lt_one hmax).1 (lt_of_mul_lt_mul_right hlt hl.le)
  have : Nat.find hex < max + 1 := by exact_mod_cast hlt
  omega

end ParallelProbsat.Lib
