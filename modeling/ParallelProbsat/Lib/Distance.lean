/-
The distance of two assignments: the number of variables below a bound in which they differ. A flip changes it by
one at most, and a clause that is satisfied by one of them only has a literal whose flip brings them nearer.
-/
import ParallelProbsat.Lib.Cnf

namespace ParallelProbsat.Lib

/-- The variables below `n` that have different values. -/
def differing (n : Int) (a b : Int → Bool) : Finset Nat := (Finset.range n.toNat).filter fun v => a v ≠ b v

/-- The Hamming distance. -/
def distance (n : Int) (a b : Int → Bool) : Nat := (differing n a b).card

theorem mem_differing {n : Int} {a b : Int → Bool} {v : Nat} : v ∈ differing n a b ↔ (v : Int) < n ∧ a v ≠ b v := by
  unfold differing
  rw [Finset.mem_filter, Finset.mem_range, Int.lt_toNat]

theorem distance_congr {n : Int} {a a' b b' : Int → Bool} (ha : ∀ v, 0 ≤ v → v < n → a v = a' v)
    (hb : ∀ v, 0 ≤ v → v < n → b v = b' v) : distance n a b = distance n a' b' := by
  unfold distance
  congr 1
  ext v
  rw [mem_differing, mem_differing]
  refine and_congr_right fun hv => ?_
  rw [ha v (Int.natCast_nonneg v) hv, hb v (Int.natCast_nonneg v) hv]

/-- Assignments at distance 0 agree. -/
theorem eq_of_distance_zero {n : Int} {a b : Int → Bool} (h : distance n a b = 0) {v : Int} (h0 : 0 ≤ v) (hv : v < n) :
    a v = b v := by
  obtain ⟨v, rfl⟩ := Int.eq_ofNat_of_zero_le h0
  by_contra hne
  have hmem : v ∈ differing n a b := mem_differing.2 ⟨hv, hne⟩
  rw [Finset.card_eq_zero.1 h] at hmem
  exact Finset.notMem_empty v hmem

theorem distance_self (n : Int) (a : Int → Bool) : distance n a a = 0 := by
  apply Finset.card_eq_zero.2
  ext v
  simp [mem_differing]

/-- There are no more variables to differ in than there are variables. -/
theorem distance_le (n : Int) (a b : Int → Bool) : distance n a b ≤ n.toNat := by
  calc (differing n a b).card ≤ (Finset.range n.toNat).card := Finset.card_le_card (Finset.filter_subset _ _)
    _ = n.toNat := Finset.card_range _

/-- A flip brings an assignment nearer by one at most. -/
theorem distance_le_flip (n : Int) (a b : Int → Bool) (v : Int) : distance n a b ≤ distance n (flipVar a v) b + 1 := by
  have hsub : differing n a b ⊆ insert v.toNat (differing n (flipVar a v) b) := by
    intro w hw
    obtain ⟨hrange, hne⟩ := mem_differing.1 hw
    rcases eq_or_ne (w : Int) v with rfl | hwv
    · exact Finset.mem_insert_self _ _
    · refine Finset.mem_insert_of_mem (mem_differing.2 ⟨hrange, ?_⟩)
      unfold flipVar
      rwa [if_neg hwv]
  exact (Finset.card_le_card hsub).trans (Finset.card_insert_le _ _)

/-- Flipping a variable that differs brings them nearer by one. -/
theorem distance_flip {n : Int} {a b : Int → Bool} {v : Int} (h0 : 0 ≤ v) (hv : v < n) (hne : a v ≠ b v) :
    distance n (flipVar a v) b + 1 = distance n a b := by
  obtain ⟨v, rfl⟩ := Int.eq_ofNat_of_zero_le h0
  have herase : differing n (flipVar a v) b = (differing n a b).erase v := by
    ext w
    rw [Finset.mem_erase, mem_differing, mem_differing]
    unfold flipVar
    rcases eq_or_ne w v with rfl | hwv
    · have hflip : (!a w) = b w := Bool.not_eq.2 hne
      simp [hflip]
    · simp [hwv]
  unfold distance
  rw [herase]
  exact Finset.card_erase_add_one (mem_differing.2 ⟨hv, hne⟩)

/-- A clause that `b` alone satisfies has a literal that is true under `b` and false under `a`. -/
theorem exists_nearer {a b : Int → Bool} {c : List Int} (ha : clauseSat a c = false) (hb : clauseSat b c = true) :
    ∃ l ∈ c, litTrue a l = false ∧ a (varIndex l) ≠ b (varIndex l) := by
  obtain ⟨l, hl, htrue⟩ := List.any_eq_true.1 hb
  have hfalse : litTrue a l = false := by
    have := List.any_eq_false.1 ha l hl
    simpa using this
  refine ⟨l, hl, hfalse, ?_⟩
  intro heq
  rw [litTrue_congr heq, htrue] at hfalse
  cases hfalse

end ParallelProbsat.Lib
