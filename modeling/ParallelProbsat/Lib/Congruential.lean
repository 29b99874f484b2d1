/-
Multiplicative congruential generators: the state is multiplied by `a` modulo `m`. For a prime `m` the states from 1
to `m - 1` stay among themselves, and when `a` is a primitive root they form a single cycle. Both follow from Lucas's
test for `m` with the base `a`.
-/
import Mathlib.Tactic
import Mathlib.NumberTheory.LucasPrimality

namespace ParallelProbsat.Lib

/-- One step of the generator. -/
def congruential (a m x : Nat) : Nat := a * x % m

/-- `a ^ k % m` by squaring, for an exponent of at most so many binary digits. -/
def powMod (m : Nat) : Nat → Nat → Nat → Nat
  | 0, _, _ => 1 % m
  | bits + 1, a, k => if k % 2 = 0 then powMod m bits (a * a % m) (k / 2) else a * powMod m bits (a * a % m) (k / 2) % m

theorem powMod_eq (m : Nat) : ∀ (bits a : Nat) {k : Nat}, k < 2 ^ bits → powMod m bits a k = a ^ k % m
  | 0, a, k, h => by
    obtain rfl : k = 0 := by simpa using h
    rfl
  | bits + 1, a, k, h => by
    have hhalf : powMod m bits (a * a % m) (k / 2) = a ^ (2 * (k / 2)) % m := by
      rw [powMod_eq m bits _ (by rw [pow_succ] at h; omega), ← Nat.pow_mod, pow_mul, pow_two]
    unfold powMod
    split
    · rename_i heven
      rw [hhalf, Nat.mul_div_cancel' (Nat.dvd_of_mod_eq_zero heven)]
    · have hodd : k = 2 * (k / 2) + 1 := by omega
      rw [hhalf, Nat.mul_mod_mod, ← pow_succ', ← hodd]

/-- Lucas's test: the powers of `a` return to 1 modulo `m` after `m - 1` steps, and not after any of the prime parts
of that many. -/
structure LucasTest (a m : Nat) : Prop where
  returns : a ^ (m - 1) % m = 1
  notBefore : ∀ q, q.Prime → q ∣ m - 1 → a ^ ((m - 1) / q) % m ≠ 1

section Lucas

variable {a m : Nat} (h : LucasTest a m)
include h

theorem LucasTest.two_le : 2 ≤ m := by
  rcases m with _ | _ | m
  · exact absurd h.returns (h.notBefore 2 Nat.prime_two (dvd_zero 2))
  · exact absurd h.returns (h.notBefore 2 Nat.prime_two (dvd_zero 2))
  · omega

theorem LucasTest.pow_eq_one_iff (k : Nat) : (a : ZMod m) ^ k = 1 ↔ a ^ k % m = 1 := by
  rw [← Nat.cast_pow, ← Nat.cast_one, ZMod.natCast_eq_natCast_iff', Nat.one_mod_eq_one.2 (by have := h.two_le; omega)]

theorem LucasTest.prime : m.Prime := by
  refine lucas_primality m a ((h.pow_eq_one_iff _).2 h.returns) ?_
  intro q hq hd
  rw [Ne, h.pow_eq_one_iff]
  exact h.notBefore q hq hd

theorem LucasTest.orderOf_eq : orderOf (a : ZMod m) = m - 1 := by
  refine orderOf_eq_of_pow_and_pow_div_prime (by have := h.two_le; omega) ((h.pow_eq_one_iff _).2 h.returns) ?_
  intro q hq hd
  rw [Ne, h.pow_eq_one_iff]
  exact h.notBefore q hq hd

theorem LucasTest.multiplier_ne_zero : (a : ZMod m) ≠ 0 := by
  have : Fact m.Prime := ⟨h.prime⟩
  intro h0
  have hone := (h.pow_eq_one_iff _).2 h.returns
  rw [h0, zero_pow (by have := h.two_le; omega)] at hone
  exact zero_ne_one hone

end Lucas

/-! ## Steps -/

/-- After `k` steps the state is multiplied by the `k`-th power. -/
theorem iterate_congruential (a m : Nat) {x : Nat} (hx : x < m) (k : Nat) :
    (congruential a m)^[k] x = a ^ k * x % m := by
  induction k with
  | zero => rw [Function.iterate_zero_apply, pow_zero, one_mul, Nat.mod_eq_of_lt hx]
  | succ k ih =>
    rw [Function.iterate_succ_apply', ih]
    unfold congruential
    rw [Nat.mul_mod_mod, ← mul_assoc, ← pow_succ']

/-- Multiplying by a power of `a` permutes the states from 1 to `m - 1`. -/
theorem pow_mul_bijOn {a m : Nat} (hm : m.Prime) (ha : (a : ZMod m) ≠ 0) (k : Nat) :
    Set.BijOn (fun x => a ^ k * x % m) (Finset.Ico 1 m) (Finset.Ico 1 m) := by
  have : Fact m.Prime := ⟨hm⟩
  have hpow : ((a ^ k : Nat) : ZMod m) ≠ 0 := by
    rw [Nat.cast_pow]
    exact pow_ne_zero k ha
  have hmaps : Set.MapsTo (fun x => a ^ k * x % m) (Finset.Ico 1 m) (Finset.Ico 1 m) := by
    intro x hx
    obtain ⟨h1, hlt⟩ := Finset.mem_Ico.1 hx
    refine Finset.mem_coe.2 (Finset.mem_Ico.2 ⟨Nat.one_le_iff_ne_zero.2 ?_, Nat.mod_lt _ hm.pos⟩)
    intro h0
    have hzero : ((a ^ k * x : Nat) : ZMod m) = 0 := (ZMod.natCast_eq_zero_iff _ _).2 (Nat.dvd_of_mod_eq_zero h0)
    rw [Nat.cast_mul] at hzero
    rcases mul_eq_zero.1 hzero with h | h
    · exact hpow h
    · exact absurd (Nat.le_of_dvd h1 ((ZMod.natCast_eq_zero_iff _ _).1 h)) (by omega)
  have hinj : Set.InjOn (fun x => a ^ k * x % m) (Finset.Ico 1 m) := by
    intro x hx y hy hxy
    have hx := Finset.mem_Ico.1 hx
    have hy := Finset.mem_Ico.1 hy
    have hcast : ((a ^ k * x : Nat) : ZMod m) = (a ^ k * y : Nat) := (ZMod.natCast_eq_natCast_iff' _ _ _).2 hxy
    rw [Nat.cast_mul, Nat.cast_mul] at hcast
    have := (ZMod.natCast_eq_natCast_iff' _ _ _).1 (mul_left_cancel₀ hpow hcast)
    rwa [Nat.mod_eq_of_lt hx.2, Nat.mod_eq_of_lt hy.2] at this
  exact ⟨hmaps, hinj, Finset.surjOn_of_injOn_of_card_le _ hmaps hinj le_rfl⟩

theorem iterate_congruential_mem {a m : Nat} (hm : m.Prime) (ha : (a : ZMod m) ≠ 0) {x : Nat}
    (hx : x ∈ Finset.Ico 1 m) (k : Nat) : (congruential a m)^[k] x ∈ Finset.Ico 1 m := by
  rw [iterate_congruential a m (Finset.mem_Ico.1 hx).2]
  exact Finset.mem_coe.1 ((pow_mul_bijOn hm ha k).mapsTo (Finset.mem_coe.2 hx))

/-! ## The cycle -/

section Cycle

variable {a m : Nat} (h : LucasTest a m) {x : Nat} (hx : x ∈ Finset.Ico 1 m)
include h hx

/-- After `m - 1` steps the generator is where it was. -/
theorem LucasTest.returns_to : (congruential a m)^[m - 1] x = x := by
  have hlt := (Finset.mem_Ico.1 hx).2
  rw [iterate_congruential a m hlt, Nat.mul_mod, h.returns, one_mul, Nat.mod_mod, Nat.mod_eq_of_lt hlt]

/-- No two of the `m - 1` states before that are the same. -/
theorem LucasTest.injOn : Set.InjOn (fun k => (congruential a m)^[k] x) (Finset.range (m - 1)) := by
  have : Fact m.Prime := ⟨h.prime⟩
  obtain ⟨h1, hlt⟩ := Finset.mem_Ico.1 hx
  have hx0 : (x : ZMod m) ≠ 0 := fun h0 => absurd (Nat.le_of_dvd h1 ((ZMod.natCast_eq_zero_iff _ _).1 h0)) (by omega)
  intro j hj k hk hjk
  simp only [iterate_congruential a m hlt] at hjk
  have hcast : ((a ^ j * x : Nat) : ZMod m) = (a ^ k * x : Nat) := (ZMod.natCast_eq_natCast_iff' _ _ _).2 hjk
  rw [Nat.cast_mul, Nat.cast_mul, Nat.cast_pow, Nat.cast_pow] at hcast
  have hpow := mul_right_cancel₀ hx0 hcast
  rw [← h.orderOf_eq] at hj hk
  exact pow_injOn_Iio_orderOf (Finset.mem_range.1 hj) (Finset.mem_range.1 hk) hpow

/-- They are all states. -/
theorem LucasTest.image_eq : (Finset.range (m - 1)).image (fun k => (congruential a m)^[k] x) = Finset.Ico 1 m := by
  refine Finset.eq_of_subset_of_card_le ?_ ?_
  · intro y hy
    obtain ⟨k, -, rfl⟩ := Finset.mem_image.1 hy
    exact iterate_congruential_mem h.prime h.multiplier_ne_zero hx k
  · rw [Finset.card_image_of_injOn (h.injOn hx), Finset.card_range, Nat.card_Ico]

end Cycle

end ParallelProbsat.Lib
