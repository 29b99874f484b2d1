/-
The generator of `sat/random_generator.hpp`: what a run of the solver draws from it. Its `std::minstd_rand` multiplies
by 48271 modulo the prime 2147483647, of which 48271 is a primitive root.
-/
import ParallelProbsat.Lib.Congruential
import ParallelProbsat.Probsat

namespace ParallelProbsat.Probsat

open ParallelProbsat.Lib ParallelProbsat.Util

namespace LinCongRandomGenerator

/-! ## The engine -/

/-- The prime factors of the number of states. -/
theorem prime_dvd_states {q : Nat} (hq : q.Prime) (h : q ∣ modulus - 1) : q ∈ [2, 3, 7, 11, 31, 151, 331] := by
  have hprod : modulus - 1 = [2, 3, 3, 7, 11, 31, 151, 331].prod := by decide
  rw [hprod] at h
  obtain ⟨p, hp, hqp⟩ := hq.prime.dvd_prod_iff.1 h
  have hprime : ∀ p ∈ [2, 3, 3, 7, 11, 31, 151, 331], Nat.Prime p := by
    intro p hp
    simp only [List.mem_cons, List.not_mem_nil, or_false] at hp
    rcases hp with rfl | rfl | rfl | rfl | rfl | rfl | rfl | rfl <;> norm_num
  obtain rfl := (Nat.prime_dvd_prime_iff_eq hq (hprime p hp)).1 hqp
  simpa using hp

theorem pow_modulus {k : Nat} (hk : k < 2 ^ 31) : 48271 ^ k % modulus = powMod modulus 31 48271 k :=
  (powMod_eq modulus 31 48271 hk).symm

theorem lucasTest : LucasTest 48271 modulus where
  returns := by
    rw [pow_modulus (by decide)]
    decide +kernel
  notBefore q hq h := by
    have hmem := prime_dvd_states hq h
    have htest : ∀ q ∈ [2, 3, 7, 11, 31, 151, 331], powMod modulus 31 48271 ((modulus - 1) / q) ≠ 1 := by decide +kernel
    rw [pow_modulus (lt_of_le_of_lt (Nat.div_le_self _ _) (by decide))]
    exact htest q hmem

/-- The engine is in one of its states. -/
def Seeded (g : LinCongRandomGenerator) : Prop := g.engine ∈ Finset.Ico 1 modulus

/-- The generator after `k` calls of `rand`. -/
def advance (g : LinCongRandomGenerator) : Nat → LinCongRandomGenerator
  | 0 => g
  | k + 1 => (g.advance k).rand.2

/-- What the call after `k` calls returns. -/
def number (g : LinCongRandomGenerator) (k : Nat) : Nat := (g.advance k).rand.1

theorem ofSeed_seeded (seed : Nat) : (ofSeed seed).Seeded := by
  have := Nat.mod_lt seed (show 0 < modulus by decide)
  unfold Seeded ofSeed
  rw [Finset.mem_Ico]
  simp only
  split
  · exact ⟨le_rfl, by decide⟩
  · omega

theorem rand_eq (g : LinCongRandomGenerator) : g.rand = (congruential 48271 modulus g.engine - 1,
    { g with engine := congruential 48271 modulus g.engine }) := rfl

theorem advance_eq (g : LinCongRandomGenerator) (k : Nat) :
    g.advance k = { g with engine := (congruential 48271 modulus)^[k] g.engine } := by
  induction k with
  | zero => rfl
  | succ k ih =>
    unfold advance
    rw [ih, rand_eq, Function.iterate_succ_apply']

theorem number_eq (g : LinCongRandomGenerator) (k : Nat) :
    g.number k = (congruential 48271 modulus)^[k + 1] g.engine - 1 := by
  unfold number
  rw [advance_eq, rand_eq, Function.iterate_succ_apply']

theorem advance_add (g : LinCongRandomGenerator) (j k : Nat) : g.advance (j + k) = (g.advance j).advance k := by
  rw [advance_eq, advance_eq, advance_eq, Nat.add_comm, Function.iterate_add_apply]

theorem number_succ (g : LinCongRandomGenerator) (k : Nat) : g.number (k + 1) = g.rand.2.number k := by
  unfold number
  rw [Nat.add_comm, advance_add]
  rfl

theorem Seeded.advance {g : LinCongRandomGenerator} (h : g.Seeded) (k : Nat) : (g.advance k).Seeded := by
  unfold Seeded
  rw [advance_eq]
  exact iterate_congruential_mem lucasTest.prime lucasTest.multiplier_ne_zero h k

/-! ## The numbers it returns -/

/-- From any state every number up to the largest one comes once before the first one comes again. -/
theorem Seeded.numbers_perm {g : LinCongRandomGenerator} (h : g.Seeded) :
    ((List.range (getRandMax + 1)).map g.number).Perm (List.range (getRandMax + 1)) := by
  have hmax : getRandMax + 1 = modulus - 1 := rfl
  have hnext : congruential 48271 modulus g.engine ∈ Finset.Ico 1 modulus :=
    iterate_congruential_mem lucasTest.prime lucasTest.multiplier_ne_zero h 1
  have hall := lucasTest.image_eq hnext
  have hiter : ∀ k, g.number k = (congruential 48271 modulus)^[k] (congruential 48271 modulus g.engine) - 1 :=
    fun k => by
    rw [number_eq, Function.iterate_succ_apply]
  -- the state after `k` more steps is one of the states, and each of them is reached
  have hstate : ∀ k < modulus - 1, (congruential 48271 modulus)^[k] (congruential 48271 modulus g.engine) ∈
      Finset.Ico 1 modulus :=
    fun k hk => by
      rw [← hall]
      exact Finset.mem_image_of_mem _ (Finset.mem_range.2 hk)
  rw [hmax]
  apply (List.perm_ext_iff_of_nodup ?_ List.nodup_range).2
  · intro y
    rw [List.mem_map, List.mem_range]
    constructor
    · rintro ⟨k, hk, rfl⟩
      have := Finset.mem_Ico.1 (hstate k (List.mem_range.1 hk))
      rw [hiter]
      omega
    · intro hy
      have hmem : y + 1 ∈ Finset.Ico 1 modulus := Finset.mem_Ico.2 (by omega)
      rw [← hall] at hmem
      obtain ⟨k, hk, hky⟩ := Finset.mem_image.1 hmem
      refine ⟨k, List.mem_range.2 (Finset.mem_range.1 hk), ?_⟩
      rw [hiter, hky, Nat.add_sub_cancel]
  · refine List.nodup_range.map_on ?_
    intro j hj k hk hjk
    have hj := List.mem_range.1 hj
    have hk := List.mem_range.1 hk
    have h1 := Finset.mem_Ico.1 (hstate j hj)
    have h2 := Finset.mem_Ico.1 (hstate k hk)
    rw [hiter, hiter] at hjk
    apply lucasTest.injOn hnext (Finset.mem_coe.2 (Finset.mem_range.2 hj)) (Finset.mem_coe.2 (Finset.mem_range.2 hk))
    simp only
    omega

/-- Whatever its seed and however many numbers were drawn, the generator returns every number up to `get_rand_max` once
in the next `get_rand_max + 1` calls, and then is in the state it was in before. -/
theorem rand_cycle (seed j : Nat) :
    ((List.range (getRandMax + 1)).map ((ofSeed seed).advance j).number).Perm (List.range (getRandMax + 1)) ∧
      (ofSeed seed).advance (j + (getRandMax + 1)) = (ofSeed seed).advance j := by
  have h := (ofSeed_seeded seed).advance j
  refine ⟨h.numbers_perm, ?_⟩
  rw [advance_add, advance_eq]
  have hback : (congruential 48271 modulus)^[getRandMax + 1] ((ofSeed seed).advance j).engine = _ :=
    lucasTest.returns_to h
  rw [hback]

end LinCongRandomGenerator

/-! ## The start assignments -/

open LinCongRandomGenerator

/-- A number is drawn for every variable. -/
theorem doInitConfiguration_snd (n : Int) (b : Bitfield) (g : LinCongRandomGenerator) :
    (doInitConfiguration n b g).2 = g.advance n.toNat := by
  refine foldl_range (P := fun k (acc : Bitfield × LinCongRandomGenerator) => acc.2 = g.advance k) rfl ?_
  intro i acc _ hacc
  show acc.2.rand.2 = _
  rw [hacc]
  rfl

/-- The start assignment of a variable is the last bit of the number drawn for it. -/
theorem read_doInitConfiguration {n : Int} {b : Bitfield} (hb : IsConfiguration n b)
    (g : LinCongRandomGenerator) {v : Int}
    (h0 : 0 ≤ v) (hv : v < n) : (doInitConfiguration n b g).1.read v = (g.number v.toNat % 2 != 0) := by
  have h := foldl_range (n := n.toNat) (f := fun (acc : Bitfield × LinCongRandomGenerator) (i : Nat) =>
      (acc.1.assign i (acc.2.rand.1 % 2 != 0), acc.2.rand.2)) (s := (b, g))
    (P := fun k acc => IsConfiguration n acc.1 ∧ acc.2 = g.advance k ∧
      ∀ w : Int, 0 ≤ w → w < k → acc.1.read w = (g.number w.toNat % 2 != 0))
    ⟨hb, rfl, fun w h0 hw => absurd hw (by omega)⟩ fun i acc hi hacc => ?_
  · exact h.2.2 v h0 (by omega)
  · obtain ⟨⟨hlen, hwf⟩, hg, hread⟩ := hacc
    have hi' : (i : Int) < acc.1.length := by rw [hlen]; omega
    refine ⟨⟨by rw [Bitfield.length_assign, hlen], .assign (by omega) hi' _⟩, by rw [hg]; rfl, fun w h0 hw => ?_⟩
    rw [Bitfield.read_assign hwf _ (by rw [hlen]; omega)]
    rcases eq_or_ne w (i : Int) with rfl | hne
    · rw [if_pos rfl, hg]
      rfl
    · rw [if_neg hne]
      exact hread w h0 (by omega)

/-- Of the numbers from 1 to `2 * k` every other one leaves an odd number when 1 is taken away. -/
theorem card_odd_pred (k : Nat) : ((Finset.Ico 1 (2 * k + 1)).filter fun y => (y - 1) % 2 ≠ 0).card = k := by
  induction k with
  | zero => rfl
  | succ k ih =>
    have hsplit : Finset.Ico 1 (2 * (k + 1) + 1) =
        insert (2 * k + 2) (insert (2 * k + 1) (Finset.Ico 1 (2 * k + 1))) := by
      ext y
      simp only [Finset.mem_insert, Finset.mem_Ico]
      omega
    have h2 : (2 * k + 2 - 1) % 2 ≠ 0 := by omega
    have h1 : ¬(2 * k + 1 - 1) % 2 ≠ 0 := by omega
    rw [hsplit, Finset.filter_insert, if_pos h2, Finset.filter_insert, if_neg h1, Finset.card_insert_of_notMem, ih]
    simp

/-- The start assignments are balanced: whatever the variable, half of the seeds below the modulus make it true. -/
theorem start_balanced {n : Int} {b : Bitfield} (hb : IsConfiguration n b) {v : Int} (h0 : 0 ≤ v) (hv : v < n) :
    2 * ((Finset.Ico 1 modulus).filter fun seed => (doInitConfiguration n b (ofSeed seed)).1.read v = true).card =
      modulus - 1 := by
  have hbij := pow_mul_bijOn lucasTest.prime lucasTest.multiplier_ne_zero (v.toNat + 1)
  -- the number drawn for the variable is one less than the state, and the states are permuted
  have hread : ∀ seed ∈ Finset.Ico 1 modulus, (doInitConfiguration n b (ofSeed seed)).1.read v = true ↔
      (48271 ^ (v.toNat + 1) * seed % modulus - 1) % 2 ≠ 0 := by
    intro seed hseed
    obtain ⟨h1, hlt⟩ := Finset.mem_Ico.1 hseed
    have hengine : (ofSeed seed).engine = seed := by
      unfold ofSeed
      rw [Nat.mod_eq_of_lt hlt, if_neg (by omega)]
    rw [read_doInitConfiguration hb _ h0 hv, number_eq, hengine, iterate_congruential _ _ hlt]
    simp
  have hcount : ((Finset.Ico 1 modulus).filter fun seed =>
    (doInitConfiguration n b (ofSeed seed)).1.read v = true).card =
      ((Finset.Ico 1 modulus).filter fun y => (y - 1) % 2 ≠ 0).card := by
    refine Finset.card_nbij (fun seed => 48271 ^ (v.toNat + 1) * seed % modulus) ?_ ?_ ?_
    · intro seed hseed
      obtain ⟨hseed, hodd⟩ := Finset.mem_filter.1 hseed
      exact Finset.mem_filter.2 ⟨Finset.mem_coe.1 (hbij.mapsTo (Finset.mem_coe.2 hseed)), (hread seed hseed).1 hodd⟩
    · refine hbij.injOn.mono ?_
      exact Finset.coe_subset.2 (Finset.filter_subset _ _)
    · intro y hy
      obtain ⟨hy, hodd⟩ := Finset.mem_filter.1 (Finset.mem_coe.1 hy)
      obtain ⟨seed, hseed, rfl⟩ := hbij.surjOn (Finset.mem_coe.2 hy)
      have hseed := Finset.mem_coe.1 hseed
      exact ⟨seed, Finset.mem_coe.2 (Finset.mem_filter.2 ⟨hseed, (hread seed hseed).2 hodd⟩), rfl⟩
  have hmod : modulus = 2 * 1073741823 + 1 := rfl
  rw [hcount, hmod, card_odd_pred, Nat.add_sub_cancel]

theorem start_balanced_threeVars : ∃ b, IsConfiguration 3 b ∧ ∀ v : Int, 0 ≤ v → v < 3 →
    2 * ((Finset.Ico 1 modulus).filter fun seed => (doInitConfiguration 3 b (ofSeed seed)).1.read v = true).card =
      modulus - 1 := by
  have hb : IsConfiguration 3 ⟨3, 3, false, 5⟩ := ⟨rfl, by decide, by decide⟩
  exact ⟨_, hb, fun v h0 hv => start_balanced hb h0 hv⟩

end ParallelProbsat.Probsat
