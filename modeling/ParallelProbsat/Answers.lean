/-
What `main` of `probsat.cpp` answers for a formula that was written to a file: the formula is read and indexed, and
whatever the seeds, a solution is reported only when the assignment of the solver satisfies it. With a limit of the
flips every run ends.

The rounds of the solving loop are those of the search on the numbers of the generator, so that what holds of the search
on any numbers holds of the program.
-/
import ParallelProbsat.Generator
import ParallelProbsat.Iterations
import ParallelProbsat.Sat.Completeness
import ParallelProbsat.Sat.Layouts
import ParallelProbsat.Sat.Streams
import ParallelProbsat.Sat.WrittenFormula

namespace ParallelProbsat.Sat

open ParallelProbsat.Lib ParallelProbsat.Util

/-! ## Loading a written formula -/

theorem Writable.isLiteral {n : Int} {clauses : List Clause} (hf : Writable n clauses) {c : Clause}
    (hc : c ∈ clauses) {l : Int} (hl : l ∈ c) : l ≠ 0 ∧ varIndex l < n := by
  obtain ⟨h0, hle⟩ := hf.literal c hc l hl
  refine ⟨h0, ?_⟩
  unfold varIndex
  omega

end ParallelProbsat.Sat

namespace ParallelProbsat.Probsat

open ParallelProbsat.Lib ParallelProbsat.Util ParallelProbsat.Sat
open SerialInstance (solveWith solveWith_cons solveRound_found solveRound_running Satisfies)

section Solving

variable {K : Type} [Field K] [LinearOrder K] [IsStrictOrderedRing K]

/-! ## The rounds of the loop as a search on the numbers of the generator -/

omit [LinearOrder K] [IsStrictOrderedRing K] in
theorem getRandomValue_eq (r : Nat) : (getRandomValue r : K → K) =
    SerialInstance.getRandomValue r LinCongRandomGenerator.getRandMax := by
  funext l
  unfold getRandomValue SerialInstance.getRandomValue
  push_cast
  rfl

/-- The numbers the next `k` calls of `rand` return. -/
def numbers (g : LinCongRandomGenerator) (k : Nat) : List Nat := (List.range k).map g.number

theorem numbers_succ (g : LinCongRandomGenerator) (k : Nat) : numbers g (k + 1) = g.rand.1 :: numbers g.rand.2 k := by
  unfold numbers
  rw [List.range_succ_eq_map, List.map_cons, List.map_map]
  congr 1
  exact List.map_congr_left fun j _ => g.number_succ j

omit [IsStrictOrderedRing K] in
/-- The states before the first solution are those of the search. -/
theorem after_eq_solveWith (F : CnfFormula) (calcF : Int → K) :
    ∀ (n : Nat) (rgen : LinCongRandomGenerator) (s : SerialInstance),
    (∀ m < n, (after F calcF rgen s m).foundSolution = false) →
    after F calcF rgen s n = solveWith F calcF LinCongRandomGenerator.getRandMax s (numbers rgen n)
  | 0, _, _, _ => rfl
  | n + 1, rgen, s, hrun => by
    have hrun0 : s.foundSolution = false := hrun 0 (Nat.succ_pos n)
    rw [numbers_succ, solveWith_cons, solveRound_running calcF _ hrun0, ← getRandomValue_eq]
    exact after_eq_solveWith F calcF n rgen.rand.2 _ fun m hm => hrun (m + 1) (by omega)

theorem rand_le (g : LinCongRandomGenerator) : g.rand.1 ≤ LinCongRandomGenerator.getRandMax := by
  have := Nat.mod_lt (48271 * g.engine) (show 0 < LinCongRandomGenerator.modulus by decide)
  unfold LinCongRandomGenerator.rand LinCongRandomGenerator.getRandMax
  simp only
  omega

theorem numbers_le (g : LinCongRandomGenerator) (k : Nat) :
    ∀ x ∈ numbers g k, x ≤ LinCongRandomGenerator.getRandMax := by
  intro x hx
  obtain ⟨j, -, rfl⟩ := List.mem_map.1 hx
  exact rand_le _

/-! ## The answers -/

omit [IsStrictOrderedRing K] in
/-- The loop stops at the first solution, when the limit allows so many flips. -/
theorem solveReporting_found (F : CnfFormula) (calcF : Int → K) (maxFlips n : Nat) :
    ∀ (fuel : Nat) (rgen : LinCongRandomGenerator)
    (s : SerialInstance), (∀ k < n, (after F calcF rgen s k).foundSolution = false) →
    (after F calcF rgen s n).foundSolution = true → (maxFlips = 0 ∨ s.getNumFlips + n ≤ maxFlips) → n < fuel →
    ∃ reports, solveReporting F calcF maxFlips fuel rgen s = some (after F calcF rgen s n, reports) := by
  induction n with
  | zero =>
    intro fuel rgen s _ hfound _ hfuel
    obtain ⟨fuel, rfl⟩ := Nat.exists_eq_add_one_of_ne_zero (Nat.ne_of_gt hfuel)
    refine ⟨[], ?_⟩
    unfold solveReporting
    exact if_pos hfound
  | succ n ih =>
    intro fuel rgen s hrun hfound hmax hfuel
    obtain ⟨fuel, rfl⟩ := Nat.exists_eq_add_one_of_ne_zero (Nat.ne_of_gt (Nat.zero_lt_of_lt hfuel))
    have hrun0 : s.foundSolution = false := hrun 0 (Nat.succ_pos n)
    have hflips := SerialInstance.doFlip_numFlips defaultBuild F calcF (getRandomValue rgen.rand.1) s
    unfold solveReporting
    rw [if_neg (by simp [hrun0])]
    simp only
    split
    · -- this was the last flip that is allowed
      rename_i hlimit
      obtain rfl : n = 0 := by omega
      exact ⟨_, rfl⟩
    · apply ih fuel rgen.rand.2
      · exact fun k hk => hrun (k + 1) (by omega)
      · exact hfound
      · omega
      · omega

omit [IsStrictOrderedRing K] in
/-- Every round starts with a new instance. -/
theorem iterations_new (opts : Options) (F : CnfFormula) (calcF : Int → K) (seeds : Nat → Nat)
    (mem : Nat → SerialInstance.Memory) (fuel : Nat) : ∀ (left it : Nat) (b : Bitfield), IsConfiguration F.numVars b →
    ∀ i ∈ (iterations opts F calcF seeds mem fuel left it b).1,
      ∃ m b', IsConfiguration F.numVars b' ∧ i.start = SerialInstance.new defaultBuild F m b'
  | 0, _, _, _, _, hi => absurd hi List.not_mem_nil
  | left + 1, it, b, hb, i, hi => by
    have hb' := doInitConfiguration_ok hb (.ofSeed (seeds it))
    unfold iterations at hi
    simp only at hi
    split at hi
    · exact absurd hi List.not_mem_nil
    · split at hi
      · split at hi
        · rw [List.mem_singleton.1 hi]
          exact ⟨_, _, hb', rfl⟩
        · rw [List.mem_singleton.1 hi]
          exact ⟨_, _, hb', rfl⟩
      · rcases List.mem_cons.1 hi with rfl | hi
        · exact ⟨_, _, hb', rfl⟩
        · exact iterations_new opts F calcF seeds mem fuel left (it + 1) _ hb' i hi

/-- A round that reports a solution has made at least as many flips as its start assignment differs from the nearest
assignment that satisfies all clauses. -/
theorem flips_ge_distance (F : CountedFormula) (opts : Options) (h0 : 0 < opts.maxFlips) {calcF : Int → K}
    (hpos : ∀ b, 0 < calcF b) (seeds : Nat → Nat) (mem : Nat → SerialInstance.Memory) {fuel : Nat}
    (hfuel : opts.maxFlips ≤ fuel) {b : Bitfield} (hb : IsConfiguration F.formula.numVars b) :
    ∀ i ∈ (iterations opts F.formula calcF seeds mem fuel opts.numIterations 1 b).1,
      (∃ vLines, .satisfiable vLines ∈ i.reports) →
      ∃ a, Satisfies F.clauses a ∧ distance F.n i.start.assignment a ≤ i.stop.getNumFlips := by
  intro i hi hreport
  have hran := (iterations_ran opts F.formula calcF seeds mem h0 hfuel opts.numIterations 1 b).1 i hi
  have hfound := hran.satisfiable hreport
  obtain ⟨hstop, -, hrunning⟩ := hran.stop_eq
  obtain ⟨m, b', hb', hnew⟩ := iterations_new opts F.formula calcF seeds mem fuel opts.numIterations 1 b hb i hi
  have hstart : SerialInstance.CacheInv defaultBuild F.formula i.start := by
    rw [hnew]
    exact .new F.wellFormed defaultBuild m ⟨hb'.1, hb'.2⟩
  have hsearch := after_eq_solveWith F.formula calcF _ i.rgen i.start hrunning
  rw [hsearch] at hstop
  have hle := numbers_le i.rgen i.stop.getNumFlips
  have hinv := SerialInstance.cacheInv_solveWith F hpos hle hstart
  rw [hstop] at hfound
  refine ⟨_, (SerialInstance.foundSolution_iff F hinv).1 hfound, ?_⟩
  have hlength : (numbers i.rgen i.stop.getNumFlips).length = i.stop.getNumFlips := by
    unfold numbers
    rw [List.length_map, List.length_range]
  calc distance F.n i.start.assignment _ ≤ (numbers i.rgen i.stop.getNumFlips).length :=
        SerialInstance.distance_le_length F hpos hle hstart (distance_self _ _)
    _ = i.stop.getNumFlips := hlength

end Solving

/-- From the assignment that makes the second variable false, a round with a detour. -/
theorem flips_ge_distance_pairClauses :
    ∃ i ∈ (iterations ⟨2, 5, true⟩ SerialInstance.pairCounted.formula (fun _ => (1 : ℚ)) (fun _ => 20014)
      (fun _ => ⟨0, 0, 0, 0⟩) 5 2 1
        ⟨2, 2, false, 0⟩).1, i.stop.getNumFlips = 2 ∧
      ∃ a, Satisfies SerialInstance.pairClauses a ∧ distance 2 i.start.assignment a ≤ i.stop.getNumFlips := by
  obtain ⟨i, hi, hflips, hreports⟩ :
    ∃ i ∈ (iterations ⟨2, 5, true⟩ SerialInstance.pairCounted.formula (fun _ => (1 : ℚ))
      (fun _ => 20014) (fun _ => ⟨0, 0, 0, 0⟩) 5 2 1 ⟨2, 2, false, 0⟩).1,
      i.stop.getNumFlips = 2 ∧ i.reports = [.doneAfter 2, .satisfiable [[0, -1]]] := by
    decide +kernel
  refine ⟨i, hi, hflips, ?_⟩
  refine flips_ge_distance SerialInstance.pairCounted ⟨2, 5, true⟩ (by decide) (fun _ => one_pos) _ _ (by decide)
    ⟨rfl, by decide, by decide⟩ i hi ⟨[[0, -1]], ?_⟩
  simp [hreports]

end ParallelProbsat.Probsat
