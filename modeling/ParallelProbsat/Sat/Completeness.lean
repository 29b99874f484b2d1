/-
What the search can find. As long as no weight is so small that the generator skips its interval, every literal of the
picked clause can be drawn, so every flip can bring the assignment nearer to any one that satisfies all clauses. The
fewest flips after which a run stops with a solution are therefore the distance to the nearest of these, from every
state a run can be in, and the share of the draws with which a run on a satisfiable formula goes on without a solution
vanishes with their number.
-/
import ParallelProbsat.Lib.Distance
import ParallelProbsat.Lib.Draws
import ParallelProbsat.Sat.Sampling
import ParallelProbsat.Sat.SharedCache

namespace ParallelProbsat.Sat

open ParallelProbsat.Lib ParallelProbsat.Util

namespace SerialInstance

variable {K : Type} [Field K] [LinearOrder K]

/-- A round of the solving loop, when the generator's next number is `x` and its largest one `max`. -/
def solveRound (F : CnfFormula) (calcF : Int → K) (max : Nat) (s : SerialInstance) (x : Nat) : SerialInstance :=
  if s.foundSolution then s else doFlip defaultBuild F calcF (getRandomValue x max) s

/-- The solving loop without a limit of the flips, as far as these numbers of the generator take it. -/
def solveWith (F : CnfFormula) (calcF : Int → K) (max : Nat) : SerialInstance → List Nat → SerialInstance :=
  drawAll (solveRound F calcF max)

/-- The rounds for a block of one number for each variable. -/
def solveBlock (F : CountedFormula) (calcF : Int → K) (max : Nat) (s : SerialInstance)
    (block : Fin F.n.toNat → Fin (max + 1)) :
    SerialInstance :=
  solveWith F.formula calcF max s (List.ofFn fun i => (block i).val)

/-- No weight is below the `max + 1`st part of the sum of as many weights as a clause has literals. -/
def EachDrawn (F : CnfFormula) (calcF : Int → K) (max : Nat) : Prop :=
  ∀ c ∈ F.clauses, ∀ b b' : Int, 0 ≤ b → b ≤ F.maxNumBreaksPossible → 0 ≤ b' → b' ≤ F.maxNumBreaksPossible →
    c.length * calcF b ≤ (max + 1) * calcF b'

/-- The assignment satisfies all clauses. -/
def Satisfies (clauses : List Clause) (a : Int → Bool) : Prop := ∀ c ∈ clauses, clauseSat a c = true

theorem solveWith_cons (F : CnfFormula) (calcF : Int → K) (max : Nat) (s : SerialInstance) (x : Nat) (xs : List Nat) :
    solveWith F calcF max s (x :: xs) = solveWith F calcF max (solveRound F calcF max s x) xs := rfl

theorem solveRound_found {F : CnfFormula} (calcF : Int → K) (max : Nat) {s : SerialInstance}
    (h : s.foundSolution = true) (x : Nat) : solveRound F calcF max s x = s := if_pos h

theorem solveRound_running {F : CnfFormula} (calcF : Int → K) (max : Nat) {s : SerialInstance}
    (h : s.foundSolution = false)
    (x : Nat) : solveRound F calcF max s x = doFlip defaultBuild F calcF (getRandomValue x max) s :=
  if_neg (by rw [h]; exact Bool.false_ne_true)

/-- A solution that is found is kept. -/
theorem foundSolution_solveRound {F : CnfFormula} (calcF : Int → K) (max : Nat) {s : SerialInstance} (x : Nat)
    (h : s.foundSolution = true) : (solveRound F calcF max s x).foundSolution = true := by
  rw [solveRound_found calcF max h]
  exact h

/-! ## One round -/

section Round

variable [IsStrictOrderedRing K] (F : CountedFormula) {calcF : Int → K} (hpos : ∀ b, 0 < calcF b) {max : Nat}
include hpos

omit [IsStrictOrderedRing K] hpos in
theorem exact_of_cacheInv {s : SerialInstance} (h : CacheInv defaultBuild F.formula s) : BreakCacheExact F.formula s :=
  h.exact F.wellFormed F.clean (F.exact.fitsCnt F.built) fun _ h0 hv => F.exactAt h0 hv

theorem flipsSample_of_cacheInv {s : SerialInstance} (h : CacheInv defaultBuild F.formula s)
    (hrun : s.foundSolution = false)
    {x : Nat} (hx : x ≤ max) : FlipsSample F.formula calcF x max s (solveRound F.formula calcF max s x) := by
  rw [solveRound_running calcF max hrun]
  exact flipsSample F.wellFormed h (exact_of_cacheInv F h) hrun hpos hx

theorem CacheInv.solveRound {s : SerialInstance} (h : CacheInv defaultBuild F.formula s) {x : Nat} (hx : x ≤ max) :
    CacheInv defaultBuild F.formula (solveRound F.formula calcF max s x) := by
  cases hrun : s.foundSolution with
  | true =>
    rw [solveRound_found calcF max hrun]
    exact h
  | false =>
    have hstep := (flipsSample_of_cacheInv F hpos h hrun hx).step hrun
    generalize SerialInstance.solveRound F.formula calcF max s x = s' at hstep
    cases hstep with
    | flip l _ hl =>
      have hlit := F.wellFormed.isLiteral (h.list.picked hrun).1 hl
      exact h.flipChosen F.wellFormed (fun _ => F.clean) hrun hl (F.exactAt (varIndex_nonneg hlit.1) hlit.2)

omit hpos in
/-- The weights of a clause are within the bounds of `EachDrawn`. -/
theorem weight_bound {s : SerialInstance} (h : CacheInv defaultBuild F.formula s) {l : Int}
    (hl : F.formula.IsLiteral l) :
    0 ≤ (F.formula.clauses.countP (breaks s.assignment (varIndex l)) : Int) ∧
      (F.formula.clauses.countP (breaks s.assignment (varIndex l)) : Int) ≤ F.formula.maxNumBreaksPossible := by
  rw [← (exact_of_cacheInv F h).breaks _ (varIndex_nonneg hl.1) hl.2]
  exact (h.list.tracks.inRanges h.caches F.boundsBreaks fun _ _ => le_rfl).counters _ (varIndex_nonneg hl.1) hl.2

omit hpos in
/-- The sum of the weights of a clause is not too large for any one of them to be drawn. -/
theorem sum_le_weight (hdrawn : EachDrawn F.formula calcF max) {s : SerialInstance}
    (h : CacheInv defaultBuild F.formula s)
    {c : Int} (hc : F.formula.InRange c) {i : Nat} (hi : i < (F.formula.getClause c).numVars) :
    prefixSum (breakWeight F.formula calcF s (F.formula.getClause c)) (F.formula.getClause c).numVars ≤
      (max + 1) * breakWeight F.formula calcF s (F.formula.getClause c) i := by
  have hlen : (0 : K) < (F.formula.getClause c).numVars := by
    have : 0 < (F.formula.getClause c).numVars := by omega
    exact_mod_cast this
  have hlit : ∀ {j}, j < (F.formula.getClause c).numVars → F.formula.IsLiteral ((F.formula.getClause c).subscript j) :=
    fun hj => F.wellFormed.isLiteral hc (Clause.subscript_mem hj)
  refine le_of_mul_le_mul_left ?_ hlen
  unfold prefixSum
  rw [Finset.mul_sum]
  calc ∑ j ∈ Finset.range (F.formula.getClause c).numVars,
        ((F.formula.getClause c).numVars : K) * breakWeight F.formula calcF s (F.formula.getClause c) j
      ≤ ∑ _j ∈ Finset.range (F.formula.getClause c).numVars,
        (max + 1) * breakWeight F.formula calcF s (F.formula.getClause c) i := by
        apply Finset.sum_le_sum
        intro j hj
        obtain ⟨j0, j1⟩ := weight_bound F h (hlit (Finset.mem_range.1 hj))
        obtain ⟨i0, i1⟩ := weight_bound F h (hlit hi)
        exact hdrawn _ (CnfFormula.getClause_mem hc) _ _ j0 j1 i0 i1
    _ = ((F.formula.getClause c).numVars : K) *
      ((max + 1) * breakWeight F.formula calcF s (F.formula.getClause c) i) := by
        rw [Finset.sum_const, Finset.card_range, nsmul_eq_mul]

/-- Every literal of the picked clause is the one that is flipped, for some number of the generator. -/
theorem exists_draw (hdrawn : EachDrawn F.formula calcF max) {s : SerialInstance}
    (h : CacheInv defaultBuild F.formula s)
    (hrun : s.foundSolution = false) {l : Int} (hl : l ∈ s.pickedClause F.formula) :
    ∃ x ≤ max, ∀ v, 0 ≤ v → v < F.formula.numVariables →
      (solveRound F.formula calcF max s x).assignment v = flipVar s.assignment (varIndex l) v := by
  have hr := (h.list.picked hrun).1
  obtain ⟨i, hi, rfl⟩ := List.getElem_of_mem hl
  have hwidth : (s.pickedClause F.formula).length ≤ 256 := (F.wellFormed.width _ (CnfFormula.getClause_mem hr)).2
  have hw0 : ∀ j, 0 < breakWeight F.formula calcF s (s.pickedClause F.formula) j := fun j => hpos _
  have hmono := (prefixSum_mono hw0).monotone
  have hsum : 0 < prefixSum (breakWeight F.formula calcF s (s.pickedClause F.formula))
      (s.pickedClause F.formula).numVars := by
    rw [← prefixSum_zero (breakWeight F.formula calcF s (s.pickedClause F.formula))]
    apply prefixSum_mono hw0
    exact lt_of_le_of_lt (Nat.zero_le i) hi
  -- the interval of the literal has one of the values the generator is scaled to
  obtain ⟨x, hx, hlo, hhi⟩ := exists_evenly_spaced (prefixSum _ i) max hsum (hw0 i)
    (by rw [← prefixSum_zero (breakWeight F.formula calcF s (s.pickedClause F.formula))]; exact hmono (Nat.zero_le i))
    (by rw [← prefixSum_succ]; exact hmono hi) (sum_le_weight F hdrawn h hr hi)
  rw [← prefixSum_succ] at hhi
  obtain ⟨k, -, -, honly, -, -, hasg⟩ := (flipsSample_of_cacheInv F hpos h hrun hx).hit
  obtain rfl : i = k := honly i ⟨hlo, hhi⟩
  refine ⟨x, hx, fun v h0 hv => ?_⟩
  rw [hasg v h0 hv, Clause.subscript_eq hwidth hi]
  rfl

end Round

/-! ## The nearest solution -/

section Formula

variable (F : CountedFormula)

theorem formula_clauses : F.formula.clauses = F.clauses := (initializeFormula_frame F.built).2

theorem formula_numVariables : F.formula.numVariables = F.n := (initializeFormula_frame F.built).1

/-- A solution that is found satisfies all clauses, and only one that does not leaves a clause to pick. -/
theorem foundSolution_iff {s : SerialInstance} (h : CacheInv defaultBuild F.formula s) :
    s.foundSolution = true ↔ Satisfies F.clauses s.assignment := by
  rw [h.list.exact.foundSolution_iff F.wellFormed, checkAssignment_iff F.wellFormed, ← formula_clauses]
  constructor
  · intro hall c hc
    obtain ⟨k, hk, rfl⟩ := List.getElem_of_mem hc
    have := hall k ⟨by omega, by unfold CnfFormula.numClauses; omega⟩
    simpa [CnfFormula.getClause, hk] using this
  · exact fun hall c hc => hall _ (CnfFormula.getClause_mem hc)

end Formula

section Distance

variable [IsStrictOrderedRing K] (F : CountedFormula) {calcF : Int → K} (hpos : ∀ b, 0 < calcF b) {max : Nat}
include hpos

/-- Some number of the generator brings the assignment nearer to one that satisfies all clauses. -/
theorem exists_nearer_draw (hdrawn : EachDrawn F.formula calcF max) {s : SerialInstance}
    (h : CacheInv defaultBuild F.formula s)
    (hrun : s.foundSolution = false) {a : Int → Bool} (ha : Satisfies F.clauses a) :
    ∃ x ≤ max, distance F.n (solveRound F.formula calcF max s x).assignment a + 1 = distance F.n s.assignment a := by
  obtain ⟨hr, hfalse⟩ := h.list.picked hrun
  have hsat : clauseSat a (s.pickedClause F.formula) = true := by
    apply ha
    rw [← formula_clauses]
    exact CnfFormula.getClause_mem hr
  have hunsat : clauseSat s.assignment (s.pickedClause F.formula) = false := by
    rw [clauseSat, List.any_eq_false]
    intro l hl
    rw [hfalse l hl]
    exact Bool.false_ne_true
  obtain ⟨l, hl, -, hne⟩ := exists_nearer hunsat hsat
  obtain ⟨h0, hlt⟩ := F.wellFormed.isLiteral hr hl
  obtain ⟨x, hx, hasg⟩ := exists_draw F hpos hdrawn h hrun hl
  rw [formula_numVariables] at hlt hasg
  refine ⟨x, hx, ?_⟩
  rw [distance_congr hasg (fun _ _ _ => rfl)]
  exact distance_flip (varIndex_nonneg h0) hlt hne

/-- A round changes the distance to any assignment by one at most. -/
theorem distance_le_round {s : SerialInstance} (h : CacheInv defaultBuild F.formula s) (a : Int → Bool) {x : Nat}
    (hx : x ≤ max) :
    distance F.n s.assignment a ≤ distance F.n (solveRound F.formula calcF max s x).assignment a + 1 := by
  cases hrun : s.foundSolution with
  | true =>
    rw [solveRound_found calcF max hrun]
    exact Nat.le_succ _
  | false =>
    obtain ⟨i, -, -, -, -, -, hasg⟩ := (flipsSample_of_cacheInv F hpos h hrun hx).hit
    rw [formula_numVariables] at hasg
    rw [distance_congr hasg (fun _ _ _ => rfl)]
    exact distance_le_flip _ _ _ _

/-- The draws that go to an assignment that satisfies all clauses. -/
theorem exists_draws (hdrawn : EachDrawn F.formula calcF max) {a : Int → Bool} (ha : Satisfies F.clauses a) :
    ∀ (d : Nat) {s : SerialInstance}, CacheInv defaultBuild F.formula s → distance F.n s.assignment a = d →
      ∃ xs : List Nat, xs.length ≤ d ∧ (∀ x ∈ xs, x ≤ max) ∧ (solveWith F.formula calcF max s xs).foundSolution = true
  | 0, s, h, hd => by
    refine ⟨[], le_rfl, fun x hx => absurd hx List.not_mem_nil, (foundSolution_iff F h).2 ?_⟩
    intro c hc
    have hlit : ∀ l ∈ c, s.assignment (varIndex l) = a (varIndex l) := fun l hl =>
      eq_of_distance_zero hd (varIndex_nonneg (F.exact.literal c hc l hl).1) (F.exact.literal c hc l hl).2
    rw [clauseSat_iff, trueLits_congr hlit, ← clauseSat_iff]
    exact ha c hc
  | d + 1, s, h, hd => by
    cases hrun : s.foundSolution with
    | true => exact ⟨[], Nat.zero_le _, fun x hx => absurd hx List.not_mem_nil, hrun⟩
    | false =>
      obtain ⟨x, hx, hnear⟩ := exists_nearer_draw F hpos hdrawn h hrun ha
      obtain ⟨xs, hlen, hxs, hfound⟩ := exists_draws hdrawn ha d (h.solveRound F hpos hx) (by omega)
      refine ⟨x :: xs, by simpa using hlen, ?_, hfound⟩
      rintro y (_ | ⟨_, hy⟩)
      · exact hx
      · exact hxs y hy

theorem cacheInv_solveWith {xs : List Nat} (hxs : ∀ x ∈ xs, x ≤ max) {s : SerialInstance}
    (h : CacheInv defaultBuild F.formula s) : CacheInv defaultBuild F.formula (solveWith F.formula calcF max s xs) := by
  induction xs generalizing s with
  | nil => exact h
  | cons x xs ih =>
    rw [solveWith_cons]
    exact ih (fun y hy => hxs y (List.mem_cons_of_mem _ hy)) (h.solveRound F hpos (hxs x List.mem_cons_self))

/-- No run is shorter than the distance it goes. -/
theorem distance_le_length {xs : List Nat} (hxs : ∀ x ∈ xs, x ≤ max) {s : SerialInstance}
    (h : CacheInv defaultBuild F.formula s)
    {a : Int → Bool} (ha : distance F.n (solveWith F.formula calcF max s xs).assignment a = 0) :
    distance F.n s.assignment a ≤ xs.length := by
  induction xs generalizing s with
  | nil => exact ha.le
  | cons x xs ih =>
    have hx := hxs x List.mem_cons_self
    have := ih (fun y hy => hxs y (List.mem_cons_of_mem _ hy)) (h.solveRound F hpos hx) ha
    have := distance_le_round F hpos h a hx
    rw [List.length_cons]
    omega

/-- From every state of a run, the fewest flips after which the search can stop with a solution are the distance to
the nearest assignment that satisfies all clauses. -/
theorem fewest_flips (mem : Memory) (config : Bitfield) (hc : HasAssignment F.formula config) (s : SerialInstance)
    (hs : Reached defaultBuild F.formula mem config s) (hdrawn : EachDrawn F.formula calcF max) (d : Nat) :
    IsLeast {k | ∃ a, Satisfies F.clauses a ∧ distance F.n s.assignment a = k} d ↔
      IsLeast {k | ∃ xs : List Nat, (∀ x ∈ xs, x ≤ max) ∧ xs.length = k ∧
        (solveWith F.formula calcF max s xs).foundSolution = true} d := by
  have h := cacheInv_reached F.wellFormed (fun _ => F.clean) (fun _ h0 hv => F.exactAt h0 hv) hc hs
  -- there is a run no longer than any distance, and a distance no longer than any run
  have hrun : ∀ a, Satisfies F.clauses a → ∃ xs :
    List Nat, xs.length ≤ distance F.n s.assignment a ∧ (∀ x ∈ xs, x ≤ max) ∧
      (solveWith F.formula calcF max s xs).foundSolution = true := fun a ha => exists_draws F hpos hdrawn ha _ h rfl
  have hdist : ∀ xs : List Nat, (∀ x ∈ xs, x ≤ max) → (solveWith F.formula calcF max s xs).foundSolution = true →
      ∃ a, Satisfies F.clauses a ∧ distance F.n s.assignment a ≤ xs.length := by
    intro xs hxs hfound
    refine ⟨_, (foundSolution_iff F (cacheInv_solveWith F hpos hxs h)).1 hfound, ?_⟩
    exact distance_le_length F hpos hxs h (distance_self _ _)
  constructor
  · rintro ⟨⟨a, ha, rfl⟩, hleast⟩
    obtain ⟨xs, hlen, hxs, hfound⟩ := hrun a ha
    have hmin : ∀ ys : List Nat, (∀ y ∈ ys, y ≤ max) → (solveWith F.formula calcF max s ys).foundSolution = true →
        distance F.n s.assignment a ≤ ys.length := by
      intro ys hys hys'
      obtain ⟨b, hb, hle⟩ := hdist ys hys hys'
      exact (hleast ⟨b, hb, rfl⟩).trans hle
    refine ⟨⟨xs, hxs, le_antisymm hlen (hmin xs hxs hfound), hfound⟩, ?_⟩
    rintro k ⟨ys, hys, rfl, hys'⟩
    exact hmin ys hys hys'
  · rintro ⟨⟨xs, hxs, rfl, hfound⟩, hleast⟩
    obtain ⟨a, ha, hle⟩ := hdist xs hxs hfound
    have hmin : ∀ b, Satisfies F.clauses b → xs.length ≤ distance F.n s.assignment b := by
      intro b hb
      obtain ⟨ys, hlen, hys, hys'⟩ := hrun b hb
      exact (hleast ⟨ys, hys, rfl, hys'⟩).trans hlen
    refine ⟨⟨a, ha, le_antisymm hle (hmin a ha)⟩, ?_⟩
    rintro k ⟨b, hb, rfl⟩
    exact hmin b hb

end Distance

/-- Two clauses over two variables, satisfied when the second variable is true. -/
def pairClauses : List Clause := [[1, 2], [-1, 2]]

def pairCounts : Counts := ⟨2, fun v => if v = 0 then (1, 1) else (0, 2)⟩

theorem pairClauses_exactCounts : ExactCounts 2 pairClauses pairCounts where
  vars := by decide
  width := by decide
  literal := by decide
  clean := by decide
  exact l h0 hl := by
    obtain ⟨h1, h2⟩ : -2 ≤ l ∧ l ≤ 2 := by unfold varIndex at hl; omega
    interval_cases l <;> first | rfl | exact absurd rfl h0
  fits l h0 hl := by
    obtain ⟨h1, h2⟩ : -2 ≤ l ∧ l ≤ 2 := by unfold varIndex at hl; omega
    interval_cases l <;> decide

def pairCounted : CountedFormula where
  formula :=
    match CnfFormula.initializeFormula true 2 pairClauses pairCounts with
    | .ok F => F
    | .error _ => threeClauses
  n := 2
  clauses := pairClauses
  counts := pairCounts
  exact := pairClauses_exactCounts
  built := rfl

theorem pairCounted_drawn : EachDrawn pairCounted.formula (fun _ => (1 : ℚ)) 7 := by
  intro c hc b b' _ _ _ _
  rw [formula_clauses] at hc
  have hlen : ∀ c ∈ pairClauses, c.length ≤ 2 := by decide
  have : (c.length : ℚ) ≤ 2 := by exact_mod_cast hlen c hc
  push_cast
  linarith

/-- From the assignment that makes both variables false. -/
theorem fewest_flips_pairClauses :
    let s := new defaultBuild pairCounted.formula ⟨0, 0, 0, 0⟩ ⟨2, 2, false, 0⟩
    IsLeast {k | ∃ a, Satisfies pairClauses a ∧ distance 2 s.assignment a = k} 1 ↔
      IsLeast {k | ∃ xs : List Nat, (∀ x ∈ xs, x ≤ 7) ∧ xs.length = k ∧
        (solveWith pairCounted.formula (fun _ => (1 : ℚ)) 7 s xs).foundSolution = true} 1 :=
  fewest_flips pairCounted (fun _ => one_pos) ⟨0, 0, 0, 0⟩ ⟨2, 2, false, 0⟩ ⟨rfl, by decide, by decide⟩ _ .refl
    pairCounted_drawn 1

/-! ## The share of the draws that fail -/

section Draws

variable [IsStrictOrderedRing K] (F : CountedFormula) {calcF : Int → K} (hpos : ∀ b, 0 < calcF b) {max : Nat}
include hpos

omit [IsStrictOrderedRing K] hpos in
theorem solveWith_found {s : SerialInstance} (h : s.foundSolution = true) (xs : List Nat) :
    (solveWith F.formula calcF max s xs).foundSolution = true :=
  drawAll_rule (P := fun s : SerialInstance => s.foundSolution = true)
    (fun _ x hs => foundSolution_solveRound calcF max x hs) h xs

omit [IsStrictOrderedRing K] hpos in
theorem block_le (block : Fin F.n.toNat → Fin (max + 1)) : ∀ x ∈ List.ofFn fun i => (block i).val, x ≤ max := by
  intro x hx
  obtain ⟨i, rfl⟩ := List.mem_ofFn.1 hx
  exact Nat.le_of_lt_succ (block i).isLt

/-- In some block of as many draws as there are variables a solution is found. -/
theorem exists_block (hdrawn : EachDrawn F.formula calcF max) {a : Int → Bool} (ha : Satisfies F.clauses a)
    {s : SerialInstance} (h : CacheInv defaultBuild F.formula s) :
    ∃ block : Fin F.n.toNat → Fin (max + 1), (solveBlock F calcF max s block).foundSolution = true := by
  obtain ⟨xs, hlen, hxs, hfound⟩ := exists_draws F hpos hdrawn ha _ h rfl
  have hlen := hlen.trans (distance_le F.n s.assignment a)
  -- the draws after it do not matter
  refine ⟨fun i => ⟨min (xs.getD i 0) max, by omega⟩, ?_⟩
  have heq : (List.ofFn fun i : Fin F.n.toNat => min (xs.getD i 0) max) =
      xs ++ List.replicate (F.n.toNat - xs.length) 0 := by
    apply List.ext_getElem
    · simp
      omega
    · intro i h1 h2
      rw [List.getElem_ofFn]
      rcases Nat.lt_or_ge i xs.length with hi | hi
      · rw [List.getElem_append_left hi, List.getD_eq_getElem _ _ hi]
        exact min_eq_left (hxs _ (List.getElem_mem hi))
      · rw [List.getElem_append_right hi, List.getElem_replicate, List.getD_eq_default _ _ hi]
        exact Nat.zero_min _
  unfold solveBlock
  simp only
  rw [heq]
  unfold solveWith at hfound ⊢
  rw [drawAll_append]
  exact solveWith_found F hfound _

/-- On a satisfiable formula the draws with which a run does not find a solution are, of all draws of the same number, a
share that vanishes as their number grows; of the draws of one number for each variable at least one finds a
solution. -/
theorem failing_draws_vanish (mem : Memory) (config : Bitfield) (hc : HasAssignment F.formula config)
    (s : SerialInstance) (hs : Reached defaultBuild F.formula mem config s) (hdrawn : EachDrawn F.formula calcF max)
    (hsat : ∃ a, Satisfies F.clauses a) :
    (∀ t, (failing (solveBlock F calcF max) (fun s : SerialInstance => s.foundSolution = true) s t).card ≤
      ((max + 1) ^ F.n.toNat - 1) ^ t) ∧
      Filter.Tendsto (fun t =>
        ((failing (solveBlock F calcF max) (fun s : SerialInstance => s.foundSolution = true) s t).card : ℝ) /
        ((max + 1) ^ F.n.toNat) ^ t) Filter.atTop (nhds 0) := by
  obtain ⟨a, ha⟩ := hsat
  have h := cacheInv_reached F.wellFormed (fun _ => F.clean) (fun _ h0 hv => F.exactAt h0 hv) hc hs
  have hkeep : ∀ (s : SerialInstance) (block : Fin F.n.toNat → Fin (max + 1)), s.foundSolution = true →
      (solveBlock F calcF max s block).foundSolution = true := fun s block hs => solveWith_found F hs _
  have hinv : ∀ (s : SerialInstance) (block : Fin F.n.toNat → Fin (max + 1)), CacheInv defaultBuild F.formula s →
      CacheInv defaultBuild F.formula (solveBlock F calcF max s block) := fun s block hs =>
    cacheInv_solveWith F hpos (block_le F block) hs
  have hgood : ∀ s, CacheInv defaultBuild F.formula s → ∃ block : Fin F.n.toNat → Fin (max + 1),
      (solveBlock F calcF max s block).foundSolution = true := fun s hs => exists_block F hpos hdrawn ha hs
  have hcard : Fintype.card (Fin F.n.toNat → Fin (max + 1)) = (max + 1) ^ F.n.toNat := by
    rw [Fintype.card_fun, Fintype.card_fin, Fintype.card_fin]
  constructor
  · intro t
    rw [← hcard]
    exact card_failing_le hkeep hinv hgood t h
  · have hvanish := failing_vanishes hkeep hinv hgood h
    rw [hcard] at hvanish
    push_cast at hvanish
    exact hvanish

end Draws

theorem failing_draws_vanish_pairClauses :
    let s := new defaultBuild pairCounted.formula ⟨0, 0, 0, 0⟩ ⟨2, 2, false, 0⟩
    let fails (t : Nat) := failing (solveBlock pairCounted (fun _ => (1 : ℚ)) 7)
      (fun s : SerialInstance => s.foundSolution = true) s t
    (∀ t, (fails t).card ≤ ((7 + 1) ^ 2 - 1) ^ t) ∧
      Filter.Tendsto (fun t => ((fails t).card : ℝ) / (((7 : Nat) + 1) ^ 2) ^ t) Filter.atTop (nhds 0) :=
  failing_draws_vanish pairCounted (fun _ => one_pos) ⟨0, 0, 0, 0⟩ ⟨2, 2, false, 0⟩ ⟨rfl, by decide, by decide⟩ _ .refl
    pairCounted_drawn ⟨fun v => v == 1, by unfold Satisfies; decide⟩

end SerialInstance

end ParallelProbsat.Sat
