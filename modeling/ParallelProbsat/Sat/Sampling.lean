/-
`do_flip` as sampling: the clause it works on has no true literal, the prefix sums of the weights of its
literals are those of the exact break counts, the random value lies in exactly one of the intervals between
them, and `flip_literal` is called with the literal of that interval. So the literal is never 0, the clause is
satisfied afterwards, and no other variable changes.
-/
import ParallelProbsat.Sat.Builds

namespace ParallelProbsat.Sat

open ParallelProbsat.Lib ParallelProbsat.Util

namespace SerialInstance

variable {K : Type} [Field K] [LinearOrder K] [IsStrictOrderedRing K] {F : CnfFormula}

/-! ## The random value -/

/-- `get_random_value`, when the generator's next number is `x` and its largest one `max`. -/
def getRandomValue (x max : Nat) (l : K) : K := (x : K) / ((max : K) + 1) * l

theorem getRandomValue_nonneg (x max : Nat) {l : K} (hl : 0 ≤ l) : 0 ≤ getRandomValue x max l := by
  unfold getRandomValue
  positivity

theorem getRandomValue_lt {x max : Nat} (hx : x ≤ max) {l : K} (hl : 0 < l) : getRandomValue x max l < l := by
  unfold getRandomValue
  have hmax : (0 : K) < (max : K) + 1 := by positivity
  have hlt : (x : K) / ((max : K) + 1) < 1 := by
    rw [div_lt_one hmax]
    have : (x : K) ≤ max := by exact_mod_cast hx
    linarith
  calc (x : K) / ((max : K) + 1) * l < 1 * l := mul_lt_mul_of_pos_right hlt hl
    _ = l := one_mul l

/-! ## The second loop -/

omit [IsStrictOrderedRing K] [Field K] in
/-- The second loop stops at the first prefix sum that exceeds the random value. -/
theorem chooseLiteral_eq {f : Vec K} {r : K} {rclause : Clause} {i : Nat} (hi : i < rclause.numVars) (hr : r < f.get i)
    (hbefore : ∀ j, j < i → f.get j ≤ r) : chooseLiteral f r rclause = rclause.subscript i := by
  have hfind : (List.range rclause.numVars).find? (fun (j : Nat) => decide (r < f.get j)) = some i := by
    rw [List.find?_range_eq_some]
    refine ⟨by simpa using hr, List.mem_range.2 hi, fun j hj => ?_⟩
    simpa using hbefore j hj
  unfold chooseLiteral
  rw [hfind]
  rfl

/-! ## One call of `do_flip` -/

/-- `calc_f` of the number of clauses that break when the literal alone is flipped. -/
def breakWeight (F : CnfFormula) (calcF : Int → K) (s : SerialInstance) (rclause : Clause) (i : Nat) : K :=
  calcF (F.clauses.countP (breaks s.assignment (varIndex (rclause.subscript i))) : Int)

/-- The random value `do_flip` draws when the generator's next number is `x` and its largest one `max`. -/
def drawn (F : CnfFormula) (calcF : Int → K) (x max : Nat) (s : SerialInstance) : K :=
  getRandomValue x max (prefixSum (breakWeight F calcF s (s.pickedClause F)) (s.pickedClause F).numVars)

/-- What `do_flip` does in the default build. -/
structure FlipsSample (F : CnfFormula) (calcF : Int → K) (x max : Nat) (s s' : SerialInstance) : Prop where
  modulus : s.unsatClauses.size ≠ 0
  inRange : F.InRange s.getIndexOfRandomUnsatisfiedClause
  unsatisfied : clauseSat s.assignment (s.pickedClause F) = false
  hit : ∃ i, i < (s.pickedClause F).numVars ∧
    InWeight (breakWeight F calcF s (s.pickedClause F)) i (drawn F calcF x max s) ∧
    (∀ j, InWeight (breakWeight F calcF s (s.pickedClause F)) j (drawn F calcF x max s) → j = i) ∧
    (s.pickedClause F).subscript i ≠ 0 ∧
    s' = flipChosen defaultBuild F s ((s.pickedClause F).subscript i) ∧
    ∀ v, 0 ≤ v → v < F.numVariables →
      s'.assignment v = flipVar s.assignment (varIndex ((s.pickedClause F).subscript i)) v
  satisfied : clauseSat s'.assignment (s.pickedClause F) = true
  flips : s'.numFlipsDone = s.numFlipsDone + 1

omit [Field K] [LinearOrder K] [IsStrictOrderedRing K] in
/-- The cached break count of a literal of the picked clause is the exact one. -/
theorem weightOf_eq (hw : F.WellFormed) {s : SerialInstance} (h : BreakCacheExact F s) (calcF : Int → K)
    (hr : F.InRange s.getIndexOfRandomUnsatisfiedClause) {i : Nat} (hi : i < (s.pickedClause F).numVars) :
    weightOf defaultBuild F calcF s (s.pickedClause F) i = breakWeight F calcF s (s.pickedClause F) i := by
  have hlit := hw.isLiteral hr (Clause.subscript_mem hi)
  exact congrArg calcF (h.breaks _ (varIndex_nonneg hlit.1) hlit.2)

/-- Flipping a false literal of a clause satisfies it. -/
theorem clauseSat_flip (hw : F.WellFormed) {c l : Int} (hc : F.InRange c) {a b : Int → Bool} (hl : l ∈ F.getClause c)
    (hf : litTrue a l = false) (hb : ∀ v, 0 ≤ v → v < F.numVariables → b v = flipVar a (varIndex l) v) :
    clauseSat b (F.getClause c) = true := by
  obtain ⟨h0, h1⟩ := hw.isLiteral hc hl
  refine List.any_eq_true.2 ⟨l, hl, ?_⟩
  rw [litTrue_congr (hb _ (varIndex_nonneg h0) h1), litTrue_flipVar, if_pos rfl, hf]
  rfl

theorem flipsSample (hw : F.WellFormed) {s : SerialInstance} (hinv : CacheInv defaultBuild F s)
    (hexact : BreakCacheExact F s)
    (hrun : s.foundSolution = false) {calcF : Int → K} (hpos : ∀ b, 0 < calcF b) {x max : Nat} (hx : x ≤ max) :
    FlipsSample F calcF x max s (doFlip defaultBuild F calcF (getRandomValue x max) s) := by
  obtain ⟨hr, hfalse⟩ := hinv.list.picked hrun
  have hwidth := hw.width _ (CnfFormula.getClause_mem hr)
  change 1 ≤ (s.pickedClause F).numVars ∧ _ at hwidth
  -- the sums of the code are those of the exact counts
  have hsums : ∀ k, k ≤ (s.pickedClause F).numVars → prefixSum (weightOf defaultBuild F calcF s (s.pickedClause F)) k =
      prefixSum (breakWeight F calcF s (s.pickedClause F)) k := by
    intro k hk
    apply Finset.sum_congr rfl
    intro i hi
    have := Finset.mem_range.1 hi
    exact weightOf_eq hw hexact calcF hr (by omega)
  have hw0 : ∀ i, 0 < breakWeight F calcF s (s.pickedClause F) i := fun i => hpos _
  have hsum : 0 < prefixSum (breakWeight F calcF s (s.pickedClause F)) (s.pickedClause F).numVars := by
    rw [← prefixSum_zero (breakWeight F calcF s (s.pickedClause F))]
    apply prefixSum_mono hw0
    omega
  obtain ⟨i, hi, hin, hbefore⟩ := exists_inWeight (getRandomValue_nonneg x max hsum.le) (getRandomValue_lt hx hsum)
  obtain ⟨hlast, hcell⟩ := prefixSums_eq defaultBuild F calcF s (s.pickedClause F)
  have hchosen : chosenLiteral defaultBuild F calcF (getRandomValue x max) s = (s.pickedClause F).subscript i := by
    unfold chosenLiteral
    simp only [hlast, hsums _ le_rfl]
    apply chooseLiteral_eq hi
    · rw [hcell i hi, hsums _ (by omega)]
      exact hin.2
    · intro j hj
      rw [hcell j (by omega), hsums _ (by omega)]
      exact hbefore j hj
  have hmem : (s.pickedClause F).subscript i ∈ s.pickedClause F := Clause.subscript_mem hi
  have hlit := hw.isLiteral hr hmem
  have hasg := (flipLiteral_assignment defaultBuild hinv.list.assigned hlit).2
  have hdo : doFlip defaultBuild F calcF (getRandomValue x max) s =
      flipChosen defaultBuild F s ((s.pickedClause F).subscript i) := by
    unfold doFlip
    rw [hchosen]
  rw [hdo, flipChosen_eq]
  refine ⟨?_, hr, ?_, ⟨i, hi, hin, fun j hj => hj.unique hw0 hin, hlit.1, (flipChosen_eq ..).symm,
    fun v _ hv => hasg v hv⟩, ?_, rfl⟩
  · intro h0
    rw [foundSolution, h0] at hrun
    cases hrun
  · rw [clauseSat_eq_false, Multiset.eq_zero_iff_forall_notMem]
    intro l hl
    obtain ⟨hl, ht⟩ := mem_trueLits.1 hl
    rw [hfalse l hl] at ht
    cases ht
  · exact clauseSat_flip hw hr hmem (hfalse _ hmem) fun v _ hv => hasg v hv

/-! ## Whole runs -/

omit [IsStrictOrderedRing K] in
/-- A call of `do_flip` is a step of a run. -/
theorem FlipsSample.step {calcF : Int → K} {x max : Nat} {s s' : SerialInstance} (h : FlipsSample F calcF x max s s')
    (hrun : s.foundSolution = false) : FlipStep defaultBuild F s s' := by
  obtain ⟨i, hi, -, -, -, rfl, -⟩ := h.hit
  exact .flip s _ hrun (Clause.subscript_mem hi)

theorem cacheInv_reached (hw : F.WellFormed) {B : Build} (hclean : CleanUnless B F)
    (hx : ∀ v, 0 ≤ v → v < F.numVariables → F.ExactAt v) {mem : Memory} {config : Bitfield}
    (hc : HasAssignment F config) {s : SerialInstance} (h : Reached B F mem config s) : CacheInv B F s := by
  induction h with
  | refl => exact .new hw B mem hc
  | tail _ hstep ih =>
    cases hstep with
    | flip l hrun hl =>
      have hlit := hw.isLiteral (ih.list.picked hrun).1 hl
      exact ih.flipChosen hw hclean hrun hl (hx _ (varIndex_nonneg hlit.1) hlit.2)

theorem ExactCounts.fitsCnt {n : Int} {clauses : List Clause} {counts : Counts}
    (h : ExactCounts n clauses counts) {u : Bool}
    (hF : CnfFormula.initializeFormula u n clauses counts = .ok F) : FitsCnt F := by
  obtain ⟨hv, hcl⟩ := initializeFormula_frame hF
  rintro l ⟨h0, hl⟩
  rw [hv] at hl
  rw [hcl, ← h.exact l h0 hl]
  exact h.fits l h0 hl

/-- In every state a run reaches without having found a solution, `do_flip` flips one literal of a clause without a
true literal, chosen by the exact break counts, and nothing else. -/
theorem doFlip_samples {n : Int} {clauses : List Clause} {counts : Counts} (h : ExactCounts n clauses counts)
    (F : CnfFormula)
    (hF : CnfFormula.initializeFormula true n clauses counts = .ok F) (mem : Memory) (config : Bitfield)
    (hc : HasAssignment F config) (s : SerialInstance) (hs : Reached defaultBuild F mem config s)
    (hrun : s.foundSolution = false) (calcF : Int → K) (hpos : ∀ b, 0 < calcF b) (x max : Nat) (hx : x ≤ max) :
    FlipsSample F calcF x max s (doFlip defaultBuild F calcF (getRandomValue x max) s) := by
  have hw := h.wellFormed hF
  have hclean : ∀ c ∈ F.clauses, Clean c := by
    rw [(initializeFormula_frame hF).2]
    exact h.clean
  have hexact : ∀ v, 0 ≤ v → v < F.numVariables → F.ExactAt v := fun v h0 hv => h.exactAt hF h0 hv
  have hinv := cacheInv_reached hw (fun _ => hclean) hexact hc hs
  exact flipsSample hw hinv (hinv.exact hw hclean (h.fitsCnt hF) hexact) hrun hpos hx

/-- The first flip over three clauses, from the assignment that makes every variable false. -/
theorem doFlip_samples_threeClauses :
    let s := new defaultBuild (threeFormula true) ⟨0, 0, 0, 0⟩ ⟨2, 2, false, 0⟩
    FlipsSample (threeFormula true) (fun b => if b = 0 then (1 : ℚ) else 1 / 2) 3 7 s
      (doFlip defaultBuild (threeFormula true) (fun b => if b = 0 then (1 : ℚ) else 1 / 2) (getRandomValue 3 7) s) :=
  doFlip_samples threeClauses_exactCounts (threeFormula true) rfl ⟨0, 0, 0, 0⟩ ⟨2, 2, false, 0⟩
    ⟨rfl, by decide, by decide⟩ _
    .refl (by decide) _ (fun b => by split <;> norm_num) 3 7 (by decide)

end SerialInstance

end ParallelProbsat.Sat
