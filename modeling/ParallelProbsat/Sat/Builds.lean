/-
The optimisation switches do not change the search: on clauses that mention no variable twice, the
builds given by `caching`, `USE_CRIT_LITERAL_CACHING` and `USE_CONT_DATASTRUCT` perform the same run.
After every number of flips they have the same assignment and the same list of unsatisfied clauses in
the same order, and choose the same literal.

Two builds run side by side. Both occurrence indices list the same clauses in the same order, so
the loops of `flip_literal` visit the same clauses; what they do to the list and the locations does
not depend on the build; and the break counts are those of the clauses, cached or not.
-/
import ParallelProbsat.Lib.PrefixSums
import ParallelProbsat.Sat.BreakCache

namespace ParallelProbsat.Sat

open ParallelProbsat.Lib ParallelProbsat.Util

/-! ## Formulas over the same clauses -/

/-- Two formulas of the same clauses whose indices list them in the same order. -/
structure SameIndex (F F' : CnfFormula) : Prop where
  vars : F'.numVariables = F.numVariables
  clauses : F'.clauses = F.clauses
  iterators : ∀ v, 0 ≤ v → v < F.numVariables →
    F'.getIteratorsForClausesWithVars v = F.getIteratorsForClausesWithVars v

namespace SameIndex

variable {F F' : CnfFormula} (h : SameIndex F F')
include h

theorem inRange {c : Int} : F'.InRange c ↔ F.InRange c := by
  unfold CnfFormula.InRange CnfFormula.numClauses
  rw [h.clauses]

theorem getClause (c : Int) : F'.getClause c = F.getClause c := by
  unfold CnfFormula.getClause
  rw [h.clauses]

theorem isLiteral {l : Int} : F'.IsLiteral l ↔ F.IsLiteral l := by
  unfold CnfFormula.IsLiteral
  rw [h.vars]

theorem flipRanges {l : Int} (hl : F.IsLiteral l) : SerialInstance.flipRanges F' l = SerialInstance.flipRanges F l := by
  unfold SerialInstance.flipRanges
  rw [h.iterators _ (varIndex_nonneg hl.1) hl.2]

theorem trueLitsOf (a : Int → Bool) (c : Int) : SerialInstance.trueLitsOf F' a c = SerialInstance.trueLitsOf F a c := by
  unfold SerialInstance.trueLitsOf
  rw [h.getClause]

theorem breakSum (S : Int → Multiset Int) (v : Int) :
    SerialInstance.breakSum F' S v = SerialInstance.breakSum F S v := by
  unfold SerialInstance.breakSum
  rw [h.clauses]

end SameIndex

namespace SerialInstance

variable {F F' : CnfFormula}

/-! ## The list and the locations side by side -/

/-- Two lists with their locations agree on the elements and on the clauses of `dom`. -/
structure SameCells (dom : Int → Prop) (x y : Vec Int × Vec Int) : Prop where
  size : x.1.size = y.1.size
  entry : ∀ p : Int, 0 ≤ p → p < x.1.size → x.1.get p = y.1.get p
  location : ∀ c, dom c → x.2.get c = y.2.get c

section Cells

variable {dom dom' : Int → Prop} {u m u' m' : Vec Int} (h : SameCells dom (u, m) (u', m'))
include h

theorem SameCells.set (c x : Int) (hdom : ∀ d, dom' d → dom d ∨ d = c) :
    SameCells dom' (u, m.set c x) (u', m'.set c x) where
  size := h.size
  entry := h.entry
  location d hd := by
    rw [Vec.get_set, Vec.get_set]
    split
    · rfl
    · rename_i hne; exact h.location d ((hdom d hd).resolve_right hne)

theorem SameCells.push (c : Int) (hdom : ∀ d, dom' d → dom d ∨ d = c) :
    SameCells dom' (u.pushBack c, m.set c u.size) (u'.pushBack c, m'.set c u'.size) := by
  have hs : u.size = u'.size := h.size
  have hset := h.set c u.size hdom
  rw [← hs]
  refine ⟨congrArg (· + 1) hs, fun p h0 hp => ?_, hset.location⟩
  rw [Vec.size_pushBack] at hp
  rw [Vec.get_pushBack, Vec.get_pushBack, hs]
  split
  · rfl
  · exact h.entry p h0 (by simp only; omega)

end Cells

/-- `make_clause_sat` on both sides, for a clause that is in the list. -/
theorem SameCells.makeClauseSat {dom : Int → Prop} {s t : SerialInstance} {c : Int}
    (h : SameCells dom (s.unsatClauses, s.unsatClausesLocation) (t.unsatClauses, t.unsatClausesLocation))
    (hc : dom c) (h0 : 0 ≤ s.unsatClausesLocation.get c)
    (hlt : s.unsatClausesLocation.get c < s.unsatClauses.size) :
    SameCells dom ((s.makeClauseSat c).unsatClauses, (s.makeClauseSat c).unsatClausesLocation)
      ((t.makeClauseSat c).unsatClauses, (t.makeClauseSat c).unsatClausesLocation) := by
  have hs : s.unsatClauses.size = t.unsatClauses.size := h.size
  have hloc : s.unsatClausesLocation.get c = t.unsatClausesLocation.get c := h.location c hc
  have hback : s.unsatClauses.back = t.unsatClauses.back := by
    unfold Vec.back
    rw [← hs]
    exact h.entry _ (by omega) (by simp only; omega)
  have hentry : ∀ p : Int, 0 ≤ p → p < s.unsatClauses.size → s.unsatClauses.get p = t.unsatClauses.get p := h.entry
  have hother : ∀ d, dom d → s.unsatClausesLocation.get d = t.unsatClausesLocation.get d := h.location
  rw [makeClauseSat_list, makeClauseSat_list, Vec.size_popBack, Vec.size_popBack, ← hs, ← hloc, ← hback]
  split
  · constructor
    · exact congrArg (· - 1) hs
    · intro p hp0 hp
      rw [Vec.size_popBack] at hp
      exact hentry p hp0 (by omega)
    · intro d hd
      rw [Vec.get_set, Vec.get_set]
      split
      · rfl
      · exact hother d hd
  · constructor
    · exact congrArg (· - 1) hs
    · intro p hp0 hp
      rw [Vec.size_set, Vec.size_popBack] at hp
      rw [Vec.get_set, Vec.get_set]
      split
      · rfl
      · exact hentry p hp0 (by omega)
    · intro d hd
      simp only [Vec.get_set]
      split
      · rfl
      · split
        · rfl
        · exact hother d hd

/-- Two instances with the same list of unsatisfied clauses and the same locations. -/
def SameList (F : CnfFormula) (s t : SerialInstance) : Prop :=
  SameCells F.InRange (s.unsatClauses, s.unsatClausesLocation) (t.unsatClauses, t.unsatClausesLocation)

section Rounds

variable {s t : SerialInstance} {l c : Int} (B B' : Build) (F₁ F₂ : CnfFormula)

theorem SameList.breakClause (h : SameList F s t) (hc : F.InRange c) :
    SameList F (breakClause B F₁ l s c) (breakClause B' F₂ l t c) := by
  have hloc : s.unsatClausesLocation.get c = t.unsatClausesLocation.get c := h.location c hc
  unfold SameList
  rw [breakClause_list, breakClause_list, ← hloc]
  split
  · exact h
  · split
    · exact h.push c fun _ => Or.inl
    · unfold Vec.modify
      rw [← hloc]
      exact h.set c _ fun _ => Or.inl

theorem SameList.makeClause (h : SameList F s t) (hc : F.InRange c) {S : Int → Multiset Int} (hT : Tracks F S s) :
    SameList F (makeClause B F₁ l s c) (makeClause B' F₂ l t c) := by
  have hloc : s.unsatClausesLocation.get c = t.unsatClausesLocation.get c := h.location c hc
  unfold SameList
  rw [makeClause_list, makeClause_list, ← hloc]
  split
  · rename_i h0
    have hz := (hT.location_nonneg hc).1 h0
    exact SameCells.makeClauseSat h hc h0 (hT.unsat.member c ⟨hc, hz⟩).2.1
  · unfold Vec.modify
    rw [← hloc]
    exact h.set c _ fun _ => Or.inl

end Rounds

/-! ## One flip -/

/-- Two instances between flips: the same assignment, list, locations and number of flips. -/
structure SameSearch (F : CnfFormula) (s t : SerialInstance) : Prop where
  list : SameList F s t
  flips : s.numFlipsDone = t.numFlipsDone
  assignment : ∀ v, 0 ≤ v → v < F.numVariables → s.assignment v = t.assignment v

theorem SameSearch.litTrue_eq {s t : SerialInstance} (h : SameSearch F s t) {l : Int} (hl : F.IsLiteral l) :
    litTrue s.assignment l = litTrue t.assignment l :=
  litTrue_congr (h.assignment _ (varIndex_nonneg hl.1) hl.2)

theorem SameSearch.toList {s t : SerialInstance} (h : SameSearch F s t) :
    s.unsatClauses.toList = t.unsatClauses.toList :=
  Vec.toList_inj.2 ⟨h.list.size, fun p hp => h.list.entry p (by omega) (by simpa using hp)⟩

theorem SameSearch.flipLiteral (hF : SameIndex F F') (B B' : Build) {s t : SerialInstance}
    (h : SameSearch F s t) (hs : ListInv F s) (ht : ListInv F' t) {l : Int} (hl : F.IsLiteral l)
    (hf : litTrue s.assignment l = false) (hx : F.ExactAt (varIndex l)) :
    SameSearch F (flipLiteral B F s l) (flipLiteral B' F' t l) := by
  have hl' := hF.isLiteral.2 hl
  obtain ⟨S, -, hP⟩ := flip_loops (σ := SerialInstance × SerialInstance)
    (P := fun S p => Tracks F S p.1 ∧ SameList F p.1 p.2)
    (f := fun p c => (breakClause B F l p.1 c, breakClause B' F' l p.2 c))
    (g := fun p c => (makeClause B F l p.1 c, makeClause B' F' l p.2 c)) hl.1 hf hx
    (fun rem S p c hP hc _ hm => ⟨hP.1.breakClause B hc hm, hP.2.breakClause B B' F F' hc⟩)
    (fun rem S p c hP hc _ => ⟨hP.1.makeClause B hc, hP.2.makeClause B B' F F' hc hP.1⟩)
    (s := (s, t)) ⟨hs.tracks, h.list⟩
  rw [foldl_pair, foldl_pair] at hP
  have hafter : SameList F (afterLoops B F s l) (afterLoops B' F' t l) := by
    unfold afterLoops
    rw [hF.flipRanges hl]
    exact hP.2
  obtain ⟨-, hread⟩ := flipLiteral_assignment B hs.assigned hl
  obtain ⟨-, hread'⟩ := flipLiteral_assignment B' ht.assigned hl'
  refine ⟨hafter, ?_, fun v h0 hv => ?_⟩
  · exact (afterLoops_frame B F s l).2.trans (h.flips.trans (afterLoops_frame B' F' t l).2.symm)
  · rw [hread v hv, hread' v (by rw [hF.vars]; exact hv)]
    unfold flipVar
    rw [h.assignment v h0 hv, h.assignment _ (varIndex_nonneg hl.1) hl.2]

/-! ## Choosing the literal -/

/-- In every build the break count of a false literal is that of the clauses. -/
theorem CacheInv.getNumBreaksByFlip (hw : F.WellFormed) {B : Build} {s : SerialInstance} (h : CacheInv B F s) {l : Int}
    (hl : F.IsLiteral l) (hf : litTrue s.assignment l = false) (hx : F.ExactAt (varIndex l)) :
    s.getNumBreaksByFlip F l B.caching = cntT (breakSum F (trueLitsOf F s.assignment) (varIndex l)) := by
  cases hB : B.caching with
  | true =>
    rw [h.cached_eq_uncached hw hB hl hf hx]
    exact getNumBreaksByFlip_uncached hw s hl hf hx
  | false => exact getNumBreaksByFlip_uncached hw s hl hf hx

section Choice

variable {K : Type} [Field K] [LinearOrder K] [IsStrictOrderedRing K]

/-- What the first loop adds up: `calc_f` of what `get_num_breaks_by_flip` answers for each literal. -/
def weightOf (B : Build) (F : CnfFormula) (calcF : Int → K) (s : SerialInstance) (rclause : Clause) (i : Nat) : K :=
  calcF (s.getNumBreaksByFlip F (rclause.subscript i) B.caching)

omit [LinearOrder K] [IsStrictOrderedRing K] in
theorem prefixSums_eq (B : Build) (F : CnfFormula) (calcF : Int → K) (s : SerialInstance) (rclause : Clause) :
    (prefixSums B F calcF s rclause).2 = prefixSum (weightOf B F calcF s rclause) rclause.numVars ∧
      ∀ i, i < rclause.numVars →
        (prefixSums B F calcF s rclause).1.get i = prefixSum (weightOf B F calcF s rclause) (i + 1) := by
  have h := foldl_range (n := rclause.numVars)
    (f := fun acc (i : Nat) =>
      let cf := calcF (s.getNumBreaksByFlip F (rclause.subscript i) B.caching)
      let sumF := acc.2 + cf
      (acc.1.set i sumF, sumF))
    (P := fun k (acc : Vec K × K) => acc.2 = prefixSum (weightOf B F calcF s rclause) k ∧
      ∀ i, i < k → acc.1.get i = prefixSum (weightOf B F calcF s rclause) (i + 1))
    (s := (.reserved fun _ => 0, 0)) ⟨(prefixSum_zero _).symm, fun i hi => absurd hi (Nat.not_lt_zero i)⟩
    (fun k acc _ hP => by
      have hsum : acc.2 + calcF (s.getNumBreaksByFlip F (rclause.subscript k) B.caching) =
          prefixSum (weightOf B F calcF s rclause) (k + 1) := by
        rw [hP.1, prefixSum_succ]
        rfl
      refine ⟨hsum, fun i hi => ?_⟩
      simp only [hsum, Vec.get_set]
      split
      · rename_i e
        rw [Int.natCast_inj.1 e]
      · exact hP.2 i (by omega))
  exact h

/-- The last prefix sum is the sum, and positive. -/
theorem prefixSums_last (B : Build) (F : CnfFormula) {calcF : Int → K} (hpos : ∀ b, 0 < calcF b) (s : SerialInstance)
    (rclause : Clause) (hne : 0 < rclause.numVars) :
    0 < (prefixSums B F calcF s rclause).2 ∧
      (prefixSums B F calcF s rclause).1.get (rclause.numVars - 1 : Nat) = (prefixSums B F calcF s rclause).2 := by
  obtain ⟨hlast, hcell⟩ := prefixSums_eq B F calcF s rclause
  have hsum : 0 < prefixSum (weightOf B F calcF s rclause) rclause.numVars := by
    rw [← prefixSum_zero (weightOf B F calcF s rclause)]
    exact prefixSum_mono (fun i => hpos _) hne
  rw [hlast, hcell _ (by omega), Nat.sub_add_cancel hne]
  exact ⟨hsum, rfl⟩

/-- The second loop of `do_flip` finds a literal of the clause. -/
theorem chosenLiteral_mem (hw : F.WellFormed) (B : Build) {calcF : Int → K} (hpos : ∀ b, 0 < calcF b) {rand : K → K}
    (hrand : ∀ x, 0 < x → rand x < x) {s : SerialInstance} (hr : F.InRange s.getIndexOfRandomUnsatisfiedClause) :
    chosenLiteral B F calcF rand s ∈ s.pickedClause F := by
  have hwidth := hw.width _ (CnfFormula.getClause_mem hr)
  change 1 ≤ (s.pickedClause F).length ∧ (s.pickedClause F).length ≤ 256 at hwidth
  have hlen : (s.pickedClause F).numVars = (s.pickedClause F).length := rfl
  obtain ⟨hsum, hlast⟩ := prefixSums_last B F hpos s (s.pickedClause F) (by omega)
  unfold chosenLiteral chooseLiteral
  simp only
  cases hfind : (List.range (s.pickedClause F).numVars).find? fun (i : Nat) =>
      decide (rand (prefixSums B F calcF s (s.pickedClause F)).2 < (prefixSums B F calcF s (s.pickedClause F)).1.get i)
        with
  | none =>
    rw [List.find?_eq_none] at hfind
    refine absurd ?_ (hfind ((s.pickedClause F).numVars - 1) (List.mem_range.2 (by omega)))
    rw [decide_eq_true_iff, hlast]
    exact hrand _ hsum
  | some i =>
    have hi := List.mem_range.1 (List.mem_of_find?_eq_some hfind)
    rw [Option.elim_some]
    exact Clause.subscript_mem hi

/-- The literal to flip is a false one of the picked clause. -/
theorem ListInv.chosen (hw : F.WellFormed) (hx : ∀ v, 0 ≤ v → v < F.numVariables → F.ExactAt v) (B : Build)
    {calcF : Int → K} (hpos : ∀ b, 0 < calcF b) {rand : K → K} (hrand : ∀ x, 0 < x → rand x < x) {s : SerialInstance}
    (h : ListInv F s) (hrun : s.foundSolution = false) :
    chosenLiteral B F calcF rand s ∈ s.pickedClause F ∧ F.IsLiteral (chosenLiteral B F calcF rand s) ∧
      litTrue s.assignment (chosenLiteral B F calcF rand s) = false ∧
      F.ExactAt (varIndex (chosenLiteral B F calcF rand s)) := by
  obtain ⟨hr, hfalse⟩ := h.picked hrun
  have hmem := chosenLiteral_mem hw B hpos hrand hr
  have hlit := hw.isLiteral hr hmem
  exact ⟨hmem, hlit, hfalse _ hmem, hx _ (varIndex_nonneg hlit.1) hlit.2⟩

omit [IsStrictOrderedRing K] in
/-- Two builds with the same search choose the same literal. -/
theorem SameSearch.chosenLiteral (hF : SameIndex F F') (hw : F.WellFormed) (hw' : F'.WellFormed)
    (hx : ∀ v, 0 ≤ v → v < F.numVariables → F.ExactAt v) (hx' : ∀ v, 0 ≤ v → v < F'.numVariables → F'.ExactAt v)
    {B B' : Build} {s t : SerialInstance} (h : SameSearch F s t) (hs : CacheInv B F s) (ht : CacheInv B' F' t)
    (hrun : s.foundSolution = false) (calcF : Int → K) (rand : K → K) :
    s.pickedClause F = t.pickedClause F' ∧ chosenLiteral B F calcF rand s = chosenLiteral B' F' calcF rand t := by
  obtain ⟨hr, hfalse⟩ := hs.list.picked hrun
  have hpos : 0 < s.unsatClauses.size := by
    rcases Nat.eq_zero_or_pos s.unsatClauses.size with h0 | h0
    · rw [foundSolution, h0] at hrun; cases hrun
    · exact h0
  have hsize : s.unsatClauses.size = t.unsatClauses.size := h.list.size
  have hpick : s.pickedClause F = t.pickedClause F' := by
    unfold pickedClause getIndexOfRandomUnsatisfiedClause
    rw [hF.getClause, ← h.flips, ← hsize]
    congr 1
    exact h.list.entry _ (by omega) (by have := Nat.mod_lt s.numFlipsDone hpos; simp only; omega)
  have hsums : prefixSums B F calcF s (s.pickedClause F) = prefixSums B' F' calcF t (s.pickedClause F) := by
    refine List.foldl_ext _ _ _ fun acc i hi => ?_
    have hi := List.mem_range.1 hi
    have hmem : (s.pickedClause F).subscript i ∈ s.pickedClause F := Clause.subscript_mem hi
    have hlit := hw.isLiteral hr hmem
    have hlit' := hF.isLiteral.2 hlit
    have hf := hfalse _ hmem
    have hf' : litTrue t.assignment ((s.pickedClause F).subscript i) = false := by rw [← h.litTrue_eq hlit, hf]
    have hbreaks : s.getNumBreaksByFlip F ((s.pickedClause F).subscript i) B.caching =
        t.getNumBreaksByFlip F' ((s.pickedClause F).subscript i) B'.caching := by
      rw [hs.getNumBreaksByFlip hw hlit hf (hx _ (varIndex_nonneg hlit.1) hlit.2),
        ht.getNumBreaksByFlip hw' hlit' hf' (hx' _ (varIndex_nonneg hlit'.1) hlit'.2), hF.breakSum]
      congr 1
      refine breakSum_congr (fun c hc => ?_) _
      rw [hF.trueLitsOf]
      exact trueLitsOf_congr hw h.assignment hc
    simp only [hbreaks]
  refine ⟨hpick, ?_⟩
  unfold SerialInstance.chosenLiteral
  simp only
  rw [← hpick, hsums]

end Choice

/-! ## Whole runs -/

section Runs

variable {K : Type} [Field K] [LinearOrder K] [IsStrictOrderedRing K]

/-- What two builds have in common between flips. -/
structure Alike (B B' : Build) (F F' : CnfFormula) (s t : SerialInstance) : Prop where
  left : CacheInv B F s
  right : CacheInv B' F' t
  same : SameSearch F s t

theorem Alike.foundSolution {B B' : Build} {s t : SerialInstance} (h : Alike B B' F F' s t) :
    s.foundSolution = t.foundSolution := by
  have hsize : s.unsatClauses.size = t.unsatClauses.size := h.same.list.size
  unfold SerialInstance.foundSolution
  rw [hsize]

/-- The clauses with their counts: 1 to 256 literals about `n` variables, none twice in a clause,
and every literal counted as often as it occurs, in a `cnt_t`. -/
structure ExactCounts (n : Int) (clauses : List Clause) (counts : Counts) : Prop where
  vars : 0 ≤ n
  width : ∀ c ∈ clauses, 1 ≤ c.length ∧ c.length ≤ 256
  literal : ∀ c ∈ clauses, ∀ l ∈ c, l ≠ 0 ∧ varIndex l < n
  clean : ∀ c ∈ clauses, Clean c
  exact : ∀ l, l ≠ 0 → varIndex l < n → counted counts l = numOccurrences clauses l
  fits : ∀ l, l ≠ 0 → varIndex l < n → counted counts l ≤ cntMax

namespace ExactCounts

variable {n : Int} {clauses : List Clause} {counts : Counts} (h : ExactCounts n clauses counts)
include h

theorem length_clausesOf (l : Int) : (clausesOf clauses l).length = numOccurrences clauses l :=
  numOccurrences_eq (fun c hc => (h.width c hc).2) l

theorem counted_eq {l : Int} (h0 : l ≠ 0) (hl : varIndex l < n) : counted counts l = (clausesOf clauses l).length := by
  rw [h.exact l h0 hl, h.length_clausesOf]

theorem cover : CountsCover n clauses counts :=
  .of_exact h.vars h.literal (fun _ h0 hl => h.counted_eq h0 hl) h.fits

variable {u : Bool} {F : CnfFormula} (hF : CnfFormula.initializeFormula u n clauses counts = .ok F)
include hF

theorem wellFormed : F.WellFormed := by
  obtain ⟨hv, hc⟩ := initializeFormula_frame hF
  exact ⟨by rw [hc]; exact h.width, by unfold CnfFormula.IsLiteral; rw [hc, hv]; exact h.literal,
    by rw [hv]; exact h.vars⟩

theorem iterators {v : Int} (h0 : 0 ≤ v) (hn : v < n) :
    F.getIteratorsForClausesWithVars v = (clausesOf clauses (-(v + 1)), clausesOf clauses (v + 1)) := by
  refine initializeFormula_counted h.cover hF h0 hn ?_ ?_
  · exact h.counted_eq (by omega) (by unfold varIndex; omega)
  · exact h.counted_eq (by omega) (by unfold varIndex; omega)

theorem exactAt {v : Int} (h0 : 0 ≤ v) (hn : v < F.numVariables) : F.ExactAt v := by
  obtain ⟨hv, hc⟩ := initializeFormula_frame hF
  rw [hv] at hn
  refine exactAt_of_iterators (h.wellFormed hF) ?_
  rw [h.iterators hF h0 hn, hc]

end ExactCounts

/-- A new instance has the same list in every build, on configurations with the same values. -/
theorem SameSearch.new_of_read (hF : SameIndex F F') (hw : F.WellFormed) (hw' : F'.WellFormed) (B B' : Build)
    (mem mem' : Memory) {config config' : Bitfield} (hc : HasAssignment F config) (hc' : HasAssignment F' config')
    (hsame : ∀ v, 0 ≤ v → v < F.numVariables → config.read v = config'.read v) :
    SameSearch F (SerialInstance.new B F mem config) (SerialInstance.new B' F' mem' config') := by
  obtain ⟨hb, hflips⟩ := new_frame B F mem config
  obtain ⟨hb', hflips'⟩ := new_frame B' F' mem' config'
  have hread : ∀ v, 0 ≤ v → v < F.numVariables →
      (SerialInstance.new B F mem config).assignment v = (SerialInstance.new B' F' mem' config').assignment v := by
    intro v h0 hv
    rw [(new_assignment hc).2 v h0 hv, (new_assignment hc').2 v h0 (by rw [hF.vars]; exact hv)]
    exact hsame v h0 hv
  -- the loops of both constructors run side by side
  have h := foldl_range (n := F.clauses.length)
    (f := fun (p : SerialInstance × SerialInstance) (i : Nat) => (initClause B F p.1 i, initClause B' F' p.2 i))
    (P := fun i p => SameCells (fun c => 0 ≤ c ∧ c < i) (p.1.unsatClauses, p.1.unsatClausesLocation)
        (p.2.unsatClauses, p.2.unsatClausesLocation) ∧
      p.1.belegung = (SerialInstance.new B F mem config).belegung ∧
      p.2.belegung = (SerialInstance.new B' F' mem' config').belegung)
    (s := (constructed B F mem config, constructed B' F' mem' config'))
    ⟨⟨rfl, fun p h0 hp => absurd hp (not_lt.2 h0), fun c hc => by omega⟩, hb.symm, hb'.symm⟩
    (fun i p hi hP => by
      obtain ⟨hcells, hp, hp'⟩ := hP
      refine ⟨?_, (initClause_frame B F p.1 i).1.trans hp, (initClause_frame B' F' p.2 i).1.trans hp'⟩
      have hin : F.InRange i := ⟨by omega, by unfold CnfFormula.numClauses; omega⟩
      have hnum : p.1.getNumSatLitInClause F i = p.2.getNumSatLitInClause F' i := by
        rw [numSatLitInClause_eq hw _ hin, numSatLitInClause_eq hw' _ (hF.inRange.2 hin), hF.trueLitsOf]
        unfold SerialInstance.assignment
        rw [hp, hp']
        exact congrArg Multiset.card (trueLitsOf_congr hw hread hin)
      rw [initClause_list, initClause_list, ← hnum]
      have hdom : ∀ d : Int, (0 ≤ d ∧ d < (i + 1 : Nat)) → (0 ≤ d ∧ d < i) ∨ d = i := fun d hd => by omega
      split
      · exact hcells.push i hdom
      · exact hcells.set i _ hdom)
  rw [foldl_pair (fun s (i : Nat) => initClause B F s i) (fun s (i : Nat) => initClause B' F' s i)] at h
  obtain ⟨hcells, -, -⟩ := h
  have hlen : F'.clauses.length = F.clauses.length := by rw [hF.clauses]
  refine ⟨?_, by rw [hflips, hflips'], hread⟩
  unfold SameList
  rw [new_eq, new_eq]
  unfold initializeInstance
  rw [hlen]
  exact ⟨hcells.size, hcells.entry, fun c hc => hcells.location c hc⟩

theorem SameSearch.new (hF : SameIndex F F') (hw : F.WellFormed) (hw' : F'.WellFormed) (B B' : Build)
    (mem mem' : Memory) {config : Bitfield} (hc : HasAssignment F config) (hc' : HasAssignment F' config) :
    SameSearch F (new B F mem config) (new B' F' mem' config) :=
  .new_of_read hF hw hw' B B' mem mem' hc hc' fun _ _ _ => rfl

/-- One `do_flip` on both sides. -/
theorem Alike.doFlip (hF : SameIndex F F') (hw : F.WellFormed) (hw' : F'.WellFormed)
    (hx : ∀ v, 0 ≤ v → v < F.numVariables → F.ExactAt v) (hx' : ∀ v, 0 ≤ v → v < F'.numVariables → F'.ExactAt v)
    (hclean : ∀ c ∈ F.clauses, Clean c) {B B' : Build} {s t : SerialInstance} (h : Alike B B' F F' s t)
    (hrun : s.foundSolution = false) {calcF : Int → K} (hpos : ∀ b, 0 < calcF b) {rand : K → K}
    (hrand : ∀ x, 0 < x → rand x < x) :
    Alike B B' F F' (doFlip B F calcF rand s) (doFlip B' F' calcF rand t) := by
  obtain ⟨hmem, hlit, hfalse, hx₁⟩ := h.left.list.chosen hw hx B hpos hrand hrun
  obtain ⟨hpick, hchosen⟩ := h.same.chosenLiteral hF hw hw' hx hx' h.left h.right hrun calcF rand
  have hlit' := hF.isLiteral.2 hlit
  have hx₂ := hx' _ (varIndex_nonneg hlit'.1) hlit'.2
  have hsame := h.same.flipLiteral hF B B' h.left.list h.right.list hlit hfalse hx₁
  unfold SerialInstance.doFlip
  rw [← hchosen]
  generalize SerialInstance.chosenLiteral B F calcF rand s = l at hmem hlit hx₁ hlit' hx₂ hsame
  refine ⟨h.left.flipChosen hw (fun _ => hclean) hrun hmem hx₁, ?_, ?_⟩
  · exact h.right.flipChosen hw' (fun _ => by rw [hF.clauses]; exact hclean) (h.foundSolution ▸ hrun)
      (hpick ▸ hmem) hx₂
  · exact ⟨hsame.list, by rw [flipChosen_eq, flipChosen_eq, h.same.flips], hsame.assignment⟩

end Runs

/-- The counts of three clauses over two variables. -/
def threeCounts : Counts := ⟨2, fun v => if v = 0 then (1, 1) else (1, 2)⟩

theorem threeClauses_exactCounts : ExactCounts 2 threeClauses.clauses threeCounts where
  vars := by decide
  width := by decide
  literal := by decide
  clean := by decide
  exact l h0 hl := by
    obtain ⟨h1, h2⟩ : -2 ≤ l ∧ l ≤ 2 := by unfold varIndex at hl; omega
    interval_cases l <;> first | rfl | exact absurd rfl h0
  fits l h0 hl := by
    obtain ⟨h1, h2⟩ : -2 ≤ l ∧ l ≤ 2 := by unfold varIndex at hl; omega
    interval_cases l <;> decide

/-- The formula of the three clauses in either layout. -/
def threeFormula (u : Bool) : CnfFormula :=
  match CnfFormula.initializeFormula u 2 threeClauses.clauses threeCounts with
  | .ok F => F
  | .error _ => threeClauses

end SerialInstance

end ParallelProbsat.Sat
