/-
Clauses of any width, from the line to the index. `operator[]` takes an index of eight bits where the
loops count with `size_t`: they see the literals of a clause as they stand up to 256 of them, and the
first literals again from there on. The test for repeated variables then meets the first literal a
second time, and the clause is rejected as unclean, whatever its literals are.
-/
import ParallelProbsat.Sat.WrittenFormula
import Mathlib.Tactic

namespace ParallelProbsat.Sat

open ParallelProbsat.Lib ParallelProbsat.Util

/-- The variables of `read` before the first line. -/
def ReadState.start : ReadState := ⟨0, 0, [], ⟨0, fun _ => (0, 0)⟩, []⟩

/-- The clauses the iterators of a literal run over. -/
def CnfFormula.clausesWith (F : CnfFormula) (l : Int) : List Int :=
  if 0 > l then (F.getIteratorsForClausesWithVars (varIndex l)).1
  else (F.getIteratorsForClausesWithVars (varIndex l)).2

/-- The line of the clause `c` is read as written: every loop over the clause sees its literals in order,
the line is accepted and the clause stored behind those read before, and every formula built with
it lists it for each of its literals, in either layout and whatever clauses follow. -/
structure ReadWhole (st : ReadState) (c : Clause) : Prop where
  seen : c.seen = c
  accepted : ∃ st', readLine st (clauseLine c) = .ok st' ∧ st'.clauses = st.clauses ++ [c]
  indexed : ∀ u n later counts F, CountsCover n (st.clauses ++ c :: later) counts →
    CnfFormula.initializeFormula u n (st.clauses ++ c :: later) counts = .ok F →
    ∀ l ∈ c, (st.clauses.length : Int) ∈ F.clausesWith l

/-! ## What the loops see -/

/-- A clause over different variables is seen as it is exactly up to 256 literals. -/
theorem seen_eq_iff {c : Clause} (h : Clean c) : c.seen = c ↔ c.length ≤ 256 := by
  constructor
  · intro hseen
    by_contra hw
    have hlt : 256 < c.length := by omega
    have h256 : (c)[256]? = some (c.subscript 256) := by
      conv_lhs => rw [← hseen, Clause.seen, Clause.numVars]
      rw [List.getElem?_map, List.getElem?_range hlt, Option.map_some]
    have h0 : (c)[0]? = some (c.subscript 256) := by
      rw [Clause.subscript, List.getD_eq_getElem?_getD, Nat.mod_self, List.getElem?_eq_getElem (by omega),
        Option.getD_some]
    obtain ⟨_, e256⟩ := List.getElem?_eq_some_iff.1 h256
    obtain ⟨_, e0⟩ := List.getElem?_eq_some_iff.1 h0
    have := (List.Nodup.getElem_inj_iff h.nodup).1 (e256.trans e0.symm)
    omega
  · exact Clause.seen_eq

/-! ## Wide clauses are rejected -/

theorem isUnclean_of_wide {c : Clause} (hw : 256 < c.length) : isUnclean c = true := by
  unfold isUnclean
  apply List.any_eq_true.2
  exact ⟨(c.subscript 256, c.subscript 0), mem_literalPairs.2 ⟨256, 0, by decide, hw, rfl⟩, by simp [Clause.subscript]⟩

theorem not_isAlwaysTrue {c : Clause} (h : Clean c) : isAlwaysTrue c = false := by
  unfold isAlwaysTrue
  apply List.any_eq_false.2
  rintro p hp
  obtain ⟨i, j, hji, hi, rfl⟩ := mem_literalPairs.1 hp
  simp only [Bool.and_eq_true, beq_iff_eq, bne_iff_ne, not_and, not_not]
  intro hv
  exact List.inj_on_of_nodup_map h (Clause.subscript_mem hi) (Clause.subscript_mem (hji.trans hi)) hv

/-- There are no more literals over different variables than variables. -/
theorem length_le_of_clean {c : Clause} {n : Int} (hn : 0 ≤ n) (h : Clean c)
    (hlit : ∀ l ∈ c, l ≠ 0 ∧ (l.natAbs : Int) ≤ n) : (c.length : Int) ≤ n := by
  have hsub : (c.map varIndex).toFinset ⊆ Finset.Ico 0 n := by
    intro v hv
    obtain ⟨l, hl, rfl⟩ := List.mem_map.1 (List.mem_toFinset.1 hv)
    obtain ⟨h0, hle⟩ := hlit l hl
    have := varIndex_nonneg h0
    refine Finset.mem_Ico.2 ⟨this, ?_⟩
    unfold varIndex
    omega
  have hcard := Finset.card_le_card hsub
  rw [List.toFinset_card_of_nodup h, List.length_map, Int.card_Ico, sub_zero] at hcard
  omega

/-- With room in the counters, a clause of more than 256 literals over different variables is rejected. -/
theorem readLine_wide {st : ReadState} (hI : ReadInv st) {c : Clause} (hw : 256 < c.length)
    (hlit : ∀ l ∈ c, l ≠ 0 ∧ (l.natAbs : Int) ≤ st.numVars) (hclean : Clean c)
    (hfits : ∀ l ∈ c, counted st.counts l + c.count l ≤ cntMax) :
    ∃ field, readLine st (clauseLine c) = .error ⟨field, .runtimeError "cant process unclean clause!"⟩ := by
  have hne : c ≠ [] := List.ne_nil_of_length_pos (by omega)
  have hvars : (c.length : Int) ≤ st.numVars := length_le_of_clean (by rw [← hI.size]; omega) hclean hlit
  have hmax := hvars.trans hI.vars
  obtain ⟨hfields, hstored, -⟩ := clauseLine_says hI.vars ⟨by omega, hmax⟩ hlit
  obtain ⟨hends, -⟩ := clauseLine_ends hne hmax fun l hl => ⟨(hlit l hl).1, le_trans (hlit l hl).2 hI.vars⟩
  obtain ⟨counts, hcounts⟩ := foldlM_parseField_passes hI.vars hI.size hI.range hlit hfits
  refine ⟨(c.map decimal).getLastD st.field, ?_⟩
  rw [readLine_clause (isClauseLine_clauseLine hne)]
  unfold parseClause
  rw [if_neg (by rw [hends]; decide), hfields]
  have hpos : ¬ 1 > c.length := by omega
  simp only [hcounts, hstored, not_isAlwaysTrue hclean, isUnclean_of_wide hw, List.length_map, hpos, if_false,
    not_true_eq_false, Bool.false_eq_true, if_true]
  rfl

/-! ## Clauses that are accepted -/

theorem readInv_of_readLines {lines : List Text} {st : ReadState} (h : readLines 1 .start lines = .ok st) :
    ReadInv st :=
  (readLines_ok lines 1 .start st .start h).inv

/-- A line is accepted exactly when its clause is narrow and the counters have room for its literals. -/
theorem accepted_iff {st : ReadState} (hI : ReadInv st) {c : Clause} (hne : c ≠ [])
    (hlit : ∀ l ∈ c, l ≠ 0 ∧ (l.natAbs : Int) ≤ st.numVars) (hclean : Clean c) :
    (∃ st', readLine st (clauseLine c) = .ok st' ∧ st'.clauses = st.clauses ++ [c]) ↔
      c.length ≤ 256 ∧ ∀ l ∈ c, counted st.counts l < cntMax := by
  have hpos : 1 ≤ c.length := List.length_pos_of_ne_nil hne
  have hcount : ∀ l ∈ c, c.count l = 1 := fun l hl => List.count_eq_one_of_mem hclean.nodup hl
  have hvars : (c.length : Int) ≤ st.numVars := length_le_of_clean (by rw [← hI.size]; omega) hclean hlit
  constructor
  · rintro ⟨st', hok, hclauses⟩
    obtain ⟨hI', hread⟩ := readLine_ok hI hok
    refine ⟨(hI'.clauses c (by rw [hclauses]; simp)).1.2, ?_⟩
    intro l hl
    obtain ⟨hvars', hin, hcounted, -⟩ := hread.of_clauseLine (isClauseLine_clauseLine hne)
    obtain ⟨-, -, hliterals⟩ := clauseLine_says hI.vars ⟨hpos, hvars.trans hI.vars⟩ hlit
    rw [hliterals] at hin hcounted
    have hrange := hI'.range l (hlit l hl).1 (by rw [hI'.size, hvars']; exact (hin l hl).2)
    rw [hcounted l (hlit l hl).1, hcount l hl] at hrange
    omega
  · rintro ⟨hw, hroom⟩
    obtain ⟨st', hok, -, -, hclauses, -⟩ := readLine_clauseLine hI ⟨hpos, hw⟩ hlit hclean (by
      intro l hl
      have := hroom l hl
      rw [hcount l hl]
      omega)
    exact ⟨st', hok, hclauses⟩

/-! ## Clauses that are indexed -/

/-- A clause that is seen as it is is listed for each of its literals. -/
theorem mem_clausesWith {u : Bool} {n : Int} {before later : List Clause} {c : Clause} {counts : Counts}
    {F : CnfFormula} (hseen : c.seen = c) (hc : CountsCover n (before ++ c :: later) counts)
    (hF : CnfFormula.initializeFormula u n (before ++ c :: later) counts = .ok F) {l : Int} (hl : l ∈ c) :
    (before.length : Int) ∈ F.clausesWith l := by
  obtain ⟨h0, hv⟩ := hc.literal c (by simp) l hl
  have hv0 := varIndex_nonneg h0
  have hmem : (before.length : Int) ∈ clausesOf (before ++ c :: later) l := by
    apply List.count_pos_iff.1
    rw [clausesOf_eq, count_clausesOf_from, if_pos (by simp)]
    simpa [hseen] using hl
  have hpadded : (before.length : Int) ∈ paddedClausesOf (before ++ c :: later) counts l := List.mem_append_left _ hmem
  unfold CnfFormula.clausesWith
  rw [initializeFormula_iterators hc hF hv0 hv]
  rcases varIndex_cases h0 with ⟨hneg, e⟩ | ⟨hpos, e⟩
  · rw [if_pos hneg, e]
    cases u
    · exact hmem
    · exact hpadded
  · rw [if_neg (show ¬ 0 > l by omega), e]
    cases u
    · exact hmem
    · exact hpadded

/-- Which clauses over different variables are read as written, after any lines. -/
theorem readWhole_iff {lines : List Text} {st : ReadState} (h : readLines 1 .start lines = .ok st) {c : Clause}
    (hk : 1 ≤ c.length) (hlit : ∀ l ∈ c, l ≠ 0 ∧ (l.natAbs : Int) ≤ st.numVars) (hclean : Clean c) :
    ReadWhole st c ↔ c.length ≤ 256 ∧ ∀ l ∈ c, counted st.counts l < cntMax := by
  have haccepted := accepted_iff (readInv_of_readLines h) (List.ne_nil_of_length_pos hk) hlit hclean
  constructor
  · rintro ⟨-, hacc, -⟩
    exact haccepted.1 hacc
  · rintro hwide
    have hseen := (seen_eq_iff hclean).2 hwide.1
    exact ⟨hseen, haccepted.2 hwide, fun u n later counts F hc hF l hl => mem_clausesWith hseen hc hF hl⟩

/-! ## 257 literals -/

/-- The p line alone. -/
theorem readLines_configurationLine {n m : Int} (hn : 1 ≤ n ∧ n < numMax) (hm : 1 ≤ m ∧ m < numMax) :
    readLines 1 .start [configurationLine n m] =
      .ok ⟨n, m, [], (⟨0, fun _ => (0, 0)⟩ : Counts).resize n.toNat (0, 0), decimal m⟩ := by
  rw [readLines, readLine_configurationLine hn hm]
  rfl

/-- The literals 1 to 257. -/
def wideClause : Clause := (List.range 257).map fun i : Nat => (i : Int) + 1

theorem wideClause_clean : Clean wideClause := by
  unfold Clean wideClause
  rw [List.map_map]
  apply List.nodup_range.map
  intro i j hij
  simp only [Function.comp_apply, varIndex] at hij
  omega

theorem wideClause_literal : ∀ l ∈ wideClause, l ≠ 0 ∧ (l.natAbs : Int) ≤ 257 := by
  intro l hl
  obtain ⟨i, hi, rfl⟩ := List.mem_map.1 hl
  have := List.mem_range.1 hi
  omega

/-- After "p cnf 257 1" the clause 1 ... 257 is rejected, although no counter is full. -/
theorem wideClause_not_whole : ∃ st, readLines 1 .start [configurationLine 257 1] = .ok st ∧
    (∀ l ∈ wideClause, counted st.counts l < cntMax) ∧ ¬ReadWhole st wideClause ∧
    ∃ field, readLine st (clauseLine wideClause) = .error ⟨field, .runtimeError "cant process unclean clause!"⟩ := by
  have hread := readLines_configurationLine (n := 257) (m := 1) (by decide) (by decide)
  have hzero : ∀ l, counted ((⟨0, fun _ => (0, 0)⟩ : Counts).resize (257 : Int).toNat (0, 0)) l = 0 := by
    intro l
    simp only [counted, Vec.get_resize]
    split_ifs <;> rfl
  have hwide : 256 < wideClause.length := by simp [wideClause]
  refine ⟨_, hread, ?_, ?_, readLine_wide (readInv_of_readLines hread) hwide wideClause_literal wideClause_clean ?_⟩
  · intro l _
    rw [hzero]
    decide
  · rintro ⟨hseen, -, -⟩
    have := (seen_eq_iff wideClause_clean).1 hseen
    omega
  · intro l hl
    rw [hzero, List.count_eq_one_of_mem wideClause_clean.nodup hl]
    decide

/-- After "p cnf 2 1" the clause 1 -2 is. -/
theorem readWhole_iff_two : ∃ st, readLines 1 .start [configurationLine 2 1] = .ok st ∧
    (ReadWhole st [1, -2] ↔ ([1, -2] : Clause).length ≤ 256 ∧ ∀ l ∈ ([1, -2] : Clause), counted st.counts l < cntMax) :=
  ⟨_, readLines_configurationLine (by decide) (by decide),
    readWhole_iff (readLines_configurationLine (by decide) (by decide)) (by decide) (by decide) (by decide)⟩

end ParallelProbsat.Sat
