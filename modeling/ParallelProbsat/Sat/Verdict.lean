/-
From the text to the verdict: when the solving loop stops because `found_solution` is true, does the
assignment satisfy every stored clause? It does in every run on a text that counts no literal less
often than it stores it, as long as no flipped variable has a surplus count. For a surplus count the
continuous index lists clause 0 once more than it should, and flipping that variable miscounts its
true literals.
-/
import ParallelProbsat.Sat.ReadCounts
import ParallelProbsat.Sat.UnsatList

namespace ParallelProbsat.Sat

open ParallelProbsat.Lib ParallelProbsat.Util

/-! ## The formula of a text -/

/-- The text names no variable it does not declare, and counts no literal less often than the
clauses it keeps hold it. -/
structure CountsEnough (text : Text) : Prop where
  literal : IrregularInRange text
  counts : ∀ l, l ≠ 0 → varIndex l < lastDeclared 0 (textLines text) → 0 ≤ surplus l (textLines text)

/-- The literals about the variable of `l` are counted as often as they occur. -/
def BalancedAt (text : Text) (l : Int) : Prop := surplus l (textLines text) = 0 ∧ surplus (-l) (textLines text) = 0

section Load

variable {text : Text} {r : Input} (h : ReadFacts text r) (he : CountsEnough text)
include h he

theorem ReadFacts.cover : CountsCover r.numVars r.clauses r.counts where
  vars := by have := h.size; omega
  literal c hc l hl := h.isLiteral he.literal hc hl
  range := h.range
  covers l hl hvl := by
    rw [numOccurrences_eq (fun c hc => (h.widthClean c hc).1.2), h.stored, h.counts l hl hvl, countedIn_eq]
    have := he.counts l hl (by rw [← h.last]; exact hvl)
    omega

theorem ReadFacts.wellFormed {F : CnfFormula} {u : Bool}
    (hF : CnfFormula.initializeFormula u r.numVars r.clauses r.counts = .ok F) : F.WellFormed := by
  obtain ⟨hv, hc⟩ := initializeFormula_frame hF
  refine ⟨?_, ?_, ?_⟩
  · rw [hc]; exact fun c hc => (h.widthClean c hc).1
  · unfold CnfFormula.IsLiteral
    rw [hc, hv]
    exact fun c hc l hl => h.isLiteral he.literal hc hl
  · rw [hv]; have := h.size; omega

/-- Where the text is balanced, the index is exact. -/
theorem ReadFacts.exactAt {F : CnfFormula} {u : Bool}
    (hF : CnfFormula.initializeFormula u r.numVars r.clauses r.counts = .ok F) {l : Int} (hl : F.IsLiteral l)
    (hb : BalancedAt text l) : F.ExactAt (varIndex l) := by
  obtain ⟨hv, hc⟩ := initializeFormula_frame hF
  obtain ⟨h0, hlt⟩ := hl
  rw [hv] at hlt
  have hcounted : ∀ x, x ≠ 0 → varIndex x = varIndex l → surplus x (textLines text) = 0 →
      counted r.counts x = (clausesOf r.clauses x).length := by
    intro x hx hvx hs
    rw [numOccurrences_eq (fun c hc => (h.widthClean c hc).1.2), h.stored, h.counts x hx (by rw [hvx]; exact hlt),
      countedIn_eq, hs, add_zero]
  have hboth : ∀ x, x = l ∨ x = -l → counted r.counts x = (clausesOf r.clauses x).length := by
    rintro x (rfl | rfl)
    · exact hcounted x h0 rfl hb.1
    · exact hcounted _ (by omega) (varIndex_neg l) hb.2
  have hnn := varIndex_nonneg h0
  refine exactAt_of_iterators (h.wellFormed he hF) ?_
  rw [initializeFormula_counted (h.cover he) hF hnn hlt (hboth _ (by unfold varIndex; omega))
    (hboth _ (by unfold varIndex; omega)), hc]

end Load

theorem load_ok {u : Bool} {text : Text} {F : CnfFormula} (h : CnfFormula.load u text = .ok F) :
    ∃ r, read text = .ok r ∧ CnfFormula.initializeFormula u r.numVars r.clauses r.counts = .ok F := bind_ok h

/-! ## Runs -/

namespace SerialInstance

/-- A step of the solving loop that flips a literal of the picked clause for which the text is balanced. -/
inductive BalancedFlip (text : Text) (B : Build) (F : CnfFormula) : SerialInstance → SerialInstance → Prop
  | flip (s : SerialInstance) (rlit : Int) (hrun : s.foundSolution = false) (hmem : rlit ∈ s.pickedClause F)
      (hbalanced : BalancedAt text rlit) : BalancedFlip text B F s (flipChosen B F s rlit)

theorem listInv_of_balancedFlips {u : Bool} {text : Text} {F : CnfFormula} (hF : CnfFormula.load u text = .ok F)
    (he : CountsEnough text) {B : Build} {mem : Memory} {config : Bitfield} (hc : HasAssignment F config)
    {s : SerialInstance} (h : Relation.ReflTransGen (BalancedFlip text B F) (new B F mem config) s) : ListInv F s := by
  obtain ⟨r, hr, hinit⟩ := load_ok hF
  have hf := read_ok hr
  have hw := hf.wellFormed he hinit
  induction h with
  | refl => exact .new hw B mem hc
  | tail _ hstep ih =>
    cases hstep with
    | flip l hrun hl hb =>
      have hlit := hw.isLiteral (ih.picked hrun).1 hl
      exact ih.flipChosen hw B hrun hl (hf.exactAt he hinit hlit hb)

/-- On a text that counts no literal too seldom, a run that flips only variables counted exactly
reports a solution only when its assignment satisfies every stored clause. -/
theorem foundSolution_safe (text : Text) (F : CnfFormula) (hF : CnfFormula.load true text = .ok F)
    (he : CountsEnough text) (mem : Memory) (config : Bitfield) (hc : HasAssignment F config) (s : SerialInstance)
    (h : Relation.ReflTransGen (BalancedFlip text defaultBuild F) (new defaultBuild F mem config) s)
    (hfound : s.foundSolution = true) : s.checkAssignment F = true := by
  obtain ⟨r, hr, hinit⟩ := load_ok hF
  have hw := (read_ok hr).wellFormed he hinit
  exact ((listInv_of_balancedFlips hF he hc h).exact.foundSolution_iff hw).1 hfound

/-- "p cnf 1 1", "1 0": one unit clause. -/
def unitText : Text := ['p', ' ', 'c', 'n', 'f', ' ', '1', ' ', '1', '\n', '1', ' ', '0']

/-- "p cnf 3 3", "1 2 0", "-1 2 0", "3 -3 0": the last clause is always true, and dropped after it was counted for the
variable 3. -/
def spareText : Text := "p cnf 3 3\n1 2 0\n-1 2 0\n3 -3 0".toList

theorem spareText_enough : CountsEnough spareText := by
  have hdeclared : lastDeclared 0 (textLines spareText) = 3 := by decide +kernel
  constructor
  · intro line rest hsuf hline hirregular hkept
    have hlines : ∀ lines ∈ (textLines spareText).tails, (!isClauseLine (lines.headD []) ||
        regular (lines.headD []) lines.tail || isAlwaysTrue (storedLiterals (lines.headD []))) = true := by
      decide +kernel
    have h := hlines _ ((List.mem_tails _ _).2 hsuf)
    simp [hline, hirregular, hkept] at h
  · intro l h0 hl
    have hsurplus : ∀ l ∈ [-3, -2, -1, 1, 2, 3], 0 ≤ surplus l (textLines spareText) := by decide +kernel
    rw [hdeclared] at hl
    unfold varIndex at hl
    apply hsurplus
    simp only [List.mem_cons, List.not_mem_nil, or_false]
    omega

/-- From the assignment that makes every variable false, two steps on it that flip the first two variables. -/
def spareRun (F : CnfFormula) : Bool :=
  let s₀ := new defaultBuild F ⟨0, 0, 0, 0⟩ ⟨3, 3, false, 0⟩
  let s₁ := flipChosen defaultBuild F s₀ 1
  F.numVariables == 3 && !s₀.foundSolution && s₀.pickedClause F == [1, 2] && !s₁.foundSolution &&
    s₁.pickedClause F == [-1, 2] && (flipChosen defaultBuild F s₁ 2).foundSolution

theorem spareText_run : (CnfFormula.load true spareText).toOption.elim false spareRun = true := by decide +kernel

theorem foundSolution_safe_spareText : ∃ F, CnfFormula.load true spareText = .ok F ∧
    (flipChosen defaultBuild F (flipChosen defaultBuild F (new defaultBuild F ⟨0, 0, 0, 0⟩ ⟨3, 3, false, 0⟩) 1)
      2).checkAssignment F = true := by
  obtain ⟨F, hF, hrun⟩ := ok_of_elim_toOption spareText_run
  simp only [spareRun, Bool.and_eq_true, beq_iff_eq, Bool.not_eq_true'] at hrun
  obtain ⟨⟨⟨⟨⟨hn, hrun₀⟩, hpick₀⟩, hrun₁⟩, hpick₁⟩, hfound⟩ := hrun
  have hfirst : BalancedAt spareText 1 := ⟨by decide +kernel, by decide +kernel⟩
  have hsecond : BalancedAt spareText 2 := ⟨by decide +kernel, by decide +kernel⟩
  refine ⟨F, hF, foundSolution_safe spareText F hF spareText_enough ⟨0, 0, 0, 0⟩ ⟨3, 3, false, 0⟩
    ⟨hn.symm, by decide, by decide⟩ _ ?_ hfound⟩
  refine .tail (.single (.flip _ 1 hrun₀ ?_ hfirst)) (.flip _ 2 hrun₁ ?_ hsecond)
  · rw [hpick₀]
    exact List.mem_cons_self
  · rw [hpick₁]
    exact List.mem_cons_of_mem _ List.mem_cons_self

/-- "p cnf 3 4", "-1 0", "1 0", "2 0", "2 3 -3 0": the last clause is always true, and dropped after
it was counted for the variables 2 and 3. -/
def phantomText : Text :=
  ['p', ' ', 'c', 'n', 'f', ' ', '3', ' ', '4', '\n', '-', '1', ' ', '0', '\n', '1', ' ', '0', '\n', '2',
    ' ', '0', '\n', '2', ' ', '3', ' ', '-', '3', ' ', '0']

/-- From the assignment that makes every variable false, two steps leave no unsatisfied clause in the
list, although the first clause is unsatisfied. -/
def phantomRun (F : CnfFormula) : Bool :=
  let s₀ := new defaultBuild F ⟨0, 0, 0, 0⟩ ⟨3, 3, false, 0⟩
  let s₁ := flipChosen defaultBuild F s₀ 1
  let s₂ := flipChosen defaultBuild F s₁ 2
  F.numVariables == 3 && !s₀.foundSolution && s₀.pickedClause F == [1] && !s₁.foundSolution &&
    s₁.pickedClause F == [2] &&
    s₂.foundSolution && !s₂.checkAssignment F

theorem phantomText_run : (CnfFormula.load true phantomText).toOption.elim false phantomRun = true := by decide +kernel

theorem foundSolution_not_safe : ¬ ∀ text F mem config s, CnfFormula.load true text = .ok F → HasAssignment F config →
    Reached defaultBuild F mem config s → s.foundSolution = true → s.checkAssignment F = true := by
  intro h
  obtain ⟨F, hF, hrun⟩ := ok_of_elim_toOption phantomText_run
  simp only [phantomRun, Bool.and_eq_true, beq_iff_eq, Bool.not_eq_true'] at hrun
  obtain ⟨⟨⟨⟨⟨⟨hn, hrun₀⟩, hpick₀⟩, hrun₁⟩, hpick₁⟩, hfound⟩, hcheck⟩ := hrun
  have hreach : Reached defaultBuild F ⟨0, 0, 0, 0⟩ ⟨3, 3, false, 0⟩ _ :=
    .tail (.single (.flip _ 1 hrun₀ (by rw [hpick₀]; exact List.mem_singleton_self _)))
      (.flip _ 2 hrun₁ (by rw [hpick₁]; exact List.mem_singleton_self _))
  have := h phantomText F ⟨0, 0, 0, 0⟩ ⟨3, 3, false, 0⟩ _ hF ⟨hn.symm, by decide, by decide⟩ hreach hfound
  rw [this] at hcheck
  cases hcheck

end SerialInstance

end ParallelProbsat.Sat
