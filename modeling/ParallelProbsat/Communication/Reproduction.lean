/-
The parallel program and the sequential one do the same search: what a worker measures in an execution is what `probsat`
does with the same seed on the same file. So every solution the manager is told of can be found again.
-/
import ParallelProbsat.Answers
import ParallelProbsat.Communication.Attribution

namespace ParallelProbsat.Reproduction

open ParallelProbsat.Lib ParallelProbsat.Util ParallelProbsat.Sat ParallelProbsat.Communication
open Probsat (LinCongRandomGenerator doInitConfiguration getRandomValue IsConfiguration after after_numFlips
  Options Outcome)

/-! ## The formula both programs search -/

/-- A balanced text is loaded with exact counts. -/
theorem exists_counted {text : Text} {F : CnfFormula} (hF : CnfFormula.load true text = .ok F) (hb : Balanced text) :
    ∃ C : CountedFormula, C.formula = F := by
  obtain ⟨r, hr, hbuilt⟩ := load_ok hF
  have hread := read_ok hr
  have hlast := hread.last
  refine ⟨⟨F, r.numVars, r.clauses, r.counts, ?_, hbuilt⟩, rfl⟩
  constructor
  · have := hread.size
    omega
  · exact fun c hc => (hread.widthClean c hc).1
  · exact fun c hc l hl => hread.isLiteral hb.literal hc hl
  · exact fun c hc => (hread.widthClean c hc).2
  · intro l h0 hlt
    have hzero := hb.counts l h0 (by rw [← hlast]; exact hlt)
    rw [hread.counts l h0 hlt, countedIn_eq, hzero, add_zero, hread.stored]
  · exact fun l h0 hlt => (hread.range l h0 hlt).2

section Objects

variable {text : Text} {F : CnfFormula} (hF : CnfFormula.load true text = .ok F)
include hF

/-- The first call loads what the sequential program loads. -/
theorem callInitialize_of_load : ∃ obj, FormulaObject.new.callInitialize text = (obj, .ok ()) ∧ obj.toFormula = F := by
  rw [callInitialize_new] at hF
  rcases hcall : FormulaObject.new.callInitialize text with ⟨obj, e | u⟩
  · rw [hcall] at hF
    cases hF
  · rw [hcall] at hF
    cases hF
    exact ⟨obj, rfl, rfl⟩

/-- So do all later calls, when a clause is stored. -/
theorem after_of_load (hne : F.clauses ≠ []) :
    ∀ calls, ∃ obj, (FormulaObject.new.after text calls).callInitialize text = (obj, .ok ()) ∧
    obj.toFormula = F := by
  intro calls
  induction calls with
  | zero => exact callInitialize_of_load hF
  | succ calls ih =>
    obtain ⟨obj, hcall, rfl⟩ := ih
    refine ⟨obj, ?_, rfl⟩
    rw [FormulaObject.after, hcall]
    exact FormulaObject.callInitialize_loaded hne text

end Objects

/-! ## The two solving loops -/

section Search

variable {K : Type} [Field K] [LinearOrder K] [IsStrictOrderedRing K]

/-- What the execution draws are the numbers of the generator with its seed: for the start assignment, then for the
flips. -/
def Drawn (x : Circumstances K) (numVars : Int) : Prop :=
  ∃ b, IsConfiguration numVars b ∧ x.belegung = (doInitConfiguration numVars b (.ofSeed x.seed.toNat)).1 ∧
    ∀ k, x.getRandomValue k = Probsat.getRandomValue ((doInitConfiguration numVars b (.ofSeed x.seed.toNat)).2.number k)

/-- The sequential search that starts with the seed has found nothing before these flips, and then a solution or not. -/
def Reproduces (F : CnfFormula) (calcF : Int → K) (seed flips : Nat) (solved : Bool) : Prop :=
  ∀ b mem, IsConfiguration F.numVars b →
    let drawn := doInitConfiguration F.numVars b (.ofSeed seed)
    let start := SerialInstance.new defaultBuild F mem drawn.1
    (∀ k < flips, (after F calcF drawn.2 start k).foundSolution = false) ∧
      (after F calcF drawn.2 start flips).foundSolution = solved

variable (C : CountedFormula) {calcF : Int → K} (hpos : ∀ b, 0 < calcF b)

/-- Two instances on the same formula, with any contents of memory. -/
abbrev SameRun (s t : SerialInstance) : Prop := SerialInstance.Alike defaultBuild defaultBuild C.formula C.formula s t

theorem sameIndex_refl (F : CnfFormula) : SameIndex F F := ⟨rfl, rfl, fun _ _ _ => rfl⟩

theorem SameRun.new {b b' : Bitfield} (hb : IsConfiguration C.formula.numVars b)
    (hb' : IsConfiguration C.formula.numVars b')
    (mem mem' : SerialInstance.Memory) (hread : ∀ v, 0 ≤ v → v < C.formula.numVars → b.read v = b'.read v) :
    SameRun C (.new defaultBuild C.formula mem b) (.new defaultBuild C.formula mem' b') where
  left := .new C.wellFormed defaultBuild mem ⟨hb.1, hb.2⟩
  right := .new C.wellFormed defaultBuild mem' ⟨hb'.1, hb'.2⟩
  same := .new_of_read (sameIndex_refl _) C.wellFormed C.wellFormed _ _ mem mem' ⟨hb.1, hb.2⟩ ⟨hb'.1, hb'.2⟩ hread

include hpos in
theorem SameRun.doFlip {s t : SerialInstance} (h : SameRun C s t) (hrun : s.foundSolution = false)
    (rgen : LinCongRandomGenerator) :
    SameRun C (SerialInstance.doFlip defaultBuild C.formula calcF (Probsat.getRandomValue rgen.rand.1) s)
      (SerialInstance.doFlip defaultBuild C.formula calcF (Probsat.getRandomValue rgen.rand.1) t) := by
  have hexact : ∀ v, 0 ≤ v → v < C.formula.numVariables → C.formula.ExactAt v := fun _ h0 hv => C.exactAt h0 hv
  have hrand : ∀ l : K, 0 < l → Probsat.getRandomValue rgen.rand.1 l < l :=
    fun l hl => Probsat.getRandomValue_lt rgen hl
  exact SerialInstance.Alike.doFlip (sameIndex_refl _) C.wellFormed C.wellFormed hexact hexact C.clean h hrun hpos hrand

include hpos in
/-- The worker's loop goes through the states of the sequential search. -/
theorem solve_after (x : Circumstances K) (maxFlips fuel : Nat) : ∀ (rgen : LinCongRandomGenerator)
    {s t s' : SerialInstance}, SameRun C s t →
    (∀ k, x.getRandomValue (s.getNumFlips + k) = Probsat.getRandomValue (rgen.number k)) →
    solve C.formula calcF x maxFlips fuel s = some s' → ∃ k, s'.getNumFlips = s.getNumFlips + k ∧
      (∀ j < k, (after C.formula calcF rgen t j).foundSolution = false) ∧ SameRun C s'
        (after C.formula calcF rgen t k) := by
  induction fuel with
  | zero =>
    intro rgen s t s' _ _ hs
    cases hs
  | succ fuel ih =>
    intro rgen s t s' h hdraw hs
    unfold solve at hs
    split at hs
    · cases hs
      refine ⟨0, rfl, ?_, h⟩
      intro j hj
      cases hj
    · rename_i hno
      have hrun : s.foundSolution = false := by simpa using hno
      have hrun' : t.foundSolution = false := by rw [← h.foundSolution, hrun]
      have hflip := h.doFlip C hpos hrun rgen
      have hfirst : x.getRandomValue s.getNumFlips = Probsat.getRandomValue rgen.rand.1 := hdraw 0
      rw [hfirst] at hs
      have hflips := SerialInstance.doFlip_numFlips defaultBuild C.formula calcF (Probsat.getRandomValue rgen.rand.1) s
      simp only at hs
      generalize hs₁ : SerialInstance.doFlip defaultBuild C.formula calcF (Probsat.getRandomValue rgen.rand.1) s =
        s₁ at hs hflip hflips
      -- the loop stops after this flip, or goes on with the next number
      have hone : ∃ k, s₁.getNumFlips = s.getNumFlips + k ∧
        (∀ j < k, (after C.formula calcF rgen t j).foundSolution = false) ∧
          SameRun C s₁ (after C.formula calcF rgen t k) := by
        refine ⟨1, hflips, ?_, hflip⟩
        intro j hj
        obtain rfl : j = 0 := by omega
        exact hrun'
      split at hs
      · cases hs
        exact hone
      · split at hs
        · cases hs
          exact hone
        · have hnext : ∀ k, x.getRandomValue (s₁.getNumFlips + k) = Probsat.getRandomValue (rgen.rand.2.number k) := by
            intro k
            rw [hflips, Nat.add_assoc, Nat.add_comm 1 k, hdraw, rgen.number_succ]
          obtain ⟨k, hk, hbefore, hlast⟩ := ih rgen.rand.2 hflip hnext hs
          refine ⟨k + 1, by omega, ?_, hlast⟩
          intro j hj
          cases j with
          | zero => exact hrun'
          | succ j => exact hbefore j (by omega)

/-! ## One execution -/

theorem visited_eq {F : CnfFormula} (h : F.clauses.length < 2 ^ 31) : visited F = F := by
  have hclauses := visited_clauses h
  unfold visited at hclauses ⊢
  simp only at hclauses
  rw [hclauses]

include hpos in
/-- An execution on a file that the sequential program loads measures what that program does with its seed. -/
theorem outcome_reproduces {t : Task} {x : Circumstances K} {text : Text} {calls : Nat} {measured : DoneProcessingInfo}
    (hF : CnfFormula.load true text = .ok C.formula) (hlt : C.formula.clauses.length < 2 ^ 31)
    (hx : Drawn x C.formula.numVars) (ht : t.dpi.solved = false)
    (h : t.outcome calcF x text calls = some (.done measured)) :
    Reproduces C.formula calcF measured.seed.toNat measured.numFlipsDone.toNat measured.solved := by
  obtain ⟨obj, solver, hcall, -, hsolve, -, rfl⟩ := Task.outcome_done h
  have hlast : (t.dpi.solved || solver.foundSolution) = solver.foundSolution := by rw [ht, Bool.false_or]
  have hflips : (UInt64.ofNat solver.getNumFlips).toNat = solver.getNumFlips := by
    obtain ⟨-, -, hmax⟩ := solve_flips _ _ _ _ _ hsolve
    have hlt := t.maxFlips.toNat_lt
    rw [SerialInstance.new_numFlips, zero_add] at hmax
    rw [UInt64.toNat_ofNat', Nat.mod_eq_of_lt (by omega)]
  show Reproduces C.formula calcF x.seed.toNat (UInt64.ofNat solver.getNumFlips).toNat
    (t.dpi.solved || solver.foundSolution)
  rw [hlast, hflips]
  intro b' mem hb'
  simp only
  by_cases hne : C.formula.clauses = []
  · -- without clauses both start with a solution
    have hnone : (visited obj.toFormula).clauses = [] := by
      obtain ⟨r, hr, hbuilt⟩ := load_ok hF
      have hobj := (FormulaObject.after_read hr calls).1
      rw [FormulaObject.after, hcall] at hobj
      have hstored : obj.toFormula.clauses = [] := by
        rw [← hne, (initializeFormula_frame hbuilt).2]
        exact hobj
      unfold visited
      simp only
      rw [hstored, List.take_nil]
    have hfound := foundSolution_new (B := defaultBuild) hnone x.memory x.belegung
    have hstart := solve_found hfound hsolve
    rw [hstart, hfound, SerialInstance.new_numFlips]
    refine ⟨?_, foundSolution_new hne _ _⟩
    intro k hk
    cases hk
  · obtain ⟨obj', hcall', hformula⟩ := after_of_load hF hne calls
    rw [hcall] at hcall'
    cases hcall'
    rw [hformula, visited_eq hlt] at hsolve
    obtain ⟨b, hb, hbelegung, hdraw⟩ := hx
    rw [hbelegung] at hsolve
    -- the start assignments have the same values, and the same numbers follow
    have hread : ∀ v, 0 ≤ v → v < C.formula.numVars →
        (doInitConfiguration C.formula.numVars b (.ofSeed x.seed.toNat)).1.read v =
          (doInitConfiguration C.formula.numVars b' (.ofSeed x.seed.toNat)).1.read v := by
      intro v h0 hv
      rw [Probsat.read_doInitConfiguration hb _ h0 hv, Probsat.read_doInitConfiguration hb' _ h0 hv]
    have hstart := SameRun.new C (Probsat.doInitConfiguration_ok hb _)
      (Probsat.doInitConfiguration_ok hb' _) x.memory mem hread
    have hfresh := SerialInstance.new_numFlips defaultBuild C.formula x.memory
      (doInitConfiguration C.formula.numVars b (.ofSeed x.seed.toNat)).1
    have hnumbers : ∀ k, x.getRandomValue ((SerialInstance.new defaultBuild C.formula x.memory
        (doInitConfiguration C.formula.numVars b (.ofSeed x.seed.toNat)).1).getNumFlips + k) =
          Probsat.getRandomValue ((doInitConfiguration C.formula.numVars b' (.ofSeed x.seed.toNat)).2.number k) := by
      intro k
      rw [hfresh, zero_add, hdraw, Probsat.doInitConfiguration_snd, Probsat.doInitConfiguration_snd]
    obtain ⟨k, hk, hbefore, hsame⟩ := solve_after C hpos x t.maxFlips.toNat _ _ hstart hnumbers hsolve
    rw [hk, hfresh, zero_add]
    exact ⟨hbefore, hsame.foundSolution.symm⟩

include hpos in
/-- Then the sequential program reports the solution in its first run, after as many flips. -/
theorem Reproduces.main {text : Text} (hF : CnfFormula.load true text = .ok C.formula) {seed flips : Nat}
    (h : Reproduces C.formula calcF seed flips true) {opts : Options} (hruns : 0 < opts.numIterations)
    (hmax : opts.maxFlips = 0 ∨ flips ≤ opts.maxFlips) {seeds : Nat → Nat} (hseed : seeds 1 = seed)
    (bytes : Int → BitVec 8) (mem : Nat → SerialInstance.Memory) {fuel : Nat} (hfuel : flips < fuel) :
    ∃ i vLines, Probsat.main opts text calcF seeds bytes mem fuel = .ok (.satisfiable vLines) ∧
      Probsat.iterations opts C.formula calcF seeds mem fuel opts.numIterations 1 (.new bytes C.formula.numVars) =
        ([i], .satisfiable vLines) ∧ i.stop.getNumFlips = flips := by
  have hb : IsConfiguration C.formula.numVars (.new bytes C.formula.numVars) :=
    ⟨rfl, Bitfield.wf_new bytes C.wellFormed.vars⟩
  obtain ⟨left, hleft⟩ := Nat.exists_eq_add_one_of_ne_zero (Nat.ne_of_gt hruns)
  obtain ⟨hbefore, hfound⟩ := h _ (mem 1) hb
  have hok := Probsat.doInitConfiguration_ok hb (.ofSeed seed)
  have hflips := SerialInstance.new_numFlips defaultBuild C.formula (mem 1)
    (doInitConfiguration C.formula.numVars (.new bytes C.formula.numVars) (.ofSeed seed)).1
  have hinv : SerialInstance.CacheInv defaultBuild C.formula (.new defaultBuild C.formula (mem 1)
      (doInitConfiguration C.formula.numVars (.new bytes C.formula.numVars) (.ofSeed seed)).1) :=
    .new C.wellFormed defaultBuild (mem 1) ⟨hok.1, hok.2⟩
  generalize hstart : SerialInstance.new defaultBuild C.formula (mem 1)
    (doInitConfiguration C.formula.numVars (.new bytes C.formula.numVars) (.ofSeed seed)).1 =
      start at hbefore hfound hflips hinv
  generalize hrgen : (doInitConfiguration C.formula.numVars (.new bytes C.formula.numVars) (.ofSeed seed)).2 =
    rgen at hbefore hfound
  -- the solution it stops at passes the check
  have hcheck : (after C.formula calcF rgen start flips).checkAssignment C.formula = true := by
    have hsearch := Probsat.after_eq_solveWith C.formula calcF flips rgen start hbefore
    have hlast := SerialInstance.cacheInv_solveWith C hpos (Probsat.numbers_le rgen flips) hinv
    rw [← hsearch] at hlast
    exact (hlast.list.exact.foundSolution_iff C.wellFormed).1 hfound
  obtain ⟨reports, hsolve⟩ :=
    Probsat.solveReporting_found C.formula calcF opts.maxFlips flips fuel rgen start hbefore hfound
    (by rw [hflips, zero_add]; exact hmax) hfuel
  have hiterations : ∃ i vLines, Probsat.iterations opts C.formula calcF seeds mem fuel opts.numIterations 1
      (.new bytes C.formula.numVars) = ([i], .satisfiable vLines) ∧ i.stop.getNumFlips = flips := by
    rw [hleft]
    unfold Probsat.iterations
    simp only [hseed, hstart, hrgen, hsolve, hfound, hcheck, if_true]
    refine ⟨_, _, rfl, ?_⟩
    rw [after_numFlips, hflips, zero_add]
  obtain ⟨i, vLines, hrounds, hstop⟩ := hiterations
  refine ⟨i, vLines, ?_, hrounds, hstop⟩
  unfold Probsat.main
  rw [hF]
  show Except.ok (Probsat.runs opts C.formula calcF seeds mem fuel opts.numIterations 1
    (.new bytes C.formula.numVars)) = _
  rw [← Probsat.iterations_outcome, hrounds]

/-! ## Runs of the system -/

/-- An execution of the solver on the task's file, with the numbers of its generator, can measure this. -/
def MeasuresDrawn (calcF : Int → K) (files : String → Text) (t : Task) (measured : DoneProcessingInfo) : Prop :=
  ∃ x calls, (∀ F, CnfFormula.load true (files t.name) = .ok F → Drawn x F.numVars) ∧
    t.outcome calcF x (files t.name) calls = some (.done measured)

open Averaging

/-- A thread that executes a task ends the execution as the solver does with the numbers of its generator, or runs out
of memory. -/
def PossibleDrawn (calcF : Int → K) (files : String → Text) (_ : List Action) (s : Averaging) : Action → Prop
  | .workerThread comm i outcome => ∀ w t, s.cluster.workers[comm]? = some w → w.threads[i]? = some (.executing t) →
      outcome = .failed ∨ ∃ x calls, (∀ F, CnfFormula.load true (files t.name) = .ok F → Drawn x F.numVars) ∧
        t.outcome calcF x (files t.name) calls = some outcome
  | _ => True

/-- The runs of the system on these files, with the numbers of the generators. -/
abbrev DrawnRun (numWorkers : Comm → UInt32) (calcF : Int → K) (files : String → Text) (as : List Action)
    (s : Averaging) :
    Prop :=
  Traced (Averaging.step numWorkers) (PossibleDrawn calcF files) [] {} as s

variable {numWorkers : Comm → UInt32} {files : String → Text} {as : List Action} {s : Averaging}

omit [IsStrictOrderedRing K] in
theorem DrawnRun.attributed (h : DrawnRun numWorkers calcF files as s) : s.Attributed (MeasuresDrawn calcF files) := by
  apply attributed_of_runs ?_ h
  intro _ _ comm i measured w t hok hw ht
  obtain ⟨x, calls, hx⟩ := (hok w t hw ht).resolve_left (by simp)
  exact ⟨x, calls, hx⟩

include hpos in
theorem reproduces_of_measures {t : Task} {measured : DoneProcessingInfo} (h : MeasuresDrawn calcF files t measured)
    (ht : t.dpi.solved = false) (hF : CnfFormula.load true (files t.name) = .ok C.formula)
    (hlt : C.formula.clauses.length < 2 ^ 31) :
    Reproduces C.formula calcF measured.seed.toNat measured.numFlipsDone.toNat measured.solved := by
  obtain ⟨x, calls, hx, ho⟩ := h
  exact outcome_reproduces C hpos hF hlt (hx _ hF) ht ho

/-- In every run of the system, each report that the server has collected says what the sequential program does with the
reported seed on the file with the reported number: it finds nothing before the reported flips, and then a solution if
the report is about a solved instance. -/
theorem reports_reproducible (numWorkers : Comm → UInt32) (calcF : Int → K) (hpos : ∀ b, 0 < calcF b)
    (files : String → Text)
    (as : List Action) (s : Averaging) (h : DrawnRun numWorkers calcF files as s) (info : DoneProcessingInfo)
    (hinfo : info ∈ s.collected) :
    ∃ pim, s.cluster.server.server.Assigned pim info.taskId ∧ ∀ F, CnfFormula.load true (files pim.filename) = .ok F →
      Balanced (files pim.filename) → F.clauses.length < 2 ^ 31 →
      Reproduces F calcF info.seed.toNat info.numFlipsDone.toNat info.solved := by
  obtain ⟨t, ⟨pim, taskId, measured, ha, hm, rfl⟩, rfl⟩ := h.attributed.collected info hinfo
  refine ⟨pim, ha, ?_⟩
  intro F hF hb hlt
  obtain ⟨C, rfl⟩ := exists_counted hF hb
  have hname : CnfFormula.load true (files (Task.new pim taskId).name) = .ok C.formula := hF
  have hrep := reproduces_of_measures C hpos hm rfl hname hlt
  exact hrep

/-- In every run of the system, each solution that the server has told the manager of is found again by `probsat` with
the reported seed: when its limit allows as many flips, its first run makes exactly the reported number of them and it
reports a solution. -/
theorem solutions_reproducible (numWorkers : Comm → UInt32) (calcF : Int → K) (hpos : ∀ b, 0 < calcF b)
    (files : String → Text)
    (as : List Action) (s : Averaging) (h : DrawnRun numWorkers calcF files as s) (sol : SolutionInfo)
    (hsol : s.cluster.Told sol) :
    ∃ pim ∈ s.cluster.server.server.files, sol.filename = pim.filename ∧
      ∀ F, CnfFormula.load true (files pim.filename) = .ok F → Balanced (files pim.filename) →
        F.clauses.length < 2 ^ 31 →
        ∀ (opts : Options) (seeds : Nat → Nat) (bytes : Int → BitVec 8)
          (mem : Nat → SerialInstance.Memory) (fuel : Nat), seeds 1 = sol.seed.toNat → 0 < opts.numIterations →
          (opts.maxFlips = 0 ∨ sol.numFlipsDone.toNat ≤ opts.maxFlips) → sol.numFlipsDone.toNat < fuel →
          ∃ i vLines, Probsat.main opts (files pim.filename) calcF seeds bytes mem fuel = .ok (.satisfiable vLines) ∧
            Probsat.iterations opts F calcF seeds mem fuel opts.numIterations 1 (.new bytes F.numVars) =
              ([i], .satisfiable vLines) ∧ i.stop.getNumFlips = sol.numFlipsDone.toNat := by
  obtain ⟨t, ⟨pim, taskId, measured, ha, hm, rfl⟩, hsolved, rfl⟩ := h.attributed.cluster.log sol hsol
  refine ⟨pim, List.mem_of_getElem? ha, rfl, ?_⟩
  intro F hF hb hlt opts seeds bytes mem fuel hseed hruns hmax hfuel
  obtain ⟨C, rfl⟩ := exists_counted hF hb
  have hname : CnfFormula.load true (files (Task.new pim taskId).name) = .ok C.formula := hF
  have hrep := reproduces_of_measures C hpos hm rfl hname hlt
  rw [show measured.solved = true from hsolved] at hrep
  exact hrep.main C hpos hF hruns hmax hseed bytes mem hfuel

end Search

/-! ## Two files, with the numbers of the generator -/

open Averaging

/-- The execution on so many variables in which the generator with the seed draws. -/
def drawnStart (seed : UInt64) (numVars : Int) : Circumstances ℚ :=
  let drawn := doInitConfiguration numVars (.new 0 numVars) (.ofSeed seed.toNat)
  { teamStart seed numVars with
    belegung := drawn.1
    getRandomValue := fun k => Probsat.getRandomValue (drawn.2.number k) }

theorem drawnStart_drawn (seed : UInt64) {numVars : Int} (h : 0 ≤ numVars) : Drawn (drawnStart seed numVars) numVars :=
  ⟨.new 0 numVars, ⟨rfl, Bitfield.wf_new 0 h⟩, rfl, fun _ => rfl⟩

theorem load_clashText : ∃ F, CnfFormula.load true clashText = .ok F ∧ F.numVars = 1 := by
  have hload : (CnfFormula.load true clashText).toOption.elim false (fun F => decide (F.numVars = 1)) = true := by
    decide +kernel
  obtain ⟨F, hF, h⟩ := ok_of_elim_toOption hload
  exact ⟨F, hF, of_decide_eq_true h⟩

theorem load_pairText : ∃ F, CnfFormula.load true pairText = .ok F ∧ F.numVars = 2 ∧ F.clauses.length < 2 ^ 31 := by
  have hload : (CnfFormula.load true pairText).toOption.elim false
      (fun F => decide (F.numVars = 2 ∧ F.clauses.length < 2 ^ 31)) = true := by
    decide +kernel
  obtain ⟨F, hF, h⟩ := ok_of_elim_toOption hload
  exact ⟨F, hF, of_decide_eq_true h⟩

theorem balanced_pairText : Balanced pairText := .of_regular (by decide +kernel)

theorem teamOutcomes_drawn : ∀ p ∈ teamOutcomes 5 (pairMeasured 2 true), ∃ x calls,
    (∀ F, CnfFormula.load true (teamFiles p.1.name) = .ok F → Drawn x F.numVars) ∧
      p.1.outcome (fun _ => (1 : ℚ)) x (teamFiles p.1.name) calls = some p.2 := by
  have hclash : (Task.new clashFile 0).outcome (fun _ => (1 : ℚ)) (drawnStart 7 1) clashText 1 =
      some (.done clashMeasured) := by
    decide +kernel
  have hpair : (Task.new (pairFile 5) 1).outcome (fun _ => (1 : ℚ)) (drawnStart 20014 2) pairText 1 =
      some (.done (pairMeasured 2 true)) := by
    decide +kernel
  have hdrawn : ∀ {text : Text} {F₀ F : CnfFormula} {n : Int} (seed : UInt64), CnfFormula.load true text = .ok F₀ →
      F₀.numVars = n → 0 ≤ n → CnfFormula.load true text = .ok F → Drawn (drawnStart seed n) F.numVars := by
    rintro text F₀ F _ seed hF₀ rfl hn hF
    obtain rfl : F = F₀ := Except.ok.inj (hF.symm.trans hF₀)
    exact drawnStart_drawn seed hn
  obtain ⟨F₁, hF₁, hn₁⟩ := load_clashText
  obtain ⟨F₂, hF₂, hn₂, -⟩ := load_pairText
  exact forall_teamOutcomes ⟨_, _, fun _ => hdrawn 7 hF₁ hn₁ (by decide), hclash⟩
    ⟨_, _, fun _ => hdrawn 20014 hF₂ hn₂ (by decide), hpair⟩

theorem exists_drawnRun : ∃ s, DrawnRun (fun _ => 2) (fun _ => (1 : ℚ)) teamFiles teamRun s ∧
    s.collected = teamCollected ∧ s.cluster.server.server.files = [clashFile, pairFile 5] ∧
    s.cluster.Told teamSolution := by
  obtain ⟨s, hs, -, hcollected, hfiles, -, -, -, htold⟩ := teamRun_replay
  refine ⟨s, (Traced.of_replay hs).imp ?_, hcollected, hfiles, htold⟩
  intro as s a hexp
  cases a with
  | workerThread comm i outcome =>
    intro w t hw ht
    exact .inr (teamOutcomes_drawn _ (mem_of_expects hexp hw ht))
  | manager | serverPollsWorkers | serverPollsManager | serverLeaves | workerMain => trivial

/-- The report about the second file. -/
theorem reports_reproducible_teamRun : ∃ s F, DrawnRun (fun _ => 2) (fun _ => (1 : ℚ)) teamFiles teamRun s ∧
    CnfFormula.load true pairText = .ok F ∧ Reproduces F (fun _ => (1 : ℚ)) 20014 2 true := by
  obtain ⟨s, h, hcollected, hfiles, -⟩ := exists_drawnRun
  obtain ⟨F, hF, -, hlt⟩ := load_pairText
  have hinfo : { pairMeasured 2 true with instancesProcessed := 1 } ∈ s.collected := by
    rw [hcollected]
    exact pairMeasured_mem_teamCollected
  obtain ⟨pim, ha, hall⟩ :=
    reports_reproducible (fun _ => 2) (fun _ => (1 : ℚ)) (fun _ => one_pos) teamFiles teamRun s h
    _ hinfo
  unfold Server.Assigned at ha
  rw [hfiles] at ha
  obtain rfl : pairFile 5 = pim := Option.some.inj ha
  exact ⟨s, F, h, hF, hall F hF balanced_pairText hlt⟩

/-- The solution of the second file, by `probsat` with two runs and at most five flips in each of them. -/
theorem solutions_reproducible_teamRun : ∃ s i vLines F, DrawnRun (fun _ => 2) (fun _ => (1 : ℚ)) teamFiles teamRun s ∧
    s.cluster.Told teamSolution ∧ CnfFormula.load true pairText = .ok F ∧
    Probsat.main ⟨2, 5, true⟩ pairText (fun _ => (1 : ℚ)) (fun _ => 20014) 0 (fun _ => ⟨0, 0, 0, 0⟩) 6 =
      .ok (.satisfiable vLines) ∧
    Probsat.iterations ⟨2, 5, true⟩ F (fun _ => (1 : ℚ)) (fun _ => 20014) (fun _ => ⟨0, 0, 0, 0⟩) 6 2 1
      (.new 0 F.numVars) = ([i], .satisfiable vLines) ∧ i.stop.getNumFlips = 2 := by
  obtain ⟨s, h, -, -, htold⟩ := exists_drawnRun
  obtain ⟨F, hF, -, hlt⟩ := load_pairText
  obtain ⟨pim, -, hname, hall⟩ := solutions_reproducible (fun _ => 2) (fun _ => (1 : ℚ)) (fun _ => one_pos) teamFiles
    teamRun s h teamSolution htold
  rw [← hname] at hall
  obtain ⟨i, vLines, hmain, hiterations, hflips⟩ := hall F hF balanced_pairText hlt ⟨2, 5, true⟩ (fun _ => 20014) 0
    (fun _ => ⟨0, 0, 0, 0⟩) 6 rfl (by decide) (.inr (by decide)) (by decide)
  exact ⟨s, i, vLines, F, h, htold, hF, hmain, hiterations, hflips⟩

end ParallelProbsat.Reproduction
