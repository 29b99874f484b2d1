/-
The loop over the runs in `main` (`probsat.cpp`) with what every run reports. The solving loop tests
for a solution before a flip and for the budget after it. When the last flip that is allowed finds
the solution, the run reports "FOUND NO SOLUTION" and right after it "s SATISFIABLE".

Which runs report what they should is an exact condition on the states a run goes through; with an
exact occurrence index it says no more than that the first solution is not found by the last flip.
-/
import ParallelProbsat.Probsat
import ParallelProbsat.Sat.Builds
import Mathlib.Tactic

namespace ParallelProbsat.Probsat

open ParallelProbsat.Lib ParallelProbsat.Util ParallelProbsat.Sat

/-- The lines of a run that say how it went: "c FOUND NO SOLUTION AFTER ... FLIPS!", "c done after ...
flips", "s SATISFIABLE" and the `v` lines. -/
inductive Report where
  | foundNoSolution (numFlips : Nat)
  | doneAfter (numFlips : Nat)
  | satisfiable (vLines : List (List Int))
  deriving DecidableEq, Repr

/-- One round of the loop over the runs: where it starts, in which state it stops solving, what it
reports, and whether it is the last (by `break`, or by the assertion that aborts). -/
structure Iteration where
  it : Nat
  rgen : LinCongRandomGenerator
  start : SerialInstance
  stop : SerialInstance
  reports : List Report
  last : Bool

section Loops

variable {K : Type} [Zero K] [Add K] [Mul K] [Div K] [NatCast K] [LT K] [DecidableLT K]

/-- The solving loop for at most `fuel` rounds, with its report. -/
def solveReporting (F : CnfFormula) (calcF : Int → K) (maxFlips : Nat) :
    Nat → LinCongRandomGenerator → SerialInstance → Option (SerialInstance × List Report)
  | 0, _, _ => none
  | fuel + 1, rgen, solver =>
    if solver.foundSolution then some (solver, [])
    else
      let (r, rgen) := rgen.rand
      let solver := SerialInstance.doFlip defaultBuild F calcF (getRandomValue r) solver
      if 0 < maxFlips ∧ maxFlips ≤ solver.getNumFlips then some (solver, [.foundNoSolution solver.getNumFlips])
      else solveReporting F calcF maxFlips fuel rgen solver

/-- The loop over the runs with its rounds; `left` of them are left, and `it` counts them. -/
def iterations (opts : Options) (F : CnfFormula) (calcF : Int → K) (seeds : Nat → Nat)
    (mem : Nat → SerialInstance.Memory) (fuel : Nat) : Nat → Nat → Bitfield → List Iteration × Outcome
  | 0, _, _ => ([], .noSolution)
  | left + 1, it, belegung =>
    let (belegung, rgen) := doInitConfiguration F.numVars belegung (.ofSeed (seeds it))
    let start := SerialInstance.new defaultBuild F (mem it) belegung
    match solveReporting F calcF opts.maxFlips fuel rgen start with
    | none => ([], .running)
    | some (solver, reports) =>
      let reports := reports ++ [.doneAfter solver.getNumFlips]
      if solver.foundSolution then
        if solver.checkAssignment F then
          let vLines := if 0 < opts.outputSolution then printSolution opts.outputSolution F.numVars belegung else []
          ([⟨it, rgen, start, solver, reports ++ [.satisfiable vLines], true⟩], .satisfiable vLines)
        else ([⟨it, rgen, start, solver, reports, true⟩], .aborted)
      else
        let (later, outcome) := iterations opts F calcF seeds mem fuel left (it + 1) belegung
        (⟨it, rgen, start, solver, reports, false⟩ :: later, outcome)

/-! ## The loops without their reports -/

theorem solveReporting_fst (F : CnfFormula) (calcF : Int → K) (maxFlips : Nat) : ∀ (fuel : Nat)
    (rgen : LinCongRandomGenerator) (solver : SerialInstance),
    (solveReporting F calcF maxFlips fuel rgen solver).map Prod.fst = solve F calcF maxFlips fuel rgen solver
  | 0, _, _ => rfl
  | fuel + 1, rgen, solver => by
    unfold solveReporting solve
    split
    · rfl
    · simp only
      split
      · rfl
      · exact solveReporting_fst F calcF maxFlips fuel _ _

/-- The rounds end as the program does. -/
theorem iterations_outcome (opts : Options) (F : CnfFormula) (calcF : Int → K) (seeds : Nat → Nat)
    (mem : Nat → SerialInstance.Memory) (fuel : Nat) : ∀ (left it : Nat) (b : Bitfield),
    (iterations opts F calcF seeds mem fuel left it b).2 = runs opts F calcF seeds mem fuel left it b
  | 0, _, _ => rfl
  | left + 1, it, b => by
    unfold iterations runs
    simp only [← solveReporting_fst]
    cases solveReporting F calcF opts.maxFlips fuel (doInitConfiguration F.numVars b (.ofSeed (seeds it))).2
        (SerialInstance.new defaultBuild F (mem it) (doInitConfiguration F.numVars b (.ofSeed (seeds it))).1) with
    | none => rfl
    | some r =>
      simp only [Option.map_some]
      split
      · split <;> rfl
      · exact iterations_outcome opts F calcF seeds mem fuel left (it + 1) _

/-! ## The states of a run -/

/-- The state after `n` flips. -/
def after (F : CnfFormula) (calcF : Int → K) : LinCongRandomGenerator → SerialInstance → Nat → SerialInstance
  | _, solver, 0 => solver
  | rgen, solver, n + 1 =>
    after F calcF rgen.rand.2 (SerialInstance.doFlip defaultBuild F calcF (getRandomValue rgen.rand.1) solver) n

theorem after_numFlips (F : CnfFormula) (calcF : Int → K) : ∀ (n : Nat) (rgen : LinCongRandomGenerator)
    (solver : SerialInstance), (after F calcF rgen solver n).getNumFlips = solver.getNumFlips + n
  | 0, _, _ => rfl
  | n + 1, rgen, solver => by
    rw [after, after_numFlips F calcF n, SerialInstance.doFlip_numFlips]
    omega

/-- Where the solving loop stops and what it reports: at a solution before the last flip that is allowed, or
after that flip. -/
structure Stops (F : CnfFormula) (calcF : Int → K) (maxFlips : Nat) (rgen : LinCongRandomGenerator)
    (start : SerialInstance) (flips : Nat) (reports : List Report) : Prop where
  budget : start.getNumFlips + flips ≤ maxFlips
  running : ∀ k < flips, (after F calcF rgen start k).foundSolution = false
  ending : (start.getNumFlips + flips < maxFlips ∧ (after F calcF rgen start flips).foundSolution = true ∧
    reports = []) ∨
    (start.getNumFlips + flips = maxFlips ∧ reports = [.foundNoSolution maxFlips])

theorem Stops.no_satisfiable {F : CnfFormula} {calcF : Int → K} {maxFlips : Nat} {rgen : LinCongRandomGenerator}
    {start : SerialInstance} {flips : Nat} {reports : List Report} (h : Stops F calcF maxFlips rgen start flips reports)
    (vLines : List (List Int)) : .satisfiable vLines ∉ reports := by
  rcases h.ending with ⟨-, -, rfl⟩ | ⟨-, rfl⟩ <;> simp

/-- As many rounds as flips are left are enough. -/
theorem solveReporting_stops (F : CnfFormula) (calcF : Int → K) (maxFlips : Nat) : ∀ (fuel : Nat)
    (rgen : LinCongRandomGenerator) (solver : SerialInstance), solver.getNumFlips < maxFlips →
    maxFlips ≤ solver.getNumFlips + fuel → ∃ flips reports,
      solveReporting F calcF maxFlips fuel rgen solver = some (after F calcF rgen solver flips, reports) ∧
      Stops F calcF maxFlips rgen solver flips reports
  | 0, _, _, hlt, hfuel => absurd hfuel (by omega)
  | fuel + 1, rgen, solver, hlt, hfuel => by
    unfold solveReporting
    split
    · rename_i hfound
      exact ⟨0, [], rfl, ⟨hlt.le, fun k hk => absurd hk (Nat.not_lt_zero k), .inl ⟨hlt, hfound, rfl⟩⟩⟩
    · rename_i hrun
      rw [Bool.not_eq_true] at hrun
      simp only
      have hflips := SerialInstance.doFlip_numFlips defaultBuild F calcF (getRandomValue rgen.rand.1) solver
      have hbefore : ∀ k < 1, (after F calcF rgen solver k).foundSolution = false := by
        intro k hk
        obtain rfl : k = 0 := by omega
        exact hrun
      split
      · rename_i hbudget
        have hmax : solver.getNumFlips + 1 = maxFlips := by omega
        refine ⟨1, _, rfl, ⟨hmax.le, hbefore, .inr ⟨hmax, ?_⟩⟩⟩
        rw [hflips, hmax]
      · rename_i hmore
        obtain ⟨flips, reports, hsolve, hstops⟩ := solveReporting_stops F calcF maxFlips fuel rgen.rand.2
          (SerialInstance.doFlip defaultBuild F calcF (getRandomValue rgen.rand.1) solver) (by omega) (by omega)
        obtain ⟨hb, hr, he⟩ := hstops
        rw [hflips] at hb he
        refine ⟨flips + 1, reports, hsolve, ⟨by omega, ?_, ?_⟩⟩
        · rintro (_ | k) hk
          · exact hrun
          · exact hr k (by omega)
        · rw [show solver.getNumFlips + (flips + 1) = solver.getNumFlips + 1 + flips by omega]
          exact he

/-! ## What a run should report -/

/-- Every clause is satisfied. -/
def AllSat (F : CnfFormula) (s : SerialInstance) : Prop := ∀ c ∈ F.clauses, clauseSat s.assignment c = true

/-- The budget and the verdict of a round agree: it makes at most `maxFlips` flips and stops at the first
state in which every clause is satisfied; it reports that there was no solution exactly when it
stops with an unsatisfied clause, and then it does not report a solution; it is the last round
exactly when it found one. -/
structure VerdictAgrees (F : CnfFormula) (calcF : Int → K) (maxFlips : Nat) (i : Iteration) : Prop where
  flips : i.stop.getNumFlips ≤ maxFlips
  stop : i.stop = after F calcF i.rgen i.start i.stop.getNumFlips
  notBefore : ∀ k < i.stop.getNumFlips, ¬AllSat F (after F calcF i.rgen i.start k)
  notLater : i.stop.getNumFlips < maxFlips → AllSat F i.stop
  verdict : (∃ n, .foundNoSolution n ∈ i.reports) ↔ ¬AllSat F i.stop
  once : ¬((∃ n, .foundNoSolution n ∈ i.reports) ∧ ∃ vLines, .satisfiable vLines ∈ i.reports)
  last : i.last = true ↔ AllSat F i.stop

/-- The list of unsatisfied clauses is empty exactly when every clause is satisfied, in the states up to the
first in which it is empty, and if it is not empty before the last flip that is allowed, then not
after it either. -/
structure FoundInTime (F : CnfFormula) (calcF : Int → K) (maxFlips : Nat) (rgen : LinCongRandomGenerator)
    (start : SerialInstance) : Prop where
  found_iff : ∀ k ≤ maxFlips, (∀ m < k, (after F calcF rgen start m).foundSolution = false) →
    ((after F calcF rgen start k).foundSolution = true ↔ AllSat F (after F calcF rgen start k))
  notByLast : (∀ m < maxFlips, (after F calcF rgen start m).foundSolution = false) →
    (after F calcF rgen start maxFlips).foundSolution = false

/-- A round as the loop leaves it. -/
structure Ran (F : CnfFormula) (calcF : Int → K) (maxFlips : Nat) (i : Iteration) : Prop where
  fresh : i.start.getNumFlips = 0
  stops : ∃ flips reports, i.stop = after F calcF i.rgen i.start flips ∧
    Stops F calcF maxFlips i.rgen i.start flips reports ∧
    ∀ n, .foundNoSolution n ∈ i.reports ↔ .foundNoSolution n ∈ reports
  satisfiable : (∃ vLines, .satisfiable vLines ∈ i.reports) → i.stop.foundSolution = true
  last : i.last = i.stop.foundSolution

section Ran

variable {F : CnfFormula} {calcF : Int → K} {maxFlips : Nat} {i : Iteration} (h : Ran F calcF maxFlips i)
include h

/-- A round stops within the budget, before it finds a solution. -/
theorem Ran.stop_eq : i.stop = after F calcF i.rgen i.start i.stop.getNumFlips ∧ i.stop.getNumFlips ≤ maxFlips ∧
    ∀ k < i.stop.getNumFlips, (after F calcF i.rgen i.start k).foundSolution = false := by
  obtain ⟨hfresh, ⟨flips, reports, hstop, hstops, -⟩, -, -⟩ := h
  have hnum : i.stop.getNumFlips = flips := by rw [hstop, after_numFlips, hfresh, zero_add]
  have hbudget := hstops.budget
  rw [hfresh, zero_add] at hbudget
  rw [hnum]
  exact ⟨hstop, hbudget, hstops.running⟩

/-- "No solution" is reported exactly after the last flip, and before it a solution is what stops the round. -/
theorem Ran.reports_iff : ((∃ n, .foundNoSolution n ∈ i.reports) ↔ i.stop.getNumFlips = maxFlips) ∧
    (i.stop.getNumFlips < maxFlips → i.stop.foundSolution = true) := by
  obtain ⟨hfresh, ⟨flips, reports, hstop, hstops, hreports⟩, -, -⟩ := h
  have hnum : i.stop.getNumFlips = flips := by rw [hstop, after_numFlips, hfresh, zero_add]
  have hending := hstops.ending
  rw [hfresh, zero_add] at hending
  rw [hnum]
  simp only [hreports]
  rcases hending with ⟨hlt, hfound, rfl⟩ | ⟨heq, rfl⟩
  · constructor
    · simp
      omega
    · intro _
      rw [hstop, hfound]
  · constructor
    · simp [heq]
    · intro hlt
      omega

theorem Ran.foundInTime (hagrees : VerdictAgrees F calcF maxFlips i) : FoundInTime F calcF maxFlips i.rgen i.start := by
  obtain ⟨hstop, -, hrunning⟩ := h.stop_eq
  obtain ⟨hnone, hfound⟩ := h.reports_iff
  have hends := hagrees.last
  rw [h.last] at hends
  constructor
  · intro k hk hno
    rcases lt_trichotomy k i.stop.getNumFlips with hlt | rfl | hgt
    · simp [hrunning k hlt, hagrees.notBefore k hlt]
    · rw [← hstop]
      exact hends
    · have := hno _ hgt
      rw [← hstop, hfound (by omega)] at this
      cases this
  · intro hno
    have hmax : i.stop.getNumFlips = maxFlips := by
      have := h.stop_eq.2.1
      by_contra hne
      have := hno i.stop.getNumFlips (by omega)
      rw [← hstop, hfound (by omega)] at this
      cases this
    rw [← hmax, ← hstop, ← Bool.not_eq_true, hends]
    exact hagrees.verdict.1 (hnone.2 hmax)

theorem Ran.agrees (hin : FoundInTime F calcF maxFlips i.rgen i.start) : VerdictAgrees F calcF maxFlips i := by
  obtain ⟨hstop, hbudget, hrunning⟩ := h.stop_eq
  obtain ⟨hnone, hfound⟩ := h.reports_iff
  have hiff := hin.found_iff
  have hstopIff : i.stop.foundSolution = true ↔ AllSat F i.stop := by
    rw [hstop]
    exact hiff _ hbudget hrunning
  have hend : i.stop.getNumFlips = maxFlips → i.stop.foundSolution = false := by
    intro hmax
    rw [hstop, hmax]
    exact hin.notByLast (hmax ▸ hrunning)
  refine ⟨hbudget, hstop, ?_, fun hlt => hstopIff.1 (hfound hlt), ?_, ?_, ?_⟩
  · intro k hk hall
    have hk' := (hiff k (hk.le.trans hbudget) fun m hm => hrunning m (hm.trans hk)).2 hall
    rw [hrunning k hk] at hk'
    cases hk'
  · rw [hnone, ← hstopIff]
    constructor
    · intro heq
      simp [hend heq]
    · intro hno
      by_contra hne
      exact hno (hfound (by omega))
  · rintro ⟨hno, hyes⟩
    have := h.satisfiable hyes
    rw [hend (hnone.1 hno)] at this
    cases this
  · rw [h.last]
    exact hstopIff

theorem Ran.agrees_iff : VerdictAgrees F calcF maxFlips i ↔ FoundInTime F calcF maxFlips i.rgen i.start :=
  ⟨h.foundInTime, h.agrees⟩

end Ran

/-! ## The loop over the runs -/

/-- There is a round `k` of the rounds `is` exactly when none before it is the last. -/
def GoesOn (left : Nat) (is : List Iteration) : Prop := ∀ k < left, k < is.length ↔ ∀ i ∈ is.take k, i.last = false

theorem GoesOn.last {i : Iteration} (h : i.last = true) (left : Nat) : GoesOn left [i] := by
  rintro (_ | k) _
  · simp
  · simp [h]

theorem GoesOn.cons {i : Iteration} (h : i.last = false) {left : Nat} {is : List Iteration} (hs : GoesOn left is) :
    GoesOn (left + 1) (i :: is) := by
  rintro (_ | k) hk
  · simp
  · simp [h, hs k (by omega)]

/-- Every round is run from a new instance, and there is a further one exactly when the rounds before it were
not the last. -/
theorem iterations_ran (opts : Options) (F : CnfFormula) (calcF : Int → K) (seeds : Nat → Nat)
    (mem : Nat → SerialInstance.Memory) {fuel : Nat} (h0 : 0 < opts.maxFlips) (hfuel : opts.maxFlips ≤ fuel) :
    ∀ (left it : Nat) (b : Bitfield),
      (∀ i ∈ (iterations opts F calcF seeds mem fuel left it b).1, Ran F calcF opts.maxFlips i) ∧
      GoesOn left (iterations opts F calcF seeds mem fuel left it b).1 ∧
      (iterations opts F calcF seeds mem fuel left it b).2 ≠ .running
  | 0, _, _ => ⟨fun i hi => absurd hi List.not_mem_nil, fun k hk => absurd hk (Nat.not_lt_zero k), nofun⟩
  | left + 1, it, b => by
    have hfresh := SerialInstance.new_numFlips defaultBuild F (mem it)
      (doInitConfiguration F.numVars b (.ofSeed (seeds it))).1
    obtain ⟨flips, reports, hsolve, hstops⟩ := solveReporting_stops F calcF opts.maxFlips fuel
      (doInitConfiguration F.numVars b (.ofSeed (seeds it))).2
      (SerialInstance.new defaultBuild F (mem it) (doInitConfiguration F.numVars b (.ofSeed (seeds it))).1)
      (by rw [hfresh]; exact h0) (by omega)
    unfold iterations
    simp only [hsolve]
    have hran : ∀ (reports' : List Report) (last : Bool),
        (∀ n, .foundNoSolution n ∈ reports' ↔ .foundNoSolution n ∈ reports) →
        ((∃ vLines, .satisfiable vLines ∈ reports') → last = true) → last = (after F calcF _ _ flips).foundSolution →
        Ran F calcF opts.maxFlips ⟨it, _, _, after F calcF _ _ flips, reports', last⟩ :=
      fun reports' last h1 h2 h3 => ⟨hfresh, ⟨flips, reports, rfl, hstops, h1⟩, fun h => h3.symm.trans (h2 h), h3⟩
    split
    · rename_i hfound
      split <;>
      · refine ⟨?_, .last rfl _, nofun⟩
        intro i hi
        rw [List.mem_singleton.1 hi]
        exact hran _ true (by simp) (fun _ => rfl) hfound.symm
    · rename_i hrun
      obtain ⟨hlater, hgoes, hout⟩ := iterations_ran opts F calcF seeds mem h0 hfuel left (it + 1)
        (doInitConfiguration F.numVars b (.ofSeed (seeds it))).1
      refine ⟨?_, .cons rfl hgoes, hout⟩
      intro i hi
      rcases List.mem_cons.1 hi with rfl | hi
      · refine hran _ false (by simp) ?_ (Bool.not_eq_true _ ▸ hrun).symm
        rintro ⟨vLines, hv⟩
        exact absurd (hstops.no_satisfiable vLines) (by simpa using hv)
      · exact hlater i hi

/-- With a budget, for every formula, seeds and number of runs: the rounds are those of the program, there is a
further one exactly when none before it was the last, and which of them agree. -/
theorem verdict_agrees_iff (opts : Options) (F : CnfFormula) (calcF : Int → K) (seeds : Nat → Nat)
    (mem : Nat → SerialInstance.Memory) (fuel : Nat) (b : Bitfield) (h0 : 0 < opts.maxFlips)
    (hfuel : opts.maxFlips ≤ fuel) :
    (∀ i ∈ (iterations opts F calcF seeds mem fuel opts.numIterations 1 b).1,
      VerdictAgrees F calcF opts.maxFlips i ↔ FoundInTime F calcF opts.maxFlips i.rgen i.start) ∧
    GoesOn opts.numIterations (iterations opts F calcF seeds mem fuel opts.numIterations 1 b).1 ∧
    (iterations opts F calcF seeds mem fuel opts.numIterations 1 b).2 =
      runs opts F calcF seeds mem fuel opts.numIterations 1 b ∧
    runs opts F calcF seeds mem fuel opts.numIterations 1 b ≠ .running := by
  obtain ⟨hran, hgoes, hout⟩ := iterations_ran opts F calcF seeds mem h0 hfuel opts.numIterations 1 b
  have hsame := iterations_outcome opts F calcF seeds mem fuel opts.numIterations 1 b
  exact ⟨fun i hi => (hran i hi).agrees_iff, hgoes, hsame, hsame ▸ hout⟩

end Loops

/-! ## A solution found by the last flip -/

/-- One unit clause, a budget of one flip, seed 0: the flip makes the variable true. -/
def lastFlipRun (F : CnfFormula) : List Iteration × Outcome :=
  iterations ⟨1, 1, true⟩ F (fun _ => (1 : ℚ)) (fun _ => 0) (fun _ => ⟨0, 0, 0, 0⟩) 1 1 1 (.new 0 F.numVars)

def lastFlipFinds (F : CnfFormula) : Bool := (lastFlipRun F).1.any fun i =>
  i.reports == [.foundNoSolution 1, .doneAfter 1, .satisfiable [[0]]] && F.clauses.all (clauseSat i.stop.assignment)

theorem unitText_lastFlip :
    (CnfFormula.load true SerialInstance.unitText).toOption.elim false lastFlipFinds = true := by
  decide +kernel

/-- The run reports that there is no solution and then the solution. -/
theorem verdict_not_agrees : ∃ F, CnfFormula.load true SerialInstance.unitText = .ok F ∧ ∃ i ∈ (lastFlipRun F).1,
    i.reports = [.foundNoSolution 1, .doneAfter 1, .satisfiable [[0]]] ∧ AllSat F i.stop ∧
    ¬VerdictAgrees F (fun _ => (1 : ℚ)) 1 i := by
  obtain ⟨F, hF, h⟩ := ok_of_elim_toOption unitText_lastFlip
  obtain ⟨i, hi, hrun⟩ := List.any_eq_true.1 h
  rw [Bool.and_eq_true, beq_iff_eq, List.all_eq_true] at hrun
  refine ⟨F, hF, i, hi, hrun.1, hrun.2, ?_⟩
  intro hagrees
  exact hagrees.verdict.1 ⟨1, by simp [hrun.1]⟩ hrun.2

/-- Three variables, a budget of three flips, and seeds of which the first finds no solution. -/
def spareRounds (F : CnfFormula) : List Iteration × Outcome :=
  iterations ⟨3, 3, true⟩ F (fun _ => (1 : ℚ)) (fun it => if it = 1 then 16007 else 3007) (fun _ => ⟨0, 0, 0, 0⟩) 3 3 1
    (.new 0 F.numVars)

/-- The first round makes all its flips, the second one stops before its last. -/
def spareReports : List (List Report) :=
  [[.foundNoSolution 3, .doneAfter 3], [.doneAfter 2, .satisfiable [[0, -1, 2]]]]

theorem spareText_rounds : (CnfFormula.load true SerialInstance.spareText).toOption.elim false (fun F =>
    decide ((spareRounds F).1.map (fun i => i.reports) = spareReports)) = true := by
  decide +kernel

theorem verdict_agrees_iff_spareText : ∃ F, CnfFormula.load true SerialInstance.spareText = .ok F ∧
    (spareRounds F).1.map (fun i => i.reports) = spareReports ∧
    ∀ i ∈ (spareRounds F).1, VerdictAgrees F (fun _ => (1 : ℚ)) 3 i ↔
      FoundInTime F (fun _ => (1 : ℚ)) 3 i.rgen i.start := by
  obtain ⟨F, hF, h⟩ := ok_of_elim_toOption spareText_rounds
  exact ⟨F, hF, of_decide_eq_true h, (verdict_agrees_iff ⟨3, 3, true⟩ F _ _ _ 3 _ (by decide) (by decide)).1⟩

/-! ## Formulas with an exact index -/

section Exact

variable {K : Type} [Field K] [LinearOrder K] [IsStrictOrderedRing K]

theorem getRandomValue_lt (rgen : LinCongRandomGenerator) {l : K} (hl : 0 < l) : getRandomValue rgen.rand.1 l < l := by
  have hr : rgen.rand.1 < LinCongRandomGenerator.getRandMax + 1 := by
    have := Nat.mod_lt (48271 * rgen.engine) (show 0 < LinCongRandomGenerator.modulus by decide)
    unfold LinCongRandomGenerator.rand LinCongRandomGenerator.getRandMax
    unfold LinCongRandomGenerator.modulus at *
    simp only
    omega
  have hpos : (0 : K) < ((LinCongRandomGenerator.getRandMax + 1 : Nat) : K) := by exact_mod_cast Nat.succ_pos _
  unfold getRandomValue
  refine mul_lt_of_lt_one_left hl ((div_lt_one hpos).2 ?_)
  exact_mod_cast hr

theorem allSat_iff {F : CnfFormula} (hw : F.WellFormed) (s : SerialInstance) :
    AllSat F s ↔ s.checkAssignment F = true := by
  rw [SerialInstance.checkAssignment_iff hw]
  constructor
  · exact fun h c hc => h _ (CnfFormula.getClause_mem hc)
  · intro h c hc
    obtain ⟨k, hk, rfl⟩ := List.getElem_of_mem hc
    have := h k ⟨by omega, by unfold CnfFormula.numClauses; omega⟩
    simpa [CnfFormula.getClause, hk] using this

/-- Until a solution is found every state has the exact list of unsatisfied clauses. -/
theorem listInv_after (F : ExactFormula) {calcF : Int → K} (hpos : ∀ n, 0 < calcF n) : ∀ (n : Nat)
    (rgen : LinCongRandomGenerator) (solver : SerialInstance), SerialInstance.ListInv F.toCnfFormula solver →
    (∀ m < n, (after F.toCnfFormula calcF rgen solver m).foundSolution = false) →
    SerialInstance.ListInv F.toCnfFormula (after F.toCnfFormula calcF rgen solver n)
  | 0, _, _, h, _ => h
  | n + 1, rgen, solver, h, hrun => by
    have hrun0 : solver.foundSolution = false := hrun 0 (Nat.succ_pos n)
    obtain ⟨hmem, -, -, hx⟩ :=
      h.chosen F.wellFormed F.exact defaultBuild hpos (fun x hx => getRandomValue_lt rgen hx) hrun0
    exact listInv_after F hpos n rgen.rand.2 _ (h.flipChosen F.wellFormed defaultBuild hrun0 hmem hx)
      fun m hm => hrun (m + 1) (by omega)

theorem foundInTime_iff (F : ExactFormula) {calcF : Int → K} (hpos : ∀ n, 0 < calcF n) (maxFlips : Nat)
    (rgen : LinCongRandomGenerator) {start : SerialInstance} (h : SerialInstance.ListInv F.toCnfFormula start) :
    FoundInTime F.toCnfFormula calcF maxFlips rgen start ↔
      ¬((∀ m < maxFlips, (after F.toCnfFormula calcF rgen start m).foundSolution = false) ∧
        (after F.toCnfFormula calcF rgen start maxFlips).foundSolution = true) := by
  constructor
  · rintro ⟨-, hnot⟩ ⟨hno, hyes⟩
    rw [hnot hno] at hyes
    cases hyes
  · intro hlast
    refine ⟨?_, ?_⟩
    · intro k _ hno
      rw [allSat_iff F.wellFormed]
      exact (listInv_after F hpos k rgen start h hno).exact.foundSolution_iff F.wellFormed
    · intro hno
      rw [← Bool.not_eq_true]
      exact fun hyes => hlast ⟨hno, hyes⟩

omit [IsStrictOrderedRing K] in
/-- Every round starts with the exact list of unsatisfied clauses. -/
theorem iterations_start {F : CnfFormula} (hw : F.WellFormed) (opts : Options) (calcF : Int → K) (seeds : Nat → Nat)
    (mem : Nat → SerialInstance.Memory) (fuel : Nat) : ∀ (left it : Nat) (b : Bitfield), IsConfiguration F.numVars b →
    ∀ i ∈ (iterations opts F calcF seeds mem fuel left it b).1, SerialInstance.ListInv F i.start
  | 0, _, _, _, _, hi => absurd hi List.not_mem_nil
  | left + 1, it, b, hb, i, hi => by
    have hb' := doInitConfiguration_ok hb (.ofSeed (seeds it))
    have hstart : SerialInstance.ListInv F (SerialInstance.new defaultBuild F (mem it)
        (doInitConfiguration F.numVars b (.ofSeed (seeds it))).1) :=
      .new hw defaultBuild (mem it) ⟨hb'.1, hb'.2⟩
    unfold iterations at hi
    simp only at hi
    split at hi
    · exact absurd hi List.not_mem_nil
    · split at hi
      · split at hi
        · rw [List.mem_singleton.1 hi]
          exact hstart
        · rw [List.mem_singleton.1 hi]
          exact hstart
      · rcases List.mem_cons.1 hi with rfl | hi
        · exact hstart
        · exact iterations_start hw opts calcF seeds mem fuel left (it + 1) _ hb' i hi

/-- With an exact index and positive weights budget and verdict of a round agree unless its first solution is
found by the last flip that is allowed. -/
theorem agrees_unless_lastFlip (opts : Options) (F : ExactFormula) {calcF : Int → K} (hpos : ∀ n, 0 < calcF n)
    (seeds : Nat → Nat) (mem : Nat → SerialInstance.Memory) {fuel : Nat} {b : Bitfield}
    (hb : IsConfiguration F.numVariables b) (h0 : 0 < opts.maxFlips) (hfuel : opts.maxFlips ≤ fuel) :
    ∀ i ∈ (iterations opts F.toCnfFormula calcF seeds mem fuel opts.numIterations 1 b).1,
      VerdictAgrees F.toCnfFormula calcF opts.maxFlips i ↔
        ¬((∀ m < opts.maxFlips, (after F.toCnfFormula calcF i.rgen i.start m).foundSolution = false) ∧
          (after F.toCnfFormula calcF i.rgen i.start opts.maxFlips).foundSolution = true) := by
  intro i hi
  have hstart := iterations_start F.wellFormed opts calcF seeds mem fuel opts.numIterations 1 b hb i hi
  rw [((iterations_ran opts F.toCnfFormula calcF seeds mem h0 hfuel opts.numIterations 1 b).1 i hi).agrees_iff]
  exact foundInTime_iff F hpos opts.maxFlips i.rgen hstart

end Exact

end ParallelProbsat.Probsat
