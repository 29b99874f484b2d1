/-
`task::execute` (`worker_task.hpp`) on the solver: what an execution measures. The weights and their arithmetic
(`prec_t`, `calc_f`) are a parameter `K`, of which nothing is assumed, and so is all that is drawn at random.

An instance that reports a flip found an unsatisfied clause in its formula, so the formula has a clause and a variable.
-/
import ParallelProbsat.Communication.Worker
import ParallelProbsat.Sat.Reload
import ParallelProbsat.Sat.UnsatList

namespace ParallelProbsat.Communication

open ParallelProbsat.Lib ParallelProbsat.Util ParallelProbsat.Sat
open SerialInstance (doFlip_numFlips new_numFlips)

/-- The part of the formula that a loop up to `num_clauses()`, a `num_t`, visits. -/
def visited (F : CnfFormula) : CnfFormula := { F with clauses := F.clauses.take (numT F.numClauses).toNat }

/-- What an execution meets. -/
structure Circumstances (K : Type) where
  seed : UInt64
  /-- The start assignment. -/
  belegung : Bitfield
  /-- `get_random_value` of the flip with this number. -/
  getRandomValue : Nat → K → K
  memory : SerialInstance.Memory
  /-- What is read of `running` after so many flips. -/
  running : Nat → Bool
  initDuration : UInt64
  solveDuration : UInt64
  overallDuration : UInt64

section Execute

variable {K : Type} [Zero K] [Add K] [LT K] [DecidableLT K]

/-- The solving loop, for at most `fuel` rounds. -/
def solve (F : CnfFormula) (calcF : Int → K) (x : Circumstances K) (maxFlips : Nat) :
    Nat → SerialInstance → Option SerialInstance
  | 0, _ => none
  | fuel + 1, solver =>
    if solver.foundSolution then some solver
    else
      let solver := SerialInstance.doFlip defaultBuild F calcF (x.getRandomValue solver.getNumFlips) solver
      if maxFlips ≤ solver.getNumFlips then some solver
      else if x.running solver.getNumFlips = false then some solver
      else solve F calcF x maxFlips fuel solver

/-- How `execute` ends when `initialize` was called so many times before on the formula the task shares with others;
every round of the solving loop makes a flip, so the rounds allowed here are enough (`outcome_returns`). -/
def Task.outcome (t : Task) (calcF : Int → K) (x : Circumstances K) (text : Text) (calls : Nat) : Option Execution :=
  match (FormulaObject.new.after text calls).callInitialize text with
  | (_, .error _) => some .failed
  | (obj, .ok _) =>
    let F := obj.toFormula
    if numT F.numClauses < 0 then some .failed -- `unsat_clauses.reserve` throws
    else
      let solver := SerialInstance.new defaultBuild (visited F) x.memory x.belegung
      (solve F calcF x t.maxFlips.toNat (t.maxFlips.toNat + 1) solver).map fun solver =>
        if solver.foundSolution && !solver.checkAssignment (visited F) then .assertion
        else .done { t.dpi with
          numVars := .ofInt F.numVars
          numClauses := .ofInt (numT F.numClauses)
          seed := x.seed
          initDuration := x.initDuration
          solveDuration := x.solveDuration
          numFlipsDone := .ofNat solver.getNumFlips
          solved := t.dpi.solved || solver.foundSolution
          overallDuration := x.overallDuration }

/-- One round more than flips are left to make is enough. -/
theorem solve_returns (F : CnfFormula) (calcF : Int → K) (x : Circumstances K) (maxFlips : Nat) :
    ∀ (fuel : Nat) (solver : SerialInstance), maxFlips < solver.getNumFlips + fuel → 0 < fuel →
      ∃ solver', solve F calcF x maxFlips fuel solver = some solver'
  | fuel + 1, solver, hfuel, _ => by
    unfold solve
    split
    · exact ⟨_, rfl⟩
    · simp only
      split
      · exact ⟨_, rfl⟩
      · rename_i hmore
        split
        · exact ⟨_, rfl⟩
        · rw [doFlip_numFlips] at hmore
          refine solve_returns F calcF x maxFlips fuel _ ?_ (by omega)
          rw [doFlip_numFlips]
          omega

theorem Task.outcome_returns (t : Task) (calcF : Int → K) (x : Circumstances K) (text : Text) (calls : Nat) :
    ∃ outcome, t.outcome calcF x text calls = some outcome := by
  unfold Task.outcome
  split
  · exact ⟨_, rfl⟩
  · rename_i obj _ _
    simp only
    split
    · exact ⟨_, rfl⟩
    · obtain ⟨solver, hsolver⟩ := solve_returns obj.toFormula calcF x t.maxFlips.toNat (t.maxFlips.toNat + 1)
        (SerialInstance.new defaultBuild (visited obj.toFormula) x.memory x.belegung) (by omega) (by omega)
      rw [hsolver]
      exact ⟨_, rfl⟩

/-! ## Flips need a clause -/

/-- Flips are reported together with the size of a formula that has variables and clauses. -/
def DoneProcessingInfo.Sized (info : DoneProcessingInfo) : Prop :=
  0 < info.numFlipsDone → 0 < info.numVars ∧ 0 < info.numClauses

theorem foundSolution_new {B : Build} {F : CnfFormula} (h : F.clauses = []) (mem : SerialInstance.Memory)
    (config : Bitfield) : (SerialInstance.new B F mem config).foundSolution = true := by
  unfold SerialInstance.new SerialInstance.initializeInstance
  rw [h]
  rfl

theorem ofInt_pos {x : Int} (h0 : 0 < x) (h : x < 2 ^ 64) : 0 < UInt64.ofInt x := by
  rw [UInt64.lt_iff_toNat_lt]
  unfold UInt64.ofInt
  rw [UInt64.toNat_ofNat', Int.emod_eq_of_lt h0.le h]
  show 0 < _
  omega

/-- An instance that finds its start assignment a solution makes no flip. -/
theorem solve_found {F : CnfFormula} {calcF : Int → K} {x : Circumstances K} {maxFlips fuel : Nat}
    {s solver : SerialInstance}
    (h : s.foundSolution = true) (hs : solve F calcF x maxFlips fuel s = some solver) : solver = s := by
  cases fuel with
  | zero => cases hs
  | succ fuel =>
    unfold solve at hs
    rw [if_pos h] at hs
    exact (Option.some.inj hs).symm

/-- The flips grow, beyond `maxFlips` by the first one at most. -/
theorem solve_flips (F : CnfFormula) (calcF : Int → K) (x : Circumstances K) (maxFlips : Nat) :
    ∀ (fuel : Nat) {s solver : SerialInstance}, solve F calcF x maxFlips fuel s = some solver →
      s.getNumFlips ≤ solver.getNumFlips ∧ (s.foundSolution = false → s.getNumFlips < solver.getNumFlips) ∧
        solver.getNumFlips ≤ max (s.getNumFlips + 1) maxFlips
  | fuel + 1, s, solver, h => by
    unfold solve at h
    split at h
    · rename_i hfound
      cases h
      exact ⟨le_rfl, fun h0 => absurd (hfound.symm.trans h0) (by decide), le_max_of_le_left (Nat.le_succ _)⟩
    · simp only at h
      split at h
      · cases h
        rw [doFlip_numFlips]
        exact ⟨Nat.le_succ _, fun _ => Nat.lt_succ_self _, le_max_left ..⟩
      · rename_i hmore
        split at h
        · cases h
          rw [doFlip_numFlips]
          exact ⟨Nat.le_succ _, fun _ => Nat.lt_succ_self _, le_max_left ..⟩
        · obtain ⟨hle, -, hmax⟩ := solve_flips F calcF x maxFlips fuel h
          rw [doFlip_numFlips] at hle hmax hmore
          exact ⟨by omega, fun _ => hle, by omega⟩

/-- A formula of which a clause is visited. -/
theorem numT_pos_of_visited {F : CnfFormula} (h : (visited F).clauses ≠ []) :
    0 < numT F.numClauses ∧ F.clauses ≠ [] := by
  unfold visited at h
  constructor
  · by_contra hle
    refine h ?_
    rw [Int.toNat_of_nonpos (not_lt.1 hle), List.take_zero]
  · intro hnil
    rw [hnil, List.take_nil] at h
    exact h rfl

theorem numT_lt (x : Int) : numT x < 2 ^ 31 := by
  unfold numT
  rw [Int.bmod_def]
  split <;> omega

/-- On a file that `read` accepts, what an execution measures is sized. -/
theorem Task.outcome_sized {t : Task} {calcF : Int → K} {x : Circumstances K} {text : Text} {calls : Nat} {r : Input}
    {measured : DoneProcessingInfo} (hr : read text = .ok r)
    (h : t.outcome calcF x text calls = some (.done measured)) :
    measured.Sized := by
  have hobj := FormulaObject.after_read hr calls
  rw [FormulaObject.after] at hobj
  unfold Task.outcome at h
  split at h
  · cases h
  · rename_i obj _ hcall
    rw [hcall] at hobj
    obtain ⟨hclauses, hvars⟩ : obj.clauses = r.clauses ∧ obj.numVariables = r.numVars := hobj
    simp only at h
    split at h
    · cases h
    · obtain ⟨solver, hsolver, he⟩ := Option.map_eq_some_iff.1 h
      split at he <;> cases he
      intro hflips
      replace hflips : 0 < UInt64.ofNat solver.getNumFlips := hflips
      -- there was a clause to flip in
      have hne : (visited obj.toFormula).clauses ≠ [] := by
        intro hnil
        rw [solve_found (foundSolution_new hnil _ _) hsolver, new_numFlips] at hflips
        exact absurd hflips (by decide)
      obtain ⟨hnum, hstored⟩ := numT_pos_of_visited hne
      have hf := read_ok hr
      have hpos : r.numVars ≠ 0 := fun h0 => hstored (hclauses.trans (hf.clauses_nil h0))
      have hsize := hf.size
      have hmax := hf.vars
      unfold numMax at hmax
      have hlt := numT_lt obj.toFormula.numClauses
      have hv : 0 < obj.numVariables ∧ obj.numVariables < 2 ^ 64 := by omega
      exact ⟨ofInt_pos hv.1 hv.2, ofInt_pos hnum (by omega)⟩

theorem ofNat_pos {n : Nat} (h : n < 2 ^ 64) : 0 < UInt64.ofNat n ↔ 0 < n := by
  rw [UInt64.lt_iff_toNat_lt, UInt64.toNat_ofNat', Nat.mod_eq_of_lt h, UInt64.toNat_zero]

/-- An execution reports a flip exactly when the solver does not take the start assignment for a solution. -/
theorem Task.outcome_flips_iff {t : Task} {calcF : Int → K} {x : Circumstances K} {text : Text} {calls : Nat}
    {measured : DoneProcessingInfo} (h : t.outcome calcF x text calls = some (.done measured)) :
    0 < measured.numFlipsDone ↔ (SerialInstance.new defaultBuild
      (visited ((FormulaObject.new.after text calls).callInitialize text).1.toFormula) x.memory
        x.belegung).foundSolution = false := by
  unfold Task.outcome at h
  split at h
  · cases h
  · rename_i obj _ hcall
    rw [hcall]
    simp only at h ⊢
    split at h
    · cases h
    · obtain ⟨solver, hsolver, he⟩ := Option.map_eq_some_iff.1 h
      split at he <;> cases he
      have hstart := new_numFlips defaultBuild (visited obj.toFormula) x.memory x.belegung
      obtain ⟨-, hflip, hmax⟩ := solve_flips _ _ _ _ _ hsolver
      rw [hstart] at hflip hmax
      have hlt := t.maxFlips.toNat_lt
      refine (ofNat_pos (by omega)).trans ⟨fun hpos => ?_, hflip⟩
      rw [← Bool.not_eq_true]
      intro hfound
      rw [solve_found hfound hsolver, hstart] at hpos
      exact absurd hpos (by decide)

end Execute

end ParallelProbsat.Communication
