/-
`probsat.cpp`: the sequential solver. It draws a start assignment for every run, lets the solver flip
until it has found a solution or `--maxflips` is reached, and prints the solution of the first run that
found one on its `v` lines: the literals it prints are those of its own start assignment, which the
solver copied, and of variables counted from 0.

The weights and their arithmetic (`prec_t`, `calc_f`) are a parameter `K`, of which nothing is
assumed. Timing and the other `c` lines are left out.
-/
import ParallelProbsat.Sat.Verdict

namespace ParallelProbsat.Probsat

open ParallelProbsat.Lib ParallelProbsat.Util ParallelProbsat.Sat

/-! ## Random numbers -/

/-- `lin_cong_random_generator`: its seed and the state of its `std::minstd_rand`. -/
structure LinCongRandomGenerator where
  seed : Nat
  engine : Nat

namespace LinCongRandomGenerator

/-- The modulus of `minstd_rand`. -/
def modulus : Nat := 2147483647

def ofSeed (seed : Nat) : LinCongRandomGenerator :=
  ⟨seed, if seed % modulus = 0 then 1 else seed % modulus⟩

/-- `engine() - engine.min()`, with the generator after it. -/
def rand (g : LinCongRandomGenerator) : Nat × LinCongRandomGenerator :=
  let x := 48271 * g.engine % modulus
  (x - 1, { g with engine := x })

def getRandMax : Nat := modulus - 1 - 1

end LinCongRandomGenerator

/-! ## The program -/

/-- The parameters of the command line, but for `--seed`, which is that of the first run, and for `--cb` and `--eps`,
which only choose the weights. -/
structure Options where
  numIterations : Nat
  maxFlips : Nat
  printSolution : Bool

/-- The parameter is the number of literals on a `v` line; 0 prints none. -/
def Options.outputSolution (opts : Options) : Nat := if opts.printSolution then 20 else 0

def doInitConfiguration (numVars : Int) (belegung : Bitfield) (rgen : LinCongRandomGenerator) :
    Bitfield × LinCongRandomGenerator :=
  (List.range numVars.toNat).foldl
    (fun acc (i : Nat) =>
      let (r, rgen) := acc.2.rand
      (acc.1.assign i (r % 2 != 0), rgen))
    (belegung, rgen)

/-- One round of the loop that prints the solution: a new line every `outputSolution` literals. -/
def printStep (outputSolution : Nat) (acc : Bitfield × List (List Int)) (i : Nat) : Bitfield × List (List Int) :=
  let lines := if i % outputSolution = 0 then acc.2 ++ [[]] else acc.2
  let belegung := acc.1.access i
  let literal : Int := if belegung.lastModValue then i else -i
  (belegung, lines.dropLast ++ [lines.getLastD [] ++ [literal]])

/-- The literals of the `v` lines. -/
def printSolution (outputSolution : Nat) (numVars : Int) (belegung : Bitfield) : List (List Int) :=
  ((List.range numVars.toNat).foldl (printStep outputSolution) (belegung, [])).2

/-- How the program ends: `running` when the rounds of the solving loop allowed here do not end it. -/
inductive Outcome where
  | running
  | aborted
  | noSolution
  | satisfiable (vLines : List (List Int))
  deriving DecidableEq

section Main

variable {K : Type} [Zero K] [Add K] [Mul K] [Div K] [NatCast K] [LT K] [DecidableLT K]

/-- `get_random_value` for the next random number. -/
def getRandomValue (r : Nat) (l : K) : K := (r : K) / ((LinCongRandomGenerator.getRandMax + 1 : Nat) : K) * l

/-- The solving loop, for at most `fuel` rounds. -/
def solve (F : CnfFormula) (calcF : Int → K) (maxFlips : Nat) :
    Nat → LinCongRandomGenerator → SerialInstance → Option SerialInstance
  | 0, _, _ => none
  | fuel + 1, rgen, solver =>
    if solver.foundSolution then some solver
    else
      let (r, rgen) := rgen.rand
      let solver := SerialInstance.doFlip defaultBuild F calcF (getRandomValue r) solver
      if 0 < maxFlips ∧ maxFlips ≤ solver.getNumFlips then some solver else solve F calcF maxFlips fuel rgen solver

/-- The loop over the runs; `left` of them are left, and `it` counts them. -/
def runs (opts : Options) (F : CnfFormula) (calcF : Int → K) (seeds : Nat → Nat) (mem : Nat → SerialInstance.Memory)
    (fuel : Nat) : Nat → Nat → Bitfield → Outcome
  | 0, _, _ => .noSolution
  | left + 1, it, belegung =>
    let (belegung, rgen) := doInitConfiguration F.numVars belegung (.ofSeed (seeds it))
    match solve F calcF opts.maxFlips fuel rgen (SerialInstance.new defaultBuild F (mem it) belegung) with
    | none => .running
    | some solver =>
      if solver.foundSolution then
        if solver.checkAssignment F then
          .satisfiable (if 0 < opts.outputSolution then printSolution opts.outputSolution F.numVars belegung else [])
        else .aborted
      else runs opts F calcF seeds mem fuel left (it + 1) belegung

/-- `main` for a file with this text; `seeds it` is the seed of run `it`. -/
def main (opts : Options) (text : Text) (calcF : Int → K) (seeds : Nat → Nat) (bytes : Int → BitVec 8)
    (mem : Nat → SerialInstance.Memory) (fuel : Nat) : Except Exn Outcome := do
  let bformula ← CnfFormula.load true text
  return runs opts bformula calcF seeds mem fuel opts.numIterations 1 (.new bytes bformula.numVars)

end Main

/-! ## The start assignment -/

/-- The assignment has a value for every variable. -/
def IsConfiguration (numVars : Int) (b : Bitfield) : Prop := b.length = numVars ∧ b.WF

theorem doInitConfiguration_ok {numVars : Int} {b : Bitfield} (hb : IsConfiguration numVars b)
    (rgen : LinCongRandomGenerator) : IsConfiguration numVars (doInitConfiguration numVars b rgen).1 := by
  refine foldl_range (P := fun _ (acc : Bitfield × LinCongRandomGenerator) => IsConfiguration numVars acc.1) hb
    fun i acc hi hacc => ?_
  obtain ⟨hlen, -⟩ := hacc
  exact ⟨by rw [Bitfield.length_assign, hlen], .assign (by omega) (by rw [hlen]; omega) _⟩

/-! ## The `v` lines -/

theorem flatten_appendLast {lines : List (List Int)} (h : lines ≠ []) (x : Int) :
    (lines.dropLast ++ [lines.getLastD [] ++ [x]]).flatten = lines.flatten ++ [x] := by
  conv_rhs => rw [← List.dropLast_append_getLast h]
  rw [List.flatten_append, List.flatten_append, List.getLastD_eq_getLast?, List.getLast?_eq_some_getLast h]
  simp

/-- What is printed: for every variable, counted from 0, its number or its negative. -/
theorem printSolution_flatten {o : Nat} {numVars : Int} {b : Bitfield} (hb : IsConfiguration numVars b) :
    (printSolution o numVars b).flatten = (List.range numVars.toNat).map fun (i : Nat) => if b.read i then
    (i : Int) else -i := by
  have h := foldl_range (n := numVars.toNat) (f := printStep o) (s := (b, []))
    (P := fun k acc => (acc.1.length = numVars ∧ acc.1.WF ∧ ∀ j, j < numVars → acc.1.read j = b.read j) ∧
      (0 < k → acc.2 ≠ []) ∧ acc.2.flatten = (List.range k).map fun (i : Nat) => if b.read i then (i : Int) else -i)
    ⟨⟨hb.1, hb.2, fun _ _ => rfl⟩, fun h => absurd h (lt_irrefl 0), rfl⟩ fun i acc hi hacc => ?_
  · exact h.2.2
  · obtain ⟨⟨hlen, hwf, hread⟩, hne, hflat⟩ := hacc
    have hi' : (i : Int) < acc.1.length := by rw [hlen]; omega
    have hlines : (if i % o = 0 then acc.2 ++ [[]] else acc.2) ≠ [] ∧
        (if i % o = 0 then acc.2 ++ [[]] else acc.2).flatten = acc.2.flatten := by
      split
      · exact ⟨by simp, by simp⟩
      · rename_i hmod
        exact ⟨hne (Nat.pos_of_ne_zero fun e => hmod (by rw [e]; exact Nat.zero_mod o)), rfl⟩
    unfold printStep
    simp only
    refine ⟨⟨by rw [Bitfield.length_access, hlen], .access (by omega) hi', fun j hj => ?_⟩, fun _ => by simp, ?_⟩
    · rw [Bitfield.read_access hwf (by rw [hlen]; exact hj), hread j hj]
    · rw [flatten_appendLast hlines.1, hlines.2, hflat, Bitfield.lastModValue_access hwf hi',
        hread i (by omega), List.range_succ, List.map_append]
      rfl

/-! ## What a printed solution should be -/

/-- The literals of the `v` lines name every variable once, and describe an assignment that
satisfies every clause. -/
structure PrintsModel (F : CnfFormula) (vLines : List (List Int)) : Prop where
  names : (vLines.flatten.map Int.natAbs).Perm (List.range' 1 F.numVariables.toNat)
  satisfies : ∀ c ∈ F.clauses, clauseSat (fun v => decide (v + 1 ∈ vLines.flatten)) c = true

section Runs

variable {K : Type} [Zero K] [Add K] [Mul K] [Div K] [NatCast K] [LT K] [DecidableLT K]

/-- A solution that is reported is printed from a start assignment. -/
theorem runs_satisfiable {opts : Options} (hp : opts.printSolution = true) {F : CnfFormula} {calcF : Int → K}
    {seeds : Nat → Nat} {mem : Nat → SerialInstance.Memory} {fuel : Nat} : ∀ (left it : Nat) (b : Bitfield)
    {vLines : List (List Int)}, IsConfiguration F.numVars b →
    runs opts F calcF seeds mem fuel left it b = .satisfiable vLines →
      ∃ b', IsConfiguration F.numVars b' ∧ vLines = printSolution 20 F.numVars b'
  | 0, _, _, _, _, h => by cases h
  | left + 1, it, b, vLines, hb, h => by
    have hb' := doInitConfiguration_ok hb (.ofSeed (seeds it))
    have hout : opts.outputSolution = 20 := by unfold Options.outputSolution; rw [hp]; rfl
    unfold runs at h
    simp only [hout] at h
    split at h
    · cases h
    · split at h
      · split at h
        · cases h
          exact ⟨_, hb', rfl⟩
        · cases h
      · exact runs_satisfiable hp left (it + 1) _ hb' h

/-- Whenever the program reports a solution with `--printSolution`, what it prints is a model
exactly if the formula has no variable. -/
theorem printed_solution_iff (opts : Options) (hp : opts.printSolution = true) (text : Text) (F : CnfFormula)
    (hF : CnfFormula.load true text = .ok F) (calcF : Int → K) (seeds : Nat → Nat) (bytes : Int → BitVec 8)
    (mem : Nat → SerialInstance.Memory) (fuel : Nat) (vLines : List (List Int))
    (h : main opts text calcF seeds bytes mem fuel = .ok (.satisfiable vLines)) :
    PrintsModel F vLines ↔ F.numVariables = 0 := by
  obtain ⟨r, hread, hinit⟩ := load_ok hF
  have hf := read_ok hread
  obtain ⟨hv, hc⟩ := initializeFormula_frame hinit
  have hnn : 0 ≤ F.numVariables := by rw [hv]; have := hf.size; omega
  unfold main at h
  rw [hF] at h
  obtain ⟨b, hb, rfl⟩ := runs_satisfiable hp _ _ _ ⟨rfl, Bitfield.wf_new bytes hnn⟩ (Except.ok.inj h)
  have hflat := printSolution_flatten (o := 20) hb
  constructor
  · intro hm
    -- the last variable is not named: the largest number printed is that of the one before
    by_contra hne
    have hnames := hm.names
    rw [hflat, List.map_map] at hnames
    have hmem : F.numVariables.toNat ∈ List.range' 1 F.numVariables.toNat := List.mem_range'_1.2 (by omega)
    obtain ⟨i, hi, he⟩ := List.mem_map.1 (hnames.mem_iff.2 hmem)
    have hi := List.mem_range.1 hi
    have habs : Int.natAbs (if b.read i then (i : Int) else -i) = i := by split <;> omega
    have : i = F.numVariables.toNat := habs.symm.trans he
    unfold CnfFormula.numVars at hi
    omega
  · intro h0
    have hnil : F.clauses = [] := by rw [hc]; exact hf.clauses_nil (by rw [← hv]; exact h0)
    constructor
    · rw [hflat]
      unfold CnfFormula.numVars
      rw [h0]
      rfl
    · rw [hnil]
      simp

end Runs

/-- A run on one unit clause, from seed 0: the solver makes variable 1 true, and "v 0" is printed. -/
theorem main_unitText : (main ⟨1, 0, true⟩ SerialInstance.unitText (fun _ => (1 : ℚ)) (fun _ => 0) 0
    (fun _ => ⟨0, 0, 0, 0⟩) 2).toOption = some (.satisfiable [[0]]) := by decide +kernel

theorem main_unitText_ok : main ⟨1, 0, true⟩ SerialInstance.unitText (fun _ => (1 : ℚ)) (fun _ => 0) 0
    (fun _ => ⟨0, 0, 0, 0⟩) 2 = .ok (.satisfiable [[0]]) :=
  ok_of_toOption main_unitText

theorem printed_solution_iff_unitText : ∃ F, CnfFormula.load true SerialInstance.unitText = .ok F ∧
    (PrintsModel F [[0]] ↔ F.numVariables = 0) := by
  have hm := main_unitText_ok
  obtain ⟨F, hF, -⟩ := bind_ok hm
  exact ⟨F, hF, printed_solution_iff ⟨1, 0, true⟩ rfl SerialInstance.unitText F hF _ _ _ _ _ _ hm⟩

/-- The 0 that is printed names no variable. -/
theorem printed_solution_not_model : ¬ ∀ (opts : Options) (text : Text) (F : CnfFormula) (calcF : Int → ℚ)
    (seeds : Nat → Nat) (bytes : Int → BitVec 8) (mem : Nat → SerialInstance.Memory) (fuel : Nat)
    (vLines : List (List Int)), opts.printSolution = true → CnfFormula.load true text = .ok F →
      main opts text calcF seeds bytes mem fuel = .ok (.satisfiable vLines) → PrintsModel F vLines := by
  intro h
  have hload : (CnfFormula.load true SerialInstance.unitText).toOption.map (·.numVariables) = some 1 := by
    decide +kernel
  obtain ⟨F, hF, hn⟩ := ok_of_map_toOption hload
  have hnames := (h ⟨1, 0, true⟩ SerialInstance.unitText F _ _ _ _ _ _ rfl hF main_unitText_ok).names
  rw [hn] at hnames
  exact absurd hnames (by decide)

end ParallelProbsat.Probsat
