/-
`sat/instance.hpp`: `serial_instance`, one run of ProbSAT on a formula. Its state is the assignment
and what is kept up to date for it: the list of unsatisfied clauses with the position of every
clause in it, and, depending on the build, the break counts and the critical literals.

`num_t` is taken wide enough for clauses, literals and positions; the break counters are of type
`cnt_t` and wrap. Macros that only add checks or output (`ADDITIONAL_CHECKS`, `DEBUG_OUTPUT`) are off.
-/
import ParallelProbsat.Sat.CnfFormula
import ParallelProbsat.Util.Bitfield

namespace ParallelProbsat.Sat

open ParallelProbsat.Lib ParallelProbsat.Util

/-- The template argument `caching` and the macros `USE_CRIT_LITERAL_CACHING` and
`ALLOW_UNCLEAN_CLAUSES`. -/
structure Build where
  caching : Bool
  useCritLiteralCaching : Bool
  allowUncleanClauses : Bool
  deriving DecidableEq, Repr

/-- `config.hpp` and `probsat.hpp` as they are. -/
def defaultBuild : Build := ⟨true, true, false⟩

structure SerialInstance where
  belegung : Bitfield
  /-- Indices of the unsatisfied clauses. -/
  unsatClauses : Vec Int
  /-- For every clause its position in `unsatClauses`, or minus the number of its true literals. -/
  unsatClausesLocation : Vec Int
  numFlipsDone : Nat
  numBreaksByFlip : Vec Int
  critLiteralInClause : Vec Int

namespace SerialInstance

/-! ## The list of unsatisfied clauses -/

def makeClauseUnsat (s : SerialInstance) (clauseIndex : Int) : SerialInstance :=
  { s with
    unsatClausesLocation := s.unsatClausesLocation.set clauseIndex s.unsatClauses.size
    unsatClauses := s.unsatClauses.pushBack clauseIndex }

def makeClauseSat (s : SerialInstance) (clauseIndex : Int) : SerialInstance :=
  let nowSatCl := s.unsatClausesLocation.get clauseIndex
  let location := s.unsatClausesLocation.set clauseIndex (-1)
  let uclause := s.unsatClauses.back
  let unsatClauses := s.unsatClauses.popBack
  if unsatClauses.size = 0 then
    { s with unsatClausesLocation := location, unsatClauses := unsatClauses }
  else if nowSatCl = unsatClauses.size then
    { s with unsatClausesLocation := location, unsatClauses := unsatClauses }
  else
    { s with
      unsatClausesLocation := location.set uclause nowSatCl
      unsatClauses := unsatClauses.set nowSatCl uclause }

/-! ## Reading a clause under the assignment -/

def getFirstSatisfiedLiteral (s : SerialInstance) (clause : Clause) (dontTakeLiteral : Int) : Int :=
  (clause.seen.find? fun lit => dontTakeLiteral != lit && litTrue s.belegung.read lit).getD 0

def getCriticalLiteral (s : SerialInstance) (clause : Clause) (dontTakeLiteral : Int) : Int :=
  s.getFirstSatisfiedLiteral clause dontTakeLiteral

def isClauseSatisfied (s : SerialInstance) (clause : Clause) : Bool :=
  0 != s.getFirstSatisfiedLiteral clause 0

def numSatLitInClause (s : SerialInstance) (clause : Clause) : Nat :=
  clause.seen.countP (litTrue s.belegung.read)

def getNumSatLitInClause (s : SerialInstance) (F : CnfFormula) (clauseIndex : Int) : Nat :=
  s.numSatLitInClause (F.getClause clauseIndex)

/-! ## Break counts -/

/-- `num_breaks_by_flip[varIndex] += d`, for `++` and `--`. -/
def addBreaks (s : SerialInstance) (varIndex d : Int) : SerialInstance :=
  { s with numBreaksByFlip := s.numBreaksByFlip.modify varIndex fun x => cntT (x + d) }

def setCritLiteral (s : SerialInstance) (clauseIndex literal : Int) : SerialInstance :=
  { s with critLiteralInClause := s.critLiteralInClause.set clauseIndex literal }

def getNumBreaksByFlip (s : SerialInstance) (F : CnfFormula) (literal : Int) (caching : Bool) : Int :=
  let varIndex := varIndex literal
  if caching then s.numBreaksByFlip.get varIndex
  else
    let it := F.getIteratorsForClausesWithVars varIndex
    (if 0 < literal then it.1 else it.2).foldl
      (fun numBreaks c => if 1 = s.getNumSatLitInClause F c then cntT (numBreaks + 1) else numBreaks) 0

/-! ## Flipping a literal -/

/-- One round of the break loop of `flip_literal`. -/
def breakClause (B : Build) (F : CnfFormula) (literal : Int) (s : SerialInstance) (clauseIndex : Int) :
    SerialInstance :=
  let rvarIndex := varIndex literal
  let ucl := s.unsatClausesLocation.get clauseIndex
  if 0 ≤ ucl then s
  else
    let s' :=
      if ucl = -1 then
        -- it was the last satisfied literal
        let s' := s.makeClauseUnsat clauseIndex
        let s' := if B.caching then s'.addBreaks rvarIndex (-1) else s'
        if B.useCritLiteralCaching then s'.setCritLiteral clauseIndex 0 else s'
      else { s with unsatClausesLocation := s.unsatClausesLocation.modify clauseIndex (· + 1) }
    if B.caching ∧ ucl = -2 then
      let critLiteral := s'.getCriticalLiteral (F.getClause clauseIndex) (-literal)
      if B.allowUncleanClauses ∧ critLiteral = 0 then
        let s' := s'.addBreaks rvarIndex 1
        if B.useCritLiteralCaching then s'.setCritLiteral clauseIndex (-literal) else s'
      else
        let s' := s'.addBreaks (varIndex critLiteral) 1
        if B.useCritLiteralCaching then s'.setCritLiteral clauseIndex critLiteral else s'
    else s'

/-- One round of the make loop of `flip_literal`. -/
def makeClause (B : Build) (F : CnfFormula) (literal : Int) (s : SerialInstance) (clauseIndex : Int) :
    SerialInstance :=
  let rvarIndex := varIndex literal
  let ucl := s.unsatClausesLocation.get clauseIndex
  if 0 ≤ ucl then
    let s' := s.makeClauseSat clauseIndex
    let s' := if B.caching then s'.addBreaks rvarIndex 1 else s'
    if B.useCritLiteralCaching then s'.setCritLiteral clauseIndex literal else s'
  else
    let s' := { s with unsatClausesLocation := s.unsatClausesLocation.modify clauseIndex (· - 1) }
    if B.caching ∧ ucl = -1 then
      let critLiteral :=
        if B.useCritLiteralCaching then s'.critLiteralInClause.get clauseIndex
        else s'.getCriticalLiteral (F.getClause clauseIndex) (-literal)
      if B.allowUncleanClauses then
        let s' := if critLiteral = 0 then s'.addBreaks rvarIndex (-1) else s'.addBreaks (varIndex critLiteral) (-1)
        if B.useCritLiteralCaching then s'.setCritLiteral clauseIndex 0 else s'
      else s'.addBreaks (varIndex critLiteral) (-1)
    else s'

/-- The clauses of the break loop and those of the make loop. -/
def flipRanges (F : CnfFormula) (literal : Int) : List Int × List Int :=
  let it := F.getIteratorsForClausesWithVars (varIndex literal)
  if 0 < literal then it else (it.2, it.1)

def flipLiteral (B : Build) (F : CnfFormula) (s : SerialInstance) (literal : Int) : SerialInstance :=
  let rvarIndex := varIndex literal
  let it := flipRanges F literal
  let s := it.1.foldl (breakClause B F literal) s
  let s := it.2.foldl (makeClause B F literal) s
  -- both accesses are through the non-const `operator[]`
  let b := s.belegung.access rvarIndex
  { s with belegung := b.assign rvarIndex (!b.lastModValue) }

/-! ## Construction -/

/-- What newly allocated memory happens to hold. -/
structure Memory where
  parameter : Int → BitVec 8
  member : Int → BitVec 8
  unsatClauses : Int → Int
  unsatClausesLocation : Int → Int

/-- One round of the loop of `initialize`. -/
def initClause (B : Build) (F : CnfFormula) (s : SerialInstance) (clauseIndex : Int) : SerialInstance :=
  let numSatLit := s.getNumSatLitInClause F clauseIndex
  if numSatLit = 0 then s.makeClauseUnsat clauseIndex
  else
    let s' :=
      if numSatLit = 1 ∧ B.caching then
        let critLiteral := s.getCriticalLiteral (F.getClause clauseIndex) 0
        let s' := s.addBreaks (varIndex critLiteral) 1
        if B.useCritLiteralCaching then s'.setCritLiteral clauseIndex critLiteral else s'
      else s
    { s' with unsatClausesLocation := s'.unsatClausesLocation.set clauseIndex (-numSatLit) }

def initializeInstance (B : Build) (F : CnfFormula) (s : SerialInstance) : SerialInstance :=
  (List.range F.clauses.length).foldl (fun s (i : Nat) => initClause B F s i) s

/-- The constructor: `initial_config` is passed by value and copied into the member. -/
def new (B : Build) (F : CnfFormula) (mem : Memory) (initialConfig : Bitfield) : SerialInstance :=
  initializeInstance B F
    { belegung := .copy mem.member (.copy mem.parameter initialConfig)
      unsatClauses := .reserved mem.unsatClauses
      unsatClausesLocation := .reserved mem.unsatClausesLocation
      numFlipsDone := 0
      numBreaksByFlip := .filled (if B.caching then F.numVars.toNat else 0) 0
      critLiteralInClause := .filled (if B.useCritLiteralCaching then F.clauses.length else 0) 0 }

/-! ## Public functions -/

def foundSolution (s : SerialInstance) : Bool := s.unsatClauses.size == 0

def checkAssignment (F : CnfFormula) (s : SerialInstance) : Bool :=
  (List.range F.clauses.length).all fun (i : Nat) => s.isClauseSatisfied (F.getClause i)

def getNumFlips (s : SerialInstance) : Nat := s.numFlipsDone

def getIndexOfRandomUnsatisfiedClause (s : SerialInstance) : Int :=
  s.unsatClauses.get (s.numFlipsDone % s.unsatClauses.size : Nat)

/-- The clause `do_flip` works on. -/
def pickedClause (F : CnfFormula) (s : SerialInstance) : Clause :=
  F.getClause s.getIndexOfRandomUnsatisfiedClause

/-- The end of `do_flip`, once the literal is chosen. -/
def flipChosen (B : Build) (F : CnfFormula) (s : SerialInstance) (rlit : Int) : SerialInstance :=
  let s := flipLiteral B F s rlit
  { s with numFlipsDone := s.numFlipsDone + 1 }

section DoFlip

variable {K : Type} [Zero K] [Add K] [LT K] [DecidableLT K]

/-- The first loop of `do_flip`: the prefix sums of `calc_f` in `f` (of which only memory was
reserved), and `sum_f`. -/
def prefixSums (B : Build) (F : CnfFormula) (calcF : Int → K) (s : SerialInstance) (rclause : Clause) : Vec K × K :=
  (List.range rclause.numVars).foldl
    (fun acc (i : Nat) =>
      let cf := calcF (s.getNumBreaksByFlip F (rclause.subscript i) B.caching)
      let sumF := acc.2 + cf
      (acc.1.set i sumF, sumF))
    (.reserved fun _ => 0, 0)

/-- The second loop of `do_flip`: the first literal whose prefix sum exceeds `r`, or 0. -/
def chooseLiteral (f : Vec K) (r : K) (rclause : Clause) : Int :=
  ((List.range rclause.numVars).find? fun (i : Nat) => decide (r < f.get i)).elim 0 rclause.subscript

/-- The literal `do_flip` flips; `getRandomValue` scales the next random number to the interval up
to its argument. -/
def chosenLiteral (B : Build) (F : CnfFormula) (calcF : Int → K) (getRandomValue : K → K) (s : SerialInstance) : Int :=
  let rclause := s.pickedClause F
  let (f, sumF) := prefixSums B F calcF s rclause
  chooseLiteral f (getRandomValue sumF) rclause

def doFlip (B : Build) (F : CnfFormula) (calcF : Int → K) (getRandomValue : K → K) (s : SerialInstance) :
    SerialInstance :=
  flipChosen B F s (chosenLiteral B F calcF getRandomValue s)

end DoFlip

end SerialInstance

end ParallelProbsat.Sat
