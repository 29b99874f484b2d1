/-
`sat/cnf_formula.hpp`: the clauses of a formula and, for every variable, the clauses in which it
occurs negated and not negated, in both layouts (`USE_CONT_DATASTRUCT` 1 and 0), with the loops
that build them from the clauses and the counts `read` returns.
-/
import ParallelProbsat.Lib.Vec
import ParallelProbsat.Sat.Clause
import ParallelProbsat.Util.Exn

namespace ParallelProbsat.Sat

open ParallelProbsat.Lib ParallelProbsat.Util

/-- The number of negative and of positive occurrences of every variable, as `read` counts them. -/
abbrev Counts := Vec (Int × Int)

/-- A value stored in a `std::size_t`. -/
def sizeT (x : Int) : Int := x % 2 ^ 64

/-- `std::numeric_limits<sum_t>::max()`. -/
def sumMax : Int := 2 ^ 31 - 1

/-! ## The two layouts -/

/-- The continuous layout: the offset of every variable and how many of its clauses hold the
negative literal, over one array of clause indices. -/
structure ContIndex where
  occurrenceOffset : Vec (Int × Int)
  clausesWithVars : Vec Int

/-- The four iterators of a variable: the ends of its negative and of its positive range. -/
structure Iterators where
  negStart : Int
  negEnd : Int
  posStart : Int
  posEnd : Int
  deriving DecidableEq, Repr

def ContIndex.getIterators (x : ContIndex) (varIndex : Int) : Iterators :=
  let oo := x.occurrenceOffset.get varIndex
  let offset := oo.1
  let negCount := oo.2
  { negStart := offset
    negEnd := offset + negCount
    posStart := offset + negCount
    posEnd := (x.occurrenceOffset.get (varIndex + 1)).1 }

/-- The clause indices between two iterators. -/
def ContIndex.range (x : ContIndex) (first last : Int) : List Int :=
  (List.range (last - first).toNat).map fun (j : Nat) => x.clausesWithVars.get (first + j)

/-- The occurrence index of a formula in either layout. -/
inductive OccurrenceIndex where
  | cont (x : ContIndex)
  | plain (clausesWithVars : Vec (List Int × List Int))

/-- The clauses the iterator pairs of a variable run over: those of its negative literal, then those
of its positive literal. -/
def OccurrenceIndex.getIteratorsForClausesWithVars (x : OccurrenceIndex) (varIndex : Int) : List Int × List Int :=
  match x with
  | .cont x =>
    let it := x.getIterators varIndex
    (x.range it.negStart it.negEnd, x.range it.posStart it.posEnd)
  | .plain clausesWithVars => clausesWithVars.get varIndex

structure CnfFormula where
  numVariables : Int
  clauses : List Clause
  index : OccurrenceIndex
  maxNumBreaksPossible : Int

namespace CnfFormula

def numVars (F : CnfFormula) : Int := F.numVariables

def numClauses (F : CnfFormula) : Int := F.clauses.length

def getClause (F : CnfFormula) (clauseIndex : Int) : Clause := F.clauses.getD clauseIndex.toNat []

def getIteratorsForClausesWithVars (F : CnfFormula) (varIndex : Int) : List Int × List Int :=
  F.index.getIteratorsForClausesWithVars varIndex

end CnfFormula

/-! ## Building the index -/

/-- The pairs of a clause index and a literal in the order in which the nested loops over the
clauses and their literals visit them. -/
def occurrences (clauses : List Clause) : List (Int × Int) :=
  clauses.zipIdx.flatMap fun (clause, i) => clause.seen.map fun lit => ((i : Int), lit)

/-- One round of the loop over the variables that computes `occurrence_offset` and `sum`. -/
def offsetStep (counts : Counts) (acc : Vec (Int × Int) × Int) (i : Nat) : Except Exn (Vec (Int × Int) × Int) :=
  let c := counts.get i
  let occurrenceOffset := acc.1.set i (acc.2, c.1)
  let s := sizeT (c.1 + c.2)
  if sizeT acc.2 > sizeT (sumMax - s) then throw (.outOfRange "cnf_formula: sum_t is too small!")
  else pure (occurrenceOffset, (acc.2 + s).bmod (2 ^ 32))

/-- The state of the loop that fills `clauses_with_vars`. -/
structure ContFill where
  clausesWithVars : Vec Int
  currentlyInitialized : Vec (Int × Int)
  maxNumBreaksPossible : Int

def contFillStep (occurrenceOffset : Vec (Int × Int)) (st : ContFill) (o : Int × Int) : ContFill :=
  let clauseIndex := o.1
  let lit := o.2
  let varIndex := varIndex lit
  let it := (ContIndex.mk occurrenceOffset st.clausesWithVars).getIterators varIndex
  let current := st.currentlyInitialized.get varIndex
  if 0 > lit then
    { clausesWithVars := st.clausesWithVars.set (it.negStart + current.1) clauseIndex
      currentlyInitialized := st.currentlyInitialized.set varIndex (cntT (current.1 + 1), current.2)
      maxNumBreaksPossible := max st.maxNumBreaksPossible (it.negEnd - it.negStart) }
  else
    { clausesWithVars := st.clausesWithVars.set (it.posStart + current.2) clauseIndex
      currentlyInitialized := st.currentlyInitialized.set varIndex (current.1, cntT (current.2 + 1))
      maxNumBreaksPossible := max st.maxNumBreaksPossible (it.posEnd - it.posStart) }

/-- `cnf_formula_constructor_variant_cont_datastruct`: the index and `max_num_breaks_possible`. -/
def constructorVariantContDatastruct (numVars : Int) (clauses : List Clause) (counts : Counts) :
    Except Exn (ContIndex × Int) := do
  let (offsets, sum) ← (List.range numVars.toNat).foldlM (offsetStep counts) (.filled (numVars + 1).toNat (0, 0), 0)
  let occurrenceOffset := offsets.set numVars (sum, 0)
  let st := (occurrences clauses).foldl (contFillStep occurrenceOffset)
    { clausesWithVars := .filled sum.toNat 0
      currentlyInitialized := .filled numVars.toNat (0, 0)
      maxNumBreaksPossible := 0 }
  return (⟨occurrenceOffset, st.clausesWithVars⟩, st.maxNumBreaksPossible)

/-- One round of the loop of the layout with two vectors for every variable. -/
def plainFillStep (st : Vec (List Int × List Int) × Int) (o : Int × Int) : Vec (List Int × List Int) × Int :=
  let clauseIndex := o.1
  let lit := o.2
  let varIndex := varIndex lit
  let lists := st.1.get varIndex
  if 0 > lit then
    let first := lists.1 ++ [clauseIndex]
    (st.1.set varIndex (first, lists.2), max st.2 first.length)
  else
    let second := lists.2 ++ [clauseIndex]
    (st.1.set varIndex (lists.1, second), max st.2 second.length)

/-- The part of `cnf_formula::initialize` after `read`. -/
def CnfFormula.initializeFormula (useContDatastruct : Bool) (numVars : Int) (clauses : List Clause) (counts : Counts) :
    Except Exn CnfFormula :=
  if useContDatastruct then do
    let (x, maxNumBreaksPossible) ← constructorVariantContDatastruct numVars clauses counts
    return ⟨numVars, clauses, .cont x, maxNumBreaksPossible⟩
  else
    let st := (occurrences clauses).foldl plainFillStep (.filled numVars.toNat ([], []), 0)
    return ⟨numVars, clauses, .plain st.1, st.2⟩

end ParallelProbsat.Sat
