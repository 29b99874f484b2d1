/-
`sat/input.hpp`: `read`, which returns the clauses of a text in DIMACS format and how often every
literal was counted, in the default build (`VERIFY_INPUT` 1, `ALLOW_UNCLEAN_CLAUSES` 0,
`DEBUG_OUTPUT` 0). A clause line is read twice: its fields are counted with `stoll`, then the clause
is built by stream extraction; and a clause that is always true is dropped after it was counted.
-/
import ParallelProbsat.Sat.CnfFormula
import ParallelProbsat.Util.Text

namespace ParallelProbsat.Sat

open ParallelProbsat.Lib ParallelProbsat.Util

/-- A value stored in a `num_t`, a signed integer of 32 bits. -/
def numT (x : Int) : Int := x.bmod (2 ^ 32)

/-- `std::numeric_limits<num_t>::max()`. -/
def numMax : Int := 2 ^ 31 - 1

/-- `llabs`; the smallest value has no positive counterpart. -/
def llabs (x : Int) : Int := (x.natAbs : Int).bmod (2 ^ 64)

/-- An exception with the `field` it was thrown at. -/
structure Fault where
  field : Text
  exn : Exn

/-- The variables of `read`. -/
structure ReadState where
  numVars : Int
  numClauses : Int
  clauses : List Clause
  counts : Counts
  field : Text

def throwAt {α : Type} (field : Text) (x : Except Exn α) : Except Fault α :=
  match x with
  | .ok a => .ok a
  | .error e => .error ⟨field, e⟩

/-! ## The p line -/

def verifyParameter (tmp : Int) : Except Exn Unit :=
  if 1 > tmp then throw (.runtimeError "less than one variable/clause doesn't make sense")
  else if tmp ≥ numMax then throw (.runtimeError "too many variables/clauses (recompile with different num_t)")
  else pure ()

/-- The numbers of variables and clauses, and the `field` read last. -/
def configurationFields (line field : Text) : Except Fault (Int × Int × Text) := do
  let (lineIss, field) := (IStream.ofText line).extractWord field
  let (lineIss, field) := lineIss.extractWord field
  let (lineIss, field) := lineIss.extractWord field
  let numVars := numT (← throwAt field (stoll field))
  throwAt field (verifyParameter numVars)
  let (lineIss, field) := lineIss.extractWord field
  let numClauses := numT (← throwAt field (stoll field))
  throwAt field (verifyParameter numClauses)
  if !lineIss.eof then throw ⟨field, .runtimeError "invalid format: too many fields in p line"⟩
  else return (numVars, numClauses, field)

def parseConfiguration (line : Text) (st : ReadState) : Except Fault ReadState :=
  if !startsWith line ['p', ' ', 'c', 'n', 'f', ' '] then
    throw ⟨st.field, .runtimeError "invalid format: expected ' cnf num_vars num_clauses' following 'p'"⟩
  else do
    let (numVars, numClauses, field) ← configurationFields line st.field
    return { st with numVars := numVars, numClauses := numClauses, field := field }

/-! ## A clause line -/

/-- One round of the loop over the fields: the literal `tmp` is counted. -/
def countField (numVars : Int) (counts : Counts) (tmp : Int) : Except Exn Counts :=
  if tmp = 0 ∨ llabs tmp > numVars then throw (.outOfRange "found nonexistent variable in clause")
  else
    let index := sizeT (llabs tmp - 1)
    if ¬ index < counts.size then throw (.assertion "index < count_clauses_with_vars.size()")
    else
      let cnt := counts.get index
      if 0 > tmp then
        if cnt.1 = cntMax then throw (.outOfRange "read: cnt_t is too small!")
        else pure (counts.set index (cntT (cnt.1 + 1), cnt.2))
      else
        if cnt.2 = cntMax then throw (.outOfRange "read: cnt_t is too small!")
        else pure (counts.set index (cnt.1, cntT (cnt.2 + 1)))

def parseField (numVars : Int) (counts : Counts) (field : Text) : Except Fault Counts := do
  let tmp ← throwAt field (stoll field)
  throwAt field (countField numVars counts tmp)

/-- The pairs of literals the loops over a new clause compare. -/
def literalPairs (newClause : Clause) : List (Int × Int) :=
  (List.range newClause.numVars).flatMap fun i =>
    (List.range i).map fun j => (newClause.subscript i, newClause.subscript j)

def isUnclean (newClause : Clause) : Bool :=
  (literalPairs newClause).any fun (x, y) => varIndex x == varIndex y && x == y

def isAlwaysTrue (newClause : Clause) : Bool :=
  (literalPairs newClause).any fun (x, y) => varIndex x == varIndex y && x != y

/-- The line without its last two characters; of a single character nothing is cut off, because
`length() - 2` is then the largest `size_t`. -/
def clauseText (line : Text) : Text := line.take (sizeT ((line.length : Int) - 2)).toNat

/-- The literals the constructor of `clause_t` reads from the stream. -/
def storedLiterals (line : Text) : Clause := (extracted (clauseText line)).map numT

def parseClause (line : Text) (st : ReadState) : Except Fault ReadState :=
  if !endsWith line [' ', '0'] then
    throw ⟨st.field, .runtimeError "invalid format: each clause must be terminated with a 0"⟩
  else do
    let fields := getlines ' ' (clauseText line)
    let counts ← fields.foldlM (parseField st.numVars) st.counts
    let field := fields.getLastD st.field
    let nvars := fields.length
    if 1 > nvars then throw ⟨field, .runtimeError "each clause must have at least one variable"⟩
    else
      let newClause := storedLiterals line
      if ¬ newClause.length = nvars then throw ⟨field, .assertion "clause.size() == num_vars"⟩
      else if isAlwaysTrue newClause then return { st with counts := counts, field := field }
      else if isUnclean newClause then throw ⟨field, .runtimeError "cant process unclean clause!"⟩
      else return { st with clauses := st.clauses ++ [newClause], counts := counts, field := field }

/-! ## The whole text -/

/-- One round of the loop of `read`. -/
def readLine (st : ReadState) (line : Text) : Except Fault ReadState :=
  match line with
  | [] => pure st
  | 'c' :: _ => pure st
  | 'p' :: _ => do
    let st ← parseConfiguration line st
    return { st with counts := st.counts.resize st.numVars.toNat (0, 0) }
  | _ => parseClause line st

/-- What the handler around the loop makes of an exception; a failed assertion aborts. -/
def readingError (linectr : Nat) (fault : Fault) : Exn :=
  match fault.exn with
  | .assertion expr => .assertion expr
  | e => .nested ("fatal error while reading input, currently parsing in line " ++ toString linectr ++ ":\n" ++
      String.ofList fault.field) e

def readLines (linectr : Nat) (st : ReadState) : List Text → Except Exn ReadState
  | [] => .ok st
  | line :: rest =>
    match readLine st line with
    | .error fault => .error (readingError linectr fault)
    | .ok st => readLines (linectr + 1) st rest

/-- What `read` returns and leaves in its arguments. -/
structure Input where
  numVars : Int
  clauses : List Clause
  counts : Counts

def read (text : Text) : Except Exn Input := do
  let st ← readLines 1 ⟨0, 0, [], ⟨0, fun _ => (0, 0)⟩, []⟩ (getlines '\n' text)
  return ⟨st.numVars, st.clauses, st.counts⟩

/-- `cnf_formula::initialize` for a file with this text. -/
def CnfFormula.load (useContDatastruct : Bool) (text : Text) : Except Exn CnfFormula := do
  let r ← read text
  CnfFormula.initializeFormula useContDatastruct r.numVars r.clauses r.counts

end ParallelProbsat.Sat
