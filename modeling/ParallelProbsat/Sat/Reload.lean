/-
`cnf_formula::initialize()` called again on the same object, one call after the other, in the worker build
(`ENALBE_CNF_MULTITHREAD_SHARING` 1, `USE_CONT_DATASTRUCT` 1).

`read` pushes the clauses into the member vector while it reads, and the test for a formula that is loaded
already asks for that vector only. So a call that throws after it has stored a clause leaves a formula that the
next call takes as loaded; one that has stored none throws in every later call.
-/
import ParallelProbsat.Sat.Initialize
import ParallelProbsat.Sat.ReadCounts

namespace ParallelProbsat.Sat

open ParallelProbsat.Lib ParallelProbsat.Util

/-! ## The object -/

/-- The members of a `cnf_formula`; what a call that throws leaves in them stays. -/
structure FormulaObject where
  numVariables : Int
  clauses : List Clause
  occurrenceOffset : Vec (Int × Int)
  clausesWithVars : Vec Int
  maxNumBreaksPossible : Int

namespace FormulaObject

def new : FormulaObject := ⟨0, [], .filled 0 (0, 0), .filled 0 0, 0⟩

/-- The loop over the variables, with the offsets it has written when it throws. -/
def offsetLoop (counts : Counts) : List Nat → Vec (Int × Int) × Int → Vec (Int × Int) × Except Exn Int
  | [], acc => (acc.1, .ok acc.2)
  | i :: rest, acc =>
    match offsetStep counts acc i with
    | .error e => (acc.1.set i (acc.2, (counts.get i).1), .error e)
    | .ok acc => offsetLoop counts rest acc

/-- `cnf_formula_constructor_variant_cont_datastruct` -/
def constructorVariantContDatastruct (obj : FormulaObject) (counts : Counts) : FormulaObject × Except Exn Unit :=
  let (offsets, sum) := offsetLoop counts (List.range obj.numVariables.toNat)
    (obj.occurrenceOffset.resize (obj.numVariables + 1).toNat (0, 0), 0)
  match sum with
  | .error e => ({ obj with occurrenceOffset := offsets }, .error e)
  | .ok sum =>
    let occurrenceOffset := offsets.set obj.numVariables (sum, 0)
    let st := (occurrences obj.clauses).foldl (contFillStep occurrenceOffset)
      { clausesWithVars := obj.clausesWithVars.resize sum.toNat 0
        currentlyInitialized := .filled obj.numVariables.toNat (0, 0)
        maxNumBreaksPossible := obj.maxNumBreaksPossible }
    ({ obj with
        occurrenceOffset := occurrenceOffset
        clausesWithVars := st.clausesWithVars
        maxNumBreaksPossible := st.maxNumBreaksPossible }, .ok ())

/-- `cnf_formula::initialize()` when the file has this text. -/
def callInitialize (obj : FormulaObject) (text : Text) : FormulaObject × Except Exn Unit :=
  if 0 < obj.clauses.length then (obj, .ok ()) -- already initialized
  else
    let obj := { obj with clauses := pushedBefore ⟨0, 0, [], ⟨0, fun _ => (0, 0)⟩, []⟩ (getlines '\n' text) }
    match read text with
    | .error e => (obj, .error e)
    | .ok r => { obj with numVariables := r.numVars }.constructorVariantContDatastruct r.counts

/-- The object after `n` calls. -/
def after (obj : FormulaObject) (text : Text) : Nat → FormulaObject
  | 0 => obj
  | n + 1 => ((obj.after text n).callInitialize text).1

/-- Every later call throws, so none returns with what is left of a load. -/
def ThrowsAgain (obj : FormulaObject) (text : Text) : Prop :=
  ∀ n, ∃ e, ((obj.after text (n + 1)).callInitialize text).2 = .error e

end FormulaObject

/-- The lines in front of the first one that `parse_configuration` or `parse_clause` throws at. -/
def acceptedLines (st : ReadState) : List Text → List Text
  | [] => []
  | line :: rest =>
    match readLine st line with
    | .error _ => []
    | .ok st => line :: acceptedLines st rest

/-- Every clause line of a text that is accepted is always true. -/
def NothingStored (text : Text) : Prop :=
  ∀ line ∈ acceptedLines ⟨0, 0, [], ⟨0, fun _ => (0, 0)⟩, []⟩ (textLines text),
    isClauseLine line = true → isAlwaysTrue (storedLiterals line) = true

instance (text : Text) : Decidable (NothingStored text) :=
  inferInstanceAs (Decidable (∀ line ∈ acceptedLines _ _, _ → _))

/-! ## What `read` stores -/

theorem LineRead.clauses_eq {line : Text} {st st' : ReadState} (h : LineRead line st st') :
    st'.clauses = st.clauses ++ keptClauses [line] := by
  cases h with
  | skipped hline _ hst => simp [hst, keptClauses, hline]
  | configuration _ hline _ _ _ hclauses _ => simp [hclauses, keptClauses, hline]
  | clause hline _ _ _ _ _ hclauses =>
    rw [hclauses]
    cases h : isAlwaysTrue (storedLiterals line) <;> simp [keptClauses, hline, h]

theorem keptClauses_append (lines lines' : List Text) :
    keptClauses (lines ++ lines') = keptClauses lines ++ keptClauses lines' := by
  unfold keptClauses
  rw [List.filter_append, List.map_append]

/-- The vector holds the clauses of the accepted lines when `read` returns or throws. -/
theorem pushedBefore_eq : ∀ (lines : List Text) (st : ReadState), ReadInv st →
    pushedBefore st lines = st.clauses ++ keptClauses (acceptedLines st lines)
  | [], st, _ => by simp [pushedBefore, acceptedLines, keptClauses]
  | line :: rest, st, hI => by
    rw [pushedBefore, acceptedLines]
    cases h : readLine st line with
    | error fault => simp [keptClauses]
    | ok st₁ =>
      obtain ⟨hI₁, hL⟩ := readLine_ok hI h
      simp only
      rw [pushedBefore_eq rest st₁ hI₁, hL.clauses_eq, List.append_assoc, ← keptClauses_append]
      rfl

theorem nothingStored_iff (text : Text) : NothingStored text ↔
    pushedBefore ⟨0, 0, [], ⟨0, fun _ => (0, 0)⟩, []⟩ (getlines '\n' text) = [] := by
  rw [pushedBefore_eq _ _ .start, List.nil_append]
  unfold NothingStored keptClauses textLines
  simp only [List.map_eq_nil_iff, List.filter_eq_nil_iff, Bool.and_eq_true, Bool.not_eq_true', not_and,
    Bool.not_eq_false]

/-! ## One call -/

/-- The entries that are overwritten do not matter for the sum. -/
theorem offsetLoop_snd (counts : Counts) : ∀ (l : List Nat) (v v' : Vec (Int × Int)) (sum : Int),
    (FormulaObject.offsetLoop counts l (v, sum)).2 = (FormulaObject.offsetLoop counts l (v', sum)).2
  | [], _, _, _ => rfl
  | i :: rest, v, v', sum => by
    unfold FormulaObject.offsetLoop offsetStep
    dsimp only
    split_ifs
    · rfl
    · exact offsetLoop_snd counts rest _ _ _

theorem foldlM_offsetStep (counts : Counts) : ∀ (l : List Nat) (acc : Vec (Int × Int) × Int),
    l.foldlM (offsetStep counts) acc =
      match FormulaObject.offsetLoop counts l acc with
      | (v, .ok sum) => .ok (v, sum)
      | (_, .error e) => .error e
  | [], acc => rfl
  | i :: rest, acc => by
    rw [List.foldlM_cons, FormulaObject.offsetLoop]
    cases h : offsetStep counts acc i with
    | error e => rfl
    | ok acc => exact foldlM_offsetStep counts rest acc

namespace FormulaObject

variable {obj obj' : FormulaObject} {text : Text} {e : Exn}

/-- The formula an object holds. -/
def toFormula (obj : FormulaObject) : CnfFormula :=
  ⟨obj.numVariables, obj.clauses, .cont ⟨obj.occurrenceOffset, obj.clausesWithVars⟩, obj.maxNumBreaksPossible⟩

theorem callInitialize_loaded (h : obj.clauses ≠ []) (text : Text) : obj.callInitialize text = (obj, .ok ()) :=
  if_pos (List.length_pos_iff.2 h)

theorem constructor_clauses (obj : FormulaObject) (counts : Counts) :
    (obj.constructorVariantContDatastruct counts).1.clauses = obj.clauses := by
  unfold constructorVariantContDatastruct
  dsimp only
  split <;> rfl

/-- A call that does not find the formula loaded leaves the clauses of the accepted lines. -/
theorem callInitialize_clauses (h : obj.clauses = []) (text : Text) : (obj.callInitialize text).1.clauses =
    pushedBefore ⟨0, 0, [], ⟨0, fun _ => (0, 0)⟩, []⟩ (getlines '\n' text) := by
  unfold callInitialize
  rw [if_neg (by simp [h])]
  cases read text with
  | error e => rfl
  | ok r => exact constructor_clauses _ _

/-- How it ends does not depend on what an earlier call left in the other members. -/
theorem callInitialize_snd (h : obj.clauses = []) (h' : obj'.clauses = []) (text : Text) :
    (obj.callInitialize text).2 = (obj'.callInitialize text).2 := by
  unfold callInitialize
  rw [if_neg (by simp [h]), if_neg (by simp [h'])]
  cases read text with
  | error e => rfl
  | ok r =>
    unfold constructorVariantContDatastruct
    dsimp only
    rw [offsetLoop_snd r.counts _ (obj.occurrenceOffset.resize _ _)
      (obj'.occurrenceOffset.resize (r.numVars + 1).toNat (0, 0))]
    split <;> rfl

theorem clauses_of_throws (h : (obj.callInitialize text).2 = .error e) : obj.clauses = [] := by
  by_contra hne
  rw [callInitialize_loaded hne] at h
  cases h

/-! ## The calls after one that threw -/

/-- What a throw leaves: when a clause was stored, the next call returns at once, with the members as they are. -/
theorem returns_of_stored (h : (obj.callInitialize text).2 = .error e) (hs : ¬ NothingStored text) :
    (obj.after text 1).clauses ≠ [] ∧ (obj.after text 1).callInitialize text = (obj.after text 1, .ok ()) := by
  have hne : (obj.after text 1).clauses ≠ [] := by
    rw [after, after, callInitialize_clauses (clauses_of_throws h)]
    exact fun hnil => hs ((nothingStored_iff text).2 hnil)
  exact ⟨hne, callInitialize_loaded hne text⟩

/-- When `read` threw, the number of variables and the index are those from before. -/
theorem members_of_read_throws (h : obj.clauses = []) (hr : read text = .error e) :
    (obj.after text 1).numVariables = obj.numVariables ∧ (obj.after text 1).occurrenceOffset = obj.occurrenceOffset ∧
      (obj.after text 1).clausesWithVars = obj.clausesWithVars := by
  rw [after, after, callInitialize, if_neg (by simp [h]), hr]
  exact ⟨rfl, rfl, rfl⟩

theorem after_clauses (h : (obj.callInitialize text).2 = .error e) (hs : NothingStored text) :
    ∀ n, (obj.after text n).clauses = []
  | 0 => clauses_of_throws h
  | n + 1 => by
    rw [after, callInitialize_clauses (after_clauses h hs n)]
    exact (nothingStored_iff text).1 hs

end FormulaObject

/-- After a call that throws, every later one throws again exactly when no clause had been stored. -/
theorem throws_again_iff (obj : FormulaObject) (text : Text) (e : Exn) (h : (obj.callInitialize text).2 = .error e) :
    obj.ThrowsAgain text ↔ NothingStored text := by
  constructor
  · intro hagain
    by_contra hs
    obtain ⟨e', he'⟩ := hagain 0
    rw [(FormulaObject.returns_of_stored h hs).2] at he'
    cases he'
  · intro hs n
    refine ⟨e, ?_⟩
    rw [← h]
    exact FormulaObject.callInitialize_snd (FormulaObject.after_clauses h hs _) (FormulaObject.clauses_of_throws h) text

/-- A vector that is not there yet is filled by `resize`. -/
theorem resize_filled {α : Type} (m n : Nat) (a : α) : (Vec.filled m a).resize n a = .filled n a := by
  unfold Vec.resize Vec.filled
  simp

theorem pushedBefore_ok : ∀ (lines : List Text) (k : Nat) (st st' : ReadState), readLines k st lines = .ok st' →
    pushedBefore st lines = st'.clauses
  | [], k, st, st', h => by
    cases h
    rfl
  | line :: rest, k, st, st', h => by
    unfold readLines at h
    unfold pushedBefore
    cases hr : readLine st line with
    | error fault => rw [hr] at h; cases h
    | ok st₁ =>
      rw [hr] at h
      exact pushedBefore_ok rest _ st₁ st' h

/-- The vector holds the clauses that `read` returns. -/
theorem pushedBefore_read {text : Text} {r : Input} (hr : read text = .ok r) :
    pushedBefore ⟨0, 0, [], ⟨0, fun _ => (0, 0)⟩, []⟩ (getlines '\n' text) = r.clauses := by
  unfold read at hr
  obtain ⟨st, hst, hr⟩ := bind_ok hr
  cases hr
  exact pushedBefore_ok _ _ _ _ hst

/-- The first call on a new object loads the text, or throws. -/
theorem callInitialize_new (text : Text) : CnfFormula.load true text =
    match FormulaObject.new.callInitialize text with
    | (obj, .ok _) => .ok obj.toFormula
    | (_, .error e) => .error e := by
  unfold CnfFormula.load FormulaObject.callInitialize
  rw [if_neg (by simp [FormulaObject.new])]
  cases hr : read text with
  | error e => rfl
  | ok r =>
    unfold FormulaObject.constructorVariantContDatastruct FormulaObject.new
    simp only [pushedBefore_read hr, resize_filled]
    change CnfFormula.initializeFormula true r.numVars r.clauses r.counts = _
    unfold CnfFormula.initializeFormula Sat.constructorVariantContDatastruct
    rw [if_pos rfl, foldlM_offsetStep]
    rcases FormulaObject.offsetLoop r.counts (List.range r.numVars.toNat) (.filled (r.numVars + 1).toNat (0, 0), 0) with
      ⟨v, e | sum⟩
    · rfl
    · rfl

/-! ## A file that `read` accepts -/

namespace FormulaObject

variable {obj : FormulaObject} {text : Text} {r : Input}

theorem constructor_numVariables (obj : FormulaObject) (counts : Counts) :
    (obj.constructorVariantContDatastruct counts).1.numVariables = obj.numVariables := by
  unfold constructorVariantContDatastruct
  dsimp only
  split <;> rfl

theorem callInitialize_read (h : obj.clauses = []) (hr : read text = .ok r) :
    (obj.callInitialize text).1.clauses = r.clauses ∧ (obj.callInitialize text).1.numVariables = r.numVars := by
  constructor
  · rw [callInitialize_clauses h]
    exact pushedBefore_read hr
  · unfold callInitialize
    rw [if_neg (by simp [h]), hr]
    exact constructor_numVariables _ _

/-- From the first call on the object holds what `read` returns, also when the index cannot be built. -/
theorem after_read (hr : read text = .ok r) :
    ∀ n, (new.after text (n + 1)).clauses = r.clauses ∧ (new.after text (n + 1)).numVariables = r.numVars
  | 0 => callInitialize_read rfl hr
  | n + 1 => by
    by_cases hc : (new.after text (n + 1)).clauses = []
    · exact callInitialize_read hc hr
    · rw [after, callInitialize_loaded hc]
      exact after_read hr n

end FormulaObject

/-! ## A file with an error in its third line -/

/-- "p cnf 2 2", "1 0", "x". -/
def cutOffText : Text := ['p', ' ', 'c', 'n', 'f', ' ', '2', ' ', '2', '\n', '1', ' ', '0', '\n', 'x']

/-- "p cnf 2 2", "1 -1 0", "x". -/
def cutOffTrueText : Text :=
  ['p', ' ', 'c', 'n', 'f', ' ', '2', ' ', '2', '\n', '1', ' ', '-', '1', ' ', '0', '\n', 'x']

theorem exists_error {x : Except Exn Unit} (h : x.isOk = false) : ∃ e, x = .error e := by
  cases x with
  | error e => exact ⟨e, rfl⟩
  | ok a => cases h

theorem throws_again_cutOffTrue :
    NothingStored cutOffTrueText ∧ ∃ e, (FormulaObject.new.callInitialize cutOffTrueText).2 = .error e ∧
    (FormulaObject.new.ThrowsAgain cutOffTrueText ↔ NothingStored cutOffTrueText) := by
  obtain ⟨e, he⟩ := exists_error (x := (FormulaObject.new.callInitialize cutOffTrueText).2)
    (by decide +kernel)
  exact ⟨by decide +kernel, e, he, throws_again_iff .new cutOffTrueText e he⟩

/-- A clause is stored before the error: the next call returns, and there is a clause over no variables. -/
theorem throws_once :
    (∃ e, (FormulaObject.new.callInitialize cutOffText).2 = .error e) ∧ ¬ FormulaObject.new.ThrowsAgain cutOffText ∧
      (FormulaObject.new.after cutOffText 1).clauses = [[1]] ∧
        (FormulaObject.new.after cutOffText 1).numVariables = 0 := by
  obtain ⟨e, he⟩ := exists_error (x := (FormulaObject.new.callInitialize cutOffText).2) (by decide +kernel)
  refine ⟨⟨e, he⟩, fun h => ?_, by decide +kernel, by decide +kernel⟩
  obtain ⟨e', he'⟩ := h 0
  rw [(FormulaObject.returns_of_stored he (by decide +kernel)).2] at he'
  cases he'

end ParallelProbsat.Sat
