/-
`prob_func_cached`, the table in front of a probability function, shared by any number of instances over
different formulas. The constructor of an instance makes the table large enough for its own formula, and it never
shrinks; the break counts of an instance stay within what its formula allows; and a cell holds 0 until it holds the
value of its index. So every call finds its cell and returns the value of the function, whoever has filled the table
before, and whether or not the lock was free.
-/
import ParallelProbsat.Lib.Runs
import ParallelProbsat.Sat.CounterRanges

namespace ParallelProbsat.Sat

open ParallelProbsat.Lib ParallelProbsat.Util

/-! ## The table -/

namespace ProbFuncCached

variable {K : Type} [Preorder K] [Zero K] [DecidableLT K] (multithreaded manythreads : Bool) (pfi : Int → K)

/-- `calc_prob_function`: the table afterwards and the result; `locked` is what `try_lock` returns. -/
def calcProbFunction (cache : Vec K) (numBreaks : Int) (locked : Bool) : Vec K × K :=
  let f := pfi numBreaks
  let v := cache.get numBreaks
  if 0 < v then (cache, v)
  else if multithreaded then
    if manythreads then
      if locked then (cache.set numBreaks f, f) else (cache, f)
    else (cache.set numBreaks f, f)
  else (cache.set numBreaks f, f)

def setMaxNumBreaksPossible (cache : Vec K) (numBreaks : Int) : Vec K :=
  if (cache.size : Int) ≤ sizeT numBreaks then cache.resize (numBreaks + 1).toNat 0 else cache

/-- Every cell holds 0 or the value of its index. -/
def Holds (cache : Vec K) : Prop := ∀ i : Int, 0 ≤ i → i < cache.size → cache.get i = 0 ∨ cache.get i = pfi i

variable {pfi} {cache : Vec K}

omit [Preorder K] [DecidableLT K] in
theorem Holds.set (h : Holds pfi cache) (i : Int) : Holds pfi (cache.set i (pfi i)) := by
  intro j h0 hj
  rw [Vec.get_set]
  split
  · rename_i hji
    exact .inr (by rw [hji])
  · exact h j h0 hj

theorem Holds.call (h : Holds pfi cache) {i : Int} (h0 : 0 ≤ i) (hi : i < cache.size) (locked : Bool) :
    (calcProbFunction multithreaded manythreads pfi cache i locked).2 = pfi i ∧
      Holds pfi (calcProbFunction multithreaded manythreads pfi cache i locked).1 ∧
      (calcProbFunction multithreaded manythreads pfi cache i locked).1.size = cache.size := by
  unfold calcProbFunction
  simp only
  split_ifs with hv
  · refine ⟨?_, h, rfl⟩
    rcases h i h0 hi with hz | he
    · rw [hz] at hv
      exact absurd hv (lt_irrefl 0)
    · exact he
  all_goals first
    | exact ⟨rfl, h, rfl⟩
    | exact ⟨rfl, h.set i, rfl⟩

omit [Preorder K] [DecidableLT K] in
/-- The table only grows, with cells that hold 0. -/
theorem Holds.setMax (h : Holds pfi cache) {m : Int} (h0 : 0 ≤ m) (hm : m < 2 ^ 64) :
    Holds pfi (setMaxNumBreaksPossible cache m) ∧ cache.size ≤ (setMaxNumBreaksPossible cache m).size ∧
      m < (setMaxNumBreaksPossible cache m).size := by
  have hs : sizeT m = m := Int.emod_eq_of_lt h0 hm
  unfold setMaxNumBreaksPossible
  rw [hs]
  split
  · refine ⟨fun i hi0 hi => ?_, ?_, ?_⟩
    · rw [Vec.get_resize]
      split
      · exact h i hi0 (by assumption)
      · exact .inl rfl
    · simp only [Vec.size_resize]
      omega
    · simp only [Vec.size_resize]
      omega
  · exact ⟨h, le_rfl, by omega⟩

end ProbFuncCached

/-! ## Instances that share a table -/

/-- A formula whose index was built from exact counts. -/
structure CountedFormula where
  formula : CnfFormula
  n : Int
  clauses : List Clause
  counts : Counts
  exact : SerialInstance.ExactCounts n clauses counts
  built : CnfFormula.initializeFormula true n clauses counts = .ok formula

namespace CountedFormula

variable (F : CountedFormula)

theorem wellFormed : F.formula.WellFormed := F.exact.wellFormed F.built

theorem clean : ∀ c ∈ F.formula.clauses, Clean c := by
  rw [(initializeFormula_frame F.built).2]
  exact F.exact.clean

theorem boundsBreaks : SerialInstance.BoundsBreaks F.formula := F.exact.boundsBreaks F.built

theorem exactAt {v : Int} (h0 : 0 ≤ v) (hv : v < F.formula.numVariables) : F.formula.ExactAt v :=
  F.exact.exactAt F.built h0 hv

end CountedFormula

/-- An instance, and the index of the loop over the weights its current `do_flip` is at. -/
structure CacheUser where
  formula : CountedFormula
  state : SerialInstance
  next : Nat

namespace CacheUser

def rclause (u : CacheUser) : Clause := u.state.pickedClause u.formula.formula

/-- The argument of the next call. -/
def numBreaks (u : CacheUser) : Int :=
  u.state.getNumBreaksByFlip u.formula.formula (u.rclause.subscript u.next) defaultBuild.caching

end CacheUser

/-- A call of `calc_prob_function`: its argument, the size of the table it was made on, and its result. -/
structure CacheCall (K : Type) where
  numBreaks : Int
  size : Nat
  result : K

/-- The table, the instances, and the calls so far. -/
structure CacheShare (K : Type) where
  cache : Vec K
  users : List CacheUser
  calls : List (CacheCall K)

/-- What one of the instances does next. -/
inductive CacheEvent
  | construct (F : CountedFormula) (mem : SerialInstance.Memory) (config : Bitfield)
      (hc : SerialInstance.HasAssignment F.formula config)
  /-- The next weight of the current `do_flip`. -/
  | weigh (user : Nat) (locked : Bool)
  /-- The end of `do_flip`, with the literal at this position. -/
  | flip (user : Nat) (position : Nat)

namespace CacheShare

variable {K : Type} [Preorder K] [Zero K] [DecidableLT K] (multithreaded manythreads : Bool) (pfi : Int → K)

def start : CacheShare K := ⟨.filled 0 0, [], []⟩

def step (s : CacheShare K) : CacheEvent → Option (CacheShare K)
  | .construct F mem config _ =>
    some { s with
      cache := ProbFuncCached.setMaxNumBreaksPossible s.cache F.formula.maxNumBreaksPossible
      users := s.users ++ [⟨F, .new defaultBuild F.formula mem config, 0⟩] }
  | .weigh user locked =>
    match s.users[user]? with
    | none => none
    | some u =>
      if u.state.foundSolution = false ∧ u.next < u.rclause.numVars then
        let r := ProbFuncCached.calcProbFunction multithreaded manythreads pfi s.cache u.numBreaks locked
        some { cache := r.1
               users := s.users.set user { u with next := u.next + 1 }
               calls := s.calls ++ [⟨u.numBreaks, s.cache.size, r.2⟩] }
      else none
  | .flip user position =>
    match s.users[user]? with
    | none => none
    | some u =>
      if u.state.foundSolution = false ∧ u.next = u.rclause.numVars ∧ position < u.rclause.numVars then
        some { s with
          users := s.users.set user { u with
            state := .flipChosen defaultBuild u.formula.formula u.state (u.rclause.subscript position)
            next := 0 } }
      else none

/-- The runs of any instances, in any order. -/
abbrev Run (es : List CacheEvent) (s : CacheShare K) : Prop :=
  Traced (step multithreaded manythreads pfi) (fun _ _ _ => True) [] start es s

/-- The table holds nothing wrong and is large enough for every instance, the caches of the instances are exact, and
the calls so far were right. -/
structure Inv (s : CacheShare K) : Prop where
  holds : ProbFuncCached.Holds pfi s.cache
  user : ∀ u ∈ s.users, SerialInstance.CacheInv defaultBuild u.formula.formula u.state ∧
    u.formula.formula.maxNumBreaksPossible < s.cache.size
  call : ∀ call ∈ s.calls, (0 ≤ call.numBreaks ∧ call.numBreaks < call.size) ∧ call.result = pfi call.numBreaks

variable {multithreaded manythreads pfi}

/-- What a step does. -/
inductive Stepped (multithreaded manythreads : Bool) (pfi : Int → K) (s : CacheShare K) : CacheShare K → Prop
  | construct (F : CountedFormula) (mem : SerialInstance.Memory) (config : Bitfield)
      (hc : SerialInstance.HasAssignment F.formula config) :
      Stepped multithreaded manythreads pfi s
        { s with
          cache := ProbFuncCached.setMaxNumBreaksPossible s.cache F.formula.maxNumBreaksPossible
          users := s.users ++ [⟨F, .new defaultBuild F.formula mem config, 0⟩] }
  | weigh (user : Nat) (u : CacheUser) (locked : Bool) (hu : u ∈ s.users) (hrun : u.state.foundSolution = false)
      (hnext : u.next < u.rclause.numVars) :
      Stepped multithreaded manythreads pfi s
        { cache := (ProbFuncCached.calcProbFunction multithreaded manythreads pfi s.cache u.numBreaks locked).1
          users := s.users.set user { u with next := u.next + 1 }
          calls := s.calls ++ [⟨u.numBreaks, s.cache.size,
            (ProbFuncCached.calcProbFunction multithreaded manythreads pfi s.cache u.numBreaks locked).2⟩] }
  | flip (user position : Nat) (u : CacheUser) (hu : u ∈ s.users) (hrun : u.state.foundSolution = false)
      (hpos : position < u.rclause.numVars) :
      Stepped multithreaded manythreads pfi s
        { s with
          users := s.users.set user { u with
            state := .flipChosen defaultBuild u.formula.formula u.state (u.rclause.subscript position)
            next := 0 } }

theorem step_cases {s s' : CacheShare K} {e : CacheEvent} (hs : s.step multithreaded manythreads pfi e = some s') :
    Stepped multithreaded manythreads pfi s s' := by
  cases e with
  | construct F mem config hc =>
    cases hs
    exact .construct F mem config hc
  | weigh user locked =>
    simp only [CacheShare.step] at hs
    split at hs
    · cases hs
    · rename_i u hget
      split at hs
      · rename_i hok
        cases hs
        exact .weigh user u locked (List.mem_of_getElem? hget) hok.1 hok.2
      · cases hs
  | flip user position =>
    simp only [CacheShare.step] at hs
    split at hs
    · cases hs
    · rename_i u hget
      split at hs
      · rename_i hok
        cases hs
        exact .flip user position u (List.mem_of_getElem? hget) hok.1 hok.2.2
      · cases hs

omit [Preorder K] [DecidableLT K] in
theorem Inv.start : Inv pfi (start : CacheShare K) := by
  refine ⟨fun i h0 hi => ?_, fun u hu => ?_, fun call hcall => ?_⟩
  · exact .inl rfl
  · cases hu
  · cases hcall

omit [Preorder K] [DecidableLT K] in
/-- The argument of a call is within the table. -/
theorem Inv.numBreaks {s : CacheShare K} (h : Inv pfi s) {u : CacheUser} (hu : u ∈ s.users)
    (hrun : u.state.foundSolution = false) (hnext : u.next < u.rclause.numVars) :
    0 ≤ u.numBreaks ∧ u.numBreaks < s.cache.size := by
  obtain ⟨hinv, hsize⟩ := h.user u hu
  have hr := (hinv.list.picked hrun).1
  have hlit := u.formula.wellFormed.isLiteral hr (Clause.subscript_mem hnext)
  have hrange := (hinv.list.tracks.inRanges hinv.caches u.formula.boundsBreaks fun _ _ => le_rfl).counters
  have hb : 0 ≤ u.numBreaks ∧ u.numBreaks ≤ u.formula.formula.maxNumBreaksPossible :=
    hrange _ (varIndex_nonneg hlit.1) hlit.2
  omega

theorem Inv.step {s s' : CacheShare K} {e : CacheEvent} (h : Inv pfi s)
    (hs : s.step multithreaded manythreads pfi e = some s') : Inv pfi s' := by
  cases step_cases hs with
  | construct F mem config hc =>
    have hfits : F.formula.maxNumBreaksPossible ≤ 2 ^ 15 - 1 := F.boundsBreaks.fits
    obtain ⟨hholds, hle, hlt⟩ := h.holds.setMax F.boundsBreaks.nonneg (by omega)
    refine ⟨hholds, fun u hu => ?_, h.call⟩
    rcases List.mem_append.1 hu with hu | hu
    · obtain ⟨hinv, hsize⟩ := h.user u hu
      exact ⟨hinv, by simp only; omega⟩
    · obtain rfl := List.mem_singleton.1 hu
      exact ⟨.new F.wellFormed defaultBuild mem hc, hlt⟩
  | weigh user u locked hu hrun hnext =>
    obtain ⟨h0, hlt⟩ := h.numBreaks hu hrun hnext
    obtain ⟨hres, hholds, hsize⟩ := h.holds.call multithreaded manythreads h0 hlt locked
    refine ⟨hholds, fun u' hu' => ?_, fun call hcall => ?_⟩
    · simp only [hsize]
      rcases List.mem_or_eq_of_mem_set hu' with hu' | rfl
      · exact h.user u' hu'
      · exact h.user u hu
    · rcases List.mem_append.1 hcall with hcall | hcall
      · exact h.call call hcall
      · obtain rfl := List.mem_singleton.1 hcall
        exact ⟨⟨h0, hlt⟩, hres⟩
  | flip user position u hu hrun hpos =>
    obtain ⟨hinv, hsize⟩ := h.user u hu
    refine ⟨h.holds, fun u' hu' => ?_, h.call⟩
    rcases List.mem_or_eq_of_mem_set hu' with hu' | rfl
    · exact h.user u' hu'
    · -- the flip keeps the caches of the instance exact
      have hmem := Clause.subscript_mem hpos
      have hlit := u.formula.wellFormed.isLiteral (hinv.list.picked hrun).1 hmem
      exact ⟨hinv.flipChosen u.formula.wellFormed (fun _ => u.formula.clean) hrun hmem
        (u.formula.exactAt (varIndex_nonneg hlit.1) hlit.2), hsize⟩

theorem Run.inv {es : List CacheEvent} {s : CacheShare K} (h : Run multithreaded manythreads pfi es s) : Inv pfi s :=
  h.invariant (P := fun _ s => Inv pfi s) .start fun _ _ _ _ _ hI _ hs => hI.step hs

/-- Every call of every run finds its cell and returns the value of the function. -/
theorem cached_eq_plain (multithreaded manythreads : Bool) (pfi : Int → K) (es : List CacheEvent) (s : CacheShare K)
    (h : Run multithreaded manythreads pfi es s) (call : CacheCall K) (hcall : call ∈ s.calls) :
    (0 ≤ call.numBreaks ∧ call.numBreaks < call.size) ∧ call.result = pfi call.numBreaks :=
  h.inv.call call hcall

/-- The three clauses, with the counts they were built from. -/
def threeCounted : CountedFormula where
  formula := SerialInstance.threeFormula true
  n := 2
  clauses := SerialInstance.threeClauses.clauses
  counts := SerialInstance.threeCounts
  exact := SerialInstance.threeClauses_exactCounts
  built := rfl

/-- Two instances over them; both ask for the first weight, and the second one does not get the lock. -/
def twoUsers : List CacheEvent :=
  [.construct threeCounted ⟨0, 0, 0, 0⟩ ⟨2, 2, false, 0⟩ ⟨rfl, by decide, by decide⟩,
    .construct threeCounted ⟨0, 0, 0, 0⟩ ⟨2, 2, false, 0⟩ ⟨rfl, by decide, by decide⟩,
    .weigh 1 false, .weigh 0 true, .weigh 1 true, .weigh 0 true, .flip 0 1]

theorem cached_eq_plain_twoUsers : ∃ s call, Run true true (fun b => if b = 0 then (1 : ℚ) else 1 / 2) twoUsers s ∧
    s.calls[1]? = some call ∧
    (0 ≤ call.numBreaks ∧ call.numBreaks < call.size) ∧
    call.result = if call.numBreaks = 0 then (1 : ℚ) else 1 / 2 := by
  have hlength : (replay (step true true fun b => if b = 0 then (1 : ℚ) else 1 / 2) (fun _ _ _ => True)
    [] start twoUsers).map
      (fun s => s.calls.length) = some 4 := by decide +kernel
  obtain ⟨s, hs, hcalls⟩ := Option.map_eq_some_iff.1 hlength
  have hrun : Run true true (fun b => if b = 0 then (1 : ℚ) else 1 / 2) twoUsers s := Traced.of_replay hs
  have hget : s.calls[1]? = some (s.calls.get ⟨1, by omega⟩) := List.getElem?_eq_getElem (by omega)
  exact ⟨s, _, hrun, hget, cached_eq_plain true true _ twoUsers s hrun _ (List.mem_of_getElem? hget)⟩

end CacheShare

end ParallelProbsat.Sat
